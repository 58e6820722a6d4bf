import Invokr.Creation

namespace Invokr

open TxLib

variable {env : Setup} {g : Guard (service env)} {acts : List (Action (service env))} {t : Nat}
  {schemaName endpoint key : String}

/-- The request asks for a job of the endpoint under the key. -/
def Rival (schemaName endpoint key : String) (req : Request env) : Prop :=
  ∃ body : CreateJob, req = .createJob schemaName body ∧ body.endpoint = endpoint ∧ body.idempotencyKey = some key

/-- The job of the endpoint under the key. -/
structure KeyedJob (D : Rows Pg) (schemaName endpoint key : String) (k : Key) (j : Job) : Prop where
  row : D .jobs k = some j
  schema : k.schema = schemaName
  endpoint : j.endpoint = endpoint
  key : j.idempotencyKey = some key

theorem KeyedJob.unique {w : World Pg} (sound : Sound w) {k k' : Key} {j j' : Job}
    (h : KeyedJob w.rows schemaName endpoint key k j) (h' : KeyedJob w.rows schemaName endpoint key k' j') : k = k' := by
  refine sound.unique .jobs k k' j j' (Or.inl h.row) (Or.inl h'.row) ?_ (by simp [Table.unique, h.key])
  simp [Table.unique, h.key, h'.key, h.endpoint, h'.endpoint, h.schema, h'.schema]

theorem KeyedJob.later {D D' : Rows Pg} {k : Key} {j : Job} (h : KeyedJob D schemaName endpoint key k j) (later : Later D D') :
    ∃ j', KeyedJob D' schemaName endpoint key k j' := by
  obtain ⟨j', hj', same⟩ := later.job k j h.row
  obtain ⟨_, hep, _, _, _, hkey, _⟩ := same.columns
  exact ⟨j', hj', h.schema, hep.trans h.endpoint, hkey.trans h.key⟩

/-- A row appears at one point of the run only. -/
theorem appears_once {before before' rest rest' : List (Action (service env))} {x x' : Action (service env)}
    (hacts : acts = before ++ x :: rest) (hacts' : acts = before' ++ x' :: rest') {k : Key} {j : Job}
    (hj : (after (before ++ [x])).world.rows .jobs k = some j) (hn' : (after before').world.rows .jobs k = none) :
    before'.length ≤ before.length := by
  by_contra hlt
  have hpre : before ++ [x] <+: before' := by
    have hleft : before ++ [x] <+: acts := ⟨rest, by simp [hacts]⟩
    refine List.prefix_of_prefix_length_le hleft ⟨x' :: rest', hacts'.symm⟩ ?_
    simp
    omega
  obtain ⟨between, rfl⟩ := hpre
  have later := later_run (keeps_all (before ++ [x])) (Pool.meets_all _ between)
  rw [← Pool.run_append] at later
  obtain ⟨j', hj', _⟩ := later.job k j hj
  rw [hn'] at hj'
  cases hj'

/-- What a request that is never held up answers. -/
inductive Settles (D : Rows Pg) (acts : List (Action (service env))) (t : Nat) (schemaName endpoint key : String) :
    Response → Prop where
  | created {j j' : Job} {x : Option (String × ExecutionStatus × Time)} {before rest : List (Action (service env))} {e : Env Pg}
      (split : acts = before ++ .step t e :: rest) (fresh : (after before).world.rows .jobs ⟨schemaName, j.jobId⟩ = none)
      (made : (after (before ++ [.step t e])).world.rows .jobs ⟨schemaName, j.jobId⟩ = some j)
      (job : KeyedJob D schemaName endpoint key ⟨schemaName, j.jobId⟩ j') : Settles D acts t schemaName endpoint key (.ok (.jobCreated j x))
  | found {j j' : Job} {x : Option Execution} (silent : Silent ((after acts).world.history t))
      (job : KeyedJob D schemaName endpoint key ⟨schemaName, j.jobId⟩ j') : Settles D acts t schemaName endpoint key (.ok (.jobFound j x))

theorem settles {body : CreateJob} {trigger : TriggerType} (keeps : (after acts).Keeps (base g) g)
    (hep : body.endpoint = endpoint) (hkey : body.idempotencyKey = some key) (passes : Passes env schemaName body trigger)
    (clear : Clear g schemaName body) {out : Outcome} (answered : (after acts).answer t = some (.createJob schemaName body, out)) :
    ∃ r, out = .http r ∧ Settles (after acts).world.rows acts t schemaName endpoint key r := by
  obtain ⟨w₀, later, hv, post⟩ := keeps_post keeps answered
  have hist : (after acts).world.history t = w₀.history t := congrArg Prod.snd hv
  have hne : body.idempotencyKey ≠ none := by
    rw [hkey]
    exact Option.some_ne_none key
  cases out with
  | http r =>
    refine ⟨r, rfl, ?_⟩
    have created : Created g schemaName body t w₀ r := post.2
    cases r with
    | error x => exact (created.2 trigger hne passes clear).elim
    | ok reply =>
      cases reply with
      | jobCreated j x =>
        obtain ⟨l, s, hl, _, held, hje, hjk⟩ := created
        obtain ⟨before, _, rest, hacts, ⟨e, rfl⟩, hn, hj⟩ := inserted_at (hist.trans hl) held
        have later' := later_run (keeps_all (before ++ [.step t e])) (Pool.meets_all _ rest)
        have hrun : (after (before ++ [.step t e])).run rest = after acts := by simp [after, hacts, ← Pool.run_append]
        rw [hrun] at later'
        have keyed : KeyedJob (after (before ++ [.step t e])).world.rows schemaName endpoint key ⟨schemaName, j.jobId⟩ j :=
          ⟨hj, rfl, hje.trans hep, (hjk hne).trans hkey⟩
        obtain ⟨j', job⟩ := keyed.later later'
        exact .created hacts hn hj job
      | jobFound j x =>
        obtain ⟨silent, ⟨j₁, hj₁, same⟩, hje, hjk, _⟩ := created
        obtain ⟨_, hep₁, _, _, _, hkey₁, _⟩ := same.columns
        have keyed : KeyedJob w₀.rows schemaName endpoint key ⟨schemaName, j.jobId⟩ j₁ :=
          ⟨hj₁, rfl, hep₁.trans (hje.trans hep), hkey₁.trans (hjk.trans hkey)⟩
        obtain ⟨j', job⟩ := keyed.later later
        exact .found (hist ▸ silent) job
      | _ => exact (created : False).elim
  | _ => exact (post.2 : False).elim

/-- The job under the key was made by one of the requests for it. -/
theorem rival_origin (official : Official g) (meets : (Pool.empty (service env)).Meets g acts)
    (undrawn : ∀ req w t e, g.step req w t e (.ext .newUuid) → (e.answer .newUuid : Uuid).val ≠ key) {k : Key} {j : Job}
    (h : KeyedJob (after acts).world.rows schemaName endpoint key k j) : ∃ t th s,
      (after acts).threads t = some th ∧ Rival schemaName endpoint key th.req ∧ Entry.commit s ∈ (after acts).world.history t ∧
      ¬Quiet (M := Pg) .jobs s := by
  obtain ⟨before, x, rest, t, th, s, j₀, hacts, c, hn, hj₀, same⟩ := job_origin meets h.row
  obtain ⟨_, hep, _, _, _, hkey, _⟩ := same.columns
  rw [after_snoc] at hj₀
  have asked := (c.commit.new_job hn hj₀).1
  have rival : Rival schemaName endpoint key th.req := by
    have hkey₀ : j₀.idempotencyKey = some key := hkey.symm.trans h.key
    have loose := official th.req c.started
    unfold Asked at asked
    split at asked
    next req schemaName' body hreq =>
      obtain ⟨hs, he, _, hk⟩ := asked
      refine ⟨body, ?_, ?_, ?_⟩
      · rw [hreq, ← hs, h.schema]
      · rw [← he, ← hep, h.endpoint]
      · rcases hk with hk | ⟨_, w, t, e, hstep, hdraw⟩
        · rw [← hk, hkey₀]
        · exact (undrawn _ w t e hstep (Option.some.inj (hdraw.symm.trans hkey₀))).elim
    next hreq =>
      rw [hreq] at loose
      cases loose
    next hreq =>
      rw [asked.1] at hkey₀
      cases hkey₀
    next hreq =>
      rw [asked] at hkey₀
      cases hkey₀
    next => exact asked.elim
  have quiet : ¬Quiet (M := Pg) .jobs s := by
    intro quiet
    have hsame := (keeps_all before).sound.visible_quiet c.session quiet
    rw [c.rows, hsame, hn] at hj₀
    cases hj₀
  obtain ⟨th', hth', hreq'⟩ := Pool.run_req c.thread (x :: rest)
  have hrun : (after before).run (x :: rest) = after acts := by rw [hacts, after, after, Pool.run_append]
  rw [hrun] at hth'
  exact ⟨t, th', s, hth', hreq' ▸ rival, hacts ▸ c.mem_history, quiet⟩

/-- What the requests for one key have come to when all of them have been answered. -/
structure Agreed (acts : List (Action (service env))) (schemaName endpoint key : String) (k : Key) (j : Job) : Prop where
  job : KeyedJob (after acts).world.rows schemaName endpoint key k j
  only : ∀ k' j', KeyedJob (after acts).world.rows schemaName endpoint key k' j' → k' = k
  execution : j.triggerType ≠ .cron → ∃ ke, ∃ e : Execution, (after acts).world.rows .executions ke = some e ∧
    jobKey ke e = k ∧ ∀ ke' (e' : Execution), (after acts).world.rows .executions ke' = some e' → jobKey ke' e' = k → ke' = ke
  answers : ∃ t₀, (∃ body j₀ x, Rival schemaName endpoint key (.createJob schemaName body : Request env) ∧
      (after acts).answer t₀ = some (.createJob schemaName body, .http (.ok (.jobCreated j₀ x))) ∧ j₀.jobId = k.id) ∧
    ∀ t th, t ≠ t₀ → (after acts).threads t = some th → Rival schemaName endpoint key th.req →
      ∃ j₁ x, (after acts).answer t = some (th.req, .http (.ok (.jobFound j₁ x))) ∧ j₁.jobId = k.id

/-- If every request for a key is valid and meets no obstacle, which a job that another request has
committed under the key since it looked for one would be, then one of them answers 201 with the job,
all others 200 with the same job. -/
theorem idempotent_creation (official : Official g) (acts : List (Action (service env)))
    (meets : (Pool.empty (service env)).Meets g acts) (schemaName endpoint key : String)
    (undrawn : ∀ req w t e, g.step req w t e (.ext .newUuid) → (e.answer .newUuid : Uuid).val ≠ key)
    (valid : ∀ t th body, (after acts).threads t = some th → th.req = .createJob schemaName body →
      Rival schemaName endpoint key th.req → (∃ trigger, Passes env schemaName body trigger) ∧ Clear g schemaName body)
    (finished : ∀ t th, (after acts).threads t = some th → Rival schemaName endpoint key th.req →
      ∃ out, (after acts).answer t = some (th.req, out))
    (some_rival : ∃ t th, (after acts).threads t = some th ∧ Rival schemaName endpoint key th.req) :
    ∃ k j, Agreed acts schemaName endpoint key k j := by
  have keeps := keeps_run meets
  have settled : ∀ t th, (after acts).threads t = some th → Rival schemaName endpoint key th.req →
      ∃ r, (after acts).answer t = some (th.req, .http r) ∧ Settles (after acts).world.rows acts t schemaName endpoint key r := by
    intro t th hth rival
    obtain ⟨body, hreq, hep, hkey⟩ := id rival
    obtain ⟨⟨trigger, passes⟩, clear⟩ := valid t th body hth hreq rival
    obtain ⟨out, hout⟩ := finished t th hth rival
    obtain ⟨r, rfl, h⟩ := settles keeps hep hkey passes clear (hreq ▸ hout)
    exact ⟨r, hout, h⟩
  obtain ⟨k, j, job⟩ : ∃ k j, KeyedJob (after acts).world.rows schemaName endpoint key k j := by
    obtain ⟨t, th, hth, rival⟩ := some_rival
    obtain ⟨r, _, h⟩ := settled t th hth rival
    cases h with
    | created _ _ _ job => exact ⟨_, _, job⟩
    | found _ job => exact ⟨_, _, job⟩
  have only : ∀ k' j', KeyedJob (after acts).world.rows schemaName endpoint key k' j' → k' = k := fun k' j' h =>
    h.unique keeps.sound job
  obtain ⟨t₀, th₀, s, hth₀, rival₀, logged, loud⟩ := rival_origin official meets undrawn job
  obtain ⟨r₀, hr₀, h₀⟩ := settled t₀ th₀ hth₀ rival₀
  refine ⟨k, j, job, only, fun once => ?_, t₀, ?_, fun t th hne hth rival => ?_⟩
  · obtain ⟨ke, e, he, hjob, _, unique⟩ := keeps.inv.together (official_atomic official) k j job.row once
    exact ⟨ke, e, he, hjob, unique⟩
  · cases h₀ with
    | found silent _ => exact (loud (silent s logged).1).elim
    | @created j₀ _ x _ _ _ _ _ _ job₀ =>
      obtain ⟨body, hreq, hep, hkey⟩ := rival₀
      refine ⟨body, j₀, x, ⟨body, rfl, hep, hkey⟩, hreq ▸ hr₀, ?_⟩
      exact congrArg Key.id (only _ _ job₀)
  · obtain ⟨r, hr, h⟩ := settled t th hth rival
    cases h with
    | @found j₁ _ x _ job₁ => exact ⟨j₁, x, hr, congrArg Key.id (only _ _ job₁)⟩
    | @created j₁ _ _ before rest e split fresh made job₁ =>
      cases h₀ with
      | found silent _ => exact (loud (silent s logged).1).elim
      | @created j₀ _ _ before₀ rest₀ e₀ split₀ fresh₀ made₀ job₀ =>
        have hkey : (⟨schemaName, j₁.jobId⟩ : Key) = ⟨schemaName, j₀.jobId⟩ := (only _ _ job₁).trans (only _ _ job₀).symm
        rw [hkey] at fresh made
        have hle := appears_once split split₀ made fresh₀
        have hge := appears_once split₀ split made₀ fresh
        have hsplit := split.symm.trans split₀
        obtain ⟨_, hx⟩ := List.append_inj hsplit (by omega)
        cases hx
        exact (hne rfl).elim

section sample

/-- The runs in which the sample request meets no obstacle. -/
def clearOnly : Guard (service sample) where
  start req := req.library = false
  step req w t e o := (req = .createJob "acme" sampleJob → ¬Obstacle sample "acme" sampleJob w t e o) ∧
    (o = .ext .newUuid → (e.answer .newUuid : Uuid).val ≠ "order-1")
  kill _ _ _ := True

def findsAll (w : World Pg) (e : Env Pg) : Op Pg → Bool
  | .ext .acquire => e.answer .acquire
  | .ext .newUuid => false
  | .snapshot .getEndpoint =>
    (w.rows .endpoints ⟨"acme", "hook"⟩ : Option Endpoint).any fun ep => ep.endpointType ≠ .internal
  | _ => true

def insertsFirst (w : World Pg) (t : Nat) (e : Env Pg) : Op Pg → Bool
  | .insert .insertJob .jobs _ build => (w.sessions t).all fun s => Pg.storable .jobs (build e.fresh s.now).2 &&
      (w.rows .endpoints ⟨"acme", "hook"⟩).isSome &&
      (w.keys .jobs).all fun k => ((w.rows .jobs k : Option Job).all fun j => j.idempotencyKey ≠ some "order-1")
  | .insert .insertExecution .executions _ build =>
    (w.sessions t).all fun s => Pg.storable .executions (build e.fresh s.now).2
  | _ => true

theorem not_obstacle {w : World Pg} {t : Nat} {e : Env Pg} {o : Op Pg} (sound : Sound w) (hf : e.fault = false)
    (draws : drawsFreshId w t e o = true) (finds : findsAll w e o = true) (inserts : insertsFirst w t e o = true) :
    ¬Obstacle sample "acme" sampleJob w t e o := by
  rintro (hunlucky | hunfit | hrefused)
  · exact not_unlucky sound hf draws hunlucky
  · unfold unfit at hunfit
    split at hunfit
    next =>
      have hyes : e.answer .acquire = true := finds
      rw [hunfit] at hyes
      cases hyes
    next =>
      obtain ⟨c, _, hc, _⟩ := hunfit
      cases hc
    next =>
      obtain ⟨ep, hep, hty⟩ := (Option.any_eq_true _ _).mp finds
      simp [hunfit ep hep] at hty
    next =>
      obtain ⟨input, hi, _⟩ := hunfit
      cases hi
    next => exact hunfit
  · unfold insertRefused at hrefused
    split at hrefused
    next =>
      obtain ⟨s, hs, hcase⟩ := hrefused
      simp only [insertsFirst, hs, Option.all_some, Bool.and_eq_true] at inserts
      rcases hcase with h | h | ⟨k, j, hj, _, _, hkey, _⟩
      · exact absurd (inserts.1.1.symm.trans h) (by decide)
      · have hep := inserts.1.2
        rw [show w.rows .endpoints ⟨"acme", "hook"⟩ = none from h] at hep
        cases hep
      · have hmem := sound.keyed .jobs k j (Or.inl hj)
        have hno := List.all_eq_true.mp inserts.2 k hmem
        rw [hj, Option.all_some, show j.idempotencyKey = some "order-1" from hkey] at hno
        simp at hno
    next =>
      obtain ⟨s, hs, h⟩ := hrefused
      simp only [insertsFirst, hs, Option.all_some] at inserts
      exact absurd (inserts.symm.trans h) (by decide)
    next => exact hrefused

/-- Every step is clear of obstacles and no request of the client library starts. -/
def clearStep (p : Pool (service sample)) : Action (service sample) → Bool
  | .start _ req => !Request.library req
  | .step t e =>
    match p.next t with
    | none => true
    | some (_, o) => !e.fault && drawsFreshId p.world t e o && findsAll p.world e o && insertsFirst p.world t e o
  | _ => true

theorem allows_clearOnly {acts : List (Action (service sample))} {x : Action (service sample)}
    (h : clearStep (after acts) x = true) : (after acts).Allows clearOnly x := by
  cases x with
  | start t req =>
    have hreq : (!Request.library req) = true := h
    exact (Bool.not_eq_true' _).mp hreq
  | step t e =>
    intro req o hn
    simp only [clearStep, hn, Bool.and_eq_true, Bool.not_eq_true'] at h
    refine ⟨fun _ => not_obstacle (keeps_all acts).sound h.1.1.1 h.1.1.2 h.1.2 h.2, ?_⟩
    rintro rfl
    cases h.1.2
  | kill t => exact fun _ _ => True.intro
  | tick d => exact True.intro

theorem sampleJob_passes : Passes sample "acme" sampleJob .immediate where
  schema := by decide +kernel
  parses := rfl
  delayed h := by cases h
  cron h := by cases h

/-- Two requests for one key, one after the other. -/
def twoRequests : List (Action (service sample)) :=
  serve 1 8 (.createEndpoint "acme" sampleEndpoint) (.response 200 "") ++
    serve 2 14 (.createJob "acme" sampleJob) (.response 200 "") ++ serve 3 11 (.createJob "acme" sampleJob) (.response 200 "")

theorem twoRequests_threads {t : Nat} {th : Thread (service sample)} (h : (after twoRequests).threads t = some th)
    (rival : Rival "acme" "hook" "order-1" th.req) : th.req = .createJob "acme" sampleJob ∧ (t = 2 ∨ t = 3) := by
  have started := Pool.thread_started h
  simp only [twoRequests, serve, steps, List.mem_append, List.mem_cons, List.mem_map, reduceCtorEq, and_false, exists_false,
    or_false, Action.start.injEq] at started
  rcases started with (⟨_, hreq⟩ | ⟨ht, hreq⟩) | ⟨ht, hreq⟩
  · obtain ⟨body, hbody, _⟩ := rival
    rw [hreq] at hbody
    cases hbody
  · exact ⟨hreq, Or.inl ht⟩
  · exact ⟨hreq, Or.inr ht⟩

theorem idempotent_creation_two : ∃ k j, Agreed twoRequests "acme" "hook" "order-1" k j := by
  have meets : (Pool.empty (service sample)).Meets clearOnly twoRequests :=
    meets_checked [] (fun _ _ => allows_clearOnly) (by decide +kernel)
  have first : ((after twoRequests).answer 2).isSome = true := by decide +kernel
  have second : ((after twoRequests).answer 3).isSome = true := by decide +kernel
  have thread : ∀ {t out}, (after twoRequests).answer t = some out → ∃ th, (after twoRequests).threads t = some th ∧
      out.1 = th.req := by
    intro t out h
    unfold Pool.answer at h
    split at h
    next => cases h
    next th hth =>
      split at h
      next =>
        obtain ⟨r, _, rfl⟩ := Option.map_eq_some_iff.mp h
        exact ⟨th, hth, rfl⟩
      next => cases h
  refine idempotent_creation (g := clearOnly) (fun _ h => h) twoRequests meets "acme" "hook" "order-1" ?_ ?_ ?_ ?_
  · intro req w t e h
    exact h.2 rfl
  · intro t th body hth hreq rival
    have hbody : body = sampleJob := by
      have := (twoRequests_threads hth rival).1
      rw [hreq] at this
      cases this
      rfl
    subst hbody
    exact ⟨⟨_, sampleJob_passes⟩, fun w t e o h => h.1 rfl⟩
  · intro t th hth rival
    have answered : ∃ out, (after twoRequests).answer t = some out := by
      rcases (twoRequests_threads hth rival).2 with rfl | rfl
      · exact Option.isSome_iff_exists.mp first
      · exact Option.isSome_iff_exists.mp second
    obtain ⟨⟨req, out⟩, hout⟩ := answered
    obtain ⟨th', hth', hreq⟩ := thread hout
    rw [hth] at hth'
    cases hth'
    exact ⟨out, hreq ▸ hout⟩
  · obtain ⟨out, hout⟩ := Option.isSome_iff_exists.mp first
    obtain ⟨th, hth, _⟩ := thread hout
    have started := Pool.thread_started hth
    simp only [twoRequests, serve, steps, List.mem_append, List.mem_cons, List.mem_map, reduceCtorEq, and_false,
      exists_false, or_false, Action.start.injEq] at started
    rcases started with (⟨ht, _⟩ | ⟨_, hreq⟩) | ⟨ht, _⟩
    · cases ht
    · exact ⟨2, th, hth, sampleJob, hreq, rfl, rfl⟩
    · cases ht

/-- The first request has looked for the key when the second one comes and is served. -/
def lostRace : List (Action (service sample)) :=
  serve 1 8 (.createEndpoint "acme" sampleEndpoint) (.response 200 "") ++
    serve 2 7 (.createJob "acme" sampleJob) (.response 200 "") ++
    serve 3 14 (.createJob "acme" sampleJob) (.response 200 "") ++ steps 2 3 (.response 200 "")

def httpAnswer (p : Pool (service env)) (t : Nat) : Option Nat :=
  match p.answer t with
  | some (_, .http r) => some (statusCode r)
  | _ => none

/-- Of two valid requests for one key that come at the same time one answers 409. -/
theorem rival_answers_conflict : Passes sample "acme" sampleJob .immediate ∧ httpAnswer (after lostRace) 3 = some 201 ∧
    httpAnswer (after lostRace) 2 = some 409 := by
  have second : httpAnswer (after lostRace) 3 = some 201 := by decide +kernel
  have first : httpAnswer (after lostRace) 2 = some 409 := by decide +kernel
  exact ⟨sampleJob_passes, second, first⟩

end sample

end Invokr

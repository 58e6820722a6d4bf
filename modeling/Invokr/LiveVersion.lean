import Invokr.Versions

namespace Invokr

open TxLib

variable {env : Setup} {g : Guard (service env)} {req : Request env} {now : Int} {D D' : Rows Pg}

/-- Dead versions: all are RETIRED, and no other job hangs together with them. -/
structure Dead (S : Key → Prop) (D : Rows Pg) : Prop where
  retired : ∀ k, S k → ∃ j : Job, D .jobs k = some j ∧ j.status = .retired
  closed : ∀ k k', previousOf D k = some k' → (S k ↔ S k')

/-- The versions made of one base by updates that all found it ACTIVE. -/
structure Live (D : Rows Pg) : Prop where
  versioned : Versioned D
  single : ∀ k k' z, previousOf D k = some z → previousOf D k' = some z → k = k'

theorem Commit.previous (c : Commit g req now D D') {k z : Key} (h : previousOf D' k = some z) :
    previousOf D k = some z ∨ (D .jobs k = none ∧ ∃ j : Job, D' .jobs k = some j ∧ Based g D D' z k j) := by
  obtain ⟨j, hj, hp, hs⟩ := previousOf_some h
  have hz : (⟨k.schema, z.id⟩ : Key) = z := by rw [← hs]
  have step := c.job_step k
  rw [hj] at step
  generalize hx : D .jobs k = x at step
  cases step with
  | same => exact Or.inl (hz ▸ previousOf_job hx hp)
  | new job base => exact Or.inr ⟨rfl, j, hj, hz ▸ base z.id (job.previousVersionId.symm.trans hp)⟩
  | retire _ same _ _ => exact Or.inl (hz ▸ previousOf_job hx (same.columns.2.2.2.2.1.symm.trans hp))

theorem Live.commit (h : Live D) (exact : Exact g) (c : Commit g req now D D') : Live D' where
  versioned := h.versioned.commit c
  single k k' z hk hk' := by
    have fresh : ∀ {k kn : Key} {j : Job}, Based g D D' z kn j → previousOf D k = some z → False := by
      intro k kn j based hk
      obtain ⟨b, hb, active⟩ := based.active exact
      obtain ⟨i, hi, hp, hs⟩ := previousOf_some hk
      obtain ⟨b', hb', hr, _⟩ := h.versioned.base k i z.id hi hp
      have hz : (⟨k.schema, z.id⟩ : Key) = z := by rw [← hs]
      rw [hz, hb] at hb'
      cases hb'
      rw [active] at hr
      cases hr
    rcases c.previous hk with hk | ⟨_, _, _, based⟩
    · rcases c.previous hk' with hk' | ⟨_, _, _, based⟩
      · exact h.single k k' z hk hk'
      · exact (fresh based hk).elim
    · rcases c.previous hk' with hk' | ⟨hn', j', hj', _⟩
      · exact (fresh based hk').elim
      · by_contra hne
        rw [based.alone k' (Ne.symm hne) hn'] at hj'
        cases hj'

theorem Dead.commit {S : Key → Prop} (h : Dead S D) (exact : Exact g) (c : Commit g req now D D') : Dead S D' where
  retired k hk := by
    obtain ⟨j, hj, hr⟩ := h.retired k hk
    obtain ⟨j', hj', same⟩ := c.later.job k j hj
    exact ⟨j', hj', same.2 hr⟩
  closed k k' hp := by
    rcases c.previous hp with hp | ⟨hn, j, _, based⟩
    · exact h.closed k k' hp
    · refine ⟨fun hk => ?_, fun hk => ?_⟩
      · obtain ⟨i, hi, _⟩ := h.retired k hk
        rw [hn] at hi
        cases hi
      · obtain ⟨i, hi, hr⟩ := h.retired k' hk
        obtain ⟨b, hb, active⟩ := based.active exact
        rw [hi] at hb
        cases hb
        rw [active] at hr
        cases hr

/-- Where a new version appears, its base was ACTIVE and is RETIRED. -/
def Supersedes (before : List (Action (service env))) (x : Action (service env)) (base : Key) : Prop :=
  (∃ b : Job, (after before).world.rows .jobs base = some b ∧ b.status = .active) ∧
    ∃ b : Job, (after (before ++ [x])).world.rows .jobs base = some b ∧ b.status = .retired

theorem supersedes_of_new (exact : Exact g) {before : List (Action (service env))} {x : Action (service env)}
    (meets : (Pool.empty (service env)).Meets g (before ++ [x])) {k : Key} {j : Job} {p : String}
    (hn : (after before).world.rows .jobs k = none) (hj : (after (before ++ [x])).world.rows .jobs k = some j)
    (hp : j.previousVersionId = some p) : Supersedes before x ⟨k.schema, p⟩ := by
  have meets' := Pool.meets_append.mp meets
  obtain ⟨_, _, c⟩ := act_commit (keeps_run meets'.1) meets'.2.1 (.tick "")
  rw [← after_snoc] at c
  rcases c.previous (previousOf_job hj hp) with h | ⟨_, _, _, based⟩
  · obtain ⟨_, hi, _⟩ := previousOf_some h
    rw [hn] at hi
    cases hi
  · exact ⟨based.active exact, based.retired⟩

theorem live_run (exact : Exact g) {acts : List (Action (service env))} (meets : (Pool.empty (service env)).Meets g acts) :
    Live (after acts).world.rows := by
  refine run_induction meets ⟨⟨?_, ?_, ?_, ?_⟩, ?_⟩ fun _ _ _ _ _ c h => h.commit exact c
  · exact fun k j h => by cases h
  · exact fun k j p h => by cases h
  · exact fun k j h => by cases h
  · exact fun k j h => by cases h
  · exact fun k k' z h => by cases h

/-- A version that another one was made from is not ACTIVE. -/
theorem Live.active_last (h : Live D) {k k' : Key} {j' : Job} (hp : previousOf D k = some k')
    (hj' : D .jobs k' = some j') : j'.status = .retired := by
  obtain ⟨j, hj, hprev, hs⟩ := previousOf_some hp
  obtain ⟨b, hb, hr, _⟩ := h.versioned.base k j _ hj hprev
  have hk : (⟨k.schema, k'.id⟩ : Key) = k' := by rw [← hs]
  rw [hk, hj'] at hb
  cases hb
  exact hr

theorem Live.unique (h : Live D) {k k' : Key} {j j' : Job} (chain : SameChain (previousOf D) k k')
    (hj : D .jobs k = some j) (hj' : D .jobs k' = some j') (active : j.status = .active) (active' : j'.status = .active) :
    k = k' := by
  have last : ∀ {a b : Key} {i : Job}, GoesBackTo (previousOf D) a b → D .jobs b = some i → i.status = .active →
      a = b := by
    intro a b i hab hi hactive
    by_contra hne
    obtain ⟨c, _, step⟩ := hab.successor hne
    rw [h.active_last step hi] at hactive
    cases hactive
  rcases chain.comparable (fun x y z _ _ hx hy => h.single x y z hx hy) with hb | hb
  · exact last hb hj' active'
  · exact (last hb hj active).symm

/-- The versions that hang together with a key, when all of them are RETIRED. -/
theorem Versioned.dead (h : Versioned D) {k : Key} {j : Job} (hj : D .jobs k = some j)
    (retired : ∀ k' (j' : Job), SameChain (previousOf D) k k' → D .jobs k' = some j' → j'.status = .retired) :
    Dead (SameChain (previousOf D) k) D := by
  have row : ∀ {a b : Key}, SameChain (previousOf D) a b → ((∃ i : Job, D .jobs a = some i) ↔ ∃ i : Job, D .jobs b = some i) := by
    intro a b hab
    induction hab with
    | rel x y step =>
      obtain ⟨i, hi, hprev, hs⟩ := previousOf_some step
      obtain ⟨b, hb, _⟩ := h.base x i _ hi hprev
      have hy : (⟨x.schema, y.id⟩ : Key) = y := by rw [← hs]
      exact ⟨fun _ => ⟨b, hy ▸ hb⟩, fun _ => ⟨i, hi⟩⟩
    | refl x => exact Iff.rfl
    | symm x y _ ih => exact ih.symm
    | trans x y z _ _ ih ih' => exact ih.trans ih'
  refine ⟨fun k' hk' => ?_, fun a b step => ⟨fun ha => ?_, fun hb => ?_⟩⟩
  · obtain ⟨j', hj'⟩ := (row hk').mp ⟨j, hj⟩
    exact ⟨j', hj', retired k' j' hk' hj'⟩
  · exact .trans _ _ _ ha (.rel _ _ step)
  · exact .trans _ _ _ hb (.symm _ _ (.rel _ _ step))

theorem Dead.chain {S : Key → Prop} (h : Dead S D) {k k' : Key} (chain : SameChain (previousOf D) k k') :
    S k ↔ S k' := by
  induction chain with
  | rel x y step => exact h.closed x y step
  | refl x => exact Iff.rfl
  | symm x y _ ih => exact ih.symm
  | trans x y z _ _ ih ih' => exact ih.trans ih'

/-- If every update finds its base ACTIVE where it retires it, then at most one version of a chain is
ACTIVE, a version appears, and an update succeeds, only where an ACTIVE base is retired, and a chain
without an ACTIVE version stays so. -/
theorem one_live_version (exact : Exact g) (acts : List (Action (service env)))
    (meets : (Pool.empty (service env)).Meets g acts) :
    (∀ k k', ∀ j j' : Job, SameChain (previousOf (after acts).world.rows) k k' →
        (after acts).world.rows .jobs k = some j → (after acts).world.rows .jobs k' = some j' →
        j.status = .active → j'.status = .active → k = k') ∧
      (∀ before x rest k p, ∀ j : Job, acts = before ++ x :: rest → (after before).world.rows .jobs k = none →
        (after (before ++ [x])).world.rows .jobs k = some j → j.previousVersionId = some p →
        Supersedes before x ⟨k.schema, p⟩) ∧
      (∀ t schemaName jobId body, ∀ j : Job,
        (after acts).answer t = some (.updateJob schemaName jobId body, .http (.ok (.jobUpdated j))) →
        ∃ before x rest, acts = before ++ x :: rest ∧ Supersedes before x ⟨schemaName, jobId⟩ ∧
          (after before).world.rows .jobs ⟨schemaName, j.jobId⟩ = none ∧
          (after (before ++ [x])).world.rows .jobs ⟨schemaName, j.jobId⟩ = some j) ∧
      ∀ before rest k, ∀ j : Job, acts = before ++ rest → (after before).world.rows .jobs k = some j →
        (∀ k' (j' : Job), SameChain (previousOf (after before).world.rows) k k' →
          (after before).world.rows .jobs k' = some j' → j'.status = .retired) →
        ∀ k', SameChain (previousOf (after acts).world.rows) k k' →
          ∃ j' : Job, (after acts).world.rows .jobs k' = some j' ∧ j'.status = .retired := by
  have sub : ∀ {before x rest}, acts = before ++ x :: rest → (Pool.empty (service env)).Meets g (before ++ [x]) := by
    rintro before x rest rfl
    have : before ++ x :: rest = (before ++ [x]) ++ rest := by simp
    rw [this] at meets
    exact (Pool.meets_append.mp meets).1
  have live := live_run exact meets
  refine ⟨fun k k' j j' chain hj hj' ha ha' => live.unique chain hj hj' ha ha', ?_, ?_, ?_⟩
  · intro before x rest k p j hacts hn hj hp
    exact supersedes_of_new exact (sub hacts) hn hj hp
  · intro t schemaName jobId body j answered
    obtain ⟨w₀, _, hv, post⟩ := keeps_post (keeps_run meets) answered
    obtain ⟨l, s, hl, held, hp⟩ := post.2
    have hist : (after acts).world.history t = l ++ [.commit s] := (congrArg Prod.snd hv).trans hl
    obtain ⟨before, x, rest, hacts, _, hn, hj⟩ := inserted_at hist held
    exact ⟨before, x, rest, hacts, supersedes_of_new exact (sub hacts) hn hj hp, hn, hj⟩
  · rintro before rest k j rfl hj retired k' chain
    have versioned := versioned_run (Pool.meets_append.mp meets).1
    have dead := run_induction_from _ meets (versioned.dead hj retired) fun _ _ _ _ _ c h => h.commit exact c
    exact dead.retired k' ((dead.chain chain).mp (.refl k))

section sample

/-- The runs in which every update finds its base ACTIVE. -/
def exactOnly (env : Setup) : Guard (service env) where
  start _ := True
  step req w _ _ o := match req with
    | .updateJob schemaName jobId _ => retiresBase o = true →
        ∃ j : Job, w.rows .jobs ⟨schemaName, jobId⟩ = some j ∧ j.status = .active
    | _ => True
  kill _ _ _ := True

theorem exact_exactOnly : Exact (exactOnly env) := fun _ _ _ _ _ _ _ h => h

/-- The thread's next step is none that retires a base which is not ACTIVE. -/
def findsBase (p : Pool (service env)) : Action (service env) → Bool
  | .step t _ =>
    match p.next t with
    | some (.updateJob schemaName jobId _, o) =>
      !retiresBase o || ((p.world.rows .jobs ⟨schemaName, jobId⟩ : Option Job).any fun j => j.status = .active)
    | _ => true
  | _ => true

theorem allows_exactOnly {p : Pool (service env)} {x : Action (service env)} (h : findsBase p x = true) :
    p.Allows (exactOnly env) x := by
  cases x with
  | start t req => exact True.intro
  | step t e =>
    intro req o hn
    cases req with
    | updateJob schemaName jobId body =>
      intro hb
      simp only [findsBase, hn, hb, Bool.not_true, Bool.false_or] at h
      revert h
      cases (p.world.rows .jobs ⟨schemaName, jobId⟩ : Option Job) with
      | none => exact fun h => by cases h
      | some j => exact fun h => ⟨j, rfl, by simpa using h⟩
    | _ => exact True.intro
  | kill t => exact fun _ _ => True.intro
  | tick d => exact True.intro

/-- The second version of a job is its only ACTIVE one. -/
theorem one_live_version_updated : ∃ k, ∃ j : Job, (after oneUpdate).world.rows .jobs k = some j ∧ j.version = 2 ∧
    ∀ k', ∀ j' : Job, SameChain (previousOf (after oneUpdate).world.rows) k k' →
      (after oneUpdate).world.rows .jobs k' = some j' → j'.status = .active → k' = k := by
  have found : (((after oneUpdate).world.rows .jobs ⟨"acme", sampleId 308⟩).map fun (j : Job) => (j.version, j.status)) =
      some (2, .active) := by decide +kernel
  obtain ⟨j, hj, hx⟩ := Option.map_eq_some_iff.mp found
  obtain ⟨hv, ha⟩ := Prod.mk.inj hx
  have meets : (Pool.empty (service sample)).Meets (exactOnly sample) oneUpdate :=
    meets_checked [] (fun _ _ => allows_exactOnly) (by decide +kernel)
  refine ⟨_, j, hj, hv, fun k' j' chain hj' ha' => ?_⟩
  exact ((one_live_version exact_exactOnly oneUpdate meets).1 _ k' j j' chain hj hj' ha ha').symm

/-- Two updates read the job while it is ACTIVE; the second one goes on after the first has committed. -/
def twoUpdates : List (Action (service sample)) :=
  oneCron ++ serve 3 5 (.updateJob "acme" (sampleId 206) sampleUpdate) (.response 200 "") ++
    serve 4 13 (.updateJob "acme" (sampleId 206) sampleUpdate) (.response 200 "") ++ steps 3 8 (.response 200 "")

/-- Both have made an ACTIVE version of the same job. -/
theorem two_live_versions : ∃ k k', ∃ j j' : Job, k ≠ k' ∧ SameChain (previousOf (after twoUpdates).world.rows) k k' ∧
    (after twoUpdates).world.rows .jobs k = some j ∧ (after twoUpdates).world.rows .jobs k' = some j' ∧
    j.status = .active ∧ j'.status = .active := by
  have first : (((after twoUpdates).world.rows .jobs ⟨"acme", sampleId 302⟩).map fun (j : Job) =>
      (j.previousVersionId, j.status)) = some (some (sampleId 206), .active) := by decide +kernel
  have second : (((after twoUpdates).world.rows .jobs ⟨"acme", sampleId 408⟩).map fun (j : Job) =>
      (j.previousVersionId, j.status)) = some (some (sampleId 206), .active) := by decide +kernel
  obtain ⟨j, hj, hx⟩ := Option.map_eq_some_iff.mp first
  obtain ⟨j', hj', hy⟩ := Option.map_eq_some_iff.mp second
  obtain ⟨hp, ha⟩ := Prod.mk.inj hx
  obtain ⟨hp', ha'⟩ := Prod.mk.inj hy
  refine ⟨_, _, j, j', by decide +kernel, ?_, hj, hj', ha, ha'⟩
  exact .trans _ _ _ (.rel _ _ (previousOf_job hj hp)) (.symm _ _ (.rel _ _ (previousOf_job hj' hp')))

end sample

end Invokr

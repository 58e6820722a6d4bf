import Invokr.WorkWalk
import Invokr.History

namespace Invokr

open TxLib

variable {env : Setup} {g : Guard (service env)}

/-- The deployment after the actions. -/
abbrev after (acts : List (Action (service env))) : Pool (service env) := (Pool.empty (service env)).run acts

theorem after_snoc (acts : List (Action (service env))) (x : Action (service env)) :
    after (acts ++ [x]) = (after acts).act x := by simp [after, Pool.run_append]

/-- Every request gives the guarantees of the outline. -/
theorem base_valid_all (g : Guard (service env)) : (base g).Valid g := by
  refine base_valid fun req t w started _ _ hv => ?_
  cases req with
  | createJob => exact runs_createJob hv
  | updateJob => exact runs_updateJob hv
  | cancelJob => exact runs_cancelJob hv
  | cancelExecution => exact runs_cancelExecution hv
  | provisionReaper => exact runs_provisionReaper hv
  | libraryCreateJob => exact runs_libraryCreateJob started hv
  | libraryCancelJob => exact runs_libraryCancelJob started hv
  | work => exact runs_work hv
  | tick => exact runs_tick hv
  | _ => exact runs_aside rfl hv

section steps

variable {p : Pool (service env)} {x : Action (service env)} {t : Nat} {th : Thread (service env)} {e : Env Pg} {o : Op Pg}

/-- What a thread has guaranteed for the call it waits for. -/
theorem keeps_pre (k : p.Keeps (base g) g) {next : o.Reply → Program Pg Outcome} (h : p.threads t = some th)
    (ha : th.alive = true) (hp : th.prog = .call o next) :
    ∃ w₀, Later w₀.rows p.world.rows ∧ p.world.view t = w₀.view t ∧ (base g).pre th.req t w₀ o := by
  obtain ⟨w₀, later, hv, hold⟩ := k.alive t th h ha
  rw [hp] at hold
  exact ⟨w₀, later, hv, hold.1⟩

/-- What a thread has guaranteed for the answer it has given. -/
theorem keeps_post (k : p.Keeps (base g) g) {req : Request env} {out : Outcome} (h : p.answer t = some (req, out)) :
    ∃ w₀, Later w₀.rows p.world.rows ∧ p.world.view t = w₀.view t ∧ (base g).post req t out w₀ := by
  unfold Pool.answer at h
  split at h
  next => cases h
  next th hth =>
    split at h
    next ha =>
      obtain ⟨w₀, later, hv, hold⟩ := k.alive t th hth ha
      cases hp : th.prog with
      | call o next => simp [hp, Prog.result] at h
      | ret r =>
        simp only [hp, Prog.result, Option.map_some, Option.some.injEq, Prod.mk.injEq] at h
        obtain ⟨rfl, rfl⟩ := h
        rw [hp] at hold
        exact ⟨w₀, later, hv, hold⟩
    next => cases h

/-- The action is the commit of a thread's transaction. -/
structure Commits (g : Guard (service env)) (p : Pool (service env)) (x : Action (service env)) (t : Nat)
    (th : Thread (service env)) (s : Session Pg) : Prop where
  thread : p.threads t = some th
  started : g.start th.req
  action : ∃ e, x = .step t e
  session : p.world.sessions t = some s
  live : s.aborted = false
  rows : (p.act x).world.rows = s.visible p.world.rows
  logged : (p.act x).world.history t = p.world.history t ++ [.commit s]
  commit : Commit g th.req s.now p.world.rows (p.act x).world.rows
  ticking : Ticking th.req t p.world

theorem Ticking.later {req : Request env} {w w' : World Pg} (h : Ticking req t w) (hv : w'.view t = w.view t)
    (later : Later w.rows w'.rows) : Ticking req t w' := by
  cases req with
  | tick jobName =>
    intro s l hv' live
    refine (h s l (hv.symm.trans hv') live).mono fun k b n ⟨e, j, D₀, hb, hn, hj, fired, begun⟩ => ?_
    obtain ⟨j', hj', same⟩ := later.job _ j hj
    exact ⟨e, j', D₀, hb, hn, hj', fired.same same, begun⟩
  | _ => trivial

/-- What an action makes of the committed rows. -/
theorem act_rows (k : p.Keeps (base g) g) (allow : p.Allows g x) :
    Frame p.world.rows (p.act x).world.rows [.jobs, .executions, .attempts, .cronJob] ∨ ∃ t th s, Commits g p x t th s := by
  have hacts := p.acts x
  generalize hact : p.act x = p' at hacts ⊢
  cases hacts with
  | still hr _ _ _ => exact Or.inl fun tb _ => by rw [hr]
  | stop _ _ _ => exact Or.inl fun tb _ => rfl
  | @call t e th o next w r h ha hp he =>
    obtain ⟨w₀, later, hv, pre⟩ := keeps_pre k h ha hp
    have hallow : g.step th.req p.world t e o := allow th.req o (Pool.next_of h ha hp)
    have hr : w.rows = o.store p.world.rows p.world.keys e (p.world.sessions t) := by
      obtain ⟨_, s, _, hw⟩ := World.exec_eq he
      rw [hw]
    cases o with
    | commit =>
      cases hs : p.world.sessions t with
      | none =>
        rw [hs] at hr
        exact Or.inl fun tb _ => by rw [hr]; rfl
      | some s =>
        have hl : w.history t = p.world.history t ++ Op.entries p.world.rows (p.world.foreign t) e (p.world.sessions t) .commit :=
          congrArg Prod.snd (World.exec_view he)
        rw [hs] at hr hl
        simp only [Op.store] at hr
        split at hr
        next => exact Or.inl fun tb _ => by rw [hr]
        next hn =>
          simp only [Op.entries, if_neg hn] at hl
          simp only [Bool.or_eq_true, not_or, Bool.not_eq_true] at hn
          have hv₀ : w₀.view t = (some s, (w₀.view t).2) := Prod.ext (by rw [← hv]; exact hs) rfl
          have hcommit : Commit g th.req s.now p.world.rows w.rows := by
            rw [hr]
            exact pre.2.1 s _ hv₀ hn.1 p.world e later k.sound k.inv (hv.trans hv₀) hallow
          refine Or.inr ⟨t, th, s, h, k.started t th h, ⟨e, rfl⟩, hs, hn.1, ?_, ?_, ?_, pre.2.2.later hv later⟩
          all_goals rw [hact]
          · exact hr
          · exact hl
          · exact hcommit
    | deleteNow stmt tb key =>
      have hside : Side tb = true := pre.2
      simp only [Op.store] at hr
      split at hr
      next =>
        rw [hr]
        exact Or.inl (setAt_side hside)
      next => exact Or.inl fun tb _ => by rw [hr]
    | _ => exact Or.inl fun tb _ => by rw [hr]; rfl

theorem act_commit (k : p.Keeps (base g) g) (allow : p.Allows g x) (req : Request env) :
    ∃ req now, Commit g req now p.world.rows (p.act x).world.rows := by
  rcases act_rows k allow with h | ⟨t, th, s, c⟩
  · exact ⟨req, 0, .quiet h⟩
  · exact ⟨th.req, s.now, c.commit⟩

theorem act_later (k : p.Keeps (base g) g) (allow : p.Allows g x) : Later p.world.rows (p.act x).world.rows := by
  obtain ⟨_, _, c⟩ := act_commit k allow (.tick "")
  exact c.later

end steps

section run

variable {acts acts' : List (Action (service env))} {p : Pool (service env)}

theorem keeps_run (h : (Pool.empty (service env)).Meets g acts) : (after acts).Keeps (base g) g :=
  (base_valid_all g).keeps h

theorem keeps_all (acts : List (Action (service env))) : (after acts).Keeps (base (.all _)) (.all _) :=
  keeps_run (Pool.meets_all _ acts)

theorem later_run (k : p.Keeps (base g) g) (h : p.Meets g acts) : Later p.world.rows (p.run acts).world.rows := by
  induction acts generalizing p with
  | nil => exact later_refl _
  | cons x acts ih => exact (act_later k h.1).trans (ih (k.act (base_valid_all g) h.1) h.2)

theorem later_since (h : acts <+: acts') : Later (after acts).world.rows (after acts').world.rows := by
  obtain ⟨more, rfl⟩ := h
  have run : (after (acts ++ more)) = (after acts).run more := Pool.run_append _ _ _
  rw [run]
  exact later_run (keeps_all acts) (Pool.meets_all _ more)

/-- A property of the committed rows that no commit takes away. -/
theorem run_induction_from {P : Rows Pg → Prop} (acts : List (Action (service env)))
    (h : (Pool.empty (service env)).Meets g (acts ++ acts'))
    (init : P (after acts).world.rows) (step : ∀ req now D D', Inv g D → Commit g req now D D' → P D → P D') :
    P (after (acts ++ acts')).world.rows := by
  induction acts' using List.reverseRecOn with
  | nil => simpa using init
  | append_singleton acts' x ih =>
    rw [← List.append_assoc] at h ⊢
    rw [Pool.meets_append] at h
    have k := keeps_run h.1
    obtain ⟨req, now, c⟩ := act_commit k h.2.1 (.tick "")
    rw [after_snoc]
    exact step req now _ _ k.inv c (ih h.1)

theorem run_induction {P : Rows Pg → Prop} (h : (Pool.empty (service env)).Meets g acts) (init : P fun _ _ => none)
    (step : ∀ req now D D', Inv g D → Commit g req now D D' → P D → P D') : P (after acts).world.rows :=
  run_induction_from [] h init step

/-- A check that holds at every action of a run. -/
def checked (check : Pool (service env) → Action (service env) → Bool) (p : Pool (service env)) :
    List (Action (service env)) → Bool
  | [] => true
  | x :: acts => check p x && checked check (p.act x) acts

theorem checked_step {check : Pool (service env) → Action (service env) → Bool} {before : List (Action (service env))}
    {x : Action (service env)} (h : checked check p acts = true) (le : before ++ [x] <+: acts) :
    check (p.run before) x = true := by
  induction before generalizing p acts with
  | nil =>
    obtain ⟨rest, rfl⟩ := le
    exact (Bool.and_eq_true_iff.mp h).1
  | cons y before ih =>
    obtain ⟨rest, rfl⟩ := le
    exact ih (Bool.and_eq_true_iff.mp h).2 (List.prefix_append _ _)

theorem meets_checked {check : Pool (service env) → Action (service env) → Bool} (acts : List (Action (service env)))
    (allow : ∀ acts x, check (after acts) x = true → (after acts).Allows g x)
    (h : checked check (after acts) acts' = true) : (after acts).Meets g acts' := by
  induction acts' generalizing acts with
  | nil => trivial
  | cons x acts' ih =>
    rw [checked, Bool.and_eq_true] at h
    refine ⟨allow acts x h.1, ?_⟩
    rw [← after_snoc]
    exact ih _ (by rw [after_snoc]; exact h.2)

/-- The runs without the client library's requests that change jobs. -/
def apiOnly (env : Setup) : Guard (service env) :=
  ⟨fun req => req.library = false, fun _ _ _ _ _ => True, fun _ _ _ => True⟩

theorem official_apiOnly : Official (apiOnly env) := fun _ h => h

def startsApi : Action (service env) → Bool
  | .start _ req => !Request.library req
  | _ => true

theorem meets_apiOnly (h : acts.all startsApi = true) : p.Meets (apiOnly env) acts := by
  induction acts generalizing p with
  | nil => trivial
  | cons x acts ih =>
    rw [List.all_cons, Bool.and_eq_true] at h
    refine ⟨?_, ih h.2⟩
    cases x with
    | start t req =>
      have hreq : (!Request.library req) = true := h.1
      exact (Bool.not_eq_true' _).mp hreq
    | step t e => exact fun _ _ _ => True.intro
    | kill t => exact fun _ _ => True.intro
    | tick d => exact True.intro

end run

section sample

/-- A small deployment for concrete runs: no prefix, and only the expression `* * * * *` in UTC. -/
def sample : Setup where
  tablePrefix := ""
  encryptionKey := ""
  kafka := false
  redisStream := false
  overflowChecks := false
  dbErrorText _ := "error returned from database"
  decrypt _ _ := .error "invalid key"
  cronParse expression := if expression = "* * * * *" then .ok () else .error "invalid expression"
  cronNext _ _ t := some ((t / 60000000 + 1) * 60000000)
  tzParse name := name = "UTC"
  schemaCompile _ := .ok ()
  schemaErrors _ _ := []
  numericText _ := ⟨"0", by decide⟩

def sampleId (n : Nat) : String :=
  "00000000-0000-4000-8000-" ++ String.ofList (List.replicate (12 - (toString n).toList.length) '0') ++ toString n

def sampleUuid (n : Nat) : Uuid :=
  if h : isUuid (sampleId n) = true then ⟨sampleId n, h⟩ else ⟨sampleId 0, by decide +kernel⟩

/-- The world outside: the clock stands still, the caches are empty and every HTTP request gets the
same reply. -/
def answers (n : Nat) (reply : HttpReply) : (x : External) → External.Answer x
  | .acquire => true
  | .now => (0 : Int)
  | .newUuid => sampleUuid n
  | .configCacheGet _ => Cached.absent
  | .configCacheRemove _ _ => ()
  | .configCacheSet _ _ => ()
  | .secretCacheGet _ => Cached.absent
  | .secretCacheRemove _ _ => ()
  | .secretCacheSet _ _ => ()
  | .jitter _ => (0 : Int)
  | .dispatch _ => ()
  | .httpSend _ _ => reply
  | .kafkaSend _ => KafkaReply.failed ""
  | .redisSend _ => RedisReply.failed ""

/-- The next steps of a thread; none of its statements is rejected from outside. -/
def steps {env : Setup} (t n : Nat) (reply : HttpReply) : List (Action (service env)) :=
  (List.range n).map fun i => .step t ⟨false, sampleUuid (100 * t + i), answers (100 * t + i) reply⟩

/-- A request that runs undisturbed. -/
def serve {env : Setup} (t n : Nat) (req : Request env) (reply : HttpReply) : List (Action (service env)) :=
  .start t req :: steps t n reply

def drawsFreshId (w : World Pg) (t : Nat) (e : Env Pg) : Op Pg → Bool
  | .insert _ tb _ build => (w.sessions t).all fun s => !((w.keys tb).contains (build e.fresh s.now).1)
  | _ => true

theorem not_unlucky {w : World Pg} {t : Nat} {e : Env Pg} {o : Op Pg} (sound : Sound w) (hf : e.fault = false)
    (draws : drawsFreshId w t e o = true) : ¬Unlucky w t e o := by
  rintro (hfault | hused)
  · rw [hf] at hfault
    cases hfault
  · unfold drawsUsedId at hused
    split at hused
    next stmt tb orIgnore build =>
      obtain ⟨s, r, hs, hv⟩ := hused
      have hmem := List.contains_iff_mem.mpr (sound.keyed tb _ r hv)
      simp only [drawsFreshId, hs, Option.all_some, hmem] at draws
      cases draws
    next => exact hused

/-- What the thread is about to hand to a dispatcher. -/
def nextDispatch {env : Setup} (p : Pool (service env)) (t : Nat) : Option Dispatch :=
  match p.next t with
  | some (_, .ext (.dispatch d)) => some d
  | _ => none

theorem nextDispatch_next {env : Setup} {p : Pool (service env)} {t : Nat} {d : Dispatch} (h : nextDispatch p t = some d) :
    ∃ req, p.next t = some (req, .ext (.dispatch d)) := by
  unfold nextDispatch at h
  split at h
  next req d' hn =>
    cases h
    exact ⟨req, hn⟩
  next => cases h

def sampleEndpoint : CreateEndpoint :=
  ⟨"hook", "HTTP", none, none, .object [("url", .str "http://localhost/hook")], some ⟨3, "fixed", 0, 1000⟩⟩

def sampleJob : CreateJob := ⟨"hook", "IMMEDIATE", some "order-1", none, none, none, none, none, none, none⟩

/-- An endpoint, a job and one attempt that the receiver answers with `reply`. -/
def oneAttempt (reply : HttpReply) : List (Action (service sample)) :=
  serve 1 8 (.createEndpoint "acme" sampleEndpoint) reply ++ serve 2 14 (.createJob "acme" sampleJob) reply ++
    serve 3 25 (.work "worker-1" ["acme"]) reply

end sample

end Invokr

import Invokr.Agreement

namespace Invokr

open TxLib

variable {env : Setup} {g : Guard (service env)} {req : Request env}

/-- The tables beside jobs, executions, attempts and schedules. -/
def Side : Table → Bool
  | .payloadSpecs | .configs | .secrets | .endpoints | .executionLogs => true
  | .jobs | .executions | .attempts | .cronJob => false

/-- What holds of the committed rows at every moment. -/
structure Inv (g : Guard (service env)) (D : Rows Pg) : Prop where
  linked : Linked D
  ledger : Ledger D
  together : Atomic g → Together D
  agree : Official g → Agree env D

theorem Inv.commit {now : Int} {D D' : Rows Pg} (h : Inv g D) (c : Commit g req now D D') : Inv g D' where
  linked := h.linked.commit c
  ledger := h.ledger.commit c
  together atomic := (h.together atomic).commit h.linked atomic c
  agree official := (h.agree official).commit h.linked official c

/-- Nothing was committed on jobs or executions. -/
def Silent (l : List (Entry Pg)) : Prop := ∀ s, Entry.commit s ∈ l → Quiet (M := Pg) .jobs s ∧ Quiet (M := Pg) .executions s

/-- The open transaction holds the execution with the attempt counted. -/
def Counting (d : Dispatch) (s : Session Pg) : Prop :=
  ∃ b e : Execution, s.held .executions d.key = some ⟨some b, some e⟩ ∧ e.attemptCount = b.attemptCount + 1

/-- Unless something went wrong, a dispatch is the only one of its transaction, which is open and
holds the execution. -/
def Rest (g : Guard (service env)) (req : Request env) (v : View Pg) : Prop :=
  match req with
  | .work _ _ => Counted g → ∀ d ∈ handed v.2, handed v.2 = [d] ∧ ∃ s, v.1 = some s ∧ s.aborted = false ∧ Counting d s
  | _ => True

/-- The transaction is aborted or does, on whatever rows it finds, one of the things listed. -/
def Committing (g : Guard (service env)) (req : Request env) (t : Nat) (w₀ : World Pg) : Prop :=
  ∀ s l, w₀.view t = (some s, l) → s.aborted = false → ∀ w e, Later w₀.rows w.rows → Sound w → Inv g w.rows →
    w.view t = (some s, l) → g.step req w t e .commit → Commit g req s.now w.rows (s.visible w.rows)

/-- The spec is one of the job's endpoint, resolved with the key that is sent along. -/
def Resolved (d : Dispatch) : Prop :=
  ∃ c : Pipeline.Call, ∃ config secrets spec resolved, c.executionId = d.executionId ∧
    c.idempotencyKey = d.idempotencyKey ∧
    resolve ⟨Pipeline.inputMap c.input, config, secrets, Pipeline.executionMap c⟩ spec = .ok resolved ∧
    d.spec = Pipeline.injectBody resolved c.input

/-- The key is the job's, or the execution's own. -/
def Keyed (D : Rows Pg) (d : Dispatch) (b : Execution) : Prop :=
  ∃ j : Job, D .jobs ⟨d.schemaName, b.jobId⟩ = some j ∧ d.idempotencyKey = j.idempotencyKey.getD d.executionId

/-- The execution was claimed in the transaction that is open, or was open until something went
wrong. -/
def Dispatching (g : Guard (service env)) (t : Nat) (w : World Pg) (d : Dispatch) : Prop :=
  ∃ s l, ∃ b : Execution, w.view t = (some s, l) ∧ Entry.updated (M := Pg) .claim .executions d.key (some b) ∈ current l ∧
    handed l = [] ∧ Keyed w.rows d b ∧ Resolved d ∧ ((s.aborted = true ∧ ¬Counted g) ∨ (s.aborted = false ∧ ∃ e : Execution,
      s.held .executions d.key = some ⟨some b, some e⟩ ∧ e.attemptCount = b.attemptCount + 1))

/-- A new execution is the one that a tick makes for a job that was not RETIRED when the tick began. -/
def Materializes (D : Rows Pg) (now : Int) (l : List (Entry Pg)) (k : Key) (base new : Option Execution) : Prop :=
  ∃ (e : Execution) (j : Job) (D₀ : Rows Pg), base = none ∧ new = some e ∧ D .jobs (jobKey k e) = some j ∧ Fired now j e ∧
    Entry.begin (M := Pg) D₀ ∈ current l ∧ ∀ j₀ : Job, D₀ .jobs (jobKey k e) = some j₀ → j₀.status = .active

/-- A tick changes executions only by adding its own. -/
def Ticking (req : Request env) (t : Nat) (w : World Pg) : Prop :=
  match req with
  | .tick _ => ∀ s l, w.view t = (some s, l) → s.aborted = false →
      Each (M := Pg) .executions (Materializes w.rows s.now l) s
  | _ => True

def Claiming (t : Nat) (w : World Pg) (keep : Int → Execution → Bool) : Prop :=
  keep = Executions.eligible ∧ ∃ s l, w.view t = (some s, l) ∧ (s.aborted = true ∨ Quiet (M := Pg) .executions s)

def isWork : Request env → Bool
  | .work _ _ => true
  | _ => false

/-- What a request guarantees at its calls. -/
def Calls (g : Guard (service env)) (req : Request env) (t : Nat) (w : World Pg) : Op Pg → Prop
  | .commit => Committing g req t w ∧ Ticking req t w
  | .rollback => isWork req = true → Counted g → handed (w.history t) = []
  | .ext (.dispatch d) => isWork req = true ∧ Dispatching g t w d
  | .update .claim .executions _ _ keep _ => isWork req = true ∧ Claiming t w keep
  | .deleteNow _ tb _ => Side tb = true
  | _ => True

/-- What an answer of `create` says about the jobs. -/
def Created (g : Guard (service env)) (schemaName : String) (body : CreateJob) (t : Nat) (w : World Pg) : Response → Prop
  | .ok (.jobCreated j _) => ∃ l s, w.history t = l ++ [.commit s] ∧ Silent l ∧
      s.held .jobs ⟨schemaName, j.jobId⟩ = some ⟨none, some j⟩ ∧ j.endpoint = body.endpoint ∧
      (body.idempotencyKey ≠ none → j.idempotencyKey = body.idempotencyKey)
  | .ok (.jobFound j _) => Silent (w.history t) ∧
      (∃ j' : Job, w.rows .jobs ⟨schemaName, j.jobId⟩ = some j' ∧ SameJob j j') ∧ j.endpoint = body.endpoint ∧
      j.idempotencyKey = body.idempotencyKey ∧ body.idempotencyKey ≠ none
  | .ok _ => False
  | .error _ => Silent (w.history t) ∧ ∀ trigger, body.idempotencyKey ≠ none →
      Passes env schemaName body trigger → ¬Clear g schemaName body

/-- The last thing a request that has made a new version did was to commit it. -/
def Updated (schemaName jobId : String) (t : Nat) (w : World Pg) (j : Job) : Prop :=
  ∃ l s, w.history t = l ++ [.commit s] ∧ s.held .jobs ⟨schemaName, j.jobId⟩ = some ⟨none, some j⟩ ∧
    j.previousVersionId = some jobId

/-- The job that was cancelled waits for no first attempt. -/
def Stopped (schemaName jobId : String) (w : World Pg) : Prop :=
  ∃ ke, ∃ e : Execution, w.rows .executions ke = some e ∧ jobKey ke e = ⟨schemaName, jobId⟩ ∧
    Executions.cancellable e = false

def OneShot (schemaName jobId : String) (w : World Pg) : Prop :=
  ∃ j : Job, w.rows .jobs ⟨schemaName, jobId⟩ = some j ∧ j.triggerType ≠ .cron

/-- What an answer says. -/
def Answered (g : Guard (service env)) (req : Request env) (t : Nat) (out : Outcome) (w : World Pg) : Prop :=
  match req, out with
  | .createJob schemaName body, .http r => Created g schemaName body t w r
  | .createJob .., _ => False
  | .libraryCreateJob .., .library (.error _) => Atomic g → Silent (w.history t)
  | .updateJob schemaName jobId _, .http (.ok (.jobUpdated j)) => Updated schemaName jobId t w j
  | .cancelJob schemaName jobId, .http (.ok (.jobCancelled j)) =>
    j.triggerType ≠ .cron → OneShot schemaName jobId w ∧ (Official g → Stopped schemaName jobId w)
  | _, _ => True

/-- The outline every request follows. -/
def base (g : Guard (service env)) : Outline (service env) where
  inv w := Inv g w.rows
  rely w w' := Later w.rows w'.rows
  pre req t w o := Rest g req (w.view t) ∧ Calls g req t w o
  post req t out w := Rest g req (w.view t) ∧ Answered g req t out w
  rest := Rest g

theorem inv_empty : Inv g (World.empty Pg).rows := by
  refine ⟨⟨?_, ?_, ?_⟩, ⟨?_, ?_, ?_⟩, fun _ => ?_, fun _ => ⟨?_, ?_⟩⟩
  all_goals intro k x h; cases h

theorem Rest.killed {v : View Pg} (h : Rest g req v) : Rest g req (World.killed v) := by
  cases req with
  | work workerId schemas =>
    intro counted d hd
    have keep := h counted
    cases hs : v.1 with
    | none =>
      simp only [World.killed, hs, Option.isSome_none, Bool.false_eq_true, ↓reduceIte, List.append_nil] at hd ⊢
      obtain ⟨_, s, hs', _⟩ := keep d hd
      rw [hs] at hs'
      cases hs'
    | some s =>
      have : current (v.2 ++ [Entry.abort]) = [] := current_outside rfl
      simp [World.killed, hs, handed, this] at hd
  | _ => trivial

theorem setAt_side {D : Rows Pg} {tb : Table} {k : Key} {v : Option tb.Row} (h : Side tb = true) :
    Frame D (setAt (M := Pg) D tb k v) [.jobs, .executions, .attempts, .cronJob] := by
  intro tb' hm
  funext k'
  refine setAt_tbl (M := Pg) D v ?_
  rintro rfl
  simp only [List.mem_cons, List.not_mem_nil, or_false] at hm
  rcases hm with rfl | rfl | rfl | rfl <;> cases h

/-- What a call makes of the committed rows. -/
theorem Calls.store {w₀ w w' : World Pg} {t : Nat} {e : Env Pg} {o : Op Pg} {r : o.Reply}
    (calls : Calls g req t w₀ o) (later : Later w₀.rows w.rows) (hv : w.view t = w₀.view t) (sound : Sound w)
    (inv : Inv g w.rows) (allow : g.step req w t e o) (h : w.exec t o e = some (w', r)) :
    w'.rows = w.rows ∨ ∃ now, Commit g req now w.rows w'.rows := by
  obtain ⟨_, s, _, hw⟩ := World.exec_eq h
  have hr : w'.rows = o.store w.rows w.keys e (w.sessions t) := by rw [hw]
  rw [hr]
  cases o with
  | commit =>
    cases hs : w.sessions t with
    | none => exact Or.inl rfl
    | some s₀ =>
      simp only [Op.store]
      split
      next => exact Or.inl rfl
      next hn =>
        simp only [Bool.or_eq_true, not_or, Bool.not_eq_true] at hn
        have hv₀ : w₀.view t = (some s₀, (w₀.view t).2) := Prod.ext (hv ▸ hs) rfl
        exact Or.inr ⟨_, calls.1 s₀ _ hv₀ hn.1 w e later sound inv (hv.trans hv₀) allow⟩
  | deleteNow stmt tb k =>
    simp only [Op.store]
    split
    next => exact Or.inr ⟨0, .quiet (setAt_side calls)⟩
    next => exact Or.inl rfl
  | _ => exact Or.inl rfl

/-- All of the outline but the walks through the programs. -/
theorem base_valid (start : ∀ req t w, g.start req → Sound w → Inv g w.rows → w.view t = (none, []) →
    ((service env).program req).Holds (Local (base g).rely (base g).inv (g.step req) t) ((base g).pre req t)
      ((base g).post req t) w) : (base g).Valid g where
  init := inv_empty
  refl w := later_refl w.rows
  trans _ _ _ h h' := h.trans h'
  start := start
  exec req t w₀ w w' e o r later hv sound inv allow pre h := by
    rcases pre.2.store later hv sound inv allow h with he | ⟨now, c⟩
    · exact ⟨by simpa [base, he] using inv, by simpa [base, he] using later_refl w.rows⟩
    · exact ⟨inv.commit c, c.later⟩
  kill req w t _ inv _ _ := ⟨inv, later_refl w.rows⟩
  tick w d inv := ⟨inv, later_refl w.rows⟩
  rest_pre _ _ _ _ h := h.1
  rest_post _ _ _ _ h := h.1
  rest_kill _ _ h := h.killed

end Invokr

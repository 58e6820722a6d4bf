import Invokr.TenantIsolation
import Invokr.WorkerCalls
import Invokr.WorkerLoop

namespace TxLib

variable {M : Model} {K : Footprint M}

theorem confined_recalls {m m' : Memory M} {o : Op M} {r : o.Reply} (h : Recalls m o r m') (ho : o.Confined K)
    (held : ∀ s, m.1 = some s → s.Confined K) : ∀ s, m'.1 = some s → s.Confined K := by
  obtain ⟨w, t, e, w', sound, hs, he, rfl⟩ := h
  exact confined_exec sound he ho fun s h => held s (hs.symm.trans h)

end TxLib

namespace Invokr

open TxLib

variable {env : Setup}

/-- The rows of a workspace that the work on its executions changes. -/
def workRows (schemaName : String) : Footprint Pg := fun tb k =>
  workspaceRows schemaName tb k ∧ tb ∈ [.executions, .attempts, .executionLogs, .jobs, .cronJob]

/-- The call writes only such rows and fills no cache. -/
def OfTask (schemaName : String) (o : Op Pg) : Prop :=
  o.Confined (workRows schemaName) ∧ ∀ e, o = .ext e → e.caches = false

/-- What holds at a worker's calls in a workspace: its transaction has written only rows of the workspace
that it works on, and what it puts into a cache it has read there. -/
structure KeepsTo (env : Setup) (schemaName : String) (m : Memory Pg) (o : Op Pg) : Prop where
  held : ∀ s, m.1 = some s → s.Confined (workRows schemaName)
  call : o.Confined (workRows schemaName)
  fills : (∀ e, o = .ext e → e.caches = false) ∨ Loaded env schemaName m o

theorem ofTask_tasks (schemaName : String) : Tasks (OfTask schemaName) schemaName := by
  have rows : ∀ {tb : Table} {k : Key}, tb ∈ [.executions, .attempts, .executionLogs, .jobs] → k.schema = schemaName →
      workRows schemaName tb k := by
    intro tb k ht hk
    refine ⟨workspaceRows_schema ?_ hk, List.mem_append_left [Table.cronJob] ht⟩
    rintro rfl
    revert ht
    decide
  have silent : ∀ {o : Op Pg}, o.Confined (workRows schemaName) → (∀ e, o ≠ .ext e) → OfTask schemaName o :=
    fun confined other => ⟨confined, fun e he => absurd he (other e)⟩
  constructor
  · exact fun e he => ⟨trivial, fun e' h => by cases h; exact he⟩
  · exact silent trivial fun _ h => by cases h
  · exact silent trivial fun _ h => by cases h
  · exact fun stmt => silent trivial fun _ h => by cases h
  · exact silent trivial fun _ h => by cases h
  · exact silent trivial fun _ h => by cases h
  · exact fun workerId k h => silent (rows (by decide) h) fun _ h => by cases h
  · exact fun stmt executionId keep patch => silent (rows (by decide) rfl) fun _ h => by cases h
  · exact fun stmt build h => silent (fun id now => rows (by decide) (h id now)) fun _ h => by cases h
  · exact fun stmt build h => silent (fun id now => rows (by decide) (h id now)) fun _ h => by cases h
  · exact fun k keep h => silent (rows (by decide) h) fun _ h => by cases h
  · exact fun jobId => silent ⟨⟨jobId, rfl⟩, by decide⟩ fun _ h => by cases h

/-- One schema of a worker's loop is one transaction in that workspace. -/
theorem claimIn_keepsTo (workerId schemaName : String) {m : Memory Pg} (hm : m.1 = none) :
    (Poller.claimIn env workerId schemaName).Holds Recalls (KeepsTo env schemaName) (fun _ m' => m'.1 = none) m := by
  have confined : ∀ m o, OfTask schemaName o ∨ Loaded env schemaName m o → o.Confined (workRows schemaName) := by
    rintro m o (ho | ⟨c, name, v, rfl, _⟩)
    · exact ho.1
    · trivial
  have loads : Loads env (OfTask schemaName) schemaName (Poller.claimIn env workerId schemaName) :=
    loads_claimIn (ofTask_tasks schemaName) workerId
  have kept := holds_keep (I := fun m => ∀ s, m.1 = some s → s.Confined (workRows schemaName)) (loads m)
    (fun s hs => by rw [hm] at hs; cases hs) fun m o r m' ho held hr => confined_recalls hr (confined m o ho) held
  have walk := (holds_both kept (claimIn_out workerId schemaName hm)).mono fun _ _ h => h.2
  exact walk.pre_mono fun m o h => ⟨h.1.1, confined m o h.1.2, h.1.2.imp_left And.right⟩

theorem work_keepsTo (workerId : String) (schemas : List String) {m : Memory Pg} (hm : m.1 = none) :
    (Poller.claimAndProcess env workerId schemas).Holds Recalls (fun m o => ∃ schemaName ∈ schemas, KeepsTo env schemaName m o)
      (fun _ _ => True) m := by
  induction schemas generalizing m with
  | nil => trivial
  | cons schemaName schemas ih =>
    have first : (Poller.claimIn env workerId schemaName).Holds Recalls
        (fun m o => ∃ s ∈ schemaName :: schemas, KeepsTo env s m o) (fun _ m' => m'.1 = none) m :=
      (claimIn_keepsTo workerId schemaName hm).pre_mono fun m o h => ⟨schemaName, List.mem_cons_self .., h⟩
    refine Prog.holds_bind.mpr (first.mono fun found m' hm' => ?_)
    split
    next => trivial
    next =>
      refine (ih hm').pre_mono fun m o h => ?_
      obtain ⟨s, hs, keeps⟩ := h
      exact ⟨s, List.mem_cons_of_mem _ hs, keeps⟩

theorem programs_keepsTo (req : Request env) : req.program.Holds Recalls
    (fun m o => ∀ workerId schemas, req = .work workerId schemas → ∃ schemaName ∈ schemas, KeepsTo env schemaName m o)
    (fun _ _ => True) (none, []) := by
  cases req with
  | work workerId schemas =>
    refine Prog.holds_bind.mpr (((work_keepsTo workerId schemas rfl).pre_mono fun m o h w ss same => ?_).mono fun _ _ _ => trivial)
    cases same
    exact h
  | _ => exact (Prog.holds_true _ _).pre_mono fun _ _ _ _ _ h => by cases h

/-- A worker of two workspaces that has yet to commit its attempt in the second. -/
def twoWorkspaces : List (Action (service sample)) :=
  serve 1 8 (.createEndpoint "acme" sampleEndpoint) (.response 200 "") ++
    serve 2 14 (.createJob "acme" sampleJob) (.response 200 "") ++
      serve 3 18 (.work "worker-1" ["globex", "acme"]) (.response 200 "")

def workCommit : Env Pg := ⟨false, sampleUuid 318, answers 318 (.response 200 "")⟩

def givenSchemas : Request sample → Option (List String)
  | .work _ schemas => some schemas
  | _ => none

theorem givenSchemas_work {req : Request sample} {schemas : List String} (h : givenSchemas req = some schemas) :
    ∃ workerId, req = .work workerId schemas := by
  cases req with
  | work w _ =>
    cases h
    exact ⟨w, rfl⟩
  | _ => cases h

end Invokr

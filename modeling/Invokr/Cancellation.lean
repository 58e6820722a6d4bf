import Invokr.ClaimSafety

namespace Invokr

open TxLib

variable {env : Setup} {g : Guard (service env)}

theorem Stopped.later {schemaName jobId : String} {w w' : World Pg} (h : Stopped schemaName jobId w)
    (later : Later w.rows w'.rows) : Stopped schemaName jobId w' := by
  obtain ⟨ke, e, he, hj, hc⟩ := h
  obtain ⟨e', he', same⟩ := later.execution ke e he
  exact ⟨ke, e', he', by rw [← hj, jobKey, jobKey, same.jobId], same.settled hc⟩

theorem not_cancellable {e : Execution} (settled : Settled e) (h : Executions.cancellable e = false) :
    e.status = .retrying ∨ e.status.terminal = true := by
  have running := settled.notRunning
  simp only [Executions.cancellable] at h
  cases hs : e.status <;> simp_all [ExecutionStatus.terminal]

/-- The answer to a cancel that was granted. -/
def cancelAnswer (p : Pool (service env)) (t : Nat) : Option (String × String × Job) :=
  match p.answer t with
  | some (.cancelJob schemaName jobId, .http (.ok (.jobCancelled j))) => some (schemaName, jobId, j)
  | _ => none

theorem cancelAnswer_answer {p : Pool (service env)} {t : Nat} {schemaName jobId : String} {j : Job}
    (h : cancelAnswer p t = some (schemaName, jobId, j)) :
    p.answer t = some (.cancelJob schemaName jobId, .http (.ok (.jobCancelled j))) := by
  unfold cancelAnswer at h
  split at h
  next hn =>
    cases h
    exact hn
  next => cases h

/-- A job whose first attempt has failed is cancelled. -/
def cancelBetween : List (Action (service sample)) :=
  oneAttempt (.response 500 "") ++ serve 4 20 (.cancelJob "acme" (sampleId 208)) (.response 500 "")

theorem cancelled_between : ∃ j : Job, j.triggerType = .immediate ∧
    (after cancelBetween).answer 4 = some (.cancelJob "acme" (sampleId 208), .http (.ok (.jobCancelled j))) := by
  have found : (cancelAnswer (after cancelBetween) 4).map (fun x => (x.1, x.2.1, x.2.2.triggerType)) =
      some ("acme", sampleId 208, .immediate) := by decide +kernel
  obtain ⟨⟨schemaName, jobId, j⟩, hj, hx⟩ := Option.map_eq_some_iff.mp found
  simp only [Prod.mk.injEq] at hx
  obtain ⟨rfl, rfl, htr⟩ := hx
  exact ⟨j, htr, cancelAnswer_answer hj⟩

def dispatchAgain : List (Action (service sample)) := serve 5 7 (.work "worker-1" ["acme"]) (.response 500 "")

end Invokr

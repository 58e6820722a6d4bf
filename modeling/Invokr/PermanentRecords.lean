import Invokr.Appends
import Invokr.RequestCalls
import Invokr.Runs

namespace Invokr

open TxLib

variable {env : Setup} {acts acts' : List (Action (service env))}

/-- The tables that only grow. -/
def recordTable : Table → Bool
  | .attempts | .executionLogs => true
  | _ => false

theorem records_neutral (tb : Table) : Neutral (Op.Appends (M := Pg) tb) :=
  ⟨fun _ _ => trivial, trivial, trivial, fun _ => trivial, trivial, trivial⟩

section tables

variable {tb : Table} (record : recordTable tb = true)

include record

theorem record_not_job : Table.jobs ≠ tb := by
  rintro rfl
  cases record

theorem record_not_execution : Table.executions ≠ tb := by
  rintro rfl
  cases record

theorem record_not_named {tb' : Table} (h : byName tb' = true) : tb' ≠ tb := by
  rintro rfl
  cases tb' <;> cases record <;> cases h

theorem records_labours : Labours (Op.Appends (M := Pg) tb) where
  neutral := records_neutral tb
  claim _ _ := record_not_execution record
  processes _ _ :=
    { ext := fun _ => trivial
      halt := trivial
      read := fun _ _ => trivial
      retire := fun _ _ => record_not_job record
      drop := fun _ => trivial
      attempt := fun _ => trivial
      line := fun _ _ => trivial
      finish := trivial
      success := fun _ => record_not_execution record
      retry := fun _ _ => record_not_execution record
      failed := record_not_execution record }

theorem records_serves (schemaName : String) : Serves (Op.Appends (M := Pg) tb) schemaName where
  toNeutral := records_neutral tb
  job _ _ _ := trivial
  jobChange _ _ _ _ _ := record_not_job record
  execution _ _ _ _ := trivial
  cancel _ _ _ _ _ := record_not_execution record
  schedule _ _ := trivial
  unschedule _ := trivial
  named _ _ _ _ _ := trivial
  renamed _ _ _ _ _ hb _ _ := record_not_named record hb
  remove _ _ _ hb _ := record_not_named record hb

/-- An attempt and a log line stay as they were written. -/
theorem record_stays (le : acts <+: acts') {k : Key} {r : tb.Row} (h : (after acts).world.rows tb k = some r) :
    (after acts').world.rows tb k = some r := by
  have solid : Pg.plain tb = false := by
    cases tb <;> first | rfl | cases record
  exact Pool.row_stays (S := service env) solid (serves_all (records_labours record) (records_serves record)) le h

end tables

/-- A RETIRED job stays as it is. -/
theorem retired_stays (le : acts <+: acts') {k : Key} {j : Job} (hj : (after acts).world.rows .jobs k = some j)
    (retired : j.status = .retired) : (after acts').world.rows .jobs k = some j := by
  obtain ⟨more, rfl⟩ := le
  refine run_induction_from (P := fun D => D .jobs k = some j) acts (Pool.meets_all _ _) hj ?_
  intro req now D D' _ c hD
  have step := c.job_step k
  rw [hD] at step
  generalize D' .jobs k = x at step ⊢
  cases step with
  | same => rfl
  | retire active =>
    rw [retired] at active
    cases active

/-- What has been recorded stays: jobs and executions are never deleted and keep all columns but those of their
state, a RETIRED job and a finished execution keep those as well, and attempts and log lines never change. -/
theorem records_permanent (le : acts <+: acts') :
    (∀ k, ∀ j : Job, (after acts).world.rows .jobs k = some j → ∃ j' : Job, (after acts').world.rows .jobs k = some j' ∧
      SameJob j j' ∧ (j.status = .retired → j' = j)) ∧
      (∀ k, ∀ e : Execution, (after acts).world.rows .executions k = some e →
        ∃ e' : Execution, (after acts').world.rows .executions k = some e' ∧ SameExecution e e') ∧
      (∀ k, ∀ a : Attempt, (after acts).world.rows .attempts k = some a → (after acts').world.rows .attempts k = some a) ∧
      ∀ k, ∀ l : ExecutionLog, (after acts).world.rows .executionLogs k = some l →
        (after acts').world.rows .executionLogs k = some l := by
  refine ⟨fun k j hj => ?_, (later_since le).execution, fun _ _ => record_stays rfl le, fun _ _ => record_stays rfl le⟩
  obtain ⟨j', hj', same⟩ := (later_since le).job k j hj
  refine ⟨j', hj', same, fun retired => ?_⟩
  have still := retired_stays le hj retired
  rw [hj'] at still
  exact Option.some.inj still

/-- The attempt and the job of a run are there after any later steps. -/
theorem records_permanent_attempt : ∃ k : Key, ∃ a : Attempt, a.attemptNumber = 1 ∧
    (after (oneAttempt (.response 200 "") ++ oneAttempt (.response 500 ""))).world.rows .attempts k = some a := by
  have found : ((after (oneAttempt (.response 200 ""))).world.keys .attempts).any (fun k =>
      ((after (oneAttempt (.response 200 ""))).world.rows .attempts k).any fun (a : Attempt) => a.attemptNumber == 1) = true := by
    decide +kernel
  obtain ⟨k, _, hk⟩ := List.any_eq_true.mp found
  obtain ⟨a, ha, number⟩ := (Option.any_eq_true _ _).mp hk
  exact ⟨k, a, by simpa using number, (records_permanent (List.prefix_append _ _)).2.2.1 k a ha⟩

end Invokr

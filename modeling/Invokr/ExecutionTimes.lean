import Invokr.RowRules
import Invokr.RequestCalls
import Invokr.Runs

namespace Invokr

open TxLib

variable {env : Setup}

/-- What an execution's times tell of it. -/
structure TimesTell (e : Execution) : Prop where
  nonneg : 0 ≤ e.attemptCount
  untried : e.attemptCount = 0 → e.startedAt = none
  tried : 0 < e.attemptCount → e.startedAt.isSome = true
  waiting : e.status = .pending ∨ e.status = .queued → e.completedAt = none ∧ e.durationMs = none ∧ e.workerId = none
  retrying : e.status = .retrying → ∃ t, e.startedAt = some t ∧ t ≤ e.runAt ∧ e.completedAt = none ∧
    e.durationMs = none ∧ e.workerId = none
  finished : e.status = .success ∨ e.status = .failed → ∃ t, e.startedAt = some t ∧ e.completedAt = some t ∧
    e.durationMs = some 0
  cancelled : e.status = .cancelled → e.durationMs = none ∧ e.workerId = none

/-- A claimed execution was started when its transaction began. -/
structure Underway (now : Int) (e : Execution) : Prop where
  startedAt : e.status = .running → e.startedAt = some now
  times : TimesTell e

theorem Untried.times {e : Execution} (h : Untried e) : TimesTell e := by
  have count := h.attemptCount
  have waiting := cancellable_iff.mp h.waiting
  refine ⟨by omega, fun _ => h.startedAt, fun hpos => by omega, fun _ => ⟨h.completedAt, h.durationMs, h.workerId⟩, ?_, ?_, ?_⟩
  · intro hs
    rcases waiting with hw | hw <;> rw [hs] at hw <;> cases hw
  · intro hs
    rcases waiting with hw | hw <;> rcases hs with hs | hs <;> rw [hs] at hw <;> cases hw
  · intro _
    exact ⟨h.durationMs, h.workerId⟩

theorem duration_now {now : Int} {e : Execution} (h : e.startedAt = some now) : Executions.duration now e = some 0 := by
  have zero : roundMillis (now - now) = 0 := by
    rw [Int.sub_self]
    rfl
  rw [Executions.duration, h, Option.map_some, zero]

theorem running_iff {now : Int} {e : Execution} : Executions.isRunning now e = true ↔ e.status = .running := by
  simp [Executions.isRunning]

theorem Untried.underway {now : Int} {e : Execution} (h : Untried e) : Underway now e := by
  refine ⟨fun hs => ?_, h.times⟩
  rcases cancellable_iff.mp h.waiting with hw | hw <;> rw [hs] at hw <;> cases hw

theorem Underway.claim {now : Int} {e : Execution} (h : Underway now e) (workerId : String) :
    Underway now ((Executions.claimPatch workerId).apply now e) := by
  have nonneg := h.times.nonneg
  refine ⟨fun _ => rfl, ?_⟩
  refine ⟨?_, ?_, fun _ => rfl, ?_, ?_, ?_, ?_⟩
  · show 0 ≤ e.attemptCount + 1
    omega
  · intro hz
    have count : e.attemptCount + 1 = 0 := hz
    omega
  all_goals intro hs
  all_goals simp [Executions.claimPatch] at hs

theorem Underway.cancel {now : Int} {e : Execution} (h : Underway now e) (hc : Executions.cancellable e = true) :
    Underway now (Executions.cancelPatch.apply now e) := by
  have waiting := h.times.waiting (cancellable_iff.mp hc)
  refine ⟨fun hs => by simp [Executions.cancelPatch] at hs, ?_⟩
  refine ⟨h.times.nonneg, h.times.untried, h.times.tried, ?_, ?_, ?_, fun _ => ⟨waiting.2.1, waiting.2.2⟩⟩
  all_goals intro hs
  all_goals simp [Executions.cancelPatch] at hs

theorem Underway.success {now : Int} {e : Execution} (h : Underway now e) (hr : Executions.isRunning now e = true)
    (output : Json) : Underway now ((Executions.successPatch output).apply now e) := by
  have started := h.startedAt (running_iff.mp hr)
  refine ⟨fun hs => by simp [Executions.successPatch] at hs, ?_⟩
  refine ⟨h.times.nonneg, h.times.untried, h.times.tried, ?_, ?_, fun _ => ⟨now, started, rfl, duration_now started⟩, ?_⟩
  all_goals intro hs
  all_goals simp [Executions.successPatch] at hs

theorem Underway.failed {now : Int} {e : Execution} (h : Underway now e) (hr : Executions.isRunning now e = true) :
    Underway now (Executions.failedPatch.apply now e) := by
  have started := h.startedAt (running_iff.mp hr)
  refine ⟨fun hs => by simp [Executions.failedPatch] at hs, ?_⟩
  refine ⟨h.times.nonneg, h.times.untried, h.times.tried, ?_, ?_, fun _ => ⟨now, started, rfl, duration_now started⟩, ?_⟩
  all_goals intro hs
  all_goals simp [Executions.failedPatch] at hs

/-- A retry is due no earlier than the attempt began; without attempts left it is a failure. -/
theorem Underway.retry {now : Int} {e : Execution} (h : Underway now e) (hr : Executions.isRunning now e = true)
    {backoffMs : Int} (hb : 0 ≤ backoffMs) : Underway now ((Executions.retryPatch backoffMs).apply now e) := by
  have started := h.startedAt (running_iff.mp hr)
  by_cases hm : e.attemptCount ≥ e.maxAttempts
  · refine ⟨fun hs => by simp [Executions.retryPatch, hm] at hs, ?_⟩
    have zero := duration_now started
    refine ⟨h.times.nonneg, h.times.untried, h.times.tried, ?_, ?_, fun _ => ⟨now, started, ?_, ?_⟩, ?_⟩
    · intro hs
      simp [Executions.retryPatch, hm] at hs
    · intro hs
      simp [Executions.retryPatch, hm] at hs
    · simp [Executions.retryPatch, hm]
    · simp [Executions.retryPatch, hm, zero]
    · intro hs
      simp [Executions.retryPatch, hm] at hs
  · refine ⟨fun hs => by simp [Executions.retryPatch, hm] at hs, ?_⟩
    refine ⟨h.times.nonneg, h.times.untried, h.times.tried, ?_, fun _ => ⟨now, started, ?_, ?_, ?_, rfl⟩, ?_, ?_⟩
    · intro hs
      simp [Executions.retryPatch, hm] at hs
    · have later : now ≤ now + backoffMs * 1000 := by omega
      simpa [Executions.retryPatch, hm] using later
    · simp [Executions.retryPatch, hm]
    · simp [Executions.retryPatch, hm]
    · intro hs
      simp [Executions.retryPatch, hm] at hs
    · intro hs
      simp [Executions.retryPatch, hm] at hs

/-- The rule of the executions' times. -/
def timesRule : RowRule Pg where
  kept tb _ r := match tb, r with
    | .executions, (e : Execution) => TimesTell e
    | _, _ => True
  held now tb _ r := match tb, r with
    | .executions, (e : Execution) => Underway now e
    | _, _ => True
  settles now tb k r h := by
    cases tb with
    | executions => exact Underway.times h
    | _ => trivial

theorem times_neutral : Neutral (Op.Obeys timesRule) :=
  ⟨fun _ _ => trivial, trivial, trivial, fun _ => trivial, trivial, trivial⟩

theorem times_labours : Labours (Op.Obeys timesRule) where
  neutral := times_neutral
  claim workerId _ _ _ h _ := Underway.claim h workerId
  processes _ _ :=
    { ext := fun _ => trivial
      halt := trivial
      read := fun _ _ => trivial
      retire := fun _ _ _ _ _ _ => trivial
      drop := fun _ => trivial
      attempt := fun _ _ _ => trivial
      line := fun _ _ _ _ => trivial
      finish := trivial
      success := fun output _ _ h hr => Underway.success h hr output
      retry := fun _ hb _ _ h hr => Underway.retry h hr hb
      failed := fun _ _ h hr => Underway.failed h hr }

theorem times_serves (schemaName : String) : Serves (Op.Obeys timesRule) schemaName := by
  refine ⟨times_neutral, ?_, ?_, ?_, ?_, ?_, ?_, ?_, ?_, ?_⟩
  · exact fun stmt build h id now => trivial
  · exact fun stmt k keep patch h now r _ _ => trivial
  · exact fun stmt orIgnore build h id now => (h id now).2.underway
  · exact fun stmt k keep h waiting now e he hk => Underway.cancel he (waiting now e hk)
  · exact fun jobId row now => trivial
  · exact fun jobId => trivial
  · intro stmt tb build hb h id now
    cases tb <;> trivial
  · intro stmt tb k keep patch hb h names now r hr _
    cases tb <;> trivial
  · exact fun stmt tb k hb h => trivial

/-- At every moment of every run the times of each execution tell its state: before its first attempt it has
not started, while it waits for another it is due no earlier than the last one began, and one that has
succeeded or failed was completed at the very time it was started, having taken no time. -/
theorem execution_times (acts : List (Action (service env))) {k : Key} {e : Execution}
    (he : (after acts).world.rows .executions k = some e) : TimesTell e ∧ e.status ≠ .running := by
  have found : ∀ (acts : List (Action (service env))) now tb k r, (after acts).world.rows tb k = some r →
      timesRule.kept tb k r → timesRule.held now tb k r := by
    intro acts now tb k r hr hk
    cases tb with
    | executions =>
      have settled := (keeps_all acts).inv.ledger.settled k r hr
      exact ⟨fun running => absurd running settled.notRunning, hk⟩
    | _ => trivial
  have obeys := Pool.obeys (S := service env) (serves_all times_labours times_serves) found acts
  exact ⟨obeys.rows .executions k e he, ((keeps_all acts).inv.ledger.settled k e he).notRunning⟩

/-- An execution whose receiver answers at once. -/
theorem execution_times_tried : ∃ k, ∃ e : Execution,
    (after (oneAttempt (.response 200 ""))).world.rows .executions k = some e ∧ e.status = .success ∧
      e.durationMs = some 0 := by
  have found : (((after (oneAttempt (.response 200 ""))).world.rows .executions ⟨"acme", sampleId 209⟩).map
      Execution.status) = some .success := by decide +kernel
  obtain ⟨e, he, hs⟩ := Option.map_eq_some_iff.mp found
  obtain ⟨t, _, _, zero⟩ := (execution_times _ he).1.finished (Or.inl hs)
  exact ⟨_, e, he, hs, zero⟩

end Invokr

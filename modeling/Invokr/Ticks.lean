import Invokr.Schedules

namespace Invokr

open TxLib

variable {env : Setup}

/-- The execution is the one that a tick at `now` makes for the job, within the job's window. -/
structure Materialized (now : Int) (j : Job) (e : Execution) : Prop where
  cron : j.triggerType = .cron
  createdAt : e.createdAt = now
  runAt : e.runAt = now
  startsAt : ∀ a, j.cronStartsAt = some a → a ≤ now
  endsAt : ∀ b, j.cronEndsAt = some b → now < b
  key : e.idempotencyKey = some (Jobs.cronIdempotencyKey j.jobId now)

theorem Fired.materialized {now : Int} {j : Job} {e : Execution} (h : Fired now j e) : Materialized now j e := by
  have hw := h.window
  simp only [Jobs.inWindow, Bool.and_eq_true] at hw
  refine ⟨h.cron, h.createdAt, h.runAt, fun a ha => ?_, fun b hb => ?_, h.key⟩
  · simpa [ha] using hw.1
  · simpa [hb] using hw.2

/-- The thread's open transaction was begun by the action `x` after the actions `start`. -/
structure Began (before start : List (Action (service env))) (x : Action (service env)) (t : Nat) : Prop where
  prior : ∃ mid, before = start ++ x :: mid
  begun : (after (start ++ [x])).world.history t = (after start).world.history t ++ [.begin (after start).world.rows]
  still : ∃ l, (after before).world.history t = (after (start ++ [x])).world.history t ++ l ∧ ∀ y ∈ l, y.inside = true

theorem began_of_current {before : List (Action (service env))} {t : Nat} {D : Rows Pg}
    (h : Entry.begin D ∈ current ((after before).world.history t)) :
    ∃ start x, Began before start x t ∧ D = (after start).world.rows := by
  obtain ⟨l₁, l₂, hl, inside⟩ := current_split h
  obtain ⟨start, x, mid, hacts, hstart, hbegun, logs⟩ := Pool.log_origin hl
  have hD := logs.began
  subst hD
  refine ⟨start, x, ⟨⟨mid, hacts⟩, by rw [hbegun, hstart], l₂, ?_, inside⟩, rfl⟩
  rw [hl, hbegun]
  simp

/-- What a commit of a tick does to one execution: nothing, or it adds the execution of its job. -/
theorem tick_step {before : List (Action (service env))} {t : Nat} {e : Env Pg} {th : Thread (service env)} {jobName : String}
    (hth : (after before).threads t = some th) (htick : th.req = .tick jobName) (ke : Key) :
    (after (before ++ [.step t e])).world.rows .executions ke = (after before).world.rows .executions ke ∨
      ∃ s, (after before).world.sessions t = some s ∧ Materializes (after before).world.rows s.now
        ((after before).world.history t) ke ((after before).world.rows .executions ke)
        ((after (before ++ [.step t e])).world.rows .executions ke) := by
  have keeps := keeps_all before
  rw [after_snoc]
  rcases act_rows keeps (Pool.meets_all _ [.step t e]).1 with frame | ⟨u, th', s, c⟩
  · exact Or.inl (by rw [frame.eq (by simp)])
  · obtain ⟨e', he⟩ := c.action
    cases he
    have hsame : th' = th := Option.some.inj (c.thread.symm.trans hth)
    have ticking := c.ticking
    rw [hsame, htick] at ticking
    have each := ticking s _ (Prod.ext c.session rfl) c.live
    rw [c.rows]
    rcases keeps.sound.visible_each c.session each ke with h | h
    · exact Or.inl h
    · exact Or.inr ⟨s, c.session, h⟩

/-- A tick of the job that fires every minute, up to its commit. -/
def tickBegun : List (Action (service sample)) :=
  oneCron ++ serve 3 4 (.tick (Jobs.cronJobName "acme" (sampleId 206))) (.response 200 "")

def tickCommit : Env Pg := ⟨false, sampleUuid 304, answers 304 (.response 200 "")⟩

def isTick : Request sample → Bool
  | .tick _ => true
  | _ => false

end Invokr

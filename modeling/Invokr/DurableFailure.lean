import Invokr.FailingWork
import Invokr.Recollection
import Invokr.Spared
import Invokr.Runs

namespace Invokr

open TxLib

variable {env : Setup} {acts : List (Action (service env))} {t : Nat} {workerId : String} {schemas : List String}
  {o : Op Pg} {k : Key}

def IsFailed (D : Rows Pg) (k : Key) : Prop := ∃ e : Execution, D .executions k = some e ∧ e.status = .failed

theorem IsFailed.later {D D' : Rows Pg} (h : IsFailed D k) (later : Later D D') : IsFailed D' k := by
  obtain ⟨e, he, failed⟩ := h
  obtain ⟨e', he', same⟩ := later.execution k e he
  rw [same.ended (by rw [failed]; rfl)] at he'
  exact ⟨e, he', failed⟩

theorem verdict_run (work : (after acts).next t = some (.work workerId schemas, o)) :
    Verdict ((after acts).world.sessions t, transcript acts t) o := by
  have walk : ((service env).program (.work workerId schemas)).Holds Recalls Verdict (fun _ _ => True) (none, []) :=
    Prog.holds_bind.mpr ((walks_claimAndProcess rfl).mono fun _ _ _ => trivial)
  exact Pool.resumed (holds_of walk) work rfl

/-- A worker that has marked its claimed execution failed leaves it FAILED for good if and only if the database has
rejected nothing of the transaction, or another worker has failed the execution before. -/
theorem failure_durable (acts : List (Action (service env))) {t : Nat} {workerId : String} {schemas : List String}
    {o : Op Pg} {k : Key} (e : Env Pg) (work : (after acts).next t = some (.work workerId schemas, o))
    (ends : o = .commit ∨ o = .rollback) (claimed : HasClaimed (sinceBegin (transcript acts t)) k)
    (decided : HasDecided (sinceBegin (transcript acts t))) :
    (∀ acts', acts ++ [.step t e] <+: acts' → IsFailed (after acts').world.rows k) ↔
      (∀ x ∈ sinceBegin (transcript (acts ++ [.step t e]) t), x.rejected = false) ∨ IsFailed (after acts).world.rows k := by
  obtain ⟨s, hs, aborted, held⟩ := verdict_run work ends k claimed decided
  have kept : ∀ before acts' : List (Action (service env)), before <+: acts' → IsFailed (after before).world.rows k →
      IsFailed (after acts').world.rows k := fun _ _ le failed => failed.later (later_since le)
  -- the end of the transaction changes nothing
  have vain : (after (acts ++ [.step t e])).world.rows = (after acts).world.rows →
      (sinceBegin (transcript (acts ++ [.step t e]) t)).any Exchange.rejected = true →
      ((∀ acts', acts ++ [.step t e] <+: acts' → IsFailed (after acts').world.rows k) ↔
        (∀ x ∈ sinceBegin (transcript (acts ++ [.step t e]) t), x.rejected = false) ∨ IsFailed (after acts).world.rows k) := by
    intro same rejected
    obtain ⟨x, hx, hr⟩ := List.any_eq_true.mp rejected
    constructor
    · intro durable
      have failed := durable _ (List.prefix_refl _)
      rw [same] at failed
      exact Or.inr failed
    · rintro (calm | failed) acts' le
      · rw [calm x hx] at hr
        cases hr
      · exact kept acts acts' ((List.prefix_append _ _).trans le) failed
  have made : ∀ {w : World Pg} {r : o.Reply}, (after acts).world.exec t o e = some (w, r) →
      (after (acts ++ [.step t e])).world = w ∧ sinceBegin (transcript (acts ++ [.step t e]) t) =
        sinceBegin (transcript acts t) ++ [⟨o, e, r, (after acts).world.rows⟩] := by
    intro w r he
    refine ⟨?_, ?_⟩
    · rw [after_snoc]
      exact Pool.act_call work he
    · rw [transcript_snoc, exchange_call work he]
      exact sinceBegin_snoc (by rcases ends with rfl | rfl <;> rfl)
  rcases ends with rfl | rfl
  · obtain ⟨w, r, he, hr, hrows⟩ := exec_commit hs e
    obtain ⟨hw, since⟩ := made he
    have last : Exchange.rejected (⟨.commit, e, r, (after acts).world.rows⟩ : Exchange Pg) = (s.aborted.not && e.fault) := hr
    cases live : s.aborted with
    | true =>
      refine vain (by rw [hw, hrows, live]; rfl) ?_
      rw [since, List.any_append, ← aborted, live]
      rfl
    | false =>
      cases hf : e.fault with
      | true =>
        refine vain (by rw [hw, hrows, live, hf]; rfl) ?_
        rw [since, List.any_append]
        simp [last, live, hf]
      | false =>
        obtain ⟨_, b, ke, hh, failed⟩ := held live
        have now : IsFailed (after (acts ++ [.step t e])).world.rows k := by
          rw [hw, hrows, live, hf]
          exact ⟨ke, by simp [Session.visible, hh], failed⟩
        refine iff_of_true (fun acts' le => kept _ acts' le now) (Or.inl fun x hx => ?_)
        rw [since] at hx
        rcases List.mem_append.mp hx with hx | hx
        · rw [live] at aborted
          simpa using (List.any_eq_false.mp aborted.symm) x hx
        · rw [List.mem_singleton.mp hx, last, live, hf]
          rfl
  · obtain ⟨w, he, hrows⟩ := exec_rollback (after acts).world t e
    obtain ⟨hw, since⟩ := made he
    have lost : s.aborted = true := by
      cases live : s.aborted with
      | true => rfl
      | false => cases (held live).1
    refine vain (by rw [hw, hrows]) ?_
    rw [since, List.any_append, ← aborted, lost]
    rfl

/-- The worker is about to roll back. -/
def rollsBack (p : Pool (service env)) (t : Nat) (workerId : String) (schemas : List String) : Bool :=
  match p.next t with
  | some (.work workerId' schemas', .rollback) => workerId' = workerId && schemas' = schemas
  | _ => false

theorem rollsBack_next {p : Pool (service env)} (h : rollsBack p t workerId schemas = true) :
    p.next t = some (.work workerId schemas, .rollback) := by
  unfold rollsBack at h
  split at h
  next workerId' schemas' hn =>
    simp only [Bool.and_eq_true, decide_eq_true_eq] at h
    rw [hn, h.1, h.2]
  next => cases h

/-- The claimed execution's job cannot be fetched. -/
def unfetchedJob : List (Action (service sample)) :=
  serve 1 8 (.createEndpoint "acme" sampleEndpoint) (.response 200 "") ++ serve 2 14 (.createJob "acme" sampleJob) (.response 200 "") ++
    serve 3 3 (.work "worker-1" ["acme"]) (.response 200 "") ++
    .step 3 ⟨true, sampleUuid 303, answers 303 (.response 200 "")⟩ :: steps 3 1 (.response 200 "")

def quietEnv : Env Pg := ⟨false, sampleUuid 0, answers 0 (.response 200 "")⟩

theorem unfetched_claimed : HasClaimed (sinceBegin (transcript unfetchedJob 3)) ⟨"acme", sampleId 209⟩ ∧
    HasDecided (sinceBegin (transcript unfetchedJob 3)) := by
  have claimed : ((sinceBegin (transcript unfetchedJob 3)).any fun x => claimsOf x = some ⟨"acme", sampleId 209⟩) = true := by
    decide +kernel
  have decided : ((sinceBegin (transcript unfetchedJob 3)).any fun x => marksFailed x.op) = true := by decide +kernel
  obtain ⟨x, hx, hk⟩ := List.any_eq_true.mp claimed
  exact ⟨⟨x, hx, of_decide_eq_true hk⟩, List.any_eq_true.mp decided⟩

/-- It is rolled back and stays QUEUED. -/
theorem failure_fails : ¬∀ (acts : List (Action (service sample))) (t : Nat) (workerId : String) (schemas : List String)
    (o : Op Pg) (k : Key) (e : Env Pg), (after acts).next t = some (.work workerId schemas, o) →
      (o = .commit ∨ o = .rollback) → HasClaimed (sinceBegin (transcript acts t)) k →
      HasDecided (sinceBegin (transcript acts t)) → IsFailed (after (acts ++ [.step t e])).world.rows k := by
  intro h
  have waits : rollsBack (after unfetchedJob) 3 "worker-1" ["acme"] = true := by decide +kernel
  obtain ⟨e, he, failed⟩ := h unfetchedJob 3 "worker-1" ["acme"] .rollback ⟨"acme", sampleId 209⟩ quietEnv
    (rollsBack_next waits) (Or.inr rfl) unfetched_claimed.1 unfetched_claimed.2
  have status : ((after (unfetchedJob ++ [.step 3 quietEnv])).world.rows .executions ⟨"acme", sampleId 209⟩).map
      (fun e : Execution => e.status) = some .queued := by decide +kernel
  rw [he, Option.map_some, failed] at status
  cases status

theorem failure_durable_unfetched :
    (∀ acts', unfetchedJob ++ [.step 3 quietEnv] <+: acts' → IsFailed (after acts').world.rows ⟨"acme", sampleId 209⟩) ↔
      (∀ x ∈ sinceBegin (transcript (unfetchedJob ++ [.step 3 quietEnv]) 3), x.rejected = false) ∨
        IsFailed (after unfetchedJob).world.rows ⟨"acme", sampleId 209⟩ :=
  have waits : rollsBack (after unfetchedJob) 3 "worker-1" ["acme"] = true := by decide +kernel
  failure_durable unfetchedJob quietEnv (rollsBack_next waits) (Or.inr rfl) unfetched_claimed.1 unfetched_claimed.2

end Invokr

import Invokr.GuardedDeletes

namespace Invokr

open TxLib

/-- A job of the endpoint. -/
def JobOf (D : Rows Pg) (k : Key) (j : Job) : Prop :=
  ∃ k', D .jobs k' = some j ∧ k'.schema = k.schema ∧ j.endpoint = k.id

def ActiveJob (D : Rows Pg) (k : Key) : Prop := ∃ j, JobOf D k j ∧ j.status = .active

theorem unreferenced_endpoint {D : Rows Pg} {k : Key} :
    Unreferenced (M := Pg) D .endpoints k ↔ ∀ j, ¬JobOf D k j := by
  constructor
  · rintro free j ⟨k', hj, hs, he⟩
    refine free .jobs k' j hj (List.mem_singleton.mpr ?_)
    rw [hs, he]
  · intro idle tb k' r hr mem
    cases tb with
    | jobs =>
      have hk : k = ⟨k'.schema, Job.endpoint r⟩ := congrArg Prod.snd (List.mem_singleton.mp mem)
      exact idle r ⟨k', hr, by rw [hk], by rw [hk]⟩
    | endpoints =>
      rcases List.mem_append.mp mem with h | h
      · simp at h
      · simp at h
    | executions => cases congrArg Prod.fst (List.mem_singleton.mp mem)
    | attempts => cases congrArg Prod.fst (List.mem_singleton.mp mem)
    | executionLogs => cases congrArg Prod.fst (List.mem_singleton.mp mem)
    | _ => exact (List.not_mem_nil mem).elim

variable {env : Setup} {acts : List (Action (service env))} {t : Nat} {schemaName name : String}

/-- The answer fits the rows of some call of the request, and what became of the tables fits the answer. -/
inductive FitDeletion (acts : List (Action (service env))) (t : Nat) (req : Request env) (k : Key) : Response → Prop where
  | missing {x : Exchange Pg} (made : Made acts t req x) (gone : x.rows .endpoints k = none) (same : KeepsTables acts t) :
      FitDeletion acts t req k (.error (.endpointNotFound k.id))
  | active {x : Exchange Pg} (made : Made acts t req x) (used : ActiveJob x.rows k) (same : KeepsTables acts t) :
      FitDeletion acts t req k (.error (.conflict ("Endpoint '" ++ k.id ++ "' has active jobs")))
  | deleted {before : List (Action (service env))} {e : Env Pg} (le : before ++ [.step t e] <+: acts)
      (there : ((after before).world.rows .endpoints k).isSome = true) (idle : ¬ActiveJob (after before).world.rows k)
      (removed : (after (before ++ [.step t e])).world.rows = setAt (M := Pg) (after before).world.rows .endpoints k none)
      (only : ∀ before' e', before' ++ [.step t e'] <+: acts →
        (after (before' ++ [.step t e'])).world.rows = (after before').world.rows ∨
          (after (before' ++ [.step t e'])).world.rows = setAt (M := Pg) (after before').world.rows .endpoints k none) :
      FitDeletion acts t req k (.ok .deleted)

/-- Nothing was rejected for reasons of the database's own, and the endpoint has an ACTIVE job when the guard reads
the jobs or no job at all when it is deleted. -/
def GuardDecides (acts : List (Action (service env))) (t : Nat) (req : Request env) (k : Key) : Prop :=
  (∀ x, Made acts t req x → x.faulty = false ∧ (x.op = .ext .acquire → x.env.answer .acquire = true)) ∧
    ((∃ x, Made acts t req x ∧ x.op = .snapshot .hasActiveJobs ∧ ActiveJob x.rows k) ∨
      ∃ x, Made acts t req x ∧ x.op = .deleteNow .deleteEndpoint .endpoints k ∧ ∀ j, ¬JobOf x.rows k j)

theorem tries_deleteEndpoint (env : Setup) (schemaName name : String) :
    Tries Recalls (fun _ o => Deleting .deleteEndpoint .endpoints ⟨schemaName, name⟩ o)
      (fun r m => Deletion .hasActiveJobs .deleteEndpoint .endpoints ⟨schemaName, name⟩
        (fun D => ActiveJob D ⟨schemaName, name⟩) (.conflict ("Endpoint '" ++ name ++ "' has active jobs"))
        (.endpointNotFound name) m.2 (.ok r))
      (fun e m => Deletion .hasActiveJobs .deleteEndpoint .endpoints ⟨schemaName, name⟩
        (fun D => ActiveJob D ⟨schemaName, name⟩) (.conflict ("Endpoint '" ++ name ++ "' has active jobs"))
        (.endpointNotFound name) m.2 (.error e))
      (EndpointsApi.delete env schemaName name) (none, []) := by
  refine deletes_unused (c := ⟨schemaName, env.tablePrefix, false⟩) rfl fun now D keys keyed => ?_
  rw [decide_eq_true_iff, matching_pos keyed]
  constructor
  · rintro ⟨k', j, hj, hs, keep⟩
    obtain ⟨he, ha⟩ := Bool.and_eq_true_iff.mp keep
    exact ⟨j, ⟨k', hj, hs, of_decide_eq_true he⟩, of_decide_eq_true ha⟩
  · rintro ⟨j, ⟨k', hj, hs, he⟩, ha⟩
    exact ⟨k', j, hj, hs, by simp [show j.endpoint = name from he, ha]⟩

/-- The endpoint of a job is there. -/
theorem endpoint_of_job {req : Request env} {x : Exchange Pg} (made : Made acts t req x) {k : Key} {j : Job}
    (job : JobOf x.rows k j) : ∃ ep : Endpoint, x.rows .endpoints k = some ep := by
  obtain ⟨before, _, _, _, hrows⟩ := made
  obtain ⟨k', hj, hs, he⟩ := job
  rw [← hrows] at hj ⊢
  have refs := (Pool.sound_run before).refs .jobs k' j hj
  have mem : (Table.endpoints, k) ∈ Table.refs .jobs k' j := by simp [Table.refs, hs, he]
  exact Option.isSome_iff_exists.mp (List.all_eq_true.mp refs _ mem)

/-- `DELETE /v1/endpoints/{name}` answers as its guard says, with the effect of its answer, if and only if no job is
left when the row is deleted or an ACTIVE one was seen before. -/
theorem endpoint_deletion (acts : List (Action (service env))) {t : Nat} {schemaName name : String} {r : Response}
    (answer : (after acts).answer t = some (.deleteEndpoint schemaName name, .http r)) :
    FitDeletion acts t (.deleteEndpoint schemaName name) ⟨schemaName, name⟩ r ↔
      GuardDecides acts t (.deleteEndpoint schemaName name) ⟨schemaName, name⟩ := by
  obtain ⟨l, made, deletion⟩ := deletion_answered rfl (tries_deleteEndpoint env schemaName name) answer
  have called : ∀ o ∈ l.map Exchange.op, ∃ x ∈ l, Made acts t (.deleteEndpoint schemaName name) x ∧ x.op = o := by
    intro o ho
    obtain ⟨x, hx, rfl⟩ := List.mem_map.mp ho
    exact ⟨x, hx, (made x).mp hx, rfl⟩
  have step := fun before e (le : before ++ [.step t e] <+: acts) =>
    deletion_step rfl (tries_deleteEndpoint env schemaName name) answer le
  have kept : (∀ e D, (⟨.deleteNow .deleteEndpoint .endpoints ⟨schemaName, name⟩, e, .ok true, D⟩ : Exchange Pg) ∉ l) →
      KeepsTables acts t := by
    intro none before e le
    rcases step before e le with same | ⟨hit, _⟩
    · exact same
    · exact (none _ _ ((made _).mpr hit)).elim
  cases deletion with
  | failed down =>
    refine iff_of_false (fun fit => ?_) fun decides => down (available_of_calls made decides.1)
    generalize hr : (.error (fromDb _) : Response) = r at fit
    cases fit <;> cases hr
  | inUse up calls used =>
    obtain ⟨x, hx, hmade, hop⟩ := called (.snapshot .hasActiveJobs) (by simp [calls, guardCalls])
    refine iff_of_true (.active hmade (used x hx hop) (kept fun e D mem => ?_)) ⟨up.calls made, Or.inl ⟨x, hmade, hop, used x hx hop⟩⟩
    have := List.mem_map_of_mem (f := Exchange.op) mem
    simp [calls, guardCalls] at this
  | deleted up calls idle free =>
    obtain ⟨x, hx, hmade, hop⟩ := called (.deleteNow .deleteEndpoint .endpoints ⟨schemaName, name⟩) (by simp [calls])
    obtain ⟨hx', there, unref⟩ := free x hx hop
    have none := unreferenced_endpoint.mp unref
    refine iff_of_true ?_ ⟨up.calls made, Or.inr ⟨x, hmade, hop, none⟩⟩
    rw [hx'] at hmade
    obtain ⟨before, le, hrows, removed⟩ := hmade.deleted
    refine .deleted le (by rw [hrows]; exact there) ?_ (by rw [hrows]; exact removed) fun before' e' le' => ?_
    · rw [hrows]
      rintro ⟨j, job, _⟩
      exact none j job
    · exact (step before' e' le').imp_right And.right
  | missing up calls idle gone =>
    obtain ⟨x, hx, hmade, hop⟩ := called (.deleteNow .deleteEndpoint .endpoints ⟨schemaName, name⟩) (by simp [calls])
    obtain ⟨_, hnone⟩ := gone x hx hop
    refine iff_of_true (.missing hmade hnone (kept fun e D mem => ?_)) ⟨up.calls made, Or.inr ⟨x, hmade, hop, fun j job => ?_⟩⟩
    · cases (gone _ mem rfl).1
    · obtain ⟨ep, hep⟩ := endpoint_of_job hmade job
      rw [hnone] at hep
      cases hep
  | referenced up calls idle held =>
    obtain ⟨x, hx, hmade, hop⟩ := called (.deleteNow .deleteEndpoint .endpoints ⟨schemaName, name⟩) (by simp [calls])
    obtain ⟨_, unref⟩ := held x hx hop
    refine iff_of_false (fun fit => ?_) ?_
    · generalize hr : (.error (fromDb _) : Response) = r at fit
      cases fit <;> cases hr
    · rintro ⟨_, ⟨y, hy, hyop, used⟩ | ⟨y, hy, hyop, none⟩⟩
      · exact idle y ((made y).mpr hy) hyop used
      · exact (held y ((made y).mpr hy) hyop).2 (unreferenced_endpoint.mpr none)

section sample

/-- The endpoint's only job is cancelled before the endpoint is deleted. -/
def retiredJob : List (Action (service sample)) :=
  serve 1 8 (.createEndpoint "acme" sampleEndpoint) (.response 200 "") ++
    serve 2 14 (.createJob "acme" sampleJob) (.response 200 "") ++
    serve 3 20 (.cancelJob "acme" (sampleId 208)) (.response 200 "") ++
    serve 4 8 (.deleteEndpoint "acme" "hook") (.response 200 "")

def noJob : List (Action (service sample)) :=
  serve 1 8 (.createEndpoint "acme" sampleEndpoint) (.response 200 "") ++
    serve 2 8 (.deleteEndpoint "acme" "hook") (.response 200 "")

/-- The answer to a deletion. -/
def deleteAnswer (p : Pool (service sample)) (t : Nat) : Option (String × String × Response) :=
  match p.answer t with
  | some (.deleteEndpoint schemaName name, .http r) => some (schemaName, name, r)
  | _ => none

theorem deleteAnswer_answer {p : Pool (service sample)} {t : Nat} {schemaName name : String} {n : Nat}
    (h : (deleteAnswer p t).map (fun x => (x.1, x.2.1, statusCode x.2.2)) = some (schemaName, name, n)) :
    ∃ r, p.answer t = some (.deleteEndpoint schemaName name, .http r) ∧ statusCode r = n := by
  obtain ⟨⟨schemaName', name', r⟩, hx, hcols⟩ := Option.map_eq_some_iff.mp h
  cases hcols
  unfold deleteAnswer at hx
  split at hx
  next hn =>
    cases hx
    exact ⟨r, hn, rfl⟩
  next => cases hx

theorem FitDeletion.status {acts : List (Action (service sample))} {t : Nat} {req : Request sample} {k : Key} {r : Response}
    (h : FitDeletion acts t req k r) : statusCode r ≠ 500 := by
  cases h <;> simp [statusCode, AppError.statusCode, Reply.statusCode]

/-- The endpoint of a cancelled job is not deleted: the foreign key rejects what the guard has let through. -/
theorem endpoint_deletion_fails : ¬∀ (acts : List (Action (service sample))) (t : Nat) (schemaName name : String) (r : Response),
    (∀ u e, .step u e ∈ acts → e.fault = false ∧ e.answer .acquire = true) →
    (after acts).answer t = some (.deleteEndpoint schemaName name, .http r) →
    FitDeletion acts t (.deleteEndpoint schemaName name) ⟨schemaName, name⟩ r := by
  intro fits
  obtain ⟨r, answer, status⟩ := deleteAnswer_answer (show (deleteAnswer (after retiredJob) 4).map
    (fun x => (x.1, x.2.1, statusCode x.2.2)) = some ("acme", "hook", 500) by decide +kernel)
  refine (fits retiredJob 4 "acme" "hook" r (fun u e he => ?_) answer).status status
  simp only [retiredJob, serve, steps, List.mem_append, List.mem_cons, List.mem_map, reduceCtorEq, false_or] at he
  rcases he with ((⟨i, _, hi⟩ | ⟨i, _, hi⟩) | ⟨i, _, hi⟩) | ⟨i, _, hi⟩ <;> cases hi <;> exact ⟨rfl, rfl⟩

theorem endpoint_deletion_noJob : ∃ r, (after noJob).answer 2 = some (.deleteEndpoint "acme" "hook", .http r) ∧
    statusCode r = 204 ∧ (FitDeletion noJob 2 (.deleteEndpoint "acme" "hook") ⟨"acme", "hook"⟩ r ↔
      GuardDecides noJob 2 (.deleteEndpoint "acme" "hook") ⟨"acme", "hook"⟩) := by
  obtain ⟨r, answer, status⟩ := deleteAnswer_answer (show (deleteAnswer (after noJob) 2).map
    (fun x => (x.1, x.2.1, statusCode x.2.2)) = some ("acme", "hook", 204) by decide +kernel)
  exact ⟨r, answer, status, endpoint_deletion noJob answer⟩

end sample

end Invokr

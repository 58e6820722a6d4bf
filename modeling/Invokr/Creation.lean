import Invokr.Runs

namespace Invokr

open TxLib

variable {env : Setup} {g : Guard (service env)} {acts : List (Action (service env))} {t : Nat}

/-- Every job was added by the commit of a request. -/
theorem job_origin (meets : (Pool.empty (service env)).Meets g acts) {k : Key} {j : Job}
    (h : (after acts).world.rows .jobs k = some j) :
    ∃ before x rest t th s, ∃ j₀ : Job, acts = before ++ x :: rest ∧ Commits g (after before) x t th s ∧
      (after before).world.rows .jobs k = none ∧ (after (before ++ [x])).world.rows .jobs k = some j₀ ∧ SameJob j₀ j := by
  induction acts using List.reverseRecOn generalizing j with
  | nil => cases h
  | append_singleton acts x ih =>
    have meets' := Pool.meets_append.mp meets
    have keeps := keeps_run meets'.1
    cases hold : (after acts).world.rows .jobs k with
    | none =>
      rcases act_rows keeps meets'.2.1 with frame | ⟨t, th, s, c⟩
      · rw [after_snoc, frame.eq (by simp), hold] at h
        cases h
      · exact ⟨acts, x, [], t, th, s, j, by simp, c, hold, h, sameJob_refl j⟩
    | some j' =>
      obtain ⟨before, x', rest, t, th, s, j₀, hacts, c, hn, hj₀, same⟩ := ih meets'.1 hold
      obtain ⟨j₁, hj₁, same'⟩ := (act_later keeps meets'.2.1).job k j' hold
      rw [after_snoc, hj₁] at h
      cases h
      exact ⟨before, x', rest ++ [x], t, th, s, j₀, by simp [hacts], c, hn, hj₀, same.trans same'⟩

/-- The commits of a thread are in its history for good. -/
theorem Commits.mem_history {before rest : List (Action (service env))} {x : Action (service env)}
    {th : Thread (service env)} {s : Session Pg} (c : Commits g (after before) x t th s) :
    Entry.commit s ∈ (after (before ++ x :: rest)).world.history t := by
  obtain ⟨l, hl⟩ := Pool.run_history ((after before).act x) rest t
  have hrun : after (before ++ x :: rest) = ((after before).act x).run rest := by simp [after, Pool.run_append]
  rw [hrun, hl, c.logged]
  simp

/-- A job that a thread has inserted and committed appears with that commit. -/
theorem inserted_at {l l' : List (Entry Pg)} {s : Session Pg} {k : Key} {j : Job}
    (h : (after acts).world.history t = l ++ .commit s :: l') (held : s.held .jobs k = some ⟨none, some j⟩) :
    ∃ before x rest, acts = before ++ x :: rest ∧ (∃ e, x = .step t e) ∧
      (after before).world.rows .jobs k = none ∧ (after (before ++ [x])).world.rows .jobs k = some j := by
  obtain ⟨before, x, rest, hacts, _, _, logs⟩ := Pool.log_origin h
  obtain ⟨th, _, hs, _, hrows, hx⟩ := logs.committed
  refine ⟨before, x, rest, hacts, hx, ((keeps_all before).sound.held t s .jobs k _ hs held).2, ?_⟩
  rw [after_snoc, hrows]
  simp [Session.visible, held]

/-- A thread that has committed nothing on jobs and executions has changed neither at any of its steps. -/
theorem silent_steps (meets : (Pool.empty (service env)).Meets g acts) (silent : Silent ((after acts).world.history t))
    {before rest : List (Action (service env))} {e : Env Pg} (hacts : acts = before ++ .step t e :: rest) :
    (after (before ++ [.step t e])).world.rows .jobs = (after before).world.rows .jobs ∧
      (after (before ++ [.step t e])).world.rows .executions = (after before).world.rows .executions := by
  subst hacts
  have meets' := Pool.meets_append.mp meets
  have keeps := keeps_run meets'.1
  rw [after_snoc]
  rcases act_rows keeps meets'.2.1 with frame | ⟨u, th, s, c⟩
  · exact ⟨frame.eq (by simp), frame.eq (by simp)⟩
  · obtain ⟨e', he⟩ := c.action
    cases he
    obtain ⟨hj, he⟩ := silent s c.mem_history
    rw [c.rows]
    exact ⟨keeps.sound.visible_quiet c.session hj, keeps.sound.visible_quiet c.session he⟩

section atomicity

/-- A request for a new job has been answered with an error. -/
def CreationFailed : Request env → Outcome → Prop
  | .createJob .., .http (.error _) => True
  | .libraryCreateJob .., .library (.error _) => True
  | _, _ => False

theorem CreationFailed.silent (keeps : (after acts).Keeps (base g) g) (atomic : Atomic g) {req : Request env}
    {out : Outcome} (h : (after acts).answer t = some (req, out)) (failed : CreationFailed req out) :
    Silent ((after acts).world.history t) := by
  obtain ⟨w₀, _, hv, post⟩ := keeps_post keeps h
  have hist : (after acts).world.history t = w₀.history t := congrArg Prod.snd hv
  rw [hist]
  unfold CreationFailed at failed
  split at failed
  next => exact post.2.1
  next => exact post.2 atomic
  next => cases failed

/-- Unless the client library commits a one-shot job by itself, every one-shot job has exactly one
execution, made with it, and a creation that fails changes neither jobs nor executions. -/
theorem one_shot_created_whole (atomic : Atomic g) (acts : List (Action (service env)))
    (meets : (Pool.empty (service env)).Meets g acts) :
    (∀ kj, ∀ j : Job, (after acts).world.rows .jobs kj = some j → j.triggerType ≠ .cron →
        ∃ ke, ∃ e : Execution, (after acts).world.rows .executions ke = some e ∧ jobKey ke e = kj ∧ Twin j e ∧
          ∀ ke' (e' : Execution), (after acts).world.rows .executions ke' = some e' → jobKey ke' e' = kj → ke' = ke) ∧
      ∀ t req out, (after acts).answer t = some (req, out) → CreationFailed req out →
        ∀ before e rest, acts = before ++ .step t e :: rest →
          (after (before ++ [.step t e])).world.rows .jobs = (after before).world.rows .jobs ∧
            (after (before ++ [.step t e])).world.rows .executions = (after before).world.rows .executions := by
  have keeps := keeps_run meets
  refine ⟨keeps.inv.together atomic, fun t req out answered failed before e rest hacts => ?_⟩
  exact silent_steps meets (failed.silent keeps atomic answered) hacts

theorem one_shot_created_whole_api : ∃ ke, ∃ e : Execution,
    (after (oneAttempt (.response 200 ""))).world.rows .executions ke = some e ∧ jobKey ke e = ⟨"acme", sampleId 208⟩ := by
  have found : (((after (oneAttempt (.response 200 ""))).world.rows .jobs ⟨"acme", sampleId 208⟩).map Job.triggerType) =
      some .immediate := by decide +kernel
  obtain ⟨j, hj, htr⟩ := Option.map_eq_some_iff.mp found
  have meets : (Pool.empty (service sample)).Meets (apiOnly sample) (oneAttempt (.response 200 "")) :=
    meets_apiOnly (by decide +kernel)
  obtain ⟨ke, e, he, hk, _⟩ := (one_shot_created_whole (official_atomic official_apiOnly) _ meets).1 _ j hj
    (by rw [htr]; decide)
  exact ⟨ke, e, he, hk⟩

/-- The library's create stops between its two statements. -/
def halfCreated : List (Action (service sample)) :=
  serve 1 8 (.createEndpoint "acme" sampleEndpoint) (.response 200 "") ++
    serve 2 7 (.libraryCreateJob "acme" "hook" .null 1 .immediate (some "order-1")) (.response 200 "") ++ [.kill 2]

/-- A committed one-shot job without an execution. -/
theorem one_shot_without_execution : ∃ kj, ∃ j : Job, (after halfCreated).world.rows .jobs kj = some j ∧
    j.triggerType = .immediate ∧ ∀ ke, (after halfCreated).world.rows .executions ke = none := by
  have found : (((after halfCreated).world.rows .jobs ⟨"acme", sampleId 205⟩).map Job.triggerType) = some .immediate := by
    decide +kernel
  have unused : ((after halfCreated).world.keys .executions).isEmpty = true := by decide +kernel
  obtain ⟨j, hj, htr⟩ := Option.map_eq_some_iff.mp found
  refine ⟨_, j, hj, htr, fun ke => ?_⟩
  cases hke : (after halfCreated).world.rows .executions ke with
  | none => rfl
  | some e =>
    have hm := (keeps_all halfCreated).sound.keyed .executions ke e (Or.inl hke)
    rw [List.isEmpty_iff.mp unused] at hm
    cases hm

end atomicity

end Invokr

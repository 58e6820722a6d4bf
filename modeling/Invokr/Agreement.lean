import Invokr.Ledger

namespace Invokr

open TxLib

variable {env : Setup} {g : Guard (service env)} {req : Request env} {now : Int} {D D' : Rows Pg}

/-- Every one-shot job has exactly one execution, made with it. -/
def Together (D : Rows Pg) : Prop :=
  ∀ kj (j : Job), D .jobs kj = some j → j.triggerType ≠ .cron →
    ∃ ke, ∃ e : Execution, D .executions ke = some e ∧ jobKey ke e = kj ∧ Twin j e ∧
      ∀ ke' (e' : Execution), D .executions ke' = some e' → jobKey ke' e' = kj → ke' = ke

/-- The entries of pg_cron are those of the ACTIVE CRON jobs. -/
structure Agree (env : Setup) (D : Rows Pg) : Prop where
  job : ∀ kj (j : Job), D .jobs kj = some j → j.status = .active → j.triggerType = .cron →
    ∃ expression, j.cronExpression = some expression ∧
      D .cronJob (entryKey kj) = some (entryOf env kj expression)
  entry : ∀ k (c : CronEntry), D .cronJob k = some c → ∃ kj, ∃ j : Job, k = entryKey kj ∧ D .jobs kj = some j ∧
    j.status = .active ∧ j.triggerType = .cron

theorem entryKey_inj {k k' : Key} (h : isUuid k.id = true) (h' : isUuid k'.id = true)
    (he : entryKey k = entryKey k') : k = k' := by
  have hlen : ∀ {s : String}, isUuid s = true → s.toList.length = 36 := by
    intro s hs
    simp only [isUuid, Bool.and_eq_true, decide_eq_true_eq] at hs
    exact hs.1
  have hname : Jobs.cronJobName k.schema k.id = Jobs.cronJobName k'.schema k'.id := congrArg Key.id he
  have hchars := congrArg String.toList hname
  simp only [Jobs.cronJobName, String.toList_append, List.append_assoc, List.append_cancel_left_eq] at hchars
  obtain ⟨hs, ht⟩ := List.append_inj' hchars (by simp [hlen h, hlen h'])
  have hid := List.append_cancel_left ht
  obtain ⟨schema, id⟩ := k
  obtain ⟨schema', id'⟩ := k'
  simp only [String.toList_inj] at hs hid
  rw [hs, hid]

/-- A job that a commit adds, with what is added with it. -/
theorem Commit.new_job (c : Commit g req now D D') {k : Key} {j : Job} (hn : D .jobs k = none)
    (hj : D' .jobs k = some j) : Asked g req k j ∧ (∃ p, NewJob k j p) ∧
      ((j.triggerType ≠ .cron ∧ (¬Atomic g ∨ ∃ ke, ∃ e : Execution, D' .executions ke = some e ∧
          NewExecution k j ke e ∧ Twin j e ∧ ∀ k', k' ≠ ke → D' .executions k' = D .executions k')) ∨
        (j.triggerType = .cron ∧ (¬Official g ∨ ∃ expression, j.cronExpression = some expression ∧
          D' .cronJob (entryKey k) = some (entryOf env k expression)))) := by
  have found : ∀ {kj : Key} {j₀ : Job}, D' .jobs = Function.update (D .jobs) kj (some j₀) → k = kj ∧ j = j₀ := by
    intro kj j₀ hu
    rcases update_cases hu k with ⟨rfl, hv⟩ | ⟨_, hv⟩
    · rw [hj] at hv
      exact ⟨rfl, Option.some.inj hv⟩
    · rw [hj, hn] at hv
      cases hv
  have gone : ∀ {kj : Key} {j₀ j₁ : Job}, D .jobs kj = some j₀ →
      D' .jobs = Function.update (D .jobs) kj (some j₁) → False := by
    intro kj j₀ j₁ h hu
    obtain ⟨rfl, _⟩ := found hu
    rw [hn] at h
    cases h
  have frame : ∀ {tbs}, Frame D D' tbs → Table.jobs ∈ tbs → False := by
    intro tbs h hm
    rw [h.eq hm, hn] at hj
    cases hj
  cases c with
  | quiet rest | executionAlone _ _ _ _ _ _ _ rest | ticked _ _ _ _ _ rest | cancelledExecutions _ rest
  | unscheduled _ _ rest => exact (frame rest (by simp)).elim
  | cancelled h _ _ hu _ _ => exact (gone h hu).elim
  | cancelledCron h _ _ hu _ _ _ => exact (gone h hu).elim
  | retiredAlone _ h _ hu _ => exact (gone h hu).elim
  | worked _ _ _ _ _ _ _ jobs _ _ =>
    rcases jobs k with h | ⟨_, j₀, h, _⟩
    · rw [hj, hn] at h
      cases h
    · rw [hn] at h
      cases h
  | oneShot _ _ asked job once exec twin hu he _ =>
    obtain ⟨rfl, rfl⟩ := found hu
    refine ⟨asked, ⟨_, job⟩, Or.inl ⟨once, Or.inr ⟨_, _, ?_, exec, twin, fun k' hk => ?_⟩⟩⟩
    · rw [he, Function.update_self]
    · rw [he, Function.update_of_ne hk]
  | jobAlone half _ _ asked job once hu _ =>
    obtain ⟨rfl, rfl⟩ := found hu
    exact ⟨asked, ⟨_, job⟩, Or.inl ⟨once, Or.inl half⟩⟩
  | scheduled _ asked job cron expr hu entry _ =>
    obtain ⟨rfl, rfl⟩ := found hu
    exact ⟨asked, ⟨_, job⟩, Or.inr ⟨cron, Or.inr ⟨_, expr, by rw [entry, Function.update_self]⟩⟩⟩
  | cronAlone loose _ asked job cron hu _ =>
    obtain ⟨rfl, rfl⟩ := found hu
    exact ⟨asked, ⟨_, job⟩, Or.inr ⟨cron, Or.inl loose⟩⟩
  | @replaced ko kn j₁ _ _ asked _ job cron expr old entry _ _ _ =>
    have : k = kn ∧ j = j₁ := by
      rcases old with ⟨b, b', hb, _, _, _, hu, _⟩ | ⟨_, _, hu⟩
      · rcases update_cases hu k with ⟨rfl, hv⟩ | ⟨_, hv⟩
        · rw [hj] at hv
          exact ⟨rfl, Option.some.inj hv⟩
        · rcases update_cases (u := Function.update (D .jobs) ko (some b')) rfl k with ⟨rfl, _⟩ | ⟨_, hv'⟩
          · rw [hn] at hb
            cases hb
          · rw [hj, hv', hn] at hv
            cases hv
      · exact found hu
    obtain ⟨rfl, rfl⟩ := this
    exact ⟨asked, ⟨_, job⟩, Or.inr ⟨cron, Or.inr ⟨_, expr, entry⟩⟩⟩

/-- An execution that a commit adds is one of a CRON job, or is added with its one-shot job. -/
theorem Commit.new_execution (c : Commit g req now D D') {k : Key} {e : Execution} (hn : D .executions k = none)
    (he : D' .executions k = some e) : ∃ kj, ∃ j : Job, D' .jobs kj = some j ∧ NewExecution kj j k e ∧
      (j.triggerType = .cron ∨ ¬Atomic g ∨ D .jobs kj = none) ∧
      (Fired now j e ∨ (j.triggerType ≠ .cron ∧ Twin j e)) := by
  have found : ∀ {ke : Key} {e₀ : Execution}, D' .executions = Function.update (D .executions) ke (some e₀) →
      k = ke ∧ e = e₀ := by
    intro ke e₀ hu
    rcases update_cases hu k with ⟨rfl, hv⟩ | ⟨_, hv⟩
    · rw [he] at hv
      exact ⟨rfl, Option.some.inj hv⟩
    · rw [he, hn] at hv
      cases hv
  have frame : ∀ {tbs}, Frame D D' tbs → Table.executions ∈ tbs → False := by
    intro tbs h hm
    rw [h.eq hm, hn] at he
    cases he
  have cancel : (∀ k, D' .executions k = D .executions k ∨
      ∃ e e' : Execution, D .executions k = some e ∧ CancelStep now e e' ∧ D' .executions k = some e') → False := by
    intro h
    rcases h k with h | ⟨_, _, h, _⟩
    · rw [he, hn] at h
      cases h
    · rw [hn] at h
      cases h
  cases c with
  | quiet rest | jobAlone _ _ _ _ _ _ _ rest | scheduled _ _ _ _ _ _ _ rest | cronAlone _ _ _ _ _ _ rest
  | replaced _ _ _ _ _ _ _ _ _ _ rest | cancelledCron _ _ _ _ _ _ rest | retiredAlone _ _ _ _ rest
  | unscheduled _ _ rest => exact (frame rest (by simp)).elim
  | cancelled _ _ _ _ h _ => exact (cancel h).elim
  | cancelledExecutions h _ => exact (cancel h).elim
  | worked h _ _ _ _ hu _ _ _ _ =>
    obtain ⟨rfl, _⟩ := found hu
    rw [hn] at h
    cases h
  | oneShot free _ _ _ once exec twin hj hu _ =>
    obtain ⟨rfl, rfl⟩ := found hu
    exact ⟨_, _, by rw [hj, Function.update_self], exec, Or.inr (Or.inr free), Or.inr ⟨once, twin⟩⟩
  | executionAlone half job once _ exec twin hu rest =>
    obtain ⟨rfl, rfl⟩ := found hu
    exact ⟨_, _, by rw [rest.eq (by simp)]; exact job, exec, Or.inr (Or.inl half), Or.inr ⟨once, twin⟩⟩
  | ticked job fired _ exec hu rest =>
    obtain ⟨rfl, rfl⟩ := found hu
    exact ⟨_, _, by rw [rest.eq (by simp)]; exact job, exec, Or.inl fired.cron, Or.inl fired⟩

/-- An entry of pg_cron was there before, or comes with its job. -/
theorem Commit.entry_or (c : Commit g req now D D') {k : Key} {x : CronEntry} (hx : D' .cronJob k = some x) :
    D .cronJob k = some x ∨ ∃ kj, ∃ j : Job, ∃ expression, k = entryKey kj ∧ x = entryOf env kj expression ∧
      D' .jobs kj = some j ∧ j.status = .active ∧ j.triggerType = .cron := by
  have frame : ∀ {tbs}, Frame D D' tbs → Table.cronJob ∈ tbs → D .cronJob k = some x := by
    intro tbs h hm
    rw [← h.eq hm]
    exact hx
  cases c with
  | quiet rest | oneShot _ _ _ _ _ _ _ _ _ rest | jobAlone _ _ _ _ _ _ _ rest | executionAlone _ _ _ _ _ _ _ rest
  | ticked _ _ _ _ _ rest | cronAlone _ _ _ _ _ _ rest | cancelled _ _ _ _ _ rest | cancelledExecutions _ rest
  | retiredAlone _ _ _ _ rest => exact Or.inl (frame rest (by simp))
  | scheduled _ _ job cron _ hj entry _ =>
    rcases update_cases entry k with ⟨rfl, hv⟩ | ⟨_, hv⟩
    · rw [hx] at hv
      exact Or.inr ⟨_, _, _, rfl, Option.some.inj hv, by rw [hj, Function.update_self], job.active, cron⟩
    · exact Or.inl (hv ▸ hx)
  | @replaced ko kn j _ _ _ _ job cron _ old entry entries _ _ =>
    by_cases hk : k = entryKey kn
    · subst hk
      rw [hx] at entry
      refine Or.inr ⟨kn, j, _, rfl, Option.some.inj entry, ?_, job.active, cron⟩
      rcases old with ⟨_, _, _, _, _, _, hu, _⟩ | ⟨_, _, hu⟩
      · rw [hu, Function.update_self]
      · rw [hu, Function.update_self]
    · rcases entries k hk with h | ⟨_, h⟩
      · exact Or.inl (h ▸ hx)
      · rw [hx] at h
        cases h
  | cancelledCron _ _ _ _ entries _ _ =>
    rcases entries k with h | ⟨_, h⟩
    · exact Or.inl (h ▸ hx)
    · rw [hx] at h
      cases h
  | unscheduled _ entries _ =>
    rcases entries k with h | h
    · exact Or.inl (h ▸ hx)
    · rw [hx] at h
      cases h
  | worked _ _ _ _ _ _ _ _ entries _ =>
    rcases entries k with h | ⟨h, _⟩
    · exact Or.inl (h ▸ hx)
    · rw [hx] at h
      cases h

theorem Linked.commit (l : Linked D) (c : Commit g req now D D') : Linked D' where
  job k j hj := by
    cases hk : D .jobs k with
    | none =>
      obtain ⟨_, ⟨p, job⟩, _⟩ := c.new_job hk hj
      exact ⟨job.jobId, job.uuid⟩
    | some j₀ =>
      obtain ⟨j', hj', same⟩ := c.later.job k j₀ hk
      rw [hj] at hj'
      cases hj'
      exact ⟨same.columns.1.trans (l.job k j₀ hk).1, (l.job k j₀ hk).2⟩
  execution k e he := by
    cases hk : D .executions k with
    | none =>
      obtain ⟨kj, j, hj, new, _⟩ := c.new_execution hk he
      exact ⟨new.executionId, j, new.job ▸ hj, new.endpoint, new.endpointType⟩
    | some e₀ =>
      obtain ⟨e', he', same⟩ := c.later.execution k e₀ hk
      rw [he] at he'
      cases he'
      obtain ⟨hid, j, hj, hep, hty⟩ := l.execution k e₀ hk
      obtain ⟨j', hj', sameJ⟩ := c.later.job _ j hj
      refine ⟨same.executionId.trans hid, j', ?_, ?_, ?_⟩
      · have : jobKey k e = jobKey k e₀ := by simp [jobKey, same.jobId]
        rw [this]
        exact hj'
      · rw [same.endpoint, sameJ.columns.2.1, hep]
      · rw [same.endpointType, sameJ.columns.2.2.1, hty]
  entry k x hx := by
    rcases c.entry_or hx with h | ⟨kj, j, ex, _, rfl, hj, _, hc⟩
    · obtain ⟨j, hj, hc⟩ := l.entry k x h
      obtain ⟨j', hj', same⟩ := c.later.job _ j hj
      exact ⟨j', hj', same.columns.2.2.2.1.trans hc⟩
    · exact ⟨j, hj, hc⟩

theorem Twin.later {j j' : Job} {e e' : Execution} (h : Twin j e) (hj : SameJob j j') (he : SameExecution e e') :
    Twin j' e' := by
  obtain ⟨_, hep, hty, _, _, hkey, hin, _⟩ := hj.columns
  exact ⟨by rw [he.endpoint, hep, h.endpoint], by rw [he.endpointType, hty, h.endpointType],
    by rw [he.idempotencyKey, hkey, h.idempotencyKey], by rw [he.input, hin, h.input]⟩

theorem Together.commit (h : Together D) (l : Linked D) (atomic : Atomic g) (c : Commit g req now D D') : Together D' := by
  intro kj j hj once
  have jobKey_same : ∀ {k : Key} {e e' : Execution}, SameExecution e e' → jobKey k e' = jobKey k e := by
    intro k e e' hs
    simp [jobKey, hs.jobId]
  cases hk : D .jobs kj with
  | none =>
    obtain ⟨_, _, ⟨_, half | ⟨ke, e, he, new, twin, others⟩⟩ | ⟨hc, _⟩⟩ := c.new_job hk hj
    · exact (half atomic).elim
    · refine ⟨ke, e, he, new.job, twin, fun ke' e' he' hkey => ?_⟩
      by_contra hne
      rw [others ke' hne] at he'
      obtain ⟨_, j₀, hj₀, _⟩ := l.execution ke' e' he'
      rw [hkey, hk] at hj₀
      cases hj₀
    · exact (once hc).elim
  | some j₀ =>
    obtain ⟨j', hj', sameJ⟩ := c.later.job kj j₀ hk
    rw [hj] at hj'
    cases hj'
    have once₀ : j₀.triggerType ≠ .cron := by rwa [← sameJ.columns.2.2.2.1]
    obtain ⟨ke, e, he, hkey, twin, only⟩ := h kj j₀ hk once₀
    obtain ⟨e', he', sameE⟩ := c.later.execution ke e he
    refine ⟨ke, e', he', (jobKey_same sameE).trans hkey, twin.later sameJ sameE, fun k₁ e₁ he₁ hkey₁ => ?_⟩
    cases hk₁ : D .executions k₁ with
    | none =>
      obtain ⟨kj', j₁, hj₁, new, hc | half | free, _⟩ := c.new_execution hk₁ he₁
      · rw [new.job] at hkey₁
        subst hkey₁
        rw [hj] at hj₁
        cases hj₁
        exact (once hc).elim
      · exact (half atomic).elim
      · rw [new.job] at hkey₁
        subst hkey₁
        rw [hk] at free
        cases free
    | some e₀ =>
      obtain ⟨e₂, he₂, same₂⟩ := c.later.execution k₁ e₀ hk₁
      rw [he₁] at he₂
      cases he₂
      exact only k₁ e₀ hk₁ ((jobKey_same same₂).symm.trans hkey₁)

/-- The entry of a job that is retired goes with it. -/
theorem Commit.retired_unscheduled (c : Commit g req now D D') (official : Official g) {k : Key} {j j' : Job}
    (hj : D .jobs k = some j) (active : j.status = .active) (cron : j.triggerType = .cron) (hj' : D' .jobs k = some j')
    (retired : j'.status = .retired) : D' .cronJob (entryKey k) = none := by
  have changed : ∀ x : Job, D' .jobs k = some x → x.status = .active → False := by
    intro x hx ha
    rw [hj'] at hx
    cases hx
    rw [retired] at ha
    cases ha
  have frame : ∀ {tbs}, Frame D D' tbs → Table.jobs ∈ tbs → False := by
    intro tbs h hm
    exact changed j (by rw [h.eq hm]; exact hj) active
  have insert : ∀ {kj : Key} {j₀ : Job}, D .jobs kj = none → D' .jobs = Function.update (D .jobs) kj (some j₀) → False := by
    intro kj j₀ hf hu
    rcases update_cases hu k with ⟨rfl, _⟩ | ⟨_, hv⟩
    · rw [hj] at hf
      cases hf
    · exact changed j (hv.trans hj) active
  cases c with
  | quiet rest | executionAlone _ _ _ _ _ _ _ rest | ticked _ _ _ _ _ rest | cancelledExecutions _ rest
  | unscheduled _ _ rest => exact (frame rest (by simp)).elim
  | oneShot free _ _ _ _ _ _ hu _ _ => exact (insert free hu).elim
  | jobAlone _ _ free _ _ _ hu _ => exact (insert free hu).elim
  | scheduled free _ _ _ _ hu _ _ => exact (insert free hu).elim
  | cronAlone _ free _ _ _ hu _ => exact (insert free hu).elim
  | cancelled h once _ hu _ _ =>
    rcases update_cases hu k with ⟨rfl, _⟩ | ⟨_, hv⟩
    · rw [hj] at h
      cases h
      exact (once cron).elim
    · exact (changed j (hv.trans hj) active).elim
  | cancelledCron _ _ _ hu _ entry _ =>
    rcases update_cases hu k with ⟨rfl, _⟩ | ⟨_, hv⟩
    · exact entry official
    · exact (changed j (hv.trans hj) active).elim
  | retiredAlone loose => exact (loose official).elim
  | worked _ _ _ _ _ _ _ jobs _ unscheduled =>
    rcases jobs k with h | h
    · exact (changed j (h.trans hj) active).elim
    · exact unscheduled official k h
  | @replaced ko kn _ _ free _ _ _ _ _ old _ _ _ _ =>
    rcases old with ⟨b, b', _, _, _, _, hu, entry⟩ | ⟨_, _, hu⟩
    · rcases update_cases hu k with ⟨rfl, _⟩ | ⟨_, hv⟩
      · rw [hj] at free
        cases free
      · rcases update_cases (u := Function.update (D .jobs) ko (some b')) rfl k with ⟨rfl, _⟩ | ⟨_, hv'⟩
        · exact entry.1 official
        · exact (changed j (hv.trans (hv'.trans hj)) active).elim
    · exact (insert free hu).elim

/-- The entry of a job that stays ACTIVE stays as it is. -/
theorem Commit.entry_kept (c : Commit g req now D D') (official : Official g) (l : Linked D) {k : Key} {j j' : Job}
    (hj : D .jobs k = some j) (hj' : D' .jobs k = some j') (active : j'.status = .active) :
    D' .cronJob (entryKey k) = D .cronJob (entryKey k) := by
  have uuid := (l.job k j hj).2
  have apart : ∀ {kj : Key}, D .jobs kj = none → isUuid kj.id = true → entryKey k ≠ entryKey kj := by
    intro kj hf hu he
    have := entryKey_inj uuid hu he
    subst this
    rw [hj] at hf
    cases hf
  have live : ∀ {kj : Key} {j₀ j₁ : Job}, D .jobs kj = some j₀ → D' .jobs kj = some j₁ → j₁.status = .retired →
      entryKey k ≠ entryKey kj := by
    intro kj j₀ j₁ hk hk' hr he
    have := entryKey_inj uuid (l.job kj j₀ hk).2 he
    subst this
    rw [hj'] at hk'
    cases hk'
    rw [hr] at active
    cases active
  have frame : ∀ {tbs}, Frame D D' tbs → Table.cronJob ∈ tbs → D' .cronJob (entryKey k) = D .cronJob (entryKey k) := by
    intro tbs h hm
    rw [h.eq hm]
  cases c with
  | quiet rest | oneShot _ _ _ _ _ _ _ _ _ rest | jobAlone _ _ _ _ _ _ _ rest | executionAlone _ _ _ _ _ _ _ rest
  | ticked _ _ _ _ _ rest | cronAlone _ _ _ _ _ _ rest | cancelled _ _ _ _ _ rest | cancelledExecutions _ rest
  | retiredAlone _ _ _ _ rest => exact frame rest (by simp)
  | unscheduled loose => exact (loose official).elim
  | scheduled free _ job _ _ _ entry _ => rw [entry, Function.update_of_ne (apart free job.uuid)]
  | cancelledCron h _ withdrawn hu entries _ _ =>
    rcases entries (entryKey k) with he | ⟨he, _⟩
    · exact he
    · exact (live h (by rw [hu, Function.update_self]) withdrawn.retired.same.2 he).elim
  | worked _ _ _ _ _ _ _ _ entries _ =>
    rcases entries (entryKey k) with he | ⟨_, kj, he, _, j₀, h, _, hr, h'⟩
    · exact he
    · exact (live h h' hr.same.2 he).elim
  | @replaced ko kn _ _ free _ _ job _ _ old _ entries _ _ =>
    rcases entries (entryKey k) (apart free job.uuid) with he | ⟨he, _⟩
    · exact he
    · have hne : ∀ b : Job, D .jobs ko = some b → ko ≠ kn := by
        rintro b hb rfl
        rw [free] at hb
        cases hb
      rcases old with ⟨b, b', hb, _, _, hr, hu, _⟩ | ⟨_, ⟨b, hb, hr⟩, hu⟩
      · exact (live hb (by rw [hu, Function.update_of_ne (hne b hb), Function.update_self]) hr he).elim
      · exact (live hb (by rw [hu, Function.update_of_ne (hne b hb)]; exact hb) hr he).elim

theorem JobStep.active {k : Key} {x x' : Option Job} (h : JobStep g D D' k x x') {j : Job} (hj : x' = some j)
    (active : j.status = .active) : x = none ∨ x = some j := by
  cases h with
  | same => exact Or.inr hj
  | new => exact Or.inl rfl
  | retire _ _ hr _ =>
    cases hj
    rw [hr] at active
    cases active

theorem Agree.commit (h : Agree env D) (l : Linked D) (official : Official g) (c : Commit g req now D D') :
    Agree env D' where
  job kj j hj active cron := by
    rcases (c.job_step kj).active hj active with hk | hk
    · obtain ⟨_, _, ⟨once, _⟩ | ⟨_, loose | entry⟩⟩ := c.new_job hk hj
      · exact (once cron).elim
      · exact (loose official).elim
      · exact entry
    · obtain ⟨ex, hex, he⟩ := h.job kj j hk active cron
      exact ⟨ex, hex, (c.entry_kept official l hk hj active).trans he⟩
  entry k x hx := by
    rcases c.entry_or hx with he | ⟨kj, j, _, hk, _, hj, active, cron⟩
    · obtain ⟨kj, j, rfl, hj, active, cron⟩ := h.entry k x he
      obtain ⟨j', hj', same⟩ := c.later.job kj j hj
      refine ⟨kj, j', rfl, hj', ?_, same.columns.2.2.2.1.trans cron⟩
      cases hs : j'.status with
      | active => rfl
      | retired =>
        rw [c.retired_unscheduled official hj active cron hj' hs] at hx
        cases hx
    · exact ⟨kj, j, hk, hj, active, cron⟩

end Invokr

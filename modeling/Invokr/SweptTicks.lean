import Invokr.SoloSweep
import Invokr.TwinRuns
import Invokr.Runs

namespace Invokr

open TxLib

variable {env : Setup} {D D' D'' : Rows Pg} {c : Int} {schemaName : String} {ids : List String}

/-- Jobs carry their keys' identifiers, and entries the names of the jobs they are for. -/
structure Tidy (D : Rows Pg) : Prop where
  jobs : ∀ k, ∀ j : Job, D .jobs k = some j → j.jobId = k.id ∧ isUuid k.id = true
  entries : ∀ k, ∀ x : CronEntry, D .cronJob k = some x →
    k = entryKey ⟨x.command.schemaName, x.command.jobId⟩ ∧ isUuid x.command.jobId = true

/-- Some jobs that had expired by `c` are RETIRED and their entries may be gone. -/
structure Lapsed (c : Int) (D D' : Rows Pg) : Prop where
  jobs : ∀ k, D' .jobs k = D .jobs k ∨ ∃ j j' : Job, D .jobs k = some j ∧ Jobs.isExpired c j = true ∧
    D' .jobs k = some j' ∧ j'.status = .retired
  entries : ∀ k, D' .cronJob k = D .cronJob k ∨ (D' .cronJob k = none ∧ ∀ x : CronEntry, D .cronJob k = some x →
    ∃ j : Job, D .jobs ⟨x.command.schemaName, x.command.jobId⟩ = some j ∧ Jobs.isExpired c j = true)
  others : ∀ tb, tb ≠ .jobs → tb ≠ .cronJob → D' tb = D tb

theorem Lapsed.refl (c : Int) (D : Rows Pg) : Lapsed c D D := ⟨fun _ => Or.inl rfl, fun _ => Or.inl rfl, fun _ _ _ => rfl⟩

theorem not_expired_of_retired {j : Job} (h : j.status = .retired) : Jobs.isExpired c j = false := by
  simp [Jobs.isExpired, h]

theorem Lapsed.expired (h : Lapsed c D D') {k : Key} {j : Job} (hj : D' .jobs k = some j) (hx : Jobs.isExpired c j = true) :
    D .jobs k = some j := by
  rcases h.jobs k with he | ⟨_, j', _, _, hj', hr⟩
  · exact he.symm.trans hj
  · rw [hj] at hj'
    cases hj'
    rw [not_expired_of_retired hr] at hx
    cases hx

theorem Lapsed.trans (h : Lapsed c D D') (h' : Lapsed c D' D'') : Lapsed c D D'' where
  jobs k := by
    rcases h'.jobs k with he | ⟨j, j', hj, hx, hj', hr⟩
    · rw [he]
      exact h.jobs k
    · exact Or.inr ⟨j, j', h.expired hj hx, hx, hj', hr⟩
  entries k := by
    rcases h'.entries k with he | ⟨hn, hx⟩
    · rw [he]
      exact h.entries k
    · rcases h.entries k with he | ⟨_, hx'⟩
      · refine Or.inr ⟨hn, fun x hk => ?_⟩
        obtain ⟨j, hj, hxj⟩ := hx x (he.trans hk)
        exact ⟨j, h.expired hj hxj, hxj⟩
      · exact Or.inr ⟨hn, hx'⟩
  others tb hj hc := (h'.others tb hj hc).trans (h.others tb hj hc)

/-- A sweep makes expired jobs lapse. -/
theorem Sweep.lapsed (h : Sweep c schemaName ids D D') (tidy : Tidy D) : Lapsed c D D' where
  jobs k := by
    have hk := h.jobs k
    cases hj : D .jobs k with
    | none =>
      rw [hj] at hk
      exact Or.inl hk
    | some j =>
      rw [hj, Option.map_some] at hk
      split at hk
      next hx => exact Or.inr ⟨j, _, rfl, hx.2, hk, rfl⟩
      next => exact Or.inl hk
  entries k := by
    rw [h.entries k]
    split
    next hm =>
      obtain ⟨id, hid, rfl⟩ := hm
      refine Or.inr ⟨rfl, fun x hx => ?_⟩
      obtain ⟨kj, j, hkj, hj, hxj, rfl⟩ := (h.retired id).mp hid
      obtain ⟨hjid, huuid⟩ := tidy.jobs kj j hj
      obtain ⟨hname, hcmd⟩ := tidy.entries _ x hx
      have hk : kj = ⟨x.command.schemaName, x.command.jobId⟩ := by
        refine entryKey_inj huuid hcmd ?_
        rw [← hname, hjid, ← hkj]
        rfl
      rw [← hk]
      exact ⟨j, hj, hxj⟩
    next => exact Or.inl rfl
  others := h.others

theorem Sweep.tidy (h : Sweep c schemaName ids D D') (tidy : Tidy D) : Tidy D' where
  jobs k j hj := by
    rw [h.jobs k] at hj
    obtain ⟨j₀, hj₀, rfl⟩ := Option.map_eq_some_iff.mp hj
    obtain ⟨hid, hu⟩ := tidy.jobs k j₀ hj₀
    refine ⟨?_, hu⟩
    split
    next => exact hid
    next => exact hid
  entries k x hx := by
    rw [h.entries k] at hx
    split at hx
    next => cases hx
    next => exact tidy.entries k x hx

theorem Lapsed.targets (h : Lapsed c D D') : SameTargets (M := Pg) .executions D D' := by
  intro k e ref hm
  have href : ref = (.jobs, ⟨k.schema, (e : Execution).jobId⟩) := List.mem_singleton.mp hm
  subst href
  refine ⟨(fun hne => nomatch hne), fun k' => ?_⟩
  rcases h.jobs k' with he | ⟨j, j', hj, _, hj', _⟩
  · rw [he]
  · rw [hj, hj']
    rfl

theorem tidy_after (acts : List (Action (service env))) : Tidy (after acts).world.rows where
  jobs k j hj := (keeps_all acts).inv.linked.job k j hj
  entries := by
    refine run_induction (g := .all _) (P := fun D => ∀ k, ∀ x : CronEntry, D .cronJob k = some x →
      k = entryKey ⟨x.command.schemaName, x.command.jobId⟩ ∧ isUuid x.command.jobId = true) (Pool.meets_all _ _) ?_ ?_
    · intro k x hx
      cases hx
    · intro req now D D' inv c h k x hx
      rcases c.entry_or hx with hold | ⟨kj, j, expression, rfl, rfl, hj, _, _⟩
      · exact h k x hold
      · exact ⟨rfl, ((inv.linked.commit c).job kj j hj).2⟩

/-- How a command goes on after its snapshot. -/
def afterLook (cmd : CronCommand) (r : Except DbError (Snapshot Pg)) : Program Pg (Except DbError Unit) :=
  match (Jobs.runCronCommand cmd).run with
  | .call (.snapshot _) next => next r
  | _ => .ret (.ok ())

theorem command_run (cmd : CronCommand) : (Jobs.runCronCommand cmd).run = .call (.snapshot .cronCommand) (afterLook cmd) := rfl

/-- A command does nothing for a job that is RETIRED or out of its window. -/
theorem afterLook_idle {cmd : CronCommand} {snap : Snapshot Pg}
    (out : ∀ j : Job, snap.row .jobs ⟨cmd.schemaName, cmd.jobId⟩ = some j →
      (j.status = .active && Jobs.inWindow snap.now j) = false) : afterLook cmd (.ok snap) = .ret (.ok ()) := by
  unfold afterLook
  dsimp only [Jobs.runCronCommand]
  change (ExceptT.run _ : Program Pg _) = _
  dsimp only [ExceptT.bindCont, ExceptT.run]
  split
  next => rfl
  next j hj =>
    split
    next => rfl
    next ep _ =>
      rw [if_neg]
      · rfl
      · rw [out j hj]
        decide

/-- A command does the same in two snapshots with the same job and endpoints. -/
theorem afterLook_congr {cmd : CronCommand} {snap snap' : Snapshot Pg} (now : snap'.now = snap.now)
    (job : snap'.row .jobs ⟨cmd.schemaName, cmd.jobId⟩ = snap.row .jobs ⟨cmd.schemaName, cmd.jobId⟩)
    (endpoints : snap'.row .endpoints = snap.row .endpoints) : afterLook cmd (.ok snap') = afterLook cmd (.ok snap) := by
  unfold afterLook
  dsimp only [Jobs.runCronCommand]
  change (ExceptT.run _ : Program Pg _) = ExceptT.run _
  dsimp only [ExceptT.bindCont, ExceptT.run]
  simp only [now, job, endpoints]

theorem alike_afterLook {F F' : Snapshot Pg → Prop} (cmd : CronCommand) (snap : Snapshot Pg) :
    Alike (M := Pg) .executions F F' true (afterLook cmd (.ok snap)) := by
  unfold afterLook
  dsimp only [Jobs.runCronCommand]
  change Alike (M := Pg) .executions F F' true (ExceptT.run _ : Program Pg _)
  dsimp only [ExceptT.bindCont, ExceptT.run]
  split
  next => trivial
  next j _ =>
    split
    next => trivial
    next ep _ =>
      split
      next =>
        split
        next => trivial
        next n _ =>
          refine ⟨rfl, fun r => ?_⟩
          cases r with
          | error e => trivial
          | ok x => trivial
      next => trivial

/-- A job that has expired is out of its window ever after. -/
theorem out_of_window {now : Int} {j : Job} (h : Jobs.isExpired c j = true) (later : c ≤ now) : Jobs.inWindow now j = false := by
  simp only [Jobs.isExpired, Bool.and_eq_true] at h
  obtain ⟨b, hb, hle⟩ := (Option.any_eq_true _ _).mp h.2
  have hle' : b ≤ c := of_decide_eq_true hle
  have passed : ¬now < b := by omega
  simp [Jobs.inWindow, hb, passed]

theorem alike_command (lapsed : Lapsed c D D') (cmd : CronCommand) :
    Alike (M := Pg) .executions (Reads (M := Pg) .executions c D) (Reads (M := Pg) .executions c D') true (Jobs.runCronCommand cmd).run := by
  rw [command_run]
  refine ⟨fun e => trivial, fun snap snap' hF hF' same => Or.inl ?_⟩
  have jobs : snap.row .jobs = D .jobs := hF.2 _ (fun h => nomatch h)
  have jobs' : snap'.row .jobs = D' .jobs := hF'.2 _ (fun h => nomatch h)
  have endpoints : snap'.row .endpoints = snap.row .endpoints := by
    rw [hF.2 .endpoints (fun h => nomatch h), hF'.2 .endpoints (fun h => nomatch h)]
    exact lapsed.others .endpoints (fun h => nomatch h) (fun h => nomatch h)
  rcases lapsed.jobs ⟨cmd.schemaName, cmd.jobId⟩ with he | ⟨j, j', hj, hx, hj', hr⟩
  · refine ⟨afterLook_congr same.now ?_ endpoints, alike_afterLook cmd snap⟩
    rw [jobs, jobs', he]
  · have idle : afterLook cmd (.ok snap) = .ret (.ok ()) := by
      refine afterLook_idle fun j₁ hj₁ => ?_
      rw [jobs, hj] at hj₁
      cases hj₁
      rw [out_of_window hx hF.1, Bool.and_false]
    have idle' : afterLook cmd (.ok snap') = .ret (.ok ()) := by
      refine afterLook_idle fun j₁ hj₁ => ?_
      rw [jobs', hj'] at hj₁
      cases hj₁
      simp [hr]
    rw [idle, idle']
    exact ⟨rfl, trivial⟩

theorem barren_command {cmd : CronCommand} {j : Job} (hj : D .jobs ⟨cmd.schemaName, cmd.jobId⟩ = some j)
    (hx : Jobs.isExpired c j = true) : Barren (Reads (M := Pg) .executions c D) (Jobs.runCronCommand cmd).run := by
  rw [command_run]
  refine ⟨trivial, fun r _ fit => ?_⟩
  cases r with
  | error e => trivial
  | ok snap =>
    have jobs : snap.row .jobs = D .jobs := fit.2 _ (fun h => nomatch h)
    rw [afterLook_idle fun j₁ hj₁ => ?_]
    · trivial
    · rw [jobs, hj] at hj₁
      cases hj₁
      rw [out_of_window hx fit.1, Bool.and_false]

/-- A tick does the same whether expired jobs have lapsed or not. -/
theorem alike_tick (lapsed : Lapsed c D D') (jobName : String) :
    Alike (M := Pg) .executions (Reads (M := Pg) .executions c D) (Reads (M := Pg) .executions c D') true
      (Request.tick jobName : Request env).program := by
  refine Alike.bind (alike_transaction ?_) (fun _ _ => trivial) (fun _ => trivial) fun _ => trivial
  refine ⟨fun e => trivial, fun snap snap' hF hF' same => ?_⟩
  have entries : snap.row .cronJob = D .cronJob := hF.2 _ (fun h => nomatch h)
  have entries' : snap'.row .cronJob = D' .cronJob := hF'.2 _ (fun h => nomatch h)
  change (ExceptT.run _ : Program Pg _) = ExceptT.run _ ∧ Alike (M := Pg) .executions _ _ _ (ExceptT.run _ : Program Pg _) ∨
    _ ∧ Barren _ (ExceptT.run _ : Program Pg _) ∧ Barren _ (ExceptT.run _ : Program Pg _)
  dsimp only [ExceptT.bindCont, ExceptT.run]
  rw [entries, entries']
  rcases lapsed.entries (Jobs.cronKey jobName) with he | ⟨hn, hx⟩
  · rw [he]
    refine Or.inl ⟨rfl, ?_⟩
    split
    next => trivial
    next entry _ => exact alike_command lapsed entry.command
  · rw [hn]
    cases hk : (D .cronJob (Jobs.cronKey jobName) : Option CronEntry) with
    | none => exact Or.inl ⟨rfl, trivial⟩
    | some entry =>
      obtain ⟨j, hj, hxj⟩ := hx entry hk
      exact Or.inr ⟨rfl, barren_command hj hxj, trivial⟩

end Invokr

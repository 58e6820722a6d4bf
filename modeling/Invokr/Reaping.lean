import Invokr.Finishing

namespace Invokr

open TxLib

variable {env : Setup} {g : Guard (service env)} {workerId : String} {schemas : List String} {t : Nat} {now : Int}
  {K : Rows Pg → Prop} {w₀ : World Pg} {ke : Key} {b e : Execution} {o : Option Dispatch}
  {a : Option (Key × Attempt)} {rest : List String}

section sweeps

variable {schemaName : String} {s : Session Pg} {D : Rows Pg} {k : Key} {old : Job}

/-- An expired job is as it was committed. -/
theorem Sweeps.base (h : Sweeps g now schemaName rest s) (finds : Finds (M := Pg) D s .jobs k (s.baseOf D .jobs k) old)
    (active : old.status = .active) : s.baseOf D .jobs k = some old ∧ ∀ x, s.held .jobs k = some x → x.new = x.base := by
  rcases finds.2 with hh | ⟨hh, hb⟩
  · rcases h.jobs k _ hh with hsame | ⟨_, j, _, _, _, hn⟩
    · refine ⟨hsame.symm, fun x hx => ?_⟩
      rw [hh] at hx
      cases hx
      exact hsame
    · have hr : old = Jobs.retirePatch.apply now j := Option.some.inj hn
      rw [hr] at active
      cases active
  · refine ⟨hb, fun x hx => ?_⟩
    rw [hh] at hx
    cases hx

/-- Another job is retired, and its entry is to go. -/
theorem Sweeps.retire (h : Sweeps g now schemaName rest s) (hb : s.baseOf D .jobs k = some old)
    (hsame : ∀ x, s.held .jobs k = some x → x.new = x.base)
    (reaped : Reaped now schemaName k (some old) (some (Jobs.retirePatch.apply now old))) :
    Sweeps g now schemaName (rest ++ [k.id]) (s.write D .jobs k (some (Jobs.retirePatch.apply now old))) where
  jobs := h.jobs.write (Or.inr (by rw [hb]; exact reaped))
  entries := by
    refine (h.entries.write_tbl (by decide)).mono fun k' _ n hn => ?_
    obtain ⟨hn, kj, x, hk, hh, hr⟩ := hn
    refine ⟨hn, kj, x, hk, ?_, hr⟩
    rw [Session.write_held_key s D _ ?_]
    · exact hh
    · rintro rfl
      exact reaped_changes hr (hsame x hh)
  gone official kj x hh hr := by
    by_cases hk : kj = k
    · subst hk
      exact Or.inl (List.mem_append_right _ (List.mem_singleton.mpr rfl))
    · rw [Session.write_held_key s D _ hk] at hh
      rcases h.gone official kj x hh hr with hm | ⟨c, hc⟩
      · exact Or.inl (List.mem_append_left _ hm)
      · exact Or.inr ⟨c, by rw [Session.write_held_tbl s D _ (by decide)]; exact hc⟩
  listed id hm := by
    by_cases hk : (⟨schemaName, id⟩ : Key) = k
    · subst hk
      refine ⟨_, Session.write_held_same s D _ _ _, ?_⟩
      rw [hb]
      exact reaped
    · rcases List.mem_append.mp hm with hm | hm
      · obtain ⟨x, hh, hr⟩ := h.listed id hm
        exact ⟨x, by rw [Session.write_held_key s D _ hk]; exact hh, hr⟩
      · refine (hk ?_).elim
        rw [List.mem_singleton.mp hm, ← reaped.1]

/-- The entry of the next job is gone already. -/
theorem Sweeps.missing {id : String} (h : Sweeps g now schemaName (id :: rest) s)
    (hgone : Official g → ∃ c, s.held .cronJob (entryKey ⟨schemaName, id⟩) = some ⟨c, none⟩) :
    Sweeps g now schemaName rest s where
  jobs := h.jobs
  entries := h.entries
  gone official kj x hh hr := by
    rcases h.gone official kj x hh hr with hm | hc
    · rcases List.mem_cons.mp hm with he | hm
      · have hk : kj = ⟨schemaName, id⟩ := by rw [← he, ← hr.1]
        rw [hk]
        exact Or.inr (hgone official)
      · exact Or.inl hm
    · exact Or.inr hc
  listed id' hm := h.listed id' (List.mem_cons_of_mem _ hm)

/-- The entry of the next job goes. -/
theorem Sweeps.unschedule {id : String} (h : Sweeps g now schemaName (id :: rest) s) :
    Sweeps g now schemaName rest (s.write D .cronJob (entryKey ⟨schemaName, id⟩) none) := by
  have frame : (s.write D .cronJob (entryKey ⟨schemaName, id⟩) none).held .jobs = s.held .jobs :=
    funext fun _ => Session.write_held_tbl s D _ (by decide)
  obtain ⟨x, hx, hr⟩ := h.listed id (List.mem_cons_self ..)
  suffices swept : Sweeps g now schemaName (id :: rest) (s.write D .cronJob (entryKey ⟨schemaName, id⟩) none) from
    swept.missing fun _ => ⟨_, Session.write_held_same s D _ _ _⟩
  refine ⟨h.jobs.write_tbl (by decide), ?_, ?_, ?_⟩
  · refine (h.entries.write (Or.inr ⟨rfl, ⟨schemaName, id⟩, x, rfl, hx, hr⟩)).mono fun k' _ n hn => ?_
    rw [frame]
    exact hn
  · intro official kj y hh hry
    rw [frame] at hh
    rcases h.gone official kj y hh hry with hm | ⟨c, hc⟩
    · exact Or.inl hm
    · right
      by_cases hk : entryKey kj = entryKey ⟨schemaName, id⟩
      · exact ⟨_, by rw [hk]; exact Session.write_held_same s D _ _ _⟩
      · exact ⟨c, by rw [Session.write_held_key s D _ hk]; exact hc⟩
  · rw [frame]
    exact h.listed

end sweeps

theorem locks_working {s s' : Session Pg} (hl : Locks s s') (h : Unless (Lost g o) (Working g now ke b e a rest) s) :
    Unless (Lost g o) (Working g now ke b e a rest) s' := by
  rcases h with ⟨ha, lost⟩ | ⟨ha, working⟩
  · exact Or.inl ⟨hl.2.1.trans ha, lost⟩
  · exact Or.inr ⟨hl.2.1.trans ha, working.locks hl⟩

/-- A job that has expired can be retired. -/
theorem retire_lost {w : World Pg} {s : Session Pg} {e₁ : Env Pg} {op : Op Pg} {k : Key}
    (facts : At g (.work workerId schemas) t now (Past ke b o) K w s e₁ op)
    (hf : UpdateFails w s e₁ op .retireExpired .jobs k Jobs.isExpired Jobs.retirePatch)
    (hs : Unless (Lost g o) (Working g now ke b e a rest) s) : Lost g o := by
  rcases hf with ha | hf | ⟨_, old, hold, _, hbad⟩
  · exact lost_of_aborted hs ha
  · exact lost_of_unlucky facts.toMoment (Or.inl hf)
  · have stored : Pg.storable .jobs old = true :=
      facts.sound.stored .jobs k old (World.visible_version facts.session hold)
    have hrefs := facts.sound.refs_of_visible facts.session hold
    rcases hbad with hbad | hbad
    · exact absurd (stored.symm.trans hbad) (by decide)
    · exact absurd (hrefs.symm.trans hbad) (by decide)

/-- What the sweep has returned so far. -/
abbrev Swept (g : Guard (service env)) (t : Nat) (now : Int) (K : Rows Pg → Prop) (ke : Key) (b e : Execution)
    (o : Option Dispatch) (a : Option (Key × Attempt)) (done : List Job) (w : World Pg) : Prop :=
  Claimed g t now K ke b e o a (done.map Job.jobId) w ∧ ∀ j ∈ done, isUuid j.jobId = true

theorem does_retireEach {ks : List Key} (claim : Claim ke b e o) (hK : Lasting K) (hks : ∀ k ∈ ks, k.schema = ke.schema)
    (hw : Claimed g t now K ke b e o a [] w₀) :
    Does g (.work workerId schemas) t (fun rows w' => Swept g t now K ke b e o a rows w')
      (fun _ w' => Claimed g t now K ke b e o a [] w' ∧ Lost g o)
      (updateEach .retireExpired .jobs Jobs.isExpired Jobs.retirePatch ks) w₀ := by
  have start : Swept g t now K ke b e o a [] w₀ ∧ ∀ k ∈ ks, k.schema = ke.schema := ⟨⟨hw, fun _ hm => by cases hm⟩, hks⟩
  refine (tries_updateEach
    (P := fun ks (done : List (Table.Row .jobs)) w => Swept g t now K ke b e o a done w ∧ ∀ k ∈ ks, k.schema = ke.schema)
    [] ?_ start).mono (fun _ _ h => h.1) fun _ _ h => h
  rintro k ks done w ⟨⟨hc, huuid⟩, hks⟩
  refine does_update hK extends_past (by decide) (covers_working claim.dispatched claim.counted)
    (fun s s' hl h => locks_working hl h) hc ?_ ?_ ?_
  · intro x w₁ w' s e₁ facts hf hs ho
    have lost := retire_lost facts hf hs
    exact ⟨open_lost ho lost, lost⟩
  · intro w' ho
    simpa using ⟨⟨ho, huuid⟩, fun k' hm => hks k' (List.mem_cons_of_mem _ hm)⟩
  · intro w₁ w' s e₁ old facts ha hs finds hkeep ho
    have working := unless_live hs ha
    simp only [Jobs.isExpired, Bool.and_eq_true, decide_eq_true_eq] at hkeep
    obtain ⟨hb, hsame⟩ := working.sweeps.base finds hkeep.1.2
    have hold : w₁.rows .jobs k = some old := finds.1.trans hb
    obtain ⟨hid, hu⟩ := facts.inv.linked.job k old hold
    have hpatch : (Jobs.retirePatch.apply now old : Job).jobId = k.id := hid
    have reaped : Reaped now ke.schema k (some old) (some (Jobs.retirePatch.apply now old)) :=
      ⟨hks k (List.mem_cons_self ..), old, rfl, hkeep.1.1, ⟨hkeep.1.2, rfl⟩, rfl⟩
    refine ⟨⟨ho.mono (fun _ h => h) (fun _ h => h) fun s' _ h => h ▸ Or.inr ⟨ha, ?_⟩, ?_⟩,
      fun k' hm => hks k' (List.mem_cons_of_mem _ hm)⟩
    · rw [Option.toList_some, List.map_append, List.map_singleton, hpatch]
      exact ⟨working.live, working.execution.write_tbl (by decide), working.attempt.write (by decide),
        working.sweeps.retire hb hsame reaped⟩
    · intro j hm
      rcases List.mem_append.mp hm with hm | hm
      · exact huuid j hm
      · rw [Option.toList_some, List.mem_singleton] at hm
        rw [hm, hpatch]
        exact hu

theorem does_unregisterEach {ids : List String} (claim : Claim ke b e o) (hK : Lasting K)
    (hw : Claimed g t now K ke b e o a ids w₀) :
    Does g (.work workerId schemas) t (fun _ w' => Claimed g t now K ke b e o a [] w')
      (fun _ w' => Claimed g t now K ke b e o a [] w' ∧ Lost g o) (Reaper.unregisterEach ke.schema ids) w₀ := by
  induction ids generalizing w₀ with
  | nil => exact tries_pure hw
  | cons id ids ih =>
    refine tries_bind (does_unregister (k := ⟨ke.schema, id⟩) hK (covers_working claim.dispatched claim.counted) hw ?_ ?_ ?_)
    · intro x op w w' s e₁ facts hf hs ho
      have lost : Lost g o := by
        rcases hf with ha | hf
        · exact lost_of_aborted hs ha
        · exact lost_of_unlucky facts.toMoment (Or.inl hf)
      exact ⟨open_lost ho lost, lost⟩
    · intro op w w' s e₁ facts ha hs hv ho
      have working := unless_live hs ha
      refine ih (ho.mono (fun _ h => h) (fun _ h => h) fun s' _ h => h ▸ Or.inr ⟨ha, ?_⟩)
      refine ⟨working.live, working.execution, working.attempt, working.sweeps.missing fun official => ?_⟩
      cases hh : s.held .cronJob (entryKey ⟨ke.schema, id⟩) with
      | some x =>
        have hnew : x.new = none := by simpa [Session.visible, hh] using hv
        exact ⟨x.base, by rw [← hnew]⟩
      | none =>
        obtain ⟨x, hx, _, j, hbase, hcron, hret, _⟩ := working.sweeps.listed id (List.mem_cons_self ..)
        have hj : w.rows .jobs ⟨ke.schema, id⟩ = some j := (facts.sound.held t s .jobs _ x facts.session hx).2.trans hbase
        obtain ⟨expression, _, he⟩ := (facts.inv.agree official).job _ j hj hret.1 hcron
        simp [Session.visible, hh, he] at hv
    · intro op w w' s e₁ facts ha hs ho
      have working := unless_live hs ha
      refine ih (ho.mono (fun _ h => h) (fun _ h => h) fun s' _ h => h ▸ Or.inr ⟨ha, ?_⟩)
      exact ⟨working.live, working.execution.write_tbl (by decide), working.attempt.write (by decide),
        working.sweeps.unschedule⟩

/-- The reaper on the worker's transaction: it retires all that has expired, or the transaction is lost. -/
theorem does_reapSchema {tp : String} (claim : Claim ke b e o) (hK : Lasting K) (hw : Claimed g t now K ke b e o a [] w₀) :
    Does g (.work workerId schemas) t
      (fun retired w' => Claimed g t now K ke b e o a [] w' ∧ ∀ id ∈ retired, isUuid id = true)
      (fun _ w' => Claimed g t now K ke b e o a [] w' ∧ Lost g o)
      (Reaper.reapSchema ⟨ke.schema, tp, true⟩ ke.schema) w₀ := by
  refine tries_bind (tries_bind ?_)
  refine tries_bind (tries_query hK.stable (covers_working claim.dispatched claim.counted _ _ trivial hw) hw ?_ ?_)
  · intro x w w' s e₁ facts hf hs ho
    have lost : Lost g o := by
      rcases hf with ha | hf
      · exact lost_of_aborted hs ha
      · exact lost_of_unlucky facts.toMoment (Or.inl hf)
    exact ⟨open_lost ho lost, lost⟩
  · intro w w' s e₁ facts ha hs ho
    have ho' : Claimed g t now K ke b e o a [] w' :=
      ho.mono (fun _ h => h) (fun _ h => h ▸ facts.known) fun s' _ h => h ▸ hs
    refine (does_retireEach claim hK ?_ ho').mono ?_ fun _ _ h => h
    · intro k hm
      simp only [matching, List.mem_filter, Bool.and_eq_true, decide_eq_true_eq] at hm
      exact hm.2.1
    · rintro rows w₁ ⟨hc, huuid⟩
      refine tries_pure (tries_bind ((does_unregisterEach claim hK hc).mono ?_ fun _ _ h => h))
      intro _ w₂ hc₂
      refine tries_pure ⟨hc₂, fun id hm => ?_⟩
      obtain ⟨j, hj, rfl⟩ := List.mem_map.mp hm
      exact huuid j hj

end Invokr

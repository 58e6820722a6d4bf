import Invokr.OpenRules

namespace TxLib

variable {M : Model}

/-- Every row of the table that the transaction holds is as it was found, or was changed as `P` says. -/
def Each (tb : M.Tbl) (P : M.Key → Option (M.Row tb) → Option (M.Row tb) → Prop) (s : Session M) : Prop :=
  ∀ k h, s.held tb k = some h → h.new = h.base ∨ P k h.base h.new

/-- The transaction changes no row of the table. -/
def Quiet (tb : M.Tbl) (s : Session M) : Prop := Each tb (fun _ _ _ => False) s

/-- The transaction changes no other row of the table. -/
def Only (tb : M.Tbl) (k : M.Key) (base new : Option (M.Row tb)) (s : Session M) : Prop :=
  s.held tb k = some ⟨base, new⟩ ∧ Each tb (fun k' _ _ => k' = k) s

/-- The transaction locks rows and changes none of them. -/
def Locks (s s' : Session M) : Prop :=
  s'.now = s.now ∧ s'.aborted = s.aborted ∧
    ∀ tb k, s'.held tb k = s.held tb k ∨ (s.held tb k = none ∧ ∃ b, s'.held tb k = some ⟨b, b⟩)

theorem Locks.refl (s : Session M) : Locks s s := ⟨rfl, rfl, fun _ _ => Or.inl rfl⟩

theorem Finds.locks {D : Rows M} {s : Session M} {tb : M.Tbl} {k : M.Key} {old : M.Row tb}
    (h : Finds D s tb k (s.baseOf D tb k) old) : Locks s (s.write D tb k (some old)) := by
  refine ⟨rfl, rfl, fun tb' k' => ?_⟩
  by_cases ht : tb' = tb
  · subst ht
    by_cases hk : k' = k
    · subst hk
      rw [Session.write_held_same]
      rcases h.2 with hh | ⟨hh, hb⟩
      · exact Or.inl hh.symm
      · exact Or.inr ⟨hh, some old, by rw [hb]⟩
    · exact Or.inl (Session.write_held_key s D _ hk)
  · exact Or.inl (Session.write_held_tbl s D _ ht)

section each

variable {tb tb' : M.Tbl} {k k' : M.Key} {P : M.Key → Option (M.Row tb) → Option (M.Row tb) → Prop}
  {s s' : Session M} {D : Rows M}

theorem Each.frame (h : Each tb P s) (hs : s'.held tb = s.held tb) : Each tb P s' := by
  intro k hd hh
  exact h k hd (by rw [← hs]; exact hh)

theorem Each.mono {P' : M.Key → Option (M.Row tb) → Option (M.Row tb) → Prop} (h : Each tb P s)
    (weaker : ∀ k b n, P k b n → P' k b n) : Each tb P' s :=
  fun k hd hh => (h k hd hh).imp_right (weaker k _ _)

theorem Each.locks (h : Each tb P s) (hl : Locks s s') : Each tb P s' := by
  intro k hd hh
  rcases hl.2.2 tb k with he | ⟨_, b, hb⟩
  · exact h k hd (he ▸ hh)
  · rw [hb] at hh
    cases hh
    exact Or.inl rfl

theorem Each.write {v : Option (M.Row tb)} (h : Each tb P s)
    (hv : v = s.baseOf D tb k ∨ P k (s.baseOf D tb k) v) : Each tb P (s.write D tb k v) := by
  intro k' hd hh
  by_cases hk : k' = k
  · subst hk
    rw [Session.write_held_same] at hh
    cases hh
    exact hv
  · rw [Session.write_held_key s D v hk] at hh
    exact h k' hd hh

theorem Each.write_tbl {v : Option (M.Row tb')} (h : Each tb P s) (ht : tb ≠ tb') :
    Each tb P (s.write D tb' k v) :=
  h.frame (funext fun _ => Session.write_held_tbl s D v ht)

theorem each_started (h : Started s) : Each tb P s := by
  intro k hd hh
  rw [h.2 tb k] at hh
  cases hh

theorem Locks.held {h : Held (M.Row tb)} (hl : Locks s s') (hh : s.held tb k = some h) : s'.held tb k = some h := by
  rcases hl.2.2 tb k with he | ⟨hn, _⟩
  · rw [he, hh]
  · rw [hn] at hh
    cases hh

theorem Only.frame {b n : Option (M.Row tb)} (h : Only tb k b n s) (hs : s'.held tb = s.held tb) : Only tb k b n s' :=
  ⟨by rw [hs]; exact h.1, h.2.frame hs⟩

theorem Only.locks {b n : Option (M.Row tb)} (h : Only tb k b n s) (hl : Locks s s') : Only tb k b n s' :=
  ⟨hl.held h.1, h.2.locks hl⟩

/-- Writing to a table of which nothing else is changed. -/
theorem Quiet.only {v : Option (M.Row tb)} (h : Quiet tb s) :
    Only tb k (s.baseOf D tb k) v (s.write D tb k v) :=
  ⟨Session.write_held_same s D tb k v,
    Each.write (h.mono fun _ _ _ hf => hf.elim) (Or.inr rfl)⟩

theorem Only.write {b n v : Option (M.Row tb)} (h : Only tb k b n s) : Only tb k b v (s.write D tb k v) := by
  refine ⟨?_, h.2.write (Or.inr rfl)⟩
  rw [Session.write_held_same]
  simp [Session.baseOf, h.1]

theorem Only.write_tbl {b n : Option (M.Row tb)} {v : Option (M.Row tb')} (h : Only tb k b n s) (ht : tb ≠ tb') :
    Only tb k b n (s.write D tb' k' v) :=
  h.frame (funext fun _ => Session.write_held_tbl s D v ht)

theorem Only.visible {b n : Option (M.Row tb)} (h : Only tb k b n s) : s.visible D tb k = n := by
  simp [Session.visible, h.1]

theorem Only.baseOf {b n : Option (M.Row tb)} (h : Only tb k b n s) : s.baseOf D tb k = b := by
  simp [Session.baseOf, h.1]

/-- The row an `UPDATE` meets in a table of which the transaction has changed nothing. -/
theorem Quiet.found {base : Option (M.Row tb)} {old : M.Row tb} (h : Quiet tb s) (finds : Finds D s tb k base old) :
    base = some old ∧ D tb k = some old := by
  have hb : base = some old := by
    rcases finds.2 with hh | ⟨_, hb⟩
    · exact ((h k _ hh).resolve_right id).symm
    · exact hb
  exact ⟨hb, finds.1.trans hb⟩

theorem Finds.visible {base : Option (M.Row tb)} {old : M.Row tb} (finds : Finds D s tb k base old) :
    s.visible D tb k = some old := by
  rcases finds.2 with hh | ⟨hh, hb⟩
  · simp [Session.visible, hh]
  · simp [Session.visible, hh, finds.1, hb]

end each

/-- What an inserted row collides with. -/
theorem clash_cases {D : Rows M} {keys : (tb : M.Tbl) → List M.Key} {s : Session M} {tb : M.Tbl} {k : M.Key}
    {r : M.Row tb} (h : clash D keys s tb k r = true) :
    ∃ k' r', (D tb k' = some r' ∨ s.visible D tb k' = some r') ∧
      (k' = k ∨ (M.unique tb k r ≠ none ∧ M.unique tb k' r' = M.unique tb k r)) := by
  have found : ∀ k' v, collides tb k r k' v = true →
      ∃ r', v = some r' ∧ (k' = k ∨ (M.unique tb k r ≠ none ∧ M.unique tb k' r' = M.unique tb k r)) := by
    intro k' v hc
    cases v with
    | none => cases hc
    | some r' =>
      simp only [collides, Bool.or_eq_true, decide_eq_true_eq, Bool.and_eq_true, Option.isSome_iff_ne_none] at hc
      exact ⟨r', rfl, hc⟩
  obtain ⟨k', _, hc⟩ := List.any_eq_true.mp h
  rcases Bool.or_eq_true_iff.mp hc with hc | hc
  · obtain ⟨r', hr, rest⟩ := found k' _ hc
    exact ⟨k', r', Or.inl hr, rest⟩
  · obtain ⟨r', hr, rest⟩ := found k' _ hc
    exact ⟨k', r', Or.inr hr, rest⟩

section visible

variable {tb : M.Tbl} {k : M.Key} {P : M.Key → Option (M.Row tb) → Option (M.Row tb) → Prop} {s : Session M}
  {w : World M} {t : Nat}

/-- What a transaction makes of a table: every row is as committed or changed as `P` says. -/
theorem Sound.visible_each (sound : Sound w) (hs : w.sessions t = some s) (h : Each tb P s) (k : M.Key) :
    s.visible w.rows tb k = w.rows tb k ∨ P k (w.rows tb k) (s.visible w.rows tb k) := by
  cases hh : s.held tb k with
  | none => exact Or.inl (by simp [Session.visible, hh])
  | some hd =>
    have hb := (sound.held t s tb k hd hs hh).2
    have hv : s.visible w.rows tb k = hd.new := by simp [Session.visible, hh]
    rw [hv, hb]
    exact h k hd hh

theorem Sound.visible_quiet (sound : Sound w) (hs : w.sessions t = some s) (h : Quiet tb s) :
    s.visible w.rows tb = w.rows tb :=
  funext fun k => (sound.visible_each hs h k).resolve_right id

theorem Sound.visible_only {b n : Option (M.Row tb)} (sound : Sound w) (hs : w.sessions t = some s)
    (h : Only tb k b n s) : w.rows tb k = b ∧ s.visible w.rows tb = Function.update (w.rows tb) k n := by
  refine ⟨(sound.held t s tb k _ hs h.1).2, funext fun k' => ?_⟩
  by_cases hk : k' = k
  · subst hk
    rw [Function.update_self, h.visible]
  · rw [Function.update_of_ne hk]
    exact (sound.visible_each hs h.2 k').resolve_right hk

theorem Sound.quiet_visible (sound : Sound w) (hs : w.sessions t = some s) (h : Quiet tb s) (k : M.Key) :
    s.visible w.rows tb k = w.rows tb k := congrFun (sound.visible_quiet hs h) k

theorem Sound.refs_of_visible (sound : Sound w) (hs : w.sessions t = some s) {r : M.Row tb}
    (h : s.visible w.rows tb k = some r) : refsVisible (s.visible w.rows) tb k r = true := by
  unfold Session.visible at h
  split at h
  next hd hh => exact sound.refsNew t s tb k hd r hs hh h
  next => exact refsVisible_mono (sound.refs tb k r h) fun ref _ hp hsome => sound.visible_refs hs hp hsome

end visible

end TxLib

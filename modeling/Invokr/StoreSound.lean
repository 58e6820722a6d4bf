import Invokr.StoreSteps

namespace TxLib

variable {M : Model}

/-- Some transaction's own version of a row. -/
def World.Uncommitted (w : World M) (tb : M.Tbl) (k : M.Key) (r : M.Row tb) : Prop :=
  ∃ t s h, w.sessions t = some s ∧ s.held tb k = some h ∧ h.new = some r

def World.Version (w : World M) (tb : M.Tbl) (k : M.Key) (r : M.Row tb) : Prop :=
  w.rows tb k = some r ∨ w.Uncommitted tb k r

/-- The row locks are the open transactions' own, the committed version of a locked row is the one
its holder found, and the constraints hold of committed and uncommitted rows together. -/
structure Sound (w : World M) : Prop where
  held : ∀ t s tb k h, w.sessions t = some s → s.held tb k = some h →
    w.locks tb k = some t ∧ w.rows tb k = h.base
  locked : ∀ tb k t, w.locks tb k = some t → ∃ s h, w.sessions t = some s ∧ s.held tb k = some h
  kept : ∀ t s tb k h, w.sessions t = some s → s.held tb k = some h → M.plain tb = false →
    ∃ r, h.new = some r
  keyed : ∀ tb k r, w.Version tb k r → k ∈ w.keys tb
  stored : ∀ tb k r, w.Version tb k r → M.storable tb r = true
  refs : ∀ tb k r, w.rows tb k = some r → refsVisible w.rows tb k r = true
  refsNew : ∀ t s tb k h r, w.sessions t = some s → s.held tb k = some h → h.new = some r →
    refsVisible (s.visible w.rows) tb k r = true
  unique : ∀ tb k k' r r', w.Version tb k r → w.Version tb k' r' →
    M.unique tb k r = M.unique tb k' r' → M.unique tb k r ≠ none → k = k'

theorem sound_empty (M : Model) : Sound (World.empty M) where
  held := by simp [World.empty]
  locked := by simp [World.empty]
  kept := by simp [World.empty]
  keyed := by simp [World.Version, World.Uncommitted, World.empty]
  stored := by simp [World.Version, World.Uncommitted, World.empty]
  refs := by simp [World.empty]
  refsNew := by simp [World.empty]
  unique := by simp [World.Version, World.Uncommitted, World.empty]

theorem World.foreign_iff {w : World M} {t : Nat} {tb : M.Tbl} {k : M.Key} :
    w.foreign t tb k = true ↔ ∃ u, u ≠ t ∧ w.locks tb k = some u := by
  unfold World.foreign
  cases w.locks tb k <;> simp

theorem Sound.pending {w : World M} (h : Sound w) {tb : M.Tbl} {k : M.Key} {r : M.Row tb} :
    w.pending tb k = some r ↔ w.Uncommitted tb k r := by
  unfold World.pending World.Uncommitted
  constructor
  · intro hp
    cases hl : w.locks tb k with
    | none => simp [hl] at hp
    | some u =>
      obtain ⟨s, hd, hs, hh⟩ := h.locked tb k u hl
      exact ⟨u, s, hd, hs, hh, by simpa [hl, hs, hh] using hp⟩
  · rintro ⟨t, s, hd, hs, hh, hr⟩
    simp [(h.held t s tb k hd hs hh).1, hs, hh, hr]

/-- The key of a row that another transaction holds is in use. -/
theorem Sound.foreign_pending {w : World M} (h : Sound w) {t : Nat} {tb : M.Tbl} {k : M.Key}
    (hf : w.foreign t tb k = true) (hp : M.plain tb = false) :
    k ∈ w.keys tb ∧ ∃ v, w.pending tb k = some v := by
  obtain ⟨u, _, hl⟩ := World.foreign_iff.mp hf
  obtain ⟨s, hd, hs, hh⟩ := h.locked tb k u hl
  obtain ⟨r, hr⟩ := h.kept u s tb k hd hs hh hp
  have hu : w.Uncommitted tb k r := ⟨u, s, hd, hs, hh, hr⟩
  exact ⟨h.keyed tb k r (Or.inr hu), r, h.pending.mpr hu⟩

theorem Session.write_held_cases {s : Session M} {D : Rows M} {tb tb' : M.Tbl} {k k' : M.Key}
    {v : Option (M.Row tb)} {h : Held (M.Row tb')} (hh : (s.write D tb k v).held tb' k' = some h) :
    (∃ e : tb' = tb, k' = k ∧ h = e ▸ ⟨s.baseOf D tb k, v⟩) ∨ s.held tb' k' = some h := by
  by_cases ht : tb' = tb
  · subst ht
    by_cases hk : k' = k
    · subst hk
      simp only [Session.write_held_same, Option.some.injEq] at hh
      exact Or.inl ⟨rfl, rfl, hh.symm⟩
    · rw [Session.write_held_key s D v hk] at hh
      exact Or.inr hh
  · rw [Session.write_held_tbl s D v ht] at hh
    exact Or.inr hh

/-- A row held after a move was held before it or is held by no other transaction. -/
theorem Move.held_before {w : World M} {t : Nat} {keys : (tb : M.Tbl) → List M.Key}
    {s s' : Option (Session M)} {rows : Rows M} (m : Move w t keys s s' rows) {s₁ : Session M}
    (hs : s' = some s₁) {tb : M.Tbl} {k : M.Key} {h : Held (M.Row tb)} (hh : s₁.held tb k = some h) :
    (∃ s₀ h₀, s = some s₀ ∧ s₀.held tb k = some h₀) ∨ w.foreign t tb k = false := by
  cases m with
  | stay => exact Or.inl ⟨s₁, h, hs, hh⟩
  | start => cases hs; simp at hh
  | fail s₀ => cases hs; simp at hh
  | @write s₀ tb' k' v ha hf hw hk =>
    cases hs
    rcases Session.write_held_cases hh with ⟨rfl, rfl, _⟩ | hold
    · exact Or.inr hf
    · exact Or.inl ⟨s₀, h, rfl, hold⟩
  | close => cases hs
  | commit => cases hs
  | remove => cases hs

/-- The base of a row held after a move is its committed version. -/
theorem Move.held_base {w : World M} (sound : Sound w) {t : Nat} {keys : (tb : M.Tbl) → List M.Key}
    {s' : Option (Session M)} {rows : Rows M} (m : Move w t keys (w.sessions t) s' rows) {s₁ : Session M}
    (hs : s' = some s₁) {tb : M.Tbl} {k : M.Key} {h : Held (M.Row tb)} (hh : s₁.held tb k = some h) :
    rows tb k = h.base := by
  generalize hc : w.sessions t = cur at m
  cases m with
  | stay => exact (sound.held t s₁ tb k h (hc.trans hs) hh).2
  | start => cases hs; simp at hh
  | fail s₀ => cases hs; simp at hh
  | @write s₀ tb' k' v ha hf hw hk =>
    cases hs
    rcases Session.write_held_cases hh with ⟨rfl, rfl, rfl⟩ | hold
    · simp only [Session.baseOf]
      split
      next h₀ h₀h => exact (sound.held t s₀ _ _ h₀ hc h₀h).2
      next => rfl
    · exact (sound.held t s₀ tb k h hc hold).2
  | close => cases hs
  | commit => cases hs
  | remove => cases hs

/-- A move leaves the committed version of a row that another transaction holds alone. -/
theorem Move.rows_foreign {w : World M} (sound : Sound w) {t : Nat} {keys : (tb : M.Tbl) → List M.Key}
    {s' : Option (Session M)} {rows : Rows M} (m : Move w t keys (w.sessions t) s' rows)
    {tb : M.Tbl} {k : M.Key} (hf : w.foreign t tb k = true) : rows tb k = w.rows tb k := by
  obtain ⟨u, hu, hl⟩ := World.foreign_iff.mp hf
  generalize hc : w.sessions t = cur at m
  cases m with
  | @commit s ha =>
    simp only [Session.visible]
    split
    next h hh =>
      have := (sound.held t s tb k h hc hh).1
      rw [hl] at this
      exact absurd (Option.some.inj this) hu
    next => rfl
  | @remove tb' k' hf' _ _ =>
    rcases setAt_cases w.rows tb' k' none tb k with ⟨e, rfl, _⟩ | ⟨_, he⟩
    · subst e
      rw [hf] at hf'
      cases hf'
    · exact he
  | _ => rfl

end TxLib

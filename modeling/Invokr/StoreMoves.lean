import Invokr.Store

namespace TxLib

variable {M : Model}

@[simp] theorem setAt_same {β : M.Tbl → Type} (f : (tb : M.Tbl) → M.Key → β tb) (tb : M.Tbl) (k : M.Key)
    (v : β tb) : setAt f tb k v tb k = v := by
  simp [setAt]

theorem setAt_key {β : M.Tbl → Type} (f : (tb : M.Tbl) → M.Key → β tb) {tb : M.Tbl} {k k' : M.Key}
    (v : β tb) (h : k' ≠ k) : setAt f tb k v tb k' = f tb k' := by
  simp [setAt, h]

theorem setAt_tbl {β : M.Tbl → Type} (f : (tb : M.Tbl) → M.Key → β tb) {tb tb' : M.Tbl} {k k' : M.Key}
    (v : β tb) (h : tb' ≠ tb) : setAt f tb k v tb' k' = f tb' k' := by
  simp [setAt, h]

/-- A cell of an updated table is the new value or the old cell. -/
theorem setAt_cases {β : M.Tbl → Type} (f : (tb : M.Tbl) → M.Key → β tb) (tb : M.Tbl) (k : M.Key)
    (v : β tb) (tb' : M.Tbl) (k' : M.Key) :
    (∃ h : tb' = tb, k' = k ∧ setAt f tb k v tb' k' = h ▸ v) ∨
      ((tb' ≠ tb ∨ k' ≠ k) ∧ setAt f tb k v tb' k' = f tb' k') := by
  by_cases ht : tb' = tb
  · subst ht
    by_cases hk : k' = k
    · subst hk
      exact Or.inl ⟨rfl, rfl, setAt_same f tb' k' v⟩
    · exact Or.inr ⟨Or.inr hk, setAt_key f v hk⟩
  · exact Or.inr ⟨Or.inl ht, setAt_tbl f v ht⟩

namespace Session

@[simp] theorem write_now (s : Session M) (D : Rows M) (tb : M.Tbl) (k : M.Key) (v : Option (M.Row tb)) :
    (s.write D tb k v).now = s.now := rfl

@[simp] theorem write_aborted (s : Session M) (D : Rows M) (tb : M.Tbl) (k : M.Key)
    (v : Option (M.Row tb)) : (s.write D tb k v).aborted = s.aborted := rfl

@[simp] theorem write_held_same (s : Session M) (D : Rows M) (tb : M.Tbl) (k : M.Key)
    (v : Option (M.Row tb)) : (s.write D tb k v).held tb k = some ⟨s.baseOf D tb k, v⟩ := by
  simp [write]

theorem write_held_key (s : Session M) (D : Rows M) {tb : M.Tbl} {k k' : M.Key} (v : Option (M.Row tb))
    (h : k' ≠ k) : (s.write D tb k v).held tb k' = s.held tb k' := by
  simp [write, setAt_key _ _ h]

theorem write_held_tbl (s : Session M) (D : Rows M) {tb tb' : M.Tbl} {k k' : M.Key}
    (v : Option (M.Row tb)) (h : tb' ≠ tb) : (s.write D tb k v).held tb' k' = s.held tb' k' := by
  simp [write, setAt_tbl _ _ h]

@[simp] theorem write_visible_same (s : Session M) (D : Rows M) (tb : M.Tbl) (k : M.Key)
    (v : Option (M.Row tb)) : (s.write D tb k v).visible D tb k = v := by
  simp [visible]

theorem write_visible_key (s : Session M) (D : Rows M) {tb : M.Tbl} {k k' : M.Key}
    (v : Option (M.Row tb)) (h : k' ≠ k) :
    (s.write D tb k v).visible D tb k' = s.visible D tb k' := by
  simp [visible, write_held_key s D v h]

theorem write_visible_tbl (s : Session M) (D : Rows M) {tb tb' : M.Tbl} {k k' : M.Key}
    (v : Option (M.Row tb)) (h : tb' ≠ tb) :
    (s.write D tb k v).visible D tb' k' = s.visible D tb' k' := by
  simp [visible, write_held_tbl s D v h]

@[simp] theorem fail_aborted (s : Session M) : s.fail.aborted = true := rfl

@[simp] theorem fail_held (s : Session M) (tb : M.Tbl) (k : M.Key) : s.fail.held tb k = none := rfl

@[simp] theorem start_held (now : Int) (tb : M.Tbl) (k : M.Key) :
    (start now : Session M).held tb k = none := rfl

@[simp] theorem start_aborted (now : Int) : (start now : Session M).aborted = false := rfl

@[simp] theorem start_now (now : Int) : (start now : Session M).now = now := rfl

@[simp] theorem start_visible (now : Int) (D : Rows M) : (start now : Session M).visible D = D := rfl

end Session

/-- The versions a statement may give to a row: a patch of the visible one, a new row that collides
with none, or anything in a plain table. -/
inductive Writes (w : World M) (t : Nat) (s : Session M) (tb : M.Tbl) (k : M.Key) :
    Option (M.Row tb) → Prop where
  | patch {old new : M.Row tb} : s.visible w.rows tb k = some old → M.unique tb k new = M.unique tb k old →
      refsVisible (s.visible w.rows) tb k new = true → Writes w t s tb k (some new)
  | lock {old : M.Row tb} : s.visible w.rows tb k = some old → Writes w t s tb k (some old)
  | insert {new : M.Row tb} : clash w.rows w.keys s tb k new = false →
      (∀ k' ∈ w.keys tb, w.foreign t tb k' = true → collides tb k new k' (w.pending tb k') = false) →
      refsVisible (s.visible w.rows) tb k new = true → Writes w t s tb k (some new)
  | plain {v : Option (M.Row tb)} : M.plain tb = true → Writes w t s tb k v

/-- What a call can do to the caller's transaction and to the committed rows. -/
inductive Move (w : World M) (t : Nat) (keys : (tb : M.Tbl) → List M.Key) :
    Option (Session M) → Option (Session M) → Rows M → Prop where
  | stay (s) : Move w t keys s s w.rows
  | start : Move w t keys none (some (.start w.clock)) w.rows
  | fail (s) : Move w t keys (some s) (some s.fail) w.rows
  | write {s : Session M} {tb : M.Tbl} {k : M.Key} {v : Option (M.Row tb)} : s.aborted = false →
      w.foreign t tb k = false → Writes w t s tb k v → (v.isSome → k ∈ keys tb ∨ (s.visible w.rows tb k).isSome) →
      (∀ r, v = some r → M.storable tb r = true ∨ s.visible w.rows tb k = some r) →
      Move w t keys (some s) (some (s.write w.rows tb k v)) w.rows
  | close (s) : Move w t keys (some s) none w.rows
  | commit {s : Session M} : s.aborted = false → Move w t keys (some s) none (s.visible w.rows)
  | remove {tb : M.Tbl} {k : M.Key} : w.foreign t tb k = false → referenced w.rows w.keys tb k = false →
      (∀ tb' k', k' ∈ w.keys tb' → ∀ r, w.pending tb' k' = some r → (tb, k) ∉ M.refs tb' k' r) →
      Move w t keys none none (setAt w.rows tb k none)

theorem mem_addKey (keys : (tb : M.Tbl) → List M.Key) (tb : M.Tbl) (k : M.Key) : k ∈ addKey keys tb k tb := by
  unfold addKey
  by_cases h : k ∈ keys tb <;> simp [h]

theorem subset_addKey (keys : (tb : M.Tbl) → List M.Key) (tb : M.Tbl) (k : M.Key) {tb' : M.Tbl} {k' : M.Key}
    (h : k' ∈ keys tb') : k' ∈ addKey keys tb k tb' := by
  unfold addKey
  by_cases ht : tb' = tb
  · subst ht
    simp only [Function.update_self]
    split
    · exact h
    · exact List.mem_append_left _ h
  · simpa [Function.update_of_ne ht] using h

theorem keysAfter_subset (o : Op M) (keys : (tb : M.Tbl) → List M.Key) (env : Env M) (s : Option (Session M))
    {tb : M.Tbl} {k : M.Key} (h : k ∈ keys tb) : k ∈ o.keysAfter keys env s tb := by
  cases o with
  | insert stmt tb' orIgnore build =>
    cases s with
    | none => exact h
    | some s => exact subset_addKey keys _ _ h
  | put stmt tb' k' row => exact subset_addKey keys _ _ h
  | _ => exact h

theorem inTx_cases {α : Type} {s s' : Option (Session M)} {env : Env M}
    {act : Session M → Except DbError α × Session M} {r : Except DbError α} (h : inTx s env act = (r, s')) :
    (s' = s ∧ ∃ e, r = .error e) ∨ (∃ s₀, s = some s₀ ∧ s' = some s₀.fail ∧ ∃ e, r = .error e) ∨
      ∃ s₀, s = some s₀ ∧ s₀.aborted = false ∧ env.fault = false ∧ r = (act s₀).1 ∧ s' = some (act s₀).2 := by
  unfold inTx at h
  cases s with
  | none =>
    obtain ⟨hr, hs⟩ := Prod.mk.inj h
    exact Or.inl ⟨hs.symm, _, hr.symm⟩
  | some s₀ =>
    simp only at h
    split at h
    next ha =>
      obtain ⟨hr, hs⟩ := Prod.mk.inj h
      exact Or.inl ⟨hs.symm, _, hr.symm⟩
    next ha =>
      split at h
      next hf =>
        obtain ⟨hr, hs⟩ := Prod.mk.inj h
        exact Or.inr (Or.inl ⟨s₀, rfl, hs.symm, _, hr.symm⟩)
      next hf =>
        obtain ⟨hr, hs⟩ := Prod.mk.inj h
        exact Or.inr (Or.inr ⟨s₀, rfl, by simpa using ha, by simpa using hf, hr.symm, hs.symm⟩)

end TxLib

import Invokr.Effects

namespace TxLib

variable {M : Model}

/-- A set of rows, by table and key. -/
abbrev Footprint (M : Model) := M.Tbl → M.Key → Prop

/-- The rows the call may write are in the footprint. -/
def Op.Confined (K : Footprint M) : Op M → Prop
  | .update _ tb k _ _ _ => K tb k
  | .insert _ tb _ build => ∀ fresh now, K tb (build fresh now).1
  | .put _ tb k _ => K tb k
  | .delete _ tb k => K tb k
  | .deleteNow _ tb k => K tb k
  | _ => True

theorem Op.Confined.mono {K K' : Footprint M} {o : Op M} (h : o.Confined K) (le : ∀ tb k, K tb k → K' tb k) : o.Confined K' := by
  cases o with
  | insert stmt tb orIgnore build => exact fun fresh now => le _ _ (h fresh now)
  | update => exact le _ _ h
  | put => exact le _ _ h
  | delete => exact le _ _ h
  | deleteNow => exact le _ _ h
  | _ => trivial

/-- The transaction holds rows of the footprint only. -/
def Session.Confined (K : Footprint M) (s : Session M) : Prop := ∀ tb k h, s.held tb k = some h → K tb k

theorem Written.confined {K : Footprint M} {D : Rows M} {env : Env M} {s : Session M} {o : Op M} {tb : M.Tbl} {k : M.Key}
    {v : Option (M.Row tb)} (h : Written D env s o tb k v) (ho : o.Confined K) : K tb k := by
  cases h with
  | insert => exact ho _ _
  | _ => exact ho

theorem Session.Confined.write {K : Footprint M} {s : Session M} (h : s.Confined K) {D : Rows M} {tb : M.Tbl} {k : M.Key}
    {v : Option (M.Row tb)} (hk : K tb k) : (s.write D tb k v).Confined K := by
  intro tb' k' x hx
  rcases Session.write_held_cases hx with ⟨rfl, rfl, _⟩ | hold
  · exact hk
  · exact h tb' k' x hold

section runs

variable {S : System M} {acts : List (Action S)} {t : Nat} {K : Footprint M}

theorem confined_exec {w w' : World M} (sound : Sound w) {o : Op M} {env : Env M} {r : o.Reply}
    (he : w.exec t o env = some (w', r)) (ho : o.Confined K) (h : ∀ s, w.sessions t = some s → s.Confined K) :
    ∀ s, w'.sessions t = some s → s.Confined K := by
  intro s hs
  cases hcur : w.sessions t with
  | none =>
    have m := (sound.exec he).1
    rw [hcur] at m
    generalize hnew : w'.sessions t = new at m hs
    generalize w'.rows = rows at m
    cases m with
    | stay => cases hs
    | start =>
      cases hs
      intro tb k x hx
      cases hx
    | remove => cases hs
  | some u =>
    rcases World.exec_written sound he hcur hs with rfl | rfl | ⟨tb, k, v, rfl, written⟩
    · exact h _ hcur
    · intro tb k x hx
      cases hx
    · exact (h u hcur).write (written.confined ho)

/-- A call changes only the rows its transaction holds, or the one it removes at once. -/
theorem changed_by {w w' : World M} {o : Op M} {env : Env M} {r : o.Reply} (he : w.exec t o env = some (w', r)) {tb : M.Tbl}
    {k : M.Key} (changed : w'.rows tb k ≠ w.rows tb k) (ho : o.Confined K)
    (h : ∀ s, w.sessions t = some s → s.Confined K) : K tb k := by
  obtain ⟨_, s, _, hw⟩ := World.exec_eq he
  subst hw
  revert changed
  cases o with
  | commit =>
    simp only [Op.store]
    cases hs : w.sessions t with
    | none => exact fun changed => absurd rfl changed
    | some u =>
      simp only
      split
      next => exact fun changed => absurd rfl changed
      next =>
        intro changed
        cases hh : u.held tb k with
        | some y => exact h u hs tb k y hh
        | none => exact absurd (by simp [Session.visible, hh]) changed
  | deleteNow stmt tb' k' =>
    have rows : Op.store w.rows w.keys env (w.sessions t) (.deleteNow stmt tb' k') = w.rows ∨
        Op.store w.rows w.keys env (w.sessions t) (.deleteNow stmt tb' k') = setAt w.rows tb' k' none := by
      simp only [Op.store]
      split
      next => exact Or.inr rfl
      next => exact Or.inl rfl
    intro changed
    rcases rows with same | removed
    · exact absurd (congrFun (congrFun same tb) k) changed
    · rcases setAt_cases w.rows tb' k' none tb k with ⟨rfl, rfl, _⟩ | ⟨_, same⟩
      · exact ho
      · exact absurd ((congrFun (congrFun removed tb) k).trans same) changed
  | _ => exact fun changed => absurd rfl changed

/-- A thread whose calls are confined holds rows of the footprint only. -/
theorem Pool.confined (acts : List (Action S)) (t : Nat) (h : ∀ x ∈ transcript acts t, x.op.Confined K) :
    ∀ s, ((Pool.empty S).run acts).world.sessions t = some s → s.Confined K := by
  induction acts using List.reverseRecOn with
  | nil =>
    intro s hs
    cases hs
  | append_singleton acts a ih =>
    rw [transcript_snoc] at h
    have before := ih fun x hx => h x (List.mem_append_left _ hx)
    rw [Pool.run_append, Pool.run_cons, Pool.run_nil]
    rcases exchange_cases ((Pool.empty S).run acts) t a with hx | ⟨x, req, w, _, _, he, hw, hx⟩
    · intro s hs
      rcases sessions_idle hx with same | gone
      · exact before s (same.symm.trans hs)
      · rw [gone] at hs
        cases hs
    · rw [hx] at h
      rw [hw]
      have ho := h _ (List.mem_append_right _ (List.mem_singleton.mpr rfl))
      exact confined_exec (Pool.sound_run acts) he ho before

/-- A step changes no row outside the footprint of its thread's calls. -/
theorem Pool.changes_confined {before : List (Action S)} {env : Env M} {tb : M.Tbl} {k : M.Key}
    (h : ∀ x ∈ transcript (before ++ [.step t env]) t, x.op.Confined K)
    (changed : ((Pool.empty S).run (before ++ [.step t env])).world.rows tb k ≠ ((Pool.empty S).run before).world.rows tb k) :
    K tb k := by
  rw [Pool.run_append, Pool.run_cons, Pool.run_nil] at changed
  rw [transcript_snoc] at h
  have held := Pool.confined before t fun x hx => h x (List.mem_append_left _ hx)
  rcases exchange_cases ((Pool.empty S).run before) t (.step t env) with hx | ⟨x, req, w, _, _, he, hw, hx⟩
  · exact absurd (congrFun (congrFun (rows_idle hx) tb) k) changed
  · rw [hw] at changed
    rw [hx] at h
    have ho := h _ (List.mem_append_right _ (List.mem_singleton.mpr rfl))
    exact changed_by he changed ho held

end runs

end TxLib

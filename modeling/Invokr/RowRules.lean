import Invokr.Copies
import Invokr.Recall

namespace TxLib

variable {M : Model}

/-- What is to hold of the rows of each table: of the committed ones, and of those held by a transaction
that began at a time. -/
structure RowRule (M : Model) where
  kept : (tb : M.Tbl) → M.Key → M.Row tb → Prop
  held : Int → (tb : M.Tbl) → M.Key → M.Row tb → Prop
  settles : ∀ now tb k r, held now tb k r → kept tb k r

/-- The call makes rows that meet the rule of rows that meet it. -/
def Op.Obeys (R : RowRule M) : Op M → Prop
  | .update _ tb k _ keep patch =>
    ∀ now r, R.held now tb k r → keep now r = true → R.held now tb k (patch.apply now r)
  | .insert _ tb _ build => ∀ fresh now, R.held now tb (build fresh now).1 (build fresh now).2
  | .put _ tb k row => ∀ now, R.held now tb k row
  | _ => True

/-- The versions that the transaction holds meet the rule. -/
def Session.Obeys (R : RowRule M) (s : Session M) : Prop :=
  ∀ tb k h r, s.held tb k = some h → h.new = some r → R.held s.now tb k r

/-- Committed rows meet the rule, and so do those of the open transactions. -/
structure World.Obeys (R : RowRule M) (w : World M) : Prop where
  rows : ∀ tb k r, w.rows tb k = some r → R.kept tb k r
  sessions : ∀ t s, w.sessions t = some s → s.Obeys R

variable {R : RowRule M}

theorem Session.obeys_of_unheld {s : Session M} (h : ∀ tb k, s.held tb k = none) : s.Obeys R := by
  intro tb k x r hx
  rw [h] at hx
  cases hx

theorem Session.Obeys.write {s : Session M} (h : s.Obeys R) {D : Rows M} {tb : M.Tbl} {k : M.Key} {v : Option (M.Row tb)}
    (hv : ∀ r, v = some r → R.held s.now tb k r) : (s.write D tb k v).Obeys R := by
  intro tb' k' x r hx hr
  rcases Session.write_held_cases hx with ⟨rfl, rfl, rfl⟩ | hold
  · exact hv r hr
  · exact h tb' k' x r hold hr

/-- What a transaction sees of a row that is committed or its own. -/
theorem Session.Obeys.visible {s : Session M} (h : s.Obeys R) {D : Rows M} {tb : M.Tbl} {k : M.Key} {r : M.Row tb}
    (found : ∀ r, D tb k = some r → R.held s.now tb k r) (hr : s.visible D tb k = some r) : R.held s.now tb k r := by
  unfold Session.visible at hr
  split at hr
  next x hx => exact h tb k x r hx hr
  next => exact found r hr

theorem obeys_updateRow {D : Rows M} {foreign : Bool} {tb : M.Tbl} {k : M.Key} {keep : Int → M.Row tb → Bool}
    {patch : Patch M tb} {s : Session M} (h : s.Obeys R) (found : ∀ r, D tb k = some r → R.held s.now tb k r)
    (ho : ∀ now r, R.held now tb k r → keep now r = true → R.held now tb k (patch.apply now r)) :
    (updateRow D foreign tb k keep patch s).2.Obeys R := by
  unfold updateRow
  split
  next => exact h
  next =>
    split
    next => exact h
    next old hv =>
      have hold := h.visible found hv
      split
      next hk =>
        split
        next => exact Session.obeys_of_unheld fun _ _ => rfl
        next =>
          split
          next => exact Session.obeys_of_unheld fun _ _ => rfl
          next =>
            refine h.write fun r hr => ?_
            cases hr
            exact ho _ _ hold hk
      next =>
        refine h.write fun r hr => ?_
        cases hr
        exact hold

section steps

variable {w w' : World M} {t : Nat} {o : Op M} {env : Env M} {reply : o.Reply}

/-- The caller's transaction after its call. -/
theorem obeys_own (h : w.Obeys R) (sound : Sound w) (he : w.exec t o env = some (w', reply)) (ho : o.Obeys R)
    (found : ∀ now tb k r, w.rows tb k = some r → R.kept tb k r → R.held now tb k r) {s' : Session M}
    (hs' : w'.sessions t = some s') : s'.Obeys R := by
  have find : ∀ now tb k r, w.rows tb k = some r → R.held now tb k r := fun now tb k r hr => found now tb k r hr (h.rows tb k r hr)
  cases hcur : w.sessions t with
  | none =>
    have m := (sound.exec he).1
    rw [hcur] at m
    generalize hnew : w'.sessions t = new at m hs'
    generalize w'.rows = rows at m
    cases m with
    | stay => cases hs'
    | start =>
      cases hs'
      exact Session.obeys_of_unheld fun _ _ => rfl
    | remove => cases hs'
  | some s =>
    have hs := h.sessions t s hcur
    cases o with
    | update stmt tb k skip keep patch =>
      obtain ⟨_, s₁, hev, hw⟩ := World.exec_eq he
      have same : s₁ = some s' := by
        rw [hw] at hs'
        simpa using hs'
      rw [hcur, same] at hev
      rcases inTx_cases (Option.some.inj hev) with ⟨hn, _⟩ | ⟨s₀, _, hn, _⟩ | ⟨s₀, h₀, _, _, _, hn⟩
      · cases hn
        exact hs
      · cases hn
        exact Session.obeys_of_unheld fun _ _ => rfl
      · cases h₀
        cases hn
        exact obeys_updateRow hs (fun r hr => find _ tb k r hr) ho
    | _ =>
      rcases World.exec_written sound he hcur hs' with rfl | rfl | ⟨tb, k, v, rfl, written⟩
      · exact hs
      · exact Session.obeys_of_unheld fun _ _ => rfl
      · refine hs.write fun r hr => ?_
        subst hr
        cases written <;> first | exact ho _ _ | exact ho _

/-- The rows that are committed after a call. -/
theorem obeys_rows (h : w.Obeys R) (sound : Sound w) (he : w.exec t o env = some (w', reply)) {tb : M.Tbl} {k : M.Key}
    {r : M.Row tb} (hr : w'.rows tb k = some r) : R.kept tb k r := by
  have m := (sound.exec he).1
  generalize hcur : w.sessions t = cur at m
  generalize w'.sessions t = new at m
  generalize w'.rows = rows at m hr
  cases m with
  | stay | start | fail | write | close => exact h.rows tb k r hr
  | @commit s =>
    unfold Session.visible at hr
    split at hr
    next x hx => exact R.settles _ _ _ _ (h.sessions t s hcur tb k x r hx hr)
    next => exact h.rows tb k r hr
  | @remove tb' k' =>
    rcases setAt_cases w.rows tb' k' none tb k with ⟨rfl, rfl, gone⟩ | ⟨_, same⟩
    · simp at hr
    · exact h.rows tb k r (same.symm.trans hr)

theorem World.Obeys.exec (h : w.Obeys R) (sound : Sound w) (he : w.exec t o env = some (w', reply)) (ho : o.Obeys R)
    (found : ∀ now tb k r, w.rows tb k = some r → R.kept tb k r → R.held now tb k r) : w'.Obeys R where
  rows tb k r hr := obeys_rows h sound he hr
  sessions u s hs := by
    by_cases hu : u = t
    · subst hu
      exact obeys_own h sound he ho found hs
    · exact h.sessions u s ((World.exec_sessions_of_ne he hu).symm.trans hs)

end steps

variable {S : System M}

/-- The rule holds at every moment of every run when the programs' calls obey it and a committed row may be
held by any transaction. -/
theorem Pool.obeys (programs : ∀ req, (S.program req).Uses (Op.Obeys R))
    (found : ∀ acts now tb k r, ((Pool.empty S).run acts).world.rows tb k = some r → R.kept tb k r → R.held now tb k r)
    (acts : List (Action S)) : ((Pool.empty S).run acts).world.Obeys R := by
  induction acts using List.reverseRecOn with
  | nil => exact ⟨fun tb k r hr => (by cases hr), fun t s hs => (by cases hs)⟩
  | append_singleton acts x ih =>
    have sound : Sound ((Pool.empty S).run acts).world := Pool.sound_run acts
    rw [Pool.run_append, Pool.run_cons, Pool.run_nil]
    have hacts := ((Pool.empty S).run acts).acts x
    generalize ((Pool.empty S).run acts).act x = p' at hacts ⊢
    cases hacts with
    | still rows sessions _ _ =>
      refine ⟨fun tb k r hr => ?_, fun t s hs => ?_⟩
      · rw [rows] at hr
        exact ih.rows tb k r hr
      · rw [sessions] at hs
        exact ih.sessions t s hs
    | @call t e th o next w r ht ha hp he =>
      have holds : ∀ req, (S.program req).Holds Recalls (fun _ o => o.Obeys R) (fun _ _ => True) (none, []) := fun req =>
        (recalls_uses (programs req) fun _ _ _ ho => ho).mono fun _ _ _ => trivial
      obtain ⟨_, _, ho⟩ := Pool.recalled holds (Pool.next_of ht ha hp)
      exact ih.exec sound he ho (found acts)
    | @stop _ t th _ _ _ =>
      refine ⟨ih.rows, fun u s hs => ?_⟩
      by_cases hu : u = t
      · subst hu
        have gone : (((Pool.empty S).run acts).world.kill u).sessions u = none :=
          congrArg Prod.fst (((Pool.empty S).run acts).world.kill_view u)
        cases gone.symm.trans hs
      · exact ih.sessions u s ((congrArg Prod.fst (World.kill_view_of_ne _ hu)).symm.trans hs)

end TxLib

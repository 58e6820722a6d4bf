import Invokr.Arrivals

namespace TxLib

variable {M : Model} {S : System M} {tb : M.Tbl} {k : M.Key} {r : M.Row tb} {acts acts' : List (Action S)}

/-- The call at most adds rows to the table. -/
def Op.Appends (tb : M.Tbl) : Op M → Prop
  | .update _ tb' _ _ _ _ => tb' ≠ tb
  | .deleteNow _ tb' _ => tb' ≠ tb
  | _ => True

theorem Op.Appends.keeps {o : Op M} (h : o.Appends tb) : o.Keeps tb := by
  cases o with
  | update => exact h
  | _ => trivial

/-- What a transaction holds of the table it has added. -/
def OnlyNew (tb : M.Tbl) (s : Option (Session M)) : Prop :=
  ∀ s', s = some s' → ∀ k x, s'.held tb k = some x → x.base = none

theorem onlyNew_write {D : Rows M} {env : Env M} {s : Session M} {o : Op M} {tb' : M.Tbl} {k' : M.Key}
    {v : Option (M.Row tb')} (solid : M.plain tb = false) (h : OnlyNew tb (some s)) (ho : o.Keeps tb)
    (written : Written D env s o tb' k' v) : OnlyNew tb (some (s.write D tb' k' v)) := by
  intro s' hs' k x hx
  cases hs'
  rcases Session.write_held_cases hx with ⟨rfl, rfl, rfl⟩ | hold
  · cases written with
    | patch => exact (ho rfl).elim
    | lock => exact (ho rfl).elim
    | put plain => rw [solid] at plain; cases plain
    | delete plain => rw [solid] at plain; cases plain
    | @insert stmt _ orIgnore build _ free _ =>
      simp only [Session.baseOf]
      cases hy : s.held tb (build env.fresh s.now).1 with
      | none => simpa [Session.visible, hy] using free
      | some y => exact h s rfl _ y hy
  · exact h s rfl k x hold

theorem Recalls.onlyNew {m m' : Memory M} {o : Op M} {reply : o.Reply} (h : Recalls m o reply m')
    (solid : M.plain tb = false) (ho : o.Keeps tb) (new : OnlyNew tb m.1) : OnlyNew tb m'.1 := by
  obtain ⟨w, t, env, w', sound, hs, he, rfl⟩ := h
  intro s' hs' k x hx
  have open_ : w'.sessions t = some s' := hs'
  cases hm : m.1 with
  | none =>
    have move := (sound.exec he).1
    rw [hs, hm, open_] at move
    generalize w'.rows = rows at move
    cases move with
    | start => cases hx
  | some s =>
    rw [hm] at hs new
    rcases World.exec_written sound he hs open_ with rfl | rfl | ⟨tb', k', v, rfl, written⟩
    · exact new _ rfl k x hx
    · cases hx
    · exact onlyNew_write solid new ho written _ rfl k x hx

/-- A row of a table to which calls at most add stays as it is. -/
theorem Pool.row_stays (solid : M.plain tb = false) (programs : ∀ req, (S.program req).Uses (Op.Appends tb))
    (le : acts <+: acts') (h : ((Pool.empty S).run acts).world.rows tb k = some r) :
    ((Pool.empty S).run acts').world.rows tb k = some r := by
  have holds : ∀ req, (S.program req).Holds Recalls (fun m o => OnlyNew tb m.1 ∧ o.Appends tb) (fun _ _ => True) (none, []) := by
    intro req
    have start : OnlyNew tb (none : Option (Session M)) := fun s hs => by cases hs
    refine ((programs req).holds (P := fun m : Memory M => OnlyNew tb m.1) start (fun _ _ ho hm => ⟨hm, ho⟩) ?_).mono
      fun _ _ _ => trivial
    exact fun _ _ _ _ ho hm hr => hr.onlyNew solid ho.keeps hm
  obtain ⟨more, rfl⟩ := le
  induction more using List.reverseRecOn with
  | nil => rwa [List.append_nil]
  | append_singleton more x ih =>
    rw [← List.append_assoc, Pool.run_append, Pool.run_cons, Pool.run_nil]
    have sound : Sound ((Pool.empty S).run (acts ++ more)).world := Pool.sound_run _
    have hacts := ((Pool.empty S).run (acts ++ more)).acts x
    generalize ((Pool.empty S).run (acts ++ more)).act x = p' at hacts ⊢
    cases hacts with
    | still rows _ _ _ =>
      rw [rows]
      exact ih
    | stop => exact ih
    | @call t e th o next w reply ht ha hp he =>
      obtain ⟨_, _, new, ho⟩ := Pool.recalled holds (Pool.next_of ht ha hp)
      have rows : w.rows = o.store ((Pool.empty S).run (acts ++ more)).world.rows
          ((Pool.empty S).run (acts ++ more)).world.keys e (((Pool.empty S).run (acts ++ more)).world.sessions t) := by
        obtain ⟨_, s, _, hw⟩ := World.exec_eq he
        rw [hw]
      show w.rows tb k = some r
      rw [rows]
      cases o with
      | deleteNow stmt tb' k' =>
        rcases store_deleteNow ((Pool.empty S).run (acts ++ more)).world.rows ((Pool.empty S).run (acts ++ more)).world.keys e
          (((Pool.empty S).run (acts ++ more)).world.sessions t) stmt tb' k' with same | removed
        · rw [same]
          exact ih
        · rw [removed]
          rcases setAt_cases ((Pool.empty S).run (acts ++ more)).world.rows tb' k' none tb k with ⟨rfl, _, _⟩ | ⟨_, same⟩
          · exact (ho rfl).elim
          · exact same.trans ih
      | commit =>
        cases hs : ((Pool.empty S).run (acts ++ more)).world.sessions t with
        | none => exact ih
        | some s =>
          simp only [Op.store]
          split
          next => exact ih
          next =>
            unfold Session.visible
            split
            next y hy =>
              have base := (sound.held t s tb k y hs hy).2
              rw [ih, new s hs k y hy] at base
              cases base
            next => exact ih
      | _ => exact ih

end TxLib

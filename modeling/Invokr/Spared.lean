import Invokr.Copies

namespace TxLib

variable {M : Model} {S : System M} {tb : M.Tbl}

/-- The call writes no row of the table in its transaction. -/
def Spares (tb : M.Tbl) : Op M → Prop
  | .update _ tb' _ _ _ _ => tb' ≠ tb
  | .insert _ tb' _ _ => tb' ≠ tb
  | .put _ tb' _ _ => M.plain tb' = true → tb' ≠ tb
  | .delete _ tb' _ => M.plain tb' = true → tb' ≠ tb
  | _ => True

/-- The call deletes a row of the table at once. -/
def Drops (tb : M.Tbl) : Op M → Prop
  | .deleteNow _ tb' _ => tb' = tb
  | _ => False

/-- The transaction has locked no row of the table. -/
def Unheld (tb : M.Tbl) (s : Option (Session M)) : Prop := ∀ s', s = some s' → ∀ k, s'.held tb k = none

theorem Unheld.visible {s : Session M} {D : Rows M} (h : Unheld tb (some s)) : s.visible D tb = D tb := by
  funext k
  simp [Session.visible, h s rfl k]

theorem Unheld.exec {w w' : World M} {t : Nat} {o : Op M} {env : Env M} {r : o.Reply} (h : Unheld tb (w.sessions t))
    (sound : Sound w) (spares : Spares tb o) (he : w.exec t o env = some (w', r)) : Unheld tb (w'.sessions t) := by
  intro s' hs' k
  cases hs : w.sessions t with
  | none =>
    have m := (sound.exec he).1
    rw [hs, hs'] at m
    generalize w'.rows = rows at m
    cases m with
    | start => rfl
  | some s =>
    have free := h s hs
    rcases World.exec_written sound he hs hs' with rfl | rfl | ⟨tb', k', v, rfl, written⟩
    · exact free k
    · rfl
    · have other : tb ≠ tb' := by
        cases written with
        | patch => exact spares.symm
        | lock => exact spares.symm
        | insert => exact spares.symm
        | put hplain => exact (spares hplain).symm
        | delete hplain => exact (spares hplain).symm
      rw [Session.write_held_tbl s w.rows v other]
      exact free k

theorem Recalls.free {m m' : Memory M} {o : Op M} {r : o.Reply} (h : Recalls m o r m') (spares : Spares tb o)
    (free : Unheld tb m.1) : Unheld tb m'.1 := by
  obtain ⟨w, t, env, w', sound, hs, he, rfl⟩ := h
  rw [← hs] at free
  exact free.exec sound spares he

/-- What a call of a transaction that holds no row of the table makes of the table. -/
theorem World.exec_free {w w' : World M} {t : Nat} {o : Op M} {env : Env M} {r : o.Reply} (free : Unheld tb (w.sessions t))
    (he : w.exec t o env = some (w', r)) : w'.rows tb = w.rows tb ∨ ∃ stmt k, o = .deleteNow stmt tb k ∧
      deleteNowReply w.rows w.keys env tb k = .ok true ∧ w'.rows = setAt w.rows tb k none := by
  obtain ⟨_, s', _, hw⟩ := World.exec_eq he
  have hr : w'.rows = o.store w.rows w.keys env (w.sessions t) := by rw [hw]
  rw [hr]
  generalize w.sessions t = s at free ⊢
  cases o with
  | commit =>
    cases s with
    | none => exact Or.inl rfl
    | some s =>
      simp only [Op.store]
      split
      next => exact Or.inl rfl
      next => exact Or.inl free.visible
  | deleteNow stmt tb' k =>
    by_cases ht : tb' = tb
    · subst ht
      simp only [Op.store]
      cases hreply : deleteNowReply w.rows w.keys env tb' k with
      | error e => exact Or.inl (by cases s <;> rfl)
      | ok found =>
        cases found with
        | false => exact Or.inl (by cases s <;> rfl)
        | true =>
          cases s with
          | some s => exact Or.inl rfl
          | none => exact Or.inr ⟨stmt, k, rfl, hreply, rfl⟩
    · rcases store_deleteNow w.rows w.keys env s stmt tb' k with hd | hd
      · exact Or.inl (by rw [hd])
      · refine Or.inl ?_
        rw [hd]
        exact funext fun k' => setAt_tbl _ _ (Ne.symm ht)
  | _ => exact Or.inl rfl

theorem World.exec_deleteNow {w w' : World M} {t : Nat} {stmt : M.Stmt} {k : M.Key} {env : Env M}
    {r : (Op.deleteNow stmt tb k : Op M).Reply} (h : w.exec t (.deleteNow stmt tb k) env = some (w', r)) :
    (r = .ok true ∧ w'.rows = setAt w.rows tb k none) ∨ (r ≠ .ok true ∧ w'.rows = w.rows) := by
  obtain ⟨_, s', he, hw⟩ := World.exec_eq h
  have hr : w'.rows = (Op.deleteNow stmt tb k).store w.rows w.keys env (w.sessions t) := by rw [hw]
  rw [hr]
  generalize w.sessions t = s at he ⊢
  cases s with
  | some s =>
    obtain ⟨rfl, _⟩ := Prod.mk.inj (Option.some.inj he)
    have refused : (.error .rejected : Except DbError Bool) ≠ .ok true := by simp
    exact Or.inr ⟨refused, rfl⟩
  | none =>
    obtain ⟨hreply, _⟩ := Prod.mk.inj (Option.some.inj he)
    simp only [Op.store]
    split
    next hd => exact Or.inl ⟨hreply.symm.trans hd, rfl⟩
    next hd => exact Or.inr ⟨fun hr => hd rfl (hreply.trans hr), rfl⟩

section runs

variable {P : S.Req → Memory M → Op M → Prop} {Q : S.Req → S.Resp → Memory M → Prop} {acts : List (Action S)}

theorem holds_free {α : Type} {pre : Memory M → Op M → Prop} {post : α → Memory M → Prop} {p : Program M α}
    {m : Memory M} (h : p.Holds Recalls pre post m) (spares : ∀ m o, pre m o → Spares tb o) (free : Unheld tb m.1) :
    p.Holds Recalls (fun m o => pre m o ∧ Unheld tb m.1) post m := by
  induction p generalizing m with
  | ret a => exact h
  | call o next ih => exact ⟨⟨h.1, free⟩, fun r m' hr => ih r (h.2 r m' hr) (hr.free (spares m o h.1) free)⟩

/-- The transactions of requests that write no row of the table hold none. -/
theorem Pool.recalled_free (holds : ∀ req, (S.program req).Holds Recalls (P req) (Q req) (none, []))
    {K : S.Req → Prop} (spares : ∀ req m o, K req → P req m o → Spares tb o) {t : Nat} {req : S.Req} {o : Op M}
    (hr : K req) (h : ((Pool.empty S).run acts).next t = some (req, o)) :
    Unheld tb (((Pool.empty S).run acts).world.sessions t) := by
  have strong : ∀ req, (S.program req).Holds Recalls (fun m o => P req m o ∧ (K req → Unheld tb m.1)) (Q req) (none, []) := by
    intro req
    by_cases hm : K req
    · refine (holds_free (holds req) (fun m o => spares req m o hm) fun s hs => by cases hs).pre_mono fun m o ho => ?_
      exact ⟨ho.1, fun _ => ho.2⟩
    · exact (holds req).pre_mono fun m o ho => ⟨ho, fun hm' => absurd hm' hm⟩
  obtain ⟨l, _, _, free⟩ := Pool.recalled strong h
  exact free hr

/-- A step of a request that writes no row of the table leaves its committed rows as they are. -/
theorem Pool.act_spared (holds : ∀ req, (S.program req).Holds Recalls (P req) (Q req) (none, [])) (mild : S.Req → Prop)
    (spares : ∀ req m o, mild req → P req m o → Spares tb o ∧ ¬Drops tb o) {x : Action S}
    (hx : ∀ t e req o, x = .step t e → ((Pool.empty S).run acts).next t = some (req, o) → mild req) :
    (((Pool.empty S).run acts).act x).world.rows tb = ((Pool.empty S).run acts).world.rows tb := by
  have hacts := ((Pool.empty S).run acts).acts x
  generalize ((Pool.empty S).run acts).act x = p' at hacts ⊢
  cases hacts with
  | still hr _ _ _ => rw [hr]
  | stop _ _ _ => rfl
  | @call t e th o next w r ht ha hpr he =>
    have hn := Pool.next_of ht ha hpr
    have hm := hx t e th.req o rfl hn
    have free := Pool.recalled_free holds (fun req m o hm ho => (spares req m o hm ho).1) hm hn
    obtain ⟨l, _, ho⟩ := Pool.recalled holds hn
    rcases World.exec_free free he with same | ⟨stmt, k, rfl, _⟩
    · exact same
    · exact ((spares th.req _ _ hm ho).2 rfl).elim

/-- A step of a request that writes no row in a transaction leaves the committed rows as they are or deletes one. -/
theorem Pool.step_rows {R : S.Req} {P : Memory M → Op M → Prop} {Q : S.Resp → Memory M → Prop}
    (holds : (S.program R).Holds Recalls P Q (none, [])) (spares : ∀ m o tb, P m o → Spares tb o) {t : Nat} {e : Env M}
    (hx : ∀ req o, ((Pool.empty S).run acts).next t = some (req, o) → req = R) :
    (((Pool.empty S).run acts).act (.step t e)).world.rows = ((Pool.empty S).run acts).world.rows ∨
      ∃ stmt tb k, Made (acts ++ [.step t e]) t R ⟨.deleteNow stmt tb k, e, .ok true, ((Pool.empty S).run acts).world.rows⟩ ∧
        (((Pool.empty S).run acts).act (.step t e)).world.rows = setAt ((Pool.empty S).run acts).world.rows tb k none := by
  have hacts := ((Pool.empty S).run acts).acts (.step t e)
  generalize ((Pool.empty S).run acts).act (.step t e) = p' at hacts ⊢
  cases hacts with
  | still hr _ _ _ => exact Or.inl hr
  | stop _ _ _ => exact Or.inl rfl
  | @call _ _ th o next w r ht ha hpr he =>
    have hn := Pool.next_of ht ha hpr
    have hreq := hx th.req o hn
    have free : ∀ tb, Unheld tb (((Pool.empty S).run acts).world.sessions t) := fun tb =>
      Pool.recalled_free (K := fun req => req = R) (holds_of holds) (fun req m o hm ho => spares m o tb (ho hm)) hreq hn
    cases o with
    | deleteNow stmt tb k =>
      rcases World.exec_deleteNow he with ⟨rfl, hrows⟩ | ⟨_, same⟩
      · exact Or.inr ⟨stmt, tb, k, made_snoc.mpr (Or.inr ⟨rfl, hreq ▸ hn, ⟨w, he⟩, rfl⟩), hrows⟩
      · exact Or.inl same
    | _ =>
      refine Or.inl (funext fun tb => ?_)
      rcases World.exec_free (free tb) he with same | ⟨stmt, k, hop, _⟩
      · exact same
      · cases hop

theorem Pool.act_call {p : Pool S} {t : Nat} {req : S.Req} {o : Op M} {e : Env M} {w : World M} {r : o.Reply}
    (hn : p.next t = some (req, o)) (he : p.world.exec t o e = some (w, r)) : (p.act (.step t e)).world = w := by
  obtain ⟨th, next, ht, ha, _, hp⟩ := Pool.waits hn
  simp only [Pool.act, ht, ha, ↓reduceIte, Pool.advance, hp]
  cases o with
  | halt => cases r
  | _ => simp only [he]

/-- A row that was deleted at once is gone from the committed rows. -/
theorem Made.deleted {t : Nat} {req : S.Req} {stmt : M.Stmt} {k : M.Key} {e : Env M} {D : Rows M}
    (h : Made acts t req ⟨.deleteNow stmt tb k, e, .ok true, D⟩) : ∃ before, before ++ [.step t e] <+: acts ∧
      ((Pool.empty S).run before).world.rows = D ∧
      ((Pool.empty S).run (before ++ [.step t e])).world.rows = setAt D tb k none := by
  obtain ⟨before, le, next, ⟨w, he⟩, rfl⟩ := h
  refine ⟨before, le, rfl, ?_⟩
  rw [Pool.run_append, Pool.run_cons, Pool.run_nil, Pool.act_call next he]
  rcases World.exec_deleteNow he with ⟨_, hrows⟩ | ⟨hn, _⟩
  · exact hrows
  · exact (hn rfl).elim

end runs

end TxLib

import Invokr.Rejections

namespace TxLib

variable {M : Model}

def Op.begins : Op M → Bool
  | .begin => true
  | _ => false

/-- The calls of a thread since it last asked for a transaction. -/
def sinceBegin (l : List (Exchange M)) : List (Exchange M) :=
  (l.reverse.takeWhile fun x => x.op.begins.not).reverse

theorem sinceBegin_begin {l : List (Exchange M)} {x : Exchange M} (h : x.op.begins = true) : sinceBegin (l ++ [x]) = [] := by
  simp [sinceBegin, h]

theorem sinceBegin_snoc {l : List (Exchange M)} {x : Exchange M} (h : x.op.begins = false) :
    sinceBegin (l ++ [x]) = sinceBegin l ++ [x] := by
  simp [sinceBegin, h]

/-- In its open transaction the thread has made calls that satisfy `R`. It is aborted exactly where the database has
rejected one of them, and satisfies `Q` otherwise. -/
def Ongoing (R : List (Exchange M) → Prop) (Q : Session M → Prop) (m : Memory M) : Prop :=
  ∃ s, m.1 = some s ∧ s.aborted = (sinceBegin m.2).any Exchange.rejected ∧ R (sinceBegin m.2) ∧ (s.aborted = false → Q s)

/-- One more call of this kind leaves the property of the transaction's calls as it is. -/
def Admitted (R : List (Exchange M) → Prop) (o : Op M) : Prop := ∀ xs x, x.op = o → R xs → R (xs ++ [x])

theorem Tries.holds {ε α : Type} {x : Try M ε α} {pre : Memory M → Op M → Prop} {P : Memory M → Prop} {m : Memory M}
    (h : Tries Recalls pre (fun _ m' => P m') (fun _ m' => P m') x m) : x.run.Holds Recalls pre (fun _ m' => P m') m := by
  refine Prog.Holds.mono h fun r m' hm => ?_
  cases r with
  | ok _ => exact hm
  | error _ => exact hm

section ongoing

variable {α : Type} {R N : List (Exchange M) → Prop} {Q Q' : Session M → Prop} {T : M.Tbl → Prop} {E : M.Ext → Prop}
  {m m' : Memory M} {o : Op M} {r : o.Reply} {pre : Memory M → Op M → Prop}

theorem Ongoing.mono (h : Ongoing R Q m) (hR : ∀ xs, R xs → N xs) (hQ : ∀ s, Q s → Q' s) : Ongoing N Q' m := by
  obtain ⟨s, hs, aborted, made, kept⟩ := h
  exact ⟨s, hs, aborted, hR _ made, fun live => hQ s (kept live)⟩

theorem Op.Inside.begins (ho : o.Inside T E) : o.begins = false := by
  cases o <;> first | rfl | exact ho.elim

/-- A call of the transaction, with what it does to the transaction and the exchange it adds. -/
theorem Ongoing.call (ho : o.Inside T E) (h : Ongoing R Q m) (hr : Recalls m o r m') :
    ∃ s s' D keys clock foreign env, (s.aborted = false → Q s) ∧
      o.eval D keys clock foreign env (some s) = some (r, some s') ∧ Stays T s s' ∧
      R (sinceBegin m.2) ∧ sinceBegin m'.2 = sinceBegin m.2 ++ [⟨o, env, r, D⟩] ∧ m'.1 = some s' ∧
      s'.aborted = (sinceBegin m'.2).any Exchange.rejected ∧ (s'.aborted = false → s.aborted = false) := by
  obtain ⟨s, hs, aborted, made, kept⟩ := h
  obtain ⟨D, keys, clock, foreign, env, he, hl⟩ := hr.eval
  rw [hs] at he
  obtain ⟨s', hs', stays⟩ := ho.stays he
  rw [hs'] at he
  have aborts := ho.aborts he
  have since : sinceBegin m'.2 = sinceBegin m.2 ++ [⟨o, env, r, D⟩] := by rw [hl, sinceBegin_snoc ho.begins]
  refine ⟨s, s', D, keys, clock, foreign, env, kept, he, stays, made, since, hs', ?_, fun live => ?_⟩
  · rw [since, aborts, aborted, List.any_append]
    simp [Exchange.rejected]
  · rw [aborts, Bool.or_eq_false_iff] at live
    exact live.1

theorem Ongoing.keep (apart : Apart T Q) (ho : o.Inside T E) (admitted : Admitted R o) (h : Ongoing R Q m)
    (hr : Recalls m o r m') : Ongoing R Q m' := by
  obtain ⟨s, s', D, keys, clock, foreign, env, kept, he, stays, made, since, hs', aborted, live⟩ := h.call ho hr
  refine ⟨s', hs', aborted, ?_, fun ha => ?_⟩
  · rw [since]
    exact admitted _ _ rfl made
  · obtain ⟨hn, ha' | ⟨_, same⟩⟩ := stays
    · rw [ha] at ha'
      cases ha'
    · exact apart s s' hn same (kept (live ha))

/-- A part of the transaction that leaves alone what is known of it. -/
theorem Ongoing.uses {p : Program M α} (hp : p.Uses fun o => o.Inside T E ∧ Admitted R o) (apart : Apart T Q)
    (hpre : ∀ m o, o.Inside T E → pre m o) (h : Ongoing R Q m) : p.Holds Recalls pre (fun _ m' => Ongoing R Q m') m :=
  Prog.Uses.holds hp h (fun _ _ ho _ => hpre _ _ ho.1) fun _ _ _ _ ho hm hr => hm.keep apart ho.1 ho.2 hr

theorem ongoing_begin {A : Unit → Memory M → Prop} {B : DbError → Memory M → Prop} (hs : m.1 = none) (hR : R [])
    (hQ : ∀ now, Q (.start now)) (hpre : pre m .begin) (hok : ∀ m', Ongoing R Q m' → A () m')
    (herr : ∀ e m', m'.1 = none → B e m') : Tries Recalls pre A B (beginTx : Try M DbError Unit) m := by
  refine recalls_begin (l := []) ⟨hs, List.nil_prefix⟩ hpre (fun m' now hs' _ adds => hok m' ?_) fun e m' out _ => herr e m' out.1
  obtain ⟨xs, hl, hops, -⟩ := adds
  obtain ⟨x, rfl, hx⟩ := List.map_eq_singleton_iff.mp hops
  have since : sinceBegin m'.2 = [] := by
    rw [hl]
    exact sinceBegin_begin (by rw [hx]; rfl)
  exact ⟨_, hs', by rw [since]; rfl, by rw [since]; exact hR, fun _ => hQ now⟩

/-- A rejected call has aborted the transaction. -/
theorem Ongoing.rejected {xs : List (Exchange M)} {x : Exchange M} {s : Session M} (hs : m.1 = some s)
    (aborted : s.aborted = (sinceBegin m.2).any Exchange.rejected) (since : sinceBegin m.2 = xs ++ [x])
    (hx : x.rejected = true) (hR : R (xs ++ [x])) : Ongoing R (fun _ => False) m := by
  refine ⟨s, hs, aborted, by rw [since]; exact hR, fun live => ?_⟩
  rw [aborted, since, List.any_append] at live
  simp [hx] at live

theorem ongoing_query {stmt : M.Stmt} {ok : Snapshot M → Memory M → Prop} {err : DbError → Memory M → Prop}
    (h : Ongoing R Q m) (hR : ∀ xs x, x.op = .snapshot stmt → R xs → N (xs ++ [x])) (hpre : pre m (.snapshot stmt))
    (hok : ∀ m' s D keys, Q s → Ongoing N (fun s' => s' = s) m' → ok ⟨s.now, s.visible D, keys⟩ m')
    (herr : ∀ e m', Ongoing N (fun _ => False) m' → err e m') : Tries Recalls pre ok err (query stmt) m := by
  refine ⟨hpre, fun r m' hr => ?_⟩
  obtain ⟨s, s', D, keys, _, _, env, kept, he, _, made, since, hs', aborted, live⟩ :=
    h.call (o := .snapshot stmt) (T := fun _ => True) (E := fun _ => True) trivial hr
  have made' : ∀ r, N (sinceBegin m.2 ++ [⟨.snapshot stmt, env, r, D⟩]) := fun r => hR _ _ rfl made
  cases r with
  | error e => exact herr e m' (Ongoing.rejected hs' aborted since rfl (made' _))
  | ok snap =>
    rcases inTx_cases (Option.some.inj he) with ⟨_, _, hr⟩ | ⟨_, _, _, _, hr⟩ | ⟨s₀, h₀, _, _, hr, hs₀⟩
    · cases hr
    · cases hr
    · cases h₀
      cases hr
      cases hs₀
      refine hok m' s D keys (kept (live ?_)) ⟨s, hs', aborted, by rw [since]; exact made' _, fun _ => rfl⟩
      assumption

theorem updateRow_ok {D : Rows M} {foreign : Bool} {tb : M.Tbl} {k : M.Key} {keep : Int → M.Row tb → Bool}
    {patch : Patch M tb} {s : Session M} {new : Option (M.Row tb)} (h : (updateRow D foreign tb k keep patch s).1 = .ok new) :
    (new = none ∧ ∀ old, foreign = false → s.visible D tb k = some old → keep s.now old = false) ∨
      ∃ old, s.visible D tb k = some old ∧ keep s.now old = true ∧ new = some (patch.apply s.now old) ∧
        (updateRow D foreign tb k keep patch s).2 = s.write D tb k (some (patch.apply s.now old)) := by
  unfold updateRow at h ⊢
  split at h
  next hf =>
    cases h
    exact Or.inl ⟨rfl, fun _ hf' => by rw [hf] at hf'; cases hf'⟩
  next hf =>
    split at h
    next hv =>
      cases h
      exact Or.inl ⟨rfl, fun _ _ hv' => by rw [hv] at hv'; cases hv'⟩
    next old hv =>
      split at h
      next hk =>
        split at h
        next => cases h
        next hst =>
          split at h
          next => cases h
          next href =>
            cases h
            exact Or.inr ⟨old, hv, hk, rfl, by simp [hf, hk, hst, href]⟩
      next hk =>
        cases h
        refine Or.inl ⟨rfl, fun old' _ hv' => ?_⟩
        rw [hv] at hv'
        cases hv'
        simpa using hk

theorem ongoing_update {stmt : M.Stmt} {tb : M.Tbl} {k : M.Key} {skip : Bool} {keep : Int → M.Row tb → Bool}
    {patch : Patch M tb} {N : Except DbError (Option (M.Row tb)) → List (Exchange M) → Prop}
    {ok : Option (M.Row tb) → Memory M → Prop} {err : DbError → Memory M → Prop} (h : Ongoing R Q m)
    (hR : ∀ xs env D r, R xs → N r (xs ++ [⟨.update stmt tb k skip keep patch, env, r, D⟩]))
    (hpre : pre m (.update stmt tb k skip keep patch))
    (hhit : ∀ m' s D old, Q s → s.visible D tb k = some old → keep s.now old = true →
      Ongoing (N (.ok (some (patch.apply s.now old)))) (fun s' => s' = s.write D tb k (some (patch.apply s.now old))) m' →
      ok (some (patch.apply s.now old)) m')
    (hmiss : ∀ m' s D, Q s → (∀ old, skip = false → s.visible D tb k = some old → keep s.now old = false) →
      Ongoing (N (.ok none)) (fun _ => True) m' → ok none m')
    (herr : ∀ e m', Ongoing (N (.error e)) (fun _ => False) m' → err e m') :
    Tries Recalls pre ok err (update stmt tb k skip keep patch) m := by
  refine ⟨hpre, fun r m' hr => ?_⟩
  obtain ⟨s, s', D, keys, _, foreign, env, kept, he, _, made, since, hs', aborted, live⟩ :=
    h.call (o := .update stmt tb k skip keep patch) (T := fun _ => True) (E := fun _ => True) trivial hr
  have made' := hR _ env D r made
  cases r with
  | error e => exact herr e m' (Ongoing.rejected hs' aborted since rfl made')
  | ok new =>
    rcases inTx_cases (Option.some.inj he) with ⟨_, _, hr⟩ | ⟨_, _, _, _, hr⟩ | ⟨s₀, h₀, alive, _, hr, hs₀⟩
    · cases hr
    · cases hr
    · cases h₀
      have next : ∀ Q' : Session M → Prop, Q' s' → Ongoing (N (.ok new)) Q' m' := fun Q' hq =>
        ⟨s', hs', aborted, by rw [since]; exact made', fun _ => hq⟩
      rcases updateRow_ok hr.symm with ⟨rfl, missed⟩ | ⟨old, hv, hk, rfl, hw⟩
      · exact hmiss m' s D (kept alive) (fun old hskip => missed old (by simp [hskip])) (next _ trivial)
      · exact hhit m' s D old (kept alive) hv hk (next _ ((Option.some.inj hs₀).trans hw))

end ongoing

theorem exec_commit {w : World M} {t : Nat} {s : Session M} (hs : w.sessions t = some s) (env : Env M) :
    ∃ w' r, w.exec t .commit env = some (w', r) ∧ Op.rejects .commit r = (s.aborted.not && env.fault) ∧
      w'.rows = if s.aborted || env.fault then w.rows else s.visible w.rows := by
  simp only [World.exec, World.blocked, Bool.false_eq_true, ↓reduceIte, Op.eval, Op.store, hs]
  by_cases h : (s.aborted.not && env.fault) = true
  · simp only [h, ↓reduceIte]
    exact ⟨_, _, rfl, rfl, rfl⟩
  · simp only [h]
    exact ⟨_, _, rfl, by simp [Op.rejects], rfl⟩

theorem exec_rollback (w : World M) (t : Nat) (env : Env M) :
    ∃ w', w.exec t .rollback env = some (w', ()) ∧ w'.rows = w.rows := ⟨_, rfl, rfl⟩

end TxLib

import Invokr.StoreMoves

namespace TxLib

variable {M : Model}

theorem World.exec_eq {w w' : World M} {t : Nat} {o : Op M} {env : Env M} {r : o.Reply}
    (h : w.exec t o env = some (w', r)) :
    w.blocked t env o = false ∧ ∃ s, o.eval w.rows w.keys w.clock (w.foreign t) env (w.sessions t) = some (r, s) ∧
      w' = { w with
        rows := o.store w.rows w.keys env (w.sessions t)
        keys := o.keysAfter w.keys env (w.sessions t)
        locks := World.relock w.locks t s
        sessions := Function.update w.sessions t s
        log := w.log ++ (o.entries w.rows (w.foreign t) env (w.sessions t)).map (Prod.mk t) } := by
  unfold World.exec at h
  split at h
  next => simp at h
  next hb =>
    split at h
    next => simp at h
    next r' s he =>
      simp only [Option.some.injEq, Prod.mk.injEq] at h
      obtain ⟨hw, hr⟩ := h
      subst hr
      exact ⟨by simpa using hb, s, he, hw.symm⟩

theorem updateRow_move {w : World M} {t : Nat} {keys : (tb : M.Tbl) → List M.Key} {s : Session M}
    {tb : M.Tbl} {k : M.Key} {skip : Bool} {keep : Int → M.Row tb → Bool} {patch : Patch M tb}
    (ha : s.aborted = false) (free : skip = false → w.foreign t tb k = false) :
    Move w t keys (some s) (some (updateRow w.rows (skip && w.foreign t tb k) tb k keep patch s).2) w.rows := by
  unfold updateRow
  split
  next => exact .stay _
  next hs =>
    have hf : w.foreign t tb k = false := by
      cases skip with
      | false => exact free rfl
      | true => simpa using hs
    split
    next => exact .stay _
    next r hv =>
      split
      next =>
        split
        next => exact .fail _
        next hst =>
          split
          next => exact .fail _
          next hr =>
            refine .write ha hf (.patch hv (patch.keeps k s.now r) (by simpa using hr)) (fun _ => by simp [hv]) ?_
            rintro r' ⟨⟩
            exact Or.inl (by simpa using hst)
      next =>
        refine .write ha hf (.lock hv) (fun _ => by simp [hv]) ?_
        rintro r' ⟨⟩
        exact Or.inr hv

theorem insertRow_move {w : World M} {t : Nat} {keys : (tb : M.Tbl) → List M.Key} {s : Session M}
    {fresh : M.Fresh} {tb : M.Tbl} {orIgnore : Bool} {build : M.Fresh → Int → M.Key × M.Row tb}
    (ha : s.aborted = false) (hf : M.plain tb = false → w.foreign t tb (build fresh s.now).1 = false)
    (free : ∀ k' ∈ w.keys tb, w.foreign t tb k' = true →
      collides tb (build fresh s.now).1 (build fresh s.now).2 k' (w.pending tb k') = false)
    (hk : (build fresh s.now).1 ∈ keys tb) :
    Move w t keys (some s) (some (insertRow w.rows w.keys fresh tb orIgnore build s).2) w.rows := by
  unfold insertRow
  simp only
  split
  next => exact .fail _
  next hp =>
    simp only [Bool.or_eq_true, not_or, Bool.not_eq_true] at hp
    have hst : M.storable tb (build fresh s.now).2 = true := by simpa using hp.2
    split
    next =>
      split
      next => exact .stay _
      next => exact .fail _
    next hc =>
      split
      next => exact .fail _
      next hr =>
        refine .write ha (hf hp.1) (.insert (by simpa using hc) free (by simpa using hr)) (fun _ => Or.inl hk) ?_
        rintro r' ⟨⟩
        exact Or.inl hst

/-- Every call is one of the moves. That the key of a new row is not another transaction's is an
invariant of the keys, so it is asked for here. -/
theorem World.exec_move {w w' : World M} {t : Nat} {o : Op M} {env : Env M} {r : o.Reply}
    (h : w.exec t o env = some (w', r))
    (keyed : ∀ (tb : M.Tbl) (k : M.Key), w.foreign t tb k = true → M.plain tb = false →
      k ∈ w.keys tb ∧ ∃ v, w.pending tb k = some v) :
    Move w t w'.keys (w.sessions t) (w'.sessions t) w'.rows := by
  obtain ⟨hb, s, he, hw⟩ := World.exec_eq h
  subst hw
  simp only [Function.update_self]
  generalize hs : w.sessions t = cur at he
  cases o with
  | ext e => cases he; exact .stay _
  | halt => cases he
  | begin =>
    cases cur with
    | some s₀ => cases he; exact .stay _
    | none =>
      simp only [Op.eval] at he
      split at he
      next => cases he; exact .stay _
      next => cases he; exact .start
  | snapshot stmt =>
    rcases inTx_cases (Option.some.inj he) with ⟨rfl, _⟩ | ⟨s₀, rfl, rfl, _⟩ | ⟨s₀, rfl, _, _, _, rfl⟩
    · exact .stay _
    · exact .fail _
    · exact .stay _
  | update stmt tb k skip keep patch =>
    rcases inTx_cases (Option.some.inj he) with ⟨rfl, _⟩ | ⟨s₀, rfl, rfl, _⟩ | ⟨s₀, rfl, ha, hf, _, rfl⟩
    · exact .stay _
    · exact .fail _
    · apply updateRow_move ha
      intro hskip
      simpa [World.blocked, World.live, hs, ha, hf, hskip] using hb
  | insert stmt tb orIgnore build =>
    rcases inTx_cases (Option.some.inj he) with ⟨rfl, _⟩ | ⟨s₀, rfl, rfl, _⟩ | ⟨s₀, rfl, ha, hf, _, rfl⟩
    · exact .stay _
    · exact .fail _
    · have free : ∀ k' ∈ w.keys tb, w.foreign t tb k' = true →
          collides tb (build env.fresh s₀.now).1 (build env.fresh s₀.now).2 k' (w.pending tb k') = false := by
        simpa [World.blocked, hs, ha, hf] using hb
      refine insertRow_move ha (fun hp => ?_) free (mem_addKey _ _ _)
      by_contra hfk
      obtain ⟨hmem, v, hv⟩ := keyed tb _ (by simpa using hfk) hp
      have hcol := free _ hmem (by simpa using hfk)
      simp [collides, hv] at hcol
  | put stmt tb k row =>
    rcases inTx_cases (Option.some.inj he) with ⟨rfl, _⟩ | ⟨s₀, rfl, rfl, _⟩ | ⟨s₀, rfl, ha, hf, _, rfl⟩
    · exact .stay _
    · exact .fail _
    · have free : w.foreign t tb k = false := by
        simpa [World.blocked, World.live, hs, ha, hf] using hb
      unfold putRow
      split
      next => exact .fail _
      next hp =>
        simp only [Bool.or_eq_true, Bool.not_eq_eq_eq_not, Bool.not_true, not_or, Bool.not_eq_false] at hp
        refine .write ha free (.plain hp.1) (fun _ => Or.inl (mem_addKey _ _ _)) ?_
        rintro r' ⟨⟩
        exact Or.inl hp.2
  | delete stmt tb k =>
    rcases inTx_cases (Option.some.inj he) with ⟨rfl, _⟩ | ⟨s₀, rfl, rfl, _⟩ | ⟨s₀, rfl, ha, hf, _, rfl⟩
    · exact .stay _
    · exact .fail _
    · have free : w.foreign t tb k = false := by
        simpa [World.blocked, World.live, hs, ha, hf] using hb
      unfold deleteRow
      split
      next => exact .fail _
      next hp =>
        split
        next => exact .write ha free (.plain (by simpa using hp)) (by simp) (by simp)
        next => exact .stay _
  | deleteNow stmt tb k =>
    cases cur with
    | some s₀ => cases he; exact .stay _
    | none =>
      simp only [Op.eval, Option.some.injEq] at he
      obtain ⟨hr, rfl⟩ := he
      simp only [Op.store]
      split
      next hd =>
        simp only [deleteNowReply] at hd
        split at hd
        next => simp at hd
        next hfault =>
          split at hd
          next => simp at hd
          next =>
            split at hd
            next => simp at hd
            next href =>
              have hb' := hb
              simp only [World.blocked, hfault, Bool.not_false, Bool.true_and, Bool.or_eq_false_iff,
                List.any_eq_false] at hb'
              refine .remove hb'.1 (by simpa using href) ?_
              intro tb' k' hk' r' hp
              have := hb'.2 tb' (M.mem_tables tb')
              simp only [List.any_eq_true, not_exists, not_and] at this
              have := this k' hk'
              simpa [hp] using this
      next => exact .stay _
  | commit =>
    cases cur with
    | none => cases he; exact .stay _
    | some s₀ =>
      simp only [Op.eval, Op.store] at he ⊢
      by_cases ha : s₀.aborted = true
      · simp only [ha, Bool.not_true, Bool.false_and, Bool.false_eq_true, ↓reduceIte, Option.some.injEq] at he
        obtain ⟨_, rfl⟩ := he
        simp only [ha, Bool.true_or, ↓reduceIte]
        exact .close _
      · simp only [Bool.not_eq_true] at ha
        by_cases hf : env.fault = true
        · simp only [ha, hf, Bool.not_false, Bool.true_and, ↓reduceIte, Option.some.injEq] at he
          obtain ⟨_, rfl⟩ := he
          simp only [hf, Bool.or_true, ↓reduceIte]
          exact .close _
        · simp only [Bool.not_eq_true] at hf
          simp only [ha, hf, Bool.not_false, Bool.and_false, Bool.false_eq_true, ↓reduceIte, Option.some.injEq] at he
          obtain ⟨_, rfl⟩ := he
          simp only [ha, hf, Bool.or_self, Bool.false_eq_true, ↓reduceIte]
          exact .commit ha
  | rollback =>
    cases he
    cases cur with
    | none => exact .stay _
    | some s₀ => exact .close _

end TxLib

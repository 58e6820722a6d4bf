import Invokr.Outline

namespace TxLib

variable {M : Model} {rely : World M → World M → Prop} {Inv : World M → Prop}
  {allow : World M → Nat → Env M → Op M → Prop} {t : Nat} {w₀ w' : World M}

/-- A world in which the thread has this transaction and history and may make the call. -/
structure Seen (rely : World M → World M → Prop) (Inv : World M → Prop)
    (allow : World M → Nat → Env M → Op M → Prop) (t : Nat) (w₀ : World M) (s : Option (Session M))
    (l : List (Entry M)) (o : Op M) (w : World M) (env : Env M) : Prop where
  later : rely w₀ w
  sound : Sound w
  inv : Inv w
  allow : allow w t env o
  session : w.sessions t = s
  history : w.history t = l

/-- The call ends with this transaction and changes no committed row. -/
def Lands (t : Nat) (w w' : World M) (s : Session M) (l : List (Entry M)) : Prop :=
  w'.view t = (some s, l) ∧ w'.rows = w.rows

/-- The thread's transaction is aborted. -/
def Broken (t : Nat) (w w' : World M) (l : List (Entry M)) : Prop := ∃ s, Lands t w w' s l ∧ s.aborted = true

theorem inTx_some {α : Type} {s : Session M} {s' : Option (Session M)} {env : Env M}
    {act : Session M → Except DbError α × Session M} {r : Except DbError α} (h : inTx (some s) env act = (r, s')) :
    (∃ e s₁, r = .error e ∧ s' = some s₁ ∧ s₁.aborted = true ∧ (s.aborted = true ∨ env.fault = true)) ∨
      (s.aborted = false ∧ env.fault = false ∧ r = (act s).1 ∧ s' = some (act s).2) := by
  unfold inTx at h
  simp only at h
  split at h
  next ha =>
    obtain ⟨hr, hs⟩ := Prod.mk.inj h
    exact Or.inl ⟨_, s, hr.symm, hs.symm, ha, Or.inl ha⟩
  next ha =>
    split at h
    next hf =>
      obtain ⟨hr, hs⟩ := Prod.mk.inj h
      exact Or.inl ⟨_, s.fail, hr.symm, hs.symm, rfl, Or.inr hf⟩
    next hf =>
      obtain ⟨hr, hs⟩ := Prod.mk.inj h
      exact Or.inr ⟨by simpa using ha, by simpa using hf, hr.symm, hs.symm⟩

theorem Local.eval {s : Option (Session M)} {l : List (Entry M)} {o : Op M} {r : o.Reply}
    (hv : w₀.view t = (s, l)) (h : Local rely Inv allow t w₀ o r w') :
    ∃ w env, Seen rely Inv allow t w₀ s l o w env ∧ w.blocked t env o = false ∧
      (w'.view t).2 = l ++ o.entries w.rows (w.foreign t) env s ∧ w'.rows = o.store w.rows w.keys env s ∧
      o.eval w.rows w.keys w.clock (w.foreign t) env s = some (r, (w'.view t).1) := by
  obtain ⟨w, env, later, hv', sound, inv, ha, he⟩ := h
  obtain ⟨hb, s', heval, hw⟩ := World.exec_eq he
  have hs : w.sessions t = s := congrArg Prod.fst (hv'.trans hv)
  have hl : w.history t = l := congrArg Prod.snd (hv'.trans hv)
  refine ⟨w, env, ⟨later, sound, inv, ha, hs, hl⟩, hb, ?_, ?_, ?_⟩
  · rw [World.exec_view he, hs, hl]
  · rw [hw, hs]
  · rw [← hs, heval, hw]
    simp [World.view]

theorem Lands.mk_of {w : World M} {s : Session M} {l : List (Entry M)} (hs : (w'.view t).1 = some s)
    (hl : (w'.view t).2 = l) (hr : w'.rows = w.rows) : Lands t w w' s l := ⟨Prod.ext hs hl, hr⟩

theorem Local.snapshot {s : Session M} {l : List (Entry M)} {stmt : M.Stmt} {r : Except DbError (Snapshot M)}
    (hv : w₀.view t = (some s, l)) (h : Local rely Inv allow t w₀ (.snapshot stmt) r w') :
    ∃ w env, Seen rely Inv allow t w₀ (some s) l (.snapshot stmt) w env ∧
      (((∃ e, r = .error e) ∧ Broken t w w' l ∧ (s.aborted = true ∨ env.fault = true)) ∨
        (s.aborted = false ∧ Lands t w w' s l ∧ r = .ok ⟨s.now, s.visible w.rows, w.keys⟩)) := by
  obtain ⟨w, env, seen, _, hl, hw, he⟩ := h.eval hv
  simp only [Op.entries, List.append_nil] at hl
  refine ⟨w, env, seen, ?_⟩
  rcases inTx_some (Option.some.inj he) with ⟨e, s₁, hr, hs, ha, hc⟩ | ⟨ha, _, hr, hs⟩
  · exact Or.inl ⟨⟨e, hr⟩, ⟨s₁, Lands.mk_of hs hl hw, ha⟩, hc⟩
  · exact Or.inr ⟨ha, Lands.mk_of hs hl hw, hr⟩

theorem Local.update {s : Session M} {l : List (Entry M)} {stmt : M.Stmt} {tb : M.Tbl} {k : M.Key} {skip : Bool}
    {keep : Int → M.Row tb → Bool} {patch : Patch M tb} {r : Except DbError (Option (M.Row tb))} (hv : w₀.view t = (some s, l))
    (h : Local rely Inv allow t w₀ (.update stmt tb k skip keep patch) r w') :
    ∃ w env, Seen rely Inv allow t w₀ (some s) l (.update stmt tb k skip keep patch) w env ∧
      (((∃ e, r = .error e) ∧ Broken t w w' l ∧ (s.aborted = true ∨ env.fault = true ∨
          ∃ old, s.visible w.rows tb k = some old ∧ keep s.now old = true ∧
            (M.storable tb (patch.apply s.now old) = false ∨
              refsVisible (s.visible w.rows) tb k (patch.apply s.now old) = false))) ∨
        (s.aborted = false ∧
          ((Lands t w w' s l ∧ r = .ok none ∧ ((skip = true ∧ w.foreign t tb k = true) ∨ s.visible w.rows tb k = none)) ∨
            ((skip = true → w.foreign t tb k = false) ∧ ∃ old, s.visible w.rows tb k = some old ∧
              ((keep s.now old = false ∧ r = .ok none ∧ Lands t w w' (s.write w.rows tb k (some old)) l) ∨
                (keep s.now old = true ∧ M.storable tb (patch.apply s.now old) = true ∧
                  r = .ok (some (patch.apply s.now old)) ∧
                  Lands t w w' (s.write w.rows tb k (some (patch.apply s.now old)))
                    (l ++ [.updated stmt tb k (s.baseOf w.rows tb k)]))))))) := by
  obtain ⟨w, env, seen, _, hl, hw, he⟩ := h.eval hv
  have heval := Option.some.inj he
  simp only [Op.entries, heval] at hl
  have hsome : ∀ x, r = .ok (some x) →
      (w'.view t).2 = l ++ [.updated stmt tb k (s.baseOf w.rows tb k)] := by
    rintro x rfl
    exact hl
  have hnone : (∀ x, r ≠ .ok (some x)) → (w'.view t).2 = l := by
    intro hr
    cases r with
    | error e => simpa using hl
    | ok x =>
      cases x with
      | none => simpa using hl
      | some x => exact absurd rfl (hr x)
  refine ⟨w, env, seen, ?_⟩
  rcases inTx_some heval with ⟨e, s₁, hr, hs, ha, hc⟩ | ⟨ha, _, hr, hs⟩
  · exact Or.inl ⟨⟨e, hr⟩, ⟨s₁, Lands.mk_of hs (hnone (by simp [hr])) hw, ha⟩, hc.imp_right Or.inl⟩
  · unfold updateRow at hr hs
    split at hr
    next hskip =>
      rw [if_pos hskip] at hs
      simp only [Bool.and_eq_true] at hskip
      exact Or.inr ⟨ha, Or.inl ⟨Lands.mk_of hs (hnone (by simp [hr])) hw, hr, Or.inl hskip⟩⟩
    next hskip =>
      rw [if_neg hskip] at hs
      have hfree : skip = true → w.foreign t tb k = false := by
        intro hsk
        simpa [hsk] using hskip
      split at hr
      next hv =>
        simp only [hv] at hs
        exact Or.inr ⟨ha, Or.inl ⟨Lands.mk_of hs (hnone (by simp [hr])) hw, hr, Or.inr hv⟩⟩
      next old hv =>
        simp only [hv] at hs
        split at hr
        next hk =>
          rw [if_pos hk] at hs
          split at hr
          next hst =>
            rw [if_pos hst] at hs
            exact Or.inl ⟨⟨_, hr⟩, ⟨_, Lands.mk_of hs (hnone (by simp [hr])) hw, rfl⟩,
              Or.inr (Or.inr ⟨old, hv, hk, Or.inl (by simpa using hst)⟩)⟩
          next hst =>
            rw [if_neg hst] at hs
            split at hr
            next href =>
              rw [if_pos href] at hs
              exact Or.inl ⟨⟨_, hr⟩, ⟨_, Lands.mk_of hs (hnone (by simp [hr])) hw, rfl⟩,
                Or.inr (Or.inr ⟨old, hv, hk, Or.inr (by simpa using href)⟩)⟩
            next href =>
              rw [if_neg href] at hs
              exact Or.inr ⟨ha, Or.inr ⟨hfree, old, hv, Or.inr ⟨hk, by simpa using hst, hr, Lands.mk_of hs (hsome _ hr) hw⟩⟩⟩
        next hk =>
          rw [if_neg hk] at hs
          exact Or.inr ⟨ha, Or.inr ⟨hfree, old, hv, Or.inl ⟨by simpa using hk, hr, Lands.mk_of hs (hnone (by simp [hr])) hw⟩⟩⟩

theorem Local.insert {s : Session M} {l : List (Entry M)} {stmt : M.Stmt} {tb : M.Tbl} {orIgnore : Bool}
    {build : M.Fresh → Int → M.Key × M.Row tb} {r : Except DbError (Option (M.Key × M.Row tb))} (hv : w₀.view t = (some s, l))
    (h : Local rely Inv allow t w₀ (.insert stmt tb orIgnore build) r w') :
    ∃ w env, Seen rely Inv allow t w₀ (some s) l (.insert stmt tb orIgnore build) w env ∧
      (((∃ e, r = .error e) ∧ Broken t w w' l ∧ (s.aborted = true ∨ env.fault = true ∨ M.plain tb = true ∨
          M.storable tb (build env.fresh s.now).2 = false ∨
          (orIgnore = false ∧ clash w.rows w.keys s tb (build env.fresh s.now).1 (build env.fresh s.now).2 = true) ∨
          refsVisible (s.visible w.rows) tb (build env.fresh s.now).1 (build env.fresh s.now).2 = false)) ∨
        (s.aborted = false ∧ env.fault = false ∧ M.storable tb (build env.fresh s.now).2 = true ∧
          ((Lands t w w' s l ∧ r = .ok none ∧ orIgnore = true ∧
              clash w.rows w.keys s tb (build env.fresh s.now).1 (build env.fresh s.now).2 = true) ∨
            (clash w.rows w.keys s tb (build env.fresh s.now).1 (build env.fresh s.now).2 = false ∧
              r = .ok (some (build env.fresh s.now)) ∧
              Lands t w w' (s.write w.rows tb (build env.fresh s.now).1 (some (build env.fresh s.now).2)) l)))) := by
  obtain ⟨w, env, seen, _, hl, hw, he⟩ := h.eval hv
  simp only [Op.entries, List.append_nil] at hl
  refine ⟨w, env, seen, ?_⟩
  rcases inTx_some (Option.some.inj he) with ⟨e, s₁, hr, hs, ha, hc⟩ | ⟨ha, hfault, hr, hs⟩
  · exact Or.inl ⟨⟨e, hr⟩, ⟨s₁, Lands.mk_of hs hl hw, ha⟩, hc.imp_right Or.inl⟩
  · unfold insertRow at hr hs
    simp only at hr hs
    split at hr
    next hp =>
      rw [if_pos hp] at hs
      simp only [Bool.or_eq_true, Bool.not_eq_eq_eq_not, Bool.not_true] at hp
      refine Or.inl ⟨⟨_, hr⟩, ⟨_, Lands.mk_of hs hl hw, rfl⟩, Or.inr (Or.inr ?_)⟩
      rcases hp with hp | hp
      · exact Or.inl hp
      · exact Or.inr (Or.inl hp)
    next hp =>
      rw [if_neg hp] at hs
      have hst : M.storable tb (build env.fresh s.now).2 = true := by
        simp only [Bool.or_eq_true, not_or] at hp
        simpa using hp.2
      split at hr
      next hc =>
        rw [if_pos hc] at hs
        split at hr
        next hi =>
          rw [if_pos hi] at hs
          exact Or.inr ⟨ha, hfault, hst, Or.inl ⟨Lands.mk_of hs hl hw, hr, hi, hc⟩⟩
        next hi =>
          rw [if_neg hi] at hs
          exact Or.inl ⟨⟨_, hr⟩, ⟨_, Lands.mk_of hs hl hw, rfl⟩,
            Or.inr (Or.inr (Or.inr (Or.inr (Or.inl ⟨by simpa using hi, hc⟩))))⟩
      next hc =>
        rw [if_neg hc] at hs
        split at hr
        next href =>
          rw [if_pos href] at hs
          exact Or.inl ⟨⟨_, hr⟩, ⟨_, Lands.mk_of hs hl hw, rfl⟩,
            Or.inr (Or.inr (Or.inr (Or.inr (Or.inr (by simpa using href)))))⟩
        next href =>
          rw [if_neg href] at hs
          exact Or.inr ⟨ha, hfault, hst, Or.inr ⟨by simpa using hc, hr, Lands.mk_of hs hl hw⟩⟩

theorem Local.put {s : Session M} {l : List (Entry M)} {stmt : M.Stmt} {tb : M.Tbl} {k : M.Key} {row : M.Row tb}
    {r : Except DbError Unit} (hv : w₀.view t = (some s, l)) (h : Local rely Inv allow t w₀ (.put stmt tb k row) r w') :
    ∃ w env, Seen rely Inv allow t w₀ (some s) l (.put stmt tb k row) w env ∧
      (((∃ e, r = .error e) ∧ Broken t w w' l ∧ (s.aborted = true ∨ env.fault = true ∨ M.plain tb = false ∨
          M.storable tb row = false)) ∨
        (s.aborted = false ∧ r = .ok () ∧ Lands t w w' (s.write w.rows tb k (some row)) l)) := by
  obtain ⟨w, env, seen, _, hl, hw, he⟩ := h.eval hv
  simp only [Op.entries, List.append_nil] at hl
  refine ⟨w, env, seen, ?_⟩
  rcases inTx_some (Option.some.inj he) with ⟨e, s₁, hr, hs, ha, hc⟩ | ⟨ha, _, hr, hs⟩
  · exact Or.inl ⟨⟨e, hr⟩, ⟨s₁, Lands.mk_of hs hl hw, ha⟩, hc.imp_right Or.inl⟩
  · unfold putRow at hr hs
    split at hr
    next hp =>
      rw [if_pos hp] at hs
      simp only [Bool.or_eq_true, Bool.not_eq_eq_eq_not, Bool.not_true] at hp
      exact Or.inl ⟨⟨_, hr⟩, ⟨_, Lands.mk_of hs hl hw, rfl⟩, Or.inr (Or.inr hp)⟩
    next hp =>
      rw [if_neg hp] at hs
      exact Or.inr ⟨ha, hr, Lands.mk_of hs hl hw⟩

theorem Local.delete {s : Session M} {l : List (Entry M)} {stmt : M.Stmt} {tb : M.Tbl} {k : M.Key}
    {r : Except DbError Bool} (hv : w₀.view t = (some s, l)) (h : Local rely Inv allow t w₀ (.delete stmt tb k) r w') :
    ∃ w env, Seen rely Inv allow t w₀ (some s) l (.delete stmt tb k) w env ∧
      (((∃ e, r = .error e) ∧ Broken t w w' l ∧ (s.aborted = true ∨ env.fault = true ∨ M.plain tb = false)) ∨
        (s.aborted = false ∧ ((r = .ok false ∧ Lands t w w' s l ∧ s.visible w.rows tb k = none) ∨
          (r = .ok true ∧ Lands t w w' (s.write w.rows tb k none) l)))) := by
  obtain ⟨w, env, seen, _, hl, hw, he⟩ := h.eval hv
  simp only [Op.entries, List.append_nil] at hl
  refine ⟨w, env, seen, ?_⟩
  rcases inTx_some (Option.some.inj he) with ⟨e, s₁, hr, hs, ha, hc⟩ | ⟨ha, _, hr, hs⟩
  · exact Or.inl ⟨⟨e, hr⟩, ⟨s₁, Lands.mk_of hs hl hw, ha⟩, hc.imp_right Or.inl⟩
  · unfold deleteRow at hr hs
    split at hr
    next hp =>
      rw [if_pos hp] at hs
      exact Or.inl ⟨⟨_, hr⟩, ⟨_, Lands.mk_of hs hl hw, rfl⟩, Or.inr (Or.inr (by simpa using hp))⟩
    next hp =>
      rw [if_neg hp] at hs
      split at hr
      next hv =>
        rw [if_pos hv] at hs
        exact Or.inr ⟨ha, Or.inr ⟨hr, Lands.mk_of hs hl hw⟩⟩
      next hv =>
        rw [if_neg hv] at hs
        exact Or.inr ⟨ha, Or.inl ⟨hr, Lands.mk_of hs hl hw, by simpa using hv⟩⟩

theorem Local.ext {s : Option (Session M)} {l : List (Entry M)} {e : M.Ext} {r : M.Answer e}
    (hv : w₀.view t = (s, l)) (h : Local rely Inv allow t w₀ (.ext e) r w') :
    ∃ w env, Seen rely Inv allow t w₀ s l (.ext e) w env ∧ r = env.answer e ∧
      w'.view t = (s, l ++ [.ext e r]) ∧ w'.rows = w.rows := by
  obtain ⟨w, env, seen, _, hl, hw, he⟩ := h.eval hv
  obtain ⟨hr, hs⟩ := Prod.mk.inj (Option.some.inj he)
  exact ⟨w, env, seen, hr.symm, Prod.ext hs.symm (hr ▸ hl), hw⟩

theorem Local.begin {l : List (Entry M)} {r : Except DbError Unit} (hv : w₀.view t = (none, l))
    (h : Local rely Inv allow t w₀ .begin r w') :
    ∃ w env, Seen rely Inv allow t w₀ none l .begin w env ∧ w'.rows = w.rows ∧
      ((∃ e, r = .error e ∧ env.fault = true ∧ w'.view t = (none, l)) ∨
        (r = .ok () ∧ w'.view t = (some (.start w.clock), l ++ [.begin w.rows]))) := by
  obtain ⟨w, env, seen, _, hl, hw, he⟩ := h.eval hv
  refine ⟨w, env, seen, hw, ?_⟩
  simp only [Op.eval] at he
  split at he
  next hf =>
    obtain ⟨hr, hs⟩ := Prod.mk.inj (Option.some.inj he)
    simp only [Op.entries, hf, ↓reduceIte, List.append_nil] at hl
    exact Or.inl ⟨_, hr.symm, hf, Prod.ext hs.symm hl⟩
  next hf =>
    obtain ⟨hr, hs⟩ := Prod.mk.inj (Option.some.inj he)
    simp only [Op.entries, hf, Bool.false_eq_true, ↓reduceIte] at hl
    exact Or.inr ⟨hr.symm, Prod.ext hs.symm hl⟩

theorem Local.commit {s : Session M} {l : List (Entry M)} {r : Except DbError Unit} (hv : w₀.view t = (some s, l))
    (h : Local rely Inv allow t w₀ .commit r w') :
    ∃ w env, Seen rely Inv allow t w₀ (some s) l .commit w env ∧
      ((w'.view t = (none, l ++ [.abort]) ∧ w'.rows = w.rows ∧
          ((s.aborted = true ∧ r = .ok ()) ∨ (env.fault = true ∧ ∃ e, r = .error e))) ∨
        (s.aborted = false ∧ r = .ok () ∧ w'.view t = (none, l ++ [.commit s]) ∧ w'.rows = s.visible w.rows)) := by
  obtain ⟨w, env, seen, _, hl, hw, he⟩ := h.eval hv
  refine ⟨w, env, seen, ?_⟩
  simp only [Op.eval, Op.entries, Op.store] at he hl hw
  by_cases ha : s.aborted = true
  · simp only [ha, Bool.not_true, Bool.false_and, Bool.false_eq_true, ↓reduceIte, Bool.true_or, Option.some.injEq]
      at he hl hw
    obtain ⟨hr, hs⟩ := Prod.mk.inj he
    exact Or.inl ⟨Prod.ext hs.symm hl, hw, Or.inl ⟨ha, hr.symm⟩⟩
  · simp only [Bool.not_eq_true] at ha
    by_cases hf : env.fault = true
    · simp only [ha, hf, Bool.not_false, Bool.and_true, ↓reduceIte, Bool.or_true, Option.some.injEq]
        at he hl hw
      obtain ⟨hr, hs⟩ := Prod.mk.inj he
      exact Or.inl ⟨Prod.ext hs.symm hl, hw, Or.inr ⟨hf, _, hr.symm⟩⟩
    · simp only [Bool.not_eq_true] at hf
      simp only [ha, hf, Bool.not_false, Bool.and_false, Bool.false_eq_true, ↓reduceIte, Bool.or_self,
        Option.some.injEq] at he hl hw
      obtain ⟨hr, hs⟩ := Prod.mk.inj he
      exact Or.inr ⟨ha, hr.symm, Prod.ext hs.symm hl, hw⟩

theorem Local.rollback {s : Session M} {l : List (Entry M)} {r : Unit} (hv : w₀.view t = (some s, l))
    (h : Local rely Inv allow t w₀ .rollback r w') :
    ∃ w env, Seen rely Inv allow t w₀ (some s) l .rollback w env ∧ w'.view t = (none, l ++ [.abort]) ∧
      w'.rows = w.rows := by
  obtain ⟨w, env, seen, _, hl, hw, he⟩ := h.eval hv
  exact ⟨w, env, seen, Prod.ext (Prod.mk.inj (Option.some.inj he)).2.symm hl, hw⟩

theorem Local.deleteNow {l : List (Entry M)} {stmt : M.Stmt} {tb : M.Tbl} {k : M.Key} {r : Except DbError Bool}
    (hv : w₀.view t = (none, l)) (h : Local rely Inv allow t w₀ (.deleteNow stmt tb k) r w') :
    ∃ w env, Seen rely Inv allow t w₀ none l (.deleteNow stmt tb k) w env ∧ w'.view t = (none, l) := by
  obtain ⟨w, env, seen, _, hl, _, he⟩ := h.eval hv
  simp only [Op.entries, List.append_nil] at hl
  exact ⟨w, env, seen, Prod.ext (Prod.mk.inj (Option.some.inj he)).2.symm hl⟩

end TxLib

import Invokr.Traces

namespace TxLib

variable {M : Model}

/-- How a call gives a row of the caller's transaction a version. -/
inductive Written (D : Rows M) (env : Env M) (s : Session M) : Op M → (tb : M.Tbl) → M.Key → Option (M.Row tb) → Prop where
  | patch {stmt : M.Stmt} {tb : M.Tbl} {k : M.Key} {skip : Bool} {keep : Int → M.Row tb → Bool} {patch : Patch M tb}
      {old : M.Row tb} (visible : s.visible D tb k = some old) :
      Written D env s (.update stmt tb k skip keep patch) tb k (some (patch.apply s.now old))
  | lock {stmt : M.Stmt} {tb : M.Tbl} {k : M.Key} {skip : Bool} {keep : Int → M.Row tb → Bool} {patch : Patch M tb}
      {old : M.Row tb} (visible : s.visible D tb k = some old) :
      Written D env s (.update stmt tb k skip keep patch) tb k (some old)
  | insert {stmt : M.Stmt} {tb : M.Tbl} {orIgnore : Bool}
      {build : M.Fresh → Int → M.Key × M.Row tb} (plain : M.plain tb = false)
      (free : s.visible D tb (build env.fresh s.now).1 = none)
      (refs : refsVisible (s.visible D) tb (build env.fresh s.now).1 (build env.fresh s.now).2 = true) :
      Written D env s (.insert stmt tb orIgnore build) tb (build env.fresh s.now).1 (some (build env.fresh s.now).2)
  | put {stmt : M.Stmt} {tb : M.Tbl} {k : M.Key} {row : M.Row tb} (plain : M.plain tb = true) :
      Written D env s (.put stmt tb k row) tb k (some row)
  | delete {stmt : M.Stmt} {tb : M.Tbl} {k : M.Key} (plain : M.plain tb = true) :
      Written D env s (.delete stmt tb k) tb k none

/-- What a call makes of an open transaction that stays open. -/
theorem World.exec_written {w w' : World M} {t : Nat} {o : Op M} {env : Env M} {r : o.Reply} (sound : Sound w)
    (he : w.exec t o env = some (w', r)) {s s' : Session M} (hs : w.sessions t = some s) (hs' : w'.sessions t = some s') :
    s' = s ∨ s' = s.fail ∨ ∃ tb k v, s' = s.write w.rows tb k v ∧ Written w.rows env s o tb k v := by
  obtain ⟨_, s₁, hev, hw⟩ := World.exec_eq he
  have h₁ : s₁ = some s' := by
    rw [hw] at hs'
    simpa using hs'
  subst h₁
  rw [hs] at hev
  cases o with
  | ext e =>
    cases hev
    exact Or.inl rfl
  | halt => cases hev
  | begin =>
    cases hev
    exact Or.inl rfl
  | snapshot stmt =>
    rcases inTx_cases (Option.some.inj hev) with ⟨h, _⟩ | ⟨s₀, h₀, h, _⟩ | ⟨s₀, h₀, _, _, _, h⟩
    · cases h
      exact Or.inl rfl
    · cases h₀
      cases h
      exact Or.inr (Or.inl rfl)
    · cases h₀
      cases h
      exact Or.inl rfl
  | update stmt tb k skip keep patch =>
    rcases inTx_cases (Option.some.inj hev) with ⟨h, _⟩ | ⟨s₀, h₀, h, _⟩ | ⟨s₀, h₀, _, _, _, h⟩
    · cases h
      exact Or.inl rfl
    · cases h₀
      cases h
      exact Or.inr (Or.inl rfl)
    · cases h₀
      obtain rfl := Option.some.inj h
      unfold updateRow
      split
      next => exact Or.inl rfl
      next =>
        split
        next => exact Or.inl rfl
        next old hv =>
          split
          next =>
            split
            next => exact Or.inr (Or.inl rfl)
            next =>
              split
              next => exact Or.inr (Or.inl rfl)
              next => exact Or.inr (Or.inr ⟨tb, k, _, rfl, .patch hv⟩)
          next => exact Or.inr (Or.inr ⟨tb, k, _, rfl, .lock hv⟩)
  | insert stmt tb orIgnore build =>
    rcases inTx_cases (Option.some.inj hev) with ⟨h, _⟩ | ⟨s₀, h₀, h, _⟩ | ⟨s₀, h₀, _, _, _, h⟩
    · cases h
      exact Or.inl rfl
    · cases h₀
      cases h
      exact Or.inr (Or.inl rfl)
    · cases h₀
      obtain rfl := Option.some.inj h
      simp only [insertRow]
      split
      next => exact Or.inr (Or.inl rfl)
      next hp =>
        simp only [Bool.or_eq_true, not_or, Bool.not_eq_true] at hp
        split
        next =>
          split
          next => exact Or.inl rfl
          next => exact Or.inr (Or.inl rfl)
        next hc =>
          split
          next => exact Or.inr (Or.inl rfl)
          next hr =>
            obtain ⟨hrow, hheld⟩ := sound.insert_new hs hp.1 (by simpa using hc)
            refine Or.inr (Or.inr ⟨tb, _, _, rfl, .insert hp.1 ?_ (by simpa using hr)⟩)
            simp [Session.visible, hheld, hrow]
  | put stmt tb k row =>
    rcases inTx_cases (Option.some.inj hev) with ⟨h, _⟩ | ⟨s₀, h₀, h, _⟩ | ⟨s₀, h₀, _, _, _, h⟩
    · cases h
      exact Or.inl rfl
    · cases h₀
      cases h
      exact Or.inr (Or.inl rfl)
    · cases h₀
      obtain rfl := Option.some.inj h
      unfold putRow
      split
      next => exact Or.inr (Or.inl rfl)
      next hp =>
        simp only [Bool.or_eq_true, not_or] at hp
        exact Or.inr (Or.inr ⟨tb, k, _, rfl, .put (by simpa using hp.1)⟩)
  | delete stmt tb k =>
    rcases inTx_cases (Option.some.inj hev) with ⟨h, _⟩ | ⟨s₀, h₀, h, _⟩ | ⟨s₀, h₀, _, _, _, h⟩
    · cases h
      exact Or.inl rfl
    · cases h₀
      cases h
      exact Or.inr (Or.inl rfl)
    · cases h₀
      obtain rfl := Option.some.inj h
      unfold deleteRow
      split
      next => exact Or.inr (Or.inl rfl)
      next hp =>
        split
        next => exact Or.inr (Or.inr ⟨tb, k, _, rfl, .delete (by simpa using hp)⟩)
        next => exact Or.inl rfl
  | deleteNow stmt tb k =>
    cases hev
    exact Or.inl rfl
  | commit =>
    simp only [Op.eval] at hev
    split at hev <;> cases hev
  | rollback => cases hev

/-- A call of an open transaction leaves it as it is, aborts it or writes one row. -/
theorem Recalls.written {m m' : Memory M} {o : Op M} {r : o.Reply} {T : M.Tbl → Prop} {E : M.Ext → Prop} {s : Session M}
    (h : Recalls m o r m') (hs : m.1 = some s) (ho : o.Inside T E) : ∃ s', m'.1 = some s' ∧
      (s' = s ∨ s' = s.fail ∨ ∃ D env tb k v, s' = s.write D tb k v ∧ Written D env s o tb k v) := by
  obtain ⟨w, t, env, w', sound, hw, he, rfl⟩ := h
  obtain ⟨_, s₁, hev, hw'⟩ := World.exec_eq he
  rw [hw, hs] at hev
  obtain ⟨s', rfl, _⟩ := ho.stays hev
  have hs' : w'.sessions t = some s' := by simp [hw']
  refine ⟨s', hs', ?_⟩
  rcases World.exec_written sound he (hw.trans hs) hs' with same | failed | ⟨tb, k, v, hv, written⟩
  · exact Or.inl same
  · exact Or.inr (Or.inl failed)
  · exact Or.inr (Or.inr ⟨w.rows, env, tb, k, v, hv, written⟩)

theorem store_deleteNow (D : Rows M) (keys : (tb : M.Tbl) → List M.Key) (env : Env M) (s : Option (Session M)) (stmt : M.Stmt)
    (tb : M.Tbl) (k : M.Key) : (Op.deleteNow stmt tb k).store D keys env s = D ∨
      (Op.deleteNow stmt tb k).store D keys env s = setAt D tb k none := by
  simp only [Op.store]
  generalize deleteNowReply D keys env tb k = reply
  cases s with
  | some s => exact Or.inl rfl
  | none =>
    cases reply with
    | error e => exact Or.inl rfl
    | ok found =>
      cases found with
      | false => exact Or.inl rfl
      | true => exact Or.inr rfl

/-- Rows of a table that copy a column of the row of another table which they refer to. -/
structure Copy (M : Model) where
  parent : M.Tbl
  child : M.Tbl
  Value : Type
  value : M.Row parent → Value
  copied : M.Row child → Value
  key : M.Key → M.Row child → M.Key
  refers : ∀ k r, (parent, key k r) ∈ M.refs child k r
  apart : child ≠ parent
  solidParent : M.plain parent = false
  solidChild : M.plain child = false

namespace Copy

variable (c : Copy M)

/-- Every copy is the value of the row referred to, which exists. -/
def Agrees (D : Rows M) : Prop :=
  ∀ k r, D c.child k = some r → ∃ p, D c.parent (c.key k r) = some p ∧ c.value p = c.copied r

/-- No row loses its value. -/
def Retains (D D' : Rows M) : Prop := ∀ k p, D c.parent k = some p → ∃ p', D' c.parent k = some p' ∧ c.value p' = c.value p

/-- The copies agree in the committed rows and in what each transaction sees. -/
structure Holds (w : World M) : Prop where
  rows : c.Agrees w.rows
  agrees : ∀ t s, w.sessions t = some s → c.Agrees (s.visible w.rows)
  retains : ∀ t s, w.sessions t = some s → c.Retains w.rows (s.visible w.rows)

/-- A call that patches neither values nor copies, and copies the value of the row it refers to. -/
structure Lawful (D : Rows M) (env : Env M) (s : Session M) (o : Op M) : Prop where
  value : ∀ stmt k skip keep patch, o = .update stmt c.parent k skip keep patch →
    ∀ now r, c.value (patch.apply now r) = c.value r
  copied : ∀ stmt k skip keep patch, o = .update stmt c.child k skip keep patch →
    ∀ now r, c.copied (patch.apply now r) = c.copied r ∧ c.key k (patch.apply now r) = c.key k r
  insert : ∀ stmt orIgnore build, o = .insert stmt c.child orIgnore build →
    ∀ p, s.visible D c.parent (c.key (build env.fresh s.now).1 (build env.fresh s.now).2) = some p →
      c.value p = c.copied (build env.fresh s.now).2

variable {c}

theorem retains_refl (D : Rows M) : c.Retains D D := fun _ p hp => ⟨p, hp, rfl⟩

theorem Retains.trans {D D' D'' : Rows M} (h : c.Retains D D') (h' : c.Retains D' D'') : c.Retains D D'' := by
  intro k p hp
  obtain ⟨p', hp', he⟩ := h k p hp
  obtain ⟨p'', hp'', he'⟩ := h' k p' hp'
  exact ⟨p'', hp'', he'.trans he⟩

theorem holds_empty : c.Holds (World.empty M) where
  rows k r h := by cases h
  agrees t s h := by cases h
  retains t s h := by cases h

end Copy

theorem Session.write_visible (s : Session M) (D : Rows M) (tb : M.Tbl) (k : M.Key) (v : Option (M.Row tb)) :
    (s.write D tb k v).visible D = setAt (s.visible D) tb k v := by
  funext tb' k'
  by_cases ht : tb' = tb
  · subst ht
    by_cases hk : k' = k
    · subst hk
      simp
    · rw [Session.write_visible_key s D v hk, setAt_key _ _ hk]
  · rw [Session.write_visible_tbl s D v ht, setAt_tbl _ _ ht]

namespace Copy

variable {c : Copy M} {w w' : World M} {t : Nat}

/-- A row of the parent table is written and keeps its value. -/
theorem agrees_parent {V : Rows M} {k : M.Key} {p : M.Row c.parent} (h : c.Agrees V)
    (same : ∀ p', V c.parent k = some p' → c.value p = c.value p') :
    c.Agrees (setAt V c.parent k (some p)) ∧ c.Retains V (setAt V c.parent k (some p)) := by
  refine ⟨fun k' r hr => ?_, fun k' p' hp' => ?_⟩
  · rw [setAt_tbl _ _ c.apart] at hr
    obtain ⟨p', hp', he⟩ := h k' r hr
    by_cases hk : c.key k' r = k
    · refine ⟨p, by rw [hk]; simp, ?_⟩
      exact (same p' (hk ▸ hp')).trans he
    · exact ⟨p', by rw [setAt_key _ _ hk]; exact hp', he⟩
  · by_cases hk : k' = k
    · subst hk
      exact ⟨p, by simp, same p' hp'⟩
    · exact ⟨p', by rw [setAt_key _ _ hk]; exact hp', rfl⟩

/-- A row of the child table is written with the value of the row it refers to. -/
theorem agrees_child {V : Rows M} {k : M.Key} {r : M.Row c.child} (h : c.Agrees V)
    (copies : ∃ p, V c.parent (c.key k r) = some p ∧ c.value p = c.copied r) :
    c.Agrees (setAt V c.child k (some r)) ∧ c.Retains V (setAt V c.child k (some r)) := by
  refine ⟨fun k' r' hr => ?_, fun k' p hp => ⟨p, by rw [setAt_tbl _ _ c.apart.symm]; exact hp, rfl⟩⟩
  rw [setAt_tbl _ _ c.apart.symm]
  by_cases hk : k' = k
  · subst hk
    simp only [setAt_same, Option.some.injEq] at hr
    subst hr
    exact copies
  · rw [setAt_key _ _ hk] at hr
    exact h k' r' hr

theorem agrees_other {V : Rows M} {tb : M.Tbl} {k : M.Key} {v : Option (M.Row tb)} (h : c.Agrees V)
    (hp : tb ≠ c.parent) (hc : tb ≠ c.child) : c.Agrees (setAt V tb k v) ∧ c.Retains V (setAt V tb k v) := by
  have parent : ∀ k', setAt V tb k v c.parent k' = V c.parent k' := fun k' => setAt_tbl V v hp.symm
  refine ⟨fun k' r hr => ?_, fun k' p hr => ⟨p, by rw [parent]; exact hr, rfl⟩⟩
  rw [setAt_tbl _ _ hc.symm] at hr
  rw [parent]
  exact h k' r hr

theorem agrees_plain {V : Rows M} {tb : M.Tbl} {k : M.Key} {v : Option (M.Row tb)} (h : c.Agrees V)
    (hplain : M.plain tb = true) : c.Agrees (setAt V tb k v) ∧ c.Retains V (setAt V tb k v) := by
  refine agrees_other h (fun he => ?_) fun he => ?_
  · rw [he, c.solidParent] at hplain
    cases hplain
  · rw [he, c.solidChild] at hplain
    cases hplain

/-- One call of an open transaction. -/
theorem written {env : Env M} {s : Session M} {o : Op M} {tb : M.Tbl} {k : M.Key} {v : Option (M.Row tb)} {D : Rows M}
    (hw : Written D env s o tb k v) (lawful : c.Lawful D env s o) (h : c.Agrees (s.visible D)) :
    c.Agrees (setAt (s.visible D) tb k v) ∧ c.Retains (s.visible D) (setAt (s.visible D) tb k v) := by
  cases hw with
  | @patch stmt tb k skip keep patch old hv =>
    by_cases hp : tb = c.parent
    · subst hp
      refine agrees_parent h fun p' hp' => ?_
      rw [hv] at hp'
      cases hp'
      exact lawful.value stmt k skip keep patch rfl _ _
    · by_cases hc : tb = c.child
      · subst hc
        obtain ⟨same, target⟩ := lawful.copied stmt k skip keep patch rfl s.now old
        obtain ⟨p, hr, he⟩ := h k old hv
        exact agrees_child h ⟨p, by rw [target]; exact hr, by rw [same]; exact he⟩
      · exact agrees_other h hp hc
  | @lock _ tb k _ _ _ old hv =>
    have same : setAt (s.visible D) tb k (some old) = s.visible D := by
      funext tb' k'
      rcases setAt_cases (s.visible D) tb k (some old) tb' k' with ⟨rfl, rfl, he⟩ | ⟨_, he⟩
      · rw [he]
        exact hv.symm
      · exact he
    rw [same]
    exact ⟨h, retains_refl _⟩
  | @insert stmt tb orIgnore build hplain free refs =>
    by_cases hp : tb = c.parent
    · subst hp
      refine agrees_parent h fun p' hp' => ?_
      rw [free] at hp'
      cases hp'
    · by_cases hc : tb = c.child
      · subst hc
        have there := List.all_eq_true.mp refs _ (c.refers (build env.fresh s.now).1 (build env.fresh s.now).2)
        obtain ⟨p, hr⟩ := Option.isSome_iff_exists.mp there
        exact agrees_child h ⟨p, hr, lawful.insert stmt orIgnore build rfl p hr⟩
      · exact agrees_other h hp hc
  | put hplain => exact agrees_plain h hplain
  | delete hplain => exact agrees_plain h hplain

/-- The others see what they saw when the committed rows stay as they are. -/
theorem Holds.still (h : c.Holds w) (rows : w'.rows = w.rows) (frame : ∀ u, u ≠ t → w'.sessions u = w.sessions u)
    (own : ∀ s, w'.sessions t = some s → c.Agrees (s.visible w.rows) ∧ c.Retains w.rows (s.visible w.rows)) :
    c.Holds w' where
  rows := by rw [rows]; exact h.rows
  agrees u s hs := by
    rw [rows]
    by_cases hu : u = t
    · subst hu
      exact (own s hs).1
    · exact h.agrees u s ((frame u hu).symm.trans hs)
  retains u s hs := by
    rw [rows]
    by_cases hu : u = t
    · subst hu
      exact (own s hs).2
    · exact h.retains u s ((frame u hu).symm.trans hs)

/-- A transaction commits: what the others see of its rows keeps its values. -/
theorem Holds.commit (h : c.Holds w) (sound : Sound w) {s : Session M} (hs : w.sessions t = some s)
    (rows : w'.rows = s.visible w.rows) (gone : w'.sessions t = none) (frame : ∀ u, u ≠ t → w'.sessions u = w.sessions u) :
    c.Holds w' := by
  have agrees := h.agrees t s hs
  -- a row that another transaction holds is none of the committed transaction's
  have foreign : ∀ {u : Nat} {s₁ : Session M} {tb : M.Tbl} {k : M.Key} {x : Held (M.Row tb)}, u ≠ t →
      w.sessions u = some s₁ → s₁.held tb k = some x → s.visible w.rows tb k = w.rows tb k := by
    intro u s₁ tb k x hu hs₁ hx
    unfold Session.visible
    split
    next y hy =>
      have hl := (sound.held u s₁ tb k x hs₁ hx).1
      rw [(sound.held t s tb k y hs hy).1] at hl
      exact absurd (Option.some.inj hl).symm hu
    next => rfl
  have sees : ∀ {u : Nat} {s₁ : Session M} {tb : M.Tbl} {k : M.Key}, u ≠ t → w.sessions u = some s₁ →
      (s₁.visible (s.visible w.rows) tb k = s₁.visible w.rows tb k ∧ s.visible w.rows tb k = w.rows tb k) ∨
        s₁.visible (s.visible w.rows) tb k = s.visible w.rows tb k := by
    intro u s₁ tb k hu hs₁
    cases hx : s₁.held tb k with
    | some x => exact Or.inl ⟨by simp [Session.visible, hx], foreign hu hs₁ hx⟩
    | none => exact Or.inr (by simp [Session.visible, hx])
  have other : ∀ u s₁, w'.sessions u = some s₁ → u ≠ t ∧ w.sessions u = some s₁ := by
    intro u s₁ h₁
    have hu : u ≠ t := by
      rintro rfl
      rw [gone] at h₁
      cases h₁
    exact ⟨hu, (frame u hu).symm.trans h₁⟩
  refine ⟨by rw [rows]; exact agrees, fun u s₁ h₁ k r hr => ?_, fun u s₁ h₁ k p hp => ?_⟩
  · obtain ⟨hu, hs₁⟩ := other u s₁ h₁
    rw [rows] at hr ⊢
    have find : ∀ p, s.visible w.rows c.parent (c.key k r) = some p → c.value p = c.copied r →
        ∃ p', s₁.visible (s.visible w.rows) c.parent (c.key k r) = some p' ∧ c.value p' = c.copied r := by
      intro p hp he
      rcases sees hu hs₁ with ⟨same, base⟩ | same
      · rw [base] at hp
        obtain ⟨p', hp', he'⟩ := h.retains u s₁ hs₁ _ p hp
        exact ⟨p', by rw [same]; exact hp', he'.trans he⟩
      · exact ⟨p, by rw [same]; exact hp, he⟩
    rcases sees hu hs₁ with ⟨same, _⟩ | same
    · rw [same] at hr
      obtain ⟨p, hp, he⟩ := h.agrees u s₁ hs₁ k r hr
      rcases sees hu hs₁ with ⟨same', _⟩ | same'
      · exact ⟨p, by rw [same']; exact hp, he⟩
      · cases hx : s₁.held c.parent (c.key k r) with
        | some x => exact ⟨p, by simpa [Session.visible, hx] using hp, he⟩
        | none =>
          have hD : w.rows c.parent (c.key k r) = some p := by simpa [Session.visible, hx] using hp
          obtain ⟨p', hp', he'⟩ := h.retains t s hs _ p hD
          exact ⟨p', by rw [same']; exact hp', he'.trans he⟩
    · rw [same] at hr
      obtain ⟨p, hp, he⟩ := agrees k r hr
      exact find p hp he
  · obtain ⟨hu, hs₁⟩ := other u s₁ h₁
    rw [rows] at hp ⊢
    rcases sees hu hs₁ with ⟨same, base⟩ | same
    · rw [base] at hp
      rw [same]
      exact h.retains u s₁ hs₁ k p hp
    · exact ⟨p, by rw [same]; exact hp, rfl⟩

/-- A row is removed that nothing refers to. -/
theorem Holds.remove (h : c.Holds w) {tb : M.Tbl} {k : M.Key}
    (free : ∀ u s, w.sessions u = some s → s.held tb k = none)
    (unreferenced : ∀ tb' k' r, w.Version tb' k' r → (tb, k) ∉ M.refs tb' k' r)
    (rows : w'.rows = setAt w.rows tb k none) (same : w'.sessions = w.sessions) : c.Holds w' := by
  have seen : ∀ u s, w.sessions u = some s → s.visible w'.rows = setAt (s.visible w.rows) tb k none := by
    intro u s hs
    rw [rows]
    funext tb' k'
    rcases setAt_cases (s.visible w.rows) tb k none tb' k' with ⟨rfl, rfl, he⟩ | ⟨hne, he⟩
    · simp [Session.visible, free u s hs]
    · rw [he]
      unfold Session.visible
      split
      next => rfl
      next =>
        rcases setAt_cases w.rows tb k none tb' k' with ⟨rfl, rfl, _⟩ | ⟨_, he'⟩
        · simp at hne
        · exact he'
  -- no row seen refers to the one that goes
  have agrees : ∀ V : Rows M, c.Agrees V → (∀ k' r, V c.child k' = some r → w.Version c.child k' r) →
      c.Agrees (setAt V tb k none) := by
    intro V hV version k' r hr
    have hr' : V c.child k' = some r := by
      rcases setAt_cases V tb k none c.child k' with ⟨hc, rfl, _⟩ | ⟨_, he⟩
      · subst hc
        simp at hr
      · rw [he] at hr
        exact hr
    obtain ⟨p, hp, he⟩ := hV k' r hr'
    refine ⟨p, ?_, he⟩
    rcases setAt_cases V tb k none c.parent (c.key k' r) with ⟨hc, hk, _⟩ | ⟨_, he'⟩
    · subst hc
      have := unreferenced c.child k' r (version k' r hr')
      rw [← hk] at this
      exact absurd (c.refers k' r) this
    · rw [he']
      exact hp
  refine ⟨?_, fun u s hs => ?_, fun u s hs => ?_⟩
  · rw [rows]
    exact agrees w.rows h.rows fun k' r hr => Or.inl hr
  · rw [same] at hs
    rw [seen u s hs]
    exact agrees _ (h.agrees u s hs) fun k' r hr => World.visible_version hs hr
  · rw [same] at hs
    rw [seen u s hs, rows]
    intro k' p hp
    rcases setAt_cases w.rows tb k none c.parent k' with ⟨hc, rfl, _⟩ | ⟨hne, he⟩
    · subst hc
      simp at hp
    · rw [he] at hp
      obtain ⟨p', hp', he'⟩ := h.retains u s hs k' p hp
      refine ⟨p', ?_, he'⟩
      rcases setAt_cases (s.visible w.rows) tb k none c.parent k' with ⟨hc, rfl, _⟩ | ⟨_, he''⟩
      · subst hc
        simp at hne
      · rw [he'']
        exact hp'

/-- One call keeps the copies where it is lawful. -/
theorem Holds.exec (h : c.Holds w) (sound : Sound w) {o : Op M} {env : Env M} {r : o.Reply}
    (he : w.exec t o env = some (w', r)) (lawful : ∀ s, w.sessions t = some s → c.Lawful w.rows env s o) : c.Holds w' := by
  have frame : ∀ u, u ≠ t → w'.sessions u = w.sessions u := fun u hu => World.exec_sessions_of_ne he hu
  have m := (sound.exec he).1
  generalize hcur : w.sessions t = cur at m
  generalize hnew : w'.sessions t = new at m
  generalize hrows : w'.rows = rows at m
  cases m with
  | stay =>
    refine h.still hrows frame fun s hs => ?_
    have hs' : w.sessions t = some s := hcur.trans (hnew.symm.trans hs)
    exact ⟨h.agrees t s hs', h.retains t s hs'⟩
  | start =>
    refine h.still hrows frame fun s hs => ?_
    rw [hnew] at hs
    cases hs
    exact ⟨h.rows, retains_refl _⟩
  | fail s₀ =>
    refine h.still hrows frame fun s hs => ?_
    rw [hnew] at hs
    cases hs
    exact ⟨h.rows, retains_refl _⟩
  | @write s₀ tb k v =>
    refine h.still hrows frame fun s hs => ?_
    rcases World.exec_written sound he hcur hs with rfl | rfl | ⟨tb', k', v', rfl, written⟩
    · exact ⟨h.agrees t _ hcur, h.retains t _ hcur⟩
    · exact ⟨h.rows, retains_refl _⟩
    · rw [Session.write_visible]
      obtain ⟨agrees, retains⟩ := Copy.written written (lawful s₀ hcur) (h.agrees t s₀ hcur)
      exact ⟨agrees, (h.retains t s₀ hcur).trans retains⟩
  | close =>
    refine h.still hrows frame fun s hs => ?_
    rw [hnew] at hs
    cases hs
  | commit ha => exact h.commit sound hcur hrows hnew frame
  | @remove tb k hf href hp =>
    refine h.remove (fun u s hs => ?_) (fun tb' k' r hv => ?_) hrows ?_
    · by_contra hh
      obtain ⟨x, hx⟩ := Option.ne_none_iff_exists'.mp hh
      have hl := (sound.held u s tb k x hs hx).1
      have hu : u ≠ t := by
        rintro rfl
        rw [hcur] at hs
        cases hs
      have := World.foreign_iff.mpr ⟨u, hu, hl⟩
      rw [hf] at this
      cases this
    · have hmem := sound.keyed tb' k' r hv
      rcases hv with hrow | hun
      · exact referenced_false href hmem hrow
      · exact hp tb' k' hmem r (sound.pending.mpr hun)
    · funext u
      by_cases hu : u = t
      · subst hu
        rw [hnew, hcur]
      · exact frame u hu

theorem Holds.kill (h : c.Holds w) (t : Nat) : c.Holds (w.kill t) := by
  refine h.still (t := t) rfl (fun u hu => congrArg Prod.fst (w.kill_view_of_ne hu)) fun s hs => ?_
  simp [World.kill] at hs

variable {S : System M} {p : Pool S}

/-- One action of a pool. -/
theorem Holds.act (h : c.Holds p.world) (sound : Sound p.world) (x : Action S)
    (lawful : ∀ t e req o s, x = .step t e → p.Makes t e req o → p.world.sessions t = some s →
      c.Lawful p.world.rows e s o) : c.Holds (p.act x).world := by
  have hacts := p.acts x
  generalize p.act x = p' at hacts ⊢
  cases hacts with
  | still rows sessions _ _ =>
    refine ⟨by rw [rows]; exact h.rows, fun t s hs => ?_, fun t s hs => ?_⟩
    · rw [rows]
      exact h.agrees t s (sessions ▸ hs)
    · rw [rows]
      exact h.retains t s (sessions ▸ hs)
  | @call t e th o next w r ht ha hp he =>
    have makes : p.Makes t e th.req o := ⟨Pool.next_of ht ha hp, by rw [he]; rfl⟩
    exact h.exec sound he fun s hs => lawful t e th.req o s rfl makes hs
  | stop => exact h.kill _

end Copy

end TxLib

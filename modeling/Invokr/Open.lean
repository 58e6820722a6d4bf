import Invokr.Tx

namespace TxLib

variable {M : Model}

/-- The history goes on in the same transaction. -/
def Entry.inside : Entry M → Bool
  | .commit _ | .abort => false
  | _ => true

/-- The history since the last commit or abort. -/
def current (l : List (Entry M)) : List (Entry M) := (l.reverse.takeWhile Entry.inside).reverse

theorem current_inside {l : List (Entry M)} {x : Entry M} (h : x.inside = true) :
    current (l ++ [x]) = current l ++ [x] := by
  simp [current, h]

theorem current_outside {l : List (Entry M)} {x : Entry M} (h : x.inside = false) : current (l ++ [x]) = [] := by
  simp [current, h]

/-- The thread's open transaction: its `now()`, its history, what is known of the committed rows,
and what the transaction holds. -/
def Open (t : Nat) (now : Int) (H : List (Entry M) → Prop) (K : Rows M → Prop) (Q : Session M → Prop)
    (w : World M) : Prop :=
  ∃ s l, w.view t = (some s, l) ∧ s.now = now ∧ H l ∧ K w.rows ∧ Q s

def Aborted (s : Session M) : Prop := s.aborted = true

/-- The transaction is aborted, which only happens if `T`, or it is open and satisfies `Q`. -/
def Unless (T : Prop) (Q : Session M → Prop) (s : Session M) : Prop :=
  (s.aborted = true ∧ T) ∨ (s.aborted = false ∧ Q s)

/-- The thread is between transactions. -/
def Idle (t : Nat) (H : List (Entry M) → Prop) (K : Rows M → Prop) (w : World M) : Prop :=
  ∃ l, w.view t = (none, l) ∧ H l ∧ K w.rows

/-- A transaction that has not written yet. -/
def Started (s : Session M) : Prop := s.aborted = false ∧ ∀ tb k, s.held tb k = none

/-- The calls of one transaction that write to no table outside `T`. -/
def Op.Inside (T : M.Tbl → Prop) (E : M.Ext → Prop) : Op M → Prop
  | .ext e => E e
  | .halt => True
  | .snapshot _ => True
  | .update _ tb _ _ _ _ => T tb
  | .insert _ tb _ _ => T tb
  | .put _ tb _ _ => T tb
  | .delete _ tb _ => T tb
  | _ => False

/-- The property does not look at what is held of the tables in `T`. -/
def Apart (T : M.Tbl → Prop) (Q : Session M → Prop) : Prop :=
  ∀ s s' : Session M, s'.now = s.now → (∀ tb, ¬T tb → s'.held tb = s.held tb) → Q s → Q s'

/-- The call stays in its transaction and writes to no table outside `T`. -/
def Stays (T : M.Tbl → Prop) (s s' : Session M) : Prop :=
  s'.now = s.now ∧ (s'.aborted = true ∨ (s'.aborted = s.aborted ∧ ∀ tb, ¬T tb → s'.held tb = s.held tb))

/-- What is known stays true as others move on. -/
def Stable (rely : World M → World M → Prop) (K : Rows M → Prop) : Prop :=
  ∀ w w', rely w w' → K w.rows → K w'.rows

/-- The row an `UPDATE` meets: the transaction's own version, or the committed one. -/
def Finds (D : Rows M) (s : Session M) (tb : M.Tbl) (k : M.Key) (base : Option (M.Row tb)) (old : M.Row tb) : Prop :=
  D tb k = base ∧ (s.held tb k = some ⟨base, some old⟩ ∨ (s.held tb k = none ∧ base = some old))

theorem Open.mono {t : Nat} {now : Int} {H H' : List (Entry M) → Prop} {K K' : Rows M → Prop}
    {Q Q' : Session M → Prop} {w : World M} (h : Open t now H K Q w) (hH : ∀ l, H l → H' l) (hK : ∀ D, K D → K' D)
    (hQ : ∀ s, s.now = now → Q s → Q' s) : Open t now H' K' Q' w := by
  obtain ⟨s, l, hv, hn, hl, hk, hq⟩ := h
  exact ⟨s, l, hv, hn, hH l hl, hK _ hk, hQ s hn hq⟩

theorem Idle.mono {t : Nat} {H H' : List (Entry M) → Prop} {K K' : Rows M → Prop} {w : World M}
    (h : Idle t H K w) (hH : ∀ l, H l → H' l) (hK : ∀ D, K D → K' D) : Idle t H' K' w := by
  obtain ⟨l, hv, hl, hk⟩ := h
  exact ⟨l, hv, hH l hl, hK _ hk⟩

theorem Sound.finds {w : World M} (sound : Sound w) {t : Nat} {s : Session M} (hs : w.sessions t = some s)
    {tb : M.Tbl} {k : M.Key} {old : M.Row tb} (h : s.visible w.rows tb k = some old) :
    Finds w.rows s tb k (s.baseOf w.rows tb k) old := by
  unfold Session.visible at h
  unfold Session.baseOf
  split at h
  next hd hh =>
    obtain ⟨base, new⟩ := hd
    simp only at h
    subst h
    exact ⟨(sound.held t s tb k _ hs hh).2, Or.inl hh⟩
  next hh => exact ⟨rfl, Or.inr ⟨hh, h⟩⟩

/-- A row that may be inserted is not there and is not held. -/
theorem Sound.insert_new {w : World M} (sound : Sound w) {t : Nat} {s : Session M} (hs : w.sessions t = some s)
    {tb : M.Tbl} {k : M.Key} {r : M.Row tb} (hp : M.plain tb = false) (h : clash w.rows w.keys s tb k r = false) :
    w.rows tb k = none ∧ s.held tb k = none := by
  have no : ∀ r', w.Version tb k r' → w.rows tb k = some r' ∨ s.visible w.rows tb k = some r' → False := by
    intro r' hv hor
    have hc := List.any_eq_false.mp h k (sound.keyed tb k r' hv)
    rcases hor with hr | hr
    · simp [hr, collides] at hc
    · simp [hr, collides] at hc
  constructor
  · cases hr : w.rows tb k with
    | none => rfl
    | some r' => exact (no r' (Or.inl hr) (Or.inl hr)).elim
  · cases hh : s.held tb k with
    | none => rfl
    | some hd =>
      obtain ⟨r', hr'⟩ := sound.kept t s tb k hd hs hh hp
      exact (no r' (Or.inr ⟨t, s, hd, hs, hh, hr'⟩) (Or.inr (by simp [Session.visible, hh, hr']))).elim

section rules

variable {rely : World M → World M → Prop} {Inv : World M → Prop} {allow : World M → Nat → Env M → Op M → Prop}
  {pre : World M → Op M → Prop} {t : Nat} {now : Int} {H : List (Entry M) → Prop} {K : Rows M → Prop}
  {Q : Session M → Prop} {w₀ : World M}

theorem Lands.open {w w' : World M} {s : Session M} {l : List (Entry M)} (h : Lands t w w' s l) (hn : s.now = now)
    (hl : H l) (hk : K w.rows) (hq : Q s) : Open t now H K Q w' :=
  ⟨s, l, h.1, hn, hl, by rw [h.2]; exact hk, hq⟩

/-- What a statement on the table `tb` makes of the open transaction. -/
def Keeps (tb : M.Tbl) (s s' : Session M) : Prop :=
  s'.now = s.now ∧ (s'.aborted = true ∨ (s'.aborted = s.aborted ∧ ∀ tb', tb' ≠ tb → s'.held tb' = s.held tb'))

theorem Keeps.refl (tb : M.Tbl) (s : Session M) : Keeps tb s s := ⟨rfl, Or.inr ⟨rfl, fun _ _ => rfl⟩⟩

theorem Keeps.fail (tb : M.Tbl) (s : Session M) : Keeps tb s s.fail := ⟨rfl, Or.inl rfl⟩

theorem Keeps.write (s : Session M) (D : Rows M) (tb : M.Tbl) (k : M.Key) (v : Option (M.Row tb)) :
    Keeps tb s (s.write D tb k v) :=
  ⟨rfl, Or.inr ⟨rfl, fun tb' h => by simp [Session.write, setAt, h]⟩⟩

theorem keeps_updateRow {D : Rows M} {foreign : Bool} {tb : M.Tbl} {k : M.Key} {keep : Int → M.Row tb → Bool}
    {patch : Patch M tb} (s : Session M) : Keeps tb s (updateRow D foreign tb k keep patch s).2 := by
  unfold updateRow
  split
  next => exact .refl tb s
  next =>
    split
    next => exact .refl tb s
    next =>
      split
      next =>
        split
        next => exact .fail tb s
        next =>
          split
          next => exact .fail tb s
          next => exact .write s D tb k _
      next => exact .write s D tb k _

theorem keeps_insertRow {D : Rows M} {keys : (tb : M.Tbl) → List M.Key} {fresh : M.Fresh} {tb : M.Tbl}
    {orIgnore : Bool} {build : M.Fresh → Int → M.Key × M.Row tb} (s : Session M) :
    Keeps tb s (insertRow D keys fresh tb orIgnore build s).2 := by
  unfold insertRow
  simp only
  split
  next => exact .fail tb s
  next =>
    split
    next =>
      split
      next => exact .refl tb s
      next => exact .fail tb s
    next =>
      split
      next => exact .fail tb s
      next => exact .write s D tb _ _

theorem keeps_putRow {D : Rows M} {tb : M.Tbl} {k : M.Key} {row : M.Row tb} (s : Session M) :
    Keeps tb s (putRow D tb k row s).2 := by
  unfold putRow
  split
  next => exact .fail tb s
  next => exact .write s D tb k _

theorem keeps_deleteRow {D : Rows M} {tb : M.Tbl} {k : M.Key} (s : Session M) :
    Keeps tb s (deleteRow D tb k s).2 := by
  unfold deleteRow
  split
  next => exact .fail tb s
  next =>
    split
    next => exact .write s D tb k _
    next => exact .refl tb s

theorem keeps_inTx {α : Type} {s : Session M} {s' : Option (Session M)} {env : Env M} {tb : M.Tbl}
    {act : Session M → Except DbError α × Session M} {r : Except DbError α} (keep : Keeps tb s (act s).2)
    (h : inTx (some s) env act = (r, s')) : ∃ s₁, s' = some s₁ ∧ Keeps tb s s₁ := by
  unfold inTx at h
  simp only at h
  split at h
  next =>
    cases h
    exact ⟨s, rfl, .refl tb s⟩
  next =>
    split at h
    next =>
      cases h
      exact ⟨s.fail, rfl, .fail tb s⟩
    next =>
      obtain ⟨_, hs⟩ := Prod.mk.inj h
      exact ⟨_, hs.symm, keep⟩

theorem Keeps.stays {T : M.Tbl → Prop} {tb : M.Tbl} {s s' : Session M} (h : Keeps tb s s') (ht : T tb) :
    Stays T s s' := by
  refine ⟨h.1, h.2.imp_right fun h' => ⟨h'.1, fun tb' hn => h'.2 tb' fun he => hn (he ▸ ht)⟩⟩

theorem Op.Inside.stays {T : M.Tbl → Prop} {E : M.Ext → Prop} {D : Rows M} {keys : (tb : M.Tbl) → List M.Key}
    {clock : Int} {foreign : (tb : M.Tbl) → M.Key → Bool} {env : Env M} {s : Session M} {s' : Option (Session M)}
    {o : Op M} {r : o.Reply} (ho : o.Inside T E) (h : o.eval D keys clock foreign env (some s) = some (r, s')) :
    ∃ s₁, s' = some s₁ ∧ Stays T s s₁ := by
  cases o with
  | ext e =>
    obtain ⟨_, hs⟩ := Prod.mk.inj (Option.some.inj h)
    exact ⟨s, hs.symm, rfl, Or.inr ⟨rfl, fun _ _ => rfl⟩⟩
  | snapshot stmt =>
    rcases inTx_cases (Option.some.inj h) with ⟨rfl, _⟩ | ⟨s₀, hs, rfl, _⟩ | ⟨s₀, hs, _, _, _, rfl⟩
    · exact ⟨s, rfl, rfl, Or.inr ⟨rfl, fun _ _ => rfl⟩⟩
    · cases hs
      exact ⟨s.fail, rfl, rfl, Or.inl rfl⟩
    · cases hs
      exact ⟨s, rfl, rfl, Or.inr ⟨rfl, fun _ _ => rfl⟩⟩
  | update stmt tb k skip keep patch =>
    obtain ⟨s₁, hs, hk⟩ := keeps_inTx (keeps_updateRow s) (Option.some.inj h)
    exact ⟨s₁, hs, hk.stays ho⟩
  | insert stmt tb orIgnore build =>
    obtain ⟨s₁, hs, hk⟩ := keeps_inTx (keeps_insertRow s) (Option.some.inj h)
    exact ⟨s₁, hs, hk.stays ho⟩
  | put stmt tb k row =>
    obtain ⟨s₁, hs, hk⟩ := keeps_inTx (keeps_putRow s) (Option.some.inj h)
    exact ⟨s₁, hs, hk.stays ho⟩
  | delete stmt tb k =>
    obtain ⟨s₁, hs, hk⟩ := keeps_inTx (keeps_deleteRow s) (Option.some.inj h)
    exact ⟨s₁, hs, hk.stays ho⟩
  | halt => cases h
  | _ => exact ho.elim

theorem Op.Inside.entries {T : M.Tbl → Prop} {E : M.Ext → Prop} {D : Rows M}
    {foreign : (tb : M.Tbl) → M.Key → Bool} {env : Env M} {s : Option (Session M)} {o : Op M} (ho : o.Inside T E) :
    ∀ x ∈ o.entries D foreign env s, x.inside = true := by
  cases o with
  | ext e => simp [Op.entries, Entry.inside]
  | update stmt tb k skip keep patch =>
    simp only [Op.entries]
    split <;> simp [Entry.inside]
  | begin => exact ho.elim
  | commit => exact ho.elim
  | rollback => exact ho.elim
  | _ => simp [Op.entries]

theorem Op.Inside.store {T : M.Tbl → Prop} {E : M.Ext → Prop} {D : Rows M} {keys : (tb : M.Tbl) → List M.Key}
    {env : Env M} {s : Option (Session M)} {o : Op M} (ho : o.Inside T E) : o.store D keys env s = D := by
  cases o with
  | commit => exact ho.elim
  | deleteNow => exact ho.elim
  | _ => rfl

/-- A call of a transaction leaves the transaction open, with its `now()`. -/
theorem Open.call {T : M.Tbl → Prop} {E : M.Ext → Prop} {o : Op M} {r : o.Reply} {w' : World M}
    (hK : Stable rely K) (hH : ∀ l x, x.inside = true → H l → H (l ++ [x])) (hQ : ∀ s s', Stays T s s' → Q s → Q s')
    (ho : o.Inside T E) (hw : Open t now H K Q w₀) (h : Local rely Inv allow t w₀ o r w') : Open t now H K Q w' := by
  obtain ⟨s, l, hv, hn, hl, hk, hq⟩ := hw
  obtain ⟨w, env, seen, _, hl', hrows, he⟩ := h.eval hv
  obtain ⟨s₁, hs₁, hst⟩ := ho.stays he
  refine ⟨s₁, (w'.view t).2, Prod.ext hs₁ rfl, hst.1.trans hn, ?_, ?_, hQ s s₁ hst hq⟩
  · rw [hl']
    have grow : ∀ xs : List (Entry M), (∀ x ∈ xs, x.inside = true) → ∀ l, H l → H (l ++ xs) := by
      intro xs
      induction xs with
      | nil => intro _ l h; simpa using h
      | cons x xs ih =>
        intro hx l h
        have := ih (fun y hy => hx y (List.mem_cons_of_mem _ hy)) _ (hH l x (hx x List.mem_cons_self) h)
        simpa using this
    exact grow _ ho.entries l hl
  · rw [hrows, ho.store]
    exact hK _ _ seen.later hk

/-- A program that stays in its transaction keeps what it does not write. -/
theorem Open.uses {α : Type} {p : Program M α} {T : M.Tbl → Prop} {E : M.Ext → Prop} (hp : p.Uses (Op.Inside T E))
    (hK : Stable rely K) (hH : ∀ l x, x.inside = true → H l → H (l ++ [x]))
    (hQ : ∀ s s', Stays T s s' → Q s → Q s') (hpre : ∀ w o, o.Inside T E → Open t now H K Q w → pre w o) (hw : Open t now H K Q w₀) :
    p.Holds (Local rely Inv allow t) pre (fun _ w' => Open t now H K Q w') w₀ :=
  hp.holds hw (fun w o ho h => hpre w o ho h) fun _ _ _ _ ho h hs => h.call hK hH hQ ho hs

end rules

end TxLib

import Invokr.Recall

namespace TxLib

variable {M : Model}

/-- The database has answered the call with an error. -/
def Op.rejects : (o : Op M) → o.Reply → Bool
  | .begin, .error _ => true
  | .snapshot _, .error _ => true
  | .update _ _ _ _ _ _, .error _ => true
  | .insert _ _ _ _, .error _ => true
  | .put _ _ _ _, .error _ => true
  | .delete _ _ _, .error _ => true
  | .deleteNow _ _ _, .error _ => true
  | .commit, .error _ => true
  | _, _ => false

def Exchange.rejected (x : Exchange M) : Bool := x.op.rejects x.reply

section aborts

variable {α : Type} {s s' : Session M} {env : Env M} {D : Rows M} {keys : (tb : M.Tbl) → List M.Key}

/-- A statement's own part aborts a sound transaction exactly where it ends in an error. -/
def Aborts (act : Session M → Except DbError α × Session M) : Prop :=
  ∀ s, s.aborted = false → (act s).2.aborted = (act s).1.isOk.not

theorem aborts_inTx {act : Session M → Except DbError α × Session M} (ha : Aborts act) {r : Except DbError α}
    (h : inTx (some s) env act = (r, some s')) : s'.aborted = (s.aborted || r.isOk.not) := by
  unfold inTx at h
  simp only at h
  split at h
  next hs =>
    cases h
    simp [hs, Except.isOk, Except.toBool]
  next hs =>
    split at h
    next =>
      cases h
      simp [Session.fail, Except.isOk, Except.toBool]
    next =>
      obtain ⟨rfl, hs'⟩ := Prod.mk.inj h
      cases hs'
      have live : s.aborted = false := by simpa using hs
      rw [ha s live, live, Bool.false_or]

theorem aborts_update {foreign : Bool} {tb : M.Tbl} {k : M.Key} {keep : Int → M.Row tb → Bool} {patch : Patch M tb} :
    Aborts (updateRow D foreign tb k keep patch) := by
  intro s hs
  unfold updateRow
  split
  next => exact hs
  next =>
    split
    next => exact hs
    next =>
      split
      next =>
        split
        next => rfl
        next =>
          split
          next => rfl
          next => exact hs
      next => exact hs

theorem aborts_insert {fresh : M.Fresh} {tb : M.Tbl} {orIgnore : Bool} {build : M.Fresh → Int → M.Key × M.Row tb} :
    Aborts (insertRow D keys fresh tb orIgnore build) := by
  intro s hs
  unfold insertRow
  simp only
  split
  next => rfl
  next =>
    split
    next =>
      split
      next => exact hs
      next => rfl
    next =>
      split
      next => rfl
      next => exact hs

theorem aborts_put {tb : M.Tbl} {k : M.Key} {row : M.Row tb} : Aborts (putRow D tb k row) := by
  intro s hs
  unfold putRow
  split
  next => rfl
  next => exact hs

theorem aborts_delete {tb : M.Tbl} {k : M.Key} : Aborts (deleteRow D tb k) := by
  intro s hs
  unfold deleteRow
  split
  next => rfl
  next =>
    split
    next => exact hs
    next => exact hs

/-- A call of a transaction aborts it exactly where the database answers with an error. -/
theorem Op.Inside.aborts {T : M.Tbl → Prop} {E : M.Ext → Prop} {clock : Int} {foreign : (tb : M.Tbl) → M.Key → Bool}
    {o : Op M} {r : o.Reply} (ho : o.Inside T E) (h : o.eval D keys clock foreign env (some s) = some (r, some s')) :
    s'.aborted = (s.aborted || o.rejects r) := by
  cases o with
  | ext e =>
    obtain ⟨-, hs⟩ := Prod.mk.inj (Option.some.inj h)
    cases hs
    simp [Op.rejects]
  | snapshot stmt =>
    have act : Aborts (M := M) fun s : Session M => ((.ok ⟨s.now, s.visible D, keys⟩ : Except DbError (Snapshot M)), s) :=
      fun s hs => hs
    rw [aborts_inTx act (Option.some.inj h)]
    cases r <;> rfl
  | update stmt tb k skip keep patch =>
    rw [aborts_inTx aborts_update (Option.some.inj h)]
    cases r <;> rfl
  | insert stmt tb orIgnore build =>
    rw [aborts_inTx aborts_insert (Option.some.inj h)]
    cases r <;> rfl
  | put stmt tb k row =>
    rw [aborts_inTx aborts_put (Option.some.inj h)]
    cases r <;> rfl
  | delete stmt tb k =>
    rw [aborts_inTx aborts_delete (Option.some.inj h)]
    cases r <;> rfl
  | halt => cases h
  | _ => exact ho.elim

end aborts

end TxLib

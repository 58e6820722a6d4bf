import Invokr.Calls

namespace TxLib

variable {M : Model}

/-- A program that may end in an error. -/
abbrev Try (M : Model) (ε α : Type) := ExceptT ε (Program M) α

def ext (e : M.Ext) : Program M (M.Answer e) := Prog.perform (Op.ext e)

def halt {α : Type} : Program M α := .call .halt Empty.elim

def query (stmt : M.Stmt) : Try M DbError (Snapshot M) := ExceptT.mk (Prog.perform (Op.snapshot stmt))

def update (stmt : M.Stmt) (tb : M.Tbl) (k : M.Key) (skipLocked : Bool) (keep : Int → M.Row tb → Bool)
    (patch : Patch M tb) : Try M DbError (Option (M.Row tb)) :=
  ExceptT.mk (Prog.perform (Op.update stmt tb k skipLocked keep patch))

def insert (stmt : M.Stmt) (tb : M.Tbl) (orIgnore : Bool) (build : M.Fresh → Int → M.Key × M.Row tb) :
    Try M DbError (Option (M.Key × M.Row tb)) :=
  ExceptT.mk (Prog.perform (Op.insert stmt tb orIgnore build))

def put (stmt : M.Stmt) (tb : M.Tbl) (k : M.Key) (row : M.Row tb) : Try M DbError Unit :=
  ExceptT.mk (Prog.perform (Op.put stmt tb k row))

def delete (stmt : M.Stmt) (tb : M.Tbl) (k : M.Key) : Try M DbError Bool :=
  ExceptT.mk (Prog.perform (Op.delete stmt tb k))

def deleteNow (stmt : M.Stmt) (tb : M.Tbl) (k : M.Key) : Try M DbError Bool :=
  ExceptT.mk (Prog.perform (Op.deleteNow stmt tb k))

def beginTx : Try M DbError Unit := ExceptT.mk (Prog.perform Op.begin)

def commitTx : Try M DbError Unit := ExceptT.mk (Prog.perform Op.commit)

def rollbackTx : Program M Unit := Prog.perform Op.rollback

/-- Run the body in a transaction of its own: commit it, or roll it back when the body fails. -/
def transaction {ε α : Type} (fromDb : DbError → ε) (body : Try M ε α) : Try M ε α := ExceptT.mk do
  match ← (beginTx : Try M DbError Unit).run with
  | .error e => return .error (fromDb e)
  | .ok () =>
    match ← body.run with
    | .error e => do
      rollbackTx
      return .error e
    | .ok a =>
      match ← (commitTx : Try M DbError Unit).run with
      | .error e => return .error (fromDb e)
      | .ok () => return .ok a

/-- The program meets its calls' preconditions and ends in `ok` or `err`. -/
def Tries {Op : Type} {Reply : Op → Type} {ε α L : Type} (step : L → (o : Op) → Reply o → L → Prop)
    (pre : L → Op → Prop) (ok : α → L → Prop) (err : ε → L → Prop) (x : ExceptT ε (Prog Op Reply) α) (l : L) : Prop :=
  x.run.Holds step pre (fun r l' => match r with
    | .ok a => ok a l'
    | .error e => err e l') l

section tries

variable {Op : Type} {Reply : Op → Type} {ε ε' α β L : Type} {step : L → (o : Op) → Reply o → L → Prop}
  {pre : L → Op → Prop} {ok : α → L → Prop} {err : ε → L → Prop} {l : L}

theorem tries_pure {a : α} (h : ok a l) : Tries step pre ok err (pure a : ExceptT ε (Prog Op Reply) α) l := h

theorem tries_throw {e : ε} (h : err e l) : Tries step pre ok err (throw e : ExceptT ε (Prog Op Reply) α) l := h

theorem tries_bind {x : ExceptT ε (Prog Op Reply) α} {f : α → ExceptT ε (Prog Op Reply) β} {ok : β → L → Prop}
    (h : Tries step pre (fun a l' => Tries step pre ok err (f a) l') err x l) :
    Tries step pre ok err (x >>= f) l := by
  unfold Tries at h ⊢
  rw [ExceptT.run_bind, Prog.holds_bind]
  refine h.mono fun r l' hr => ?_
  cases r with
  | ok a => exact hr
  | error e => exact hr

theorem tries_lift {p : Prog Op Reply α} (h : p.Holds step pre ok l) :
    Tries step pre ok err (liftM p : ExceptT ε (Prog Op Reply) α) l := by
  change (p >>= fun a => pure (Except.ok a) : Prog Op Reply (Except ε α)).Holds step pre _ l
  rw [Prog.holds_bind]
  exact h

theorem tries_adapt {f : ε' → ε} {x : ExceptT ε' (Prog Op Reply) α}
    (h : Tries step pre ok (fun e => err (f e)) x l) : Tries step pre ok err (ExceptT.adapt f x) l := by
  change (x.run >>= fun r => pure (Except.mapError f r)).Holds step pre _ l
  rw [Prog.holds_bind]
  refine Prog.Holds.mono h fun r l' hr => ?_
  cases r with
  | ok a => exact hr
  | error e => exact hr

theorem Tries.mono {ok' : α → L → Prop} {err' : ε → L → Prop} {x : ExceptT ε (Prog Op Reply) α}
    (h : Tries step pre ok err x l) (hok : ∀ a l', ok a l' → ok' a l') (herr : ∀ e l', err e l' → err' e l') :
    Tries step pre ok' err' x l := by
  refine Prog.Holds.mono h fun r l' hr => ?_
  cases r with
  | ok a => exact hok a l' hr
  | error e => exact herr e l' hr

theorem Tries.pre_mono {pre' : L → Op → Prop} {x : ExceptT ε (Prog Op Reply) α} (h : Tries step pre ok err x l)
    (weaker : ∀ l o, pre l o → pre' l o) : Tries step pre' ok err x l := Prog.Holds.pre_mono h weaker

/-- The outcome of a program looked at, as `match … .await` does. -/
theorem holds_run {x : ExceptT ε (Prog Op Reply) α} {f : Except ε α → Prog Op Reply β} {post : β → L → Prop}
    (h : Tries step pre (fun a l' => (f (.ok a)).Holds step pre post l')
      (fun e l' => (f (.error e)).Holds step pre post l') x l) : (x.run >>= f).Holds step pre post l := by
  rw [Prog.holds_bind]
  refine Prog.Holds.mono h fun r l' hr => ?_
  cases r with
  | ok a => exact hr
  | error e => exact hr

end tries

section rules

variable {ε α L : Type} {step : L → (o : Op M) → o.Reply → L → Prop} {pre : L → Op M → Prop}
  {ok : α → L → Prop} {err : ε → L → Prop} {l : L}

theorem tries_transaction {fromDb : DbError → ε} {body : Try M ε α}
    (h : Tries step pre
      (fun _ l₁ => Tries step pre
        (fun a l₂ => Tries step pre (fun _ l₃ => ok a l₃) (fun e l₃ => err (fromDb e) l₃) (commitTx : Try M DbError Unit) l₂)
        (fun e l₂ => rollbackTx.Holds step pre (fun _ l₃ => err e l₃) l₂) body l₁)
      (fun e l₁ => err (fromDb e) l₁) (beginTx : Try M DbError Unit) l) :
    Tries step pre ok err (transaction fromDb body) l := by
  refine holds_run (x := beginTx) (h.mono (fun _ l₁ h₁ => ?_) fun e l₁ h₁ => h₁)
  refine holds_run (x := body) (h₁.mono (fun a l₂ h₂ => ?_) fun e l₂ h₂ => ?_)
  · exact holds_run (x := commitTx) (h₂.mono (fun _ l₃ h₃ => h₃) fun e l₃ h₃ => h₃)
  · change (rollbackTx >>= fun _ => pure (Except.error e)).Holds step pre _ l₂
    rw [Prog.holds_bind]
    exact h₂

end rules

section uses

variable {ε ε' α β : Type} {p : Op M → Prop}

theorem uses_try_bind {Op : Type} {Reply : Op → Type} {p : Op → Prop} {x : ExceptT ε (Prog Op Reply) α}
    {f : α → ExceptT ε (Prog Op Reply) β} (hx : x.run.Uses p) (hf : ∀ a, (f a).run.Uses p) : (x >>= f).run.Uses p := by
  rw [ExceptT.run_bind]
  refine hx.bind fun r => ?_
  cases r with
  | ok a => exact hf a
  | error e => trivial

theorem uses_lift {q : Program M α} (h : q.Uses p) : (liftM q : Try M ε α).run.Uses p :=
  Prog.Uses.bind h fun _ => trivial

theorem uses_adapt {f : ε' → ε} {x : Try M ε' α} (h : x.run.Uses p) : (ExceptT.adapt f x).run.Uses p :=
  Prog.Uses.bind h fun _ => trivial

theorem uses_transaction {fromDb : DbError → ε} {body : Try M ε α} (hb : p .begin) (hc : p .commit) (hr : p .rollback)
    (h : body.run.Uses p) : (transaction fromDb body).run.Uses p := by
  refine Prog.Uses.bind (Prog.uses_perform.mpr hb) fun r => ?_
  cases r with
  | error e => trivial
  | ok _ =>
    refine h.bind fun r => ?_
    cases r with
    | error e => exact (Prog.uses_perform.mpr hr).bind fun _ => trivial
    | ok a =>
      refine Prog.Uses.bind (Prog.uses_perform.mpr hc) fun r => ?_
      cases r with
      | error e => trivial
      | ok _ => trivial

end uses

end TxLib

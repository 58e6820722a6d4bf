import Invokr.Service

namespace Invokr

open TxLib

/-- The predicate admits the calls that write nothing. -/
structure Neutral (p : Op Pg → Prop) : Prop where
  ext : ∀ e, (∀ d, e ≠ .dispatch d) → p (.ext e)
  halt : p .halt
  begin : p .begin
  snapshot : ∀ stmt, p (.snapshot stmt)
  commit : p .commit
  rollback : p .rollback

section uses

variable {p : Op Pg → Prop} {ε ε' α β : Type}

theorem uses_done (a : α) : (pure a : Try Pg ε α).run.Uses p := trivial

theorem uses_throw (e : ε) : (throw e : Try Pg ε α).run.Uses p := trivial

theorem uses_query (hp : Neutral p) (stmt : Statement) : (query (M := Pg) stmt).run.Uses p :=
  Prog.uses_perform.mpr (hp.snapshot stmt)

theorem uses_execute (hp : Neutral p) {db : DbContext} {x : Try Pg DbError α} (hx : x.run.Uses p) :
    (db.execute x).run.Uses p := by
  unfold DbContext.execute
  split
  next => exact hx
  next => exact uses_transaction hp.begin hp.commit hp.rollback hx

theorem uses_read (hp : Neutral p) {db : DbContext} {stmt : Statement} {f : Snapshot Pg → α} :
    (db.execute (do let snap ← query (M := Pg) stmt; return f snap)).run.Uses p :=
  uses_execute hp (uses_try_bind (uses_query hp stmt) fun _ => uses_done _)

theorem uses_updateOne {stmt : Statement} {tb : Table} {k : Key} {keep : Int → tb.Row → Bool}
    {patch : Patch Pg tb} (hs : p (.snapshot stmt)) (h : p (.update stmt tb k false keep patch)) :
    (updateOne stmt tb k keep patch).run.Uses p := by
  refine uses_try_bind (Prog.uses_perform.mpr hs) fun snap => ?_
  split
  next => exact uses_done _
  next =>
    split
    next => exact Prog.uses_perform.mpr h
    next => exact uses_done _

theorem uses_updateEach {stmt : Statement} {tb : Table} {keep : Int → tb.Row → Bool} {patch : Patch Pg tb}
    (h : ∀ k, p (.update stmt tb k false keep patch)) (ks : List Key) : (updateEach stmt tb keep patch ks).run.Uses p := by
  induction ks with
  | nil => exact uses_done _
  | cons k ks ih =>
    exact uses_try_bind (Prog.uses_perform.mpr (h k)) fun _ => uses_try_bind ih fun _ => uses_done _

theorem uses_updateWhere {stmt : Statement} {schemaName : String} {tb : Table}
    {keep : Int → tb.Row → Bool} {patch : Patch Pg tb} (hs : p (.snapshot stmt))
    (h : ∀ k, p (.update stmt tb k false keep patch)) : (updateWhere stmt schemaName tb keep patch).run.Uses p :=
  uses_try_bind (Prog.uses_perform.mpr hs) fun _ => uses_updateEach h _

theorem uses_insertOne {stmt : Statement} {tb : Table} {build : Uuid → Int → Key × tb.Row}
    (h : p (.insert stmt tb false build)) : (insertOne stmt tb build).run.Uses p := by
  refine uses_try_bind (Prog.uses_perform.mpr h) fun r => ?_
  split
  next => exact uses_done _
  next => exact uses_throw _

theorem uses_deleteNow {stmt : Statement} {tb : Table} {k : Key} (h : p (.deleteNow stmt tb k)) :
    (deleteNow (M := Pg) stmt tb k).run.Uses p := Prog.uses_perform.mpr h

/-- The check of a schema's name, which panics where it fails. -/
theorem uses_validated (hp : Neutral p) {c : Bool} {rest : Try Pg ε α} (hr : rest.run.Uses p) :
    (if c then ((halt (M := Pg) : Program Pg Unit) : Try Pg ε Unit) >>= fun _ => rest else rest).run.Uses p := by
  split
  next => exact uses_try_bind (uses_lift ⟨hp.halt, fun r => r.elim⟩) fun _ => hr
  next => exact hr

theorem uses_ext (hp : Neutral p) {e : External} (he : ∀ d, e ≠ .dispatch d) :
    (liftM (ext (M := Pg) e) : Try Pg ε (External.Answer e)).run.Uses p :=
  uses_lift (Prog.uses_perform.mpr (hp.ext e he))

theorem uses_scopedConnection (hp : Neutral p) (schemaName : String) : (scopedConnection schemaName).run.Uses p := by
  refine uses_validated hp (uses_try_bind (uses_ext hp fun _ h => by cases h) fun r => ?_)
  split
  next => exact uses_done _
  next => exact uses_throw _

theorem uses_scopedTransaction (hp : Neutral p) {schemaName : String} {body : Try Pg AppError α} (hb : body.run.Uses p) :
    (scopedTransaction schemaName body).run.Uses p :=
  uses_validated hp (uses_transaction hp.begin hp.commit hp.rollback hb)

/-- A read whose result decides between an error and the rest. -/
theorem uses_require {x : Try Pg ε α} {q : α → Bool} {e : ε} {rest : Try Pg ε β} (hx : x.run.Uses p)
    (hr : rest.run.Uses p) :
    (x >>= fun a => if q a = true then (throw e >>= fun _ : PUnit => rest) else rest).run.Uses p := by
  refine uses_try_bind hx fun a => ?_
  split
  next => exact uses_try_bind (uses_throw e) fun _ => hr
  next => exact hr

theorem uses_checked {c : Prop} [Decidable c] {e : ε} {rest : Try Pg ε β} (hr : rest.run.Uses p) :
    (if c then (throw e >>= fun _ : PUnit => rest) else rest).run.Uses p := by
  split
  next => exact uses_try_bind (uses_throw e) fun _ => hr
  next => exact hr

theorem uses_sometimes {c : Prop} [Decidable c] {x : Try Pg ε α} {rest : Try Pg ε β} (hx : x.run.Uses p)
    (hr : rest.run.Uses p) : (if c then (x >>= fun _ => rest) else rest).run.Uses p := by
  split
  next => exact uses_try_bind hx fun _ => hr
  next => exact hr

end uses

end Invokr

import Invokr.Prog
import Mathlib.Data.List.Basic

namespace TxLib

/-- The tables of a database, their unique indexes and foreign keys, and the calls a program makes
to anything else. A plain table has neither indexes nor foreign keys, in either direction. -/
structure Model where
  Tbl : Type
  Row : Tbl → Type
  Key : Type
  Index : Type
  Fresh : Type
  Stmt : Type
  Ext : Type
  Answer : Ext → Type
  decTbl : DecidableEq Tbl
  decKey : DecidableEq Key
  decIndex : DecidableEq Index
  tables : List Tbl
  mem_tables : ∀ tb, tb ∈ tables
  unique : (tb : Tbl) → Key → Row tb → Option Index
  refs : (tb : Tbl) → Key → Row tb → List (Tbl × Key)
  storable : (tb : Tbl) → Row tb → Bool
  plain : Tbl → Bool
  plain_unique : ∀ tb k r, plain tb = true → unique tb k r = none
  plain_refs : ∀ tb k r, plain tb = true → refs tb k r = []
  refs_plain : ∀ tb k r ref, ref ∈ refs tb k r → plain ref.1 = false

instance (M : Model) : DecidableEq M.Tbl := M.decTbl
instance (M : Model) : DecidableEq M.Key := M.decKey
instance (M : Model) : DecidableEq M.Index := M.decIndex

abbrev Rows (M : Model) := (tb : M.Tbl) → M.Key → Option (M.Row tb)

inductive DbError where
  | unique
  | foreignKey
  | rejected
  | aborted
  | closed
  deriving DecidableEq, Repr

def setAt {M : Model} {β : M.Tbl → Type} (f : (tb : M.Tbl) → M.Key → β tb) (tb : M.Tbl) (k : M.Key)
    (v : β tb) : (tb : M.Tbl) → M.Key → β tb :=
  Function.update f tb (Function.update (f tb) k v)

/-- A row a transaction has locked: the committed version it found and its own version. -/
structure Held (R : Type) where
  base : Option R
  new : Option R

structure Session (M : Model) where
  now : Int
  aborted : Bool
  held : (tb : M.Tbl) → M.Key → Option (Held (M.Row tb))

namespace Session

def start {M : Model} (now : Int) : Session M := ⟨now, false, fun _ _ => none⟩

def visible {M : Model} (s : Session M) (D : Rows M) : Rows M := fun tb k =>
  match s.held tb k with
  | some h => h.new
  | none => D tb k

def baseOf {M : Model} (s : Session M) (D : Rows M) (tb : M.Tbl) (k : M.Key) : Option (M.Row tb) :=
  match s.held tb k with
  | some h => h.base
  | none => D tb k

/-- Lock a row and give it a version; the version may be the one it had. -/
def write {M : Model} (s : Session M) (D : Rows M) (tb : M.Tbl) (k : M.Key) (v : Option (M.Row tb)) :
    Session M :=
  { s with held := setAt s.held tb k (some ⟨s.baseOf D tb k, v⟩) }

/-- A rejected statement aborts the transaction: its versions and locks are gone at once. -/
def fail {M : Model} (s : Session M) : Session M := { s with aborted := true, held := fun _ _ => none }

end Session

/-- What one statement sees: the versions visible at its start and its transaction's `now()`. -/
structure Snapshot (M : Model) where
  now : Int
  row : Rows M
  keys : (tb : M.Tbl) → List M.Key

/-- The `SET` list of an `UPDATE`; it leaves the columns of the unique index alone. -/
structure Patch (M : Model) (tb : M.Tbl) where
  apply : Int → M.Row tb → M.Row tb
  keeps : ∀ k now r, M.unique tb k (apply now r) = M.unique tb k r

inductive Op (M : Model) where
  | ext (e : M.Ext)
  | halt
  | begin
  | snapshot (stmt : M.Stmt)
  | update (stmt : M.Stmt) (tb : M.Tbl) (k : M.Key) (skipLocked : Bool) (keep : Int → M.Row tb → Bool)
      (patch : Patch M tb)
  | insert (stmt : M.Stmt) (tb : M.Tbl) (orIgnore : Bool) (build : M.Fresh → Int → M.Key × M.Row tb)
  | put (stmt : M.Stmt) (tb : M.Tbl) (k : M.Key) (row : M.Row tb)
  | delete (stmt : M.Stmt) (tb : M.Tbl) (k : M.Key)
  | deleteNow (stmt : M.Stmt) (tb : M.Tbl) (k : M.Key)
  | commit
  | rollback

def Op.Reply {M : Model} : Op M → Type
  | .ext e => M.Answer e
  | .halt => Empty
  | .begin => Except DbError Unit
  | .snapshot _ => Except DbError (Snapshot M)
  | .update _ tb _ _ _ _ => Except DbError (Option (M.Row tb))
  | .insert _ tb _ _ => Except DbError (Option (M.Key × M.Row tb))
  | .put _ _ _ _ => Except DbError Unit
  | .delete _ _ _ => Except DbError Bool
  | .deleteNow _ _ _ => Except DbError Bool
  | .commit => Except DbError Unit
  | .rollback => Unit

abbrev Program (M : Model) (α : Type) := Prog (Op M) Op.Reply α

/-- What the surroundings decide at one step: whether the statement is rejected for a reason of
their own, the identifier drawn, and the answer to a call outside the database. -/
structure Env (M : Model) where
  fault : Bool
  fresh : M.Fresh
  answer : (e : M.Ext) → M.Answer e

/-- One line of the history. It keeps the rows that were committed when a transaction began, and of
a row an `UPDATE` has patched the committed version. -/
inductive Entry (M : Model) where
  | ext (e : M.Ext) (r : M.Answer e)
  | begin (D : Rows M)
  | updated (stmt : M.Stmt) (tb : M.Tbl) (k : M.Key) (base : Option (M.Row tb))
  | commit (s : Session M)
  | abort

/-- Committed rows, the keys ever used, the row locks, the open transactions and the history. -/
structure World (M : Model) where
  clock : Int
  rows : Rows M
  keys : (tb : M.Tbl) → List M.Key
  locks : (tb : M.Tbl) → M.Key → Option Nat
  sessions : Nat → Option (Session M)
  log : List (Nat × Entry M)

section eval

variable {M : Model}

def refsVisible (D : Rows M) (tb : M.Tbl) (k : M.Key) (r : M.Row tb) : Bool :=
  (M.refs tb k r).all fun ref => (D ref.1 ref.2).isSome

/-- The version holds the same value of the table's unique index as the row to be inserted. -/
def collides (tb : M.Tbl) (k : M.Key) (r : M.Row tb) (k' : M.Key) (v : Option (M.Row tb)) : Bool :=
  match v with
  | none => false
  | some r' => k' = k || ((M.unique tb k r).isSome && M.unique tb k' r' = M.unique tb k r)

/-- The row collides with one that is committed or the transaction's own. -/
def clash (D : Rows M) (keys : (tb : M.Tbl) → List M.Key) (s : Session M) (tb : M.Tbl) (k : M.Key)
    (r : M.Row tb) : Bool :=
  (keys tb).any fun k' => collides tb k r k' (D tb k') || collides tb k r k' (s.visible D tb k')

/-- Run a statement in the open transaction, unless that is aborted already or the surroundings
reject it. -/
def inTx {α : Type} (s : Option (Session M)) (env : Env M)
    (act : Session M → Except DbError α × Session M) : Except DbError α × Option (Session M) :=
  match s with
  | none => (.error .closed, none)
  | some s =>
    if s.aborted then (.error .aborted, some s)
    else if env.fault then (.error .rejected, some s.fail)
    else ((act s).1, some (act s).2)

def updateRow (D : Rows M) (foreign : Bool) (tb : M.Tbl) (k : M.Key) (keep : Int → M.Row tb → Bool)
    (patch : Patch M tb) (s : Session M) : Except DbError (Option (M.Row tb)) × Session M :=
  if foreign then (.ok none, s)
  else
    match s.visible D tb k with
    | none => (.ok none, s)
    | some r =>
      if keep s.now r then
        if !M.storable tb (patch.apply s.now r) then (.error .rejected, s.fail)
        else if !refsVisible (s.visible D) tb k (patch.apply s.now r) then (.error .foreignKey, s.fail)
        else (.ok (some (patch.apply s.now r)), s.write D tb k (some (patch.apply s.now r)))
      else (.ok none, s.write D tb k (some r))

def insertRow (D : Rows M) (keys : (tb : M.Tbl) → List M.Key) (fresh : M.Fresh) (tb : M.Tbl)
    (orIgnore : Bool) (build : M.Fresh → Int → M.Key × M.Row tb) (s : Session M) :
    Except DbError (Option (M.Key × M.Row tb)) × Session M :=
  let new := build fresh s.now
  if M.plain tb || !M.storable tb new.2 then (.error .rejected, s.fail)
  else if clash D keys s tb new.1 new.2 then
    if orIgnore then (.ok none, s) else (.error .unique, s.fail)
  else if !refsVisible (s.visible D) tb new.1 new.2 then (.error .foreignKey, s.fail)
  else (.ok (some new), s.write D tb new.1 (some new.2))

def putRow (D : Rows M) (tb : M.Tbl) (k : M.Key) (row : M.Row tb) (s : Session M) :
    Except DbError Unit × Session M :=
  if !M.plain tb || !M.storable tb row then (.error .rejected, s.fail)
  else (.ok (), s.write D tb k (some row))

def deleteRow (D : Rows M) (tb : M.Tbl) (k : M.Key) (s : Session M) : Except DbError Bool × Session M :=
  if !M.plain tb then (.error .rejected, s.fail)
  else if (s.visible D tb k).isSome then (.ok true, s.write D tb k none)
  else (.ok false, s)

/-- Some committed row refers to the row. -/
def referenced (D : Rows M) (keys : (tb : M.Tbl) → List M.Key) (tb : M.Tbl) (k : M.Key) : Bool :=
  M.tables.any fun tb' => (keys tb').any fun k' =>
    match D tb' k' with
    | none => false
    | some r => (tb, k) ∈ M.refs tb' k' r

/-- The outcome of a statement run on its own, in a transaction that commits at once. -/
def deleteNowReply (D : Rows M) (keys : (tb : M.Tbl) → List M.Key) (env : Env M) (tb : M.Tbl) (k : M.Key) :
    Except DbError Bool :=
  if env.fault then .error .rejected
  else if (D tb k).isNone then .ok false
  else if referenced D keys tb k then .error .foreignKey
  else .ok true

/-- The reply to a call and the caller's transaction after it. -/
def Op.eval (D : Rows M) (keys : (tb : M.Tbl) → List M.Key) (clock : Int)
    (foreign : (tb : M.Tbl) → M.Key → Bool) (env : Env M) (s : Option (Session M)) :
    (o : Op M) → Option (o.Reply × Option (Session M))
  | .ext e => some (env.answer e, s)
  | .halt => none
  | .begin =>
    match s with
    | some s => some (.error .rejected, some s)
    | none => if env.fault then some (.error .rejected, none) else some (.ok (), some (.start clock))
  | .snapshot _ => some (inTx s env fun s => (.ok ⟨s.now, s.visible D, keys⟩, s))
  | .update _ tb k skipLocked keep patch =>
    some (inTx s env (updateRow D (skipLocked && foreign tb k) tb k keep patch))
  | .insert _ tb orIgnore build => some (inTx s env (insertRow D keys env.fresh tb orIgnore build))
  | .put _ tb k row => some (inTx s env (putRow D tb k row))
  | .delete _ tb k => some (inTx s env (deleteRow D tb k))
  | .deleteNow _ tb k =>
    match s with
    | some s => some (.error .rejected, some s)
    | none => some (deleteNowReply D keys env tb k, none)
  | .commit =>
    match s with
    | none => some (.error .closed, none)
    | some s => if !s.aborted && env.fault then some (.error .rejected, none) else some (.ok (), none)
  | .rollback => some ((), none)

/-- The committed rows after the call. -/
def Op.store (D : Rows M) (keys : (tb : M.Tbl) → List M.Key) (env : Env M) (s : Option (Session M)) :
    Op M → Rows M
  | .commit =>
    match s with
    | some s => if s.aborted || env.fault then D else s.visible D
    | none => D
  | .deleteNow _ tb k =>
    match s, deleteNowReply D keys env tb k with
    | none, .ok true => setAt D tb k none
    | _, _ => D
  | _ => D

/-- What the call adds to the history. -/
def Op.entries (D : Rows M) (foreign : (tb : M.Tbl) → M.Key → Bool) (env : Env M) (s : Option (Session M)) :
    Op M → List (Entry M)
  | .ext e => [.ext e (env.answer e)]
  | .begin =>
    match s with
    | some _ => []
    | none => if env.fault then [] else [.begin D]
  | .update stmt tb k skipLocked keep patch =>
    match inTx s env (updateRow D (skipLocked && foreign tb k) tb k keep patch), s with
    | (.ok (some _), _), some s => [.updated stmt tb k (s.baseOf D tb k)]
    | _, _ => []
  | .commit =>
    match s with
    | some s => if s.aborted || env.fault then [.abort] else [.commit s]
    | none => []
  | .rollback =>
    match s with
    | some _ => [.abort]
    | none => []
  | _ => []

def addKey (keys : (tb : M.Tbl) → List M.Key) (tb : M.Tbl) (k : M.Key) : (tb : M.Tbl) → List M.Key :=
  Function.update keys tb (if k ∈ keys tb then keys tb else keys tb ++ [k])

def Op.keysAfter (keys : (tb : M.Tbl) → List M.Key) (env : Env M) (s : Option (Session M)) :
    Op M → (tb : M.Tbl) → List M.Key
  | .insert _ tb _ build =>
    match s with
    | some s => addKey keys tb (build env.fresh s.now).1
    | none => keys
  | .put _ tb k _ => addKey keys tb k
  | _ => keys

end eval

namespace World

variable {M : Model}

def empty (M : Model) : World M := ⟨0, fun _ _ => none, fun _ => [], fun _ _ => none, fun _ => none, []⟩

def foreign (w : World M) (t : Nat) (tb : M.Tbl) (k : M.Key) : Bool :=
  match w.locks tb k with
  | none => false
  | some u => u ≠ t

/-- The uncommitted version of a row, if a transaction holds the row. -/
def pending (w : World M) (tb : M.Tbl) (k : M.Key) : Option (M.Row tb) :=
  match w.locks tb k with
  | none => none
  | some u => match w.sessions u with
    | none => none
    | some s => match s.held tb k with
      | none => none
      | some h => h.new

def live (w : World M) (t : Nat) : Bool :=
  match w.sessions t with
  | none => false
  | some s => !s.aborted

/-- The call has to wait for another transaction: for its row lock, for its uncommitted row in the
same unique index, or for its uncommitted reference to the row to be deleted. -/
def blocked (w : World M) (t : Nat) (env : Env M) : Op M → Bool
  | .update _ tb k skipLocked _ _ => !env.fault && w.live t && !skipLocked && w.foreign t tb k
  | .insert _ tb _ build =>
    match w.sessions t with
    | none => false
    | some s => !env.fault && !s.aborted && (w.keys tb).any fun k' => w.foreign t tb k' &&
        collides tb (build env.fresh s.now).1 (build env.fresh s.now).2 k' (w.pending tb k')
  | .put _ tb k _ => !env.fault && w.live t && w.foreign t tb k
  | .delete _ tb k => !env.fault && w.live t && w.foreign t tb k
  | .deleteNow _ tb k => !env.fault && (w.foreign t tb k || M.tables.any fun tb' => (w.keys tb').any fun k' =>
      match w.pending tb' k' with
      | none => false
      | some r => (tb, k) ∈ M.refs tb' k' r)
  | _ => false

def relock (locks : (tb : M.Tbl) → M.Key → Option Nat) (t : Nat) (s : Option (Session M)) :
    (tb : M.Tbl) → M.Key → Option Nat := fun tb k =>
  if (s.bind fun s => s.held tb k).isSome then some t
  else if locks tb k = some t then none
  else locks tb k

/-- One call of thread `t`; none while it has to wait. -/
def exec (w : World M) (t : Nat) (o : Op M) (env : Env M) : Option (World M × o.Reply) :=
  if w.blocked t env o then none
  else match o.eval w.rows w.keys w.clock (w.foreign t) env (w.sessions t) with
    | none => none
    | some (r, s) => some
      ({ w with
          rows := o.store w.rows w.keys env (w.sessions t)
          keys := o.keysAfter w.keys env (w.sessions t)
          locks := relock w.locks t s
          sessions := Function.update w.sessions t s
          log := w.log ++ (o.entries w.rows (w.foreign t) env (w.sessions t)).map (Prod.mk t) }, r)

/-- The thread is gone and its open transaction is rolled back. -/
def kill (w : World M) (t : Nat) : World M :=
  { w with
    locks := relock w.locks t none
    sessions := Function.update w.sessions t none
    log := w.log ++ (match w.sessions t with
      | none => []
      | some _ => [(t, .abort)]) }

end World

end TxLib

import Invokr.Alone

namespace TxLib

variable {M : Model} {S : System M} {α β : Type} {t : Nat}

/-- The calls of a transaction that only looks at the tables. -/
def Op.mute : Op M → Prop
  | .snapshot _ => True
  | .commit => True
  | .rollback => True
  | _ => False

def readsFit (F : Snapshot M → Prop) : (o : Op M) → o.Reply → Prop
  | .snapshot _, .ok snap => F snap
  | _, _ => True

/-- A program that writes nothing as long as the snapshots it takes satisfy `F`. -/
abbrev Barren (F : Snapshot M → Prop) (p : Program M α) : Prop :=
  p.Holds (fun (_ : Unit) o r _ => readsFit F o r) (fun _ o => o.mute) (fun _ _ => True) ()

/-- The two snapshots differ outside the table `T` only. -/
structure SameIn (T : M.Tbl) (snap snap' : Snapshot M) : Prop where
  now : snap'.now = snap.now
  row : snap'.row T = snap.row T
  keys : snap'.keys = snap.keys

/-- A program that writes to `T` alone and goes on alike after two snapshots, one with `F` and one
with `F'`, that agree on `T`. It may still part with itself before it writes (`clean`), but only
where neither part will write. -/
def Alike (T : M.Tbl) (F F' : Snapshot M → Prop) : Bool → Program M α → Prop
  | _, .ret _ => True
  | clean, .call (.snapshot _) next => (∀ e, Alike T F F' clean (next (.error e))) ∧
      ∀ snap snap', F snap → F' snap' → SameIn T snap snap' →
        (next (.ok snap') = next (.ok snap) ∧ Alike T F F' clean (next (.ok snap))) ∨
          (clean = true ∧ Barren F (next (.ok snap)) ∧ Barren F' (next (.ok snap')))
  | clean, .call .begin next => ∀ r, Alike T F F' clean (next r)
  | clean, .call .commit next => ∀ r, Alike T F F' clean (next r)
  | clean, .call .rollback next => ∀ r, Alike T F F' clean (next r)
  | _, .call (.insert _ tb _ _) next => tb = T ∧ ∀ r, Alike T F F' false (next r)
  | _, .call _ _ => False

section programs

variable {T : M.Tbl} {F F' : Snapshot M → Prop} {clean : Bool}

theorem Barren.bind {p : Program M α} {f : α → Program M β} (h : Barren F p) (hf : ∀ a, Barren F (f a)) :
    Barren F (p >>= f) :=
  Prog.holds_bind.mpr (Prog.Holds.mono h fun a _ _ => hf a)

theorem Alike.bind {p : Program M α} {f : α → Program M β} (h : Alike T F F' clean p)
    (hf : ∀ a clean, Alike T F F' clean (f a)) (barren : ∀ a, Barren F (f a)) (barren' : ∀ a, Barren F' (f a)) :
    Alike T F F' clean (p >>= f) := by
  change Alike T F F' clean (p.bind f)
  induction p generalizing clean with
  | ret a => exact hf a clean
  | call o next ih =>
    cases o with
    | snapshot stmt =>
      refine ⟨fun e => ih _ (h.1 e), fun snap snap' hF hF' same => ?_⟩
      rcases h.2 snap snap' hF hF' same with ⟨he, hn⟩ | ⟨hc, hb, hb'⟩
      · exact Or.inl ⟨congrArg (·.bind f) he, ih _ hn⟩
      · exact Or.inr ⟨hc, hb.bind barren, hb'.bind barren'⟩
    | begin => exact fun r => ih r (h r)
    | commit => exact fun r => ih r (h r)
    | rollback => exact fun r => ih r (h r)
    | insert stmt tb orIgnore build => exact ⟨h.1, fun r => ih r (h.2 r)⟩
    | _ => exact h.elim

theorem alike_transaction {ε : Type} {fromDb : DbError → ε} {body : Try M ε α} (h : Alike T F F' clean body.run) :
    Alike T F F' clean (transaction fromDb body).run := by
  intro r
  cases r with
  | error e => trivial
  | ok u =>
    refine h.bind (fun r b => ?_) (fun r => ?_) fun r => ?_
    all_goals cases r with
      | error e => ?_
      | ok a => ?_
    · exact fun _ => trivial
    · intro r
      cases r with
      | error e => trivial
      | ok u => trivial
    all_goals refine ⟨trivial, fun r l _ => ?_⟩
    all_goals first | trivial | (cases r <;> trivial)

end programs

section calls

variable {w w' : World M} {T : M.Tbl} {c : Int} {D : Rows M}

/-- The thread's transaction has written to nothing but `T`, and began at `c` or later. -/
def WritesOnly (T : M.Tbl) (c : Int) (s : Option (Session M)) : Prop :=
  ∀ s₁, s = some s₁ → c ≤ s₁.now ∧ ∀ tb, tb ≠ T → ∀ k, s₁.held tb k = none

/-- The thread's transaction has written nothing, and began at `c` or later. -/
def WritesNone (c : Int) (s : Option (Session M)) : Prop :=
  ∀ s₁, s = some s₁ → c ≤ s₁.now ∧ ∀ tb k, s₁.held tb k = none

theorem visible_of_held_none {s : Session M} {tb : M.Tbl} (h : ∀ k, s.held tb k = none) (D : Rows M) :
    s.visible D tb = D tb := by
  funext k
  simp [Session.visible, h k]

theorem Sound.relock_none (sound : Sound w) (h : WritesNone c (w.sessions t)) {s : Option (Session M)} (hs : WritesNone c s) :
    World.relock w.locks t s = w.locks := by
  funext tb k
  have free : (s.bind fun s => s.held tb k) = none := by
    cases s with
    | none => rfl
    | some s₁ => exact (hs s₁ rfl).2 tb k
  unfold World.relock
  rw [free]
  split
  next hn => cases hn
  next =>
    split
    next hl =>
      obtain ⟨s₁, x, hs₁, hx⟩ := sound.locked tb k t hl
      rw [(h s₁ hs₁).2 tb k] at hx
      cases hx
    next => rfl

/-- What a call leaves to the other threads: all but the caller's transaction. -/
structure Untouching (t : Nat) (w w' : World M) : Prop where
  sound : Sound w'
  clock : w'.clock = w.clock
  keys : w'.keys = w.keys
  locks : w'.locks = w.locks
  rows : w'.rows = w.rows
  others : ∀ u, u ≠ t → w'.sessions u = w.sessions u

/-- The snapshots of a transaction that has written nothing, of the rows `D` outside `T`. -/
abbrev Reads (T : M.Tbl) (c : Int) (D : Rows M) (snap : Snapshot M) : Prop := c ≤ snap.now ∧ ∀ tb, tb ≠ T → snap.row tb = D tb

theorem mute_eval {s s' : Option (Session M)} {o : Op M} {env : Env M} {r : o.Reply} (ho : o.mute) (h : WritesNone c s)
    (fixed : ∀ tb, tb ≠ T → w.rows tb = D tb)
    (he : o.eval w.rows w.keys w.clock (w.foreign t) env s = some (r, s')) :
    WritesNone c s' ∧ o.store w.rows w.keys env s = w.rows ∧ o.keysAfter w.keys env s = w.keys ∧ readsFit (Reads T c D) o r := by
  cases o with
  | snapshot stmt =>
    have heval := Option.some.inj he
    cases s with
    | none =>
      cases heval
      exact ⟨h, rfl, rfl, trivial⟩
    | some s =>
      rcases inTx_some heval with ⟨e, s₁, rfl, rfl, _⟩ | ⟨_, _, rfl, rfl⟩
      · refine ⟨?_, rfl, rfl, trivial⟩
        unfold inTx at heval
        simp only at heval
        split at heval
        next =>
          cases heval
          exact h
        next =>
          split at heval
          next =>
            cases heval
            intro s₂ hs₂
            cases hs₂
            exact ⟨(h s rfl).1, fun _ _ => rfl⟩
          next => cases heval
      · refine ⟨h, rfl, rfl, (h s rfl).1, fun tb ht => ?_⟩
        exact (visible_of_held_none ((h s rfl).2 tb) w.rows).trans (fixed tb ht)
  | commit =>
    have gone : s' = none := by
      cases s with
      | none => cases he; rfl
      | some s =>
        simp only [Op.eval] at he
        split at he
        next => cases he; rfl
        next => cases he; rfl
    subst gone
    refine ⟨fun s₁ hs₁ => (by cases hs₁), ?_, rfl, trivial⟩
    cases s with
    | none => rfl
    | some s =>
      simp only [Op.store]
      split
      next => rfl
      next => exact funext fun tb => visible_of_held_none ((h s rfl).2 tb) w.rows
  | rollback =>
    cases he
    exact ⟨fun s₁ hs₁ => (by cases hs₁), rfl, rfl, trivial⟩
  | _ => exact ho.elim

theorem mute_exec (sound : Sound w) (h : WritesNone c (w.sessions t)) {o : Op M} {env : Env M} {r : o.Reply} (ho : o.mute)
    (he : w.exec t o env = some (w', r)) (fixed : ∀ tb, tb ≠ T → w.rows tb = D tb) :
    Untouching t w w' ∧ WritesNone c (w'.sessions t) ∧ readsFit (Reads T c D) o r := by
  have sound' := (sound.exec he).2
  obtain ⟨_, s, heval, hw⟩ := World.exec_eq he
  have hs : w'.sessions t = s := by rw [hw]; exact Function.update_self ..
  obtain ⟨idle, rows, keys, fit⟩ := mute_eval ho h fixed heval
  refine ⟨⟨sound', by rw [hw], by rw [hw]; exact keys, ?_, by rw [hw]; exact rows, fun u hu => ?_⟩, hs ▸ idle, fit⟩
  · rw [hw]
    exact sound.relock_none h idle
  · rw [hw]
    exact Function.update_of_ne hu ..

end calls

section alike

variable {w w' : World M} {T : M.Tbl} {c : Int} {D D' : Rows M} {clean : Bool} {s : Option (Session M)}

/-- The rows of `T` refer to rows of other tables that are there on both sides or on neither. -/
def SameTargets (T : M.Tbl) (D D' : Rows M) : Prop :=
  ∀ k (r : M.Row T) ref, ref ∈ M.refs T k r → ref.1 ≠ T ∧ ∀ k', (D' ref.1 k').isSome = (D ref.1 k').isSome

/-- The two stores differ outside `T` only, and there they are `D` and `D'`. -/
structure Near (T : M.Tbl) (c : Int) (D D' : Rows M) (w w' : World M) : Prop where
  clock : w'.clock = w.clock
  late : c ≤ w.clock
  keys : w'.keys = w.keys
  locks : w'.locks = w.locks
  rows : w'.rows T = w.rows T
  fixed : ∀ tb, tb ≠ T → w.rows tb = D tb
  fixed' : ∀ tb, tb ≠ T → w'.rows tb = D' tb

/-- What a thread does next on the two sides. -/
def Continues (T : M.Tbl) (c : Int) (D D' : Rows M) (s : Option (Session M)) (q q' : Program M α) : Prop :=
  (q' = q ∧ ∃ clean, (clean = true → WritesNone c s) ∧ Alike T (Reads T c D) (Reads T c D') clean q) ∨
    (WritesNone c s ∧ Barren (Reads T c D) q ∧ Barren (Reads T c D') q')

theorem WritesNone.only (h : WritesNone c s) : WritesOnly T c s := fun s₁ hs => ⟨(h s₁ hs).1, fun tb _ => (h s₁ hs).2 tb⟩

theorem Near.visible (h : Near T c D D' w w') (s : Session M) : s.visible w'.rows T = s.visible w.rows T := by
  funext k
  unfold Session.visible
  rw [h.rows]

theorem Near.insertRow (h : Near T c D D' w w') (targets : SameTargets T D D') {s : Session M} (hs : WritesOnly T c (some s))
    (fresh : M.Fresh) (orIgnore : Bool) (build : M.Fresh → Int → M.Key × M.Row T) :
    insertRow w'.rows w'.keys fresh T orIgnore build s = insertRow w.rows w.keys fresh T orIgnore build s := by
  have refs : ∀ k r, refsVisible (s.visible w'.rows) T k r = refsVisible (s.visible w.rows) T k r := by
    intro k r
    unfold refsVisible
    refine Bool.eq_iff_iff.mpr ?_
    rw [List.all_eq_true, List.all_eq_true]
    refine forall_congr' fun ref => imp_congr_right fun hm => ?_
    obtain ⟨hne, hsome⟩ := targets k r ref hm
    have held := (hs s rfl).2 ref.1 hne
    rw [visible_of_held_none held, visible_of_held_none held, h.fixed _ hne, h.fixed' _ hne, hsome]
  have clashes : ∀ k r, clash w'.rows w'.keys s T k r = clash w.rows w.keys s T k r := by
    intro k r
    unfold clash
    rw [h.visible, h.rows, h.keys]
  have writes : ∀ k v, s.write w'.rows T k v = s.write w.rows T k v := by
    intro k v
    unfold Session.write Session.baseOf
    rw [h.rows]
  unfold TxLib.insertRow
  simp only [refs, clashes, writes]

theorem WritesOnly.write {s : Session M} (h : WritesOnly T c (some s)) {E : Rows M} {k : M.Key} {v : Option (M.Row T)} :
    WritesOnly T c (some (s.write E T k v)) := by
  intro s₁ hs₁
  cases hs₁
  refine ⟨(h s rfl).1, fun tb ht k' => ?_⟩
  rw [Session.write_held_tbl s E v ht]
  exact (h s rfl).2 tb ht k'

theorem WritesOnly.fail {s : Session M} (h : WritesOnly T c (some s)) : WritesNone c (some s.fail) := by
  intro s₁ hs₁
  cases hs₁
  exact ⟨(h s rfl).1, fun _ _ => rfl⟩

section inTx

variable {s : Session M} {env : Env M} {act : Session M → Except DbError α × Session M}

theorem inTx_aborted (h : s.aborted = true) : inTx (some s) env act = (.error .aborted, some s) := by
  simp only [inTx, if_pos h]

theorem inTx_fault (h : ¬s.aborted = true) (hf : env.fault = true) : inTx (some s) env act = (.error .rejected, some s.fail) := by
  simp only [inTx, if_neg h, if_pos hf]

theorem inTx_live (h : ¬s.aborted = true) (hf : ¬env.fault = true) : inTx (some s) env act = ((act s).1, some (act s).2) := by
  simp only [inTx, if_neg h, if_neg hf]

end inTx

theorem writesNone_none : WritesNone (M := M) c none := fun _ h => nomatch h

theorem insertRow_writesOnly {s : Session M} {E : Rows M} {keys : (tb : M.Tbl) → List M.Key} {fresh : M.Fresh} {orIgnore : Bool}
    {build : M.Fresh → Int → M.Key × M.Row T} (h : WritesOnly T c (some s)) :
    WritesOnly T c (some (insertRow E keys fresh T orIgnore build s).2) := by
  unfold insertRow
  dsimp only
  split
  next => exact h.fail.only
  next =>
    split
    next =>
      split
      next => exact h
      next => exact h.fail.only
    next =>
      split
      next => exact h.fail.only
      next => exact h.write

/-- What a call of a thread does on the two sides, to its transaction and to the rows. -/
structure Both (T : M.Tbl) (c : Int) (D D' : Rows M) (w w' : World M) (t : Nat) (env : Env M) (s : Option (Session M))
    (o : Op M) (next : o.Reply → Program M α) (r r' : o.Reply) (s' : Option (Session M)) : Prop where
  left : o.eval w.rows w.keys w.clock (w.foreign t) env s = some (r, s')
  right : o.eval w'.rows w'.keys w'.clock (w'.foreign t) env s = some (r', s')
  writes : WritesOnly T c s'
  continues : Continues T c D D' s' (next r) (next r')
  rows : o.store w'.rows w'.keys env s T = o.store w.rows w.keys env s T
  fixed : ∀ tb, tb ≠ T → o.store w.rows w.keys env s tb = w.rows tb
  fixed' : ∀ tb, tb ≠ T → o.store w'.rows w'.keys env s tb = w'.rows tb
  keys : o.keysAfter w'.keys env s = o.keysAfter w.keys env s

theorem alike_eval (h : Near T c D D' w w') (targets : SameTargets T D D') (hs : WritesOnly T c s)
    (hc : clean = true → WritesNone c s) {o : Op M} {next : o.Reply → Program M α}
    (ha : Alike T (Reads T c D) (Reads T c D') clean (.call o next)) (env : Env M) :
    ∃ r r' s', Both T c D D' w w' t env s o next r r' s' := by
  have foreign : w'.foreign t = w.foreign t := by
    funext tb k
    unfold World.foreign
    rw [h.locks]
  cases o with
  | snapshot stmt =>
    cases s with
    | none =>
      exact ⟨_, _, none, rfl, rfl, hs, Or.inl ⟨rfl, clean, hc, ha.1 .closed⟩, h.rows, fun _ _ => rfl, fun _ _ => rfl, h.keys⟩
    | some s =>
      by_cases hab : s.aborted = true
      · exact ⟨.error .aborted, .error .aborted, some s, congrArg some (inTx_aborted hab), congrArg some (inTx_aborted hab), hs,
          Or.inl ⟨rfl, clean, hc, ha.1 _⟩, h.rows, fun _ _ => rfl, fun _ _ => rfl, h.keys⟩
      · by_cases hf : env.fault = true
        · exact ⟨.error .rejected, .error .rejected, some s.fail, congrArg some (inTx_fault hab hf),
            congrArg some (inTx_fault hab hf), hs.fail.only, Or.inl ⟨rfl, clean, fun _ => hs.fail, ha.1 _⟩, h.rows,
            fun _ _ => rfl, fun _ _ => rfl, h.keys⟩
        · refine ⟨.ok ⟨s.now, s.visible w.rows, w.keys⟩, .ok ⟨s.now, s.visible w'.rows, w'.keys⟩, some s,
            congrArg some (inTx_live hab hf), congrArg some (inTx_live hab hf), hs, ?_, h.rows, fun _ _ => rfl, fun _ _ => rfl,
            h.keys⟩
          · have reads : Reads T c D ⟨s.now, s.visible w.rows, w.keys⟩ :=
              ⟨(hs s rfl).1, fun tb ht => (visible_of_held_none ((hs s rfl).2 tb ht) _).trans (h.fixed tb ht)⟩
            have reads' : Reads T c D' ⟨s.now, s.visible w'.rows, w'.keys⟩ :=
              ⟨(hs s rfl).1, fun tb ht => (visible_of_held_none ((hs s rfl).2 tb ht) _).trans (h.fixed' tb ht)⟩
            rcases ha.2 _ _ reads reads' ⟨rfl, h.visible s, h.keys⟩ with ⟨he, hn⟩ | ⟨hclean, hb, hb'⟩
            · exact Or.inl ⟨he, clean, hc, hn⟩
            · exact Or.inr ⟨hc hclean, hb, hb'⟩
  | begin =>
    cases s with
    | some s =>
      exact ⟨_, _, some s, rfl, rfl, hs, Or.inl ⟨rfl, clean, hc, ha _⟩, h.rows, fun _ _ => rfl, fun _ _ => rfl, h.keys⟩
    | none =>
      by_cases hf : env.fault = true
      · refine ⟨.error .rejected, .error .rejected, none, ?_, ?_, hs, Or.inl ⟨rfl, clean, hc, ha _⟩, h.rows,
          fun _ _ => rfl, fun _ _ => rfl, h.keys⟩
        · simp only [Op.eval, if_pos hf]
        · simp only [Op.eval, if_pos hf]
      · have started : WritesNone c (some (Session.start w.clock : Session M)) := by
          intro s₁ hs₁
          cases hs₁
          exact ⟨h.late, fun _ _ => rfl⟩
        refine ⟨.ok (), .ok (), some (.start w.clock), ?_, ?_, started.only, Or.inl ⟨rfl, clean, fun _ => started, ha _⟩, h.rows,
          fun _ _ => rfl, fun _ _ => rfl, h.keys⟩
        · simp only [Op.eval, if_neg hf]
        · simp only [Op.eval, if_neg hf, h.clock]
  | insert stmt tb orIgnore build =>
    obtain ⟨rfl, hn⟩ := ha
    have keys : Op.keysAfter w'.keys env s (.insert stmt tb orIgnore build) = Op.keysAfter w.keys env s (.insert stmt tb orIgnore build) := by
      rw [h.keys]
    cases s with
    | none =>
      exact ⟨_, _, none, rfl, rfl, hs, Or.inl ⟨rfl, false, Bool.noConfusion, hn _⟩, h.rows, fun _ _ => rfl, fun _ _ => rfl, keys⟩
    | some s =>
      have same := h.insertRow targets hs env.fresh orIgnore build
      by_cases hab : s.aborted = true
      · exact ⟨.error .aborted, .error .aborted, some s, congrArg some (inTx_aborted hab), congrArg some (inTx_aborted hab), hs,
          Or.inl ⟨rfl, false, Bool.noConfusion, hn _⟩, h.rows, fun _ _ => rfl, fun _ _ => rfl, keys⟩
      · by_cases hf : env.fault = true
        · exact ⟨.error .rejected, .error .rejected, some s.fail, congrArg some (inTx_fault hab hf),
            congrArg some (inTx_fault hab hf), hs.fail.only, Or.inl ⟨rfl, false, Bool.noConfusion, hn _⟩, h.rows,
            fun _ _ => rfl, fun _ _ => rfl, keys⟩
        · refine ⟨(insertRow w.rows w.keys env.fresh tb orIgnore build s).1, (insertRow w.rows w.keys env.fresh tb orIgnore build s).1,
            some (insertRow w.rows w.keys env.fresh tb orIgnore build s).2, congrArg some (inTx_live hab hf), ?_,
            insertRow_writesOnly hs, Or.inl ⟨rfl, false, Bool.noConfusion, hn _⟩, h.rows, fun _ _ => rfl, fun _ _ => rfl, keys⟩
          rw [← same]
          exact congrArg some (inTx_live hab hf)
  | commit =>
    cases s with
    | none =>
      exact ⟨_, _, none, rfl, rfl, hs, Or.inl ⟨rfl, clean, hc, ha _⟩, h.rows, fun _ _ => rfl, fun _ _ => rfl, h.keys⟩
    | some s =>
      have rows : Op.store w'.rows w'.keys env (some s) .commit T = Op.store w.rows w.keys env (some s) .commit T := by
        simp only [Op.store]
        split
        next => exact h.rows
        next => exact h.visible s
      have fixed : ∀ E keys tb, tb ≠ T → Op.store E keys env (some s) .commit tb = E tb := by
        intro E keys tb ht
        simp only [Op.store]
        split
        next => rfl
        next => exact visible_of_held_none ((hs s rfl).2 tb ht) E
      by_cases hf : (!s.aborted && env.fault) = true
      · refine ⟨.error .rejected, .error .rejected, none, ?_, ?_, writesNone_none.only,
          Or.inl ⟨rfl, clean, fun _ => writesNone_none, ha _⟩, rows, fixed _ _, fixed _ _, h.keys⟩
        · simp only [Op.eval, if_pos hf]
        · simp only [Op.eval, if_pos hf]
      · refine ⟨.ok (), .ok (), none, ?_, ?_, writesNone_none.only,
          Or.inl ⟨rfl, clean, fun _ => writesNone_none, ha _⟩, rows, fixed _ _, fixed _ _, h.keys⟩
        · simp only [Op.eval, if_neg hf]
        · simp only [Op.eval, if_neg hf]
  | rollback =>
    exact ⟨(), (), none, rfl, rfl, writesNone_none.only, Or.inl ⟨rfl, clean, fun _ => writesNone_none, ha _⟩, h.rows,
      fun _ _ => rfl, fun _ _ => rfl, h.keys⟩
  | _ => exact ha.elim

end alike

end TxLib

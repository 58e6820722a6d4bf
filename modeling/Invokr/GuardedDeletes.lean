import Invokr.Recollection
import Invokr.Spared
import Invokr.Runs

namespace Invokr

open TxLib

/-- The database was reachable and has rejected nothing for reasons of its own. -/
def Available (l : List (Exchange Pg)) : Prop :=
  ¬Harmed l ∧ ∀ x ∈ l, x.op = .ext .acquire → x.env.answer .acquire = true

theorem eq_of_map_once {α β : Type} {f : α → β} {l : List α} {u v : List β} {b : β}
    (h : l.map f = u ++ b :: v) (hb : b ∉ u) (ha : b ∉ v) {x y : α} (hx : x ∈ l) (hy : y ∈ l)
    (fx : f x = b) (fy : f y = b) : x = y := by
  obtain ⟨xs, ys, rfl, rfl, hrest⟩ := List.map_eq_append_iff.mp h
  obtain ⟨z, zs, rfl, rfl, rfl⟩ := List.map_eq_cons_iff.mp hrest
  have only : ∀ w ∈ xs ++ z :: zs, f w = f z → w = z := by
    intro w hw he
    rcases List.mem_append.mp hw with hw | hw
    · exact (hb (he ▸ List.mem_map_of_mem hw)).elim
    · rcases List.mem_cons.mp hw with rfl | hw
      · rfl
      · exact (ha (he ▸ List.mem_map_of_mem hw)).elim
  rw [only x hx fx, only y hy fy]

theorem matching_pos {D : Rows Pg} {keys : (tb : Table) → List Key} (keyed : Indexed (M := Pg) D keys) {schema : String}
    {tb : Table} {keep : Int → tb.Row → Bool} {now : Int} :
    (matching ⟨now, D, keys⟩ schema tb keep).length > 0 ↔ ∃ k r, D tb k = some r ∧ k.schema = schema ∧ keep now r = true := by
  rw [gt_iff_lt, List.length_pos_iff_exists_mem]
  constructor
  · rintro ⟨k, hk⟩
    obtain ⟨_, hk⟩ := List.mem_filter.mp hk
    obtain ⟨hs, hr⟩ := Bool.and_eq_true_iff.mp hk
    obtain ⟨r, hr, keep⟩ := (Option.any_eq_true _ _).mp hr
    exact ⟨k, r, hr, of_decide_eq_true hs, keep⟩
  · rintro ⟨k, r, hr, hs, keep⟩
    refine ⟨k, List.mem_filter.mpr ⟨keyed tb k r hr, ?_⟩⟩
    simp [hs, hr, keep]

/-- The calls of a delete that its guard refuses. -/
def guardCalls (guard : Statement) : List (Op Pg) := [.ext .acquire, .begin, .snapshot guard, .commit]

/-- How a delete with a guard ends, as seen from the calls it has made. -/
inductive Deletion (guard stmt : Statement) (tb : Table) (k : Key) (Used : Rows Pg → Prop) (inUse missing : AppError)
    (l : List (Exchange Pg)) : Except AppError Reply → Prop where
  | failed {e : DbError} (down : ¬Available l) : Deletion guard stmt tb k Used inUse missing l (.error (fromDb e))
  | inUse (up : Available l) (calls : l.map Exchange.op = guardCalls guard)
      (used : ∀ x ∈ l, x.op = .snapshot guard → Used x.rows) : Deletion guard stmt tb k Used inUse missing l (.error inUse)
  | deleted (up : Available l) (calls : l.map Exchange.op = guardCalls guard ++ [.deleteNow stmt tb k])
      (idle : ∀ x ∈ l, x.op = .snapshot guard → ¬Used x.rows)
      (free : ∀ x ∈ l, x.op = .deleteNow stmt tb k → x = ⟨.deleteNow stmt tb k, x.env, .ok true, x.rows⟩ ∧
        (x.rows tb k).isSome = true ∧ Unreferenced x.rows tb k) :
      Deletion guard stmt tb k Used inUse missing l (.ok .deleted)
  | missing (up : Available l) (calls : l.map Exchange.op = guardCalls guard ++ [.deleteNow stmt tb k])
      (idle : ∀ x ∈ l, x.op = .snapshot guard → ¬Used x.rows)
      (gone : ∀ x ∈ l, x.op = .deleteNow stmt tb k → x = ⟨.deleteNow stmt tb k, x.env, .ok false, x.rows⟩ ∧
        x.rows tb k = none) :
      Deletion guard stmt tb k Used inUse missing l (.error missing)
  | referenced {e : DbError} (up : Available l) (calls : l.map Exchange.op = guardCalls guard ++ [.deleteNow stmt tb k])
      (idle : ∀ x ∈ l, x.op = .snapshot guard → ¬Used x.rows)
      (held : ∀ x ∈ l, x.op = .deleteNow stmt tb k → (x.rows tb k).isSome = true ∧ ¬Unreferenced x.rows tb k) :
      Deletion guard stmt tb k Used inUse missing l (.error (fromDb e))

/-- The calls that a delete with a guard may make. -/
def Deleting (stmt : Statement) (tb : Table) (k : Key) : Op Pg → Prop
  | .update .. | .insert .. | .put .. | .delete .. => False
  | .deleteNow stmt' tb' k' => (Op.deleteNow stmt' tb' k' : Op Pg) = .deleteNow stmt tb k
  | _ => True

theorem Deleting.spares {stmt : Statement} {tb tb' : Table} {k : Key} {o : Op Pg} (h : Deleting stmt tb k o) :
    Spares (M := Pg) tb' o := by
  cases o <;> first | exact h.elim | trivial

section connect

variable {pre : Memory Pg → Op Pg → Prop} {m : Memory Pg}

theorem recalls_connect {schemaName : String} {ok : Unit → Memory Pg → Prop} {err : AppError → Memory Pg → Prop}
    (hw : m.1 = none) (halts : pre m .halt) (hpre : pre m (.ext .acquire))
    (hok : ∀ m' e D, m'.1 = none → m'.2 = m.2 ++ [⟨.ext .acquire, e, e.answer .acquire, D⟩] → e.answer .acquire = true →
      ok () m')
    (herr : ∀ m' e D, m'.1 = none → m'.2 = m.2 ++ [⟨.ext .acquire, e, e.answer .acquire, D⟩] → e.answer .acquire = false →
      err (fromDb .closed) m') :
    Tries Recalls pre ok err (scopedConnection schemaName) m := by
  have rest : Tries Recalls pre ok err (do
      let acquired : Bool ← (ext (M := Pg) .acquire : Program Pg Bool)
      if acquired then return () else throw (fromDb .closed) : Try Pg AppError Unit) m := by
    refine tries_bind (tries_lift (recalls_ext ⟨hw, List.prefix_refl _⟩ hpre fun D e m' out hmade => ?_))
    split
    next h => exact tries_pure (hok m' e D out.1 hmade h)
    next h => exact tries_throw (herr m' e D out.1 hmade (eq_false_of_ne_true h))
  unfold scopedConnection
  split
  next => exact tries_bind (tries_lift ⟨halts, fun r => r.elim⟩)
  next => exact rest

end connect

section delete

variable {guard stmt : Statement} {tb : Table} {k : Key} {Used : Rows Pg → Prop} {inUse missing : AppError}

theorem available_of {l : List (Exchange Pg)} {x : Exchange Pg} {ops : List (Op Pg)} {m : Memory Pg}
    (hm : m.2 = l) (first : ∃ D, x = ⟨.ext .acquire, x.env, x.env.answer .acquire, D⟩)
    (acquired : x.env.answer .acquire = true) (adds : Adds ops (none, [x]) m)
    (others : ∀ o ∈ ops, o ≠ .ext .acquire) : Available l ∧ l.map Exchange.op = .ext .acquire :: ops := by
  obtain ⟨D, hx⟩ := first
  have hop : x.op = .ext .acquire := by rw [hx]
  obtain ⟨xs, hxs, rfl, calm⟩ := adds
  rw [hxs] at hm
  subst hm
  refine ⟨⟨?_, fun y hy hop' => ?_⟩, by simp [hop]⟩
  · rintro ⟨y, hy, fault⟩
    rcases List.mem_append.mp hy with hy | hy
    · rw [List.mem_singleton.mp hy, Exchange.faulty, hop] at fault
      cases fault
    · rw [calm y hy] at fault
      cases fault
  · rcases List.mem_append.mp hy with hy | hy
    · rw [List.mem_singleton.mp hy]
      exact acquired
    · exact (others _ (List.mem_map_of_mem hy) hop').elim

theorem deletes_unused {schemaName : String} {c : DbContext} {depends : Snapshot Pg → Bool} (alone : c.inTx = false)
    (reads : ∀ now D keys, Indexed D keys → (depends ⟨now, D, keys⟩ = true ↔ Used D)) :
    Tries Recalls (fun _ o => Deleting stmt tb k o)
      (fun r m => Deletion guard stmt tb k Used inUse missing m.2 (.ok r))
      (fun e m => Deletion guard stmt tb k Used inUse missing m.2 (.error e))
      (deleteUnused schemaName (c.execute (do let snap ← query (M := Pg) guard; return depends snap))
        (deleteNow (M := Pg) stmt tb k) inUse missing) (none, []) := by
  refine tries_bind (recalls_connect rfl trivial trivial (fun m e D out hm acquired => ?_) fun m e D _ hm refused => ?_)
  · have first : ∃ D', (⟨.ext .acquire, e, e.answer .acquire, D⟩ : Exchange Pg) = ⟨.ext .acquire, e, e.answer .acquire, D'⟩ :=
      ⟨D, rfl⟩
    have made : m = (none, [⟨.ext .acquire, e, e.answer .acquire, D⟩]) := Prod.ext out hm
    subst made
    unfold DbContext.execute
    rw [alone]
    refine tries_bind (tries_adapt (recalls_read ⟨rfl, List.prefix_refl _⟩ (fun m' o _ ho => ?_)
      (fun m' now D₁ keys e₁ hm' adds keyed shown => ?_) fun e' m' _ harmed => .failed fun up => up.1 harmed))
    · cases o <;> trivial
    obtain ⟨up, calls⟩ := available_of rfl first acquired adds (by simp)
    have read : ∀ x ∈ m'.2, x.op = .snapshot guard → x.rows = D₁ := by
      intro x hx hop
      rw [eq_of_map_once (u := [.ext .acquire, .begin]) (v := [.commit]) calls (by simp) (by simp) hx shown hop rfl]
    refine tries_checked (fun idle => ?_) fun used => ?_
    · have dropped : ∀ (m₂ : Memory Pg) env₂ (r : Except DbError Bool) D₂, m₂.2 = m'.2 ++ [⟨.deleteNow stmt tb k, env₂, r, D₂⟩] →
          Adds [.deleteNow stmt tb k] m' m₂ → Available m₂.2 ∧
          m₂.2.map Exchange.op = guardCalls guard ++ [.deleteNow stmt tb k] ∧
          (∀ x ∈ m₂.2, x.op = .snapshot guard → ¬Used x.rows) ∧ ∀ x ∈ m₂.2, x.op = .deleteNow stmt tb k → x = ⟨.deleteNow stmt tb k, env₂, r, D₂⟩ := by
        intro m₂ env₂ r D₂ hm₂ adds₂
        obtain ⟨up₂, calls₂⟩ := available_of rfl first acquired (adds.trans adds₂) (by simp)
        refine ⟨up₂, calls₂, fun x hx hop => ?_, fun x hx hop => ?_⟩
        · have shown₂ := List.mem_append_left [(⟨.deleteNow stmt tb k, env₂, r, D₂⟩ : Exchange Pg)] shown
          rw [← hm₂] at shown₂
          rw [eq_of_map_once (u := [.ext .acquire, .begin]) (v := [.commit, .deleteNow stmt tb k]) calls₂ (by simp)
            (by simp) hx shown₂ hop rfl]
          exact fun used => idle ((reads now D₁ keys keyed).mpr used)
        · have last : (⟨.deleteNow stmt tb k, env₂, r, D₂⟩ : Exchange Pg) ∈ m₂.2 := by simp [hm₂]
          exact eq_of_map_once (u := guardCalls guard) (v := []) calls₂ (by simp [guardCalls]) (by simp) hx last hop rfl
      refine tries_bind (tries_adapt (recalls_deleteNow ⟨hm'.1, List.prefix_refl _⟩ rfl
        (fun found m₂ env₂ D₂ _ hm₂ adds₂ there free => ?_) fun e' m₂ env₂ D₂ _ hm₂ why => ?_))
      · obtain ⟨up₂, calls₂, idle₂, rows₂⟩ := dropped m₂ env₂ _ D₂ hm₂ adds₂
        cases found with
        | true => exact tries_pure (.deleted up₂ calls₂ idle₂ fun x hx hop => by rw [rows₂ x hx hop]; exact ⟨rfl, there, free rfl⟩)
        | false =>
          refine tries_throw (.missing up₂ calls₂ idle₂ fun x hx hop => ?_)
          rw [rows₂ x hx hop]
          exact ⟨rfl, Option.not_isSome_iff_eq_none.mp (by simp [there])⟩
      · rcases why with harmed | ⟨adds₂, there, held⟩
        · exact .failed fun up₂ => up₂.1 harmed
        · obtain ⟨up₂, calls₂, idle₂, rows₂⟩ := dropped m₂ env₂ _ D₂ hm₂ adds₂
          exact .referenced up₂ calls₂ idle₂ fun x hx hop => by rw [rows₂ x hx hop]; exact ⟨there, held⟩
    · exact .inUse up calls fun x hx hop => by rw [read x hx hop]; exact (reads now D₁ keys keyed).mp used
  · refine .failed fun up => ?_
    have acquired := up.2 ⟨.ext .acquire, e, e.answer .acquire, D⟩ (by simp [hm]) rfl
    rw [refused] at acquired
    cases acquired

variable {env : Setup} {acts : List (Action (service env))} {t : Nat} {req : Request env} {x : Try Pg AppError Reply}

theorem holds_deletion (program : req.program = answered x)
    (tries : Tries Recalls (fun _ o => Deleting stmt tb k o)
      (fun r m => Deletion guard stmt tb k Used inUse missing m.2 (.ok r))
      (fun e m => Deletion guard stmt tb k Used inUse missing m.2 (.error e)) x (none, [])) :
    ((service env).program req).Holds Recalls (fun _ o => Deleting stmt tb k o)
      (fun out m => ∀ r, out = .http r → Deletion guard stmt tb k Used inUse missing m.2 r) (none, []) := by
  change req.program.Holds Recalls _ _ _
  rw [program]
  refine Prog.holds_bind.mpr (Prog.Holds.mono tries fun r m h r' hr => ?_)
  cases hr
  cases r <;> exact h

/-- What a delete that has been answered has found at its calls. -/
theorem deletion_answered (program : req.program = answered x)
    (tries : Tries Recalls (fun _ o => Deleting stmt tb k o)
      (fun r m => Deletion guard stmt tb k Used inUse missing m.2 (.ok r))
      (fun e m => Deletion guard stmt tb k Used inUse missing m.2 (.error e)) x (none, [])) {r : Response}
    (answer : (after acts).answer t = some (req, .http r)) :
    ∃ l, (∀ y, y ∈ l ↔ Made acts t req y) ∧ Deletion guard stmt tb k Used inUse missing l r := by
  obtain ⟨l, made, ends⟩ := Pool.recalled_answer (holds_of (holds_deletion program tries)) answer
  exact ⟨l, made, ends rfl r rfl⟩

/-- A step of a delete leaves every table as it is or deletes the row. -/
theorem deletion_step (program : req.program = answered x)
    (tries : Tries Recalls (fun _ o => Deleting stmt tb k o)
      (fun r m => Deletion guard stmt tb k Used inUse missing m.2 (.ok r))
      (fun e m => Deletion guard stmt tb k Used inUse missing m.2 (.error e)) x (none, []))
    {out : Outcome} (answer : (after acts).answer t = some (req, out)) {before : List (Action (service env))} {e : Env Pg}
    (le : before ++ [.step t e] <+: acts) :
    (after (before ++ [.step t e])).world.rows = (after before).world.rows ∨
      (Made acts t req ⟨.deleteNow stmt tb k, e, .ok true, (after before).world.rows⟩ ∧
        (after (before ++ [.step t e])).world.rows = setAt (after before).world.rows tb k none) := by
  have holds := holds_deletion program tries
  obtain ⟨th, thread, serves⟩ := Pool.answer_thread answer
  have own : ∀ req' o, (after before).next t = some (req', o) → req' = req := by
    intro req' o hn
    obtain ⟨th', _, hth', _, rfl, _⟩ := Pool.waits hn
    obtain ⟨rest, rfl⟩ := (List.prefix_append before [.step t e]).trans le
    obtain ⟨th'', hth'', same⟩ := Pool.run_req hth' rest
    rw [← Pool.run_append, thread] at hth''
    cases hth''
    exact same.symm.trans serves
  rw [after_snoc]
  rcases Pool.step_rows holds (fun _ _ _ ho => ho.spares) own with same | ⟨stmt', tb', k', made, hrows⟩
  · exact Or.inl same
  · have known := made
    obtain ⟨before', _, next, _⟩ := known
    obtain ⟨l, _, ho⟩ := Pool.recalled (holds_of holds) next
    have hop : (Op.deleteNow stmt' tb' k' : Op Pg) = .deleteNow stmt tb k := ho rfl
    cases hop
    exact Or.inr ⟨made.later le, hrows⟩

/-- The steps of the thread leave every table as it is. -/
def KeepsTables (acts : List (Action (service env))) (t : Nat) : Prop := ∀ before e, before ++ [.step t e] <+: acts →
  (after (before ++ [.step t e])).world.rows = (after before).world.rows

theorem Available.calls {l : List (Exchange Pg)} {req : Request env} (up : Available l) (made : ∀ x, x ∈ l ↔ Made acts t req x)
    (x : Exchange Pg) (hx : Made acts t req x) :
    x.faulty = false ∧ (x.op = .ext .acquire → x.env.answer .acquire = true) := by
  have mem := (made x).mpr hx
  refine ⟨?_, up.2 x mem⟩
  by_contra fault
  exact up.1 ⟨x, mem, by simpa using fault⟩

theorem available_of_calls {l : List (Exchange Pg)} {req : Request env} (made : ∀ x, x ∈ l ↔ Made acts t req x)
    (up : ∀ x, Made acts t req x → x.faulty = false ∧ (x.op = .ext .acquire → x.env.answer .acquire = true)) : Available l := by
  refine ⟨?_, fun x hx => (up x ((made x).mp hx)).2⟩
  rintro ⟨x, hx, fault⟩
  rw [(up x ((made x).mp hx)).1] at fault
  cases fault

end delete

end Invokr

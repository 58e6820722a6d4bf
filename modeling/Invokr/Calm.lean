import Invokr.Base
import Invokr.Uses

namespace Invokr

open TxLib

variable {env : Setup} {g : Guard (service env)} {req : Request env} {t : Nat}

abbrev Runs (g : Guard (service env)) (req : Request env) (t : Nat) {α : Type} (post : α → World Pg → Prop)
    (p : Program Pg α) (w : World Pg) : Prop :=
  p.Holds (Local (base g).rely (base g).inv (g.step req) t) ((base g).pre req t) post w

abbrev Does (g : Guard (service env)) (req : Request env) (t : Nat) {ε α : Type} (ok : α → World Pg → Prop)
    (err : ε → World Pg → Prop) (x : Try Pg ε α) (w : World Pg) : Prop :=
  Tries (Local (base g).rely (base g).inv (g.step req) t) ((base g).pre req t) ok err x w

/-- The calls that touch neither jobs, executions and attempts nor schedules. -/
def Calm : Op Pg → Prop
  | .ext (.dispatch _) => False
  | .update _ tb _ _ _ _ => Side tb = true
  | .insert _ tb _ _ => Side tb = true
  | .put _ tb _ _ => Side tb = true
  | .delete _ tb _ => Side tb = true
  | .deleteNow _ tb _ => Side tb = true
  | _ => True

/-- The transaction changes none of these tables. -/
def Untouched (s : Session Pg) : Prop := ∀ tb : Table, Side tb = false → Quiet (M := Pg) tb s

def Calmly (t : Nat) (w : World Pg) : Prop := ∀ s, (w.view t).1 = some s → s.aborted = true ∨ Untouched s

theorem Untouched.stays {s s' : Session Pg} (h : s.aborted = true ∨ Untouched s)
    (hs : Stays (M := Pg) (fun tb => Side tb = true) s s') : s'.aborted = true ∨ Untouched s' := by
  rcases hs.2 with ha | ⟨ha, held⟩
  · exact Or.inl ha
  · rcases h with h | h
    · exact Or.inl (ha.trans h)
    · exact Or.inr fun tb hf => (h tb hf).frame (held tb (by simp [hf]))

theorem untouched_start (now : Int) : Untouched (Session.start now) := fun _ _ => each_started ⟨rfl, fun _ _ => rfl⟩

theorem Calmly.call {rely : World Pg → World Pg → Prop} {I : World Pg → Prop}
    {allow : World Pg → Nat → Env Pg → Op Pg → Prop} {w₀ w' : World Pg} {o : Op Pg} {r : o.Reply} (ho : Calm o)
    (hw : Calmly t w₀) (h : Local rely I allow t w₀ o r w') : Calmly t w' := by
  intro s' hs'
  obtain ⟨w, e, _, _, _, _, he⟩ := h.eval (s := (w₀.view t).1) (l := (w₀.view t).2) rfl
  rw [hs'] at he
  cases hs : (w₀.view t).1 with
  | none =>
    rw [hs] at he
    cases o with
    | begin =>
      simp only [Op.eval] at he
      split at he
      next => cases he
      next =>
        cases he
        exact Or.inr (untouched_start _)
    | _ => cases he
  | some s =>
    rw [hs] at he
    have inside : o.Inside (fun tb => Side tb = true) (fun _ => True) → s'.aborted = true ∨ Untouched s' := by
      intro hi
      obtain ⟨s₁, h₁, stays⟩ := hi.stays he
      cases h₁
      exact Untouched.stays (hw s hs) stays
    cases o with
    | ext e => exact inside trivial
    | halt => cases he
    | begin =>
      cases he
      exact hw _ hs
    | snapshot => exact inside trivial
    | update | insert | put | delete => exact inside ho
    | deleteNow =>
      cases he
      exact hw _ hs
    | commit =>
      simp only [Op.eval] at he
      split at he <;> cases he
    | rollback => cases he

theorem Untouched.commit {w : World Pg} {s : Session Pg} {now : Int} (h : Untouched s) (sound : Sound w)
    (hs : w.sessions t = some s) : Commit g req now w.rows (s.visible w.rows) := by
  refine .quiet fun tb hm => sound.visible_quiet hs (h tb ?_)
  simp only [List.mem_cons, List.not_mem_nil, or_false] at hm
  rcases hm with rfl | rfl | rfl | rfl <;> rfl

/-- A transaction that changes no execution has no new one. -/
theorem ticking_of_quiet {w : World Pg} (h : ∀ s, (w.view t).1 = some s → s.aborted = false → Quiet (M := Pg) .executions s) :
    Ticking req t w := by
  cases req with
  | tick jobName =>
    intro s l hv ha
    exact (h s (by rw [hv]) ha).mono fun _ _ _ hf => hf.elim
  | _ => trivial

theorem rest_of_not_work {v : View Pg} (hreq : isWork req = false) : Rest g req v := by
  cases req with
  | work => cases hreq
  | _ => trivial

theorem calls_update {w : World Pg} {stmt : Statement} {tb : Table} {k : Key} {skip : Bool}
    {keep : Int → tb.Row → Bool} {patch : Patch Pg tb} (h : stmt ≠ .claim ∨ tb ≠ .executions) :
    Calls g req t w (.update stmt tb k skip keep patch) := by
  cases tb with
  | executions =>
    cases stmt with
    | claim => simp at h
    | _ => trivial
  | _ => cases stmt <;> trivial

theorem Calmly.calls {w : World Pg} {o : Op Pg} (hreq : isWork req = false) (ho : Calm o) (hw : Calmly t w) :
    (base g).pre req t w o := by
  refine ⟨rest_of_not_work hreq, ?_⟩
  cases o with
  | ext e => cases e <;> trivial
  | update => exact calls_update (Or.inr fun h => by subst h; cases ho)
  | deleteNow => exact ho
  | commit =>
    refine ⟨?_, ticking_of_quiet fun s hs ha => (hw s hs).resolve_left (by simp [ha]) .executions rfl⟩
    intro s l hv ha w' e _ sound _ hv' _
    exact ((hw s (by rw [hv])).resolve_left (by simp [ha])).commit sound (congrArg Prod.fst hv')
  | rollback => exact fun h => by rw [hreq] at h; cases h
  | _ => trivial

/-- A program of calm calls keeps the outline. -/
theorem runs_calm {α : Type} {p : Program Pg α} {w : World Pg} (hreq : isWork req = false) (hp : p.Uses Calm)
    (hw : Calmly t w) : Runs g req t (fun _ w' => Calmly t w') p w :=
  hp.holds hw (fun _ _ ho h => h.calls hreq ho) fun _ _ _ _ ho h hs => h.call ho hs

theorem neutral_calm : Neutral Calm where
  ext e h := by cases e <;> first | trivial | exact absurd rfl (h _)
  halt := trivial
  begin := trivial
  snapshot _ := trivial
  commit := trivial
  rollback := trivial

end Invokr

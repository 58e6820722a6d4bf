import Mathlib.Logic.Function.Basic

namespace TxLib

/-- A program that makes one call at a time and goes on with the reply to it. -/
inductive Prog (Op : Type) (Reply : Op → Type) (α : Type) where
  | ret (a : α)
  | call (o : Op) (next : Reply o → Prog Op Reply α)

namespace Prog

def bind {Op : Type} {Reply : Op → Type} {α β : Type} :
    Prog Op Reply α → (α → Prog Op Reply β) → Prog Op Reply β
  | .ret a, f => f a
  | .call o next, f => .call o fun r => (next r).bind f

instance {Op : Type} {Reply : Op → Type} : Monad (Prog Op Reply) where
  pure := .ret
  bind := .bind

theorem bind_ret {Op : Type} {Reply : Op → Type} {α : Type} (p : Prog Op Reply α) : p.bind .ret = p := by
  induction p with
  | ret a => rfl
  | call o next ih => exact congrArg (Prog.call o) (funext ih)

theorem bind_bind {Op : Type} {Reply : Op → Type} {α β γ : Type} (p : Prog Op Reply α) (f : α → Prog Op Reply β)
    (g : β → Prog Op Reply γ) : (p.bind f).bind g = p.bind fun a => (f a).bind g := by
  induction p with
  | ret a => rfl
  | call o next ih => exact congrArg (Prog.call o) (funext ih)

instance {Op : Type} {Reply : Op → Type} : LawfulMonad (Prog Op Reply) :=
  LawfulMonad.mk' _ bind_ret (fun _ _ => rfl) bind_bind

def perform {Op : Type} {Reply : Op → Type} (o : Op) : Prog Op Reply (Reply o) :=
  .call o .ret

/-- The call a program waits for, if it has not ended. -/
def head {Op : Type} {Reply : Op → Type} {α : Type} : Prog Op Reply α → Option Op
  | .ret _ => none
  | .call o _ => some o

def result {Op : Type} {Reply : Op → Type} {α : Type} : Prog Op Reply α → Option α
  | .ret a => some a
  | .call _ _ => none

/-- Every call of the program is made where `pre` allows it, and every end satisfies `post`,
whatever the replies and local states that `step` admits. -/
def Holds {Op : Type} {Reply : Op → Type} {α L : Type} (step : L → (o : Op) → Reply o → L → Prop)
    (pre : L → Op → Prop) (post : α → L → Prop) : Prog Op Reply α → L → Prop
  | .ret a, l => post a l
  | .call o next, l => pre l o ∧ ∀ r l', step l o r l' → (next r).Holds step pre post l'

/-- Every call of the program is one of the calls `p`, whatever the replies. -/
def Uses {Op : Type} {Reply : Op → Type} {α : Type} (p : Op → Prop) : Prog Op Reply α → Prop
  | .ret _ => True
  | .call o next => p o ∧ ∀ r, (next r).Uses p

section rules

variable {Op : Type} {Reply : Op → Type} {α β L : Type}
  {step : L → (o : Op) → Reply o → L → Prop} {pre : L → Op → Prop}

@[simp] theorem holds_ret {post : α → L → Prop} {a : α} {l : L} :
    (Prog.ret a : Prog Op Reply α).Holds step pre post l ↔ post a l := Iff.rfl

@[simp] theorem holds_pure {post : α → L → Prop} {a : α} {l : L} :
    (pure a : Prog Op Reply α).Holds step pre post l ↔ post a l := Iff.rfl

theorem holds_call {post : α → L → Prop} {o : Op} {next : Reply o → Prog Op Reply α} {l : L} :
    (Prog.call o next).Holds step pre post l ↔
      pre l o ∧ ∀ r l', step l o r l' → (next r).Holds step pre post l' := Iff.rfl

theorem holds_perform {o : Op} {post : Reply o → L → Prop} {l : L} :
    (perform o : Prog Op Reply (Reply o)).Holds step pre post l ↔
      pre l o ∧ ∀ r l', step l o r l' → post r l' := Iff.rfl

@[simp] theorem holds_bind {post : β → L → Prop} {p : Prog Op Reply α} {f : α → Prog Op Reply β}
    {l : L} : (p >>= f).Holds step pre post l ↔
      p.Holds step pre (fun a l' => (f a).Holds step pre post l') l := by
  change (p.bind f).Holds step pre post l ↔ _
  induction p generalizing l with
  | ret a => rfl
  | call o next ih =>
    simp only [Prog.bind, holds_call]
    exact and_congr_right fun _ => forall_congr' fun r => forall_congr' fun l' => imp_congr_right fun _ => ih r

theorem Holds.mono {post post' : α → L → Prop} {p : Prog Op Reply α} {l : L}
    (h : p.Holds step pre post l) (weaker : ∀ a l', post a l' → post' a l') :
    p.Holds step pre post' l := by
  induction p generalizing l with
  | ret a => exact weaker a l h
  | call o next ih => exact ⟨h.1, fun r l' hs => ih r (h.2 r l' hs)⟩

@[simp] theorem uses_ret {p : Op → Prop} {a : α} : (Prog.ret a : Prog Op Reply α).Uses p := trivial

@[simp] theorem uses_pure {p : Op → Prop} {a : α} : (pure a : Prog Op Reply α).Uses p := trivial

theorem uses_call {p : Op → Prop} {o : Op} {next : Reply o → Prog Op Reply α} :
    (Prog.call o next).Uses p ↔ p o ∧ ∀ r, (next r).Uses p := Iff.rfl

@[simp] theorem uses_perform {p : Op → Prop} {o : Op} :
    (perform o : Prog Op Reply (Reply o)).Uses p ↔ p o := by
  simp [perform, Uses]

theorem Uses.bind {p : Op → Prop} {q : Prog Op Reply α} {f : α → Prog Op Reply β} (hq : q.Uses p)
    (hf : ∀ a, (f a).Uses p) : (q >>= f).Uses p := by
  change (q.bind f).Uses p
  induction q with
  | ret a => exact hf a
  | call o next ih => exact ⟨hq.1, fun r => ih r (hq.2 r)⟩

theorem Uses.mono {p p' : Op → Prop} {q : Prog Op Reply α} (hq : q.Uses p) (weaker : ∀ o, p o → p' o) :
    q.Uses p' := by
  induction q with
  | ret a => trivial
  | call o next ih => exact ⟨weaker o hq.1, fun r => ih r (hq.2 r)⟩

/-- A property of the local state that all calls of a program keep holds at its end. -/
theorem Uses.holds {p : Op → Prop} {q : Prog Op Reply α} {P : L → Prop} {l : L} (hq : q.Uses p) (hl : P l)
    (allowed : ∀ l o, p o → P l → pre l o) (keep : ∀ l o r l', p o → P l → step l o r l' → P l') :
    q.Holds step pre (fun _ l' => P l') l := by
  induction q generalizing l with
  | ret a => exact hl
  | call o next ih => exact ⟨allowed l o hq.1 hl, fun r l' hs => ih r (hq.2 r) (keep l o r l' hq.1 hl hs)⟩

theorem Holds.pre_mono {pre' : L → Op → Prop} {post : α → L → Prop} {p : Prog Op Reply α} {l : L}
    (h : p.Holds step pre post l) (weaker : ∀ l o, pre l o → pre' l o) : p.Holds step pre' post l := by
  induction p generalizing l with
  | ret a => exact h
  | call o next ih => exact ⟨weaker l o h.1, fun r l' hs => ih r (h.2 r l' hs)⟩

end rules

end Prog

end TxLib

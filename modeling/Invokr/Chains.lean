import Mathlib.Logic.Relation

namespace TxLib

variable {α : Type} {prev : α → Option α} {a b c : α}

/-- One of `b`'s own steps back, or `b` itself: `b` is `a` or one of the elements `a` goes back to. -/
def GoesBackTo (prev : α → Option α) : α → α → Prop := Relation.ReflTransGen fun a b => prev a = some b

/-- The elements that hang together through `prev`. -/
def SameChain (prev : α → Option α) : α → α → Prop := Relation.EqvGen fun a b => prev a = some b

theorem GoesBackTo.sameChain (h : GoesBackTo prev a b) : SameChain prev a b := by
  induction h with
  | refl => exact .refl a
  | tail _ step ih => exact .trans _ _ _ ih (.rel _ _ step)

theorem GoesBackTo.total (hb : GoesBackTo prev a b) (hc : GoesBackTo prev a c) :
    GoesBackTo prev b c ∨ GoesBackTo prev c b :=
  Relation.ReflTransGen.total_of_right_unique (fun _ _ _ h h' => Option.some.inj (h.symm.trans h')) hb hc

/-- Elements of one chain go back to a common one. -/
theorem SameChain.join (h : SameChain prev a b) : ∃ c, GoesBackTo prev a c ∧ GoesBackTo prev b c := by
  induction h with
  | rel x y step => exact ⟨y, .single step, .refl⟩
  | refl x => exact ⟨x, .refl, .refl⟩
  | symm x y _ ih =>
    obtain ⟨c, hx, hy⟩ := ih
    exact ⟨c, hy, hx⟩
  | trans x y z _ _ ih ih' =>
    obtain ⟨c, hx, hy⟩ := ih
    obtain ⟨d, hy', hz⟩ := ih'
    rcases hy.total hy' with h | h
    · exact ⟨d, hx.trans h, hz⟩
    · exact ⟨c, hx, hz.trans h⟩

/-- No two elements of the chain of `a` come right after the same one. -/
def Unforked (prev : α → Option α) (a : α) : Prop :=
  ∀ x y z, SameChain prev a x → SameChain prev a y → prev x = some z → prev y = some z → x = y

theorem GoesBackTo.comparable (hb : GoesBackTo prev b c) (hc : GoesBackTo prev a c) (unforked : Unforked prev a) :
    GoesBackTo prev a b ∨ GoesBackTo prev b a := by
  induction hb with
  | refl => exact Or.inl hc
  | @tail x z hx step ih =>
    rcases Relation.ReflTransGen.cases_tail hc with rfl | ⟨y, hy, step'⟩
    · exact Or.inr (hx.tail step)
    · have hz : SameChain prev a z := GoesBackTo.sameChain hc
      have hxz : SameChain prev x z := .rel _ _ step
      obtain rfl := unforked x y z (.trans _ _ _ hz (.symm _ _ hxz)) (GoesBackTo.sameChain hy) step step'
      exact ih hy

theorem SameChain.comparable (h : SameChain prev a b) (unforked : Unforked prev a) :
    GoesBackTo prev a b ∨ GoesBackTo prev b a := by
  obtain ⟨c, ha, hb⟩ := h.join
  exact hb.comparable ha unforked

/-- Whoever goes back to another element goes through the one right after it. -/
theorem GoesBackTo.successor (h : GoesBackTo prev a b) (hne : a ≠ b) : ∃ c, GoesBackTo prev a c ∧ prev c = some b := by
  rcases Relation.ReflTransGen.cases_tail h with rfl | ⟨c, hc, step⟩
  · exact (hne rfl).elim
  · exact ⟨c, hc, step⟩

theorem GoesBackTo.rank_le {rank : α → Int} (down : ∀ x y, prev x = some y → rank y < rank x) (h : GoesBackTo prev a b) :
    rank b ≤ rank a := by
  induction h with
  | refl => exact Int.le_refl _
  | tail _ step ih =>
    have := down _ _ step
    omega

/-- Where every step back lowers a rank, no element comes after itself. -/
theorem GoesBackTo.eq_of_rank {rank : α → Int} (down : ∀ x y, prev x = some y → rank y < rank x)
    (h : GoesBackTo prev a b) (hr : rank a = rank b) : a = b := by
  rcases Relation.ReflTransGen.cases_head h with rfl | ⟨c, step, hc⟩
  · rfl
  · have hlt := down _ _ step
    have hle := GoesBackTo.rank_le down hc
    omega

end TxLib

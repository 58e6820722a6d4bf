import Mathlib.Data.List.Basic
import Mathlib.Data.List.Infix

namespace TextLib

variable {α : Type} {pat before after rest s t : List α} {p x : α}

/-- No occurrence of `pat` starts in `before`, when `rest` follows it. -/
def Avoids (pat : List α) : (before rest : List α) → Prop
  | [], _ => True
  | c :: before, rest => ¬pat <+: c :: (before ++ rest) ∧ Avoids pat before rest

/-- `pat` first occurs in `s` behind `before`. -/
structure FirstAt (pat s before after : List α) : Prop where
  eq : s = before ++ (pat ++ after)
  avoids : Avoids pat before (pat ++ after)

theorem avoids_append : Avoids pat (s ++ t) rest ↔ Avoids pat s (t ++ rest) ∧ Avoids pat t rest := by
  induction s with
  | nil => simp [Avoids]
  | cons c s ih => simp only [List.cons_append, Avoids, ih, List.append_assoc, and_assoc]

theorem avoids_head (h : p ∉ before) : Avoids (p :: pat) before rest := by
  induction before with
  | nil => trivial
  | cons c before ih =>
    refine ⟨fun hp => h ?_, ih fun hmem => h (List.mem_cons_of_mem _ hmem)⟩
    rw [(List.cons_prefix_cons.mp hp).1]
    exact List.mem_cons_self

theorem prefix_stop (hx : x ∉ pat) : pat <+: s ++ x :: rest ↔ pat <+: s := by
  refine ⟨fun h => ?_, fun h => h.trans (List.prefix_append _ _)⟩
  induction s generalizing pat with
  | nil =>
    cases pat with
    | nil => exact List.nil_prefix
    | cons p pat =>
      rw [List.nil_append] at h
      rw [(List.cons_prefix_cons.mp h).1] at hx
      exact (hx List.mem_cons_self).elim
  | cons c s ih =>
    cases pat with
    | nil => exact List.nil_prefix
    | cons p pat =>
      obtain ⟨rfl, htail⟩ := List.cons_prefix_cons.mp h
      exact List.cons_prefix_cons.mpr ⟨rfl, ih (fun hmem => hx (List.mem_cons_of_mem _ hmem)) htail⟩

theorem infix_stop (hx : x ∉ pat) : pat <:+: s ++ x :: rest ↔ pat <:+: s ∨ pat <:+: rest := by
  induction s with
  | nil =>
    rw [List.nil_append, List.infix_cons_iff, List.infix_nil, ← List.prefix_nil]
    exact or_congr_left (prefix_stop (s := []) hx)
  | cons c s ih =>
    rw [List.cons_append, List.infix_cons_iff, List.infix_cons_iff, ih, or_assoc]
    exact or_congr_left (prefix_stop (s := c :: s) hx)

/-- No occurrence of `pat` goes across a symbol that it does not have. -/
theorem avoids_stop (hx : x ∉ pat) : Avoids pat before (x :: rest) ↔ Avoids pat before [] := by
  induction before with
  | nil => exact Iff.rfl
  | cons c before ih =>
    have here : pat <+: c :: (before ++ x :: rest) ↔ pat <+: c :: (before ++ []) := by
      rw [List.append_nil]
      exact prefix_stop (s := c :: before) hx
    simp only [Avoids, here, ih]

theorem avoids_mono (h : Avoids pat before (rest ++ s)) : Avoids pat before rest := by
  induction before with
  | nil => trivial
  | cons c before ih =>
    refine ⟨fun hp => h.1 ?_, ih h.2⟩
    rw [← List.append_assoc]
    exact hp.trans (List.prefix_append (c :: (before ++ rest)) s)

/-- Only so much of what follows matters as an occurrence can reach. -/
theorem avoids_short (hlen : pat.length ≤ rest.length + 1) (h : Avoids pat before rest) : Avoids pat before (rest ++ s) := by
  induction before with
  | nil => trivial
  | cons c before ih =>
    refine ⟨fun hp => h.1 ?_, ih h.2⟩
    rw [← List.append_assoc] at hp
    refine List.prefix_of_prefix_length_le hp (List.prefix_append (c :: (before ++ rest)) s) ?_
    simp only [List.length_cons, List.length_append]
    omega

theorem avoids_longer (h : Avoids pat before rest) : Avoids (pat ++ t) before rest := by
  induction before with
  | nil => trivial
  | cons c before ih => exact ⟨fun hp => h.1 ((List.prefix_append pat t).trans hp), ih h.2⟩

theorem avoids_of_sublist (h : Avoids pat (s ++ t) []) : Avoids pat t [] := (avoids_append.mp h).2

theorem avoids_infix_iff (hpat : pat ≠ []) : Avoids pat s [] ↔ ¬pat <:+: s := by
  induction s with
  | nil => simp [Avoids, hpat]
  | cons c s ih => simp only [Avoids, List.append_nil, ih, List.infix_cons_iff, not_or]

theorem FirstAt.length (h : FirstAt pat s before after) : s.length = before.length + pat.length + after.length := by
  rw [h.eq, List.length_append, List.length_append, Nat.add_assoc]

end TextLib

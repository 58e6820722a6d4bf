import Invokr.Template
import Invokr.Occurrence
import Mathlib.Data.String.Basic

namespace Invokr

open TextLib

namespace InPlace

/-- `split_at`, which panics where the offset is not the boundary of a character. -/
def splitAtByte : List Char → Nat → Option (List Char × List Char)
  | s, 0 => some ([], s)
  | [], _ + 1 => none
  | c :: s, n + 1 => if c.utf8Size ≤ n + 1 then (splitAtByte s (n + 1 - c.utf8Size)).map fun r => (c :: r.1, r.2) else none

def sliceFrom (s : List Char) (start : Nat) : Option (List Char) := (splitAtByte s start).map Prod.snd

def slice (s : List Char) (start stop : Nat) : Option (List Char) := do
  let (left, _) ← splitAtByte s stop
  sliceFrom left start

def replaceRange (s : List Char) (start stop : Nat) (replacement : List Char) : Option (List Char) := do
  let (left, right) ← splitAtByte s stop
  let (before, _) ← splitAtByte left start
  return before ++ replacement ++ right

/-- `str::find`: an offset in bytes. -/
def find (pat s : List Char) : Option Nat := (splitAt pat s).map fun r => String.utf8Len r.1

/-- What a round of the loop comes to, unless it panics. -/
inductive Round where
  | done (result : Except String (List Char))
  | again (result : List Char) (start : Nat)

variable (scope : Scope)

def round (result : List Char) (start : Nat) : Option Round := do
  let rest ← sliceFrom result start
  match find openMark rest with
  | none => return .done (.ok result)
  | some opened => do
    let opened := start + opened
    let fromOpen ← sliceFrom result opened
    match find closeMark fromOpen with
    | none => return .done (.ok result)
    | some close => do
      let close := opened + close + 2
      let var ← slice result (opened + 2) (close - 2)
      match resolveVariable scope (trim var) with
      | .error e => return .done (.error e)
      | .ok resolved => do
        let result ← replaceRange result opened close (replacement resolved)
        return .again result (opened + String.utf8Len (replacement resolved))

/-- The loop; `none` is a panic or the end of the fuel. -/
def interpolate : Nat → List Char → Nat → Option (Except String (List Char))
  | 0, _, _ => none
  | fuel + 1, result, start => do
    match ← round scope result start with
    | .done r => return r
    | .again result start => interpolate fuel result start

def isSingleTemplate (s : List Char) : Option (Option (List Char)) := do
  let trimmed := trim s
  if openMark.isPrefixOf trimmed && closeMark.isSuffixOf trimmed then do
    let inner ← slice trimmed 2 (String.utf8Len trimmed - 2)
    let inner := trim inner
    return if (find openMark inner).isNone then some inner else none
  else return none

def resolveString (fuel : Nat) (s : String) : ExceptT String Option Json := do
  match ← (isSingleTemplate s.toList : ExceptT String Option _) with
  | some var => ExceptT.mk (some (resolveVariable scope var))
  | none => do
    let result ← ExceptT.mk (interpolate scope fuel s.toList 0)
    return .str (String.ofList result)

mutual

def resolve (fuel : Nat) : Json → ExceptT String Option Json
  | .str s => resolveString scope fuel s
  | .obj fields => do
    let result ← resolveFields fuel fields []
    return .obj result
  | .arr items => do
    let resolved ← resolveItems fuel items
    return .arr resolved
  | other => return other

def resolveItems (fuel : Nat) : List Json → ExceptT String Option (List Json)
  | [] => return []
  | j :: rest => do
    let head ← resolve fuel j
    let tail ← resolveItems fuel rest
    return head :: tail

def resolveFields (fuel : Nat) : List (String × Json) → List (String × Json) → ExceptT String Option (List (String × Json))
  | [], result => return result
  | (k, v) :: rest, result => do
    let key ← resolveString scope fuel k
    let value ← resolve fuel v
    resolveFields fuel rest (insertField (String.ofList (replacement key)) value result)

end

end InPlace

section occurrences

variable {pat s before after rest : List Char}

theorem splitAt_spec (h : splitAt pat s = some (before, after)) : FirstAt pat s before after := by
  induction s generalizing before with
  | nil =>
    simp only [splitAt] at h
    split at h
    next he =>
      cases h
      rw [List.isEmpty_iff.mp he]
      exact ⟨rfl, trivial⟩
    next => cases h
  | cons c s ih =>
    simp only [splitAt] at h
    split at h
    next hp =>
      cases h
      exact ⟨(List.prefix_append_drop (List.isPrefixOf_iff_prefix.mp hp)), trivial⟩
    next hp =>
      obtain ⟨⟨b, a⟩, hsplit, he⟩ := Option.map_eq_some_iff.mp h
      cases he
      obtain ⟨heq, hav⟩ := ih hsplit
      refine ⟨by rw [heq]; rfl, fun hpre => hp (List.isPrefixOf_iff_prefix.mpr ?_), hav⟩
      rw [heq]
      exact hpre

theorem splitAt_none (hpat : pat ≠ []) : splitAt pat s = none ↔ Avoids pat s [] := by
  induction s with
  | nil => simp [splitAt, Avoids, hpat]
  | cons c s ih =>
    simp only [splitAt, Avoids, List.append_nil]
    split
    next hp => simp [List.isPrefixOf_iff_prefix.mp hp]
    next hp =>
      have : ¬pat <+: c :: s := fun h => hp (List.isPrefixOf_iff_prefix.mpr h)
      simp [this, ih]

/-- The search passes over what `pat` does not start in. -/
theorem splitAt_append (h : Avoids pat before rest) :
    splitAt pat (before ++ rest) = (splitAt pat rest).map fun r => (before ++ r.1, r.2) := by
  induction before with
  | nil => simp
  | cons c before ih =>
    have hp : ¬pat.isPrefixOf (c :: (before ++ rest)) = true := fun hp => h.1 (List.isPrefixOf_iff_prefix.mp hp)
    rw [List.cons_append, splitAt, if_neg hp, ih h.2, Option.map_map]
    rfl

theorem splitAt_self (hpat : pat ≠ []) : splitAt pat (pat ++ rest) = some ([], rest) := by
  cases pat with
  | nil => exact (hpat rfl).elim
  | cons p pat =>
    have hp : (p :: pat).isPrefixOf (p :: (pat ++ rest)) = true :=
      List.isPrefixOf_iff_prefix.mpr (List.prefix_append (p :: pat) rest)
    rw [List.cons_append, splitAt, if_pos hp]
    simp

theorem splitAt_first (hpat : pat ≠ []) (h : FirstAt pat s before after) : splitAt pat s = some (before, after) := by
  rw [h.eq, splitAt_append h.avoids, splitAt_self hpat]
  simp

end occurrences

end Invokr

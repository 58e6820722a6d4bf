import Invokr.InPlace

namespace Invokr

open TextLib

section loop

variable {scope : Scope} {s rest before after var tail done : List Char} {fuel : Nat}

namespace InPlace

theorem splitAtByte_append (s t : List Char) : splitAtByte (s ++ t) (String.utf8Len s) = some (s, t) := by
  induction s with
  | nil => cases t <;> rfl
  | cons c s ih =>
    have hpos : 0 < c.utf8Size := c.utf8Size_pos
    obtain ⟨n, hn⟩ : ∃ n, String.utf8Len (c :: s) = n + 1 := ⟨String.utf8Len (c :: s) - 1, by
      rw [String.utf8Len_cons]
      omega⟩
    have hle : c.utf8Size ≤ n + 1 := by
      rw [String.utf8Len_cons] at hn
      omega
    have hsub : n + 1 - c.utf8Size = String.utf8Len s := by
      rw [String.utf8Len_cons] at hn
      omega
    rw [hn, List.cons_append, splitAtByte, if_pos hle, hsub, ih]
    rfl

theorem sliceFrom_append (s t : List Char) : sliceFrom (s ++ t) (String.utf8Len s) = some t := by
  rw [sliceFrom, splitAtByte_append]
  rfl

theorem slice_append (s m t : List Char) :
    slice (s ++ (m ++ t)) (String.utf8Len s) (String.utf8Len s + String.utf8Len m) = some m := by
  rw [slice, ← String.utf8Len_append, ← List.append_assoc, splitAtByte_append]
  exact sliceFrom_append s m

theorem replaceRange_append (s m t replacement : List Char) :
    replaceRange (s ++ (m ++ t)) (String.utf8Len s) (String.utf8Len s + String.utf8Len m) replacement =
      some (s ++ replacement ++ t) := by
  rw [replaceRange, ← String.utf8Len_append, ← List.append_assoc, splitAtByte_append]
  simp only [Option.bind_eq_bind, Option.bind_some, splitAtByte_append]
  rfl

theorem find_close (after : List Char) : find closeMark (openMark ++ after) = (find closeMark after).map (2 + ·) := by
  have hav : Avoids closeMark openMark after := avoids_head (by decide)
  rw [find, splitAt_append hav, find, Option.map_map, Option.map_map]
  refine congrArg (Option.map · _) (funext fun r => ?_)
  simp only [Function.comp_apply, String.utf8Len_append]
  rfl

/-- A round without another variable ends the loop. -/
theorem round_literal (h : ∀ before after, splitAt openMark rest = some (before, after) → splitAt closeMark after = none) :
    round scope (done ++ rest) (String.utf8Len done) = some (.done (.ok (done ++ rest))) := by
  simp only [round, sliceFrom_append, Option.bind_eq_bind, Option.bind_some]
  cases hopen : splitAt openMark rest with
  | none => simp [find, hopen]
  | some split =>
    obtain ⟨before, after⟩ := split
    have hnone := h before after hopen
    have heq := (splitAt_spec hopen).eq
    have hfind : find openMark rest = some (String.utf8Len before) := by simp [find, hopen]
    have hslice : sliceFrom (done ++ rest) (String.utf8Len done + String.utf8Len before) = some (openMark ++ after) := by
      rw [heq, ← String.utf8Len_append, ← List.append_assoc]
      exact sliceFrom_append _ _
    have hclose : find closeMark (openMark ++ after) = none := by
      rw [find_close, find, hnone]
      rfl
    simp only [hfind, hslice, Option.bind_some, hclose]
    rfl

/-- A round with another variable, which goes on behind what it has put in. -/
theorem round_span (hopen : splitAt openMark rest = some (before, after)) (hclose : splitAt closeMark after = some (var, tail)) :
    round scope (done ++ rest) (String.utf8Len done) =
      some (match resolveVariable scope (trim var) with
        | .error e => .done (.error e)
        | .ok resolved => .again (done ++ before ++ replacement resolved ++ tail)
            (String.utf8Len (done ++ before ++ replacement resolved))) := by
  have heq := (splitAt_spec hopen).eq
  have heq' := (splitAt_spec hclose).eq
  have hfind : find openMark rest = some (String.utf8Len before) := by simp [find, hopen]
  have hslice : sliceFrom (done ++ rest) (String.utf8Len done + String.utf8Len before) = some (openMark ++ after) := by
    rw [heq, ← String.utf8Len_append, ← List.append_assoc]
    exact sliceFrom_append _ _
  have hfind' : find closeMark (openMark ++ after) = some (2 + String.utf8Len var) := by
    rw [find_close, find, hclose]
    rfl
  have two : String.utf8Len openMark = 2 := rfl
  have two' : String.utf8Len closeMark = 2 := rfl
  have hvar : slice (done ++ rest) (String.utf8Len done + String.utf8Len before + 2)
      (String.utf8Len done + String.utf8Len before + (2 + String.utf8Len var) + 2 - 2) = some var := by
    have hparts : done ++ rest = (done ++ before ++ openMark) ++ (var ++ (closeMark ++ tail)) := by
      rw [heq, heq']
      simp only [List.append_assoc]
    have hstart : String.utf8Len done + String.utf8Len before + 2 = String.utf8Len (done ++ before ++ openMark) := by
      simp only [String.utf8Len_append, two]
    rw [hparts, hstart, Nat.add_sub_cancel, ← Nat.add_assoc, hstart]
    exact slice_append _ _ _
  simp only [round, sliceFrom_append, Option.bind_eq_bind, Option.bind_some, hfind, hslice, hfind', hvar]
  cases resolveVariable scope (trim var) with
  | error e => rfl
  | ok resolved =>
    have hparts : done ++ rest = (done ++ before) ++ ((openMark ++ var ++ closeMark) ++ tail) := by
      rw [heq, heq']
      simp only [List.append_assoc]
    have hstop : String.utf8Len done + String.utf8Len before + (2 + String.utf8Len var) + 2 =
        String.utf8Len (done ++ before) + String.utf8Len (openMark ++ var ++ closeMark) := by
      simp only [String.utf8Len_append, two, two']
      omega
    have hrange := replaceRange_append (done ++ before) (openMark ++ var ++ closeMark) tail (replacement resolved)
    rw [← hparts, ← hstop, String.utf8Len_append] at hrange
    simp only [hrange, Option.bind_some, String.utf8Len_append]
    rfl

theorem span_shorter (hopen : splitAt openMark rest = some (before, after)) (hclose : splitAt closeMark after = some (var, tail)) :
    tail.length + 4 ≤ rest.length := by
  have h := (splitAt_spec hopen).length
  have h' := (splitAt_spec hclose).length
  have two : openMark.length = 2 := rfl
  have two' : closeMark.length = 2 := rfl
  omega

/-- The loop never looks again at what it has put in: it does to the text what the single pass does
to the part of it that has not been looked at. -/
theorem interpolate_eq (rounds : Nat) (hr : rest.length < rounds) (hf : rest.length ≤ fuel) :
    interpolate scope rounds (done ++ rest) (String.utf8Len done) =
      some ((Invokr.interpolate scope fuel rest).map (done ++ ·)) := by
  induction rounds generalizing done rest fuel with
  | zero => omega
  | succ rounds ih =>
    cases fuel with
    | zero =>
      have hrest : rest = [] := List.eq_nil_of_length_eq_zero (by omega)
      subst hrest
      have hround := @round_literal scope [] done (fun _ _ h => by simp [splitAt, openMark] at h)
      simp only [interpolate, hround, Option.bind_eq_bind, Option.bind_some]
      rfl
    | succ fuel =>
      have literal : (∀ before after, splitAt openMark rest = some (before, after) → splitAt closeMark after = none) →
          interpolate scope (rounds + 1) (done ++ rest) (String.utf8Len done) = some (.ok (done ++ rest)) := by
        intro h
        simp only [interpolate, round_literal h, Option.bind_eq_bind, Option.bind_some]
        rfl
      rw [Invokr.interpolate]
      cases hopen : splitAt openMark rest with
      | none =>
        refine literal fun before after h => ?_
        rw [hopen] at h
        cases h
      | some split =>
        obtain ⟨before, after⟩ := split
        cases hclose : splitAt closeMark after with
        | none =>
          simp only [hclose]
          refine literal fun before' after' h => ?_
          rw [hopen] at h
          cases h
          exact hclose
        | some split' =>
          obtain ⟨var, tail⟩ := split'
          have hlen := span_shorter hopen hclose
          simp only [hclose, interpolate, round_span hopen hclose, Option.bind_eq_bind, Option.bind_some]
          cases resolveVariable scope (trim var) with
          | error e => rfl
          | ok resolved =>
            have hih := @ih tail (done ++ before ++ replacement resolved) fuel (by omega) (by omega)
            simp only [hih]
            cases Invokr.interpolate scope fuel tail with
            | error e => rfl
            | ok text =>
              simp only [Except.map, List.append_assoc]
              rfl

/-- The marks at the two ends do not overlap. -/
theorem marked_inner {s : List Char} (hopen : openMark.isPrefixOf s = true) (hclose : closeMark.isSuffixOf s = true) :
    ∃ inner, s = openMark ++ (inner ++ closeMark) := by
  obtain ⟨a, ha⟩ := List.isPrefixOf_iff_prefix.mp hopen
  obtain ⟨b, hb⟩ := List.isSuffixOf_iff_suffix.mp hclose
  have heq : openMark ++ a = b ++ closeMark := ha.trans hb.symm
  match b with
  | [] => simp [openMark, closeMark] at heq
  | [x] => simp [openMark, closeMark] at heq
  | x :: y :: inner =>
    simp only [openMark, List.cons_append, List.nil_append, List.cons.injEq] at heq
    refine ⟨inner, ?_⟩
    rw [← hb, ← heq.1, ← heq.2.1]
    rfl

theorem isSingleTemplate_eq (s : List Char) : isSingleTemplate s = some (Invokr.isSingleTemplate s) := by
  unfold isSingleTemplate Invokr.isSingleTemplate
  dsimp only
  split
  next h =>
    obtain ⟨hpre, hsuf⟩ := Bool.and_eq_true_iff.mp h
    obtain ⟨inner, hinner⟩ := marked_inner hpre hsuf
    have two : String.utf8Len openMark = 2 := rfl
    have two' : String.utf8Len closeMark = 2 := rfl
    have hslice : slice (trim s) 2 (String.utf8Len (trim s) - 2) = some inner := by
      have hstop : String.utf8Len (trim s) - 2 = String.utf8Len openMark + String.utf8Len inner := by
        rw [hinner]
        simp only [String.utf8Len_append, two, two']
        omega
      rw [hstop, hinner]
      exact slice_append openMark inner closeMark
    have htake : ((trim s).drop 2).take ((trim s).length - 4) = inner := by
      rw [hinner]
      simp [openMark, closeMark]
    rw [hslice, htake]
    simp only [Option.bind_eq_bind, Option.bind_some, find, Option.isNone_map]
    rfl
  next => rfl

end InPlace

end loop

/-- What a template is made of. -/
inductive Piece where
  | lit (text : List Char)
  | var (name : List Char)
  deriving DecidableEq

/-- The pieces of a text; the fuel is its length. -/
def pieces : Nat → List Char → List Piece
  | 0, rest => [.lit rest]
  | fuel + 1, rest =>
    match splitAt openMark rest with
    | none => [.lit rest]
    | some (before, after) =>
      match splitAt closeMark after with
      | none => [.lit rest]
      | some (var, tail) => .lit before :: .var (trim var) :: pieces fuel tail

/-- The first `{{` opens a variable and the first `}}` behind it closes it. -/
inductive Splits : List Char → List Piece → Prop
  | literal {s : List Char} (unclosed : ∀ before after, FirstAt openMark s before after → Avoids closeMark after []) :
      Splits s [.lit s]
  | span {s before after var tail : List Char} {ps : List Piece} (opened : FirstAt openMark s before after)
      (closed : FirstAt closeMark after var tail) (rest : Splits tail ps) : Splits s (.lit before :: .var (trim var) :: ps)

namespace Reference

variable (scope : Scope)

def render : Piece → Except String (List Char)
  | .lit text => .ok text
  | .var name => (resolveVariable scope name).map replacement

def renderAll : List Piece → Except String (List Char)
  | [] => .ok []
  | p :: ps => do
    let text ← render scope p
    let rest ← renderAll ps
    return text ++ rest

def resolveString (s : String) : Except String Json :=
  match isSingleTemplate s.toList with
  | some name => resolveVariable scope name
  | none => (renderAll scope (pieces s.length s.toList)).map fun text => .str (String.ofList text)

def resolveKey (s : String) : Except String String := (resolveString scope s).map fun j => String.ofList (replacement j)

mutual

/-- What a template means, by the strings it was written with. -/
def resolve : Json → Except String Json
  | .str s => resolveString scope s
  | .obj fields => (resolveFields fields).map Json.object
  | .arr items => (resolveItems items).map .arr
  | other => .ok other

def resolveItems : List Json → Except String (List Json)
  | [] => .ok []
  | j :: rest => do
    let head ← resolve j
    let tail ← resolveItems rest
    return head :: tail

def resolveFields : List (String × Json) → Except String (List (String × Json))
  | [] => .ok []
  | (k, v) :: rest => do
    let key ← resolveKey scope k
    let value ← resolve v
    let tail ← resolveFields rest
    return (key, value) :: tail

end

end Reference

def textVariables (s : String) : List (List Char) :=
  match isSingleTemplate s.toList with
  | some name => [name]
  | none => (pieces s.length s.toList).filterMap fun
    | .lit _ => none
    | .var name => some name

mutual

/-- The variables that the strings of a template name, in order. -/
def templateVariables : Json → List (List Char)
  | .str s => textVariables s
  | .obj fields => templateVariablesFields fields
  | .arr items => templateVariablesItems items
  | _ => []

def templateVariablesItems : List Json → List (List Char)
  | [] => []
  | j :: rest => templateVariables j ++ templateVariablesItems rest

def templateVariablesFields : List (String × Json) → List (List Char)
  | [] => []
  | (k, v) :: rest => textVariables k ++ (templateVariables v ++ templateVariablesFields rest)

end

section meaning

variable {scope : Scope}

theorem pieces_splits (fuel : Nat) {s : List Char} (h : s.length ≤ fuel) : Splits s (pieces fuel s) := by
  have two : openMark ≠ [] := by decide
  have two' : closeMark ≠ [] := by decide
  induction fuel generalizing s with
  | zero =>
    have hs : s = [] := List.eq_nil_of_length_eq_zero (by omega)
    subst hs
    refine .literal fun before after hfirst => ?_
    have hlen := hfirst.length
    simp only [openMark, List.length_cons, List.length_nil] at hlen
    omega
  | succ fuel ih =>
    rw [pieces]
    split
    next hopen =>
      refine .literal fun before after hfirst => ?_
      rw [splitAt_first two hfirst] at hopen
      cases hopen
    next before after hopen =>
      split
      next hclose =>
        refine .literal fun before' after' hfirst => ?_
        rw [splitAt_first two hfirst] at hopen
        cases hopen
        exact (splitAt_none two').mp hclose
      next var tail hclose =>
        have hlen := InPlace.span_shorter hopen hclose
        exact .span (splitAt_spec hopen) (splitAt_spec hclose) (ih (by omega))

theorem interpolate_pieces (fuel : Nat) (s : List Char) :
    interpolate scope fuel s = Reference.renderAll scope (pieces fuel s) := by
  have last : ∀ rest, Except.ok rest = Reference.renderAll scope [.lit rest] := by
    intro rest
    simp [Reference.renderAll, Reference.render, pure, Except.pure, bind, Except.bind]
  induction fuel generalizing s with
  | zero => exact last s
  | succ fuel ih =>
    rw [interpolate, pieces]
    cases hopen : splitAt openMark s with
    | none => exact last s
    | some opened =>
      obtain ⟨before, after⟩ := opened
      cases hclose : splitAt closeMark after with
      | none =>
        simp only [hclose]
        exact last s
      | some closed =>
        obtain ⟨var, tail⟩ := closed
        simp only [hclose, Reference.renderAll, Reference.render, ih]
        cases resolveVariable scope (trim var) with
        | error e => rfl
        | ok resolved =>
          cases Reference.renderAll scope (pieces fuel tail) with
          | error e => rfl
          | ok text => simp [Except.map, bind, Except.bind, pure, Except.pure]

theorem resolveString_eq (s : String) : resolveString scope s = Reference.resolveString scope s := by
  unfold resolveString Reference.resolveString
  cases isSingleTemplate s.toList with
  | some name => rfl
  | none =>
    have h := @interpolate_pieces scope s.length s.toList
    simp only [h]

mutual

theorem resolve_eq (j : Json) : resolve scope j = Reference.resolve scope j := by
  cases j with
  | str s => simp only [resolve, Reference.resolve, resolveString_eq]
  | arr items => simp only [resolve, Reference.resolve, resolveItems_eq items]
  | obj fields =>
    simp only [resolve, Reference.resolve, resolveFields_eq fields []]
    cases Reference.resolveFields scope fields with
    | error e => rfl
    | ok pairs => rfl
  | _ => simp only [resolve, Reference.resolve]

theorem resolveItems_eq (items : List Json) : resolveItems scope items = Reference.resolveItems scope items := by
  cases items with
  | nil => simp only [resolveItems, Reference.resolveItems]
  | cons j rest => simp only [resolveItems, Reference.resolveItems, resolve_eq j, resolveItems_eq rest]

theorem resolveFields_eq (fields result : List (String × Json)) :
    resolveFields scope fields result =
      (Reference.resolveFields scope fields).map fun pairs => pairs.foldl (fun m f => insertField f.1 f.2 m) result := by
  cases fields with
  | nil => simp only [resolveFields, Reference.resolveFields, Except.map, List.foldl]
  | cons f rest =>
    obtain ⟨k, v⟩ := f
    simp only [resolveFields, Reference.resolveFields, Reference.resolveKey, resolveString_eq, resolve_eq v]
    cases Reference.resolveString scope k with
    | error e => rfl
    | ok key =>
      cases Reference.resolve scope v with
      | error e => rfl
      | ok value =>
        simp only [Except.map, bind, Except.bind, resolveFields_eq rest]
        cases Reference.resolveFields scope rest with
        | error e => rfl
        | ok pairs => rfl

end

end meaning

end Invokr

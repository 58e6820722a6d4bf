import Invokr.SinglePass

namespace Invokr

open TextLib

variable {scope scope' : Scope} {α β γ : Type}

def Fails (x : Except String α) : Prop := ∃ e, x = .error e

section fails

theorem fails_map {f : α → β} {x : Except String α} : Fails (x.map f) ↔ Fails x := by
  cases x with
  | ok a => simp [Fails, Except.map]
  | error e => simp [Fails, Except.map]

theorem fails_both {x : Except String α} {y : Except String β} {f : α → β → γ} :
    Fails (do
      let a ← x
      let b ← y
      return f a b) ↔ Fails x ∨ Fails y := by
  cases x with
  | error e => simp [Fails, bind, Except.bind]
  | ok a =>
    cases y with
    | error e => simp [Fails, bind, Except.bind]
    | ok b => simp [Fails, bind, Except.bind, pure, Except.pure]

theorem fails_three {δ : Type} {x : Except String α} {y : Except String β} {z : Except String γ} {f : α → β → γ → δ} :
    Fails (do
      let a ← x
      let b ← y
      let c ← z
      return f a b c) ↔ Fails x ∨ Fails y ∨ Fails z := by
  cases x with
  | error e => simp [Fails, bind, Except.bind]
  | ok a =>
    cases y with
    | error e => simp [Fails, bind, Except.bind]
    | ok b =>
      cases z with
      | error e => simp [Fails, bind, Except.bind]
      | ok c => simp [Fails, bind, Except.bind, pure, Except.pure]

/-- Some variable that the list names cannot be looked up. -/
def Unresolved (scope : Scope) (names : List (List Char)) : Prop := ∃ x ∈ names, Fails (resolveVariable scope x)

theorem unresolved_append {l l' : List (List Char)} : Unresolved scope (l ++ l') ↔ Unresolved scope l ∨ Unresolved scope l' := by
  simp [Unresolved, or_and_right, exists_or]

def Piece.name? : Piece → Option (List Char)
  | .lit _ => none
  | .var name => some name

theorem textVariables_pieces {s : String} (h : isSingleTemplate s.toList = none) :
    textVariables s = (pieces s.length s.toList).filterMap Piece.name? := by
  rw [textVariables, h]
  refine congrArg (List.filterMap · _) (funext fun p => ?_)
  cases p with
  | lit _ => rfl
  | var _ => rfl

theorem renderAll_fails (ps : List Piece) :
    Fails (Reference.renderAll scope ps) ↔ Unresolved scope (ps.filterMap Piece.name?) := by
  induction ps with
  | nil => simp [Reference.renderAll, Fails, Unresolved]
  | cons p ps ih =>
    rw [Reference.renderAll, fails_both, ih]
    cases p with
    | lit text => simp [Reference.render, Fails, Unresolved, Piece.name?]
    | var name =>
      rw [Reference.render, fails_map]
      simp [Unresolved, Piece.name?]

theorem resolveString_fails (s : String) : Fails (Reference.resolveString scope s) ↔ Unresolved scope (textVariables s) := by
  cases h : isSingleTemplate s.toList with
  | some name => simp [Reference.resolveString, textVariables, h, Unresolved]
  | none =>
    rw [textVariables_pieces h, ← renderAll_fails]
    simp only [Reference.resolveString, h]
    exact fails_map

mutual

theorem resolve_fails (j : Json) : Fails (Reference.resolve scope j) ↔ Unresolved scope (templateVariables j) := by
  cases j with
  | str s =>
    rw [Reference.resolve, templateVariables]
    exact resolveString_fails s
  | arr items =>
    rw [Reference.resolve, templateVariables, fails_map]
    exact resolveItems_fails items
  | obj fields =>
    rw [Reference.resolve, templateVariables, fails_map]
    exact resolveFields_fails fields
  | _ => simp [Reference.resolve, templateVariables, Fails, Unresolved]

theorem resolveItems_fails (items : List Json) :
    Fails (Reference.resolveItems scope items) ↔ Unresolved scope (templateVariablesItems items) := by
  cases items with
  | nil => simp [Reference.resolveItems, templateVariablesItems, Fails, Unresolved]
  | cons j rest =>
    rw [Reference.resolveItems, templateVariablesItems, fails_both, unresolved_append, resolve_fails j, resolveItems_fails rest]

theorem resolveFields_fails (fields : List (String × Json)) :
    Fails (Reference.resolveFields scope fields) ↔ Unresolved scope (templateVariablesFields fields) := by
  cases fields with
  | nil => simp [Reference.resolveFields, templateVariablesFields, Fails, Unresolved]
  | cons f rest =>
    obtain ⟨k, v⟩ := f
    rw [Reference.resolveFields, templateVariablesFields, fails_three, unresolved_append, unresolved_append, resolve_fails v,
      resolveFields_fails rest, Reference.resolveKey, fails_map, resolveString_fails]

end

end fails

section agree

/-- The two scopes give the same value to every variable of the list. -/
def SameValues (scope scope' : Scope) (names : List (List Char)) : Prop :=
  ∀ x ∈ names, resolveVariable scope x = resolveVariable scope' x

theorem sameValues_append {l l' : List (List Char)} :
    SameValues scope scope' (l ++ l') ↔ SameValues scope scope' l ∧ SameValues scope scope' l' := by
  simp only [SameValues, List.mem_append, or_imp, forall_and]

theorem renderAll_congr {ps : List Piece} (h : SameValues scope scope' (ps.filterMap Piece.name?)) :
    Reference.renderAll scope ps = Reference.renderAll scope' ps := by
  induction ps with
  | nil => rfl
  | cons p ps ih =>
    cases p with
    | lit text => rw [Reference.renderAll, Reference.renderAll, ih h, Reference.render, Reference.render]
    | var name =>
      have hname := h name (by simp [Piece.name?])
      have hrest : SameValues scope scope' (ps.filterMap Piece.name?) := fun x hx => h x (by simp [Piece.name?, hx])
      rw [Reference.renderAll, Reference.renderAll, ih hrest, Reference.render, Reference.render, hname]

theorem resolveString_congr {s : String} (h : SameValues scope scope' (textVariables s)) :
    Reference.resolveString scope s = Reference.resolveString scope' s := by
  cases hsingle : isSingleTemplate s.toList with
  | some name =>
    simp only [Reference.resolveString, hsingle]
    exact h name (by simp [textVariables, hsingle])
  | none =>
    rw [textVariables_pieces hsingle] at h
    simp only [Reference.resolveString, hsingle, renderAll_congr h]

mutual

theorem resolve_congr (j : Json) (h : SameValues scope scope' (templateVariables j)) :
    Reference.resolve scope j = Reference.resolve scope' j := by
  cases j with
  | str s =>
    rw [templateVariables] at h
    rw [Reference.resolve, Reference.resolve, resolveString_congr h]
  | arr items =>
    rw [templateVariables] at h
    rw [Reference.resolve, Reference.resolve, resolveItems_congr items h]
  | obj fields =>
    rw [templateVariables] at h
    rw [Reference.resolve, Reference.resolve, resolveFields_congr fields h]
  | _ => simp only [Reference.resolve]

theorem resolveItems_congr (items : List Json) (h : SameValues scope scope' (templateVariablesItems items)) :
    Reference.resolveItems scope items = Reference.resolveItems scope' items := by
  cases items with
  | nil => simp only [Reference.resolveItems]
  | cons j rest =>
    rw [templateVariablesItems, sameValues_append] at h
    rw [Reference.resolveItems, Reference.resolveItems, resolve_congr j h.1, resolveItems_congr rest h.2]

theorem resolveFields_congr (fields : List (String × Json)) (h : SameValues scope scope' (templateVariablesFields fields)) :
    Reference.resolveFields scope fields = Reference.resolveFields scope' fields := by
  cases fields with
  | nil => simp only [Reference.resolveFields]
  | cons f rest =>
    obtain ⟨k, v⟩ := f
    rw [templateVariablesFields, sameValues_append, sameValues_append] at h
    obtain ⟨hk, hv, hrest⟩ := h
    rw [Reference.resolveFields, Reference.resolveFields, Reference.resolveKey, Reference.resolveKey, resolveString_congr hk,
      resolve_congr v hv, resolveFields_congr rest hrest]

end

theorem stripPrefix_some {pat key : String} {var : List Char} (h : stripPrefix pat var = some key) : var = (pat ++ key).toList := by
  unfold stripPrefix at h
  split at h
  next hp =>
    cases h
    rw [String.toList_append, String.toList_ofList, ← String.length_toList]
    exact (List.prefix_append_drop (List.isPrefixOf_iff_prefix.mp hp))
  next => cases h

/-- Only the variable `secret.x` has to do with the secret `x`. -/
theorem resolveVariable_secret {secrets : List (String × String)} {x : String} {var : List Char}
    (same : ∀ k, k ≠ x → secrets.lookup k = scope.secrets.lookup k) (hvar : var ≠ ("secret." ++ x).toList) :
    resolveVariable { scope with secrets } var = resolveVariable scope var := by
  unfold resolveVariable
  cases stripPrefix "input." var with
  | some key => rfl
  | none =>
    cases stripPrefix "config." var with
    | some key => rfl
    | none =>
      cases hs : stripPrefix "secret." var with
      | none => rfl
      | some key =>
        have hne : key ≠ x := by
          intro he
          rw [he] at hs
          exact hvar (stripPrefix_some hs)
        simp only [same key hne]

end agree

end Invokr

import Invokr.TemplateMeaning

namespace Invokr

open TextLib

variable {scope : Scope} {α β : Type}

section fields

variable {fields result : List (String × Json)} {k x : String} {v : Json}

theorem lookup_cons : ((k, v) :: fields).lookup x = if x = k then some v else fields.lookup x := by
  by_cases hx : x = k
  · simp [hx]
  · have hb : (x == k) = false := by simp [hx]
    simp [List.lookup_cons, hb, hx]

theorem lookup_insertField (fields : List (String × Json)) :
    (insertField k v fields).lookup x = if x = k then some v else fields.lookup x := by
  induction fields with
  | nil => exact lookup_cons
  | cons f rest ih =>
    obtain ⟨k', v'⟩ := f
    unfold insertField
    by_cases hk : k = k'
    · subst hk
      rw [if_pos rfl, lookup_cons, lookup_cons]
      by_cases hx : x = k <;> simp [hx]
    · rw [if_neg hk]
      by_cases hlt : k < k'
      · rw [if_pos hlt, lookup_cons]
      · rw [if_neg hlt, lookup_cons, lookup_cons, ih]
        by_cases hx' : x = k'
        · have hne : x ≠ k := fun he => hk (he.symm.trans hx')
          rw [if_pos hx', if_neg hne, if_pos hx']
        · rw [if_neg hx', if_neg hx']

theorem keys_insertField (fields : List (String × Json)) :
    ∀ y ∈ (insertField k v fields).map Prod.fst, y = k ∨ y ∈ fields.map Prod.fst := by
  induction fields with
  | nil => simp [insertField]
  | cons f rest ih =>
    obtain ⟨k', v'⟩ := f
    intro y hy
    unfold insertField at hy
    split at hy
    next hk =>
      subst hk
      rcases List.mem_cons.mp hy with rfl | hy
      · exact Or.inl rfl
      · exact Or.inr (List.mem_cons_of_mem _ hy)
    next =>
      split at hy
      next =>
        rcases List.mem_cons.mp hy with rfl | hy
        · exact Or.inl rfl
        · exact Or.inr hy
      next =>
        rcases List.mem_cons.mp hy with rfl | hy
        · exact Or.inr List.mem_cons_self
        · exact (ih y hy).imp_right (List.mem_cons_of_mem _)

theorem insertField_sorted (h : (fields.map Prod.fst).Pairwise (· < ·)) : ((insertField k v fields).map Prod.fst).Pairwise (· < ·) := by
  induction fields with
  | nil => exact List.pairwise_singleton _ _
  | cons f rest ih =>
    obtain ⟨k', v'⟩ := f
    obtain ⟨hlow, hrest⟩ := List.pairwise_cons.mp h
    unfold insertField
    split
    next hk =>
      subst hk
      exact List.pairwise_cons.mpr ⟨hlow, hrest⟩
    next hne =>
      split
      next hlt =>
        refine List.pairwise_cons.mpr ⟨fun y hy => ?_, h⟩
        rcases List.mem_cons.mp hy with rfl | hy
        · exact hlt
        · exact String.lt_trans hlt (hlow y hy)
      next hnot =>
        refine List.pairwise_cons.mpr ⟨fun y hy => ?_, ih hrest⟩
        rcases keys_insertField rest y hy with rfl | hy
        · exact lt_of_le_of_ne (not_lt.mp hnot) (Ne.symm hne)
        · exact hlow y hy

/-- An object has each key once, in order, and of the values given for it the last. -/
theorem object_entries (pairs : List (String × Json)) :
    ∃ entries, Json.object pairs = .obj entries ∧ (entries.map Prod.fst).Pairwise (· < ·) ∧
      ∀ x, entries.lookup x = pairs.reverse.lookup x := by
  have fold : ∀ pairs result : List (String × Json), (result.map Prod.fst).Pairwise (· < ·) →
      ((pairs.foldl (fun m f => insertField f.1 f.2 m) result).map Prod.fst).Pairwise (· < ·) ∧
        ∀ x, (pairs.foldl (fun m f => insertField f.1 f.2 m) result).lookup x =
          (pairs.reverse.lookup x).or (result.lookup x) := by
    intro pairs
    induction pairs with
    | nil => exact fun result h => ⟨h, fun x => rfl⟩
    | cons p pairs ih =>
      intro result h
      obtain ⟨hsorted, hlookup⟩ := ih _ (insertField_sorted (k := p.1) (v := p.2) h)
      refine ⟨hsorted, fun x => (hlookup x).trans ?_⟩
      rw [lookup_insertField, List.reverse_cons, List.lookup_append, Option.or_assoc]
      have hlast : [p].lookup x = if x = p.1 then some p.2 else none := lookup_cons
      rw [hlast]
      by_cases hx : x = p.1 <;> simp [hx]
  obtain ⟨hsorted, hlookup⟩ := fold pairs [] List.Pairwise.nil
  exact ⟨_, rfl, hsorted, fun x => (hlookup x).trans (Option.or_none)⟩

end fields

section shape

theorem resolveItems_forall {items rs : List Json} (h : Reference.resolveItems scope items = .ok rs) :
    List.Forall₂ (fun j r => Reference.resolve scope j = .ok r) items rs := by
  induction items generalizing rs with
  | nil =>
    cases h
    exact .nil
  | cons j rest ih =>
    rw [Reference.resolveItems] at h
    cases hj : Reference.resolve scope j with
    | error e =>
      rw [hj] at h
      cases h
    | ok r =>
      cases hr : Reference.resolveItems scope rest with
      | error e =>
        rw [hj, hr] at h
        cases h
      | ok rs' =>
        rw [hj, hr] at h
        cases h
        exact .cons hj (ih hr)

theorem resolveFields_forall {fields pairs : List (String × Json)} (h : Reference.resolveFields scope fields = .ok pairs) :
    List.Forall₂ (fun f p => Reference.resolveKey scope f.1 = .ok p.1 ∧ Reference.resolve scope f.2 = .ok p.2) fields pairs := by
  induction fields generalizing pairs with
  | nil =>
    cases h
    exact .nil
  | cons f rest ih =>
    obtain ⟨k, v⟩ := f
    rw [Reference.resolveFields] at h
    cases hk : Reference.resolveKey scope k with
    | error e =>
      rw [hk] at h
      cases h
    | ok key =>
      cases hv : Reference.resolve scope v with
      | error e =>
        rw [hk, hv] at h
        cases h
      | ok value =>
        cases hr : Reference.resolveFields scope rest with
        | error e =>
          rw [hk, hv, hr] at h
          cases h
        | ok pairs' =>
          rw [hk, hv, hr] at h
          cases h
          exact .cons ⟨hk, hv⟩ (ih hr)

end shape

section settled

/-- The code has come to its end and has not panicked. -/
def settled (x : Except String α) : ExceptT String Option α := ExceptT.mk (some x)

/-- With fuel enough for its loops the code comes to `x`. -/
def EndsIn (code : Nat → ExceptT String Option α) (x : Except String α) : Prop := ∃ n, ∀ fuel, n ≤ fuel → code fuel = settled x

theorem ends_in_pure (a : α) : EndsIn (fun _ => (pure a : ExceptT String Option α)) (.ok a) := ⟨0, fun _ _ => rfl⟩

theorem EndsIn.map {code : Nat → ExceptT String Option α} {x : Except String α} (h : EndsIn code x) (f : α → β) :
    EndsIn (fun fuel => do
      let a ← code fuel
      return f a) (x.map f) := by
  obtain ⟨n, hn⟩ := h
  refine ⟨n, fun fuel hfuel => ?_⟩
  simp only [hn fuel hfuel]
  cases x with
  | error e => rfl
  | ok a => rfl

theorem EndsIn.bind {code : Nat → ExceptT String Option α} {x : Except String α} {f : α → Except String β}
    {next : Nat → α → ExceptT String Option β} (h : EndsIn code x) (hnext : ∀ a, EndsIn (fun fuel => next fuel a) (f a)) :
    EndsIn (fun fuel => code fuel >>= next fuel) (x >>= f) := by
  obtain ⟨n, hn⟩ := h
  cases x with
  | error e =>
    refine ⟨n, fun fuel hfuel => ?_⟩
    simp only [hn fuel hfuel]
    rfl
  | ok a =>
    obtain ⟨m, hm⟩ := hnext a
    refine ⟨max n m, fun fuel hfuel => ?_⟩
    simp only [hn fuel (by omega)]
    exact hm fuel (by omega)

theorem ends_in_string (s : String) :
    EndsIn (fun fuel => InPlace.resolveString scope fuel s) (resolveString scope s) := by
  refine ⟨s.toList.length + 1, fun fuel hfuel => ?_⟩
  unfold InPlace.resolveString resolveString
  rw [InPlace.isSingleTemplate_eq]
  cases isSingleTemplate s.toList with
  | some name => rfl
  | none =>
    have hloop := @InPlace.interpolate_eq scope s.toList [] s.length fuel (by omega)
      (by rw [String.length_toList])
    rw [List.nil_append] at hloop
    have hzero : String.utf8Len ([] : List Char) = 0 := rfl
    rw [hzero] at hloop
    have hmap : ∀ x : Except String (List Char), x.map (([] : List Char) ++ ·) = x := by
      intro x
      cases x <;> rfl
    rw [hmap] at hloop
    simp only [hloop]
    cases interpolate scope s.length s.toList with
    | error e => rfl
    | ok text => rfl

mutual

theorem ends_in_resolve (j : Json) : EndsIn (fun fuel => InPlace.resolve scope fuel j) (resolve scope j) := by
  cases j with
  | str s =>
    simp only [InPlace.resolve, resolve]
    exact ends_in_string s
  | arr items =>
    simp only [InPlace.resolve, resolve]
    exact (ends_in_items items).map Json.arr
  | obj fields =>
    simp only [InPlace.resolve, resolve]
    exact (ends_in_fields fields []).map Json.obj
  | _ =>
    simp only [InPlace.resolve, resolve]
    exact ends_in_pure _

theorem ends_in_items (items : List Json) :
    EndsIn (fun fuel => InPlace.resolveItems scope fuel items) (resolveItems scope items) := by
  cases items with
  | nil =>
    simp only [InPlace.resolveItems, resolveItems]
    exact ends_in_pure _
  | cons j rest =>
    simp only [InPlace.resolveItems, resolveItems]
    exact (ends_in_resolve j).bind fun head => (ends_in_items rest).bind fun tail => ends_in_pure (head :: tail)

theorem ends_in_fields (fields result : List (String × Json)) :
    EndsIn (fun fuel => InPlace.resolveFields scope fuel fields result) (resolveFields scope fields result) := by
  cases fields with
  | nil =>
    simp only [InPlace.resolveFields, resolveFields]
    exact ends_in_pure _
  | cons f rest =>
    obtain ⟨k, v⟩ := f
    simp only [InPlace.resolveFields, resolveFields]
    exact (ends_in_string k).bind fun key => (ends_in_resolve v).bind fun value => ends_in_fields rest _

end

end settled

/-- The code of `resolve`, which edits the text it scans, comes to an end and gives what the template
means by the strings it was written with; it fails exactly if a variable of those strings has no
value, and no other variable has a part in its result. -/
theorem template_single_pass (scope : Scope) (j : Json) :
    (∃ n, ∀ fuel, n ≤ fuel → (InPlace.resolve scope fuel j).run = some (Reference.resolve scope j)) ∧
      (∀ s : String, Splits s.toList (pieces s.length s.toList)) ∧
      ((∃ e, Reference.resolve scope j = .error e) ↔ ∃ x ∈ templateVariables j, ∃ e, resolveVariable scope x = .error e) ∧
      (∀ items r, j = .arr items → Reference.resolve scope j = .ok r →
        ∃ rs, r = .arr rs ∧ List.Forall₂ (fun j r => Reference.resolve scope j = .ok r) items rs) ∧
      (∀ fields r, j = .obj fields → Reference.resolve scope j = .ok r →
        ∃ pairs entries, List.Forall₂ (fun f p => Reference.resolveKey scope f.1 = .ok p.1 ∧
            Reference.resolve scope f.2 = .ok p.2) fields pairs ∧
          r = .obj entries ∧ (entries.map Prod.fst).Pairwise (· < ·) ∧ ∀ k, entries.lookup k = pairs.reverse.lookup k) ∧
      (∀ scope', (∀ x ∈ templateVariables j, resolveVariable scope' x = resolveVariable scope x) →
        Reference.resolve scope' j = Reference.resolve scope j) ∧
      ∀ secrets x, (∀ k, k ≠ x → secrets.lookup k = scope.secrets.lookup k) → ("secret." ++ x).toList ∉ templateVariables j →
        Reference.resolve { scope with secrets } j = Reference.resolve scope j := by
  refine ⟨?_, fun s => pieces_splits s.length (by rw [String.length_toList]), resolve_fails j, fun items r hj h => ?_,
    fun fields r hj h => ?_, fun scope' same => resolve_congr j same, fun secrets x same hvar => resolve_congr j fun y hy => ?_⟩
  · obtain ⟨n, hn⟩ := @ends_in_resolve scope j
    refine ⟨n, fun fuel hfuel => ?_⟩
    have h := hn fuel hfuel
    rw [resolve_eq] at h
    exact congrArg ExceptT.run h
  · subst hj
    rw [Reference.resolve] at h
    cases hitems : Reference.resolveItems scope items with
    | error e =>
      rw [hitems] at h
      cases h
    | ok rs =>
      rw [hitems] at h
      cases h
      exact ⟨rs, rfl, resolveItems_forall hitems⟩
  · subst hj
    rw [Reference.resolve] at h
    cases hfields : Reference.resolveFields scope fields with
    | error e =>
      rw [hfields] at h
      cases h
    | ok pairs =>
      rw [hfields] at h
      cases h
      obtain ⟨entries, heq, hsorted, hlookup⟩ := object_entries pairs
      exact ⟨pairs, entries, resolveFields_forall hfields, heq, hsorted, hlookup⟩
  · exact resolveVariable_secret same fun he => hvar (he ▸ hy)

end Invokr

import Invokr.Pipeline

namespace Invokr

theorem textAccepts_iff {s : String} : textAccepts s = true ↔ ∀ c ∈ s.toList, c.toNat ≠ 0 := by
  simp [textAccepts]

theorem textAccepts_append (s s' : String) : textAccepts (s ++ s') = (textAccepts s && textAccepts s') := by
  simp [textAccepts, String.toList_append]

theorem digit_toNat {c : Char} (h : c.isDigit = true) : c.toNat ≠ 0 := by
  simp only [Char.isDigit, Bool.and_eq_true, decide_eq_true_eq] at h
  have := UInt32.le_iff_toNat_le.mp h.1
  intro h0
  have h1 : c.val.toNat = 0 := h0
  rw [h1] at this
  simp at this

theorem textAccepts_nat (n : Nat) : textAccepts n.repr = true := by
  rw [textAccepts_iff, Nat.toList_repr]
  intro c hc
  exact digit_toNat (Nat.isDigit_of_mem_toDigits (by decide) (by decide) hc)

theorem textAccepts_int (n : Int) : textAccepts (toString n) = true := by
  cases n with
  | ofNat n => exact textAccepts_nat n
  | negSucc n =>
    change textAccepts ("-" ++ (n + 1).repr) = true
    rw [textAccepts_append, textAccepts_nat]
    rfl

theorem hexDigit_toNat {n : Nat} (h : n < 16) : (hexDigit n).toNat ≠ 0 := by
  have : n ∈ List.range 16 := List.mem_range.mpr h
  revert n
  decide

theorem backslash_toNat {a d : Char} (ha : a.toNat ≠ 0) (h : d ∈ ['\\', a]) : d.toNat ≠ 0 := by
  simp only [List.mem_cons, List.not_mem_nil, or_false] at h
  rcases h with rfl | rfl
  · decide
  · exact ha

theorem escapeChar_toNat {c d : Char} (h : d ∈ escapeChar c) : d.toNat ≠ 0 := by
  have hdiv : ∀ {n : Nat}, n < 32 → n / 16 < 16 := fun h => by omega
  have hmod : ∀ n : Nat, n % 16 < 16 := fun n => by omega
  unfold escapeChar at h
  split at h
  next => exact backslash_toNat (by decide) h
  next =>
  split at h
  next => exact backslash_toNat (by decide) h
  next =>
  split at h
  next => exact backslash_toNat (by decide) h
  next =>
  split at h
  next => exact backslash_toNat (by decide) h
  next =>
  split at h
  next => exact backslash_toNat (by decide) h
  next =>
  split at h
  next => exact backslash_toNat (by decide) h
  next =>
  split at h
  next => exact backslash_toNat (by decide) h
  next =>
  split at h
  next hlt =>
    simp only [List.mem_cons, List.not_mem_nil, or_false] at h
    rcases h with rfl | rfl | rfl | rfl | rfl | rfl
    · decide
    · decide
    · decide
    · decide
    · exact hexDigit_toNat (hdiv hlt)
    · exact hexDigit_toNat (hmod _)
  next hge =>
    rw [List.mem_singleton] at h
    subst h
    omega

theorem quote_toNat {s : String} {c : Char} (h : c ∈ quote s) : c.toNat ≠ 0 := by
  simp only [quote, List.cons_append, List.mem_cons, List.mem_append, List.mem_flatMap, List.not_mem_nil, or_false] at h
  rcases h with rfl | ⟨d, _, hd⟩ | rfl
  · decide
  · exact escapeChar_toNat hd
  · decide

theorem numberChar_toNat {c : Char} (h : isNumberChar c = true) : c.toNat ≠ 0 := by
  simp only [isNumberChar, Bool.or_eq_true, decide_eq_true_eq] at h
  rcases h with ((((h | rfl) | rfl) | rfl) | rfl) | rfl
  · exact digit_toNat h
  all_goals decide

mutual

/-- The text of a value escapes what a `TEXT` column does not take. -/
theorem chars_toNat (j : Json) {c : Char} (h : c ∈ j.chars) : c.toNat ≠ 0 := by
  cases j with
  | null =>
    have accepted : textAccepts "null" = true := by decide
    exact textAccepts_iff.mp accepted c h
  | bool b =>
    cases b with
    | true =>
      have accepted : textAccepts "true" = true := by decide
      exact textAccepts_iff.mp accepted c h
    | false =>
      have accepted : textAccepts "false" = true := by decide
      exact textAccepts_iff.mp accepted c h
  | num n =>
    cases n with
    | int n => exact textAccepts_iff.mp (textAccepts_int n) c h
    | float t => exact numberChar_toNat (List.all_eq_true.mp t.property c h)
  | str s => exact quote_toNat h
  | arr items =>
    simp only [Json.chars, List.cons_append, List.mem_cons, List.mem_append, List.not_mem_nil, or_false] at h
    rcases h with rfl | h | rfl
    · decide
    · exact charsItems_toNat items h
    · decide
  | obj fields =>
    simp only [Json.chars, List.cons_append, List.mem_cons, List.mem_append, List.not_mem_nil, or_false] at h
    rcases h with rfl | h | rfl
    · decide
    · exact charsFields_toNat fields h
    · decide

theorem charsItems_toNat (items : List Json) {c : Char} (h : c ∈ Json.charsItems items) : c.toNat ≠ 0 := by
  match items with
  | [] => cases h
  | [j] => exact chars_toNat j h
  | j :: j' :: rest =>
    simp only [Json.charsItems, List.mem_append, List.mem_cons] at h
    rcases h with h | rfl | h
    · exact chars_toNat j h
    · decide
    · exact charsItems_toNat (j' :: rest) h

theorem charsFields_toNat (fields : List (String × Json)) {c : Char} (h : c ∈ Json.charsFields fields) : c.toNat ≠ 0 := by
  match fields with
  | [] => cases h
  | [(k, v)] =>
    simp only [Json.charsFields, List.mem_append, List.mem_cons] at h
    rcases h with h | rfl | h
    · exact quote_toNat h
    · decide
    · exact chars_toNat v h
  | (k, v) :: f :: rest =>
    simp only [Json.charsFields, List.mem_append, List.mem_cons] at h
    rcases h with (h | rfl | h) | rfl | h
    · exact quote_toNat h
    · decide
    · exact chars_toNat v h
    · decide
    · exact charsFields_toNat (f :: rest) h

end

theorem textAccepts_text (j : Json) : textAccepts j.text = true := by
  rw [textAccepts_iff, Json.text, String.toList_ofList]
  exact fun c hc => chars_toNat j hc

theorem textAccepts_uuid {s : String} (h : isUuid s = true) : textAccepts s = true := by
  rw [textAccepts_iff]
  intro c hc
  simp only [isUuid, Bool.and_eq_true] at h
  have := List.all_eq_true.mp h.2 c hc
  simp only [Bool.or_eq_true, Bool.and_eq_true, decide_eq_true_eq] at this
  rcases this with (hd | ⟨ha, _⟩) | rfl
  · exact digit_toNat hd
  · intro h0
    have hle : ('a' : Char).toNat ≤ c.toNat := UInt32.le_iff_toNat_le.mp ha
    rw [h0] at hle
    exact absurd hle (by decide)
  · decide

theorem jsonbAcceptsFields_insert {k : String} {v : Json} (hk : textAccepts k = true) (hv : jsonbAccepts v = true)
    (fields : List (String × Json)) (h : jsonbAcceptsFields fields = true) :
    jsonbAcceptsFields (insertField k v fields) = true := by
  induction fields with
  | nil => simp [insertField, jsonbAcceptsFields, hk, hv]
  | cons f rest ih =>
    obtain ⟨k', v'⟩ := f
    simp only [jsonbAcceptsFields, Bool.and_eq_true] at h
    unfold insertField
    split
    next => simp [jsonbAcceptsFields, hk, hv, h.2]
    next =>
    split
    next => simp [jsonbAcceptsFields, hk, hv, h]
    next => simp [jsonbAcceptsFields, h.1, ih h.2]

theorem jsonbAccepts_object (fields : List (String × Json))
    (h : ∀ f ∈ fields, textAccepts f.1 = true ∧ jsonbAccepts f.2 = true) : jsonbAccepts (.object fields) = true := by
  have go : ∀ fields m : List (String × Json), (∀ f ∈ fields, textAccepts f.1 = true ∧ jsonbAccepts f.2 = true) →
      jsonbAcceptsFields m = true → jsonbAcceptsFields (fields.foldl (fun m f => insertField f.1 f.2 m) m) = true := by
    intro fields
    induction fields with
    | nil => exact fun m _ hm => hm
    | cons f rest ih =>
      intro m hf hm
      obtain ⟨hk, hv⟩ := hf f (List.mem_cons_self ..)
      exact ih _ (fun f' hm' => hf f' (List.mem_cons_of_mem _ hm')) (jsonbAcceptsFields_insert hk hv m hm)
  exact go fields [] h rfl

theorem jsonbAccepts_error {kind message : String} (hk : textAccepts kind = true) (hm : textAccepts message = true) :
    jsonbAccepts (errorValue kind message) = true := by
  refine jsonbAccepts_object _ fun f hf => ?_
  simp only [List.mem_cons, List.not_mem_nil, or_false] at hf
  rcases hf with rfl | rfl
  · exact ⟨show textAccepts "type" = true by decide, hk⟩
  · exact ⟨show textAccepts "message" = true by decide, hm⟩

theorem jsonbAcceptsItems_str {ids : List String} (h : ∀ id ∈ ids, textAccepts id = true) :
    jsonbAcceptsItems (ids.map .str) = true := by
  induction ids with
  | nil => rfl
  | cons id rest ih =>
    simp only [List.map_cons, jsonbAcceptsItems, jsonbAccepts, Bool.and_eq_true]
    exact ⟨h id (List.mem_cons_self ..), ih fun id' hm => h id' (List.mem_cons_of_mem _ hm)⟩

theorem textAccepts_schema {s : String} (h : validateSchemaName s = true) : textAccepts s = true := by
  rw [textAccepts_iff]
  intro c hc
  simp only [validateSchemaName, Bool.and_eq_true] at h
  have hw := List.all_eq_true.mp h.2 c hc
  intro h0
  obtain rfl : c = Char.ofNat 0 := Char.ext (UInt32.toNat_inj.mp h0)
  exact absurd hw (by decide)

/-- What the reaper answers can be stored. -/
theorem jsonbAccepts_reaped {schemaName : String} {retired : List String} (hs : textAccepts schemaName = true)
    (hr : ∀ id ∈ retired, textAccepts id = true) : jsonbAccepts (Dispatcher.reaped schemaName retired) = true := by
  refine jsonbAccepts_object _ fun f hf => ?_
  simp only [List.mem_cons, List.not_mem_nil, or_false] at hf
  rcases hf with rfl | rfl | rfl | rfl
  · exact ⟨by decide, by decide⟩
  · exact ⟨show textAccepts "schema" = true by decide, hs⟩
  · exact ⟨show textAccepts "retired_count" = true by decide, rfl⟩
  · exact ⟨show textAccepts "retired_job_ids" = true by decide, jsonbAcceptsItems_str hr⟩

end Invokr

import Mathlib.Data.List.TakeWhile

namespace TextLib

/-- The bytes a query may hold as they are. -/
def unreserved (b : UInt8) : Bool :=
  (65 ≤ b && b ≤ 90) || (97 ≤ b && b ≤ 122) || (48 ≤ b && b ≤ 57) || b = 45 || b = 95 || b = 46 || b = 126

def hexDigits : List Char := "0123456789ABCDEF".toList

def hexDigit (n : Nat) : Char := hexDigits.getD n '0'

/-- `char::to_digit(16)`, which reads both cases. -/
def hexValue (c : Char) : Option Nat :=
  if c.toUpper ∈ hexDigits then some (hexDigits.idxOf c.toUpper) else none

def percentByte (b : UInt8) : List Char :=
  if unreserved b then [Char.ofNat b.toNat] else ['%', hexDigit (b.toNat / 16), hexDigit (b.toNat % 16)]

def percentEncode (bytes : List UInt8) : List Char := bytes.flatMap percentByte

/-- A character on its own: a plus sign is a blank. -/
def plainBytes (c : Char) : List UInt8 := if c = '+' then [32] else String.utf8EncodeChar c

def percentPair (c high low : Char) : Option UInt8 :=
  if c = '%' then
    (hexValue high).bind fun h => (hexValue low).map fun l => UInt8.ofNat (16 * h + l)
  else none

/-- A `%` without two digits behind it stands for itself. -/
def formDecode : List Char → List UInt8
  | [] => []
  | [c] => plainBytes c
  | [c, d] => plainBytes c ++ plainBytes d
  | c :: high :: low :: rest =>
    match percentPair c high low with
    | some b => b :: formDecode rest
    | none => plainBytes c ++ formDecode (high :: low :: rest)

/-- The characters that have a meaning in a query. -/
def delimiters : List Char := ['&', '=', '?', '#', '+']

/-- The part of an address behind its first `?` and before a fragment. -/
def queryPart (address : List Char) : List Char := ((address.dropWhile (· ≠ '?')).tail).takeWhile (· ≠ '#')

/-- `str::bytes`. -/
def utf8Bytes (s : String) : List UInt8 := s.toList.flatMap String.utf8EncodeChar

/-- What becomes of bytes that are no UTF-8 is left to `lossy`. -/
def decodeText (lossy : List UInt8 → String) (cs : List Char) : String :=
  let bytes := formDecode cs
  (String.fromUTF8? bytes.toByteArray).getD (lossy bytes)

/-- The names and values of a query, as `form_urlencoded::parse` reads them. -/
def formPairs (lossy : List UInt8 → String) (query : List Char) : List (String × String) :=
  ((query.splitOn '&').filter (· ≠ [])).map fun piece =>
    (decodeText lossy (piece.takeWhile (· ≠ '=')), decodeText lossy (piece.dropWhile (· ≠ '=')).tail)

section decoding

variable {b : UInt8} {bytes : List UInt8} {c : Char} {rest : List Char}

theorem unreserved_table : ∀ n < 256, unreserved (UInt8.ofNat n) = true →
    plainBytes (Char.ofNat n) = [UInt8.ofNat n] ∧ Char.ofNat n ≠ '%' ∧ Char.ofNat n ∉ delimiters := by
  decide +kernel

theorem unreserved_plain (h : unreserved b = true) :
    plainBytes (Char.ofNat b.toNat) = [b] ∧ Char.ofNat b.toNat ≠ '%' ∧ Char.ofNat b.toNat ∉ delimiters := by
  have table := unreserved_table b.toNat b.toNat_lt
  rw [UInt8.ofNat_toNat] at table
  exact table h

theorem hexDigit_table : ∀ n < 16, hexValue (hexDigit n) = some n ∧ hexDigit n ∉ delimiters := by decide

theorem percentPair_digits (b : UInt8) :
    percentPair '%' (hexDigit (b.toNat / 16)) (hexDigit (b.toNat % 16)) = some b := by
  have hb := b.toNat_lt
  have high := (hexDigit_table (b.toNat / 16) (by omega)).1
  have low := (hexDigit_table (b.toNat % 16) (by omega)).1
  have sum : 16 * (b.toNat / 16) + b.toNat % 16 = b.toNat := by omega
  simp only [percentPair, if_true, high, low, Option.bind_some, Option.map_some, sum, UInt8.ofNat_toNat]

theorem formDecode_plain (hc : c ≠ '%') : formDecode (c :: rest) = plainBytes c ++ formDecode rest := by
  match rest with
  | [] => simp only [formDecode, List.append_nil]
  | [d] => simp only [formDecode]
  | high :: low :: rest =>
    have unpaired : percentPair c high low = none := if_neg hc
    simp only [formDecode, unpaired]

theorem formDecode_percentByte (b : UInt8) : formDecode (percentByte b ++ rest) = b :: formDecode rest := by
  unfold percentByte
  split
  next h =>
    obtain ⟨plain, hc, -⟩ := unreserved_plain h
    rw [List.singleton_append, formDecode_plain hc, plain, List.singleton_append]
  next h => simp only [List.cons_append, List.nil_append, formDecode, percentPair_digits]

theorem formDecode_percentEncode (bytes : List UInt8) (rest : List Char) :
    formDecode (percentEncode bytes ++ rest) = bytes ++ formDecode rest := by
  induction bytes with
  | nil => rfl
  | cons b bytes ih =>
    have unfolded : percentEncode (b :: bytes) = percentByte b ++ percentEncode bytes := List.flatMap_cons
    rw [unfolded, List.append_assoc, formDecode_percentByte, ih, List.cons_append]

theorem percentEncode_injective : Function.Injective percentEncode := by
  intro bytes bytes' h
  have decoded : ∀ bytes, formDecode (percentEncode bytes) = bytes := fun bytes => by
    simpa only [List.append_nil, formDecode] using formDecode_percentEncode bytes []
  rw [← decoded bytes, h, decoded bytes']

theorem percentEncode_undelimited (hc : c ∈ percentEncode bytes) : c ∉ delimiters := by
  obtain ⟨b, -, hc⟩ := List.mem_flatMap.mp hc
  have hb := b.toNat_lt
  unfold percentByte at hc
  split at hc
  next h =>
    rw [List.mem_singleton.mp hc]
    exact (unreserved_plain h).2.2
  next h =>
    rcases List.mem_cons.mp hc with rfl | hc
    · decide
    rcases List.mem_cons.mp hc with rfl | hc
    · exact (hexDigit_table (b.toNat / 16) (by omega)).2
    · rw [List.mem_singleton.mp hc]
      exact (hexDigit_table (b.toNat % 16) (by omega)).2

end decoding

section pairs

variable {lossy : List UInt8 → String} {name : String} {param : String × String} {params : List (String × String)}
  {c : Char} {cs : List Char}

/-- A name that a query may hold as it is. -/
def PlainName (name : String) : Prop := ∀ c ∈ name.toList, c ≠ '%' ∧ c ∉ delimiters

instance : DecidablePred PlainName := fun name => List.decidableBAll _ name.toList

def encodedText (s : String) : List Char := percentEncode (utf8Bytes s)

def pairText (param : String × String) : List Char := param.1.toList ++ '=' :: encodedText param.2

def queryText (params : List (String × String)) : List Char := List.intercalate ['&'] (params.map pairText)

theorem decodeText_of (s : String) (h : formDecode cs = utf8Bytes s) : decodeText lossy cs = s := by
  have bytes : (utf8Bytes s).toByteArray = s.toByteArray := String.utf8Encode_toList
  have valid : String.fromUTF8? s.toByteArray = some s := dif_pos s.isValidUTF8
  simp only [decodeText, h, bytes, valid, Option.getD_some]

theorem decodeText_encodedText (s : String) : decodeText lossy (encodedText s) = s := by
  have decoded := formDecode_percentEncode (utf8Bytes s) []
  simp only [List.append_nil, formDecode] at decoded
  exact decodeText_of s decoded

theorem formDecode_plainText (h : ∀ c ∈ cs, c ≠ '%' ∧ c ∉ delimiters) : formDecode cs = cs.flatMap String.utf8EncodeChar := by
  induction cs with
  | nil => rfl
  | cons c cs ih =>
    obtain ⟨hc, hd⟩ := h c List.mem_cons_self
    have unsigned : c ≠ '+' := fun he => hd (by rw [he]; decide)
    have alone : plainBytes c = String.utf8EncodeChar c := if_neg unsigned
    rw [formDecode_plain hc, alone, ih fun d hd => h d (List.mem_cons_of_mem _ hd), List.flatMap_cons]

theorem decodeText_name (h : PlainName name) : decodeText lossy name.toList = name :=
  decodeText_of name (formDecode_plainText h)

theorem pairText_undelimited (h : PlainName param.1) (hc : c ∈ pairText param) : c = '=' ∨ c ∉ delimiters := by
  rcases List.mem_append.mp hc with hc | hc
  · exact .inr (h c hc).2
  rcases List.mem_cons.mp hc with rfl | hc
  · exact .inl rfl
  · exact .inr (percentEncode_undelimited hc)

theorem formPair_pairText (h : PlainName param.1) :
    (decodeText lossy ((pairText param).takeWhile (· ≠ '=')),
      decodeText lossy ((pairText param).dropWhile (· ≠ '=')).tail) = param := by
  have name : ∀ c ∈ param.1.toList, (decide (c ≠ '=')) = true := fun c hc =>
    decide_eq_true fun he => (h c hc).2 (by rw [he]; decide)
  have front : (pairText param).takeWhile (· ≠ '=') = param.1.toList := by
    rw [pairText, List.takeWhile_append_of_pos name, List.takeWhile_cons_of_neg (by simp), List.append_nil]
  have back : ((pairText param).dropWhile (· ≠ '=')).tail = encodedText param.2 := by
    rw [pairText, List.dropWhile_append_of_pos name, List.dropWhile_cons_of_neg (by simp), List.tail_cons]
  rw [front, back, decodeText_name h, decodeText_encodedText]

/-- Splitting and decoding gives back the names and values a query was made of. -/
theorem formPairs_queryText (h : ∀ param ∈ params, PlainName param.1) : formPairs lossy (queryText params) = params := by
  cases hp : params with
  | nil => rfl
  | cons first others =>
    have separate : ∀ piece ∈ params.map pairText, '&' ∉ piece := by
      intro piece hm hc
      obtain ⟨param, hparam, rfl⟩ := List.mem_map.mp hm
      rcases pairText_undelimited (h param hparam) hc with he | he
      · exact absurd he (by decide)
      · exact he (by decide)
    have pieces : (queryText params).splitOn '&' = params.map pairText := by
      refine List.splitOn_intercalate '&' separate ?_
      rw [hp]
      exact List.cons_ne_nil _ _
    have nonempty : ∀ piece ∈ params.map pairText, decide (piece ≠ []) = true := by
      intro piece hm
      obtain ⟨param, -, rfl⟩ := List.mem_map.mp hm
      exact decide_eq_true (by simp [pairText])
    rw [← hp, formPairs, pieces, List.filter_eq_self.mpr nonempty, List.map_map]
    exact (List.map_congr_left fun param hparam => formPair_pairText (h param hparam)).trans params.map_id

theorem intercalate_snoc {α : Type} {sep l : List α} {ls : List (List α)} (h : ls ≠ []) :
    List.intercalate sep (ls ++ [l]) = List.intercalate sep ls ++ sep ++ l := by
  induction ls with
  | nil => exact absurd rfl h
  | cons first ls ih =>
    by_cases hl : ls = []
    · rw [hl]
      simp [List.intercalate_singleton, List.intercalate_cons_cons]
    · have long : ls ++ [l] ≠ [] := List.append_ne_nil_of_left_ne_nil hl _
      rw [List.cons_append, List.intercalate_cons_of_ne_nil long, ih hl, List.intercalate_cons_of_ne_nil hl]
      simp only [List.append_assoc]

theorem queryText_snoc (h : params ≠ []) : queryText (params ++ [param]) = queryText params ++ '&' :: pairText param := by
  have some : params.map pairText ≠ [] := fun he => h (List.map_eq_nil_iff.mp he)
  rw [queryText, List.map_append, List.map_singleton, intercalate_snoc some, List.append_assoc, List.singleton_append]
  rfl

theorem mem_intercalate {α : Type} {x : α} {sep : List α} {ls : List (List α)} (h : x ∈ List.intercalate sep ls) :
    x ∈ sep ∨ ∃ l ∈ ls, x ∈ l := by
  induction ls with
  | nil => exact absurd h List.not_mem_nil
  | cons l ls ih =>
    by_cases hl : ls = []
    · rw [hl, List.intercalate_singleton] at h
      exact .inr ⟨l, List.mem_cons_self, h⟩
    · rw [List.intercalate_cons_of_ne_nil hl, List.append_assoc] at h
      rcases List.mem_append.mp h with h | h
      · exact .inr ⟨l, List.mem_cons_self, h⟩
      rcases List.mem_append.mp h with h | h
      · exact .inl h
      rcases ih h with h | ⟨l', hl', h⟩
      · exact .inl h
      · exact .inr ⟨l', List.mem_cons_of_mem _ hl', h⟩

/-- A query ends an address, as it holds no fragment's mark. -/
theorem queryPart_queryText (h : ∀ param ∈ params, PlainName param.1) : queryPart ('?' :: queryText params) = queryText params := by
  have inside : ∀ c ∈ queryText params, (decide (c ≠ '#')) = true := by
    intro c hc
    refine decide_eq_true fun he => ?_
    subst he
    obtain ⟨piece, hpiece, hc⟩ := (mem_intercalate hc).resolve_left (by decide)
    obtain ⟨param, hparam, rfl⟩ := List.mem_map.mp hpiece
    rcases pairText_undelimited (h param hparam) hc with he | he
    · exact absurd he (by decide)
    · exact he (by decide)
  have start : ('?' :: queryText params).dropWhile (· ≠ '?') = '?' :: queryText params := List.dropWhile_cons_of_neg (by simp)
  rw [queryPart, start, List.tail_cons, List.takeWhile_eq_self_iff.mpr inside]

end pairs

end TextLib

import Invokr.Crypto

namespace Invokr

namespace Crypto

open InPlace

/-- Two characters that `u8::from_str_radix` takes: a plus sign or a hexadecimal digit, and such a digit. -/
def Number (p : List Char) : Prop :=
  ∃ c d, p = [c, d] ∧ (c = '+' ∨ (digit16 c).isSome = true) ∧ (digit16 d).isSome = true

/-- The next two bytes of the text end within a character. -/
def Cut (s : List Char) : Prop :=
  ∃ c r, s = c :: r ∧ (2 < c.utf8Size ∨ c.utf8Size = 1 ∧ ∃ d r', r = d :: r' ∧ d.utf8Size ≠ 1)

/-- After some numbers the text is cut within a character. -/
def CutShort (s : List Char) : Prop := ∃ (pairs : List (List Char)) (rest : List Char), s = pairs.flatten ++ rest ∧ (∀ p ∈ pairs, Number p) ∧ Cut rest

def Numbers (s : List Char) : Prop := ∃ pairs : List (List Char), s = pairs.flatten ∧ ∀ p ∈ pairs, Number p

/-- The text is made of numbers, and one of them has a sign. -/
def Signed (s : List Char) : Prop :=
  ∃ pairs : List (List Char), s = pairs.flatten ∧ (∀ p ∈ pairs, Number p) ∧ ∃ p ∈ pairs, p.head? = some '+'

/-- Exactly 64 hexadecimal digits. -/
def HexKey (key : String) : Prop := key.toList.length = 64 ∧ ∀ c ∈ key.toList, (digit16 c).isSome = true

def pairValue (c d : Char) : UInt8 := UInt8.ofNat (16 * (digit16 c).getD 0 + (digit16 d).getD 0)

/-- The bytes that hexadecimal digits denote. -/
def hexBytes : List Char → List UInt8
  | c :: d :: rest => pairValue c d :: hexBytes rest
  | _ => []

/-- The code reads the key otherwise than as 64 digits: it panics, or takes a sign for a digit. -/
def Misread (key : String) : Prop := String.utf8Len key.toList = 64 ∧ (CutShort key.toList ∨ Signed key.toList)

/-- What is expected of a key: the call comes back, takes the key if it is of 64 digits and gives the bytes they denote,
and what is encrypted with it is framed by the nonce and can be decrypted. -/
structure Framed (aes : Aes256Gcm) (utf8Error : List UInt8 → String) (key : String) : Prop where
  total : hexDecode key ≠ panics
  accepts : ∀ bytes, hexDecode key = pure bytes ↔ HexKey key ∧ bytes = hexBytes key.toList
  size : ∀ bytes, hexDecode key = pure bytes → bytes.length = 32
  inverse : ∀ bytes nonce plaintext ciphertext, hexDecode key = pure bytes → nonce.length = 12 →
    aes.encrypt bytes nonce plaintext.toUTF8.data.toList = .ok ciphertext →
      encrypt aes nonce plaintext key = pure (nonce ++ ciphertext) ∧
        decrypt aes utf8Error (nonce ++ ciphertext) key = pure plaintext
  decrypts : ∀ data, decrypt aes utf8Error data key ≠ panics

section digits

variable {c d : Char} {s r : List Char} {n : Nat}

/-- The three ranges of the digits. -/
theorem digit16_range (h : digit16 c = some n) : (48 ≤ c.toNat ∧ c.toNat ≤ 57 ∧ n = c.toNat - 48) ∨
    (97 ≤ c.toNat ∧ c.toNat ≤ 102 ∧ n = c.toNat - 87) ∨ (65 ≤ c.toNat ∧ c.toNat ≤ 70 ∧ n = c.toNat - 55) := by
  have bound : ∀ {a b : Char}, a ≤ b → a.toNat ≤ b.toNat := fun h => UInt32.le_iff_toNat_le.mp (Char.le_def.mp h)
  unfold digit16 at h
  split at h
  next hc => exact Or.inl ⟨bound hc.1, bound hc.2, (Option.some.inj h).symm⟩
  split at h
  next hc => exact Or.inr (Or.inl ⟨bound hc.1, bound hc.2, (Option.some.inj h).symm⟩)
  split at h
  next hc => exact Or.inr (Or.inr ⟨bound hc.1, bound hc.2, (Option.some.inj h).symm⟩)
  next => cases h

theorem digit16_lt (h : digit16 c = some n) : n < 16 := by
  have := digit16_range h
  omega

theorem digit16_ascii (h : (digit16 c).isSome = true) : c.utf8Size = 1 := by
  obtain ⟨n, hn⟩ := Option.isSome_iff_exists.mp h
  have range := digit16_range hn
  refine Char.utf8Size_eq_one_iff.mpr (UInt32.le_iff_toNat_le.mpr ?_)
  change c.toNat ≤ 127
  omega

theorem number_ascii (h : Number [c, d]) : c.utf8Size = 1 ∧ d.utf8Size = 1 := by
  obtain ⟨c', d', he, hc, hd⟩ := h
  cases he
  refine ⟨?_, digit16_ascii hd⟩
  rcases hc with rfl | hc
  · decide
  · exact digit16_ascii hc

theorem digits16_ok (m : Nat) (hd : digit16 d = some n) (hm : m < 16) : digits16 m d = .ok (16 * m + n) := by
  have := digit16_lt hd
  have fits : ¬255 < 16 * m + n := by omega
  simp only [digits16, hd, if_neg fits]

theorem digits16_bad (m : Nat) (hd : digit16 d = none) : digits16 m d = .error invalidDigit := by
  simp only [digits16, hd]

theorem ok_then {α β : Type} (a : α) (f : α → Except String β) : (Except.ok a >>= f) = f a := rfl

/-- Two characters are read as a byte if they are a number. -/
theorem pair_read (c d : Char) : (Number [c, d] ∧ u8FromStrRadix16 [c, d] = .ok (pairValue c d)) ∨
    (¬Number [c, d] ∧ ∃ e, u8FromStrRadix16 [c, d] = .error e) := by
  have plain : u8FromStrRadix16 [c, d] =
      ((if c = '+' then [d] else [c, d]).foldlM digits16 0).map UInt8.ofNat := by
    simp [u8FromStrRadix16]
  have noSign : digit16 '+' = none := by decide
  by_cases good : (c = '+' ∨ (digit16 c).isSome = true) ∧ (digit16 d).isSome = true
  · obtain ⟨n, hn⟩ := Option.isSome_iff_exists.mp good.2
    refine Or.inl ⟨⟨c, d, rfl, good⟩, ?_⟩
    rw [plain]
    by_cases sign : c = '+'
    · rw [if_pos sign, pairValue, sign, noSign, hn, List.foldlM_cons, digits16_ok 0 hn (by decide)]
      rfl
    · obtain ⟨m, hm⟩ := Option.isSome_iff_exists.mp (good.1.resolve_left sign)
      have first := digits16_ok 0 hm (by decide)
      rw [Nat.mul_zero, Nat.zero_add] at first
      rw [if_neg sign, pairValue, hm, hn, List.foldlM_cons, first, ok_then, List.foldlM_cons, digits16_ok m hn (digit16_lt hm)]
      rfl
  · refine Or.inr ⟨?_, ?_⟩
    · rintro ⟨c', d', he, h⟩
      cases he
      exact good h
    · rw [plain]
      by_cases sign : c = '+'
      · cases hn : digit16 d with
        | none => exact ⟨invalidDigit, by rw [if_pos sign, List.foldlM_cons, digits16_bad 0 hn]; rfl⟩
        | some n => exact absurd ⟨Or.inl sign, by simp [hn]⟩ good
      · rw [if_neg sign, List.foldlM_cons]
        cases hm : digit16 c with
        | none => exact ⟨invalidDigit, by rw [digits16_bad 0 hm]; rfl⟩
        | some m =>
          cases hn : digit16 d with
          | none => exact ⟨invalidDigit, by rw [digits16_ok 0 hm (by decide), ok_then, List.foldlM_cons, digits16_bad _ hn]; rfl⟩
          | some n => exact absurd ⟨Or.inr (by simp [hm]), by simp [hn]⟩ good

/-- A character of two bytes is no number. -/
theorem wide_read (hc : c.utf8Size = 2) : ∃ e, u8FromStrRadix16 [c] = .error e := by
  have none : digit16 c = none := by
    cases h : digit16 c with
    | none => rfl
    | some n =>
      have ascii := digit16_ascii (c := c) (by simp [h])
      omega
  have sign : c ≠ '+' := by
    rintro rfl
    revert hc
    decide
  refine ⟨invalidDigit, ?_⟩
  unfold u8FromStrRadix16
  split
  next h => cases h
  split
  next => rfl
  next =>
    have plain : (if [c].head? = some '+' then [c].tail else [c]) = [c] := by simp [sign]
    rw [plain, List.foldlM_cons, digits16_bad 0 none]
    rfl

end digits

section pairs

/-- `hex_decode` from some offset on: `n` pairs of bytes, one after the other. -/
def readPairs : Nat → List Char → Fallible (List UInt8)
  | 0, _ => return []
  | n + 1, s => do
    let (pair, rest) ← (splitAtByte s 2 : Fallible (List Char × List Char))
    let b ← (ExceptT.mk (some (u8FromStrRadix16 pair)) : Fallible UInt8)
    return b :: (← readPairs n rest)

variable {a b s l r : List Char} {n k : Nat}

theorem readPairs_step (h : splitAtByte s 2 = some (l, r)) : readPairs (n + 1) s = (do
    let b ← (ExceptT.mk (some (u8FromStrRadix16 l)) : Fallible UInt8)
    return b :: (← readPairs n r)) := by
  rw [readPairs, h]
  rfl

theorem splitAtByte_add (a b : List Char) (n : Nat) :
    splitAtByte (a ++ b) (String.utf8Len a + n) = (splitAtByte b n).map fun p => (a ++ p.1, p.2) := by
  induction a with
  | nil => simp
  | cons c a ih =>
    have hpos : 0 < c.utf8Size := c.utf8Size_pos
    obtain ⟨m, hm⟩ : ∃ m, String.utf8Len (c :: a) + n = m + 1 := ⟨String.utf8Len (c :: a) + n - 1, by
      rw [String.utf8Len_cons]
      omega⟩
    rw [String.utf8Len_cons] at hm
    have le : c.utf8Size ≤ m + 1 := by omega
    have sub : m + 1 - c.utf8Size = String.utf8Len a + n := by omega
    rw [String.utf8Len_cons, hm, List.cons_append, splitAtByte, if_pos le, sub, ih, Option.map_map]
    rfl

theorem splitAtByte_spec (h : splitAtByte s n = some (l, r)) : s = l ++ r ∧ String.utf8Len l = n := by
  induction s generalizing n l r with
  | nil =>
    cases n with
    | zero =>
      cases h
      exact ⟨rfl, rfl⟩
    | succ n => cases h
  | cons c s ih =>
    cases n with
    | zero =>
      cases h
      exact ⟨rfl, rfl⟩
    | succ n =>
      rw [splitAtByte] at h
      split at h
      next le =>
        obtain ⟨p, hp, he⟩ := Option.map_eq_some_iff.mp h
        cases he
        obtain ⟨hs, hl⟩ := ih hp
        rw [String.utf8Len_cons, hl, List.cons_append, ← hs]
        exact ⟨rfl, by omega⟩
      next => cases h

theorem slice_from (a b : List Char) (n : Nat) :
    slice (a ++ b) (String.utf8Len a) (String.utf8Len a + n) = (splitAtByte b n).map Prod.fst := by
  unfold slice
  rw [splitAtByte_add]
  cases h : splitAtByte b n with
  | none => rfl
  | some p => exact sliceFrom_append a p.1

theorem offsets_read (ha : String.utf8Len a = 2 * k) (n : Nat) :
    ((List.range' k n).map (2 * ·)).mapM (fun i => (do
      let pair ← (slice (a ++ b) i (i + 2) : Fallible (List Char))
      ExceptT.mk (some (u8FromStrRadix16 pair)) : Fallible UInt8)) = readPairs n b := by
  induction n generalizing k a b with
  | zero => rfl
  | succ n ih =>
    rw [List.range'_succ, List.map_cons, List.mapM_cons, readPairs, ← ha, slice_from]
    cases h : splitAtByte b 2 with
    | none => rfl
    | some p =>
      obtain ⟨hb, hp⟩ := splitAtByte_spec h
      have next := @ih (a ++ p.1) p.2 (k + 1) (by rw [String.utf8Len_append, ha, hp]; omega)
      rw [List.append_assoc, ← hb] at next
      rw [Option.map_some, next]
      simp only [bind_assoc]
      rfl

theorem hexDecode_pairs {key : String} (h : String.utf8Len key.toList = 64) : hexDecode key = readPairs 32 key.toList := by
  unfold hexDecode
  rw [if_neg (not_not.mpr h), h]
  exact offsets_read (a := []) (k := 0) rfl 32

/-- How the next two bytes of a text that has them lie in its characters. -/
theorem split_two (h : String.utf8Len s = 2 * (n + 1)) :
    (∃ c d r, s = c :: d :: r ∧ c.utf8Size = 1 ∧ d.utf8Size = 1 ∧ splitAtByte s 2 = some ([c, d], r)) ∨
      (∃ c r, s = c :: r ∧ c.utf8Size = 2 ∧ splitAtByte s 2 = some ([c], r)) ∨ (Cut s ∧ splitAtByte s 2 = none) := by
  cases s with
  | nil => simp at h
  | cons c s =>
    rw [String.utf8Len_cons] at h
    have positive := c.utf8Size_pos
    by_cases one : c.utf8Size = 1
    · cases s with
      | nil => simp at h; omega
      | cons d s =>
        have positive' := d.utf8Size_pos
        by_cases one' : d.utf8Size = 1
        · exact Or.inl ⟨c, d, s, rfl, one, one', by cases s <;> simp [splitAtByte, one, one']⟩
        · refine Or.inr (Or.inr ⟨⟨c, d :: s, rfl, Or.inr ⟨one, d, s, rfl, one'⟩⟩, ?_⟩)
          have wide : ¬d.utf8Size ≤ 1 := by omega
          simp [splitAtByte, one, wide]
    · by_cases two : c.utf8Size = 2
      · exact Or.inr (Or.inl ⟨c, s, rfl, two, by cases s <;> simp [splitAtByte, two]⟩)
      · have wide : ¬c.utf8Size ≤ 2 := by omega
        exact Or.inr (Or.inr ⟨⟨c, s, rfl, Or.inl (by omega)⟩, by simp [splitAtByte, wide]⟩)

theorem not_cut_pair {c d : Char} (hc : c.utf8Size = 1) (hd : d.utf8Size = 1) : ¬Cut (c :: d :: s) := by
  rintro ⟨c', r, he, wide | ⟨_, d', r', hr, hd'⟩⟩
  · cases he
    omega
  · cases he
    cases hr
    exact hd' hd

theorem not_cut_wide {c : Char} (hc : c.utf8Size = 2) : ¬Cut (c :: s) := by
  rintro ⟨c', r, he, wide | ⟨one, _⟩⟩
  · cases he
    omega
  · cases he
    omega

/-- Numbers and what follows them, where the text begins with a pair of characters. -/
theorem numbers_cons {pairs : List (List Char)} {rest : List Char} {c d : Char} (he : c :: d :: s = pairs.flatten ++ rest)
    (numbers : ∀ p ∈ pairs, Number p) : (pairs = [] ∧ rest = c :: d :: s) ∨
      ∃ pairs', pairs = [c, d] :: pairs' ∧ s = pairs'.flatten ++ rest := by
  cases pairs with
  | nil => exact Or.inl ⟨rfl, he.symm⟩
  | cons p pairs =>
    obtain ⟨c', d', rfl, _⟩ := numbers p List.mem_cons_self
    rw [List.flatten_cons, List.append_assoc] at he
    cases he
    exact Or.inr ⟨pairs, rfl, rfl⟩

theorem cutShort_cons {c d : Char} (number : Number [c, d]) : CutShort (c :: d :: s) ↔ CutShort s := by
  constructor
  · rintro ⟨pairs, rest, he, numbers, cut⟩
    rcases numbers_cons he numbers with ⟨-, rfl⟩ | ⟨pairs', rfl, hs⟩
    · exact (not_cut_pair (number_ascii number).1 (number_ascii number).2 cut).elim
    · exact ⟨pairs', rest, hs, fun p hp => numbers p (List.mem_cons_of_mem _ hp), cut⟩
  · rintro ⟨pairs, rest, rfl, numbers, cut⟩
    exact ⟨[c, d] :: pairs, rest, rfl, List.forall_mem_cons.mpr ⟨number, numbers⟩, cut⟩

theorem numbers_iff {c d : Char} : Numbers (c :: d :: s) ↔ Number [c, d] ∧ Numbers s := by
  constructor
  · rintro ⟨pairs, he, numbers⟩
    have all : c :: d :: s = pairs.flatten ++ [] := by rw [he, List.append_nil]
    rcases numbers_cons all numbers with ⟨-, he⟩ | ⟨pairs', rfl, hs⟩
    · cases he
    · rw [List.append_nil] at hs
      obtain ⟨number, others⟩ := List.forall_mem_cons.mp numbers
      exact ⟨number, pairs', hs, others⟩
  · rintro ⟨number, pairs, rfl, numbers⟩
    exact ⟨[c, d] :: pairs, rfl, List.forall_mem_cons.mpr ⟨number, numbers⟩⟩

/-- A text that begins with no number has none. -/
theorem no_numbers {pairs : List (List Char)} {rest : List Char} (he : s = pairs.flatten ++ rest) (numbers : ∀ p ∈ pairs, Number p)
    (first : ∀ c d r, s = c :: d :: r → ¬Number [c, d]) : rest = s := by
  cases pairs with
  | nil => exact he.symm
  | cons p pairs =>
    obtain ⟨c, d, rfl, _⟩ := numbers p List.mem_cons_self
    exact (first c d _ he (numbers _ List.mem_cons_self)).elim

theorem not_numbers_of_cut (h : CutShort s) : ¬Numbers s := by
  obtain ⟨pairs, rest, rfl, numbers, cut⟩ := h
  induction pairs with
  | nil =>
    rintro ⟨ps, he, all⟩
    cases ps with
    | nil =>
      obtain ⟨c, r, hr, -⟩ := cut
      rw [hr] at he
      cases he
    | cons p ps =>
      obtain ⟨c, d, rfl, _⟩ := id (all p List.mem_cons_self)
      obtain ⟨hc, hd⟩ := number_ascii (all _ List.mem_cons_self)
      rw [List.flatten_nil, List.nil_append] at he
      rw [he] at cut
      exact not_cut_pair hc hd cut
  | cons p pairs ih =>
    obtain ⟨number, others⟩ := List.forall_mem_cons.mp numbers
    obtain ⟨c, d, rfl, _⟩ := number
    exact fun all => ih others (numbers_iff.mp all).2

/-- The pairs are cut within a character, or one is no number and comes before such a cut, or all are numbers. -/
theorem readPairs_outcome (h : String.utf8Len s = 2 * n) : (readPairs n s = panics ∧ CutShort s) ∨
    ((∃ e, readPairs n s = ExceptT.mk (some (.error e))) ∧ ¬CutShort s ∧ ¬Numbers s) ∨
    (readPairs n s = ExceptT.mk (some (.ok (hexBytes s))) ∧ ¬CutShort s ∧ Numbers s) := by
  induction n generalizing s with
  | zero =>
    have empty : s = [] := by
      cases s with
      | nil => rfl
      | cons c s =>
        have := c.utf8Size_pos
        rw [String.utf8Len_cons] at h
        omega
    subst empty
    refine Or.inr (Or.inr ⟨rfl, ?_, [], rfl, by simp⟩)
    rintro ⟨pairs, rest, he, -, c, r, rfl, -⟩
    simp at he
  | succ n ih =>
    rcases split_two h with ⟨c, d, r, rfl, hc, hd, hs⟩ | ⟨c, r, rfl, hc, hs⟩ | ⟨cut, hs⟩
    · rcases pair_read c d with ⟨number, value⟩ | ⟨bad, e, error⟩
      · have rest : String.utf8Len r = 2 * n := by
          rw [String.utf8Len_cons, String.utf8Len_cons] at h
          omega
        rw [cutShort_cons number, numbers_iff, readPairs_step hs, value]
        rcases ih rest with ⟨hr, cut⟩ | ⟨⟨e, hr⟩, cut, none⟩ | ⟨hr, cut, all⟩
        · exact Or.inl ⟨by rw [hr]; rfl, cut⟩
        · exact Or.inr (Or.inl ⟨⟨e, by rw [hr]; rfl⟩, cut, fun all => none all.2⟩)
        · exact Or.inr (Or.inr ⟨by rw [hr]; rfl, cut, number, all⟩)
      · refine Or.inr (Or.inl ⟨⟨e, by rw [readPairs_step hs, error]; rfl⟩, ?_, fun all => bad (numbers_iff.mp all).1⟩)
        rintro ⟨pairs, rest, he, numbers, cut⟩
        rw [no_numbers he numbers fun c' d' r' hcd => by cases hcd; exact bad] at cut
        exact not_cut_pair hc hd cut
    · obtain ⟨e, error⟩ := wide_read hc
      have first : ∀ c' d' r', c :: r = c' :: d' :: r' → ¬Number [c', d'] := by
        intro c' d' r' he number
        have ascii := (number_ascii number).1
        cases he
        omega
      refine Or.inr (Or.inl ⟨⟨e, by rw [readPairs_step hs, error]; rfl⟩, ?_, ?_⟩)
      · rintro ⟨pairs, rest, he, numbers, cut⟩
        rw [no_numbers he numbers first] at cut
        exact not_cut_wide hc cut
      · rintro ⟨pairs, he, numbers⟩
        have all : c :: r = pairs.flatten ++ [] := by rw [he, List.append_nil]
        cases no_numbers all numbers first
    · exact Or.inl ⟨by rw [readPairs, hs]; rfl, [], s, rfl, by simp, cut⟩

end pairs

section keys

variable {s s' : List Char} {key key' : String} {bytes : List UInt8} {aes : Aes256Gcm} {utf8Error : List UInt8 → String}

/-- The spelling of a digit's value. -/
def hexChar (n : Nat) : Char := Char.ofNat (if n < 10 then 48 + n else 87 + n)

theorem toLower_digit {c : Char} {n : Nat} (h : digit16 c = some n) : c.toLower = hexChar n := by
  have table : ∀ m < 103, ∀ k < 16, digit16 (Char.ofNat m) = some k → (Char.ofNat m).toLower = hexChar k := by decide +kernel
  have range := digit16_range h
  have := table c.toNat (by omega) n (digit16_lt h)
  rw [Char.ofNat_toNat] at this
  exact this h

theorem numbers_length (h : Numbers s) : String.utf8Len s = s.length ∧ 2 * (hexBytes s).length = s.length := by
  obtain ⟨pairs, rfl, numbers⟩ := h
  induction pairs with
  | nil => exact ⟨rfl, rfl⟩
  | cons p pairs ih =>
    obtain ⟨number, others⟩ := List.forall_mem_cons.mp numbers
    obtain ⟨c, d, rfl, _⟩ := id number
    obtain ⟨hc, hd⟩ := number_ascii number
    obtain ⟨len, bytes⟩ := ih others
    change String.utf8Len (c :: d :: pairs.flatten) = _ ∧ 2 * (hexBytes (c :: d :: pairs.flatten)).length = (c :: d :: pairs.flatten).length
    rw [String.utf8Len_cons, String.utf8Len_cons, hexBytes]
    simp only [List.length_cons]
    simp only [List.flatten_cons, List.cons_append, List.nil_append, List.length_cons]
    omega

/-- Numbers without a sign are digits. -/
theorem digits_of_numbers (h : Numbers s) (unsigned : ¬Signed s) : ∀ c ∈ s, (digit16 c).isSome = true := by
  obtain ⟨pairs, rfl, numbers⟩ := h
  intro c hc
  obtain ⟨p, hp, hcp⟩ := List.mem_flatten.mp hc
  obtain ⟨a, b, rfl, ha, hb⟩ := numbers p hp
  have first : (digit16 a).isSome = true := ha.resolve_left fun sign =>
    unsigned ⟨pairs, rfl, numbers, _, hp, by rw [sign]; rfl⟩
  simp only [List.mem_cons, List.not_mem_nil, or_false] at hcp
  rcases hcp with rfl | rfl
  · exact first
  · exact hb

theorem unsigned_of_digits (digits : ∀ c ∈ s, (digit16 c).isSome = true) : ¬Signed s := by
  rintro ⟨pairs, rfl, numbers, p, hp, sign⟩
  obtain ⟨a, b, rfl, _⟩ := numbers p hp
  have ha := digits a (List.mem_flatten.mpr ⟨_, hp, List.mem_cons_self⟩)
  rw [Option.some.inj sign] at ha
  revert ha
  decide

theorem numbers_of_digits {n : Nat} (digits : ∀ c ∈ s, (digit16 c).isSome = true) (even : s.length = 2 * n) : Numbers s := by
  induction n generalizing s with
  | zero => exact ⟨[], List.length_eq_zero_iff.mp even, by simp⟩
  | succ n ih =>
    match s with
    | [] => simp at even
    | [c] => simp at even; omega
    | c :: d :: s =>
      have rest := ih (fun a ha => digits a (List.mem_cons_of_mem _ (List.mem_cons_of_mem _ ha))) (by simpa [Nat.mul_succ] using even)
      exact numbers_iff.mpr ⟨⟨c, d, rfl, Or.inr (digits c (by simp)), digits d (by simp)⟩, rest⟩

theorem hexDecode_short (h : String.utf8Len key.toList ≠ 64) :
    hexDecode key = throw "Encryption key must be 64 hex chars (32 bytes)" := by
  rw [hexDecode, if_pos h]

/-- What `hex_decode` accepts. -/
theorem hexDecode_ok : hexDecode key = pure bytes ↔
    String.utf8Len key.toList = 64 ∧ Numbers key.toList ∧ bytes = hexBytes key.toList := by
  by_cases h : String.utf8Len key.toList = 64
  · rw [hexDecode_pairs h]
    rcases readPairs_outcome (n := 32) h with ⟨hr, cut⟩ | ⟨⟨e, hr⟩, -, none⟩ | ⟨hr, -, all⟩
    · rw [hr]
      exact iff_of_false (fun he => by cases he) fun hk => not_numbers_of_cut cut hk.2.1
    · rw [hr]
      exact iff_of_false (fun he => by cases he) fun hk => none hk.2.1
    · rw [hr]
      constructor
      · intro he
        cases he
        exact ⟨h, all, rfl⟩
      · rintro ⟨-, -, rfl⟩
        rfl
  · rw [hexDecode_short h]
    exact iff_of_false (fun he => by cases he) fun hk => h hk.1

theorem hexDecode_panics : hexDecode key = panics ↔ String.utf8Len key.toList = 64 ∧ CutShort key.toList := by
  by_cases h : String.utf8Len key.toList = 64
  · rw [hexDecode_pairs h]
    rcases readPairs_outcome (n := 32) h with ⟨hr, cut⟩ | ⟨⟨e, hr⟩, uncut, -⟩ | ⟨hr, uncut, -⟩
    · exact iff_of_true hr ⟨h, cut⟩
    · rw [hr]
      exact iff_of_false (fun he => by cases he) fun hk => uncut hk.2
    · rw [hr]
      exact iff_of_false (fun he => by cases he) fun hk => uncut hk.2
  · rw [hexDecode_short h]
    exact iff_of_false (fun he => by cases he) fun hk => h hk.1

theorem hexKey_iff : HexKey key ↔ String.utf8Len key.toList = 64 ∧ Numbers key.toList ∧ ¬Signed key.toList := by
  constructor
  · rintro ⟨len, digits⟩
    have numbers : Numbers key.toList := numbers_of_digits (n := 32) digits len
    exact ⟨(numbers_length numbers).1.trans len, numbers, unsigned_of_digits digits⟩
  · rintro ⟨len, numbers, unsigned⟩
    exact ⟨(numbers_length numbers).1.symm.trans len, digits_of_numbers numbers unsigned⟩

theorem hexDecode_size (h : hexDecode key = pure bytes) : bytes.length = 32 := by
  obtain ⟨len, numbers, rfl⟩ := hexDecode_ok.mp h
  have := numbers_length numbers
  omega

theorem fallible_cases {α : Type} (x : Fallible α) : x = panics ∨ (∃ e, x = throw e) ∨ ∃ a, x = pure a := by
  rcases h : x.run with _ | (e | a)
  · exact Or.inl h
  · exact Or.inr (Or.inl ⟨e, h⟩)
  · exact Or.inr (Or.inr ⟨a, h⟩)

/-- A ciphertext behind its nonce is decrypted to the text it was made of. -/
theorem decrypt_encrypt {nonce ciphertext : List UInt8} {plaintext : String} (h : hexDecode key = pure bytes)
    (drawn : nonce.length = 12) (sealed : aes.encrypt bytes nonce plaintext.toUTF8.data.toList = .ok ciphertext) :
    encrypt aes nonce plaintext key = pure (nonce ++ ciphertext) ∧
      decrypt aes utf8Error (nonce ++ ciphertext) key = pure plaintext := by
  have fits : newFromSlice bytes = pure () := if_pos (hexDecode_size h)
  have framed : nonceFromSlice nonce = pure nonce := if_pos drawn
  have long : ¬(nonce ++ ciphertext).length < 12 := by
    rw [List.length_append]
    omega
  have cut : splitAt (nonce ++ ciphertext) 12 = pure (nonce, ciphertext) := by
    rw [splitAt, if_pos (by omega), ← drawn, List.take_left, List.drop_left]
  have opened := aes.inverse _ _ _ _ sealed
  have text : String.fromUTF8? ⟨plaintext.toUTF8.data.toList.toArray⟩ = some plaintext := by
    have bytes : (⟨plaintext.toUTF8.data.toList.toArray⟩ : ByteArray) = plaintext.toUTF8 := by rw [Array.toArray_toList]
    rw [bytes, fromUTF8_toUTF8]
  constructor
  · unfold encrypt
    rw [h, pure_bind, fits, pure_bind, framed, pure_bind, sealed]
  · unfold decrypt
    rw [if_neg long]
    dsimp only
    rw [h, pure_bind, fits, pure_bind, cut, pure_bind]
    dsimp only
    rw [framed, pure_bind, opened]
    dsimp only
    rw [text]

theorem decrypt_total (h : hexDecode key ≠ panics) (data : List UInt8) : decrypt aes utf8Error data key ≠ panics := by
  unfold decrypt
  split
  next => exact fun he => by cases he
  next long =>
    dsimp only
    rcases fallible_cases (hexDecode key) with hk | ⟨e, hk⟩ | ⟨bytes, hk⟩
    · exact absurd hk h
    · rw [hk]
      exact fun he => by cases he
    · have fits : newFromSlice bytes = pure () := if_pos (hexDecode_size hk)
      have cut : splitAt data 12 = pure (data.take 12, data.drop 12) := if_pos (by omega)
      have framed : nonceFromSlice (data.take 12) = pure (data.take 12) := if_pos (by rw [List.length_take]; omega)
      rw [hk, pure_bind, fits, pure_bind, cut, pure_bind]
      dsimp only
      rw [framed, pure_bind]
      split
      next => exact fun he => by cases he
      next =>
        split
        next => exact fun he => by cases he
        next => exact fun he => by cases he

theorem hexBytes_lower {n : Nat} (digits : ∀ c ∈ s, (digit16 c).isSome = true) (digits' : ∀ c ∈ s', (digit16 c).isSome = true)
    (len : s.length = 2 * n) (len' : s'.length = 2 * n) (same : hexBytes s = hexBytes s') :
    s.map Char.toLower = s'.map Char.toLower := by
  induction n generalizing s s' with
  | zero => rw [List.length_eq_zero_iff.mp len, List.length_eq_zero_iff.mp len']
  | succ n ih =>
    match s, s' with
    | [], _ => simp at len
    | [_], _ => simp at len; omega
    | _ :: _ :: _, [] => simp at len'
    | _ :: _ :: _, [_] => simp at len'; omega
    | c :: d :: s, c' :: d' :: s' =>
      obtain ⟨value, rest⟩ := List.cons.inj same
      obtain ⟨m, hm⟩ := Option.isSome_iff_exists.mp (digits c (by simp))
      obtain ⟨n₁, hn⟩ := Option.isSome_iff_exists.mp (digits d (by simp))
      obtain ⟨m', hm'⟩ := Option.isSome_iff_exists.mp (digits' c' (by simp))
      obtain ⟨n', hn'⟩ := Option.isSome_iff_exists.mp (digits' d' (by simp))
      have nibbles : m = m' ∧ n₁ = n' := by
        have bounds := And.intro (And.intro (digit16_lt hm) (digit16_lt hn)) (And.intro (digit16_lt hm') (digit16_lt hn'))
        have numbers := congrArg UInt8.toNat value
        simp only [pairValue, hm, hn, hm', hn', Option.getD_some, UInt8.toNat_ofNat'] at numbers
        omega
      have tail := ih (fun a ha => digits a (List.mem_cons_of_mem _ (List.mem_cons_of_mem _ ha)))
        (fun a ha => digits' a (List.mem_cons_of_mem _ (List.mem_cons_of_mem _ ha))) (by simpa [Nat.mul_succ] using len)
        (by simpa [Nat.mul_succ] using len') rest
      simp only [List.map_cons, toLower_digit hm, toLower_digit hn, toLower_digit hm', toLower_digit hn', nibbles, tail]

end keys

/-- A key is taken as it is meant unless it is misread, and of the keys that are not misread two give the same bytes
only if they differ in the case of letters. -/
theorem key_framing (aes : Aes256Gcm) (utf8Error : List UInt8 → String) :
    (∀ key, Framed aes utf8Error key ↔ ¬Misread key) ∧
      ∀ key key' bytes, ¬Misread key → ¬Misread key' → hexDecode key = pure bytes → hexDecode key' = pure bytes →
        key.toList.map Char.toLower = key'.toList.map Char.toLower := by
  have meant : ∀ key bytes, ¬Misread key → (hexDecode key = pure bytes ↔ HexKey key ∧ bytes = hexBytes key.toList) := by
    intro key bytes sound
    rw [hexDecode_ok, hexKey_iff]
    constructor
    · exact fun ⟨len, numbers, value⟩ => ⟨⟨len, numbers, fun signed => sound ⟨len, Or.inr signed⟩⟩, value⟩
    · exact fun ⟨⟨len, numbers, _⟩, value⟩ => ⟨len, numbers, value⟩
  refine ⟨fun key => ⟨fun framed misread => ?_, fun sound => ?_⟩, fun key key' bytes sound sound' h h' => ?_⟩
  · obtain ⟨len, cut | signed⟩ := misread
    · exact framed.total (hexDecode_panics.mpr ⟨len, cut⟩)
    · obtain ⟨pairs, hkey, numbers, sign⟩ := id signed
      have taken := (framed.accepts _).mp (hexDecode_ok.mpr ⟨len, ⟨pairs, hkey, numbers⟩, rfl⟩)
      exact unsigned_of_digits taken.1.2 signed
  · have total : hexDecode key ≠ panics := fun h =>
      sound ⟨(hexDecode_panics.mp h).1, Or.inl (hexDecode_panics.mp h).2⟩
    exact ⟨total, fun bytes => meant key bytes sound, fun bytes => hexDecode_size,
      fun bytes nonce plaintext ciphertext h drawn sealed => decrypt_encrypt h drawn sealed, decrypt_total total⟩
  · obtain ⟨⟨len, digits⟩, hb⟩ := (meant key bytes sound).mp h
    obtain ⟨⟨len', digits'⟩, hb'⟩ := (meant key' bytes sound').mp h'
    exact hexBytes_lower (n := 32) digits digits' len len' (hb.symm.trans hb')

/-- A key with a letter of two bytes in an odd place, which panics. -/
def cutKey : String := "a" ++ "é" ++ String.ofList (List.replicate 61 'a')

/-- A key of signs and digits, which is taken. -/
def signedKey : String := String.ofList (List.replicate 32 ['+', 'f']).flatten

theorem key_framing_fails : hexDecode cutKey = panics ∧ hexDecode signedKey = pure (List.replicate 32 15) ∧ ¬HexKey signedKey := by
  have cut : (hexDecode cutKey).run = none := by decide +kernel
  have signed : (hexDecode signedKey).run = some (.ok (List.replicate 32 15)) := by decide +kernel
  refine ⟨cut, signed, fun h => ?_⟩
  have plus : '+' ∈ signedKey.toList := by decide +kernel
  have digit := h.2 _ plus
  revert digit
  decide

end Crypto

end Invokr

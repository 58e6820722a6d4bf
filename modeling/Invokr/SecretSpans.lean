import Invokr.SecretScan

namespace Invokr

open TextLib

section scan

variable {s before after name tail rest pre : List Char} {fuel fuel' : Nat}

theorem secretNames_succ (fuel : Nat) (s : List Char) :
    secretNames (fuel + 1) s = match splitAt secretMark s with
      | none => []
      | some (_, after) =>
        match splitAt closeMark after with
        | none => []
        | some (name, tail) => String.ofList name :: secretNames fuel tail := rfl

theorem secretNames_skip (fuel : Nat) (h : Avoids secretMark pre rest) : secretNames fuel (pre ++ rest) = secretNames fuel rest := by
  cases fuel with
  | zero => rfl
  | succ fuel =>
    rw [secretNames_succ, secretNames_succ, splitAt_append h]
    cases splitAt secretMark rest with
    | none => rfl
    | some split => rfl

theorem secretNames_hit (fuel : Nat) (h : Avoids closeMark name ['\x7d']) :
    secretNames (fuel + 1) (secretMark ++ (name ++ (closeMark ++ rest))) = String.ofList name :: secretNames fuel rest := by
  have hfirst : FirstAt closeMark (name ++ (closeMark ++ rest)) name rest :=
    ⟨rfl, avoids_short (s := '\x7d' :: rest) (by decide) h⟩
  have hmark : splitAt secretMark (secretMark ++ (name ++ (closeMark ++ rest))) = some ([], name ++ (closeMark ++ rest)) :=
    splitAt_self (by decide)
  rw [secretNames_succ, hmark]
  simp only [splitAt_first (by decide) hfirst]

/-- The scan needs no more fuel than the text is long. -/
theorem secretNames_fuel (h : s.length ≤ fuel) (h' : s.length ≤ fuel') : secretNames fuel s = secretNames fuel' s := by
  induction fuel generalizing s fuel' with
  | zero =>
    have hs : s = [] := List.eq_nil_of_length_eq_zero (by omega)
    subst hs
    cases fuel' with
    | zero => rfl
    | succ fuel' => rfl
  | succ fuel ih =>
    cases fuel' with
    | zero =>
      have hs : s = [] := List.eq_nil_of_length_eq_zero (by omega)
      subst hs
      rfl
    | succ fuel' =>
      rw [secretNames_succ, secretNames_succ]
      cases hopen : splitAt secretMark s with
      | none => rfl
      | some opened =>
        obtain ⟨before, after⟩ := opened
        cases hclose : splitAt closeMark after with
        | none => simp only [hclose]
        | some closed =>
          obtain ⟨name, tail⟩ := closed
          have hlen := (splitAt_spec hopen).length
          have hlen' := (splitAt_spec hclose).length
          have nine : secretMark.length = 9 := rfl
          simp only [hclose]
          rw [@ih tail fuel' (by omega) (by omega)]

def scan (s : List Char) : List String := secretNames s.length s

theorem scan_skip (h : Avoids secretMark pre rest) : scan (pre ++ rest) = scan rest := by
  unfold scan
  rw [secretNames_skip _ h]
  exact secretNames_fuel (by simp) (Nat.le_refl _)

theorem scan_hit (h : Avoids closeMark name ['\x7d']) :
    scan (secretMark ++ (name ++ (closeMark ++ rest))) = String.ofList name :: scan rest := by
  have hlen : (secretMark ++ (name ++ (closeMark ++ rest))).length = (name ++ (closeMark ++ rest)).length + 8 + 1 := by
    simp [secretMark, openMark]
  unfold scan
  rw [hlen, secretNames_hit _ h]
  have henough : rest.length ≤ (name ++ (closeMark ++ rest)).length + 8 := by
    simp only [List.length_append]
    omega
  rw [secretNames_fuel henough (Nat.le_refl _)]

/-- Without a `}}` the scan finds no name. -/
theorem scan_unclosed (h : Avoids closeMark s []) : scan s = [] := by
  unfold scan
  cases s.length with
  | zero => rfl
  | succ n =>
    rw [secretNames_succ]
    cases hopen : splitAt secretMark s with
    | none => rfl
    | some opened =>
      obtain ⟨before, after⟩ := opened
      have hafter : Avoids closeMark after [] := by
        rw [(splitAt_spec hopen).eq] at h
        exact avoids_of_sublist (avoids_of_sublist h)
      simp only [(splitAt_none (by decide)).mpr hafter]

theorem scan_char {c : Char} (hc : c ≠ '\x7b') : scan (c :: rest) = scan rest :=
  @scan_skip rest [c] (avoids_head (by simpa using hc.symm))

end scan

section plain

variable {s before after raw tail rest : List Char}

/-- Nothing before an opening mark is taken for a secret's. -/
theorem avoids_before (h : FirstAt openMark s before after) : Avoids secretMark (escape before) (openMark ++ rest) := by
  have hone : Avoids openMark before ['\x7b'] := avoids_mono (s := '\x7b' :: after) h.avoids
  have hall : Avoids openMark (before ++ ['\x7b']) [] := avoids_append.mpr ⟨hone, by decide, trivial⟩
  have hesc := avoids_escape (Or.inl rfl) (by decide) hall
  rw [escape_append] at hesc
  have hstart : Avoids openMark (escape before) ['\x7b'] := (avoids_append.mp hesc).1
  have hshort : Avoids openMark (escape before) (['\x7b'] ++ '\x7b' :: rest) := avoids_short (by decide) hstart
  exact avoids_longer hshort

theorem plainName_closes {name : List Char} (h : plainName name = true) :
    trimEnd name = name ∧ escape name = name ∧ Avoids closeMark name ['\x7d'] := by
  simp only [plainName, Bool.and_eq_true, decide_eq_true_eq] at h
  obtain ⟨⟨htrim, hall⟩, hclose⟩ := h
  have hav := (splitAt_none (by decide)).mp (Option.isNone_iff_eq_none.mp hclose)
  exact ⟨htrim, escape_plain hall, (avoids_append.mp hav).1⟩

theorem trim_secret (name : List Char) : trim ("secret.".toList ++ name) = "secret.".toList ++ trimEnd name := by
  have hsplit : "secret.".toList ++ name = "secret".toList ++ '.' :: name := rfl
  have hhead : "secret".toList.dropWhile isWhitespace = "secret".toList := by decide
  rw [hsplit, trim_stop (by decide), hhead]
  rfl

/-- The scan reads of a plain variable what the resolver reads of it. -/
theorem scan_variable (h : plainVariable raw = true) :
    scan (openMark ++ (escape raw ++ (closeMark ++ rest))) = secretLookups [trim raw] ++ scan rest := by
  unfold plainVariable at h
  split at h
  next name hname =>
    obtain ⟨htrim, hesc, hclose⟩ := plainName_closes h
    have hraw : raw = "secret.".toList ++ name.toList := by
      rw [stripPrefix_some hname, String.toList_append]
    have hescape : escape raw = "secret.".toList ++ name.toList := by
      rw [hraw, escape_append, hesc]
      rfl
    have hlook : secretLookups [trim raw] = [name] := by
      rw [hraw, trim_secret, htrim, ← String.toList_append, secretLookups, List.filterMap_cons, stripPrefix_append]
      rfl
    rw [hescape, hlook, List.append_assoc, ← List.append_assoc]
    change scan (secretMark ++ (name.toList ++ (closeMark ++ rest))) = _
    rw [scan_hit hclose, String.ofList_toList]
    rfl
  next =>
    obtain ⟨hnone, hno⟩ := Bool.and_eq_true_iff.mp h
    have hlook : secretLookups [trim raw] = [] := by
      rw [secretLookups, List.filterMap_cons, Option.isNone_iff_eq_none.mp hnone]
      rfl
    have hav := (splitAt_none (by decide)).mp (Option.isNone_iff_eq_none.mp hno)
    have hesc : Avoids secretMark (escape (openMark ++ raw)) [] := avoids_escape (Or.inl rfl) (by decide) hav
    have hopen : Avoids secretMark (openMark ++ escape raw) (closeMark ++ rest) := by
      rw [escape_append] at hesc
      exact (avoids_stop (x := '\x7d') (by decide)).mpr hesc
    rw [hlook, ← List.append_assoc, scan_skip hopen, scan_skip (avoids_head (by decide))]
    rfl

def pieceNames (ps : List Piece) : List (List Char) := ps.filterMap Piece.name?

/-- What is left open at the end of a string is not read on into what follows it. -/
theorem scan_literal (h : Avoids secretMark s []) : scan (escape s ++ '"' :: rest) = scan rest := by
  have hesc : Avoids secretMark (escape s) [] := avoids_escape (Or.inl rfl) (by decide) h
  rw [scan_skip ((avoids_stop (by decide)).mpr hesc), scan_char (by decide)]

theorem scan_open (hfirst : FirstAt openMark s before after) (hclose : Avoids closeMark after [])
    (hrest : Avoids closeMark rest []) : scan (escape s ++ '"' :: rest) = scan rest := by
  have hs : escape s ++ '"' :: rest = escape before ++ (openMark ++ (escape after ++ '"' :: rest)) := by
    rw [hfirst.eq, escape_append, escape_append]
    simp only [List.append_assoc]
    rfl
  have hafter : Avoids closeMark (escape after) [] := avoids_escape (Or.inr rfl) (by decide) hclose
  have hquote : Avoids closeMark ('"' :: rest) [] :=
    avoids_append.mpr ⟨(avoids_head (by decide) : Avoids closeMark ['"'] _), hrest⟩
  have hall : Avoids closeMark (openMark ++ (escape after ++ '"' :: rest)) [] := by
    refine avoids_append.mpr ⟨avoids_head (by decide), avoids_append.mpr ⟨?_, hquote⟩⟩
    exact (avoids_stop (by decide)).mpr hafter
  rw [hs, scan_skip (avoids_before hfirst), scan_unclosed hall, scan_unclosed hrest]

theorem scan_pieces (fuel : Nat) {s : List Char} (h : plainPieces fuel s rest = true) :
    scan (escape s ++ '"' :: rest) = secretLookups (pieceNames (pieces fuel s)) ++ scan rest := by
  induction fuel generalizing s with
  | zero =>
    have hav := (splitAt_none (by decide)).mp (Option.isNone_iff_eq_none.mp h)
    exact scan_literal hav
  | succ fuel ih =>
    rw [plainPieces] at h
    rw [pieces]
    cases hopen : splitAt openMark s with
    | none =>
      have hav := (splitAt_none (by decide)).mp hopen
      exact scan_literal (avoids_longer hav)
    | some opened =>
      obtain ⟨before, after⟩ := opened
      have hfirst := splitAt_spec hopen
      rw [hopen] at h
      cases hclose : splitAt closeMark after with
      | none =>
        simp only [hclose, Bool.or_eq_true, Option.isNone_iff_eq_none] at h ⊢
        rcases h with hnone | hnone
        · exact scan_literal ((splitAt_none (by decide)).mp hnone)
        · exact scan_open hfirst ((splitAt_none (by decide)).mp hclose) ((splitAt_none (by decide)).mp hnone)
      | some closed =>
        obtain ⟨raw, tail⟩ := closed
        simp only [hclose, Bool.and_eq_true] at h ⊢
        have hs : escape s ++ '"' :: rest =
            escape before ++ (openMark ++ (escape raw ++ (closeMark ++ (escape tail ++ '"' :: rest)))) := by
          rw [hfirst.eq, (splitAt_spec hclose).eq, escape_append, escape_append, escape_append, escape_append]
          simp only [List.append_assoc]
          rfl
        have hnames : secretLookups (pieceNames (.lit before :: .var (trim raw) :: pieces fuel tail)) =
            secretLookups [trim raw] ++ secretLookups (pieceNames (pieces fuel tail)) := by
          rw [secretLookups, secretLookups, secretLookups, ← List.filterMap_append]
          rfl
        rw [hs, scan_skip (avoids_before hfirst), scan_variable h.1, ih h.2, hnames, List.append_assoc]

theorem blank_brace {l : List Char} (h : ∀ c ∈ l, isWhitespace c = true) : '\x7b' ∉ l := by
  intro hmem
  have := h _ hmem
  exact absurd this (by decide)

theorem scan_string {s : String} (h : plainString s rest = true) :
    scan (quote s ++ rest) = secretLookups (textVariables s) ++ scan rest := by
  have hquote : quote s ++ rest = '"' :: (escape s.toList ++ '"' :: rest) := by
    simp [quote, escape]
  rw [hquote, scan_char (by decide)]
  unfold plainString at h
  cases hsingle : isSingleTemplate s.toList with
  | none =>
    rw [hsingle] at h
    rw [scan_pieces _ h, textVariables_pieces hsingle]
    rfl
  | some inner =>
    rw [hsingle] at h
    obtain ⟨raw, hraw, rfl, _⟩ := single_parts hsingle
    have htake : ((trim s.toList).drop 2).take ((trim s.toList).length - 4) = raw := by
      rw [hraw]
      simp [openMark, closeMark]
    rw [htake] at h
    obtain ⟨left, right, hs, hleft, hright⟩ := trim_parts s.toList
    have htext : escape s.toList ++ '"' :: rest =
        escape left ++ (openMark ++ (escape raw ++ (closeMark ++ (escape right ++ '"' :: rest)))) := by
      rw [hs, hraw]
      simp only [escape_append, List.append_assoc]
      rfl
    have hnames : textVariables s = [trim raw] := by
      rw [textVariables, hsingle]
    rw [htext, hnames, scan_skip (avoids_head (brace_escape (blank_brace hleft))), scan_variable h,
      scan_skip (avoids_head (brace_escape (blank_brace hright))), scan_char (by decide)]

end plain

end Invokr

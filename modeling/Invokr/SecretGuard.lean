import Invokr.SecretRequests
import Invokr.SecretText

namespace Invokr

open TextLib

theorem charsItems_eq (items : List Json) : Json.charsItems items = [','].intercalate (items.map Json.chars) := by
  match items with
  | [] => rfl
  | [j] => rw [Json.charsItems, List.map_singleton, List.intercalate_singleton]
  | j :: j' :: items =>
    rw [Json.charsItems, charsItems_eq (j' :: items), List.map_cons (l := j' :: items),
      List.intercalate_cons_of_ne_nil (by simp)]
    · simp
    · exact List.cons_ne_nil _ _

theorem charsFields_eq (fields : List (String × Json)) :
    Json.charsFields fields = [','].intercalate (fields.map fun f => quote f.1 ++ ([':'] ++ f.2.chars)) := by
  match fields with
  | [] => rfl
  | [(k, v)] =>
    rw [Json.charsFields, List.map_singleton, List.intercalate_singleton]
    rfl
  | (k, v) :: f :: fields =>
    rw [Json.charsFields, charsFields_eq (f :: fields), List.map_cons (l := f :: fields),
      List.intercalate_cons_of_ne_nil (by simp)]
    · simp
    · exact List.cons_ne_nil _ _

theorem prints_chars : Prints Json.chars where
  null := by decide
  bool b := by cases b <;> decide
  num := number_brace
  str s := by rw [Json.chars]
  arr items := ⟨[','], by decide, by rw [Json.chars, charsItems_eq]; rfl⟩
  obj fields := ⟨[','], [':'], _, by decide, by decide, List.Perm.refl _, by rw [Json.chars, charsFields_eq]; rfl⟩

theorem jsonbItems_eq (numeric : NumericText) (items : List Json) :
    Json.jsonbItems numeric items = items.map (Json.jsonbChars numeric) := by
  induction items with
  | nil => rfl
  | cons j items ih => rw [Json.jsonbItems, ih, List.map_cons]

theorem jsonbFields_eq (numeric : NumericText) (fields : List (String × Json)) : Json.jsonbFields numeric fields =
    fields.map fun f => (f.1, quote f.1 ++ (": ".toList ++ f.2.jsonbChars numeric)) := by
  induction fields with
  | nil => rfl
  | cons f fields ih => rw [Json.jsonbFields, ih, List.map_cons]

theorem prints_jsonb (numeric : NumericText) : Prints (Json.jsonbChars numeric) where
  null := by rw [Json.jsonbChars]; decide
  bool b := by cases b <;> rw [Json.jsonbChars] <;> decide
  num n := by
    rw [Json.jsonbChars]
    exact fun hmem => absurd (List.all_eq_true.mp (numeric n).2 _ hmem) (by decide)
  str s := by rw [Json.jsonbChars]
  arr items := ⟨", ".toList, by decide, by rw [Json.jsonbChars, jsonbItems_eq]⟩
  obj fields := by
    refine ⟨", ".toList, ": ".toList, _, by decide, by decide, ?_, by rw [Json.jsonbChars]⟩
    have perm := (List.perm_insertionSort jsonbKeyLe (Json.jsonbFields numeric fields)).map Prod.snd
    rw [jsonbFields_eq, List.map_map] at perm
    rw [jsonbFields_eq]
    exact perm

/-- Where `load_secrets` would have to read the name. -/
def reference (name : List Char) : List Char := secretMark ++ (name ++ closeMark)

theorem marked_reference {name : List Char} (h : '"' ∉ name) : Marked (reference name) where
  braces := List.prefix_append _ _
  quote := by
    unfold reference
    rw [List.mem_append, List.mem_append, not_or, not_or]
    exact ⟨by decide, h, by decide⟩

/-- A reference stands in the column's text where it stands in the text that the worker scans. -/
theorem reference_jsonb (numeric : NumericText) (spec : Json) {name : List Char} (h : '"' ∉ name) :
    reference name <:+: spec.jsonbChars numeric ↔ reference name <:+: spec.chars := by
  rw [(seamless_json (marked_reference h) (prints_jsonb numeric) spec).2, (seamless_json (marked_reference h) prints_chars spec).2]

section scan

variable {name raw before after tail s : List Char}

/-- The name ends at the first `}}` behind it. -/
def EndsAtClose (name : List Char) : Prop := Avoids closeMark name ['\x7d']

theorem EndsAtClose.unique (h : EndsAtClose name) (hr : EndsAtClose raw) :
    name ++ closeMark <+: raw ++ (closeMark ++ tail) ↔ name = raw := by
  constructor
  · rintro ⟨rest, hrest⟩
    rw [List.append_assoc] at hrest
    have first : FirstAt closeMark (raw ++ (closeMark ++ tail)) raw tail := ⟨rfl, avoids_short (s := '\x7d' :: tail) (by decide) hr⟩
    have second : FirstAt closeMark (raw ++ (closeMark ++ tail)) name rest :=
      ⟨hrest.symm, avoids_short (s := '\x7d' :: rest) (by decide) h⟩
    have same := (splitAt_first (by decide) first).symm.trans (splitAt_first (by decide) second)
    exact (Prod.mk.inj (Option.some.inj same)).1.symm
  · rintro rfl
    rw [← List.append_assoc]
    exact List.prefix_append _ _

theorem EndsAtClose.mark (h : EndsAtClose name) : EndsAtClose (secretMark ++ name) :=
  avoids_append.mpr ⟨avoids_head (by decide), h⟩

theorem avoids_mark {rest pat : List Char} :
    Avoids (secretMark ++ pat) secretMark rest ↔ ¬secretMark ++ pat <+: secretMark ++ rest := by
  have hcons : secretMark = '\x7b' :: '\x7b' :: "secret.".toList := rfl
  have others : Avoids (secretMark ++ pat) ('\x7b' :: "secret.".toList) rest := by
    refine ⟨fun h => ?_, avoids_head (by decide)⟩
    have second := (List.cons_prefix_cons.mp (List.cons_prefix_cons.mp h).2).1
    exact absurd second (by decide)
  constructor
  · exact fun h => h.1
  · exact fun h => ⟨h, others⟩

/-- A reference that begins inside a variable ends with it. -/
theorem avoids_inside (h : EndsAtClose name) (hr : EndsAtClose raw) :
    Avoids (reference name) raw (closeMark ++ tail) ↔ ¬secretMark ++ name <:+ raw := by
  induction raw with
  | nil =>
    refine iff_of_true trivial fun hs => ?_
    have := List.suffix_nil.mp hs
    exact absurd (congrArg List.length this) (by simp [secretMark, openMark])
  | cons c raw ih =>
    have here : reference name <+: c :: (raw ++ (closeMark ++ tail)) ↔ secretMark ++ name = c :: raw := by
      unfold reference
      rw [← List.append_assoc]
      exact h.mark.unique (show EndsAtClose (c :: raw) from hr)
    rw [Avoids, here, ih hr.2, List.suffix_cons_iff, not_or]

/-- A reference stands in a text where the scan finds its name or finds it at the end of a name. -/
theorem reference_scan (h : EndsAtClose name) (s : List Char) :
    reference name <:+: s ↔ ∃ m ∈ scan s, m.toList = name ∨ secretMark ++ name <:+ m.toList := by
  have hne : reference name ≠ [] := List.cons_ne_nil _ _
  induction hn : s.length using Nat.strong_induction_on generalizing s with
  | _ n ih =>
    subst hn
    cases hopen : splitAt secretMark s with
    | none =>
      have hav := (splitAt_none (by decide)).mp hopen
      have hscan : scan s = [] := by
        have hskip : scan (s ++ []) = scan [] := scan_skip hav
        rwa [List.append_nil] at hskip
      rw [hscan]
      exact iff_of_false ((avoids_infix_iff hne).mp (avoids_longer hav)) (by simp)
    | some opened =>
      obtain ⟨before, after⟩ := opened
      have first := splitAt_spec hopen
      have skip : reference name <:+: s ↔ ¬Avoids (reference name) (secretMark ++ after) [] := by
        rw [first.eq, ← not_iff_not, ← avoids_infix_iff hne, not_not, avoids_append, List.append_nil]
        exact and_iff_right (avoids_longer first.avoids)
      have hscan : scan s = scan (secretMark ++ after) := by
        rw [first.eq, scan_skip first.avoids]
      rw [skip, hscan]
      cases hclose : splitAt closeMark after with
      | none =>
        have hav : Avoids closeMark (secretMark ++ after) [] :=
          avoids_append.mpr ⟨avoids_head (by decide), (splitAt_none (by decide)).mp hclose⟩
        rw [scan_unclosed hav]
        refine iff_of_false (fun hn => hn ?_) (by simp)
        refine (avoids_infix_iff hne).mpr fun hin => (avoids_infix_iff (by decide)).mp hav ?_
        exact ((List.suffix_append name closeMark).trans (List.suffix_append secretMark _)).isInfix.trans hin
      | some closed =>
        obtain ⟨raw, tail⟩ := closed
        have last := splitAt_spec hclose
        have hraw : EndsAtClose raw := avoids_mono (s := '\x7d' :: tail) last.avoids
        have hlen : tail.length < s.length := by
          have := first.length
          have := last.length
          have nine : secretMark.length = 9 := rfl
          omega
        rw [last.eq, scan_hit hraw, avoids_append, avoids_append, avoids_append, List.append_nil, List.append_nil, List.append_nil]
        have tailAv : Avoids (reference name) tail [] ↔ ¬∃ m ∈ scan tail, m.toList = name ∨ secretMark ++ name <:+ m.toList :=
          (avoids_infix_iff hne).trans (not_congr (ih tail.length hlen tail rfl))
        have markAv : Avoids (reference name) secretMark (raw ++ (closeMark ++ tail)) ↔ ¬name = raw := by
          unfold reference
          rw [avoids_mark, List.prefix_append_right_inj, h.unique hraw]
        have closeAv : Avoids (reference name) closeMark tail := avoids_head (by decide)
        rw [markAv, avoids_inside h hraw, tailAv, and_iff_right closeAv]
        simp only [List.mem_cons, exists_eq_or_imp, String.toList_ofList, not_and_or, not_not, or_assoc]
        rw [eq_comm (a := raw)]

theorem scan_ends {s : List Char} {m : String} (hm : m ∈ scan s) : EndsAtClose m.toList := by
  induction hn : s.length using Nat.strong_induction_on generalizing s with
  | _ n ih =>
    subst hn
    cases hopen : splitAt secretMark s with
    | none =>
      have hskip : scan (s ++ []) = scan [] := scan_skip ((splitAt_none (by decide)).mp hopen)
      rw [List.append_nil] at hskip
      rw [hskip] at hm
      cases hm
    | some opened =>
      obtain ⟨before, after⟩ := opened
      have first := splitAt_spec hopen
      rw [first.eq, scan_skip first.avoids] at hm
      cases hclose : splitAt closeMark after with
      | none =>
        have hav : Avoids closeMark (secretMark ++ after) [] :=
          avoids_append.mpr ⟨avoids_head (by decide), (splitAt_none (by decide)).mp hclose⟩
        rw [scan_unclosed hav] at hm
        cases hm
      | some closed =>
        obtain ⟨raw, tail⟩ := closed
        have last := splitAt_spec hclose
        have hraw : EndsAtClose raw := avoids_mono (s := '\x7d' :: tail) last.avoids
        have hlen : tail.length < s.length := by
          have := first.length
          have := last.length
          have nine : secretMark.length = 9 := rfl
          omega
        rw [last.eq, scan_hit hraw] at hm
        rcases List.mem_cons.mp hm with rfl | hm
        · rw [String.toList_ofList]
          exact hraw
        · exact ih tail.length hlen hm rfl

end scan

section guard

variable {name w : List Char} {numeric : NumericText} {spec : Json}

/-- The name, read as a pattern, matches the text. -/
def nameMatches (name w : List Char) : Bool := fits id (wilds (name ++ closeMark)) (w ++ closeMark)

theorem nameMatches_self (h : '\\' ∉ name) : nameMatches name name = true := by
  refine fits_self ?_
  rw [List.mem_append, not_or]
  exact ⟨h, by decide⟩

theorem nameMatches_literal (h : name.all (fun c => !isWild c) = true) : nameMatches name w = true ↔ w = name := by
  have hall : (name ++ closeMark).all (fun c => !isWild c) = true := by
    rw [List.all_append, h]
    rfl
  have hw := wilds_lits (s := []) hall
  rw [List.append_nil] at hw
  rw [nameMatches, hw, wilds, List.append_nil, fits_lits, List.map_id, List.map_id]
  exact List.append_left_inj closeMark

/-- The guard finds a spec that has a text between `{{secret.` and `}}` that the name matches as a pattern. -/
theorem mentionsSecret_iff {name : String} :
    mentionsSecret numeric spec name = true ↔ ∃ w, nameMatches name.toList w = true ∧ reference w <:+: spec.jsonbChars numeric := by
  have close : isWild '\x7d' = false := by decide
  have inner : ∃ p, wilds (name.toList ++ closeMark) = p ++ closeMark.map .lit := by
    obtain ⟨p, hp⟩ := wilds_last close name.toList
    refine ⟨p, ?_⟩
    have hcut := wilds_cut close name.toList ['\x7d']
    rw [hp, List.append_assoc] at hcut
    exact hcut
  have pattern : wilds ("%\x7b\x7bsecret.".toList ++ (name.toList ++ "\x7d\x7d%".toList)) =
      .any :: (secretMark.map .lit ++ (wilds (name.toList ++ closeMark) ++ [.any])) := by
    have hhead : "%\x7b\x7bsecret.".toList = '%' :: secretMark := by decide
    have htail : "\x7d\x7d%".toList = ['\x7d'] ++ '\x7d' :: ['%'] := by decide
    have hany : ∀ s, wilds ('%' :: s) = .any :: wilds s := fun s => by rw [wilds.eq_def]; rfl
    rw [hhead, htail, List.cons_append, hany, wilds_lits (l := secretMark) (by decide), ← List.append_assoc name.toList,
      wilds_cut close, List.append_assoc, hany]
    rfl
  unfold mentionsSecret
  rw [pattern, fits_any]
  constructor
  · rintro ⟨a, b, htext, hb⟩
    obtain ⟨c, d, rfl, hc, hd⟩ := fits_append.mp hb
    obtain ⟨e, f, rfl, he, _⟩ := fits_append.mp hd
    obtain ⟨p, hp⟩ := inner
    have hsplit := he
    rw [hp] at hsplit
    obtain ⟨w, z, rfl, _, hz⟩ := fits_append.mp hsplit
    rw [fits_lits, List.map_id, List.map_id] at hc hz
    subst hc hz
    exact ⟨w, he, a, f, by rw [htext]; simp [reference]⟩
  · rintro ⟨w, hw, a, f, htext⟩
    have hmark : fits id (secretMark.map .lit) secretMark = true := fits_lits.mpr rfl
    have hrest : fits id [.any] f = true := fits_any.mpr ⟨f, [], by rw [List.append_nil], rfl⟩
    refine ⟨a, secretMark ++ ((w ++ closeMark) ++ f), by rw [← htext]; simp [reference], ?_⟩
    exact fits_append.mpr ⟨_, _, rfl, hmark, fits_append.mpr ⟨_, _, rfl, hw, hrest⟩⟩

end guard

end Invokr

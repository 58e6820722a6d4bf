import Invokr.PresetDays

namespace Invokr

namespace DateRange

/-- The bounds that are set are in their order. -/
def Ordered (after before : Option Instant) : Prop := ∀ a ∈ after, ∀ b ∈ before, a ≤ b

/-- Nothing the gesture does puts the end of a range of one day before its start: it closes no range on the start's own
day with an end time before the start, and gives neither bound of such a range a time beyond the other's. -/
def Harmless (s : Filter) : Gesture → Prop
  | .pickDay d => ∀ start ∈ s.draftAfter, s.draftBefore = none → d = dateNaive start → (timeOf start).nanos ≤ s.endTime.nanos
  | .startTime part n => ∀ t ∈ timeSelect s.startTime part n, ∀ a ∈ s.draftAfter, ∀ b ∈ s.draftBefore,
      dateNaive a = dateNaive b → t.nanos ≤ (timeOf b).nanos
  | .endTime part n => ∀ t ∈ timeSelect s.endTime part n, ∀ a ∈ s.draftAfter, ∀ b ∈ s.draftBefore,
      dateNaive a = dateNaive b → (timeOf a).nanos ≤ t.nanos
  | _ => True

instance (s : Filter) : DecidablePred (Harmless s)
  | .pickDay d => inferInstanceAs (Decidable (∀ start ∈ s.draftAfter, s.draftBefore = none → d = dateNaive start →
      (timeOf start).nanos ≤ s.endTime.nanos))
  | .startTime part n => inferInstanceAs (Decidable (∀ t ∈ timeSelect s.startTime part n, ∀ a ∈ s.draftAfter,
      ∀ b ∈ s.draftBefore, dateNaive a = dateNaive b → t.nanos ≤ (timeOf b).nanos))
  | .endTime part n => inferInstanceAs (Decidable (∀ t ∈ timeSelect s.endTime part n, ∀ a ∈ s.draftAfter,
      ∀ b ∈ s.draftBefore, dateNaive a = dateNaive b → (timeOf a).nanos ≤ t.nanos))
  | .toggleOpen | .clickOutside | .apply | .clear | .preset .. | .clearFilters => inferInstanceAs (Decidable True)

/-- Every gesture is harmless where it is made. -/
def AllHarmless (s : Filter) : List Gesture → Prop
  | [] => True
  | g :: gestures => Harmless s g ∧ AllHarmless (s.step g) gestures

instance decidableAllHarmless (s : Filter) : (gestures : List Gesture) → Decidable (AllHarmless s gestures)
  | [] => inferInstanceAs (Decidable True)
  | g :: gestures =>
    have := decidableAllHarmless (s.step g) gestures
    inferInstanceAs (Decidable (Harmless s g ∧ AllHarmless (s.step g) gestures))

/-- `DateTime::to_rfc3339`, which `DateTime::parse_from_rfc3339` reads back. -/
structure DateText extends Rfc3339 where
  print : Instant → String
  reads : ∀ i, parse (print i) = some i

/-- The page asks for the jobs of the range that is applied. -/
def ranged (text : DateText) (s : Filter) (params : JobListQueryParams) : JobListQueryParams :=
  { params with
    createdAfter := s.after.map text.print
    createdBefore := s.before.map text.print }

/-- What the range picker keeps: the bounds that are applied and those that are drafted are in their order. -/
structure Kept (s : Filter) : Prop where
  applied : Ordered s.after s.before
  drafted : Ordered s.draftAfter s.draftBefore

section steps

variable {s : Filter}

theorem ordered_none (before : Option Instant) : Ordered none before := fun _ h => by cases h

theorem ordered_open (after : Option Instant) : Ordered after none := fun _ _ _ h => by cases h

theorem combine_parts (i : Instant) : combine (dateNaive i) (timeOf i) = i := Int.ediv_mul_add_emod i dayNanos

theorem parts_le {d d' n n' : Int} (low : 0 ≤ n) (high : n < dayNanos) (low' : 0 ≤ n') (high' : n' < dayNanos) :
    d * dayNanos + n ≤ d' * dayNanos + n' ↔ d < d' ∨ d = d' ∧ n ≤ n' := by
  unfold dayNanos at *
  omega

/-- Instants are ordered as their dates and, on one date, as their times. -/
theorem combine_le {d d' : Int} {t t' : NaiveTime} : combine d t ≤ combine d' t' ↔ d < d' ∨ d = d' ∧ t.nanos ≤ t'.nanos :=
  parts_le t.low t.high t'.low t'.high

theorem firstOfMonth_le (d : Int) : firstOfMonth d ≤ d := by
  have here := (Civil.monthStart_index d).1
  have first := (Civil.day_le d).1
  have le : Civil.monthStart (Civil.monthIndex d) ≤ d := by omega
  rw [firstOfMonth_eq]
  exact le

theorem spanOf_le (p : Preset) (today : Int) : (spanOf p today).1 ≤ (spanOf p today).2 := by
  cases p with
  | today => exact Int.le_refl _
  | last2Days => exact Int.sub_le_self today (by decide)
  | last7Days => exact Int.sub_le_self today (by decide)
  | thisMonth => exact firstOfMonth_le today
  | lastMonth => exact firstOfMonth_le _

theorem Kept.toggleOpen (h : Kept s) : Kept s.toggleOpen := by
  unfold Filter.toggleOpen
  split
  · exact ⟨h.applied, h.drafted⟩
  · exact ⟨h.applied, h.applied⟩

theorem kept_preset (h : Kept s) (p : Preset) (now : Instant) : Kept (s.applyPreset p now) := by
  refine ⟨h.applied, fun a ha b hb => ?_⟩
  cases ha
  cases hb
  rw [range_span]
  refine combine_le.mpr ?_
  rcases Int.lt_or_eq_of_le (spanOf_le p (dateNaive now)) with lt | eq
  · exact Or.inl lt
  · exact Or.inr ⟨eq, by decide⟩

theorem Kept.pickDay (h : Kept s) {d : Int} (harmless : Harmless s (.pickDay d)) : Kept (s.pickDay d) := by
  unfold Filter.pickDay
  split
  next start hstart hopen =>
    split
    next early =>
      refine ⟨h.applied, fun a ha b hb => ?_⟩
      cases ha
      cases hb
      exact combine_le.mpr (Or.inl early)
    next late =>
      refine ⟨h.applied, fun a ha b hb => ?_⟩
      obtain rfl : start = a := Option.some.inj (hstart.symm.trans ha)
      cases hb
      rw [← combine_parts start, combine_le]
      rcases Int.lt_or_eq_of_le (Int.not_lt.mp late) with lt | eq
      · exact Or.inl lt
      · exact Or.inr ⟨eq, harmless start hstart hopen eq.symm⟩
  next => exact ⟨h.applied, ordered_open _⟩

theorem Kept.applyStart (h : Kept s) {part : TimePart} {n : Nat} (harmless : Harmless s (.startTime part n)) {t : NaiveTime}
    (ht : timeSelect s.startTime part n = some t) : Kept (s.applyStart t) := by
  refine ⟨h.applied, fun a ha b hb => ?_⟩
  obtain ⟨a₀, ha₀, rfl⟩ := Option.map_eq_some_iff.mp ha
  have order := h.drafted a₀ ha₀ b hb
  rw [← combine_parts a₀, ← combine_parts b, combine_le] at order
  rw [← combine_parts b, combine_le]
  rcases order with lt | ⟨eq, -⟩
  · exact Or.inl lt
  · exact Or.inr ⟨eq, harmless t ht a₀ ha₀ b hb eq⟩

theorem Kept.applyEnd (h : Kept s) {part : TimePart} {n : Nat} (harmless : Harmless s (.endTime part n)) {t : NaiveTime}
    (ht : timeSelect s.endTime part n = some t) : Kept (s.applyEnd t) := by
  refine ⟨h.applied, fun a ha b hb => ?_⟩
  obtain ⟨b₀, hb₀, rfl⟩ := Option.map_eq_some_iff.mp hb
  have order := h.drafted a ha b₀ hb₀
  rw [← combine_parts a, ← combine_parts b₀, combine_le] at order
  rw [← combine_parts a, combine_le]
  rcases order with lt | ⟨eq, -⟩
  · exact Or.inl lt
  · exact Or.inr ⟨eq, harmless t ht a ha b₀ hb₀ eq⟩

/-- A harmless gesture keeps the bounds in their order. -/
theorem Kept.step (h : Kept s) {g : Gesture} (harmless : Harmless s g) : Kept (s.step g) := by
  cases g with
  | toggleOpen => exact h.toggleOpen
  | clickOutside => exact ⟨h.applied, h.drafted⟩
  | clearFilters => exact ⟨ordered_none _, h.drafted⟩
  | apply =>
    change Kept (if s.isOpen then s.apply else s)
    split
    · exact ⟨h.drafted, h.drafted⟩
    · exact h
  | clear =>
    change Kept (if s.isOpen then Filter.clear else s)
    split
    · exact ⟨ordered_none _, ordered_none _⟩
    · exact h
  | preset p now =>
    change Kept (if s.isOpen then s.applyPreset p now else s)
    split
    · exact kept_preset h p now
    · exact h
  | pickDay d =>
    change Kept (if s.isOpen then s.pickDay d else s)
    split
    · exact h.pickDay harmless
    · exact h
  | startTime part n =>
    change Kept (if s.isOpen then ((timeSelect s.startTime part n).map s.applyStart).getD s else s)
    split
    · cases ht : timeSelect s.startTime part n with
      | none => exact h
      | some t => exact h.applyStart harmless ht
    · exact h
  | endTime part n =>
    change Kept (if s.isOpen then ((timeSelect s.endTime part n).map s.applyEnd).getD s else s)
    split
    · cases ht : timeSelect s.endTime part n with
      | none => exact h
      | some t => exact h.applyEnd harmless ht
    · exact h

theorem Kept.run (h : Kept s) {gestures : List Gesture} (harmless : AllHarmless s gestures) : Kept (s.run gestures) := by
  induction gestures generalizing s with
  | nil => exact h
  | cons g gestures ih => exact ih (h.step harmless.1) harmless.2

end steps

section sending

variable {text : DateText} {s : Filter} {params : JobListQueryParams} {v : String}

theorem date_sent (text : DateText) (date : Option Instant) : blankToNone (date.map text.print) = date.map text.print := by
  cases date with
  | none => rfl
  | some i =>
    obtain ⟨visible, trimmed⟩ := text.trimmed _ _ (text.reads i)
    have nonempty : (text.print i).toList ≠ [] := fun he => visible (String.toList_eq_nil_iff.mp he)
    simp [blankToNone, trimmed, nonempty]

theorem after_sent (h : LastValue (sentParams (ranged text s params)) "created_after" v) : ∃ a ∈ s.after, v = text.print a := by
  obtain ⟨-, -, -, -, -, after, -⟩ := sentParams_key (ranged text s params)
  have last := lastScalar_eq.mpr h
  rw [lastScalar, after, optional_last, ranged, date_sent] at last
  obtain ⟨a, ha, rfl⟩ := Option.map_eq_some_iff.mp last
  exact ⟨a, ha, rfl⟩

theorem before_sent (h : LastValue (sentParams (ranged text s params)) "created_before" v) : ∃ b ∈ s.before, v = text.print b := by
  obtain ⟨-, -, -, -, -, -, before⟩ := sentParams_key (ranged text s params)
  have last := lastScalar_eq.mpr h
  rw [lastScalar, before, optional_last, ranged, date_sent] at last
  obtain ⟨b, hb, rfl⟩ := Option.map_eq_some_iff.mp last
  exact ⟨b, hb, rfl⟩

/-- The server finds nothing wrong with a range that is in order. -/
theorem range_accepted (h : Ordered s.after s.before) : ¬BadDate text.toRfc3339 (sentParams (ranged text s params)) ∧
    ¬Inverted text.toRfc3339 (sentParams (ranged text s params)) := by
  constructor
  · rintro ⟨key, hkey, v, last, unread⟩
    simp only [List.mem_cons, List.not_mem_nil, or_false] at hkey
    rcases hkey with rfl | rfl
    · obtain ⟨a, -, rfl⟩ := after_sent last
      rw [text.reads] at unread
      cases unread
    · obtain ⟨b, -, rfl⟩ := before_sent last
      rw [text.reads] at unread
      cases unread
  · rintro ⟨v, v', a, b, last, ha, last', hb, gt⟩
    obtain ⟨a', ha', rfl⟩ := after_sent last
    obtain ⟨b', hb', rfl⟩ := before_sent last'
    rw [text.reads] at ha hb
    cases ha
    cases hb
    exact absurd (h a ha' b hb') (not_le.mpr gt)

end sending

/-- However the user gets there, as long as no gesture is harmful the bounds that are applied are in their order, and the
server takes the range that the dashboard sends. -/
theorem applied_ranges (text : DateText) (lossy : List UInt8 → String) (gestures : List Gesture)
    (harmless : AllHarmless mounted gestures) (params : JobListQueryParams) :
    Ordered (mounted.run gestures).after (mounted.run gestures).before ∧
      ¬BadDate text.toRfc3339 (pairsOf lossy (listJobsQuery (ranged text (mounted.run gestures) params))) ∧
      ¬Inverted text.toRfc3339 (pairsOf lossy (listJobsQuery (ranged text (mounted.run gestures) params))) := by
  have start : Kept mounted := ⟨ordered_none _, ordered_none _⟩
  have kept := start.run harmless
  rw [says_pairsOf (says_listJobsQuery _)]
  exact ⟨kept.applied, range_accepted kept.applied⟩

section sample

/-- A range of two days, picked backwards, whose end is changed to an earlier time. -/
def backwards : List Gesture := [.toggleOpen, .pickDay 20629, .pickDay 20628, .endTime .hour 9, .apply]

/-- One day from 10:00 to 09:00. -/
def overNight : List Gesture :=
  [.toggleOpen, .startTime .hour 10, .endTime .hour 9, .pickDay 20628, .pickDay 20628, .apply]

/-- The texts of the two bounds that are picked backwards. -/
def pickedTexts : List (String × Instant) :=
  [("2026-06-24T00:00:00+00:00", 1782259200000000000), ("2026-06-25T09:59:59+00:00", 1782381599000000000)]

/-- Some text for each other instant. -/
def tally (i : Instant) : List Char :=
  match i with
  | .ofNat n => 'x' :: List.replicate n 'x'
  | .negSucc n => 'y' :: List.replicate n 'y'

def untally (cs : List Char) : Option Instant :=
  match cs with
  | 'x' :: rest => if rest = List.replicate rest.length 'x' then some (.ofNat rest.length) else none
  | 'y' :: rest => if rest = List.replicate rest.length 'y' then some (.negSucc rest.length) else none
  | _ => none

theorem untally_tally (i : Instant) : untally (tally i) = some i := by
  match i with
  | .ofNat n => simp [tally, untally]
  | .negSucc n => simp [tally, untally]

theorem tally_of_untally {cs : List Char} {i : Instant} (h : untally cs = some i) : cs = tally i := by
  unfold untally at h
  split at h
  next rest =>
    split at h
    next all =>
      cases h
      exact congrArg ('x' :: ·) all
    next => cases h
  next rest =>
    split at h
    next all =>
      cases h
      exact congrArg ('y' :: ·) all
    next => cases h
  next => cases h

theorem trim_tally (i : Instant) : trim (tally i) = tally i := by
  have solid : ∀ {c : Char} (n : Nat), isWhitespace c = false → trim (c :: List.replicate n c) = c :: List.replicate n c := by
    intro c n hc
    have front : ∀ m, (List.replicate (m + 1) c).dropWhile isWhitespace = List.replicate (m + 1) c := fun m => by
      rw [List.replicate_succ, List.dropWhile_cons, hc]
      rfl
    rw [← List.replicate_succ, trim, front, List.reverse_replicate, front, List.reverse_replicate]
  match i with
  | .ofNat n => exact solid n (by decide)
  | .negSucc n => exact solid n (by decide)

def samplePrint (i : Instant) : String :=
  match pickedTexts.find? (·.2 = i) with
  | some text => text.1
  | none => String.ofList (tally i)

def sampleParse (s : String) : Option Instant :=
  match pickedTexts.find? (·.1 = s) with
  | some text => some text.2
  | none => untally s.toList

theorem sampleParse_print (i : Instant) : sampleParse (samplePrint i) = some i := by
  have texts : ∀ text ∈ pickedTexts, pickedTexts.find? (·.1 = text.1) = some text := by decide
  have others : ∀ text ∈ pickedTexts, untally text.1.toList = none := by decide
  unfold samplePrint
  cases h : pickedTexts.find? (·.2 = i) with
  | some text =>
    have hi : text.2 = i := by simpa using List.find?_some h
    simp only [sampleParse, texts text (List.mem_of_find?_eq_some h), hi]
  | none =>
    have unknown : pickedTexts.find? (·.1 = String.ofList (tally i)) = none := by
      refine List.find?_eq_none.mpr fun text ht he => ?_
      have name : text.1 = String.ofList (tally i) := by simpa using he
      have none := others text ht
      rw [name, String.toList_ofList, untally_tally] at none
      cases none
    simp only [sampleParse, unknown, String.toList_ofList, untally_tally]

def sampleText : DateText where
  parse := sampleParse
  trimmed s t h := by
    have texts : ∀ text ∈ pickedTexts, text.1 ≠ "" ∧ trim text.1.toList = text.1.toList := by decide
    unfold sampleParse at h
    split at h
    next text found =>
      have name : text.1 = s := by simpa using List.find?_some found
      rw [← name]
      exact texts text (List.mem_of_find?_eq_some found)
    next =>
      have shape := tally_of_untally h
      refine ⟨fun he => ?_, by rw [shape, trim_tally]⟩
      rw [he] at shape
      cases t <;> cases shape
  print := samplePrint
  reads := sampleParse_print

theorem applied_ranges_backwards : (mounted.run backwards).after = some 1782259200000000000 ∧
    (mounted.run backwards).before = some 1782381599000000000 ∧
    ¬Inverted sampleText.toRfc3339
      (pairsOf (fun _ => "") (listJobsQuery (ranged sampleText (mounted.run backwards) sampleParams))) :=
  ⟨by decide +kernel, by decide +kernel, (applied_ranges sampleText (fun _ => "") backwards (by decide +kernel) sampleParams).2.2⟩

theorem applied_ranges_fails : ∃ a b, (mounted.run overNight).after = some a ∧ (mounted.run overNight).before = some b ∧ b < a :=
  ⟨1782295200000000000, 1782295199000000000, by decide +kernel, by decide +kernel, by decide⟩

end sample

end DateRange

end Invokr

import Invokr.Cron
import Invokr.Schedules

namespace Invokr

open TxLib

/-- pg_cron fires the entry at the instant, in seconds after the epoch. -/
def firesAt (c : CronEntry) (t : Int) : Bool := (parseEntry c.schedule).any fun x => x.fires (reading t)

/-- The instant is one of `to_schedule` read in a zone with the given offset from GMT. -/
def onSchedule (expression : String) (offset : Int → Int) (t : Int) : Bool :=
  (parseExpr expression).any fun x => x.includes (reading (t + offset t))

/-- The two rules for days agree on every date of the expression's months. -/
def DaysAgree (x : CronText) : Prop := ∀ m ∈ CronField.month.read x.month, ∀ d w, 1 ≤ d → d ≤ Civil.monthLength m →
  w < 7 → x.vixieDay d w = x.crateDay d w

/-- From the instant on it makes no difference whether the schedule is read in the zone or in GMT. -/
def ZoneAgrees (expression : String) (offset : Int → Int) (since : Int) : Prop :=
  ∀ t, since ≤ t → onSchedule expression (fun _ => 0) t = onSchedule expression offset t

/-- The zone keeps its offset around some later day of every date. -/
def Steady (offset : Int → Int) (since : Int) : Prop :=
  ∀ m d w, 1 ≤ m ∧ m ≤ 12 → 1 ≤ d ∧ d ≤ Civil.monthLength m → w < 7 → ∃ z o : Int,
    Civil.date z = (m, d) ∧ Civil.weekday z = w ∧ since ≤ (z - 1) * 86400 ∧ -86400 < o ∧ o < 86400 ∧
      ∀ t, (z - 1) * 86400 ≤ t → t < (z + 2) * 86400 → offset t = o

section parsing

theorem piecesAt_ne {p : Char → Bool} {cs : List Char} : piecesAt p cs ≠ [] := by
  cases cs with
  | nil => simp [piecesAt]
  | cons c cs =>
    unfold piecesAt
    split
    next => simp
    next =>
      split
      next => simp
      next => simp

theorem readField_ne {names : List String} {cs : List Char} {items : List CronItem} (h : readField names cs = some items) :
    items ≠ [] := by
  rintro rfl
  unfold readField at h
  cases hp : piecesAt (· = ',') cs with
  | nil => exact piecesAt_ne hp
  | cons piece pieces =>
    rw [hp, List.mapM_cons] at h
    simp [Option.bind_eq_some_iff] at h

/-- No field of a text is empty. -/
theorem readText_ne {text : String} {x : CronText} (h : readText text = some x) :
    x.minute ≠ [] ∧ x.hour ≠ [] ∧ x.month ≠ [] := by
  unfold readText at h
  split at h
  next =>
    simp only [Option.bind_eq_bind, Option.bind_eq_some_iff, Option.pure_def, Option.some.injEq] at h
    obtain ⟨minute, hmi, hour, hh, dom, _, month, hmo, dow, _, rfl⟩ := h
    exact ⟨readField_ne hmi, readField_ne hh, readField_ne hmo⟩
  next => cases h

theorem progression_bounds {a b step n : Nat} (h : n ∈ CronField.progression a b step) : a ≤ n ∧ n ≤ b := by
  simp only [CronField.progression, List.mem_filter, List.mem_range, Bool.and_eq_true, decide_eq_true_eq] at h
  omega

theorem values_bounds {f : CronField} {item : CronItem} {n : Nat} (h : f.admits item = true) (hn : n ∈ f.values item) :
    f.lo ≤ n ∧ n ≤ f.hi := by
  cases item with
  | all step => exact progression_bounds hn
  | point named m =>
    simp only [CronField.admits, Bool.and_eq_true, decide_eq_true_eq] at h
    obtain rfl : n = f.value named m := by simpa [CronField.values] using hn
    exact h
  | span named a b step =>
    simp only [CronField.admits, Bool.and_eq_true, decide_eq_true_eq] at h
    have := progression_bounds hn
    omega

theorem read_bounds {f : CronField} {items : List CronItem} {n : Nat} (h : items.all f.admits = true)
    (hn : n ∈ f.read items) : f.lo ≤ n ∧ n ≤ f.hi := by
  obtain ⟨item, hitem, hn⟩ := List.mem_flatMap.mp hn
  exact values_bounds (List.all_eq_true.mp h item hitem) hn

theorem values_ne {f : CronField} {item : CronItem} (hf : f.lo ≤ f.hi) (h : f.admits item = true) : ∃ n, n ∈ f.values item := by
  cases item with
  | all step => exact ⟨f.lo, by simp [CronField.values, CronField.progression]; omega⟩
  | point named m => exact ⟨_, List.mem_singleton_self _⟩
  | span named a b step =>
    simp only [CronField.admits, Bool.and_eq_true, decide_eq_true_eq] at h
    refine ⟨f.value named a, ?_⟩
    have hle : f.value named a ≤ f.value named b := by
      unfold CronField.value
      split <;> omega
    simp [CronField.values, CronField.progression]
    omega

theorem read_ne {f : CronField} {items : List CronItem} (hf : f.lo ≤ f.hi) (h : items.all f.admits = true) (hne : items ≠ []) :
    ∃ n, n ∈ f.read items := by
  cases items with
  | nil => exact (hne rfl).elim
  | cons item items =>
    obtain ⟨n, hn⟩ := values_ne hf (List.all_eq_true.mp h item List.mem_cons_self)
    exact ⟨n, List.mem_flatMap.mpr ⟨item, List.mem_cons_self, hn⟩⟩

theorem crate_admits_vixie {item : CronItem} (h : CronField.crateDay.admits item = true) :
    CronField.vixieDay.admits item = true := by
  cases item with
  | all step => exact h
  | point named n =>
    cases named <;> simp [CronField.admits, CronField.crateDay, CronField.vixieDay, CronField.value] at h ⊢ <;> omega
  | span named a b step =>
    cases named <;> simp [CronField.admits, CronField.crateDay, CronField.vixieDay, CronField.value] at h ⊢ <;> omega

/-- pg_cron takes every expression that `PgCronExpr` takes. -/
theorem parseEntry_of_parseExpr {text : String} {x : CronText} (h : parseExpr text = some x) : parseEntry text = some x := by
  obtain ⟨hread, hx⟩ := Option.filter_eq_some_iff.mp h
  rw [Bool.and_eq_true] at hx
  refine Option.filter_eq_some_iff.mpr ⟨hread, ?_⟩
  rw [Bool.and_eq_true]
  refine ⟨hx.1, List.all_eq_true.mpr fun item hitem => ?_⟩
  exact crate_admits_vixie (List.all_eq_true.mp hx.2 item hitem)

end parsing

section days

variable {x : CronText} {offset : Int → Int} {since : Int}

/-- The second of the day is one of the expression's. -/
def CronText.atTime (x : CronText) (s : Nat) : Bool :=
  s % 60 = 0 && s / 60 % 60 ∈ CronField.minute.read x.minute && s / 3600 ∈ CronField.hour.read x.hour

def CronText.inMonth (x : CronText) (z : Int) : Bool := (Civil.date z).1 ∈ CronField.month.read x.month

theorem reading_at (z : Int) {s : Nat} (hs : s < 86400) : reading (z * 86400 + s) =
    ⟨s % 60, s / 60 % 60, s / 3600, (Civil.date z).2, (Civil.date z).1, Civil.weekday z⟩ := by
  have hday : (z * 86400 + (s : Int)) / 86400 = z := by omega
  have hsecond : ((z * 86400 + (s : Int)) % 86400).toNat = s := by omega
  simp only [reading, hday, hsecond]

theorem fires_at (z : Int) {s : Nat} (hs : s < 86400) : x.fires (reading (z * 86400 + s)) = true ↔
    x.atTime s = true ∧ x.inMonth z = true ∧ x.vixieDay (Civil.date z).2 (Civil.weekday z) = true := by
  rw [reading_at z hs]
  simp [CronText.fires, CronText.onTime, CronText.atTime, CronText.inMonth, and_assoc]

theorem includes_at (z : Int) {s : Nat} (hs : s < 86400) : x.includes (reading (z * 86400 + s)) = true ↔
    x.atTime s = true ∧ x.inMonth z = true ∧ x.crateDay (Civil.date z).2 (Civil.weekday z) = true := by
  rw [reading_at z hs]
  simp [CronText.includes, CronText.onTime, CronText.atTime, CronText.inMonth, and_assoc]

/-- The entry fires at the instants of the schedule from `since` on. -/
def Coincide (x : CronText) (offset : Int → Int) (since : Int) : Prop :=
  ∀ t, since ≤ t → (x.fires (reading t) = true ↔ x.includes (reading (t + offset t)) = true)

/-- The first and the last second of a day that an expression names. -/
theorem extreme_times (h : ∃ s, s < 86400 ∧ x.atTime s = true) :
    ∃ lo hi, (lo < 86400 ∧ x.atTime lo = true ∧ ∀ s, x.atTime s = true → lo ≤ s) ∧
      hi < 86400 ∧ x.atTime hi = true ∧ ∀ s, s < 86400 → x.atTime s = true → s ≤ hi := by
  obtain ⟨s₀, hs₀, ht₀⟩ := h
  have least : ∃ s, x.atTime s = true := ⟨s₀, ht₀⟩
  refine ⟨Nat.find least, Nat.findGreatest (fun s => x.atTime s = true) 86399, ⟨?_, Nat.find_spec least, ?_⟩, ?_, ?_, ?_⟩
  · have := Nat.find_min' least ht₀
    omega
  · exact fun s hs => Nat.find_min' least hs
  · have := Nat.findGreatest_le (P := fun s => x.atTime s = true) 86399
    omega
  · exact Nat.findGreatest_spec (P := fun s => x.atTime s = true) (by omega : s₀ ≤ 86399) ht₀
  · exact fun s hs ht => Nat.le_findGreatest (by omega) ht

/-- Around a day on which the zone keeps its offset the schedules can only coincide if that day
belongs to both or to none. -/
theorem coincide_day (h : Coincide x offset since) (times : ∃ s, s < 86400 ∧ x.atTime s = true) {z o : Int}
    (later : since ≤ (z - 1) * 86400) (low : -86400 < o) (high : o < 86400)
    (steady : ∀ t, (z - 1) * 86400 ≤ t → t < (z + 2) * 86400 → offset t = o) (hmonth : x.inMonth z = true) :
    x.vixieDay (Civil.date z).2 (Civil.weekday z) = true ↔ x.crateDay (Civil.date z).2 (Civil.weekday z) = true := by
  obtain ⟨lo, hi, ⟨hlo, tlo, least⟩, hhi, thi, greatest⟩ := extreme_times times
  constructor
  · intro hv
    -- The first time of the day cannot move to a later one of the day before, nor the last to an earlier one of the next.
    by_cases neg : o < 0
    · have hf := (fires_at z hhi).mpr ⟨thi, hmonth, hv⟩
      have hi' := (h _ (by omega)).mp hf
      rw [steady _ (by omega) (by omega)] at hi'
      by_cases hsame : (0 : Int) ≤ hi + o
      · rw [show z * 86400 + (hi : Int) + o = z * 86400 + ((hi + o).toNat : Int) by omega] at hi'
        exact ((includes_at z (by omega)).mp hi').2.2
      · rw [show z * 86400 + (hi : Int) + o = (z - 1) * 86400 + ((hi + o + 86400).toNat : Int) by omega] at hi'
        have := greatest _ (by omega) ((includes_at (z - 1) (by omega)).mp hi').1
        omega
    · have hf := (fires_at z hlo).mpr ⟨tlo, hmonth, hv⟩
      have hi' := (h _ (by omega)).mp hf
      rw [steady _ (by omega) (by omega)] at hi'
      by_cases hsame : (lo : Int) + o < 86400
      · rw [show z * 86400 + (lo : Int) + o = z * 86400 + ((lo + o).toNat : Int) by omega] at hi'
        exact ((includes_at z (by omega)).mp hi').2.2
      · rw [show z * 86400 + (lo : Int) + o = (z + 1) * 86400 + ((lo + o - 86400).toNat : Int) by omega] at hi'
        have := least _ ((includes_at (z + 1) (by omega)).mp hi').1
        omega
  · intro hc
    by_cases neg : o < 0
    · have hsum : z * 86400 + (lo : Int) - o + offset (z * 86400 + lo - o) = z * 86400 + lo := by
        rw [steady _ (by omega) (by omega)]
        omega
      have hf := (h (z * 86400 + lo - o) (by omega)).mpr (by rw [hsum]; exact (includes_at z hlo).mpr ⟨tlo, hmonth, hc⟩)
      by_cases hsame : (lo : Int) - o < 86400
      · rw [show z * 86400 + (lo : Int) - o = z * 86400 + ((lo - o).toNat : Int) by omega] at hf
        exact ((fires_at z (by omega)).mp hf).2.2
      · rw [show z * 86400 + (lo : Int) - o = (z + 1) * 86400 + ((lo - o - 86400).toNat : Int) by omega] at hf
        have := least _ ((fires_at (z + 1) (by omega)).mp hf).1
        omega
    · have hsum : z * 86400 + (hi : Int) - o + offset (z * 86400 + hi - o) = z * 86400 + hi := by
        rw [steady _ (by omega) (by omega)]
        omega
      have hf := (h (z * 86400 + hi - o) (by omega)).mpr (by rw [hsum]; exact (includes_at z hhi).mpr ⟨thi, hmonth, hc⟩)
      by_cases hsame : (0 : Int) ≤ hi - o
      · rw [show z * 86400 + (hi : Int) - o = z * 86400 + ((hi - o).toNat : Int) by omega] at hf
        exact ((fires_at z (by omega)).mp hf).2.2
      · rw [show z * 86400 + (hi : Int) - o = (z - 1) * 86400 + ((hi - o + 86400).toNat : Int) by omega] at hf
        have := greatest _ (by omega) ((fires_at (z - 1) (by omega)).mp hf).1
        omega

/-- An expression names some second of the day. -/
theorem some_time {text : String} (h : parseExpr text = some x) : ∃ s, s < 86400 ∧ x.atTime s = true := by
  obtain ⟨hread, hx⟩ := Option.filter_eq_some_iff.mp h
  simp only [CronText.common, Bool.and_eq_true] at hx
  obtain ⟨hmi, hh, _⟩ := readText_ne hread
  obtain ⟨mi, mmi⟩ := read_ne (f := CronField.minute) (by decide) hx.1.1.1.1 hmi
  obtain ⟨hr, mhr⟩ := read_ne (f := CronField.hour) (by decide) hx.1.1.1.2 hh
  have bmi : 0 ≤ mi ∧ mi ≤ 59 := read_bounds hx.1.1.1.1 mmi
  have bhr : 0 ≤ hr ∧ hr ≤ 23 := read_bounds hx.1.1.1.2 mhr
  refine ⟨hr * 3600 + mi * 60, by omega, ?_⟩
  have e₁ : (hr * 3600 + mi * 60) % 60 = 0 := by omega
  have e₂ : (hr * 3600 + mi * 60) / 60 % 60 = mi := by omega
  have e₃ : (hr * 3600 + mi * 60) / 3600 = hr := by omega
  simp [CronText.atTime, e₁, e₂, e₃, mmi, mhr]

/-- Where the rules for days agree, GMT makes the two schedules one. -/
theorem fires_eq_includes (h : DaysAgree x) (t : Int) : x.fires (reading t) = x.includes (reading t) := by
  unfold CronText.fires CronText.includes
  cases ht : x.onTime (reading t) with
  | false => rfl
  | true =>
    simp only [CronText.onTime, Bool.and_eq_true, decide_eq_true_eq] at ht
    obtain ⟨_, low, high⟩ := Civil.date_valid (t / 86400)
    have hw : Civil.weekday (t / 86400) < 7 := by
      unfold Civil.weekday
      omega
    have agree := h _ ht.2 _ _ low high hw
    simpa [reading] using agree

theorem coincide_iff {text : String} (hx : parseExpr text = some x) (c : CronEntry) (hc : c.schedule = text) :
    (∀ t, since ≤ t → firesAt c t = onSchedule text offset t) ↔ Coincide x offset since := by
  simp only [firesAt, onSchedule, hc, parseEntry_of_parseExpr hx, hx, Option.any_some]
  exact forall_congr' fun t => imp_congr_right fun _ => Bool.eq_iff_iff

theorem zoneAgrees_iff {text : String} (hx : parseExpr text = some x) :
    ZoneAgrees text offset since ↔ ∀ t, since ≤ t → x.includes (reading t) = x.includes (reading (t + offset t)) := by
  simp only [ZoneAgrees, onSchedule, hx, Option.any_some, Int.add_zero]

/-- Enough for any zone. -/
theorem coincide_of_agree {text : String} (hx : parseExpr text = some x) (days : DaysAgree x)
    (zone : ZoneAgrees text offset since) : Coincide x offset since := by
  intro t ht
  rw [fires_eq_includes days, (zoneAgrees_iff hx).mp zone t ht]

/-- Needed where the zone is steady. -/
theorem agree_of_coincide {text : String} (hx : parseExpr text = some x) (steady : Steady offset since)
    (h : Coincide x offset since) : DaysAgree x ∧ ZoneAgrees text offset since := by
  have days : DaysAgree x := by
    intro m hm d w hd hd' hw
    obtain ⟨hread, hadmits⟩ := Option.filter_eq_some_iff.mp hx
    simp only [CronText.common, Bool.and_eq_true] at hadmits
    have bounds : 1 ≤ m ∧ m ≤ 12 := read_bounds hadmits.1.2 hm
    obtain ⟨z, o, hdate, hweek, later, low, high, same⟩ := steady m d w bounds ⟨hd, hd'⟩ hw
    have hmonth : x.inMonth z = true := by
      simp [CronText.inMonth, hdate, hm]
    have day := coincide_day h (some_time hx) later low high same hmonth
    rw [hdate, hweek] at day
    exact Bool.eq_iff_iff.mpr day
  refine ⟨days, (zoneAgrees_iff hx).mpr fun t ht => ?_⟩
  rw [← fires_eq_includes days]
  exact Bool.eq_iff_iff.mpr (h t ht)

/-- A zone that keeps one offset is steady. -/
theorem steady_fixed {o : Int} (low : -86400 < o) (high : o < 86400) (h : ∀ t, since ≤ t → offset t = o) :
    Steady offset since := by
  intro m d w hm hd hw
  obtain ⟨z, hdate, hweek⟩ := Civil.date_occurs hm hd hw
  obtain ⟨hdate', hweek'⟩ := Civil.date_add z (since.natAbs + z.natAbs + 2)
  have later : since ≤ (z + 146097 * ((since.natAbs + z.natAbs + 2 : Nat) : Int) - 1) * 86400 := by omega
  exact ⟨_, o, hdate'.trans hdate, hweek'.trans hweek, later, low, high, fun t ht _ => h t (by omega)⟩

end days

section run

variable {env : Setup} {g : Guard (service env)}

/-- The instants of a job's schedule, by the offsets of the time zones. -/
def dueAt (zone : String → Option (Int → Int)) (j : Job) (t : Int) : Bool :=
  match j.cronExpression, j.cronTimezone.bind zone with
  | some expression, some offset => onSchedule expression offset t
  | _, _ => false

end run

section sample

def daysCheck (x : CronText) : Bool := (CronField.month.read x.month).all fun m =>
  (List.range (Civil.monthLength m + 1)).all fun d => (List.range 7).all fun w => x.vixieDay d w = x.crateDay d w

theorem daysAgree_of_check {x : CronText} (h : daysCheck x = true) : DaysAgree x := by
  intro m hm d w _ hd hw
  have hday := List.all_eq_true.mp (List.all_eq_true.mp h m hm) d (List.mem_range.mpr (by omega))
  exact of_decide_eq_true (List.all_eq_true.mp hday w (List.mem_range.mpr hw))

def gmt (name : String) : Option (Int → Int) := if name = "UTC" then some fun _ => 0 else none

def everyMinute : CronText := ⟨[.all 1], [.all 1], [.all 1], [.all 1], [.all 1]⟩

/-- A job for the first day of the week at nine. -/
def weeklyCron : List (Action (service sample)) :=
  serve 1 8 (.createEndpoint "acme" sampleEndpoint) (.response 200 "") ++
    serve 2 10 (.createJob "acme" { sampleCron with cron := some "0 9 * * 1" }) (.response 200 "")

end sample

end Invokr

import Invokr.CronSchedules
import Invokr.PlannedRuns
import Mathlib.Order.Bounds.Basic

namespace Invokr

open TxLib

variable {env : Setup}

/-- pg_cron fires at the instant, in microseconds after the epoch. -/
def CronText.Due (x : CronText) (v : Time) : Prop := v % 1000000 = 0 ∧ x.fires (reading (v / 1000000)) = true

/-- `Schedule::after` in UTC begins with the first instant of the schedule after the given one. -/
def NextAfter (env : Setup) (expression : String) (x : CronText) : Prop := ∀ t u, env.cronNext expression "UTC" t = some u →
  IsLeast {v : Int | t < v ∧ v % 1000000 = 0 ∧ x.includes (reading (v / 1000000)) = true} u

/-- Both day fields are stars. -/
def CronText.EveryDay (x : CronText) : Prop := x.dayOfMonth = [.all 1] ∧ x.dayOfWeek = [.all 1]

/-- The request has read this time from the clock. -/
def ReadsClock (acts : List (Action (service env))) (t : Nat) (req : Request env) (ref : Time) : Prop :=
  ∃ e rows, Made acts t req ⟨.ext .now, e, ref, rows⟩

/-- The instant after which the request looks for the next run, and the window it gives the job. -/
def LooksFrom (acts : List (Action (service env))) (t : Nat) (req : Request env) (ref : Time) (startsAt endsAt : Option Time) : Prop :=
  match req with
  | .createJob _ body => startsAt = some ref ∧ endsAt = body.endsAt ∧
      (body.startsAt = some ref ∨ body.startsAt = none ∧ ReadsClock acts t req ref)
  | .updateJob schemaName jobId body => ReadsClock acts t req ref ∧ ∃ old : Job,
      (after acts).world.rows .jobs ⟨schemaName, jobId⟩ = some old ∧
        startsAt = (body.startsAt.orElse fun _ => old.cronStartsAt) ∧ endsAt = body.endsAt.orElse fun _ => old.cronEndsAt
  | _ => False

/-- The answers of the requests that make a CRON job or a version of one. -/
inductive Schedules (schemaName : String) (j : Job) : Request env → Outcome → Prop where
  | created {body : CreateJob} {e} : TriggerType.fromStrVal body.trigger = some .cron →
      Schedules schemaName j (.createJob schemaName body) (.http (.ok (.jobCreated j e)))
  | updated {jobId : String} {body : UpdateJob} :
      Schedules schemaName j (.updateJob schemaName jobId body) (.http (.ok (.jobUpdated j)))

/-- What the stored value says of the job's executions. -/
structure Told (x : CronText) (acts acts' : List (Action (service env))) (k : Key) (now : Time) : Prop where
  predicts : ∃ (j : Job) (u : Time), (after acts).world.rows .jobs k = some j ∧ j.cronNextRunAt = some u ∧
    IsLeast {v : Int | now < v ∧ x.Due v ∧ Jobs.inWindow v j = true} u
  current : ∀ mid, acts <+: mid → mid <+: acts' → ∀ (j : Job) (u : Time), (after mid).world.rows .jobs k = some j →
    j.cronNextRunAt = some u → ∀ ke (e : Execution), (after mid).world.rows .executions ke = some e → jobKey ke e = k →
      e.createdAt ≤ u

/-- From the reference point on there is an instant before the end, none of them is too early, and the
job has no execution from after the first; no instant of the window lies between now and it. -/
structure Foreseen (x : CronText) (ref : Time) (startsAt endsAt : Option Time) (acts acts' : List (Action (service env)))
    (k : Key) (now : Time) : Prop where
  notEarly : ∀ v : Int, ref < v → x.Due v → now < v ∧ ∀ s ∈ startsAt, s ≤ v
  complete : ∀ v : Int, now < v → x.Due v → (∀ s ∈ startsAt, s ≤ v) → (∀ s ∈ endsAt, v < s) → ref < v
  ends : ∃ v : Int, ref < v ∧ x.Due v ∧ ∀ s ∈ endsAt, v < s
  idle : ∀ mid, acts <+: mid → mid <+: acts' → ∀ ke (e : Execution), (after mid).world.rows .executions ke = some e →
    jobKey ke e = k → ∀ v : Int, ref < v → x.Due v → e.createdAt ≤ v

section window

variable {x : CronText} {j : Job} {u ref now : Time} {expression : String} {startsAt endsAt : Option Time}
  {acts acts' : List (Action (service env))} {k : Key}

theorem daysAgree_everyDay (h : x.EveryDay) : DaysAgree x := by
  intro m _ d w hd hd' hw
  have crate : w + 1 ∈ CronField.crateDay.read [.all 1] := by
    simp [CronField.read, CronField.values, CronField.progression, CronField.crateDay]
    omega
  have vixie : (CronField.vixieDay.read [.all 1]).any (fun n => n % 7 = w) = true := by
    refine List.any_eq_true.mpr ⟨w, ?_, ?_⟩
    · simp [CronField.read, CronField.values, CronField.progression, CronField.vixieDay]
      omega
    · simp
      omega
  simp [CronText.vixieDay, CronText.crateDay, CronText.vixieWeekday, CronText.starred, h.1, h.2, crate, vixie]

theorem planned_least (documented : NextAfter env expression x) (planned : Planned env j ref)
    (hexpr : j.cronExpression = some expression) (daily : x.EveryDay) (utc : j.cronTimezone = some "UTC") :
    ∃ u : Time, j.cronNextRunAt = some u ∧ IsLeast {v : Int | ref < v ∧ x.Due v} u := by
  obtain ⟨expression', tz, u, he, ht, hnext, hu⟩ := planned
  rw [hexpr] at he
  rw [utc] at ht
  cases he
  cases ht
  refine ⟨u, hu, ?_⟩
  have same : {v : Int | ref < v ∧ x.Due v} =
      {v : Int | ref < v ∧ v % 1000000 = 0 ∧ x.includes (reading (v / 1000000)) = true} := by
    ext v
    simp only [CronText.Due, Set.mem_ofPred_eq, fires_eq_includes (daysAgree_everyDay daily)]
  rw [same]
  exact documented _ _ hnext

theorem inWindow_iff {v : Int} : Jobs.inWindow v j = true ↔ (∀ s ∈ j.cronStartsAt, s ≤ v) ∧ ∀ s ∈ j.cronEndsAt, v < s := by
  simp [Jobs.inWindow, Option.all_eq_true]

/-- The value is the first instant after the reference point. -/
theorem told_iff (stored : (after acts).world.rows .jobs k = some j)
    (hstart : j.cronStartsAt = startsAt) (hend : j.cronEndsAt = endsAt) (value : j.cronNextRunAt = some u)
    (first : IsLeast {v : Int | ref < v ∧ x.Due v} u) :
    Told x acts acts' k now ↔ Foreseen x ref startsAt endsAt acts acts' k now := by
  subst hstart hend
  obtain ⟨⟨after_ref, due⟩, least⟩ := first
  constructor
  · intro h
    obtain ⟨j', u', hj', hu', ⟨⟨late, _, window⟩, earliest⟩⟩ := h.predicts
    rw [stored] at hj'
    cases hj'
    rw [value] at hu'
    cases hu'
    obtain ⟨started, unended⟩ := inWindow_iff.mp window
    refine ⟨fun v hv dv => ?_, fun v hv dv starts ends => ?_, ⟨u, after_ref, due, unended⟩, fun mid hm hm' ke e he hk v hv dv => ?_⟩
    · have hle : u ≤ v := least ⟨hv, dv⟩
      exact ⟨lt_of_lt_of_le late hle, fun s hs => (started s hs).trans hle⟩
    · exact lt_of_lt_of_le after_ref (earliest ⟨hv, dv, inWindow_iff.mpr ⟨starts, ends⟩⟩)
    · obtain ⟨j', hj', same⟩ := (later_since hm).job k j stored
      exact (h.current mid hm hm' j' u hj' (same.timetable.2.2.trans value) ke e he hk).trans (least ⟨hv, dv⟩)
  · intro h
    obtain ⟨v, hv, dv, unended⟩ := h.ends
    have hle : u ≤ v := least ⟨hv, dv⟩
    obtain ⟨late, started⟩ := h.notEarly u after_ref due
    refine ⟨⟨j, u, stored, value, ⟨late, due, inWindow_iff.mpr ⟨started, fun s hs => lt_of_le_of_lt hle (unended s hs)⟩⟩,
      fun v' ⟨hv', dv', window⟩ => ?_⟩, fun mid hm hm' j' u' hj' hu' ke e he hk => ?_⟩
    · obtain ⟨starts, ends⟩ := inWindow_iff.mp window
      exact least ⟨h.complete v' hv' dv' starts ends, dv'⟩
    · obtain ⟨j'', hj'', same⟩ := (later_since hm).job k j stored
      rw [hj'] at hj''
      cases hj''
      rw [same.timetable.2.2, value] at hu'
      cases hu'
      exact h.idle mid hm hm' ke e he hk u after_ref due

end window

section run

variable {acts acts' : List (Action (service env))} {t : Nat} {req : Request env} {out : Outcome} {schemaName : String} {j : Job}

/-- The job that a request has answered with is stored, and stays. -/
theorem scheduled_stored (answer : (after acts).answer t = some (req, out)) (made : Schedules schemaName j req out) :
    ∃ j' : Job, (after acts).world.rows .jobs ⟨schemaName, j.jobId⟩ = some j' ∧ SameJob j j' := by
  obtain ⟨w₀, _, view, post⟩ := keeps_post (keeps_all acts) answer
  have log : (after acts).world.history t = w₀.history t := congrArg Prod.snd view
  have inserted : ∃ l s, (after acts).world.history t = l ++ [.commit s] ∧
      s.held .jobs ⟨schemaName, j.jobId⟩ = some ⟨none, some j⟩ := by
    cases made with
    | created cron =>
      obtain ⟨l, s, hl, _, held, _⟩ := post.2
      exact ⟨l, s, log.trans hl, held⟩
    | updated =>
      obtain ⟨l, s, hl, held, _⟩ := post.2
      exact ⟨l, s, log.trans hl, held⟩
  obtain ⟨l, s, hl, held⟩ := inserted
  obtain ⟨before, x, rest, hacts, _, _, stored⟩ := inserted_at hl held
  have le : before ++ [x] <+: acts := by
    rw [hacts]
    exact ⟨rest, by simp⟩
  exact (later_since le).job _ j stored

theorem holds_answered {x : Try Pg AppError Reply} {Q : Reply → Memory Pg → Prop} (program : req.program = answered x)
    (tries : Tries Recalls (fun _ _ => True) Q (fun _ _ => True) x (none, [])) :
    ((service env).program req).Holds Recalls (fun _ _ => True) (fun o m => ∀ r, o = .http (.ok r) → Q r m) (none, []) := by
  change req.program.Holds Recalls _ _ _
  rw [program]
  refine Prog.holds_bind.mpr (Prog.Holds.mono tries fun r m h r' hr => ?_)
  cases hr
  exact h

/-- The job's next run is computed from the point that the request looks from. -/
theorem scheduled_planned (answer : (after acts).answer t = some (req, out)) (made : Schedules schemaName j req out) :
    ∃ ref startsAt endsAt, LooksFrom acts t req ref startsAt endsAt ∧ Timetable env ref startsAt endsAt j := by
  have read : ∀ l, (∀ x, x ∈ l ↔ Made acts t req x) → ∀ ref, Heard ref l → ReadsClock acts t req ref := by
    rintro l exchanges ref ⟨e, rows, hm⟩
    exact ⟨e, rows, (exchanges _).mp hm⟩
  cases made with
  | @created body e cron =>
    have holds := holds_answered (rfl : (Request.createJob schemaName body : Request env).program = _) (told_create cron)
    obtain ⟨l, exchanges, ends⟩ := Pool.recalled_answer (holds_of holds) answer
    obtain ⟨ref, table, given⟩ := ends rfl _ rfl j e rfl
    exact ⟨ref, some ref, body.endsAt, ⟨rfl, rfl, given.imp_right fun g => ⟨g.1, read l exchanges ref g.2⟩⟩, table⟩
  | @updated jobId body =>
    have holds := holds_answered (rfl : (Request.updateJob schemaName jobId body : Request env).program = _) told_update
    obtain ⟨l, exchanges, ends⟩ := Pool.recalled_answer (holds_of holds) answer
    obtain ⟨ref, old, shown, heard, table⟩ := ends rfl _ rfl j rfl
    obtain ⟨x, hx, hop, hold⟩ := shown
    obtain ⟨before, le, _, _, rows⟩ := (exchanges x).mp hx
    rw [← rows] at hold
    obtain ⟨old', hold', same⟩ := (later_since ((List.prefix_append before _).trans le)).job _ old hold
    refine ⟨ref, _, _, ⟨read l exchanges ref heard, old', hold', rfl, rfl⟩, ?_⟩
    rw [same.timetable.1, same.timetable.2.1]
    exact table

/-- The answer to a create that has made a job. -/
def createAnswer (p : Pool (service env)) (t : Nat) : Option (String × CreateJob × Job) :=
  match p.answer t with
  | some (.createJob schemaName body, .http (.ok (.jobCreated j _))) => some (schemaName, body, j)
  | _ => none

theorem createAnswer_answer {p : Pool (service env)} {body : CreateJob} (h : createAnswer p t = some (schemaName, body, j)) :
    ∃ e, p.answer t = some (.createJob schemaName body, .http (.ok (.jobCreated j e))) := by
  unfold createAnswer at h
  split at h
  next hn =>
    cases h
    exact ⟨_, hn⟩
  next => cases h

end run

section sample

theorem all_read {f : CronField} {n : Nat} : n ∈ f.read [.all 1] ↔ f.lo ≤ n ∧ n ≤ f.hi := by
  simp [CronField.read, CronField.values, CronField.progression, Nat.mod_one]
  omega

theorem everyMinute_includes (s : Int) : everyMinute.includes (reading s) = true ↔ s % 60 = 0 := by
  obtain ⟨⟨month, month'⟩, day, day'⟩ := Civil.date_valid (s / 86400)
  have week : Civil.weekday (s / 86400) < 7 := by
    unfold Civil.weekday
    omega
  have length : Civil.monthLength (Civil.date (s / 86400)).1 ≤ 31 := by
    unfold Civil.monthLength
    split
    · omega
    · split <;> omega
  have parts : s / 86400 * 86400 + ((s % 86400).toNat : Int) = s := by omega
  have second : (s % 86400).toNat % 60 = 0 ↔ s % 60 = 0 := by omega
  have hour : (s % 86400).toNat / 3600 ≤ 23 := by omega
  have at_time := includes_at (x := everyMinute) (s / 86400) (show (s % 86400).toNat < 86400 by omega)
  rw [parts] at at_time
  rw [at_time]
  simp only [CronText.atTime, CronText.inMonth, CronText.crateDay, CronText.onDayOfMonth, everyMinute, all_read,
    Bool.and_eq_true, decide_eq_true_eq, CronField.minute, CronField.hour, CronField.month, CronField.dayOfMonth,
    CronField.crateDay, second]
  omega

theorem next_minute (t : Int) : t < (t / 60000000 + 1) * 60000000 ∧ (t / 60000000 + 1) * 60000000 % 1000000 = 0 ∧
    (t / 60000000 + 1) * 60000000 / 1000000 % 60 = 0 ∧
    ∀ v : Int, t < v → v % 1000000 = 0 → v / 1000000 % 60 = 0 → (t / 60000000 + 1) * 60000000 ≤ v := by
  refine ⟨by omega, by omega, by omega, fun v later whole minute => by omega⟩

theorem sample_nextAfter : NextAfter sample "* * * * *" everyMinute := by
  intro t u hu
  obtain rfl : (t / 60000000 + 1) * 60000000 = u := Option.some.inj hu
  obtain ⟨later, whole, minute, least⟩ := next_minute t
  refine ⟨⟨later, whole, (everyMinute_includes _).mpr minute⟩, fun v hv => ?_⟩
  obtain ⟨later', whole', due⟩ := hv
  exact least v later' whole' ((everyMinute_includes _).mp due)

theorem first_minute : everyMinute.Due 60000000 := by
  refine ⟨by decide, ?_⟩
  rw [fires_eq_includes (daysAgree_everyDay ⟨rfl, rfl⟩)]
  exact (everyMinute_includes _).mpr (by decide)

/-- A job that fires every minute from the given instant on. -/
def cronFrom (startsAt : Time) : List (Action (service sample)) :=
  serve 1 8 (.createEndpoint "acme" sampleEndpoint) (.response 200 "") ++
    serve 2 10 (.createJob "acme" { sampleCron with startsAt := some startsAt }) (.response 200 "")

/-- What the create has asked and been answered. -/
structure Minutely (startsAt : Time) (body : CreateJob) (j : Job) (e : Option (String × ExecutionStatus × Time)) : Prop where
  answer : (after (cronFrom startsAt)).answer 2 = some (.createJob "acme" body, .http (.ok (.jobCreated j e)))
  trigger : TriggerType.fromStrVal body.trigger = some .cron
  window : body.startsAt = some startsAt ∧ body.endsAt = none
  jobId : j.jobId = sampleId 205
  createdAt : j.createdAt = 0
  schedule : j.cronExpression = some "* * * * *" ∧ j.cronTimezone = some "UTC"

theorem minutely {startsAt : Time} (h : (createAnswer (after (cronFrom startsAt)) 2).any (fun x =>
    x.1 = "acme" && TriggerType.fromStrVal x.2.1.trigger = some .cron && x.2.1.startsAt = some startsAt &&
      x.2.1.endsAt.isNone && x.2.2.jobId = sampleId 205 && x.2.2.createdAt = 0 &&
      x.2.2.cronExpression = some "* * * * *" && x.2.2.cronTimezone = some "UTC") = true) :
    ∃ body j e, Minutely startsAt body j e := by
  cases hx : createAnswer (after (cronFrom startsAt)) 2 with
  | none =>
    rw [hx] at h
    cases h
  | some x =>
    obtain ⟨schemaName, body, j⟩ := x
    rw [hx] at h
    simp only [Option.any_some, Bool.and_eq_true, decide_eq_true_eq, Option.isNone_iff_eq_none] at h
    obtain ⟨⟨⟨⟨⟨⟨⟨rfl, trigger⟩, starts⟩, ends⟩, jobId⟩, createdAt⟩, expression⟩, timezone⟩ := h
    obtain ⟨e, answer⟩ := createAnswer_answer hx
    exact ⟨body, j, e, answer, trigger, ⟨starts, ends⟩, jobId, createdAt, expression, timezone⟩

end sample

end Invokr

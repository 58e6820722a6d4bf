import Invokr.Recollection
import Invokr.Yields

namespace Invokr

open TxLib

variable {env : Setup} {schemaName expression tz : String} {m : Memory Pg} {ref next : Time} {startsAt endsAt : Option Time}

/-- The job's value is the one that the code computes from the reference point. -/
def Planned (env : Setup) (j : Job) (ref : Time) : Prop :=
  ∃ expression tz u, j.cronExpression = some expression ∧ j.cronTimezone = some tz ∧
    env.cronNext expression tz ref = some u ∧ j.cronNextRunAt = some u

/-- The columns of a job's schedule. -/
structure Timetable (env : Setup) (ref : Time) (startsAt endsAt : Option Time) (j : Job) : Prop where
  startsAt : j.cronStartsAt = startsAt
  endsAt : j.cronEndsAt = endsAt
  planned : Planned env j ref

/-- The clock has shown this time to one of the calls. -/
def Heard (ref : Time) (l : List (Exchange Pg)) : Prop := ∃ e rows, (⟨.ext .now, e, ref, rows⟩ : Exchange Pg) ∈ l

/-- A new job's next run is computed from its start, which the request gives or the clock. -/
def CreatedFrom (env : Setup) (body : CreateJob) (l : List (Exchange Pg)) (j : Job) : Prop :=
  ∃ ref, Timetable env ref (some ref) body.endsAt j ∧ (body.startsAt = some ref ∨ body.startsAt = none ∧ Heard ref l)

/-- A new version's next run is computed from the clock. -/
def UpdatedFrom (env : Setup) (schemaName jobId : String) (body : UpdateJob) (l : List (Exchange Pg)) (j : Job) : Prop :=
  ∃ ref, ∃ old : Job, Shown l .getJob .jobs ⟨schemaName, jobId⟩ old ∧ Heard ref l ∧
    Timetable env ref (body.startsAt.orElse fun _ => old.cronStartsAt) (body.endsAt.orElse fun _ => old.cronEndsAt) j

theorem SameJob.timetable {j j' : Job} (h : SameJob j j') :
    j'.cronStartsAt = j.cronStartsAt ∧ j'.cronEndsAt = j.cronEndsAt ∧ j'.cronNextRunAt = j.cronNextRunAt := by
  have hj := h.1
  rw [← hj]
  exact ⟨rfl, rfl, rfl⟩

theorem Heard.later {l l' : List (Exchange Pg)} (h : Heard ref l) (le : l <+: l') : Heard ref l' := by
  obtain ⟨e, rows, hm⟩ := h
  exact ⟨e, rows, le.subset hm⟩

section yields

theorem yields_execute {α : Type} {P : α → Prop} {db : DbContext} {x : Try Pg DbError α} (h : Yields P x) :
    Yields P (db.execute x) := by
  unfold DbContext.execute
  split
  · exact h
  · exact yields_transaction h

theorem yields_insertOne {stmt : Statement} {tb : Table} {build : Uuid → Int → Key × tb.Row} {P : tb.Row → Prop}
    (h : ∀ id now, P (build id now).2) : Yields P (insertOne stmt tb build) := by
  refine yields_bind yields_insert fun new hnew => ?_
  cases new with
  | none => exact yields_throw _
  | some n =>
    obtain ⟨id, now, rfl⟩ := hnew n rfl
    exact yields_pure (h id now)

theorem yields_scopedTransaction {α : Type} {P : α → Prop} {body : Try Pg AppError α} (h : Yields P body) :
    Yields P (scopedTransaction schemaName body) := by
  unfold scopedTransaction
  split
  · exact yields_bind (yields_any _) fun _ _ => yields_transaction h
  · exact yields_transaction h

theorem yields_insertCron {body : CreateJob} {ep : Endpoint} (h : env.cronNext expression tz ref = some next) :
    Yields (Timetable env ref (some ref) body.endsAt) (JobsApi.insertCron env schemaName body ep expression tz ref next) := by
  refine yields_bind (P := Timetable env ref (some ref) body.endsAt)
    (yields_adapt (yields_execute (yields_insertOne fun id now => ?_))) fun j hj => ?_
  · exact ⟨rfl, rfl, expression, tz, next, rfl, rfl, h, rfl⟩
  · exact yields_bind (yields_any _) fun _ _ => yields_pure hj

theorem yields_replaceIn {jobId : String} {new : Job} (h : Timetable env ref startsAt endsAt new) :
    Yields (Timetable env ref startsAt endsAt) (JobsApi.replaceIn env schemaName jobId new expression) := by
  refine yields_bind (P := Timetable env ref startsAt endsAt)
    (yields_adapt (yields_bind (yields_any _) fun _ _ => yields_execute (yields_insertOne fun id now => ?_))) fun j hj => ?_
  · exact ⟨h.startsAt, h.endsAt, h.planned⟩
  · exact yields_bind (yields_any _) fun _ _ => yields_bind (yields_any _) fun _ _ => yields_pure hj

theorem yields_findDuplicate {db : DbContext} {body : CreateJob} :
    Yields (fun found => ∀ j e, found ≠ some (.jobCreated j e)) (JobsApi.findDuplicate db body) := by
  unfold JobsApi.findDuplicate
  split
  next => exact yields_pure fun j e h => by cases h
  next =>
    refine yields_bind (yields_any _) fun existing _ => ?_
    split
    next => exact yields_pure fun j e h => by cases h
    next => exact yields_bind (yields_any _) fun _ _ => yields_pure fun j e h => by cases h

end yields

section told

/-- The reading of the clock is heard. -/
theorem tries_now {ε : Type} {Q : Time → Memory Pg → Prop} (h : ∀ ref m', m.2 <+: m'.2 → Heard ref m'.2 → Q ref m') :
    Tries Recalls (fun _ _ => True) Q (fun _ _ => True) ((ext (M := Pg) .now : Program Pg Time) : Try Pg ε Time) m := by
  refine tries_lift ⟨trivial, fun r m' hr => ?_⟩
  have le := hr.extends
  obtain ⟨D, _, _, _, e, _, hm'⟩ := hr.eval
  refine h r m' le ⟨e, D, ?_⟩
  rw [hm']
  exact List.mem_append_right _ (List.mem_singleton.mpr rfl)

theorem told_scheduleFrom {body : CreateJob} {ep : Endpoint}
    (given : body.startsAt = some ref ∨ body.startsAt = none ∧ Heard ref m.2) :
    Tries Recalls (fun _ _ => True) (fun r m' => ∀ j e, r = .jobCreated j e → CreatedFrom env body m'.2 j)
      (fun _ _ => True)
      (match env.cronNext expression tz ref with
        | none => throw (.invalidCron "No upcoming run for this cron schedule")
        | some nextRun => do
          let job ← scopedTransaction schemaName (JobsApi.insertCron env schemaName body ep expression tz ref nextRun)
          return .jobCreated job none : Try Pg AppError Reply) m := by
  split
  next => exact tries_throw trivial
  next next hnext =>
    refine tries_bind ((yields_scopedTransaction (yields_insertCron hnext) m).mono (fun j m' h => ?_) fun _ _ _ => trivial)
    refine tries_pure fun j' e hj => ?_
    cases hj
    exact ⟨ref, h.2, given.imp_right fun g => ⟨g.1, g.2.later h.1⟩⟩

theorem told_createCron {body : CreateJob} {ep : Endpoint} :
    Tries Recalls (fun _ _ => True) (fun r m' => ∀ j e, r = .jobCreated j e → CreatedFrom env body m'.2 j)
      (fun _ _ => True) (JobsApi.createCron env schemaName body ep) m := by
  unfold JobsApi.createCron
  split
  next => exact tries_throw trivial
  next cron _ =>
    split
    next => exact tries_throw trivial
    next tz _ =>
      refine tries_checked (fun _ => ?_) fun _ => trivial
      cases hs : body.startsAt with
      | some ref => exact tries_bind (tries_pure (told_scheduleFrom (Or.inl hs)))
      | none => exact tries_bind (tries_now fun ref m' _ heard => told_scheduleFrom (Or.inr ⟨hs, heard⟩))

theorem told_create {body : CreateJob} (cron : TriggerType.fromStrVal body.trigger = some .cron) :
    Tries Recalls (fun _ _ => True) (fun r m' => ∀ j e, r = .jobCreated j e → CreatedFrom env body m'.2 j)
      (fun _ _ => True) (JobsApi.create env schemaName body) m := by
  unfold JobsApi.create
  rw [cron]
  refine tries_bind ((yields_any _ m).mono (fun _ m₁ _ => ?_) fun _ _ _ => trivial)
  refine tries_bind ((yields_any _ m₁).mono (fun found m₂ _ => ?_) fun _ _ _ => trivial)
  split
  next => exact tries_throw trivial
  next ep _ =>
    refine tries_checked (fun _ => ?_) fun _ => trivial
    refine tries_bind ((yields_any _ m₂).mono (fun _ m₃ _ => ?_) fun _ _ _ => trivial)
    refine tries_bind ((yields_findDuplicate m₃).mono (fun found m₄ none => ?_) fun _ _ _ => trivial)
    split
    next existing _ => exact tries_pure fun j e hj => (none.2 j e (by rw [hj])).elim
    next => exact told_createCron

theorem told_update {jobId : String} {body : UpdateJob} :
    Tries Recalls (fun _ _ => True) (fun r m' => ∀ j, r = .jobUpdated j → UpdatedFrom env schemaName jobId body m'.2 j)
      (fun _ _ => True) (JobsApi.update env schemaName jobId body) (none, []) := by
  have start : Outside [] ((none, []) : Memory Pg) := ⟨rfl, List.prefix_refl _⟩
  have unnamed : ∀ m o, Issues env (.updateJob schemaName jobId body) m o → True := fun _ _ _ => trivial
  refine tries_bind (((walks_connect start).pre_mono unnamed).mono (fun _ m₁ hm₁ => ?_) fun _ _ _ => trivial)
  have read := fun ok h => (walks_read rfl hm₁ h : Walks env (.updateJob schemaName jobId body) ok _
    (Jobs.get ⟨schemaName, env.tablePrefix, false⟩ jobId) m₁).pre_mono unnamed
  refine tries_bind (tries_adapt (read _ fun m₂ now D keys e hm₂ _ _ made => ?_))
  split
  next => exact tries_throw trivial
  next old hold =>
    have shown : Shown m₂.2 .getJob .jobs ⟨schemaName, jobId⟩ old := ⟨_, made, rfl, hold⟩
    refine tries_bind ((yields_any _ m₂).mono (fun _ m₃ h₃ => ?_) fun _ _ _ => trivial)
    refine tries_bind ((yields_any _ m₃).mono (fun cron m₄ h₄ => ?_) fun _ _ _ => trivial)
    refine tries_checked (fun _ => ?_) fun _ => trivial
    refine tries_bind (tries_now fun ref m₅ h₅ heard => ?_)
    split
    next => exact tries_throw trivial
    next next hnext =>
      have new : Timetable env ref (body.startsAt.orElse fun _ => old.cronStartsAt) (body.endsAt.orElse fun _ => old.cronEndsAt)
          (JobsApi.replacementFor old body cron (body.timezone.getD (old.cronTimezone.getD "UTC")) next) :=
        ⟨rfl, rfl, _, _, next, rfl, rfl, hnext, rfl⟩
      refine tries_bind ((yields_scopedTransaction (yields_replaceIn new) m₅).mono (fun j m₆ h₆ => ?_) fun _ _ _ => trivial)
      refine tries_pure fun j' hj => ?_
      cases hj
      have le : m₂.2 <+: m₆.2 := h₃.1.trans (h₄.1.trans (h₅.trans h₆.1))
      exact ⟨ref, old, shown.later le, heard.later h₆.1, h₆.2⟩

end told

end Invokr

import Invokr.Creation

namespace Invokr

open TxLib

variable {env : Setup} {g : Guard (service env)}

/-- The job is a CRON job that still fires. -/
def Job.Live (j : Job) : Prop := j.status = .active ∧ j.triggerType = .cron

/-- pg_cron has an entry under a job's name just when the job is an ACTIVE CRON job. The entry has the
job's expression and its command, and no other entry exists. -/
theorem jobs_and_schedules_agree (official : Official g) (acts : List (Action (service env)))
    (meets : (Pool.empty (service env)).Meets g acts) :
    (∀ schemaName jobId, isUuid jobId = true →
        (((after acts).world.rows .cronJob (Jobs.cronKey (Jobs.cronJobName schemaName jobId))).isSome = true ↔
          ∃ j : Job, (after acts).world.rows .jobs ⟨schemaName, jobId⟩ = some j ∧ j.Live)) ∧
      (∀ schemaName jobId, ∀ j : Job, ∀ c : CronEntry, (after acts).world.rows .jobs ⟨schemaName, jobId⟩ = some j →
        (after acts).world.rows .cronJob (Jobs.cronKey (Jobs.cronJobName schemaName jobId)) = some c →
          j.cronExpression = some c.schedule ∧ c.command = Jobs.buildCronCommand env.tablePrefix schemaName jobId) ∧
      ∀ k, ∀ c : CronEntry, (after acts).world.rows .cronJob k = some c →
        ∃ schemaName jobId, isUuid jobId = true ∧ k = Jobs.cronKey (Jobs.cronJobName schemaName jobId) := by
  have keeps := keeps_run meets
  have agree := keeps.inv.agree official
  have named : ∀ k : Key, ∀ c : CronEntry, isUuid k.id = true → (after acts).world.rows .cronJob (entryKey k) = some c →
      ∃ j : Job, (after acts).world.rows .jobs k = some j ∧ j.Live := by
    intro k c uuid hc
    obtain ⟨kj, j, hk, hj, active, cron⟩ := agree.entry _ c hc
    have : k = kj := entryKey_inj uuid (keeps.inv.linked.job kj j hj).2 hk
    subst this
    exact ⟨j, hj, active, cron⟩
  refine ⟨fun schemaName jobId uuid => ⟨fun h => ?_, fun ⟨j, hj, active, cron⟩ => ?_⟩, ?_, ?_⟩
  · obtain ⟨c, hc⟩ := Option.isSome_iff_exists.mp h
    exact named ⟨schemaName, jobId⟩ c uuid hc
  · obtain ⟨expression, _, he⟩ := agree.job _ j hj active cron
    have he' : (after acts).world.rows .cronJob (Jobs.cronKey (Jobs.cronJobName schemaName jobId)) = _ := he
    rw [he']
    rfl
  · intro schemaName jobId j c hj hc
    have uuid := (keeps.inv.linked.job _ j hj).2
    obtain ⟨j', hj', active, cron⟩ := named ⟨schemaName, jobId⟩ c uuid hc
    rw [hj] at hj'
    cases hj'
    obtain ⟨expression, hex, he⟩ := agree.job _ j hj active cron
    have hentry : c = entryOf env ⟨schemaName, jobId⟩ expression := Option.some.inj (hc.symm.trans he)
    subst hentry
    exact ⟨hex, rfl⟩
  · intro k c hc
    obtain ⟨kj, j, hk, hj, _, _⟩ := agree.entry k c hc
    exact ⟨kj.schema, kj.id, (keeps.inv.linked.job kj j hj).2, hk⟩

def sampleCron : CreateJob := ⟨"hook", "CRON", none, none, none, none, some "* * * * *", some "UTC", none, none⟩

/-- An endpoint and a job that fires every minute; the job's identifier is `sampleId 206`. -/
def oneCron : List (Action (service sample)) :=
  serve 1 8 (.createEndpoint "acme" sampleEndpoint) (.response 200 "") ++
    serve 2 10 (.createJob "acme" sampleCron) (.response 200 "")

theorem jobs_and_schedules_agree_one : ∃ j : Job,
    (after oneCron).world.rows .jobs ⟨"acme", sampleId 206⟩ = some j ∧ j.Live := by
  have entry : ((after oneCron).world.rows .cronJob (Jobs.cronKey (Jobs.cronJobName "acme" (sampleId 206)))).isSome = true := by
    decide +kernel
  have meets : (Pool.empty (service sample)).Meets (apiOnly sample) oneCron := meets_apiOnly (by decide +kernel)
  exact ((jobs_and_schedules_agree official_apiOnly oneCron meets).1 "acme" (sampleId 206) (by decide +kernel)).mp entry

end Invokr

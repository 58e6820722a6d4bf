import Invokr.UsesWork

namespace Invokr

open TxLib

variable {env : Setup} {p : Op Pg → Prop}

/-- The predicate admits the rows that a job of this endpoint, type and input is created with. -/
structure Creates (p : Op Pg → Prop) (schemaName endpoint : String) (endpointType : EndpointType) (input : Option Json) :
    Prop extends Neutral p where
  job : ∀ build, (∀ id now, (build id now).1 = ⟨schemaName, id.val⟩ ∧ (build id now).2.endpoint = endpoint ∧
    (build id now).2.endpointType = endpointType ∧ (build id now).2.input = input) → p (.insert .insertJob .jobs false build)
  put : ∀ k row, p (.put .schedule .cronJob k row)

/-- The predicate admits an execution with this number of attempts. -/
def AdmitsExecution (p : Op Pg → Prop) (maxAttempts : Int) : Prop :=
  ∀ build, (∀ id now, (build id now).2.maxAttempts = maxAttempts) → p (.insert .insertExecution .executions false build)

section jobs

variable {schemaName endpoint : String} {endpointType : EndpointType} {input : Option Json} {maxAttempts : Int}
  (hp : Creates p schemaName endpoint endpointType input) {db : DbContext} (hs : db.schema = schemaName)

include hp hs

theorem uses_createImmediate (hm : AdmitsExecution p maxAttempts) (key : String) :
    (Jobs.createImmediate db endpoint endpointType key input maxAttempts).run.Uses p := by
  subst hs
  refine uses_try_bind (uses_execute hp.toNeutral (uses_insertOne (hp.job _ fun _ _ => ⟨rfl, rfl, rfl, rfl⟩))) fun job => ?_
  exact uses_try_bind (uses_execute hp.toNeutral (uses_insertOne (hm _ fun _ _ => rfl))) fun _ => uses_done _

theorem uses_createDelayed (hm : AdmitsExecution p maxAttempts) (key : String) (runAt : Time) :
    (Jobs.createDelayed db endpoint endpointType key input runAt maxAttempts).run.Uses p := by
  subst hs
  refine uses_try_bind (uses_execute hp.toNeutral (uses_insertOne (hp.job _ fun _ _ => ⟨rfl, rfl, rfl, rfl⟩))) fun job => ?_
  exact uses_try_bind (uses_execute hp.toNeutral (uses_insertOne (hm _ fun _ _ => rfl))) fun _ => uses_done _

theorem uses_createCron (key : Option String) (cron tz : String) (startsAt endsAt : Option Time) (nextRun : Time) :
    (Jobs.createCron db endpoint endpointType key input cron tz startsAt endsAt nextRun).run.Uses p := by
  subst hs
  exact uses_execute hp.toNeutral (uses_insertOne (hp.job _ fun _ _ => ⟨rfl, rfl, rfl, rfl⟩))

end jobs

theorem uses_scheduleFrom (hn : Neutral p) {schemaName cron tz : String} {body : CreateJob} {ep : Endpoint} {startsAt : Time}
    (insert : ∀ nextRun, (JobsApi.insertCron env schemaName body ep cron tz startsAt nextRun).run.Uses p) :
    (match env.cronNext cron tz startsAt with
      | none => throw (.invalidCron "No upcoming run for this cron schedule")
      | some nextRun => do
        let job ← scopedTransaction schemaName (JobsApi.insertCron env schemaName body ep cron tz startsAt nextRun)
        return .jobCreated job none : Try Pg AppError Reply).run.Uses p := by
  split
  next => exact uses_throw _
  next => exact uses_try_bind (uses_scopedTransaction hn (insert _)) fun _ => uses_done _

theorem uses_createAs {schemaName : String} {body : CreateJob} {ep : Endpoint}
    (hp : Creates p schemaName body.endpoint ep.endpointType body.input)
    (hm : AdmitsExecution p (JobsApi.maxAttemptsOf body ep)) (trigger : TriggerType) :
    (JobsApi.createAs env schemaName body ep trigger).run.Uses p := by
  have hn := hp.toNeutral
  cases trigger with
  | immediate =>
    have rest : ∀ key : String, (do
        let r ← scopedTransaction schemaName (ExceptT.adapt JobsApi.immediateError
          (Jobs.createImmediate (JobsApi.txContext env schemaName) body.endpoint ep.endpointType key body.input
            (JobsApi.maxAttemptsOf body ep)))
        return .jobCreated r.job (JobsApi.executionOf r) : Try Pg AppError Reply).run.Uses p := fun key =>
      uses_try_bind (uses_scopedTransaction hn (uses_adapt (uses_createImmediate hp rfl hm key))) fun _ => uses_done _
    change (JobsApi.createImmediate env schemaName body ep (JobsApi.maxAttemptsOf body ep)).run.Uses p
    unfold JobsApi.createImmediate
    cases body.idempotencyKey with
    | some key => exact uses_try_bind (uses_done _) rest
    | none => exact uses_try_bind (uses_ext hn fun _ h => by cases h) fun _ => uses_try_bind (uses_done _) rest
  | delayed =>
    change (JobsApi.createDelayed env schemaName body ep (JobsApi.maxAttemptsOf body ep)).run.Uses p
    unfold JobsApi.createDelayed
    split
    next => exact uses_throw _
    next =>
      split
      next => exact uses_throw _
      next =>
        exact uses_try_bind (uses_scopedTransaction hn (uses_adapt (uses_createDelayed hp rfl hm _ _))) fun _ => uses_done _
  | cron =>
    have insert : ∀ cron tz startsAt nextRun,
        (JobsApi.insertCron env schemaName body ep cron tz startsAt nextRun).run.Uses p := fun cron tz startsAt nextRun =>
      uses_try_bind (uses_adapt (uses_createCron hp rfl _ _ _ _ _ _)) fun _ =>
        uses_try_bind (uses_adapt (Prog.uses_perform.mpr (hp.put _ _))) fun _ => uses_done _
    have rest := fun cron tz startsAt => uses_scheduleFrom hn (insert cron tz startsAt)
    change (JobsApi.createCron env schemaName body ep).run.Uses p
    unfold JobsApi.createCron
    split
    next => exact uses_throw _
    next expression _ =>
      split
      next => exact uses_throw _
      next tz _ =>
        refine uses_checked ?_
        cases body.startsAt with
        | some startsAt => exact uses_try_bind (uses_done _) fun startsAt => rest expression tz startsAt
        | none => exact uses_try_bind (uses_ext hn fun _ h => by cases h) fun startsAt => rest expression tz startsAt

theorem uses_findDuplicate (hp : Neutral p) {db : DbContext} {body : CreateJob} :
    (JobsApi.findDuplicate db body).run.Uses p := by
  unfold JobsApi.findDuplicate
  split
  next => exact uses_done _
  next =>
    refine uses_try_bind (uses_adapt (uses_read hp)) fun r => ?_
    split
    next => exact uses_done _
    next => exact uses_try_bind (uses_adapt (uses_read hp)) fun _ => uses_done _

theorem uses_replaceIn (hp : Neutral p) {schemaName jobId : String} {new : Job} {cron : String}
    (retire : ∀ keep, p (.update .retireJob .jobs ⟨schemaName, jobId⟩ false keep (Jobs.replacePatch new.jobId)))
    (insert : p (.insert .replaceJob .jobs false fun id now => (⟨schemaName, id.val⟩, Jobs.nextVersion id now jobId new)))
    (drop : ∀ k, p (.delete .unschedule .cronJob k)) (put : ∀ k row, p (.put .schedule .cronJob k row)) :
    (JobsApi.replaceIn env schemaName jobId new cron).run.Uses p := by
  have replaced : (Jobs.retireAndReplace (JobsApi.txContext env schemaName) jobId new).run.Uses p :=
    uses_try_bind (uses_execute hp (uses_updateOne (hp.snapshot _) (retire _))) fun _ => uses_execute hp (uses_insertOne insert)
  refine uses_try_bind (uses_adapt replaced) fun created => uses_try_bind (uses_adapt (uses_unregister (hp.snapshot _) drop _ _)) fun _ => ?_
  exact uses_try_bind (uses_adapt (Prog.uses_perform.mpr (put _ _))) fun _ => uses_done _

/-- The predicate admits the calls that cancel jobs and executions. -/
structure AdmitsCancels (p : Op Pg → Prop) : Prop extends Neutral p where
  execution : ∀ stmt k keep, p (.update stmt .executions k false keep Executions.cancelPatch)
  job : ∀ k keep, p (.update .cancelJob .jobs k false keep Jobs.retirePatch)
  drop : ∀ k, p (.delete .unschedule .cronJob k)

section cancel

variable (hp : AdmitsCancels p) {db : DbContext}

include hp

theorem uses_cancelPending (jobId : String) : (Executions.cancelPendingForJob db jobId).run.Uses p :=
  uses_execute hp.toNeutral
    (uses_try_bind (uses_updateWhere (hp.snapshot _) fun k => hp.execution _ k _) fun _ => uses_done _)

theorem uses_retire (jobId : String) : (Jobs.cancel db jobId).run.Uses p :=
  uses_execute hp.toNeutral (uses_updateOne (hp.snapshot _) (hp.job _ _))

theorem uses_cancelIn (schemaName jobId : String) : (JobsApi.cancelIn db schemaName jobId).run.Uses p := by
  refine uses_try_bind (uses_adapt (uses_read hp.toNeutral)) fun r => ?_
  split
  next => exact uses_throw _
  next job =>
    refine uses_checked (uses_checked (uses_sometimes (uses_adapt (uses_cancelPending hp _)) ?_))
    refine uses_try_bind (uses_adapt (uses_retire hp _)) fun r => ?_
    split
    next => exact uses_throw _
    next =>
      exact uses_sometimes (uses_adapt (uses_unregister (hp.snapshot _) hp.drop _ _)) (uses_done _)

theorem uses_cancelJob (schemaName jobId : String) : (JobsApi.cancel env schemaName jobId).run.Uses p :=
  uses_scopedTransaction hp.toNeutral (uses_cancelIn hp _ _)

theorem uses_cancelExecution (schemaName executionId : String) :
    (ExecutionsApi.cancel env schemaName executionId).run.Uses p := by
  refine uses_try_bind (uses_scopedConnection hp.toNeutral _) fun _ =>
    uses_try_bind (uses_adapt (uses_read hp.toNeutral)) fun r => ?_
  split
  next => exact uses_throw _
  next =>
    split
    next =>
      refine uses_try_bind (uses_adapt (uses_execute hp.toNeutral (uses_updateOne (hp.snapshot _) (hp.execution _ _ _)))) fun r => ?_
      split
      next => exact uses_throw _
      next => exact uses_done _
    next => exact uses_throw _

theorem uses_unregisterPgCron (schemaName jobId : String) : (LibraryClient.unregisterPgCron schemaName jobId).run.Uses p := by
  refine uses_transaction hp.begin hp.commit hp.rollback (uses_try_bind (uses_query hp.toNeutral _) fun snap => ?_)
  split
  next => exact uses_try_bind (Prog.uses_perform.mpr (hp.drop _)) fun _ => uses_done _
  next => exact uses_throw _

end cancel

end Invokr

import Invokr.SideRequests
import Invokr.UsesJobs

namespace Invokr

open TxLib

variable {env : Setup} {p : Op Pg → Prop}

/-- The name a row is stored under, in the tables whose keys are names. -/
def rowName : (tb : Table) → tb.Row → Option String
  | .payloadSpecs, (r : PayloadSpec) => some r.name
  | .configs, (r : Config) => some r.name
  | .secrets, (r : Secret) => some r.name
  | .endpoints, (r : Endpoint) => some r.name
  | _, _ => none

/-- The tables whose keys are names. -/
def byName : Table → Bool
  | .payloadSpecs | .configs | .secrets | .endpoints => true
  | _ => false

/-- An execution that nothing has been done with. -/
structure Untried (e : Execution) : Prop where
  waiting : Executions.cancellable e = true
  attemptCount : e.attemptCount = 0
  workerId : e.workerId = none
  startedAt : e.startedAt = none
  completedAt : e.completedAt = none
  durationMs : e.durationMs = none

theorem untried_queued {id : Uuid} {now : Int} {j : Job} {key : String} {input : Option Json} {runAt : Time}
    {maxAttempts : Int} : Untried (Jobs.newExecution id now j .queued key input runAt maxAttempts) :=
  ⟨rfl, rfl, rfl, rfl, rfl, rfl⟩

theorem untried_pending {id : Uuid} {now : Int} {j : Job} {key : String} {input : Option Json} {runAt : Time}
    {maxAttempts : Int} : Untried (Jobs.newExecution id now j .pending key input runAt maxAttempts) :=
  ⟨rfl, rfl, rfl, rfl, rfl, rfl⟩

/-- The predicate admits the calls of the requests that are made in the workspace. -/
structure Serves (p : Op Pg → Prop) (schemaName : String) : Prop extends Neutral p where
  job : ∀ stmt build, (∀ id now, (build id now).1.schema = schemaName) → p (.insert stmt .jobs false build)
  jobChange : ∀ stmt k keep patch, k.schema = schemaName → p (.update stmt .jobs k false keep patch)
  execution : ∀ stmt orIgnore build, (∀ id now, (build id now).1.schema = schemaName ∧ Untried (build id now).2) →
    p (.insert stmt .executions orIgnore build)
  cancel : ∀ stmt k keep, k.schema = schemaName → (∀ now e, keep now e = true → Executions.cancellable e = true) →
    p (.update stmt .executions k false keep Executions.cancelPatch)
  schedule : ∀ jobId row, p (.put .schedule .cronJob (Jobs.cronKey (Jobs.cronJobName schemaName jobId)) row)
  unschedule : ∀ jobId, p (.delete .unschedule .cronJob (Jobs.cronKey (Jobs.cronJobName schemaName jobId)))
  named : ∀ stmt tb build, byName tb = true → (∀ id now, (build id now).1.schema = schemaName ∧
    rowName tb (build id now).2 = some (build id now).1.id) → p (.insert stmt tb false build)
  renamed : ∀ stmt tb k keep (patch : Patch Pg tb), byName tb = true → k.schema = schemaName →
    (∀ now r, rowName tb (patch.apply now r) = rowName tb r) → p (.update stmt tb k false keep patch)
  remove : ∀ stmt tb k, byName tb = true → k.schema = schemaName → p (.deleteNow stmt tb k)

theorem uses_given {ε α : Type} (r : Except ε α) : (ExceptT.mk (pure r) : Try Pg ε α).run.Uses p := trivial

section requests

variable {schemaName : String} (hp : Serves p schemaName)

include hp

theorem serves_updateWhere {stmt : Statement} {tb : Table} {keep : Int → tb.Row → Bool} {patch : Patch Pg tb}
    (h : ∀ k, k.schema = schemaName → p (.update stmt tb k false keep patch)) :
    (updateWhere stmt schemaName tb keep patch).run.Uses p := by
  refine uses_try_bind (Prog.uses_perform.mpr (hp.snapshot stmt)) fun snap => ?_
  have inside : ∀ k ∈ matching snap schemaName tb keep, k.schema = schemaName := by
    intro k hk
    obtain ⟨_, hk⟩ := List.mem_filter.mp hk
    simpa using (Bool.and_eq_true_iff.mp hk).1
  generalize matching snap schemaName tb keep = ks at inside
  induction ks with
  | nil => exact uses_done _
  | cons k ks ih =>
    have here := h k (inside k (List.mem_cons_self ..))
    exact uses_try_bind (Prog.uses_perform.mpr here) fun _ =>
      uses_try_bind (ih fun k' hk' => inside k' (List.mem_cons_of_mem _ hk')) fun _ => uses_done _

theorem serves_register (tablePrefix jobId cron : String) :
    (Jobs.registerPgCronConn tablePrefix schemaName jobId cron).run.Uses p :=
  Prog.uses_perform.mpr (hp.schedule jobId _)

theorem serves_unregister (jobId : String) : (Jobs.unregisterPgCronConn schemaName jobId).run.Uses p := by
  refine uses_try_bind (Prog.uses_perform.mpr (hp.snapshot _)) fun snap => ?_
  split
  next => exact uses_try_bind (Prog.uses_perform.mpr (hp.unschedule jobId)) fun _ => uses_done _
  next => exact uses_done _

section jobs

variable (db : DbContext) (here : db.schema = schemaName)

include here

theorem serves_createImmediate {endpoint : String} {endpointType : EndpointType} {key : String} {input : Option Json}
    {maxAttempts : Int} : (Jobs.createImmediate db endpoint endpointType key input maxAttempts).run.Uses p := by
  subst here
  refine uses_try_bind (uses_execute hp.toNeutral (uses_insertOne (hp.job _ _ fun _ _ => rfl))) fun job => ?_
  exact uses_try_bind (uses_execute hp.toNeutral (uses_insertOne (hp.execution _ _ _ fun _ _ => ⟨rfl, untried_queued⟩)))
    fun _ => uses_done _

theorem serves_createDelayed {endpoint : String} {endpointType : EndpointType} {key : String} {input : Option Json}
    {runAt : Time} {maxAttempts : Int} :
    (Jobs.createDelayed db endpoint endpointType key input runAt maxAttempts).run.Uses p := by
  subst here
  refine uses_try_bind (uses_execute hp.toNeutral (uses_insertOne (hp.job _ _ fun _ _ => rfl))) fun job => ?_
  exact uses_try_bind (uses_execute hp.toNeutral (uses_insertOne (hp.execution _ _ _ fun _ _ => ⟨rfl, untried_pending⟩)))
    fun _ => uses_done _

theorem serves_createCron {endpoint : String} {endpointType : EndpointType} {key : Option String} {input : Option Json}
    {cron tz : String} {startsAt endsAt : Option Time} {nextRun : Time} :
    (Jobs.createCron db endpoint endpointType key input cron tz startsAt endsAt nextRun).run.Uses p := by
  subst here
  exact uses_execute hp.toNeutral (uses_insertOne (hp.job _ _ fun _ _ => rfl))

theorem serves_cancelPending (jobId : String) : (Executions.cancelPendingForJob db jobId).run.Uses p := by
  subst here
  refine uses_execute hp.toNeutral (uses_try_bind (serves_updateWhere hp fun k hk => ?_) fun _ => uses_done _)
  exact hp.cancel _ k _ hk fun now e he => (Bool.and_eq_true_iff.mp he).2

theorem serves_retire (jobId : String) : (Jobs.cancel db jobId).run.Uses p := by
  subst here
  exact uses_execute hp.toNeutral (uses_updateOne (hp.snapshot _) (hp.jobChange _ _ _ _ rfl))

theorem serves_cancelIn (jobId : String) : (JobsApi.cancelIn db schemaName jobId).run.Uses p := by
  refine uses_try_bind (uses_adapt (uses_read hp.toNeutral)) fun r => ?_
  split
  next => exact uses_throw _
  next job =>
    refine uses_checked (uses_checked (uses_sometimes (uses_adapt (serves_cancelPending hp db here _)) ?_))
    refine uses_try_bind (uses_adapt (serves_retire hp db here _)) fun r => ?_
    split
    next => exact uses_throw _
    next => exact uses_sometimes (uses_adapt (serves_unregister hp _)) (uses_done _)

end jobs

theorem serves_createAs {body : CreateJob} {ep : Endpoint} (trigger : TriggerType) :
    (JobsApi.createAs env schemaName body ep trigger).run.Uses p := by
  have hn := hp.toNeutral
  cases trigger with
  | immediate =>
    have rest : ∀ key : String, (do
        let r ← scopedTransaction schemaName (ExceptT.adapt JobsApi.immediateError
          (Jobs.createImmediate (JobsApi.txContext env schemaName) body.endpoint ep.endpointType key body.input
            (JobsApi.maxAttemptsOf body ep)))
        return .jobCreated r.job (JobsApi.executionOf r) : Try Pg AppError Reply).run.Uses p := fun key =>
      uses_try_bind (uses_scopedTransaction hn
        (uses_adapt (serves_createImmediate hp (JobsApi.txContext env schemaName) rfl))) fun _ => uses_done _
    change (JobsApi.createImmediate env schemaName body ep (JobsApi.maxAttemptsOf body ep)).run.Uses p
    unfold JobsApi.createImmediate
    cases body.idempotencyKey with
    | some key => exact uses_try_bind (uses_done _) rest
    | none => exact uses_try_bind (uses_ext hn fun _ h => by cases h) fun _ => uses_try_bind (uses_done _) rest
  | delayed =>
    change (JobsApi.createDelayed env schemaName body ep (JobsApi.maxAttemptsOf body ep)).run.Uses p
    unfold JobsApi.createDelayed
    split
    next => exact uses_throw _
    next =>
      split
      next => exact uses_throw _
      next =>
        exact uses_try_bind (uses_scopedTransaction hn
          (uses_adapt (serves_createDelayed hp (JobsApi.txContext env schemaName) rfl))) fun _ => uses_done _
  | cron =>
    have insert : ∀ cron tz startsAt nextRun,
        (JobsApi.insertCron env schemaName body ep cron tz startsAt nextRun).run.Uses p := fun _ _ _ _ =>
      uses_try_bind (uses_adapt (serves_createCron hp (JobsApi.txContext env schemaName) rfl)) fun _ =>
        uses_try_bind (uses_adapt (serves_register hp _ _ _)) fun _ => uses_done _
    have rest := fun cron tz startsAt => uses_scheduleFrom hn (insert cron tz startsAt)
    change (JobsApi.createCron env schemaName body ep).run.Uses p
    unfold JobsApi.createCron
    split
    next => exact uses_throw _
    next expression _ =>
      split
      next => exact uses_throw _
      next tz _ =>
        refine uses_checked ?_
        cases body.startsAt with
        | some startsAt => exact uses_try_bind (uses_done _) fun startsAt => rest expression tz startsAt
        | none => exact uses_try_bind (uses_ext hn fun _ h => by cases h) fun startsAt => rest expression tz startsAt

omit hp in
theorem uses_checkInput (hn : Neutral p) {db : DbContext} {ep : Endpoint} {body : CreateJob} :
    (JobsApi.checkInput env db ep body).run.Uses p := by
  unfold JobsApi.checkInput
  split
  next =>
    refine uses_try_bind (uses_adapt (uses_read hn)) fun r => ?_
    split
    next => exact uses_throw _
    next => exact uses_given _
  next => exact uses_done _

theorem serves_jobCreate (body : CreateJob) : (JobsApi.create env schemaName body).run.Uses p := by
  have hn := hp.toNeutral
  unfold JobsApi.create
  split
  next => exact uses_throw _
  next trigger _ =>
    refine uses_try_bind (uses_scopedConnection hn _) fun _ => ?_
    refine uses_try_bind (uses_adapt (uses_read hn)) fun r => ?_
    split
    next => exact uses_throw _
    next ep =>
      refine uses_checked (uses_try_bind (uses_checkInput hn) fun _ => ?_)
      refine uses_try_bind (uses_findDuplicate hn) fun found => ?_
      split
      next => exact uses_done _
      next => exact serves_createAs hp trigger

theorem serves_replaceIn {jobId : String} {new : Job} {cron : String} :
    (JobsApi.replaceIn env schemaName jobId new cron).run.Uses p := by
  have hn := hp.toNeutral
  have replaced : (Jobs.retireAndReplace (JobsApi.txContext env schemaName) jobId new).run.Uses p :=
    uses_try_bind (uses_execute hn (uses_updateOne (hp.snapshot _) (hp.jobChange _ _ _ _ rfl))) fun _ =>
      uses_execute hn (uses_insertOne (hp.job _ _ fun _ _ => rfl))
  refine uses_try_bind (uses_adapt replaced) fun created =>
    uses_try_bind (uses_adapt (serves_unregister hp _)) fun _ => ?_
  exact uses_try_bind (uses_adapt (serves_register hp _ _ _)) fun _ => uses_done _

theorem serves_jobUpdate (jobId : String) (body : UpdateJob) :
    (JobsApi.update env schemaName jobId body).run.Uses p := by
  have hn := hp.toNeutral
  refine uses_try_bind (uses_scopedConnection hn _) fun _ => ?_
  refine uses_try_bind (uses_adapt (uses_read hn)) fun r => ?_
  split
  next => exact uses_throw _
  next old =>
    refine uses_try_bind (uses_given _) fun _ => uses_try_bind (uses_given _) fun cron => uses_checked ?_
    refine uses_try_bind (uses_ext hn fun _ h => by cases h) fun now => ?_
    split
    next => exact uses_throw _
    next => exact uses_try_bind (uses_scopedTransaction hn (serves_replaceIn hp)) fun _ => uses_done _

theorem serves_executionCancel (executionId : String) :
    (ExecutionsApi.cancel env schemaName executionId).run.Uses p := by
  have hn := hp.toNeutral
  refine uses_try_bind (uses_scopedConnection hn _) fun _ => uses_try_bind (uses_adapt (uses_read hn)) fun r => ?_
  split
  next => exact uses_throw _
  next =>
    split
    next =>
      have cancelled := hp.cancel .cancelExecution ⟨schemaName, executionId⟩ (fun _ => Executions.cancellable) rfl
        fun _ _ h => h
      refine uses_try_bind (uses_adapt (uses_execute hn (uses_updateOne (hp.snapshot _) cancelled))) fun r => ?_
      split
      next => exact uses_throw _
      next => exact uses_done _
    next => exact uses_throw _

/-- A row put into a table on its own. -/
theorem serves_created {db : DbContext} {f : DbError → AppError} {stmt : Statement} {tb : Table}
    {build : Uuid → Int → Key × tb.Row} {a : Reply} (h : p (.insert stmt tb false build)) :
    (do scopedConnection schemaName
        let _ ← ExceptT.adapt f (db.execute (insertOne stmt tb build))
        return a : Try Pg AppError Reply).run.Uses p :=
  uses_try_bind (uses_scopedConnection hp.toNeutral _) fun _ =>
    uses_try_bind (uses_adapt (uses_execute hp.toNeutral (uses_insertOne h))) fun _ => uses_done _

/-- A row changed on its own. -/
theorem serves_changed {db : DbContext} {f : DbError → AppError} {stmt : Statement} {tb : Table} {k : Key}
    {keep : Int → tb.Row → Bool} {patch : Patch Pg tb} {rest : Option tb.Row → Try Pg AppError Reply}
    (h : p (.update stmt tb k false keep patch)) (none : ∃ e, rest none = throw e)
    (some : ∀ r, ∃ a, rest (some r) = pure a) :
    (do scopedConnection schemaName
        let r ← ExceptT.adapt f (db.execute (updateOne stmt tb k keep patch))
        rest r : Try Pg AppError Reply).run.Uses p := by
  refine uses_try_bind (uses_scopedConnection hp.toNeutral _) fun _ =>
    uses_try_bind (uses_adapt (uses_execute hp.toNeutral (uses_updateOne (hp.snapshot _) h))) fun r => ?_
  cases r with
  | none =>
    obtain ⟨e, he⟩ := none
    rw [he]
    exact uses_throw e
  | some r =>
    obtain ⟨a, ha⟩ := some r
    rw [ha]
    exact uses_done a

theorem serves_upsertSecret (name : String) (value : List UInt8) :
    (LibraryClient.upsertSecret env schemaName name value).run.Uses p := by
  have hn := hp.toNeutral
  refine uses_connected hn (uses_try_bind (uses_adapt (uses_read hn)) fun r => ?_)
  split
  next =>
    have changed := hp.renamed .updateSecret .secrets ⟨schemaName, name⟩ (fun _ _ => true) (Secrets.updatePatch value) rfl
      rfl fun _ _ => rfl
    exact uses_try_bind (uses_adapt (uses_execute hn (uses_updateOne (hp.snapshot _) changed))) fun _ => uses_done _
  next =>
    exact uses_try_bind (uses_adapt (uses_execute hn (uses_insertOne (hp.named _ _ _ rfl fun _ _ => ⟨rfl, rfl⟩))))
      fun _ => uses_done _

theorem serves_libraryCreate {endpoint : String} {input : Json} {maxAttempts : Int} {trigger : JobTrigger}
    {key : Option String} :
    (LibraryClient.createJob env schemaName endpoint input maxAttempts trigger key).run.Uses p := by
  refine uses_connected hp.toNeutral (uses_try_bind (uses_adapt (uses_read hp.toNeutral)) fun r => ?_)
  split
  next => exact uses_throw _
  next ep =>
    cases trigger with
    | immediate =>
      exact uses_try_bind (uses_adapt (serves_createImmediate hp ⟨schemaName, env.tablePrefix, false⟩ rfl)) fun _ => uses_done _
    | delayed =>
      exact uses_try_bind (uses_adapt (serves_createDelayed hp ⟨schemaName, env.tablePrefix, false⟩ rfl)) fun _ => uses_done _
    | cron =>
      exact uses_try_bind (uses_adapt (serves_createCron hp ⟨schemaName, env.tablePrefix, false⟩ rfl)) fun _ => uses_done _

theorem serves_libraryCancel (jobId : String) : (LibraryClient.cancelJob env schemaName jobId).run.Uses p := by
  have hn := hp.toNeutral
  have unregister : (LibraryClient.unregisterPgCron schemaName jobId).run.Uses p := by
    refine uses_transaction hp.begin hp.commit hp.rollback (uses_try_bind (uses_query hn _) fun snap => ?_)
    split
    next => exact uses_try_bind (Prog.uses_perform.mpr (hp.unschedule jobId)) fun _ => uses_done _
    next => exact uses_throw _
  refine uses_connected hn (uses_try_bind (uses_adapt (uses_read hn)) fun r => ?_)
  split
  next => exact uses_throw _
  next job =>
    refine uses_sometimes (uses_adapt (serves_cancelPending hp ⟨schemaName, env.tablePrefix, false⟩ rfl _))
      (uses_try_bind (uses_adapt (serves_retire hp ⟨schemaName, env.tablePrefix, false⟩ rfl _)) fun _ => ?_)
    exact uses_sometimes (uses_adapt unregister) (uses_done _)

theorem serves_provisionReaper (cronExpression : String) :
    (Workspaces.provisionReaper schemaName cronExpression).run.Uses p := by
  refine uses_scopedTransaction hp.toNeutral (uses_adapt ?_)
  refine uses_try_bind (uses_insertOne (hp.named _ _ _ rfl fun _ _ => ⟨rfl, rfl⟩)) fun _ => ?_
  exact uses_try_bind (uses_insertOne (hp.job _ _ fun _ _ => rfl)) fun _ => serves_register hp _ _ _

end requests

theorem serves_runCronCommand (c : CronCommand) (hp : Serves p c.schemaName) : (Jobs.runCronCommand c).run.Uses p := by
  refine uses_try_bind (Prog.uses_perform.mpr (hp.snapshot _)) fun snap => ?_
  split
  next => exact uses_done _
  next =>
    split
    next => exact uses_done _
    next =>
      split
      next =>
        split
        next => exact uses_throw _
        next n _ =>
          refine uses_try_bind (Prog.uses_perform.mpr (hp.execution _ _ _ fun id now => ?_)) fun _ => uses_done _
          exact ⟨rfl, untried_queued⟩
      next => exact uses_done _

theorem serves_cronTick (jobName : String) (hp : ∀ schemaName, Serves p schemaName) : (cronTick jobName).run.Uses p := by
  have hn := (hp "").toNeutral
  refine uses_transaction hn.begin hn.commit hn.rollback (uses_try_bind (uses_query hn _) fun snap => ?_)
  split
  next => exact uses_done _
  next entry _ => exact serves_runCronCommand entry.command (hp _)

/-- The workspace a request of the API or of the client library is made in. -/
def Request.workspace : Request env → Option String
  | .createJob schemaName _ => some schemaName
  | .updateJob schemaName _ _ => some schemaName
  | .cancelJob schemaName _ => some schemaName
  | .cancelExecution schemaName _ => some schemaName
  | .createEndpoint schemaName _ => some schemaName
  | .updateEndpoint schemaName _ _ => some schemaName
  | .deleteEndpoint schemaName _ => some schemaName
  | .createPayloadSpec schemaName _ _ => some schemaName
  | .updatePayloadSpec schemaName _ _ => some schemaName
  | .deletePayloadSpec schemaName _ => some schemaName
  | .createConfig schemaName _ _ => some schemaName
  | .updateConfig schemaName _ _ => some schemaName
  | .deleteConfig schemaName _ => some schemaName
  | .createSecret schemaName _ _ => some schemaName
  | .updateSecret schemaName _ _ => some schemaName
  | .deleteSecret schemaName _ => some schemaName
  | .provisionReaper schemaName _ _ => some schemaName
  | .libraryCreateJob schemaName .. => some schemaName
  | .libraryCancelJob schemaName _ => some schemaName
  | .libraryRegisterEndpoint schemaName .. => some schemaName
  | .libraryDeleteEndpoint schemaName _ => some schemaName
  | .libraryUpsertSecret schemaName _ _ => some schemaName
  | .libraryDeleteSecret schemaName _ => some schemaName
  | .work _ _ => none
  | .tick _ => none

/-- What the requests made in a workspace may do. -/
theorem serves_program {req : Request env} {schemaName : String} (hp : Serves p schemaName)
    (h : req.workspace = some schemaName) : req.program.Uses p := by
  have hn := hp.toNeutral
  cases req with
  | work => cases h
  | tick => cases h
  | createJob =>
    cases h
    exact uses_answered (serves_jobCreate hp _)
  | updateJob =>
    cases h
    exact uses_answered (serves_jobUpdate hp _ _)
  | cancelJob =>
    cases h
    exact uses_answered (uses_scopedTransaction hn (serves_cancelIn hp (JobsApi.txContext env schemaName) rfl _))
  | cancelExecution =>
    cases h
    exact uses_answered (serves_executionCancel hp _)
  | createEndpoint =>
    cases h
    exact uses_answered (uses_endpoints_create hn fun _ _ => hp.named _ _ _ rfl fun _ _ => ⟨rfl, rfl⟩)
  | updateEndpoint =>
    cases h
    exact uses_answered (uses_endpoints_update hn fun _ => hp.renamed _ _ _ _ _ rfl rfl fun _ _ => rfl)
  | deleteEndpoint =>
    cases h
    exact uses_answered (uses_endpoints_delete hn (hp.remove _ _ _ rfl rfl))
  | createPayloadSpec =>
    cases h
    exact uses_answered (uses_checked (serves_created hp (hp.named _ _ _ rfl fun _ _ => ⟨rfl, rfl⟩)))
  | updatePayloadSpec =>
    cases h
    exact uses_answered (uses_checked (serves_changed hp (hp.renamed _ _ _ _ _ rfl rfl fun _ _ => rfl) ⟨_, rfl⟩
      fun _ => ⟨_, rfl⟩))
  | deletePayloadSpec =>
    cases h
    exact uses_answered (uses_deleteUnreferenced hn (hp.remove _ _ _ rfl rfl))
  | createConfig =>
    cases h
    exact uses_answered (uses_checked (serves_created hp (hp.named _ _ _ rfl fun _ _ => ⟨rfl, rfl⟩)))
  | updateConfig =>
    cases h
    exact uses_answered (uses_checked (serves_changed hp (hp.renamed _ _ _ _ _ rfl rfl fun _ _ => rfl) ⟨_, rfl⟩
      fun _ => ⟨_, rfl⟩))
  | deleteConfig =>
    cases h
    exact uses_answered (uses_deleteUnreferenced hn (hp.remove _ _ _ rfl rfl))
  | createSecret =>
    cases h
    exact uses_answered (serves_created hp (hp.named _ _ _ rfl fun _ _ => ⟨rfl, rfl⟩))
  | updateSecret =>
    cases h
    exact uses_answered (serves_changed hp (hp.renamed _ _ _ _ _ rfl rfl fun _ _ => rfl) ⟨_, rfl⟩ fun _ => ⟨_, rfl⟩)
  | deleteSecret =>
    cases h
    exact uses_answered (uses_deleteUnreferenced hn (hp.remove _ _ _ rfl rfl))
  | provisionReaper =>
    cases h
    exact Prog.Uses.bind (serves_provisionReaper hp _) fun _ => trivial
  | libraryCreateJob =>
    cases h
    exact Prog.Uses.bind (serves_libraryCreate hp) fun _ => trivial
  | libraryCancelJob =>
    cases h
    exact Prog.Uses.bind (serves_libraryCancel hp _) fun _ => trivial
  | libraryRegisterEndpoint =>
    cases h
    exact Prog.Uses.bind (uses_registerEndpoint hn (hp.named _ _ _ rfl fun _ _ => ⟨rfl, rfl⟩) fun _ =>
      hp.renamed _ _ _ _ _ rfl rfl fun _ _ => rfl) fun _ => trivial
  | libraryDeleteEndpoint =>
    cases h
    exact Prog.Uses.bind (uses_library_delete (k := fun db => db.key _) hn (hp.remove _ _ _ rfl rfl)) fun _ => trivial
  | libraryUpsertSecret =>
    cases h
    exact Prog.Uses.bind (serves_upsertSecret hp _ _) fun _ => trivial
  | libraryDeleteSecret =>
    cases h
    exact Prog.Uses.bind (uses_library_delete (k := fun db => db.key _) hn (hp.remove _ _ _ rfl rfl)) fun _ => trivial

section worker

/-- The predicate admits the calls of a worker, each as the worker makes it. -/
structure Labours (p : Op Pg → Prop) : Prop where
  neutral : Neutral p
  processes : ∀ schemaName executionId, Processes p schemaName executionId
  claim : ∀ workerId k, p (.update .claim .executions k true Executions.eligible (Executions.claimPatch workerId))

variable (hp : Labours p)

include hp

theorem labours_claimFrom (workerId : String) (ks : List Key) : (Executions.claimFrom workerId ks).run.Uses p := by
  induction ks with
  | nil => exact uses_done _
  | cons k ks ih =>
    refine uses_try_bind (Prog.uses_perform.mpr (hp.claim workerId k)) fun r => ?_
    split
    next => exact uses_done _
    next => exact ih

theorem labours_claimIn (workerId schemaName : String) : (Poller.claimIn env workerId schemaName).Uses p := by
  have hn := hp.neutral
  unfold Poller.claimIn
  split
  next => exact ⟨hn.halt, fun r => r.elim⟩
  next =>
    have giveUp : (do rollbackTx (M := Pg); return false : Program Pg Bool).Uses p :=
      Prog.Uses.bind (Prog.uses_perform.mpr hn.rollback) fun _ => trivial
    refine Prog.Uses.bind (Prog.uses_perform.mpr hn.begin) fun r => ?_
    cases r with
    | error e => trivial
    | ok _ =>
      refine Prog.Uses.bind (uses_inside rfl (uses_try_bind (Prog.uses_perform.mpr (hn.snapshot _)) fun _ =>
        labours_claimFrom hp _ _)) fun claimed => ?_
      split
      next => exact giveUp
      next => exact giveUp
      next exec =>
        have processes := hp.processes schemaName exec.executionId
        refine Prog.Uses.bind (uses_shown processes.toAsides rfl (by decide)) fun found => ?_
        split
        next => exact giveUp
        next =>
          have failed := uses_try_bind (uses_updateOne processes.finish processes.failed) fun _ => uses_done (p := p) (ε := DbError) ()
          exact Prog.Uses.bind (uses_inside rfl failed) fun _ => giveUp
        next job =>
          refine (uses_processExecution processes rfl).bind fun _ => ?_
          exact Prog.Uses.bind (Prog.uses_perform.mpr hn.commit) fun _ => trivial

theorem labours_work (workerId : String) (schemas : List String) : (Poller.claimAndProcess env workerId schemas).Uses p := by
  induction schemas with
  | nil => trivial
  | cons schemaName schemas ih =>
    refine (labours_claimIn hp workerId schemaName).bind fun b => ?_
    split
    next => trivial
    next => exact ih

/-- Every request of the deployment. -/
theorem serves_all (served : ∀ schemaName, Serves p schemaName) (req : Request env) : req.program.Uses p := by
  cases h : req.workspace with
  | some schemaName => exact serves_program (served schemaName) h
  | none =>
    cases req with
    | work workerId schemas => exact Prog.Uses.bind (labours_work hp workerId schemas) fun _ => trivial
    | tick jobName => exact Prog.Uses.bind (serves_cronTick jobName served) fun _ => trivial
    | _ => cases h

end worker

end Invokr

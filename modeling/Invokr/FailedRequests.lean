import Invokr.Atomicity
import Invokr.Recollection
import Invokr.Runs

namespace Invokr

open TxLib

variable {env : Setup} {ε α β : Type} {quiet : α → Prop} {schemaName : String}

theorem neutral_asks : Neutral (Asks (M := Pg)) where
  ext _ _ := trivial
  halt := trivial
  begin := trivial
  snapshot _ := trivial
  commit := trivial
  rollback := trivial

theorem readOnly_read {db : DbContext} {stmt : Statement} {f : Snapshot Pg → α} :
    ReadOnly (db.execute (do let snap ← query (M := Pg) stmt; return f snap)) :=
  readOnly_of_uses (uses_read neutral_asks)

theorem readOnly_connect (schemaName : String) : ReadOnly (scopedConnection schemaName) :=
  readOnly_of_uses (uses_scopedConnection neutral_asks schemaName)

theorem readOnly_ext (e : External) (he : ∀ d, e ≠ .dispatch d) :
    ReadOnly (liftM (ext (M := Pg) e) : Try Pg ε (External.Answer e)) :=
  readOnly_of_uses (uses_ext neutral_asks he)

theorem readOnly_check (r : Except ε α) : ReadOnly (ExceptT.mk (pure r) : Try Pg ε α) := readOnly_of_uses trivial

section statements

variable {tablePrefix : String}

theorem writesLast_insertOne {stmt : Statement} {tb : Table} {build : Uuid → Int → Key × tb.Row} :
    WritesLast (DbContext.execute ⟨schemaName, tablePrefix, false⟩ (insertOne stmt tb build)) :=
  writesLast_inner (uses_insertOne trivial)

/-- An `UPDATE` that finds no row has changed none. -/
theorem writesUnless_updateOne {stmt : Statement} (tb : Table) {k : Key} {keep : Int → tb.Row → Bool} {patch : Patch Pg tb} :
    WritesUnless (fun r : Option tb.Row => r = none)
      (DbContext.execute ⟨schemaName, tablePrefix, false⟩ (updateOne stmt tb k keep patch)) := by
  refine writesUnless_transaction fun m hm => tries_bind (holds_one hm.unchanged fun r e D m₁ h₁ => ?_)
  rw [hm] at h₁
  cases r with
  | error e => exact congrArg Effect.changed h₁
  | ok snap =>
    have seen : Pristine m₁ := h₁
    change Prudent _ _ _ m₁
    split
    next => exact tries_pure ⟨seen.unchanged, fun _ => seen⟩
    next =>
      split
      next =>
        refine holds_one seen.unchanged fun r e D m₂ h₂ => ?_
        rw [seen] at h₂
        cases r with
        | error e => exact congrArg Effect.changed h₂
        | ok found =>
          cases found with
          | none => exact ⟨congrArg Effect.changed h₂, fun _ => h₂⟩
          | some row => exact ⟨congrArg Effect.changed h₂, fun h => by cases h⟩
      next => exact tries_pure ⟨seen.unchanged, fun _ => seen⟩

theorem writesLast_scopedTransaction {body : Try Pg AppError α} (h : body.run.Uses Inner) :
    WritesLast (scopedTransaction schemaName body) := by
  unfold scopedTransaction
  split
  next => exact (readOnly_of_uses (uses_lift (q := halt) ⟨trivial, fun r => r.elim⟩)).bind_writes fun _ => writesLast_inner h
  next => exact writesLast_inner h

theorem writes_checked {c : Prop} [Decidable c] {e : ε} {rest : Try Pg ε α} (h : WritesUnless quiet rest) :
    WritesUnless quiet (if c then (throw e >>= fun _ : PUnit => rest) else rest) := by
  split
  next => exact (readOnly_throw e).bind_writes fun _ => h
  next => exact h

/-- The answer to a change of a row that may be missing. -/
theorem writesLast_found {x : Try Pg ε (Option α)} {f : Option α → Try Pg ε β} (hx : WritesUnless (fun r => r = none) x)
    (missing : ∃ e, f none = throw e) (found : ∀ a, ∃ b, f (some a) = pure b) : WritesLast (x >>= f) := by
  refine hx.bind fun r => ?_
  cases r with
  | none =>
    obtain ⟨e, he⟩ := missing
    exact Or.inr ⟨rfl, he ▸ (readOnly_throw e).writesUnless⟩
  | some a => exact Or.inl (found a)

/-- The answer to the removal of a row that may be missing. -/
theorem writesLast_removed {f : DbError → ε} {stmt : Statement} {tb : Table} {k : Key} {e : ε} {a : α} :
    WritesLast (ExceptT.adapt f (deleteNow (M := Pg) stmt tb k) >>= fun found =>
      if found = true then pure a else throw e : Try Pg ε α) := by
  refine writesUnless_deleteNow.adapt.bind fun found => ?_
  cases found with
  | false => exact Or.inr ⟨rfl, (readOnly_throw e).writesUnless⟩
  | true => exact Or.inl ⟨a, rfl⟩

end statements

section bodies

variable {db : DbContext} (inside : db.inTx = true)

include inside

theorem inner_createImmediate {endpoint : String} {endpointType : EndpointType} {key : String} {input : Option Json}
    {maxAttempts : Int} : (Jobs.createImmediate db endpoint endpointType key input maxAttempts).run.Uses Inner :=
  uses_try_bind (uses_inside inside (uses_insertOne trivial)) fun _ =>
    uses_try_bind (uses_inside inside (uses_insertOne trivial)) fun _ => uses_done _

theorem inner_createDelayed {endpoint : String} {endpointType : EndpointType} {key : String} {input : Option Json}
    {runAt : Time} {maxAttempts : Int} : (Jobs.createDelayed db endpoint endpointType key input runAt maxAttempts).run.Uses Inner :=
  uses_try_bind (uses_inside inside (uses_insertOne trivial)) fun _ =>
    uses_try_bind (uses_inside inside (uses_insertOne trivial)) fun _ => uses_done _

theorem inner_cancelIn (jobId : String) : (JobsApi.cancelIn db schemaName jobId).run.Uses Inner := by
  have look : (Jobs.get db jobId).run.Uses Inner :=
    uses_inside inside (uses_try_bind (Prog.uses_perform.mpr trivial) fun _ => uses_done _)
  have pending : (Executions.cancelPendingForJob db jobId).run.Uses Inner :=
    uses_inside inside (uses_try_bind (uses_updateWhere trivial fun _ => trivial) fun _ => uses_done _)
  refine uses_try_bind (uses_adapt look) fun r => ?_
  split
  next => exact uses_throw _
  next job =>
    refine uses_checked (uses_checked (uses_sometimes (uses_adapt pending) ?_))
    refine uses_try_bind (uses_adapt (uses_inside inside (uses_updateOne trivial trivial))) fun r => ?_
    split
    next => exact uses_throw _
    next => exact uses_sometimes (uses_adapt (uses_unregister trivial (fun _ => trivial) _ _)) (uses_done _)

end bodies

theorem inner_insertCron {body : CreateJob} {ep : Endpoint} {cron tz : String} {startsAt nextRun : Time} :
    (JobsApi.insertCron env schemaName body ep cron tz startsAt nextRun).run.Uses Inner :=
  uses_try_bind (uses_adapt (uses_inside rfl (uses_insertOne trivial))) fun _ =>
    uses_try_bind (uses_adapt (Prog.uses_perform.mpr trivial)) fun _ => uses_done _

theorem inner_replaceIn {jobId : String} {new : Job} {cron : String} :
    (JobsApi.replaceIn env schemaName jobId new cron).run.Uses Inner := by
  have replaced : (Jobs.retireAndReplace (JobsApi.txContext env schemaName) jobId new).run.Uses Inner :=
    uses_try_bind (uses_inside rfl (uses_updateOne trivial trivial)) fun _ => uses_inside rfl (uses_insertOne trivial)
  refine uses_try_bind (uses_adapt replaced) fun _ => ?_
  refine uses_try_bind (uses_adapt (uses_unregister trivial (fun _ => trivial) _ _)) fun _ => ?_
  exact uses_try_bind (uses_adapt (Prog.uses_perform.mpr trivial)) fun _ => uses_done _

theorem inner_runCronCommand (c : CronCommand) : (Jobs.runCronCommand c).run.Uses Inner := by
  refine uses_try_bind (Prog.uses_perform.mpr trivial) fun snap => ?_
  split
  next => exact uses_done _
  next =>
    split
    next => exact uses_done _
    next =>
      split
      next =>
        split
        next => exact uses_throw _
        next => exact uses_try_bind (Prog.uses_perform.mpr trivial) fun _ => uses_done _
      next => exact uses_done _

section jobs

theorem readOnly_checkInput {db : DbContext} {ep : Endpoint} {body : CreateJob} :
    ReadOnly (JobsApi.checkInput env db ep body) := by
  refine readOnly_of_uses ?_
  unfold JobsApi.checkInput
  split
  next =>
    refine uses_try_bind (uses_adapt (uses_read neutral_asks)) fun r => ?_
    split
    next => exact uses_throw _
    next => trivial
  next => exact uses_done _

theorem writesLast_createAs {body : CreateJob} {ep : Endpoint} (trigger : TriggerType) :
    WritesLast (JobsApi.createAs env schemaName body ep trigger) := by
  cases trigger with
  | immediate =>
    have rest : ∀ key : String, WritesLast (do
        let r ← scopedTransaction schemaName (ExceptT.adapt JobsApi.immediateError
          (Jobs.createImmediate (JobsApi.txContext env schemaName) body.endpoint ep.endpointType key body.input
            (JobsApi.maxAttemptsOf body ep)))
        return .jobCreated r.job (JobsApi.executionOf r) : Try Pg AppError Reply) := fun key =>
      (writesLast_scopedTransaction (uses_adapt (inner_createImmediate rfl))).map
    change WritesLast (JobsApi.createImmediate env schemaName body ep (JobsApi.maxAttemptsOf body ep))
    unfold JobsApi.createImmediate
    cases body.idempotencyKey with
    | some key => exact (readOnly_pure key).bind_writes rest
    | none => exact (readOnly_ext _ fun _ h => by cases h).bind_writes fun id => (readOnly_pure _).bind_writes rest
  | delayed =>
    change WritesLast (JobsApi.createDelayed env schemaName body ep (JobsApi.maxAttemptsOf body ep))
    unfold JobsApi.createDelayed
    split
    next => exact (readOnly_throw _).writesUnless
    next =>
      split
      next => exact (readOnly_throw _).writesUnless
      next => exact (writesLast_scopedTransaction (uses_adapt (inner_createDelayed rfl))).map
  | cron =>
    change WritesLast (JobsApi.createCron env schemaName body ep)
    unfold JobsApi.createCron
    split
    next => exact (readOnly_throw _).writesUnless
    next cron _ =>
      split
      next => exact (readOnly_throw _).writesUnless
      next tz _ =>
        have inserted : ∀ startsAt nextRun, WritesLast (do
            let job ← scopedTransaction schemaName (JobsApi.insertCron env schemaName body ep cron tz startsAt nextRun)
            return .jobCreated job none : Try Pg AppError Reply) := fun startsAt nextRun =>
          (writesLast_scopedTransaction inner_insertCron).map
        refine writes_checked ?_
        cases body.startsAt with
        | some startsAt =>
          refine (readOnly_pure startsAt).bind_writes fun startsAt => ?_
          beta_reduce
          split
          next => exact (readOnly_throw _).writesUnless
          next => exact inserted _ _
        | none =>
          refine (readOnly_ext _ fun _ h => by cases h).bind_writes fun startsAt => ?_
          beta_reduce
          split
          next => exact (readOnly_throw _).writesUnless
          next => exact inserted _ _

theorem writesLast_jobCreate (body : CreateJob) : WritesLast (JobsApi.create env schemaName body) := by
  unfold JobsApi.create
  split
  next => exact (readOnly_throw _).writesUnless
  next trigger _ =>
    refine (readOnly_connect _).bind_writes fun _ => readOnly_read.adapt.bind_writes fun r => ?_
    split
    next => exact (readOnly_throw _).writesUnless
    next ep =>
      refine writes_checked (readOnly_checkInput.bind_writes fun _ => ?_)
      refine (readOnly_of_uses (uses_findDuplicate neutral_asks)).bind_writes fun found => ?_
      split
      next => exact (readOnly_pure _).writesUnless
      next => exact writesLast_createAs trigger

theorem writesLast_jobUpdate (jobId : String) (body : UpdateJob) : WritesLast (JobsApi.update env schemaName jobId body) := by
  refine (readOnly_connect _).bind_writes fun _ => readOnly_read.adapt.bind_writes fun r => ?_
  split
  next => exact (readOnly_throw _).writesUnless
  next old =>
    refine (readOnly_check _).bind_writes fun _ => (readOnly_check _).bind_writes fun cron => writes_checked ?_
    refine (readOnly_ext _ fun _ h => by cases h).bind_writes fun now => ?_
    split
    next => exact (readOnly_throw _).writesUnless
    next => exact (writesLast_scopedTransaction inner_replaceIn).map

theorem writesLast_executionCancel (executionId : String) : WritesLast (ExecutionsApi.cancel env schemaName executionId) := by
  refine (readOnly_connect _).bind_writes fun _ => readOnly_read.adapt.bind_writes fun r => ?_
  split
  next => exact (readOnly_throw _).writesUnless
  next exec =>
    split
    next =>
      have cancelled : WritesUnless (fun r => r = none) (Executions.cancel ⟨schemaName, env.tablePrefix, false⟩ executionId) :=
        writesUnless_updateOne .executions
      exact writesLast_found cancelled.adapt ⟨_, rfl⟩ fun _ => ⟨_, rfl⟩
    next => exact (readOnly_throw _).writesUnless

end jobs

section objects

theorem writesLast_endpointCreate (body : CreateEndpoint) : WritesLast (EndpointsApi.create env schemaName body) := by
  unfold EndpointsApi.create
  split
  next => exact (readOnly_throw _).writesUnless
  next => exact (readOnly_throw _).writesUnless
  next =>
    refine (readOnly_connect _).bind_writes fun _ => ?_
    exact (readOnly_of_uses (uses_checkRefs neutral_asks _ _ _)).bind_writes fun _ => writesLast_insertOne.adapt.map

theorem writesLast_endpointUpdate (name : String) (body : UpdateEndpoint) :
    WritesLast (EndpointsApi.update env schemaName name body) := by
  refine (readOnly_connect _).bind_writes fun _ => ?_
  refine (readOnly_of_uses (uses_checkRefs neutral_asks _ _ _)).bind_writes fun _ => ?_
  have updated : WritesUnless (fun r => r = none) (Endpoints.update ⟨schemaName, env.tablePrefix, false⟩ name body.spec
      body.config body.payloadSpec (body.retryPolicy.map RetryPolicy.toValue)) := writesUnless_updateOne .endpoints
  exact writesLast_found updated.adapt ⟨_, rfl⟩ fun _ => ⟨_, rfl⟩

theorem writesLast_endpointDelete (name : String) : WritesLast (EndpointsApi.delete env schemaName name) := by
  refine (readOnly_connect _).bind_writes fun _ => readOnly_read.adapt.bind_writes fun r => ?_
  exact writes_checked writesLast_removed

theorem writesLast_deleteUnused {db : DbContext} {depends : Endpoint → Bool} {stmt : Statement} {tb : Table} {k : Key}
    {inUse missing : AppError} : WritesLast (deleteUnused schemaName
      (hasDependentEndpoints db depends) (deleteNow (M := Pg) stmt tb k) inUse missing) := by
  refine (readOnly_connect _).bind_writes fun _ => readOnly_read.adapt.bind_writes fun r => ?_
  exact writes_checked writesLast_removed

theorem writesLast_specCreate (name : String) (schema : Json) :
    WritesLast (PayloadSpecsApi.create env schemaName name schema) :=
  writes_checked ((readOnly_connect _).bind_writes fun _ => writesLast_insertOne.adapt.map)

theorem writesLast_specUpdate (name : String) (schema : Json) :
    WritesLast (PayloadSpecsApi.update env schemaName name schema) := by
  refine writes_checked ((readOnly_connect _).bind_writes fun _ => ?_)
  have updated : WritesUnless (fun r => r = none) (PayloadSpecs.update ⟨schemaName, env.tablePrefix, false⟩ name schema) :=
    writesUnless_updateOne .payloadSpecs
  exact writesLast_found updated.adapt ⟨_, rfl⟩ fun _ => ⟨_, rfl⟩

theorem writesLast_configCreate (name : String) (values : Json) :
    WritesLast (ConfigsApi.create env schemaName name values) :=
  writes_checked ((readOnly_connect _).bind_writes fun _ => writesLast_insertOne.adapt.map)

theorem writesLast_configUpdate (name : String) (values : Json) :
    WritesLast (ConfigsApi.update env schemaName name values) := by
  refine writes_checked ((readOnly_connect _).bind_writes fun _ => ?_)
  have updated : WritesUnless (fun r => r = none) (Configs.update ⟨schemaName, env.tablePrefix, false⟩ name values) :=
    writesUnless_updateOne .configs
  exact writesLast_found updated.adapt ⟨_, rfl⟩ fun _ => ⟨_, rfl⟩

theorem writesLast_secretCreate (name : String) (value : List UInt8) :
    WritesLast (SecretsApi.create env schemaName name value) :=
  (readOnly_connect _).bind_writes fun _ => writesLast_insertOne.adapt.map

theorem writesLast_secretUpdate (name : String) (value : List UInt8) :
    WritesLast (SecretsApi.update env schemaName name value) := by
  refine (readOnly_connect _).bind_writes fun _ => ?_
  have updated : WritesUnless (fun r => r = none) (Secrets.update ⟨schemaName, env.tablePrefix, false⟩ name value) :=
    writesUnless_updateOne .secrets
  exact writesLast_found updated.adapt ⟨_, rfl⟩ fun _ => ⟨_, rfl⟩

end objects

theorem writesLast_provisionReaper (cronExpression : String) :
    WritesLast (Workspaces.provisionReaper schemaName cronExpression) :=
  writesLast_scopedTransaction (uses_adapt (uses_try_bind (uses_insertOne trivial) fun _ =>
    uses_try_bind (uses_insertOne trivial) fun _ => Prog.uses_perform.mpr trivial))

theorem writesLast_cronTick (jobName : String) : WritesLast (cronTick jobName) := by
  refine writesLast_inner (uses_try_bind (Prog.uses_perform.mpr trivial) fun snap => ?_)
  split
  next => exact uses_done _
  next entry _ => exact inner_runCronCommand entry.command

section library

theorem readOnly_libraryConnect : ReadOnly (LibraryClient.connect env schemaName) :=
  readOnly_of_uses (uses_try_bind (uses_adapt (uses_scopedConnection neutral_asks _)) fun _ => uses_done _)

theorem writesLast_registerEndpoint (name : String) (endpointType : EndpointType) (spec : Json) (retryPolicy : Option Json) :
    WritesLast (LibraryClient.registerEndpoint env schemaName name endpointType spec retryPolicy) := by
  unfold LibraryClient.registerEndpoint
  rw [library_connected]
  refine (readOnly_connect _).adapt.bind_writes fun _ => readOnly_read.adapt.bind_writes fun r => ?_
  split
  next => exact writesLast_insertOne.adapt.map
  next =>
    have updated : WritesUnless (fun r => r = none) (Endpoints.update ⟨schemaName, env.tablePrefix, false⟩ name (some spec)
        none none retryPolicy) := writesUnless_updateOne .endpoints
    exact updated.adapt.map

theorem writesLast_libraryRemoved {stmt : Statement} {tb : Table} (delete : DbContext → Try Pg DbError Bool)
    (removes : ∀ db, ∃ k, delete db = deleteNow (M := Pg) stmt tb k) : WritesLast (do
      let db ← LibraryClient.connect env schemaName
      let _ ← ExceptT.adapt (LibraryClient.dbText env) (delete db)
      return () : Try Pg String Unit) := by
  refine readOnly_libraryConnect.bind_writes fun db => ?_
  obtain ⟨k, hk⟩ := removes db
  rw [hk]
  exact writesUnless_deleteNow.adapt.map

theorem writesLast_upsertSecret (name : String) (value : List UInt8) :
    WritesLast (LibraryClient.upsertSecret env schemaName name value) := by
  unfold LibraryClient.upsertSecret
  rw [library_connected]
  refine (readOnly_connect _).adapt.bind_writes fun _ => readOnly_read.adapt.bind_writes fun r => ?_
  split
  next =>
    have updated : WritesUnless (fun r => r = none) (Secrets.update ⟨schemaName, env.tablePrefix, false⟩ name value) :=
      writesUnless_updateOne .secrets
    exact updated.adapt.map
  next => exact writesLast_insertOne.adapt.map

end library

/-- The requests that run their changes in one transaction. A worker makes several, and the library's
`create_job` and `cancel_job` commit each statement on its own. -/
def Request.atomic : Request env → Bool
  | .libraryCreateJob .. | .libraryCancelJob .. | .work .. => false
  | _ => true

/-- The answer reports an error. -/
def Outcome.failed : Outcome → Bool
  | .http (.error _) | .provisioned (.error _) | .library (.error _) | .libraryDone (.error _) | .ticked (.error _) => true
  | _ => false

theorem atomic_of {f : Except ε α → Outcome} {x : Try Pg ε α} (hx : WritesLast x)
    (succeeds : ∀ a, (f (.ok a)).failed = false) :
    AtomicProgram (M := Pg) (fun out => out.failed = true) (x.run >>= fun r => pure (f r)) := by
  refine holds_run ((hx _ pristine_start).mono (fun a m _ hf => ?_) fun e m hm _ => hm.unchanged)
  exact absurd ((succeeds a).symm.trans hf) Bool.false_ne_true

theorem atomicProgram (req : Request env) (h : req.atomic = true) :
    AtomicProgram (fun out : Outcome => out.failed = true) req.program := by
  have answer : ∀ a : Reply, (Outcome.http (.ok a)).failed = false := fun _ => rfl
  have done : ∀ a : Unit, (Outcome.libraryDone (.ok a)).failed = false := fun _ => rfl
  cases req with
  | createJob schemaName body => exact atomic_of (writesLast_jobCreate body) answer
  | updateJob schemaName jobId body => exact atomic_of (writesLast_jobUpdate jobId body) answer
  | cancelJob schemaName jobId => exact atomic_of (writesLast_scopedTransaction (inner_cancelIn rfl jobId)) answer
  | cancelExecution schemaName executionId => exact atomic_of (writesLast_executionCancel executionId) answer
  | createEndpoint schemaName body => exact atomic_of (writesLast_endpointCreate body) answer
  | updateEndpoint schemaName name body => exact atomic_of (writesLast_endpointUpdate name body) answer
  | deleteEndpoint schemaName name => exact atomic_of (writesLast_endpointDelete name) answer
  | createPayloadSpec schemaName name schema => exact atomic_of (writesLast_specCreate name schema) answer
  | updatePayloadSpec schemaName name schema => exact atomic_of (writesLast_specUpdate name schema) answer
  | deletePayloadSpec schemaName name => exact atomic_of writesLast_deleteUnused answer
  | createConfig schemaName name values => exact atomic_of (writesLast_configCreate name values) answer
  | updateConfig schemaName name values => exact atomic_of (writesLast_configUpdate name values) answer
  | deleteConfig schemaName name => exact atomic_of writesLast_deleteUnused answer
  | createSecret schemaName name value => exact atomic_of (writesLast_secretCreate name value) answer
  | updateSecret schemaName name value => exact atomic_of (writesLast_secretUpdate name value) answer
  | deleteSecret schemaName name => exact atomic_of writesLast_deleteUnused answer
  | provisionReaper schemaName cronExpression _ => exact atomic_of (writesLast_provisionReaper cronExpression) fun _ => rfl
  | libraryCreateJob => cases h
  | libraryCancelJob => cases h
  | libraryRegisterEndpoint schemaName name endpointType spec retryPolicy =>
    exact atomic_of (writesLast_registerEndpoint name endpointType spec retryPolicy) done
  | libraryDeleteEndpoint schemaName name => exact atomic_of (writesLast_libraryRemoved _ fun _ => ⟨_, rfl⟩) done
  | libraryUpsertSecret schemaName name value => exact atomic_of (writesLast_upsertSecret name value) done
  | libraryDeleteSecret schemaName name => exact atomic_of (writesLast_libraryRemoved _ fun _ => ⟨_, rfl⟩) done
  | work => cases h
  | tick jobName => exact atomic_of (writesLast_cronTick jobName) fun _ => rfl

/-- The same endpoint registered twice. -/
def registeredTwice : List (Action (service sample)) :=
  serve 1 4 (.createEndpoint "acme" sampleEndpoint) (.response 200 "") ++
    serve 2 5 (.createEndpoint "acme" sampleEndpoint) (.response 200 "")

end Invokr

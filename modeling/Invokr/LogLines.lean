import Invokr.Arrivals
import Invokr.Recollection
import Invokr.Runs

namespace Invokr

open TxLib

variable {env : Setup}

/-- The call writes no log line and records no attempt. -/
def Unlogged : Op Pg → Prop
  | .insert _ .executionLogs _ _ | .update _ .executionLogs _ _ _ _ => False
  | .insert _ .attempts _ _ | .update _ .attempts _ _ _ _ => False
  | _ => True

theorem neutral_unlogged : Neutral Unlogged where
  ext _ _ := trivial
  halt := trivial
  begin := trivial
  snapshot _ := trivial
  commit := trivial
  rollback := trivial

theorem cancels_unlogged : AdmitsCancels Unlogged where
  toNeutral := neutral_unlogged
  execution _ _ _ := trivial
  job _ _ := trivial
  drop _ := trivial

theorem creates_unlogged {schemaName endpoint : String} {endpointType : EndpointType} {input : Option Json} :
    Creates Unlogged schemaName endpoint endpointType input where
  toNeutral := neutral_unlogged
  job _ _ := trivial
  put _ _ := trivial

theorem admits_unlogged (maxAttempts : Int) : AdmitsExecution Unlogged maxAttempts := fun _ _ => trivial

section requests

variable {schemaName : String}

theorem unlogged_checkInput (db : DbContext) (ep : Endpoint) (body : CreateJob) :
    (JobsApi.checkInput env db ep body).run.Uses Unlogged := by
  unfold JobsApi.checkInput
  split
  next =>
    refine uses_try_bind (uses_adapt (uses_read neutral_unlogged)) fun r => ?_
    split
    next => exact uses_throw _
    next => trivial
  next => exact uses_done _

theorem unlogged_create (body : CreateJob) : (JobsApi.create env schemaName body).run.Uses Unlogged := by
  unfold JobsApi.create
  split
  next => exact uses_throw _
  next trigger _ =>
    refine uses_try_bind (uses_scopedConnection neutral_unlogged _) fun _ =>
      uses_try_bind (uses_adapt (uses_read neutral_unlogged)) fun r => ?_
    split
    next => exact uses_throw _
    next ep =>
      refine uses_checked (uses_try_bind (unlogged_checkInput _ _ _) fun _ =>
        uses_try_bind (uses_findDuplicate neutral_unlogged) fun found => ?_)
      split
      next => exact uses_done _
      next => exact uses_createAs creates_unlogged (admits_unlogged _) trigger

theorem unlogged_update (jobId : String) (body : UpdateJob) :
    (JobsApi.update env schemaName jobId body).run.Uses Unlogged := by
  refine uses_try_bind (uses_scopedConnection neutral_unlogged _) fun _ =>
    uses_try_bind (uses_adapt (uses_read neutral_unlogged)) fun r => ?_
  split
  next => exact uses_throw _
  next old =>
    refine uses_try_bind (α := Unit) trivial fun _ => uses_try_bind (α := String) trivial fun cron => ?_
    refine uses_checked (uses_try_bind (uses_ext neutral_unlogged fun _ h => by cases h) fun now => ?_)
    split
    next => exact uses_throw _
    next =>
      refine uses_try_bind (uses_scopedTransaction neutral_unlogged ?_) fun _ => uses_done _
      exact uses_replaceIn neutral_unlogged (fun _ => trivial) trivial (fun _ => trivial) fun _ _ => trivial

theorem unlogged_provision {expression : String} :
    (Workspaces.provisionReaper schemaName expression).run.Uses Unlogged := by
  refine uses_scopedTransaction neutral_unlogged (uses_adapt ?_)
  refine uses_try_bind (uses_insertOne trivial) fun _ => uses_try_bind (uses_insertOne trivial) fun _ => ?_
  exact Prog.uses_perform.mpr trivial

theorem unlogged_libraryCreate {endpoint : String} {input : Json} {maxAttempts : Int} {trigger : JobTrigger}
    {key : Option String} :
    (LibraryClient.createJob env schemaName endpoint input maxAttempts trigger key).run.Uses Unlogged := by
  refine uses_connected neutral_unlogged (uses_try_bind (uses_adapt (uses_read neutral_unlogged)) fun r => ?_)
  split
  next => exact uses_throw _
  next ep =>
    cases trigger with
    | immediate =>
      exact uses_try_bind (uses_adapt (uses_createImmediate creates_unlogged rfl (admits_unlogged _) _)) fun _ => uses_done _
    | delayed =>
      exact uses_try_bind (uses_adapt (uses_createDelayed creates_unlogged rfl (admits_unlogged _) _ _)) fun _ => uses_done _
    | cron => exact uses_try_bind (uses_adapt (uses_createCron creates_unlogged rfl _ _ _ _ _ _)) fun _ => uses_done _

theorem unlogged_libraryCancel {jobId : String} :
    (LibraryClient.cancelJob env schemaName jobId).run.Uses Unlogged := by
  refine uses_connected neutral_unlogged (uses_try_bind (uses_adapt (uses_read neutral_unlogged)) fun r => ?_)
  split
  next => exact uses_throw _
  next job =>
    refine uses_sometimes (uses_adapt (uses_cancelPending cancels_unlogged _))
      (uses_try_bind (uses_adapt (uses_retire cancels_unlogged _)) fun _ => ?_)
    exact uses_sometimes (uses_adapt (uses_unregisterPgCron cancels_unlogged _ _)) (uses_done _)

theorem unlogged_tick (jobName : String) : (cronTick jobName).run.Uses Unlogged := by
  refine uses_transaction trivial trivial trivial (uses_try_bind (uses_query neutral_unlogged _) fun snap => ?_)
  split
  next => exact uses_done _
  next entry _ =>
    refine uses_try_bind (uses_query neutral_unlogged _) fun snap => ?_
    split
    next => exact uses_done _
    next =>
      split
      next => exact uses_done _
      next =>
        split
        next =>
          split
          next => exact uses_throw _
          next => exact uses_try_bind (Prog.uses_perform.mpr trivial) fun _ => uses_done _
        next => exact uses_done _

end requests

/-- Only workers log. -/
theorem unlogged_all {req : Request env} (h : isWork req = false) : req.program.Uses Unlogged := by
  have hn := neutral_unlogged
  cases req with
  | createJob => exact uses_answered (unlogged_create _)
  | updateJob => exact uses_answered (unlogged_update _ _)
  | cancelJob => exact uses_answered (uses_cancelJob cancels_unlogged _ _)
  | cancelExecution => exact uses_answered (uses_cancelExecution cancels_unlogged _ _)
  | provisionReaper => exact Prog.Uses.bind unlogged_provision fun _ => trivial
  | libraryCreateJob => exact Prog.Uses.bind unlogged_libraryCreate fun _ => trivial
  | libraryCancelJob => exact Prog.Uses.bind unlogged_libraryCancel fun _ => trivial
  | tick => exact Prog.Uses.bind (unlogged_tick _) fun _ => trivial
  | createEndpoint => exact uses_answered (uses_endpoints_create hn fun _ _ => trivial)
  | updateEndpoint => exact uses_answered (uses_endpoints_update hn fun _ => trivial)
  | deleteEndpoint => exact uses_answered (uses_endpoints_delete hn trivial)
  | createPayloadSpec => exact uses_answered (uses_payloadSpecs_create hn fun _ => trivial)
  | updatePayloadSpec => exact uses_answered (uses_payloadSpecs_update hn fun _ _ _ => trivial)
  | deletePayloadSpec => exact uses_answered (uses_deleteUnreferenced hn trivial)
  | createConfig => exact uses_answered (uses_configs_create hn fun _ => trivial)
  | updateConfig => exact uses_answered (uses_configs_update hn fun _ _ _ => trivial)
  | deleteConfig => exact uses_answered (uses_deleteUnreferenced hn trivial)
  | createSecret => exact uses_answered (uses_secrets_create hn fun _ => trivial)
  | updateSecret => exact uses_answered (uses_secrets_update hn fun _ _ _ => trivial)
  | deleteSecret => exact uses_answered (uses_deleteUnreferenced hn trivial)
  | libraryRegisterEndpoint =>
    exact Prog.Uses.bind (uses_registerEndpoint hn trivial fun _ => trivial) fun _ => trivial
  | libraryDeleteEndpoint =>
    exact Prog.Uses.bind (uses_library_delete (k := fun db => db.key _) hn trivial) fun _ => trivial
  | libraryUpsertSecret =>
    exact Prog.Uses.bind (uses_upsertSecret hn (fun _ => trivial) fun _ _ _ => trivial) fun _ => trivial
  | libraryDeleteSecret =>
    exact Prog.Uses.bind (uses_library_delete (k := fun db => db.key _) hn trivial) fun _ => trivial
  | work => cases h

end Invokr

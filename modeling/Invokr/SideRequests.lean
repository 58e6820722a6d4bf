import Invokr.Calm

namespace Invokr

open TxLib

variable {env : Setup} {g : Guard (service env)} {t : Nat}

section uses

variable {p : Op Pg → Prop} (hp : Neutral p)

include hp

theorem uses_deleteUnused {schemaName : String} {dependent delete : Try Pg DbError Bool} {inUse missing : AppError}
    (hd : dependent.run.Uses p) (hx : delete.run.Uses p) :
    (deleteUnused schemaName dependent delete inUse missing).run.Uses p := by
  refine uses_try_bind (uses_scopedConnection hp schemaName) fun _ => ?_
  refine uses_require (q := id) (uses_adapt hd) (uses_try_bind (uses_adapt hx) fun b => ?_)
  split
  next => exact uses_done _
  next => exact uses_throw _

theorem uses_deleteUnreferenced {schemaName : String} {db : DbContext} {depends : Endpoint → Bool} {stmt : Statement}
    {tb : Table} {k : Key} {inUse missing : AppError} (h : p (.deleteNow stmt tb k)) :
    (deleteUnused schemaName (hasDependentEndpoints db depends) (deleteNow (M := Pg) stmt tb k) inUse missing).run.Uses p :=
  uses_deleteUnused hp (uses_read hp) (uses_deleteNow h)

theorem uses_payloadSpecs_create {schemaName name : String} {schema : Json}
    (h : ∀ build, p (.insert .insertPayloadSpec .payloadSpecs false build)) :
    (PayloadSpecsApi.create env schemaName name schema).run.Uses p :=
  uses_checked (uses_try_bind (uses_scopedConnection hp _) fun _ =>
    uses_try_bind (uses_adapt (uses_execute hp (uses_insertOne (h _)))) fun _ => uses_done _)

theorem uses_payloadSpecs_update {schemaName name : String} {schema : Json}
    (h : ∀ k keep patch, p (.update .updatePayloadSpec .payloadSpecs k false keep patch)) :
    (PayloadSpecsApi.update env schemaName name schema).run.Uses p := by
  refine uses_checked (uses_try_bind (uses_scopedConnection hp _) fun _ =>
    uses_try_bind (uses_adapt (uses_execute hp (uses_updateOne (hp.snapshot _) (h _ _ _)))) fun r => ?_)
  cases r with
  | none => exact uses_throw _
  | some _ => exact uses_done _

theorem uses_configs_create {schemaName name : String} {values : Json}
    (h : ∀ build, p (.insert .insertConfig .configs false build)) :
    (ConfigsApi.create env schemaName name values).run.Uses p :=
  uses_checked (uses_try_bind (uses_scopedConnection hp _) fun _ =>
    uses_try_bind (uses_adapt (uses_execute hp (uses_insertOne (h _)))) fun _ => uses_done _)

theorem uses_configs_update {schemaName name : String} {values : Json}
    (h : ∀ k keep patch, p (.update .updateConfig .configs k false keep patch)) :
    (ConfigsApi.update env schemaName name values).run.Uses p := by
  refine uses_checked (uses_try_bind (uses_scopedConnection hp _) fun _ =>
    uses_try_bind (uses_adapt (uses_execute hp (uses_updateOne (hp.snapshot _) (h _ _ _)))) fun r => ?_)
  cases r with
  | none => exact uses_throw _
  | some _ => exact uses_done _

theorem uses_secrets_create {schemaName name : String} {value : List UInt8}
    (h : ∀ build, p (.insert .insertSecret .secrets false build)) :
    (SecretsApi.create env schemaName name value).run.Uses p :=
  uses_try_bind (uses_scopedConnection hp _) fun _ =>
    uses_try_bind (uses_adapt (uses_execute hp (uses_insertOne (h _)))) fun _ => uses_done _

theorem uses_secrets_update {schemaName name : String} {value : List UInt8}
    (h : ∀ k keep patch, p (.update .updateSecret .secrets k false keep patch)) :
    (SecretsApi.update env schemaName name value).run.Uses p := by
  refine uses_try_bind (uses_scopedConnection hp _) fun _ =>
    uses_try_bind (uses_adapt (uses_execute hp (uses_updateOne (hp.snapshot _) (h _ _ _)))) fun r => ?_
  cases r with
  | none => exact uses_throw _
  | some _ => exact uses_done _

theorem uses_checkConfig (db : DbContext) (config : Option String) :
    (match config with
      | none => pure ()
      | some name => do
        if (← ExceptT.adapt fromDb (Configs.get db name)).isNone then throw (.invalidConfigRef name) :
        Try Pg AppError Unit).run.Uses p := by
  split
  next => exact uses_done _
  next =>
    refine uses_try_bind (uses_adapt (uses_read hp)) fun r => ?_
    split
    next => exact uses_throw _
    next => exact uses_done _

theorem uses_checkRefs (db : DbContext) (payloadSpec config : Option String) :
    (EndpointsApi.checkRefs db payloadSpec config).run.Uses p := by
  have second := uses_checkConfig hp db config
  unfold EndpointsApi.checkRefs
  cases payloadSpec with
  | none => exact second
  | some name =>
    refine uses_try_bind (uses_adapt (uses_read hp)) fun r => ?_
    split
    next => exact uses_try_bind (uses_throw _) fun _ => second
    next => exact second

theorem uses_endpoints_create {schemaName : String} {body : CreateEndpoint}
    (h : ∀ endpointType, endpointType ≠ .internal → p (.insert .insertEndpoint .endpoints false fun _ now =>
      (⟨schemaName, body.name⟩, Endpoint.mk body.name endpointType body.payloadSpec body.config body.spec
        (body.retryPolicy.map RetryPolicy.toValue) now now))) :
    (EndpointsApi.create env schemaName body).run.Uses p := by
  unfold EndpointsApi.create
  split
  next => exact uses_throw _
  next => exact uses_throw _
  next endpointType hne _ =>
    refine uses_try_bind (uses_scopedConnection hp _) fun _ => uses_try_bind (uses_checkRefs hp _ _ _) fun _ => ?_
    exact uses_try_bind (uses_adapt (uses_execute hp (uses_insertOne (h endpointType fun he => hne (he ▸ rfl)))))
      fun _ => uses_done _

theorem uses_endpoints_update {schemaName name : String} {body : UpdateEndpoint}
    (h : ∀ keep, p (.update .updateEndpoint .endpoints ⟨schemaName, name⟩ false keep
      (Endpoints.updatePatch body.spec body.config body.payloadSpec (body.retryPolicy.map RetryPolicy.toValue)))) :
    (EndpointsApi.update env schemaName name body).run.Uses p := by
  refine uses_try_bind (uses_scopedConnection hp _) fun _ => uses_try_bind (uses_checkRefs hp _ _ _) fun _ => ?_
  refine uses_try_bind (uses_adapt (uses_execute hp (uses_updateOne (hp.snapshot _) (h _)))) fun r => ?_
  cases r with
  | none => exact uses_throw _
  | some _ => exact uses_done _

theorem uses_endpoints_delete {schemaName name : String} (h : p (.deleteNow .deleteEndpoint .endpoints ⟨schemaName, name⟩)) :
    (EndpointsApi.delete env schemaName name).run.Uses p := by
  refine uses_try_bind (uses_scopedConnection hp _) fun _ => uses_require (q := id) (uses_adapt (uses_read hp)) ?_
  refine uses_try_bind (uses_adapt (uses_deleteNow h)) fun b => ?_
  split
  next => exact uses_done _
  next => exact uses_throw _

theorem uses_connect (schemaName : String) : (LibraryClient.connect env schemaName).run.Uses p :=
  uses_try_bind (uses_adapt (uses_scopedConnection hp _)) fun _ => uses_done _

/-- The rest of a library call after its connection. -/
theorem uses_connected {α : Type} {schemaName : String} {rest : DbContext → Try Pg String α}
    (h : (rest ⟨schemaName, env.tablePrefix, false⟩).run.Uses p) :
    (LibraryClient.connect env schemaName >>= rest).run.Uses p := by
  have hconn : LibraryClient.connect env schemaName >>= rest =
      (ExceptT.adapt (fun _ => LibraryClient.dbText env .closed) (scopedConnection schemaName) >>= fun _ =>
        rest ⟨schemaName, env.tablePrefix, false⟩ : Try Pg String α) := by
    unfold LibraryClient.connect
    rw [bind_assoc]
    rfl
  rw [hconn]
  exact uses_try_bind (uses_adapt (uses_scopedConnection hp _)) fun _ => h

theorem uses_registerEndpoint {schemaName name : String} {endpointType : EndpointType} {spec : Json}
    {retryPolicy : Option Json}
    (hinsert : p (.insert .insertEndpoint .endpoints false fun _ now =>
      (⟨schemaName, name⟩, Endpoint.mk name endpointType none none spec retryPolicy now now)))
    (hupdate : ∀ keep, p (.update .updateEndpoint .endpoints ⟨schemaName, name⟩ false keep
      (Endpoints.updatePatch (some spec) none none retryPolicy))) :
    (LibraryClient.registerEndpoint env schemaName name endpointType spec retryPolicy).run.Uses p := by
  refine uses_connected hp (uses_try_bind (uses_adapt (uses_read hp)) fun r => ?_)
  split
  next => exact uses_try_bind (uses_adapt (uses_execute hp (uses_insertOne hinsert))) fun _ => uses_done _
  next => exact uses_try_bind (uses_adapt (uses_execute hp (uses_updateOne (hp.snapshot _) (hupdate _)))) fun _ => uses_done _

theorem uses_upsertSecret {schemaName name : String} {value : List UInt8}
    (hinsert : ∀ build, p (.insert .insertSecret .secrets false build))
    (hupdate : ∀ k keep patch, p (.update .updateSecret .secrets k false keep patch)) :
    (LibraryClient.upsertSecret env schemaName name value).run.Uses p := by
  refine uses_connected hp (uses_try_bind (uses_adapt (uses_read hp)) fun r => ?_)
  split
  next => exact uses_try_bind (uses_adapt (uses_execute hp (uses_updateOne (hp.snapshot _) (hupdate _ _ _)))) fun _ => uses_done _
  next => exact uses_try_bind (uses_adapt (uses_execute hp (uses_insertOne (hinsert _)))) fun _ => uses_done _

theorem uses_library_delete {tb : Table} {stmt : Statement} {schemaName : String} {k : DbContext → Key}
    (h : p (.deleteNow stmt tb (k ⟨schemaName, env.tablePrefix, false⟩))) :
    (LibraryClient.connect env schemaName >>= fun db =>
      ExceptT.adapt (LibraryClient.dbText env) (deleteNow (M := Pg) stmt tb (k db)) >>= fun _ => pure ()).run.Uses p :=
  uses_connected hp (uses_try_bind (uses_adapt (uses_deleteNow h)) fun _ => uses_done _)

omit hp in
theorem uses_answered {handler : Try Pg AppError Reply} (h : handler.run.Uses p) : (answered handler).Uses p :=
  Prog.Uses.bind h fun _ => trivial

end uses

/-- The requests that touch neither jobs, executions and attempts nor schedules. -/
def Request.aside : Request env → Bool
  | .createEndpoint .. | .updateEndpoint .. | .deleteEndpoint .. | .createPayloadSpec .. | .updatePayloadSpec ..
  | .deletePayloadSpec .. | .createConfig .. | .updateConfig .. | .deleteConfig .. | .createSecret ..
  | .updateSecret .. | .deleteSecret .. | .libraryRegisterEndpoint .. | .libraryDeleteEndpoint ..
  | .libraryUpsertSecret .. | .libraryDeleteSecret .. => true
  | _ => false

theorem calm_aside {req : Request env} (h : req.aside = true) : req.program.Uses Calm := by
  have hp := neutral_calm
  cases req with
  | createEndpoint => exact uses_answered (uses_endpoints_create hp fun _ _ => rfl)
  | updateEndpoint => exact uses_answered (uses_endpoints_update hp fun _ => rfl)
  | deleteEndpoint => exact uses_answered (uses_endpoints_delete hp rfl)
  | createPayloadSpec => exact uses_answered (uses_payloadSpecs_create hp fun _ => rfl)
  | updatePayloadSpec => exact uses_answered (uses_payloadSpecs_update hp fun _ _ _ => rfl)
  | deletePayloadSpec => exact uses_answered (uses_deleteUnreferenced hp rfl)
  | createConfig => exact uses_answered (uses_configs_create hp fun _ => rfl)
  | updateConfig => exact uses_answered (uses_configs_update hp fun _ _ _ => rfl)
  | deleteConfig => exact uses_answered (uses_deleteUnreferenced hp rfl)
  | createSecret => exact uses_answered (uses_secrets_create hp fun _ => rfl)
  | updateSecret => exact uses_answered (uses_secrets_update hp fun _ _ _ => rfl)
  | deleteSecret => exact uses_answered (uses_deleteUnreferenced hp rfl)
  | libraryRegisterEndpoint => exact Prog.Uses.bind (uses_registerEndpoint hp rfl fun _ => rfl) fun _ => trivial
  | libraryDeleteEndpoint name => exact Prog.Uses.bind (uses_library_delete (k := fun db => db.key _) hp rfl) fun _ => trivial
  | libraryUpsertSecret => exact Prog.Uses.bind (uses_upsertSecret hp (fun _ => rfl) fun _ _ _ => rfl) fun _ => trivial
  | libraryDeleteSecret => exact Prog.Uses.bind (uses_library_delete (k := fun db => db.key _) hp rfl) fun _ => trivial
  | _ => cases h

theorem runs_aside {req : Request env} {w : World Pg} (h : req.aside = true) (hv : w.view t = (none, [])) :
    Runs g req t ((base g).post req t) req.program w := by
  have hreq : isWork req = false := by cases req <;> first | rfl | cases h
  refine (runs_calm hreq (calm_aside h) fun s hs => ?_).mono fun out w' _ => ⟨rest_of_not_work hreq, ?_⟩
  · rw [hv] at hs
    cases hs
  · cases req <;> trivial

end Invokr

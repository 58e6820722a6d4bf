import Invokr.Commits

namespace Invokr

open TxLib

variable {env : Setup}

/-- The client library's requests that change jobs; their statements commit one by one. -/
def Request.library : Request env → Bool
  | .libraryCreateJob .. | .libraryCancelJob .. => true
  | _ => false

/-- Jobs change through the API, the reaper, the workers and provisioning only. -/
def Official (g : Guard (service env)) : Prop := ∀ req, g.start req → req.library = false

/-- The thread's open transaction holds a one-shot job it has inserted. -/
def InsertedOneShot (w : World Pg) (t : Nat) : Prop :=
  ∃ s k, ∃ j : Job, w.sessions t = some s ∧ s.aborted = false ∧ s.held .jobs k = some ⟨none, some j⟩ ∧
    j.triggerType ≠ .cron

/-- No transaction of the client library commits a one-shot job. -/
def Atomic (g : Guard (service env)) : Prop :=
  ∀ req w t e, g.start req → req.library = true → g.step req w t e .commit → ¬InsertedOneShot w t

/-- The statement that retires the base version of an update. -/
def retiresBase : Op Pg → Bool
  | .snapshot .retireJob => true
  | .update .retireJob .. => true
  | _ => false

/-- Wherever an update's `retire_and_replace` reads the base version, that is ACTIVE. -/
def Exact (g : Guard (service env)) : Prop :=
  ∀ schemaName jobId body w t e o, g.step (.updateJob schemaName jobId body) w t e o → retiresBase o = true →
    ∃ j : Job, w.rows .jobs ⟨schemaName, jobId⟩ = some j ∧ j.status = .active

/-- The identifier drawn for a row to be inserted is one that is in use. -/
def drawsUsedId (w : World Pg) (t : Nat) (e : Env Pg) : Op Pg → Prop
  | .insert _ tb _ build => ∃ s r, w.sessions t = some s ∧ w.Version tb (build e.fresh s.now).1 r
  | _ => False

/-- The statement is rejected whatever its values are. -/
def Unlucky (w : World Pg) (t : Nat) (e : Env Pg) (o : Op Pg) : Prop := e.fault = true ∨ drawsUsedId w t e o

section dispatches

def dispatchOf : Entry Pg → Option Dispatch
  | .ext (.dispatch d) _ => some d
  | _ => none

/-- What has been handed to a dispatcher since the thread's last commit or abort. -/
def handed (l : List (Entry Pg)) : List Dispatch := (current l).filterMap dispatchOf

def Dispatch.key (d : Dispatch) : Key := ⟨d.schemaName, d.executionId⟩

def isLogInsert : Op Pg → Bool
  | .insert .insertLog .. => true
  | _ => false

/-- The answers of the world outside that make a dispatcher return a value `JSONB` does not take. -/
def unstorableAnswer (e : Env Pg) : Op Pg → Bool
  | .ext (.httpSend spec key) => !jsonbAccepts (Dispatcher.httpResult spec (e.answer (.httpSend spec key))).value
  | .ext (.kafkaSend spec) => !jsonbAccepts (Dispatcher.kafkaResult (e.answer (.kafkaSend spec))).value
  | .ext (.redisSend spec) => !jsonbAccepts (Dispatcher.redisResult spec (e.answer (.redisSend spec))).value
  | .ext (.dispatch d) => d.endpointType = .internal && !((Dispatcher.taskOf d.spec).all textAccepts)
  | _ => false

/-- The retry would be due at a time `TIMESTAMPTZ` does not hold. -/
def retryOutOfRange (w : World Pg) (t : Nat) : Op Pg → Prop
  | .update .completeRetry .executions k _ _ patch => ∃ s, ∃ e : Execution, w.sessions t = some s ∧
      s.visible w.rows .executions k = some e ∧ timeFits (patch.apply s.now e : Execution).runAt = false
  | _ => False

/-- What makes a worker lose a dispatch. -/
def Mishap (w : World Pg) (t : Nat) (e : Env Pg) (o : Op Pg) : Prop :=
  (Unlucky w t e o ∧ (handed (w.history t) ≠ [] ∨ isLogInsert o = true)) ∨ unstorableAnswer e o = true ∨
    retryOutOfRange w t o ∨ (o = .halt ∧ handed (w.history t) ≠ [])

/-- No worker meets with a mishap, and none is killed between a dispatch and its commit. -/
def Counted (g : Guard (service env)) : Prop :=
  (∀ workerId schemas w t e o, g.step (.work workerId schemas) w t e o → ¬Mishap w t e o) ∧
    ∀ workerId schemas w t, g.kill (.work workerId schemas) w t → handed (w.history t) = []

end dispatches

section creation

/-- The checks of `create` that look at the request alone. -/
structure Passes (env : Setup) (schemaName : String) (body : CreateJob) (trigger : TriggerType) : Prop where
  schema : validateSchemaName schemaName = true
  parses : TriggerType.fromStrVal body.trigger = some trigger
  delayed : trigger = .delayed → body.idempotencyKey ≠ none ∧ body.runAt ≠ none
  cron : trigger = .cron → ∃ c tz, body.cron = some c ∧ body.timezone = some tz ∧ env.tzParse tz = true ∧
    ∀ t, body.startsAt = some t → env.cronNext c tz t ≠ none

/-- A row to be inserted cannot be stored, or the job's endpoint is gone, or its idempotency key is
one of a committed job. -/
def insertRefused (schemaName : String) (body : CreateJob) (w : World Pg) (t : Nat) (e : Env Pg) : Op Pg → Prop
  | .insert .insertJob .jobs _ build => ∃ s, w.sessions t = some s ∧
      (Pg.storable .jobs (build e.fresh s.now).2 = false ∨ w.rows .endpoints ⟨schemaName, body.endpoint⟩ = none ∨
        ∃ k, ∃ j : Job, w.rows .jobs k = some j ∧ k.schema = schemaName ∧ j.endpoint = body.endpoint ∧
          j.idempotencyKey = body.idempotencyKey ∧ body.idempotencyKey ≠ none)
  | .insert .insertExecution .executions _ build => ∃ s, w.sessions t = some s ∧
      Pg.storable .executions (build e.fresh s.now).2 = false
  | _ => False

/-- What a step of `create` finds that the request cannot answer for. -/
def unfit (env : Setup) (schemaName : String) (body : CreateJob) (w : World Pg) (e : Env Pg) : Op Pg → Prop
  | .ext .acquire => e.answer .acquire = false
  | .ext .now => ∃ c tz, body.cron = some c ∧ body.timezone = some tz ∧ env.cronNext c tz (e.answer .now) = none
  | .snapshot .getEndpoint => ∀ ep : Endpoint, w.rows .endpoints ⟨schemaName, body.endpoint⟩ = some ep →
      ep.endpointType = .internal
  | .snapshot (.getPayloadSpec name) => ∃ input, body.input = some input ∧
      ∀ p : PayloadSpec, w.rows .payloadSpecs ⟨schemaName, name⟩ = some p →
        JobsApi.validateInput env input p.schemaJson ≠ .ok ()
  | _ => False

/-- What makes `create` answer with an error. -/
def Obstacle (env : Setup) (schemaName : String) (body : CreateJob) (w : World Pg) (t : Nat) (e : Env Pg) (o : Op Pg) :
    Prop :=
  Unlucky w t e o ∨ unfit env schemaName body w e o ∨ insertRefused schemaName body w t e o

def Clear (g : Guard (service env)) (schemaName : String) (body : CreateJob) : Prop :=
  ∀ w t e o, g.step (.createJob schemaName body) w t e o → ¬Obstacle env schemaName body w t e o

end creation

end Invokr

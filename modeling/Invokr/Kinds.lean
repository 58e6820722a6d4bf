import Invokr.Conditions

namespace Invokr

open TxLib

variable {env : Setup}

/-- The job is one the request asks for; a key the request does not give is drawn for it. -/
def Asked (g : Guard (service env)) (req : Request env) (k : Key) (j : Job) : Prop :=
  match req with
  | .createJob schemaName body => k.schema = schemaName ∧ j.endpoint = body.endpoint ∧ j.endpointType ≠ .internal ∧
      (j.idempotencyKey = body.idempotencyKey ∨ (body.idempotencyKey = none ∧ ∃ w t e,
        g.step req w t e (.ext .newUuid) ∧ j.idempotencyKey = some (e.answer .newUuid : Uuid).val))
  | .libraryCreateJob schemaName endpoint _ _ _ key => k.schema = schemaName ∧ j.endpoint = endpoint ∧
      (j.idempotencyKey = key ∨ j.idempotencyKey = some (key.getD ""))
  | .updateJob .. => j.idempotencyKey = none ∧ j.endpointType ≠ .internal
  | .provisionReaper .. => j.idempotencyKey = none
  | _ => False

def Frame (D D' : Rows Pg) (tbs : List Table) : Prop := ∀ tb ∈ tbs, D' tb = D tb

/-- The entry of a CRON job, as `register_pg_cron_conn` writes it. -/
def entryOf (env : Setup) (k : Key) (expression : String) : CronEntry :=
  ⟨expression, Jobs.buildCronCommand env.tablePrefix k.schema k.id⟩

/-- A job found ACTIVE is retired, or, if another request came first, is RETIRED already. -/
def Replaced (g : Guard (service env)) (D D' : Rows Pg) (ko kn : Key) (new : Job) : Prop :=
  (∃ b b' : Job, D .jobs ko = some b ∧ b.status = .active ∧ SameJob b b' ∧ b'.status = .retired ∧
      D' .jobs = Function.update (Function.update (D .jobs) ko (some b')) kn (some new) ∧
      (Official g → D' .cronJob (entryKey ko) = none) ∧ b'.replacedById = some ko.id) ∨
    (¬Exact g ∧ (∃ b : Job, D .jobs ko = some b ∧ b.status = .retired) ∧
      D' .jobs = Function.update (D .jobs) kn (some new))

/-- The new version carries on the CRON job that it was made from. -/
def Succeeds (D : Rows Pg) (ko : Key) (new : Job) : Prop :=
  ∃ b : Job, D .jobs ko = some b ∧ b.triggerType = .cron ∧ b.endpointType ≠ .internal ∧ b.endpoint = new.endpoint ∧
    new.version = b.version + 1

/-- The API retires the job. -/
structure Withdrawn (now : Int) (j j' : Job) : Prop where
  retired : Retired now j j'
  user : j.endpointType ≠ .internal

/-- The execution is the one a tick at `now` makes for the job. -/
structure Fired (now : Int) (j : Job) (e : Execution) : Prop where
  cron : j.triggerType = .cron
  window : Jobs.inWindow now j = true
  createdAt : e.createdAt = now
  runAt : e.runAt = now
  key : e.idempotencyKey = some (Jobs.cronIdempotencyKey j.jobId now)

/-- An expired job of the schema is retired. -/
def Reaped (now : Int) (schemaName : String) (k : Key) (b n : Option Job) : Prop :=
  k.schema = schemaName ∧ ∃ j, b = some j ∧ j.triggerType = .cron ∧ Retired now j (Jobs.retirePatch.apply now j) ∧
    n = some (Jobs.retirePatch.apply now j)

/-- What a transaction of the request makes of the rows it finds when it commits. -/
inductive Commit (g : Guard (service env)) (req : Request env) (now : Int) (D D' : Rows Pg) : Prop
  | quiet (rest : Frame D D' [.jobs, .executions, .attempts, .cronJob])
  | oneShot {kj ke : Key} {j : Job} {e : Execution} (free : D .jobs kj = none) (unused : D .executions ke = none)
      (asked : Asked g req kj j) (job : NewJob kj j none) (once : j.triggerType ≠ .cron)
      (execution : NewExecution kj j ke e) (twin : Twin j e)
      (jobs : D' .jobs = Function.update (D .jobs) kj (some j))
      (executions : D' .executions = Function.update (D .executions) ke (some e))
      (rest : Frame D D' [.attempts, .cronJob])
  | jobAlone {kj : Key} {j : Job} (half : ¬Atomic g) (loose : ¬Official g) (free : D .jobs kj = none)
      (asked : Asked g req kj j) (job : NewJob kj j none) (once : j.triggerType ≠ .cron)
      (jobs : D' .jobs = Function.update (D .jobs) kj (some j)) (rest : Frame D D' [.executions, .attempts, .cronJob])
  | executionAlone {kj ke : Key} {j : Job} {e : Execution} (half : ¬Atomic g) (job : D .jobs kj = some j)
      (once : j.triggerType ≠ .cron) (unused : D .executions ke = none) (execution : NewExecution kj j ke e)
      (twin : Twin j e)
      (executions : D' .executions = Function.update (D .executions) ke (some e))
      (rest : Frame D D' [.jobs, .attempts, .cronJob])
  | ticked {kj ke : Key} {j : Job} {e : Execution} (job : D .jobs kj = some j) (fired : Fired now j e)
      (unused : D .executions ke = none) (execution : NewExecution kj j ke e)
      (executions : D' .executions = Function.update (D .executions) ke (some e))
      (rest : Frame D D' [.jobs, .attempts, .cronJob])
  | scheduled {kj : Key} {j : Job} {expression : String} (free : D .jobs kj = none) (asked : Asked g req kj j)
      (job : NewJob kj j none) (cron : j.triggerType = .cron) (expr : j.cronExpression = some expression)
      (jobs : D' .jobs = Function.update (D .jobs) kj (some j))
      (entry : D' .cronJob = Function.update (D .cronJob) (entryKey kj) (some (entryOf env kj expression)))
      (rest : Frame D D' [.executions, .attempts])
  | cronAlone {kj : Key} {j : Job} (loose : ¬Official g) (free : D .jobs kj = none) (asked : Asked g req kj j)
      (job : NewJob kj j none) (cron : j.triggerType = .cron)
      (jobs : D' .jobs = Function.update (D .jobs) kj (some j)) (rest : Frame D D' [.executions, .attempts, .cronJob])
  | replaced {ko kn : Key} {j : Job} {expression : String} (free : D .jobs kn = none) (asked : Asked g req kn j)
      (schema : kn.schema = ko.schema) (job : NewJob kn j (some ko.id)) (cron : j.triggerType = .cron)
      (expr : j.cronExpression = some expression) (old : Replaced g D D' ko kn j)
      (entry : D' .cronJob (entryKey kn) = some (entryOf env kn expression))
      (entries : ∀ k, k ≠ entryKey kn → D' .cronJob k = D .cronJob k ∨ (k = entryKey ko ∧ D' .cronJob k = none))
      (version : Succeeds D ko j) (rest : Frame D D' [.executions, .attempts])
  | cancelled {kj : Key} {j j' : Job} (job : D .jobs kj = some j) (once : j.triggerType ≠ .cron)
      (withdrawn : Withdrawn now j j')
      (jobs : D' .jobs = Function.update (D .jobs) kj (some j'))
      (executions : ∀ k, D' .executions k = D .executions k ∨
        ∃ e e' : Execution, D .executions k = some e ∧ CancelStep now e e' ∧ D' .executions k = some e')
      (rest : Frame D D' [.attempts, .cronJob])
  | cancelledCron {kj : Key} {j j' : Job} (job : D .jobs kj = some j) (cron : j.triggerType = .cron)
      (withdrawn : Withdrawn now j j') (jobs : D' .jobs = Function.update (D .jobs) kj (some j'))
      (entries : ∀ k, D' .cronJob k = D .cronJob k ∨ (k = entryKey kj ∧ D' .cronJob k = none))
      (entry : Official g → D' .cronJob (entryKey kj) = none) (rest : Frame D D' [.executions, .attempts])
  | cancelledExecutions (executions : ∀ k, D' .executions k = D .executions k ∨
        ∃ e e' : Execution, D .executions k = some e ∧ CancelStep now e e' ∧ D' .executions k = some e')
      (rest : Frame D D' [.jobs, .attempts, .cronJob])
  | retiredAlone {kj : Key} {j j' : Job} (loose : ¬Official g) (job : D .jobs kj = some j) (retired : Retired now j j')
      (jobs : D' .jobs = Function.update (D .jobs) kj (some j')) (rest : Frame D D' [.executions, .attempts, .cronJob])
  | unscheduled (loose : ¬Official g) (entries : ∀ k, D' .cronJob k = D .cronJob k ∨ D' .cronJob k = none)
      (rest : Frame D D' [.jobs, .executions, .attempts])
  | worked {ke ka : Key} {b e : Execution} {a : Attempt} (found : D .executions ke = some b) (attempt : Worked now b e a)
      (unused : D .attempts ka = none) (schema : ka.schema = ke.schema) (of : a.executionId = ke.id)
      (executions : D' .executions = Function.update (D .executions) ke (some e))
      (attempts : D' .attempts = Function.update (D .attempts) ka (some a))
      (jobs : ∀ k, D' .jobs k = D .jobs k ∨ Reaped now ke.schema k (D .jobs k) (D' .jobs k))
      (entries : ∀ k, D' .cronJob k = D .cronJob k ∨ (D' .cronJob k = none ∧
        ∃ kj, k = entryKey kj ∧ Reaped now ke.schema kj (D .jobs kj) (D' .jobs kj)))
      (unscheduled : Official g → ∀ k, Reaped now ke.schema k (D .jobs k) (D' .jobs k) → D' .cronJob (entryKey k) = none)

end Invokr

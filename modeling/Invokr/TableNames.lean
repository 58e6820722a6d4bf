import Invokr.WorkspaceCreation
import Invokr.UsableWorkspaces

namespace Invokr

open TxLib

def validateTablePrefix (tablePrefix : String) : Bool := tablePrefix = "" || tablePrefix.toList.all isWordChar

/-- The part of `DbEnv` that names tables. -/
structure DbEnv where
  tablePrefix : String
  admitted : validateTablePrefix tablePrefix = true

/-- `INVOKR_TABLE_PREFIX` is read with the empty prefix as its default. -/
def DbEnv.new (value : Option String) : Except String DbEnv :=
  if h : validateTablePrefix (value.getD "") = true then .ok ⟨value.getD "", h⟩
  else .error ("INVOKR_TABLE_PREFIX '" ++ value.getD "" ++ "' is invalid: only alphanumeric and underscore allowed")

def Table.relation : Table → Option String
  | .payloadSpecs => some "payload_specs"
  | .configs => some "configs"
  | .secrets => some "secrets"
  | .endpoints => some "endpoints"
  | .jobs => some "jobs"
  | .executions => some "executions"
  | .attempts => some "attempts"
  | .executionLogs => some "execution_logs"
  | .cronJob => none

/-- The tables that the handlers' and the worker's statements name with `tbl`. -/
def Statement.tables : Statement → List Table
  | .getPayloadSpec _ | .insertPayloadSpec | .updatePayloadSpec | .deletePayloadSpec => [.payloadSpecs]
  | .getConfig | .insertConfig | .updateConfig | .deleteConfig => [.configs]
  | .getSecret | .insertSecret | .updateSecret | .deleteSecret => [.secrets]
  | .getEndpoint | .insertEndpoint | .updateEndpoint | .deleteEndpoint | .hasDependentEndpoints => [.endpoints]
  | .getJob | .getByIdempotency | .getVersions | .listJobs | .hasActiveJobs | .insertJob | .cancelJob | .retireJob | .replaceJob
  | .retireExpired => [.jobs]
  | .getExecution | .getExecutionForJob | .listForJob | .insertExecution | .claim | .completeSuccess | .completeRetry | .completeFailed
  | .cancelExecution | .cancelPending => [.executions]
  | .insertAttempt => [.attempts]
  | .insertLog | .listLogs => [.executionLogs]
  | .schedule | .unschedule | .cronCommand => []

def Statement.relations (tablePrefix : String) (stmt : Statement) : List String :=
  stmt.tables.filterMap fun tb => tb.relation.map (tbl tablePrefix)

/-- The relation and the row that the command of an entry inserts. -/
def Catalog.tick (c : Catalog) (cmd : CronCommand) (fresh : Uuid) (now : Int) : Option ((String × String) × Execution) := do
  let j ← c.jobs cmd.schemaName (tbl cmd.tablePrefix "jobs") cmd.jobId
  let ep ← c.endpoints cmd.schemaName (tbl cmd.tablePrefix "endpoints") j.endpoint
  let maxAttempts ← Jobs.cronMaxAttempts ep.retryPolicy
  if c.hasRelation cmd.schemaName (tbl cmd.tablePrefix "executions") && j.status = .active && Jobs.inWindow now j then
    return ((cmd.schemaName, tbl cmd.tablePrefix "executions"),
      Jobs.newExecution fresh now j .queued (Jobs.cronIdempotencyKey j.jobId now) j.input now maxAttempts)
  else none

/-- The relation that a worker claims from. -/
def claimedFrom (tablePrefix schema : String) : String × String := (schema, tbl tablePrefix "executions")

/-- The API and the worker find their tables in the schema and the reaper in these tables, and the
execution of a tick is one that a worker claims. -/
structure NamesAgree (tablePrefix : String) (c : Catalog) (schema : String) (id : Uuid) : Prop where
  tables : ∀ (stmt : Statement), ∀ n ∈ stmt.relations tablePrefix, c.hasRelation schema n = true
  endpoint : (c.endpoints schema (tbl tablePrefix "endpoints") Workspaces.reaperEndpointName).isSome = true
  job : (c.jobs schema (tbl tablePrefix "jobs") id.val).isSome = true
  tick : ∃ entry, c.cronJob (Jobs.cronJobName schema id.val) = some entry ∧ ∀ fresh now, ∃ e,
    c.tick entry.command fresh now = some (claimedFrom tablePrefix schema, e) ∧ Executions.eligible now e = true

theorem tbl_empty (name : String) : tbl "" name = name := by simp [tbl]

theorem table_provisioned {tb : Table} {n : String} (h : tb.relation = some n) : n ∈ relationNames "" := by
  cases tb <;> cases h <;> decide

theorem relations_provisioned (stmt : Statement) : ∀ n ∈ stmt.relations "", n ∈ relationNames "" := by
  intro n hn
  obtain ⟨tb, _, hrel⟩ := List.mem_filterMap.mp hn
  obtain ⟨name, hname, rfl⟩ := Option.map_eq_some_iff.mp hrel
  rw [tbl_empty]
  exact table_provisioned hname

/-- What the statement of a tick inserts for the reaper. -/
theorem tick_reaper {c c₀ : Catalog} {schema expression : String} {id : Uuid} (h : Installed c₀ c schema expression id)
    (fresh : Uuid) (now : Int) : ∃ e, c.tick (Jobs.buildCronCommand "" schema id.val) fresh now =
      some ((schema, "executions"), e) ∧ Executions.eligible now e = true := by
  obtain ⟨⟨names, hnames, has⟩, ⟨now₁, hep⟩, _, ⟨now₂, hjob⟩, _⟩ := h
  have table : c.hasRelation schema "executions" = true := by
    simp [Catalog.hasRelation, hnames, has "executions" (by decide)]
  refine ⟨Jobs.newExecution fresh now (Workspaces.reaperJob id now₂ expression) .queued (Jobs.cronIdempotencyKey id.val now)
    none now 1, ?_, ?_⟩
  · simp [Catalog.tick, Jobs.buildCronCommand, tbl_empty, hjob, hep, table, Workspaces.reaperEndpoint,
      Jobs.cronMaxAttempts, Workspaces.reaperJob, Jobs.newJob, Jobs.inWindow]
  · simp [Executions.eligible, Jobs.newExecution]

theorem tbl_eq {tablePrefix name : String} (h : tbl tablePrefix name = name) : tablePrefix = "" := by
  have hlen := congrArg String.length h
  simp only [tbl, String.length_append] at hlen
  exact String.length_eq_zero_iff.mp (by omega)

/-- The names agree exactly where the prefix is empty. -/
theorem table_names_agree (env : DbEnv) (accepts : String → Bool) (cronExpression orgRef name slug : String) (s : Server)
    (ms : List Occasion) (ws : Workspace)
    (created : (serveAll accepts (WorkspacesApi.create cronExpression orgRef name slug).run s ms).2 = some (.ok ws))
    (c : Catalog) (hc : c = (serveAll accepts (WorkspacesApi.create cronExpression orgRef name slug).run s ms).1.committed) :
    ∃ id : Uuid, s.committed.jobs ws.schemaName "jobs" id.val = none ∧
      (∃ now, c.jobs ws.schemaName "jobs" id.val = some (Workspaces.reaperJob id now cronExpression)) ∧
      (NamesAgree env.tablePrefix c ws.schemaName id ↔ env.tablePrefix = "") := by
  have runs : Tries (Served accepts fun _ _ _ => True) (Survives [] s fun _ _ _ => True) _ _
      (WorkspacesApi.create cronExpression orgRef name slug) s := apiCreate_runs orgRef
  rcases serveAll_holds runs (undisturbed_all _ _ _) with ⟨r, hr, hpost⟩ | ⟨o, hnone, _⟩
  · rw [created] at hr
    cases hr
    obtain ⟨⟨id, installed⟩, _⟩ := hpost
    rw [← hc] at installed
    have installed' := installed
    obtain ⟨⟨names, hnames, has⟩, ⟨now, hep⟩, hnew, hjob, hentry⟩ := installed'
    refine ⟨id, hnew, hjob, fun agree => ?_, fun hp => ?_⟩
    · obtain ⟨entry, hentry', ticks⟩ := agree.tick
      rw [hentry] at hentry'
      cases hentry'
      obtain ⟨e, he, _⟩ := ticks id 0
      obtain ⟨e', he', _⟩ := tick_reaper installed id 0
      rw [he'] at he
      have htable : tbl env.tablePrefix "executions" = "executions" := by
        have hpair := congrArg Prod.fst (Option.some.inj he)
        exact (congrArg Prod.snd hpair).symm
      exact tbl_eq htable
    · obtain ⟨now', hjob'⟩ := hjob
      rw [hp]
      refine ⟨fun stmt n hn => ?_, ?_, ?_, _, hentry, fun fresh now => ?_⟩
      · simp [Catalog.hasRelation, hnames, has n (relations_provisioned stmt n hn)]
      · rw [tbl_empty, hep]
        rfl
      · rw [tbl_empty, hjob']
        rfl
      · rw [claimedFrom, tbl_empty]
        exact tick_reaper installed fresh now
  · rw [created] at hnone
    cases hnone

section sample

/-- A workspace created where no prefix is set. -/
theorem table_names_agree_plain : ∃ ws id, (serveAll onTheMinute
      (WorkspacesApi.create "*/15 * * * *" "acme" "Team" "team").run (Site.start [acme]).server
        (postUntil 1 33 []).moments).2 = some (.ok ws) ∧
    NamesAgree "" (serveAll onTheMinute (WorkspacesApi.create "*/15 * * * *" "acme" "Team" "team").run
      (Site.start [acme]).server (postUntil 1 33 []).moments).1.committed ws.schemaName id := by
  have created : ((serveAll onTheMinute (WorkspacesApi.create "*/15 * * * *" "acme" "Team" "team").run
      (Site.start [acme]).server (postUntil 1 33 []).moments).2.bind Except.toOption).isSome = true := by decide +kernel
  obtain ⟨ws, hws⟩ := Option.isSome_iff_exists.mp created
  obtain ⟨r, hr, hok⟩ := Option.bind_eq_some_iff.mp hws
  cases r with
  | error e => cases hok
  | ok ws' =>
    cases hok
    obtain ⟨id, _, _, agree⟩ := table_names_agree ⟨"", by decide⟩ _ _ _ _ _ _ _ _ hr _ rfl
    exact ⟨ws, id, hr, agree.mpr rfl⟩

/-- With the prefix `sched_` not one table of the API and the workers exists. -/
theorem prefixed_tables_missing : ∃ ws, (serveAll onTheMinute
      (WorkspacesApi.create "*/15 * * * *" "acme" "Team" "team").run (Site.start [acme]).server
        (postUntil 1 33 []).moments).2 = some (.ok ws) ∧
    validateTablePrefix "sched_" = true ∧ ∀ (tb : Table) n, tb.relation = some n →
      (serveAll onTheMinute (WorkspacesApi.create "*/15 * * * *" "acme" "Team" "team").run
        (Site.start [acme]).server (postUntil 1 33 []).moments).1.committed.hasRelation ws.schemaName (tbl "sched_" n) =
          false := by
  have created : ((serveAll onTheMinute (WorkspacesApi.create "*/15 * * * *" "acme" "Team" "team").run
      (Site.start [acme]).server (postUntil 1 33 []).moments).2.bind Except.toOption).map Workspace.schemaName =
        some (buildSchemaName (sampleId 1) "team") := by decide +kernel
  obtain ⟨ws, hws, hname⟩ := Option.map_eq_some_iff.mp created
  obtain ⟨r, hr, hok⟩ := Option.bind_eq_some_iff.mp hws
  have missing : (Table.all.filterMap Table.relation).all (fun n => !(serveAll onTheMinute
      (WorkspacesApi.create "*/15 * * * *" "acme" "Team" "team").run (Site.start [acme]).server
        (postUntil 1 33 []).moments).1.committed.hasRelation (buildSchemaName (sampleId 1) "team") (tbl "sched_" n)) =
          true := by decide +kernel
  cases r with
  | error e => cases hok
  | ok ws' =>
    cases hok
    refine ⟨ws, hr, by decide, fun tb n hn => ?_⟩
    rw [hname]
    have listed : n ∈ Table.all.filterMap Table.relation := List.mem_filterMap.mpr ⟨tb, Pg.mem_tables tb, hn⟩
    simpa using List.all_eq_true.mp missing n listed

end sample

end Invokr

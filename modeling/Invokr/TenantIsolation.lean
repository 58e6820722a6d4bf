import Invokr.Footprints
import Invokr.Recollection
import Invokr.RequestCalls
import Invokr.Ticks

namespace Invokr

open TxLib

variable {env : Setup}

/-- The rows of a workspace: those of its schema, and its entries in pg_cron's table. -/
def workspaceRows (schemaName : String) : Footprint Pg := fun tb k =>
  if tb = .cronJob then ∃ jobId, k = Jobs.cronKey (Jobs.cronJobName schemaName jobId) else k.schema = schemaName

/-- The call writes rows of the workspace only. -/
abbrev Stays (schemaName : String) : Op Pg → Prop := Op.Confined (workspaceRows schemaName)

theorem workspaceRows_schema {schemaName : String} {tb : Table} {k : Key} (h : tb ≠ .cronJob) (hk : k.schema = schemaName) :
    workspaceRows schemaName tb k := by
  rw [workspaceRows, if_neg h]
  exact hk

theorem stays_serves (schemaName : String) : Serves (Stays schemaName) schemaName := by
  have named : ∀ {tb : Table}, byName tb = true → tb ≠ .cronJob := by
    rintro tb hb rfl
    cases hb
  have neutral : Neutral (Stays schemaName) :=
    ⟨fun _ _ => trivial, trivial, trivial, fun _ => trivial, trivial, trivial⟩
  refine ⟨neutral, ?_, ?_, ?_, ?_, ?_, ?_, ?_, ?_, ?_⟩
  · exact fun stmt build h id now => workspaceRows_schema (by decide) (h id now)
  · exact fun stmt k keep patch h => workspaceRows_schema (by decide) h
  · exact fun stmt orIgnore build h id now => workspaceRows_schema (by decide) (h id now).1
  · exact fun stmt k keep h _ => workspaceRows_schema (by decide) h
  · exact fun jobId row => ⟨jobId, rfl⟩
  · exact fun jobId => ⟨jobId, rfl⟩
  · exact fun stmt tb build hb h id now => workspaceRows_schema (named hb) (h id now).1
  · exact fun stmt tb k keep patch hb h _ => workspaceRows_schema (named hb) h
  · exact fun stmt tb k hb h => workspaceRows_schema (named hb) h

/-- What a tick has read of the entries of its name. -/
def seenEntry (jobName : String) (l : List (Exchange Pg)) (entry : CronEntry) : Prop :=
  ∃ x ∈ l, x.rows .cronJob (Jobs.cronKey jobName) = some entry

/-- A tick writes rows of the workspace in its entry's command only. -/
def TickStays (jobName : String) (l : List (Exchange Pg)) : Footprint Pg := fun tb k =>
  ∃ entry, seenEntry jobName l entry ∧ workspaceRows entry.command.schemaName tb k

theorem ticks_stay (jobName : String) : (cronTick jobName).run.Holds Recalls
    (fun m o => o.Confined (TickStays jobName m.2)) (fun _ _ => True) (none, []) := by
  have start : Outside [] ((none, []) : Memory Pg) := ⟨rfl, List.prefix_refl _⟩
  have committed : ∀ m₁ : Memory Pg, Tries Recalls (fun m (o : Op Pg) => o.Confined (TickStays jobName m.2)) (fun _ _ => True)
      (fun _ _ => True) (commitTx : Try Pg DbError Unit) m₁ := fun m₁ => ⟨trivial, fun r m₂ _ => by cases r <;> trivial⟩
  have ended : ∀ m₁ : Memory Pg, (rollbackTx : Program Pg Unit).Holds Recalls
      (fun m (o : Op Pg) => o.Confined (TickStays jobName m.2)) (fun _ _ => True) m₁ := fun m₁ =>
    recalls_rollback (List.prefix_refl _) trivial fun _ _ => trivial
  have walk : Tries Recalls (fun m (o : Op Pg) => o.Confined (TickStays jobName m.2)) (fun _ _ => True) (fun _ _ => True)
      (cronTick jobName) (none, []) := by
    refine tries_transaction (recalls_begin start trivial (fun m₁ now hs _ _ => ?_) fun _ _ _ _ => trivial)
    refine tries_bind (recalls_query hs (List.prefix_refl _) trivial (fun m₂ D keys e hs₂ _ _ _ made => ?_) fun e m₂ _ _ => ended m₂)
    split
    next => exact tries_pure (committed m₂)
    next entry hentry =>
      have seen : ∀ {l : List (Exchange Pg)}, m₂.2 <+: l → seenEntry jobName l entry := fun le => ⟨_, le.subset made, hentry⟩
      refine Prog.Holds.mono (recalls_uses (serves_runCronCommand entry.command (stays_serves _)) fun m₃ o le ho => ?_) fun r m₃ _ => ?_
      · exact Op.Confined.mono ho fun tb k hk => ⟨entry, seen le, hk⟩
      · cases r with
        | ok _ => exact committed m₃
        | error e => exact ended m₃
  refine Prog.Holds.mono walk fun r _ _ => trivial

/-- The workspaces a request is made in. A tick runs the command of an entry that pg_cron has had under
its name. -/
def Request.ServedIn (acts : List (Action (service env))) : Request env → String → Prop
  | .tick jobName, schemaName => ∃ before entry, before <+: acts ∧
      (after before).world.rows .cronJob (Jobs.cronKey jobName) = some entry ∧ entry.command.schemaName = schemaName
  | req, schemaName => req.workspace = some schemaName

/-- The rows that a request may write by what it has read. A worker serves all workspaces. -/
def Request.scope (l : List (Exchange Pg)) : Request env → Footprint Pg
  | .work _ _ => fun _ _ => True
  | .tick jobName => TickStays jobName l
  | req => fun tb k => ∃ schemaName, req.workspace = some schemaName ∧ workspaceRows schemaName tb k

theorem scoped_all (req : Request env) :
    req.program.Holds Recalls (fun m o => o.Confined (req.scope m.2)) (fun _ _ => True) (none, []) := by
  have stays : ∀ schemaName, req.workspace = some schemaName →
      req.program.Holds Recalls (fun m o => o.Confined (req.scope m.2)) (fun _ _ => True) (none, []) := by
    intro schemaName h
    refine (recalls_uses (serves_program (stays_serves schemaName) h) fun m o _ ho => ho.mono fun tb k hk => ?_).mono fun _ _ _ => trivial
    cases req <;> first | exact ⟨schemaName, h, hk⟩ | cases h
  cases hw : req.workspace with
  | some schemaName => exact stays schemaName hw
  | none =>
    cases req with
    | tick jobName => exact Prog.holds_bind.mpr ((ticks_stay jobName).mono fun _ _ _ => trivial)
    | work workerId schemas =>
      refine (Prog.holds_true _ _).pre_mono fun m o _ => ?_
      cases o <;> first | trivial | exact fun _ _ => trivial
    | _ => cases hw

theorem scope_served {acts : List (Action (service env))} {t : Nat} {req : Request env} {l : List (Exchange Pg)} {tb : Table}
    {k : Key} (own : isWork req = false) (made : ∀ x ∈ l, Made acts t req x) (h : req.scope l tb k) :
    ∃ schemaName, req.ServedIn acts schemaName ∧ workspaceRows schemaName tb k := by
  cases req with
  | work => cases own
  | tick jobName =>
    obtain ⟨entry, ⟨x, hx, hrow⟩, hk⟩ := h
    obtain ⟨b, le, _, _, hrows⟩ := made x hx
    rw [← hrows] at hrow
    exact ⟨_, ⟨b, entry, (List.prefix_append b _).trans le, hrow, rfl⟩, hk⟩
  | _ => exact h

end Invokr

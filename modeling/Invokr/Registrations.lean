import Invokr.UsableWorkspaces

namespace Invokr

open TxLib

variable {accepts : String → Bool} {α : Type}

namespace OrganizationsDb

def create (c : Catalog) (fresh : Uuid) (name slug : String) : Except DbError (Catalog × Organization) :=
  let org : Organization := ⟨fresh, name, slug, .active⟩
  if c.organizations.any fun o => o.orgId.val = fresh.val || o.slug = slug then .error .unique
  else .ok ({ c with organizations := c.organizations ++ [org] }, org)

end OrganizationsDb

namespace OrganizationsApi

def createError (slug : String) (e : DbError) : AppError :=
  if isConstraint e then .conflict ("Organization with slug '" ++ slug ++ "' already exists") else fromDb e

/-- The handler makes one statement. -/
def create (s : Server) (m : Occasion) (name slug : String) : Server × Except AppError Organization :=
  if !validateSlug slug then (s, .error (WorkspacesApi.invalidSlug slug))
  else
    match m.fate, OrganizationsDb.create s.committed m.fresh name slug with
    | .served, .ok (c, org) => ({ s with committed := c }, .ok org)
    | .served, .error e => (s, .error (createError slug e))
    | .rejected, _ => (s, .error (createError slug .rejected))
    | .lost true, .ok (c, _) => ({ s with committed := c }, .error (createError slug .closed))
    | .lost _, _ => (s, .error (createError slug .closed))

end OrganizationsApi

/-- A request for a new organization or a new workspace. -/
inductive Registration where
  | organization (m : Occasion) (name slug : String)
  | workspace (p : Post)

def Server.register (accepts : String → Bool) (cronExpression : String) (s : Server) : Registration → Server
  | .organization m name slug => (OrganizationsApi.create s m name slug).1
  | .workspace p => (serveAll accepts (p.program cronExpression) s p.moments).1

def Server.registerAll (accepts : String → Bool) (cronExpression : String) (s : Server) (rs : List Registration) : Server :=
  rs.foldl (Server.register accepts cronExpression) s

def Server.empty : Server := ⟨.empty [], .empty []⟩

/-- A workspace but for its schema's version. -/
def Workspace.columns (w : Workspace) : Workspace := { w with schemaVersion := 0 }

/-- The organizations and the workspaces of a catalog. -/
def Catalog.registry (c : Catalog) : List Organization × List Workspace := (c.organizations, c.workspaces.map Workspace.columns)

/-- The catalog has a workspace more, which collides with no other. -/
def Catalog.Gains (c : Catalog) (slug : String) (r : List Organization × List Workspace) : Prop :=
  ∃ fresh : Uuid, ∃ org ∈ c.organizations, ∃ name,
    (∀ w ∈ c.workspaces, w.workspaceId ≠ fresh.val ∧ ¬(w.orgId = org.orgId.val ∧ w.slug = slug)) ∧
    r = (c.organizations, c.workspaces.map Workspace.columns ++
      [⟨fresh.val, org.orgId.val, name, slug, buildSchemaName org.orgId.val slug, .active, 0⟩])

/-- The control tables `r` are those of the catalog, or they have a workspace more. -/
def Catalog.Becomes (c : Catalog) (slug : String) (r : List Organization × List Workspace) : Prop :=
  r = c.registry ∨ (validateSlug slug = true ∧ c.Gains slug r)

section walk

variable {s : Server} {r : List Organization × List Workspace}

/-- The statements that leave both control tables alone. -/
def CatalogOp.keeps : CatalogOp → Prop
  | .panic => False
  | .insertWorkspace .. => False
  | .commit => False
  | _ => True

/-- The statements of an open transaction. -/
def CatalogOp.inside : CatalogOp → Prop
  | .insertEndpoint .. => True
  | .insertJob .. => True
  | .schedule .. => True
  | _ => False

theorem serve_exec {o : CatalogOp} {m : Occasion} {s s' : Server} {x : Except DbError o.Reply}
    (h : o.serve accepts s m = (s', x)) : s' = s ∨ ∃ y, o.exec accepts m.fresh m.now s = .ok (s', y) := by
  unfold CatalogOp.serve at h
  split at h
  next he =>
    cases h
    exact Or.inr ⟨_, he⟩
  next =>
    cases h
    exact Or.inl rfl
  next =>
    cases h
    exact Or.inl rfl
  next he =>
    cases h
    exact Or.inr ⟨_, he⟩
  next =>
    cases h
    exact Or.inl rfl

theorem versioned_registry (c : Catalog) (workspaceId : String) (version : Int) :
    Catalog.registry { c with workspaces := c.workspaces.map fun w =>
      if w.workspaceId = workspaceId then { w with schemaVersion := version } else w } = c.registry := by
  simp only [Catalog.registry, List.map_map]
  refine congrArg (Prod.mk _) (List.map_congr_left fun w _ => ?_)
  dsimp only [Function.comp_apply]
  split
  next => rfl
  next => rfl

theorem keeps_registry {o : CatalogOp} {m : Occasion} {s s' : Server} {x : Except DbError o.Reply} (ho : o.keeps)
    (h : o.serve accepts s m = (s', x)) : s'.committed.registry = s.committed.registry := by
  rcases serve_exec h with rfl | ⟨y, he⟩
  · rfl
  · cases o with
    | panic => exact ho.elim
    | insertWorkspace => exact ho.elim
    | commit => exact ho.elim
    | setSchemaVersion workspaceId version =>
      cases he
      exact versioned_registry ..
    | ddl schemaName d =>
      simp only [CatalogOp.exec] at he
      split at he
      next => cases he
      next names hn =>
        cases hd : d.apply names with
        | error e =>
          rw [hd] at he
          cases he
        | ok names' =>
          rw [hd] at he
          cases he
          rfl
    | getWorkspace workspaceId =>
      simp only [CatalogOp.exec] at he
      split at he
      next => cases he
      next =>
        cases he
        rfl
    | insertEndpoint schemaName build =>
      simp only [CatalogOp.exec] at he
      cases hi : s.pending.insertEndpoint schemaName (build m.now) with
      | error e =>
        rw [hi] at he
        cases he
      | ok c =>
        rw [hi] at he
        cases he
        rfl
    | insertJob schemaName build =>
      simp only [CatalogOp.exec] at he
      cases hi : s.pending.insertJob schemaName (build m.fresh m.now) with
      | error e =>
        rw [hi] at he
        cases he
      | ok c =>
        rw [hi] at he
        cases he
        rfl
    | schedule jobName entry =>
      simp only [CatalogOp.exec] at he
      split at he
      next =>
        cases he
        rfl
      next => cases he
    | _ =>
      cases he
      rfl

theorem inside_registry {o : CatalogOp} {m : Occasion} {s s' : Server} {x : Except DbError o.Reply} (ho : o.inside)
    (h : o.serve accepts s m = (s', x)) :
    s'.committed.registry = s.committed.registry ∧ s'.pending.registry = s.pending.registry := by
  refine ⟨?_, ?_⟩
  · refine keeps_registry ?_ h
    cases o with
    | insertEndpoint => trivial
    | insertJob => trivial
    | schedule => trivial
    | _ => exact ho.elim
  · rcases serve_exec h with rfl | ⟨y, he⟩
    · rfl
    · cases o with
      | insertEndpoint schemaName build =>
        simp only [CatalogOp.exec] at he
        cases hi : s.pending.insertEndpoint schemaName (build m.now) with
        | error e =>
          rw [hi] at he
          cases he
        | ok c =>
          rw [hi] at he
          cases he
          simp only [Catalog.insertEndpoint] at hi
          split at hi
          next => cases hi
          next =>
            split at hi
            next => cases hi
            next =>
              cases hi
              rfl
      | insertJob schemaName build =>
        simp only [CatalogOp.exec] at he
        cases hi : s.pending.insertJob schemaName (build m.fresh m.now) with
        | error e =>
          rw [hi] at he
          cases he
        | ok c =>
          rw [hi] at he
          cases he
          simp only [Catalog.insertJob] at hi
          split at hi
          next => cases hi
          next =>
            split at hi
            next => cases hi
            next =>
              split at hi
              next => cases hi
              next =>
                cases hi
                rfl
      | schedule jobName entry =>
        simp only [CatalogOp.exec] at he
        split at he
        next =>
          cases he
          rfl
        next => cases he
      | _ => exact ho.elim

variable {P : List Organization × List Workspace → Prop} {ε : Type}

/-- Both control tables keep to `P`. -/
abbrev Registers (accepts : String → Bool) (P : List Organization × List Workspace → Prop) (x : ExceptT ε Setting α) (s : Server) :
    Prop :=
  Tries (Served accepts fun _ _ _ => True) (fun s' _ => P s'.committed.registry) (fun _ s' => P s'.committed.registry)
    (fun _ s' => P s'.committed.registry) x s

theorem registers_keeps {x : ExceptT ε Setting α} (hx : x.run.Uses CatalogOp.keeps) (h : P s.committed.registry) :
    Registers accepts P x s := by
  have hold : x.run.Holds (Served accepts fun _ _ _ => True) (fun s' _ => P s'.committed.registry)
      (fun _ s' => P s'.committed.registry) s :=
    hx.holds h (fun _ _ _ h => h) fun s₁ o r s₂ ho hP ⟨m, _, hserve⟩ => by
      rw [keeps_registry ho hserve]
      exact hP
  refine Prog.Holds.mono hold fun r s' hr => ?_
  cases r with
  | ok a => exact hr
  | error e => exact hr

theorem registers_exec {o : CatalogOp} {ok : o.Reply → Server → Prop} (h : P s.committed.registry)
    (done : ∀ m : Occasion, ∀ s' r, o.exec accepts m.fresh m.now s = .ok (s', r) → P s'.committed.registry ∧ ok r s') :
    Tries (Served accepts fun _ _ _ => True) (fun s' _ => P s'.committed.registry) ok (fun _ s' => P s'.committed.registry)
      (sql o) s :=
  tries_sql h (fun m s' r _ he => (done m s' r he).2) (fun _ _ _ _ _ _ => h) (fun _ _ _ _ _ _ => h)
    fun m s' r _ _ he => (done m s' r he).1

theorem registers_sql (o : CatalogOp) (ho : o.keeps) (h : P s.committed.registry) : Registers accepts P (sql o) s :=
  registers_keeps (Prog.uses_perform.mpr ho) h

theorem registers_panic {ok : Unit → Server → Prop} (h : P s.committed.registry) :
    Tries (Served accepts fun _ _ _ => True) (fun s' _ => P s'.committed.registry) ok (fun _ s' => P s'.committed.registry)
      (sql .panic) s :=
  registers_exec h fun _ _ _ he => nomatch he

theorem registers_inSchema {schemaName : String} (o : CatalogOp) (ho : o.keeps) (h : P s.committed.registry) :
    Registers accepts P (inSchema schemaName o) s := by
  unfold inSchema
  split
  next => exact tries_bind (registers_panic h)
  next => exact registers_sql o ho h

theorem registers_ddl {schemaName : String} {ds : List Ddl} (h : P s.committed.registry) :
    Registers accepts P (WorkspacesDb.applyDdl schemaName ds) s := by
  refine registers_keeps ?_ h
  induction ds with
  | nil => trivial
  | cons d ds ih => exact uses_try_bind (Prog.uses_perform.mpr trivial) fun _ => ih

theorem registers_schema {schemaName tablePrefix : String} (h : P s.committed.registry) :
    Registers accepts P (WorkspacesDb.provisionSchema schemaName tablePrefix) s := by
  refine tries_bind ((registers_sql (.createSchema _) trivial h).mono (fun _ s₁ h₁ => ?_) fun _ _ h => h)
  refine tries_bind ((registers_inSchema .connect trivial h₁).mono (fun _ s₂ h₂ => ?_) fun _ _ h => h)
  refine tries_bind ((registers_ddl h₂).mono (fun _ s₃ h₃ => ?_) fun _ _ h => h)
  exact registers_sql .resetSearchPath trivial h₃

/-- What the transaction of the reaper commits. -/
theorem registers_pending {schemaName expression : String} (h : P s.committed.registry) (hp : P s.pending.registry) :
    Registers accepts P (do
      sql (.insertEndpoint schemaName Workspaces.reaperEndpoint)
      let jobId ← sql (.insertJob schemaName fun id now => Workspaces.reaperJob id now expression)
      sql (.schedule (Jobs.cronJobName schemaName jobId) ⟨expression, Jobs.buildCronCommand "" schemaName jobId⟩)
      sql .commit) s := by
  have inside : ∀ {o : CatalogOp} {s₁ : Server} {ok : o.Reply → Server → Prop}, o.inside → P s₁.committed.registry →
      P s₁.pending.registry → (∀ r s₂, P s₂.committed.registry → P s₂.pending.registry → ok r s₂) →
      Tries (Served accepts fun _ _ _ => True) (fun s' _ => P s'.committed.registry) ok (fun _ s' => P s'.committed.registry)
        (sql o) s₁ := by
    intro o s₁ ok ho h₁ hp₁ next
    refine ⟨h₁, fun r s₂ ⟨m, _, hserve⟩ => ?_⟩
    obtain ⟨hc, hq⟩ := inside_registry ho hserve
    have h₂ : P s₂.committed.registry := hc ▸ h₁
    cases r with
    | ok a => exact next a s₂ h₂ (hq ▸ hp₁)
    | error e => exact h₂
  refine tries_bind (inside trivial h hp fun _ s₁ h₁ hp₁ => ?_)
  refine tries_bind (inside trivial h₁ hp₁ fun jobId s₂ h₂ hp₂ => ?_)
  refine tries_bind (inside trivial h₂ hp₂ fun _ s₃ h₃ hp₃ => ?_)
  refine registers_exec h₃ fun m s' r he => ?_
  cases he
  exact ⟨hp₃, hp₃⟩

theorem registers_reaper {schemaName expression : String} (h : P s.committed.registry) :
    Registers accepts P (WorkspacesDb.provisionReaper schemaName expression) s := by
  refine tries_bind ?_
  unfold inSchema
  split
  next => exact tries_bind (registers_panic h)
  next =>
    refine registers_exec h fun m s' r he => ?_
    cases he
    exact ⟨h, registers_pending h h⟩

end walk

theorem insertWorkspace_gains {s s' : Server} {fresh : Uuid} {now : Int} {org : Organization} {name slug : String}
    {ws : Workspace} (horg : org ∈ s.committed.organizations)
    (h : (CatalogOp.insertWorkspace org.orgId.val name slug (buildSchemaName org.orgId.val slug)).exec accepts fresh now s =
      .ok (s', ws)) : s.committed.Gains slug s'.committed.registry := by
  simp only [CatalogOp.exec, Catalog.insertWorkspace] at h
  split at h
  next => cases h
  next hclear =>
    split at h
    next =>
      cases h
      refine ⟨fresh, org, horg, name, fun w hw => ?_, ?_⟩
      · have hno : ¬_ := fun h => hclear (List.any_eq_true.mpr ⟨w, hw, h⟩)
        simp only [Bool.or_eq_true, Bool.and_eq_true, decide_eq_true_eq, not_or] at hno
        exact hno.1
      · simp [Catalog.registry, Workspace.columns]
    next => cases h

/-- What creating a workspace makes of the control tables, also when it fails or the process dies. -/
theorem registers_workspace {s : Server} {cronExpression orgRef name slug : String} :
    Registers accepts (s.committed.Becomes slug) (WorkspacesApi.create cronExpression orgRef name slug) s := by
  have start : s.committed.Becomes slug s.committed.registry := Or.inl rfl
  cases hslug : validateSlug slug with
  | false =>
    rw [create_refuses hslug]
    exact tries_throw start
  | true =>
    rw [create_goes hslug]
    refine tries_bind (tries_adapt (registers_exec start fun m s₁ found h₁ => ?_))
    cases h₁
    refine ⟨start, ?_⟩
    cases hfound : s.committed.organization orgRef with
    | none => exact tries_throw start
    | some org =>
      have horg := organization_mem hfound
      have creates : WorkspacesDb.create org.orgId.val name slug (buildSchemaName org.orgId.val slug) cronExpression =
          WorkspacesDb.insertAndProvision org.orgId.val name slug (buildSchemaName org.orgId.val slug) cronExpression := by
        simp [WorkspacesDb.create, buildSchemaName_valid org.orgId hslug]
      change Tries _ _ _ _ (ExceptT.adapt (WorkspacesApi.createError slug) (WorkspacesDb.create _ _ _ _ _)) _
      rw [creates]
      refine tries_adapt (tries_bind (registers_exec start fun m s₁ ws h₁ => ?_))
      have gains : s.committed.Becomes slug s₁.committed.registry := Or.inr ⟨hslug, insertWorkspace_gains horg h₁⟩
      refine ⟨gains, ?_⟩
      refine tries_bind ((registers_schema gains).mono (fun _ s₂ h₂ => ?_) fun _ _ h => h)
      refine tries_bind ((registers_reaper h₂).mono (fun _ s₃ h₃ => ?_) fun _ _ h => h)
      refine tries_bind ((registers_sql (.setSchemaVersion ws.workspaceId 1) trivial h₃).mono (fun _ s₄ h₄ => ?_) fun _ _ h => h)
      exact registers_sql (.getWorkspace ws.workspaceId) trivial h₄

end Invokr

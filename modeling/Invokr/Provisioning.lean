import Invokr.Catalog
import Invokr.Agreement

namespace Invokr

open TxLib

variable {accepts : String → Bool} {allow : Server → CatalogOp → Option Occasion → Prop} {α : Type}

section setting

/-- A statement that finds one of the moments `allow` names. -/
def Served (accepts : String → Bool) (allow : Server → CatalogOp → Option Occasion → Prop) (s : Server) (o : CatalogOp)
    (r : Except DbError o.Reply) (s' : Server) : Prop := ∃ m, allow s o (some m) ∧ o.serve accepts s m = (s', r)

/-- Every statement of a run finds a moment that `allow` names, and so does its end. -/
def Undisturbed (accepts : String → Bool) (allow : Server → CatalogOp → Option Occasion → Prop) :
    Setting α → Server → List Occasion → Prop
  | .ret _, _, _ => True
  | .call o _, s, [] => allow s o none
  | .call o next, s, m :: ms =>
    allow s o (some m) ∧ Undisturbed accepts allow (next (o.serve accepts s m).2) (o.serve accepts s m).1 ms

theorem undisturbed_all (p : Setting α) (s : Server) (ms : List Occasion) : Undisturbed accepts (fun _ _ _ => True) p s ms := by
  induction p generalizing s ms with
  | ret a => trivial
  | call o next ih =>
    cases ms with
    | nil => trivial
    | cons m ms => exact ⟨trivial, ih _ _ _⟩

/-- What a program guarantees of its statements holds of its runs. -/
theorem serveAll_holds {p : Setting α} {pre : Server → CatalogOp → Prop} {post : α → Server → Prop} {s : Server}
    {ms : List Occasion} (h : p.Holds (Served accepts allow) pre post s) (calm : Undisturbed accepts allow p s ms) :
    (∃ a, (serveAll accepts p s ms).2 = some a ∧ post a (serveAll accepts p s ms).1) ∨
      ∃ o, (serveAll accepts p s ms).2 = none ∧ pre (serveAll accepts p s ms).1 o ∧
        (o.isPanic = true ∨ allow (serveAll accepts p s ms).1 o none) := by
  induction p generalizing s ms with
  | ret a => exact Or.inl ⟨a, rfl, h⟩
  | call o next ih =>
    cases ms with
    | nil => exact Or.inr ⟨o, rfl, h.1, Or.inr calm⟩
    | cons m ms =>
      rw [serveAll]
      split
      next hpanic => exact Or.inr ⟨o, rfl, h.1, Or.inl hpanic⟩
      next => exact ih _ (h.2 _ _ ⟨m, calm.1, rfl⟩) calm.2

/-- What a statement comes to, by its fate. -/
theorem tries_sql {o : CatalogOp} {pre : Server → CatalogOp → Prop} {ok : o.Reply → Server → Prop}
    {err : DbError → Server → Prop} {s : Server} (hpre : pre s o)
    (done : ∀ m s' r, allow s o (some m) → o.exec accepts m.fresh m.now s = .ok (s', r) → ok r s')
    (fails : ∀ m e e', allow s o (some m) → o.exec accepts m.fresh m.now s = .error e → e' = e ∨ e' = .closed → err e' s)
    (down : ∀ m e, allow s o (some m) → m.fate ≠ .served → m.fate ≠ .lost true → isConstraint e = false → err e s)
    (lost : ∀ m s' r, allow s o (some m) → m.fate = .lost true → o.exec accepts m.fresh m.now s = .ok (s', r) →
      err .closed s') : Tries (Served accepts allow) pre ok err (sql o) s := by
  refine ⟨hpre, fun r s' ⟨m, hallow, hserve⟩ => ?_⟩
  have hserve' : o.serve accepts s m = (s', r) := hserve
  unfold CatalogOp.serve at hserve'
  split at hserve'
  next _ _ s₁ r₁ hf hx =>
    cases hserve'
    exact done m _ _ hallow hx
  next _ _ e hf hx =>
    cases hserve'
    exact fails m _ _ hallow hx (Or.inl rfl)
  next _ _ hf =>
    cases hserve'
    exact down m _ hallow (by simp [hf]) (by simp [hf]) rfl
  next _ _ s₁ r₁ hf hx =>
    cases hserve'
    exact lost m _ _ hallow hf hx
  next _ _ executed hf hx =>
    cases hserve'
    cases executed with
    | false => exact down m _ hallow (by simp [hf]) (by simp [hf]) rfl
    | true =>
      cases he : o.exec accepts m.fresh m.now s with
      | ok out => exact (hx out.1 out.2 he rfl).elim
      | error e => exact fails m _ _ hallow he (Or.inr rfl)

theorem inSchema_valid {schemaName : String} (h : validateSchemaName schemaName = true) (o : CatalogOp) :
    inSchema schemaName o = sql o := by
  simp [inSchema, h]

end setting

section sparing

/-- The moments that leave no workspace half provisioned: between the commit of its row and that of
its reaper every statement is served. The identifier of the row is a new one. -/
def spared (s : Server) : CatalogOp → Option Occasion → Bool
  | .insertWorkspace .., m =>
    m.all fun m => m.fate ≠ .lost true && !s.committed.workspaces.any fun w => w.workspaceId = m.fresh.val
  | .createSchema _, m | .connect, m | .ddl .., m | .resetSearchPath, m | .begin, m | .insertEndpoint .., m
  | .insertJob .., m | .schedule .., m => m.any fun m => m.fate = .served
  | .commit, m => m.any fun m => m.fate = .served || m.fate = .lost true
  | _, _ => true

def Sparing (allow : Server → CatalogOp → Option Occasion → Prop) : Prop := ∀ s o m, allow s o m → spared s o m = true

/-- The statements that `spared` does not let the process die before. -/
def Critical (s : Server) (o : CatalogOp) : Prop := spared s o none = false ∧ o.isPanic = false

/-- A statement that has to be served. -/
theorem tries_critical {o : CatalogOp} {ok : o.Reply → Server → Prop} {Q : Prop} {s : Server} (critical : Critical s o)
    (only : ∀ m, spared s o (some m) = true → m.fate = .served)
    (done : ∀ fresh now s' r, o.exec accepts fresh now s = .ok (s', r) → ok r s')
    (fails : ∀ fresh now e, o.exec accepts fresh now s = .error e → Sparing allow → Q) :
    Tries (Served accepts allow) Critical ok (fun _ _ => Sparing allow → Q) (sql o) s := by
  refine tries_sql critical (fun m s' r _ => done m.fresh m.now s' r) (fun m e _ _ he _ => fails m.fresh m.now e he)
    (fun m _ hallow hne _ _ calm => ?_) fun m _ _ hallow hlost _ calm => ?_
  · exact (hne (only m (calm s o _ hallow))).elim
  · have := only m (calm s o _ hallow)
    rw [hlost] at this
    cases this

end sparing

section schema

variable {c : Catalog} {s : Server} {schemaName : String} {names names' : List String}

/-- The relations of `workspace_v1.sql`. -/
def relationNames (tablePrefix : String) : List String := (workspaceSchemaV1 tablePrefix).filterMap Ddl.relation

def withRelations (c : Catalog) (schemaName : String) (names : List String) : Catalog :=
  { c with relations := Function.update c.relations schemaName (some names) }

theorem Ddl.apply_grows {d : Ddl} (h : d.apply names = .ok names') :
    (∀ n ∈ names, n ∈ names') ∧ ∀ n, d.relation = some n → n ∈ names' := by
  cases d with
  | createExtension =>
    cases h
    exact ⟨fun _ hn => hn, fun _ hn => by cases hn⟩
  | createTable name indexes references =>
    simp only [Ddl.apply] at h
    split at h
    next hm =>
      cases h
      exact ⟨fun _ hn => hn, fun _ hn => by cases hn; exact hm⟩
    next =>
      split at h
      next =>
        cases h
        exact ⟨fun _ hn => List.mem_append_left _ hn, fun _ hn => by cases hn; simp⟩
      next => cases h
  | createIndex name table =>
    simp only [Ddl.apply] at h
    split at h
    next hm =>
      cases h
      exact ⟨fun _ hn => hn, fun _ hn => by cases hn; exact hm⟩
    next =>
      split at h
      next =>
        cases h
        exact ⟨fun _ hn => List.mem_append_left _ hn, fun _ hn => by cases hn; simp⟩
      next => cases h

theorem bind_ok {ε β γ : Type} {x : Except ε β} {f : β → Except ε γ} {c : γ} (h : (x >>= f) = .ok c) :
    ∃ b, x = .ok b ∧ f b = .ok c := by
  cases x with
  | error e => cases h
  | ok b => exact ⟨b, rfl, h⟩

/-- The statements leave every relation they name. -/
theorem ddl_relations {ds : List Ddl} (h : ds.foldlM Ddl.apply names = .ok names') :
    (∀ n ∈ names, n ∈ names') ∧ ∀ n ∈ ds.filterMap Ddl.relation, n ∈ names' := by
  induction ds generalizing names with
  | nil =>
    cases h
    exact ⟨fun _ hn => hn, fun _ hn => by cases hn⟩
  | cons d ds ih =>
    rw [List.foldlM_cons] at h
    obtain ⟨names₁, h₁, h⟩ := bind_ok h
    obtain ⟨grows, made⟩ := Ddl.apply_grows h₁
    obtain ⟨grows', made'⟩ := ih h
    refine ⟨fun n hn => grows' n (grows n hn), fun n hn => ?_⟩
    obtain ⟨d', hd', hrel⟩ := List.mem_filterMap.mp hn
    rcases List.mem_cons.mp hd' with rfl | hd'
    · exact grows' n (made n hrel)
    · exact made' n (List.mem_filterMap.mpr ⟨d', hd', hrel⟩)

theorem applyDdl_runs (ds : List Ddl) (h : s.committed = withRelations c schemaName names) :
    Tries (Served accepts allow) Critical
      (fun _ s' => ∃ names', ds.foldlM Ddl.apply names = .ok names' ∧ s'.committed = withRelations c schemaName names')
      (fun _ _ => Sparing allow → ∃ e, ds.foldlM Ddl.apply names = .error e) (WorkspacesDb.applyDdl schemaName ds) s := by
  induction ds generalizing s names with
  | nil => exact tries_pure ⟨names, rfl, h⟩
  | cons d ds ih =>
    have found : s.committed.relations schemaName = some names := by
      rw [h]
      exact Function.update_self ..
    refine tries_bind (tries_critical ⟨rfl, rfl⟩ (fun m hm => by simpa [spared] using hm) (fun _ _ s₁ r hx => ?_)
      fun _ _ e hx _ => ?_)
    · simp only [CatalogOp.exec, found] at hx
      obtain ⟨names₁, happly, hx⟩ := bind_ok hx
      cases hx
      have h₁ : ({ s.committed with relations := Function.update s.committed.relations schemaName (some names₁) } : Catalog) =
          withRelations c schemaName names₁ := by
        rw [h]
        simp [withRelations]
      refine (ih h₁).mono (fun _ s' ⟨names', hfold, hs'⟩ => ⟨names', ?_, hs'⟩) fun _ _ hfails calm => ?_
      · rw [List.foldlM_cons, happly]
        exact hfold
      · obtain ⟨e, he⟩ := hfails calm
        exact ⟨e, by rw [List.foldlM_cons, happly]; exact he⟩
    · simp only [CatalogOp.exec, found] at hx
      cases happly : d.apply names with
      | ok names₁ =>
        rw [happly] at hx
        cases hx
      | error e' => exact ⟨e', by rw [List.foldlM_cons, happly]; rfl⟩

/-- `workspace_v1.sql` goes through in an empty schema. -/
theorem ddl_fresh : ∀ e, (workspaceSchemaV1 "").foldlM Ddl.apply [] ≠ .error e := by
  have h : ((workspaceSchemaV1 "").foldlM Ddl.apply []).isOk = true := by decide +kernel
  intro e he
  rw [he] at h
  cases h

theorem provisionSchema_runs (valid : validateSchemaName schemaName = true) (h : s.committed = c) :
    Tries (Served accepts allow) Critical
      (fun _ s' => ∃ names, s'.committed = withRelations c schemaName names ∧ ∀ n ∈ relationNames "", n ∈ names)
      (fun _ _ => Sparing allow → c.relations schemaName ≠ none) (WorkspacesDb.provisionSchema schemaName "") s := by
  refine tries_bind (tries_critical ⟨rfl, rfl⟩ (fun m hm => by simpa [spared] using hm) (fun _ _ s₁ _ h₁ => ?_)
    fun _ _ e hx _ => by cases hx)
  have begins : s₁.committed = withRelations c schemaName ((c.relations schemaName).getD []) := by
    cases h₁
    rw [← h]
    rfl
  rw [inSchema_valid valid]
  refine tries_bind (tries_critical ⟨rfl, rfl⟩ (fun m hm => by simpa [spared] using hm) (fun _ _ s₂ _ h₂ => ?_)
    fun _ _ e hx _ => by cases hx)
  cases h₂
  refine tries_bind ((applyDdl_runs _ begins).mono (fun _ s₃ ⟨names, hfold, hs₃⟩ => ?_) fun _ _ hfails calm hnone => ?_)
  · refine tries_critical ⟨rfl, rfl⟩ (fun m hm => by simpa [spared] using hm) (fun _ _ s₄ _ h₄ => ?_)
      fun _ _ e hx _ => by cases hx
    cases h₄
    exact ⟨names, hs₃, (ddl_relations hfold).2⟩
  · obtain ⟨e, he⟩ := hfails calm
    rw [hnone] at he
    exact ddl_fresh e he

end schema

section reaper

variable {c c' : Catalog} {s : Server} {schemaName cronExpression : String}

/-- The schema has its tables and indexes and its reaper. -/
def Provisioned (c : Catalog) (schema : String) : Prop :=
  (∃ names, c.relations schema = some names ∧ ∀ n ∈ relationNames "", n ∈ names) ∧
    (∃ now, c.endpoints schema "endpoints" Workspaces.reaperEndpointName = some (Workspaces.reaperEndpoint now)) ∧
    ∃ (id : Uuid) (now : Int) (expression : String),
      c.jobs schema "jobs" id.val = some (Workspaces.reaperJob id now expression) ∧
      c.cronJob (Jobs.cronJobName schema id.val) = some ⟨expression, Jobs.buildCronCommand "" schema id.val⟩

/-- The catalog with what `provision_reaper` commits. -/
def withReaper (c : Catalog) (schema : String) (id : Uuid) (now now' : Int) (expression : String) : Catalog :=
  { c with
    endpoints := addRow c.endpoints schema "endpoints" Workspaces.reaperEndpointName (Workspaces.reaperEndpoint now)
    jobs := addRow c.jobs schema "jobs" id.val (Workspaces.reaperJob id now' expression)
    cronJob := Function.update c.cronJob (Jobs.cronJobName schema id.val)
      (some ⟨expression, Jobs.buildCronCommand "" schema id.val⟩) }

theorem provisioned_withReaper {schema : String} {names : List String} (id : Uuid) (now now' : Int)
    (expression : String) (h : c.relations schema = some names) (has : ∀ n ∈ relationNames "", n ∈ names) :
    Provisioned (withReaper c schema id now now' expression) schema := by
  refine ⟨⟨names, h, has⟩, ⟨now, ?_⟩, id, now', expression, ?_, ?_⟩
  · simp [withReaper, addRow]
  · simp [withReaper, addRow]
  · simp [withReaper]

theorem insertEndpoint_ok {schema : String} {e : Endpoint} (h : c.insertEndpoint schema e = .ok c') :
    c' = { c with endpoints := addRow c.endpoints schema "endpoints" e.name e } := by
  unfold Catalog.insertEndpoint at h
  split at h
  next => cases h
  next =>
    split at h
    next => cases h
    next =>
      cases h
      rfl

theorem insertJob_ok {schema : String} {j : Job} (h : c.insertJob schema j = .ok c') :
    c.jobs schema "jobs" j.jobId = none ∧ c' = { c with jobs := addRow c.jobs schema "jobs" j.jobId j } := by
  unfold Catalog.insertJob at h
  split at h
  next => cases h
  next =>
    split at h
    next => cases h
    next hnew =>
      split at h
      next => cases h
      next =>
        cases h
        exact ⟨by simpa using hnew, rfl⟩

section errors

variable {fresh : Uuid} {now : Int} {e : DbError}

theorem insertEndpoint_error {build : Int → Endpoint}
    (h : (CatalogOp.insertEndpoint schemaName build).exec accepts fresh now s = .error e)
    (table : s.pending.hasRelation schemaName "endpoints" = true) :
    s.pending.endpoints schemaName "endpoints" (build now).name ≠ none := by
  intro unused
  simp only [CatalogOp.exec, Catalog.insertEndpoint, table, unused] at h
  cases h

theorem insertJob_error {build : Uuid → Int → Job}
    (h : (CatalogOp.insertJob schemaName build).exec accepts fresh now s = .error e)
    (table : s.pending.hasRelation schemaName "jobs" = true)
    (owner : s.pending.endpoints schemaName "endpoints" (build fresh now).endpoint ≠ none) :
    s.pending.jobs schemaName "jobs" (build fresh now).jobId ≠ none := by
  intro unused
  obtain ⟨ep, hep⟩ := Option.ne_none_iff_exists'.mp owner
  simp only [CatalogOp.exec, Catalog.insertJob, table, unused, hep] at h
  cases h

end errors

/-- Nothing stands in the way of `provision_reaper`. -/
structure ReaperFits (accepts : String → Bool) (c : Catalog) (schema expression : String) : Prop where
  accepted : accepts expression = true
  tables : c.hasRelation schema "endpoints" = true ∧ c.hasRelation schema "jobs" = true
  endpoints : ∀ n, c.endpoints schema "endpoints" n = none
  jobs : ∀ id, c.jobs schema "jobs" id = none

theorem provisionReaper_runs (valid : validateSchemaName schemaName = true) (h : s.committed = c) :
    Tries (Served accepts allow) Critical
      (fun _ s' => ∃ id now now', s'.committed = withReaper c schemaName id now now' cronExpression ∧
        c.jobs schemaName "jobs" id.val = none)
      (fun _ s' => Sparing allow → ReaperFits accepts c schemaName cronExpression →
        ∃ id now now', s'.committed = withReaper c schemaName id now now' cronExpression)
      (WorkspacesDb.provisionReaper schemaName cronExpression) s := by
  have stuck : ∀ {o : CatalogOp} {ok : o.Reply → Server → Prop} {s₁ : Server}, Critical s₁ o →
      (∀ m, spared s₁ o (some m) = true → m.fate = .served) →
      (∀ fresh now s' r, o.exec accepts fresh now s₁ = .ok (s', r) → ok r s') →
      (∀ fresh now e, o.exec accepts fresh now s₁ = .error e → ¬ReaperFits accepts c schemaName cronExpression) →
      Tries (Served accepts allow) Critical ok (fun _ s' => Sparing allow → ReaperFits accepts c schemaName cronExpression →
        ∃ id now now', s'.committed = withReaper c schemaName id now now' cronExpression) (sql o) s₁ := by
    intro o ok s₁ critical only done fails
    refine (tries_critical critical only done fun fresh now e he _ => fails fresh now e he).mono (fun _ _ h => h) ?_
    exact fun _ _ hn calm ready => (hn calm ready).elim
  rw [WorkspacesDb.provisionReaper, inSchema_valid valid]
  refine tries_bind (stuck ⟨rfl, rfl⟩ (fun m hm => by simpa [spared] using hm) (fun _ _ s₁ _ h₁ => ?_)
    fun _ _ e he => by cases he)
  cases h₁
  refine tries_bind (stuck ⟨rfl, rfl⟩ (fun m hm => by simpa [spared] using hm) (fun _ now s₂ _ h₂ => ?_)
    fun _ _ e he ready => ?_)
  · obtain ⟨c₂, hc₂, h₂⟩ := bind_ok h₂
    cases h₂
    refine tries_bind (stuck ⟨rfl, rfl⟩ (fun m hm => by simpa [spared] using hm) (fun id now' s₃ jobId h₃ => ?_)
      fun _ _ e he ready => ?_)
    · obtain ⟨c₃, hc₃, h₃⟩ := bind_ok h₃
      cases h₃
      obtain rfl := insertEndpoint_ok hc₂
      obtain ⟨unused, rfl⟩ := insertJob_ok hc₃
      refine tries_bind (stuck ⟨rfl, rfl⟩ (fun m hm => by simpa [spared] using hm) (fun _ _ s₄ _ h₄ => ?_)
        fun _ _ e he ready => ?_)
      · simp only [CatalogOp.exec] at h₄
        split at h₄
        next =>
          cases h₄
          subst h
          refine tries_sql ⟨rfl, rfl⟩ (fun m s₅ r _ h₅ => ?_) (fun m e _ _ he => by cases he)
            (fun m _ hallow hne hlost _ calm => ?_) fun m s₅ r _ _ h₅ _ _ => ?_
          · cases h₅
            exact ⟨id, now, now', rfl, unused⟩
          · have := calm _ _ _ hallow
            simp [spared, hne, hlost] at this
          · cases h₅
            exact ⟨id, now, now', rfl⟩
        next => cases h₄
      · simp only [CatalogOp.exec, ready.accepted, if_true] at he
        cases he
    · obtain rfl := insertEndpoint_ok hc₂
      subst h
      exact insertJob_error he ready.tables.2 (by simp [addRow, Workspaces.reaperJob, Workspaces.reaperEndpoint, Jobs.newJob])
        (ready.jobs _)
  · subst h
    exact insertEndpoint_error he ready.tables.1 (ready.endpoints _)

end reaper

end Invokr

import Invokr.Provisioning

namespace Invokr

open TxLib

variable {accepts : String → Bool} {allow : Server → CatalogOp → Option Occasion → Prop}

section names

theorem isSlugChar_ne {c : Char} (h : isSlugChar c = true) : c ≠ '_' := by
  rintro rfl
  revert h
  decide

theorem isAlpha_or (c : Char) : c.isAlpha = (c.isUpper || c.isLower) := rfl

theorem isUpper_val {c : Char} : c.isUpper = true ↔ 65 ≤ c.val ∧ c.val ≤ 90 := by
  change decide (c.val ≥ 65 ∧ c.val ≤ 90) = true ↔ _
  rw [decide_eq_true_eq]

theorem isLower_val {c : Char} : c.isLower = true ↔ 97 ≤ c.val ∧ c.val ≤ 122 := by
  change (decide (c.val ≥ 97) && decide (c.val ≤ 122)) = true ↔ _
  simp only [Bool.and_eq_true, decide_eq_true_eq, ge_iff_le]

theorem isSlugChar_word {c : Char} (h : isSlugChar c = true) : isWordChar (dashToUnderscore c) = true := by
  unfold dashToUnderscore
  split
  next => decide
  next hne =>
    simp only [isSlugChar, hne, decide_false, Bool.or_false, Bool.or_eq_true] at h
    rcases h with h | h <;> simp [isWordChar, Char.isAlphanum, isAlpha_or, h]

theorem dashToUnderscore_inj {c c' : Char} (h : isSlugChar c = true) (h' : isSlugChar c' = true)
    (he : dashToUnderscore c = dashToUnderscore c') : c = c' := by
  have hne := isSlugChar_ne h
  have hne' := isSlugChar_ne h'
  unfold dashToUnderscore at he
  split at he
  next hd =>
    split at he
    next hd' => rw [hd, hd']
    next => exact (hne' he.symm).elim
  next =>
    split at he
    next => exact (hne he).elim
    next => exact he

theorem map_dashToUnderscore_inj {l l' : List Char} (h : ∀ c ∈ l, isSlugChar c = true) (h' : ∀ c ∈ l', isSlugChar c = true)
    (he : l.map dashToUnderscore = l'.map dashToUnderscore) : l = l' := by
  induction l generalizing l' with
  | nil =>
    cases l' with
    | nil => rfl
    | cons => cases he
  | cons c l ih =>
    cases l' with
    | nil => cases he
    | cons c' l' =>
      obtain ⟨hc, hl⟩ := List.cons.inj he
      have head := dashToUnderscore_inj (h c List.mem_cons_self) (h' c' List.mem_cons_self) hc
      have tail := ih (fun x hx => h x (List.mem_cons_of_mem _ hx)) (fun x hx => h' x (List.mem_cons_of_mem _ hx)) hl
      rw [head, tail]

theorem uuid_chars (id : Uuid) : id.val.toList.length = 36 ∧ ∀ c ∈ id.val.toList, isSlugChar c = true := by
  have h := id.2
  simp only [isUuid, Bool.and_eq_true, List.all_eq_true, decide_eq_true_eq] at h
  refine ⟨h.1, fun c hc => ?_⟩
  have hx := h.2 c hc
  simp only [Bool.or_eq_true, Bool.and_eq_true, decide_eq_true_eq] at hx
  simp only [isSlugChar, Bool.or_eq_true, decide_eq_true_eq]
  rcases hx with (hx | hx) | hx
  · exact Or.inl (Or.inr hx)
  · refine Or.inl (Or.inl ?_)
    have low : (97 : UInt32) ≤ c.val := hx.1
    have high : c.val ≤ (102 : UInt32) := hx.2
    exact isLower_val.mpr ⟨low, UInt32.le_trans high (by decide)⟩
  · exact Or.inr hx

theorem slug_chars {slug : String} (h : validateSlug slug = true) : ∀ c ∈ slug.toList, isSlugChar c = true := by
  simp only [validateSlug, Bool.and_eq_true, List.all_eq_true] at h
  exact h.2

theorem buildSchemaName_valid (org : Uuid) {slug : String} (h : validateSlug slug = true) :
    validateSchemaName (buildSchemaName org.val slug) = true := by
  have word : ∀ c ∈ (buildSchemaName org.val slug).toList, isWordChar c = true := by
    intro c hc
    simp only [buildSchemaName, dashesToUnderscores, String.toList_append, String.toList_ofList, List.mem_append,
      List.mem_map] at hc
    rcases hc with (⟨c', hc', rfl⟩ | hc) | ⟨c', hc', rfl⟩
    · exact isSlugChar_word ((uuid_chars org).2 c' hc')
    · obtain rfl : c = '_' := by simpa using hc
      decide
    · exact isSlugChar_word (slug_chars h c' hc')
  have nonempty : buildSchemaName org.val slug ≠ "" := by
    intro he
    have := congrArg (fun s => s.toList.length) he
    simp [buildSchemaName] at this
  simp only [validateSchemaName, Bool.and_eq_true, List.all_eq_true, decide_eq_true_eq]
  exact ⟨nonempty, word⟩

/-- An organization's workspaces are told apart by their schemas. -/
theorem buildSchemaName_inj {org org' : Uuid} {slug slug' : String} (h : validateSlug slug = true)
    (h' : validateSlug slug' = true) (he : buildSchemaName org.val slug = buildSchemaName org'.val slug') :
    org.val = org'.val ∧ slug = slug' := by
  have chars := congrArg String.toList he
  simp only [buildSchemaName, dashesToUnderscores, String.toList_append, String.toList_ofList, List.append_assoc] at chars
  obtain ⟨left, right⟩ := List.append_inj chars (by simp [(uuid_chars org).1, (uuid_chars org').1])
  have right := List.append_cancel_left right
  have ids := map_dashToUnderscore_inj (uuid_chars org).2 (uuid_chars org').2 left
  have slugs := map_dashToUnderscore_inj (slug_chars h) (slug_chars h') right
  exact ⟨String.toList_inj.mp ids, String.toList_inj.mp slugs⟩

end names

section intact

variable {S : List String} {c : Catalog} {ws : Workspace}

/-- Every workspace is provisioned under its own name, and there is nothing where no workspace is.
The schemas listed are still those of workspaces. -/
structure Intact (S : List String) (c : Catalog) : Prop where
  owned : ∀ ws ∈ c.workspaces, ∃ o ∈ c.organizations, ws.orgId = o.orgId.val
  named : ∀ ws ∈ c.workspaces, validateSlug ws.slug = true ∧ ws.schemaName = buildSchemaName ws.orgId ws.slug
  provisioned : ∀ ws ∈ c.workspaces, Provisioned c ws.schemaName
  kept : ∀ schema ∈ S, ∃ ws ∈ c.workspaces, ws.schemaName = schema
  untouched : ∀ schema, (∀ ws ∈ c.workspaces, ws.schemaName ≠ schema) → c.relations schema = none ∧
    (∀ n, c.endpoints schema "endpoints" n = none) ∧ ∀ id, c.jobs schema "jobs" id = none

theorem addRow_other {β : Type} {rows : (schema table id : String) → Option β} {schema table id schema' : String} {r : β}
    (h : schema' ≠ schema) : addRow rows schema table id r schema' = rows schema' := by
  funext table' id'
  simp [addRow, h]

/-- A schema keeps its reaper when another one gets its own. -/
theorem Provisioned.other {schema schema' : String} {names : List String} {id : Uuid} {now now' : Int} {expression : String}
    (h : Provisioned c schema') (hne : schema' ≠ schema) :
    Provisioned (withReaper (withRelations c schema names) schema id now now' expression) schema' := by
  obtain ⟨⟨names', hnames', has⟩, ⟨now₁, hep⟩, id', now₂, expression', hjob, hentry⟩ := h
  refine ⟨⟨names', ?_, has⟩, ⟨now₁, ?_⟩, id', now₂, expression', ?_, ?_⟩
  · simpa [withReaper, withRelations, Function.update_of_ne hne] using hnames'
  · simpa [withReaper, withRelations, addRow_other hne] using hep
  · simpa [withReaper, withRelations, addRow_other hne] using hjob
  · have apart : Jobs.cronJobName schema' id'.val ≠ Jobs.cronJobName schema id.val := by
      intro he
      have hkey : (⟨schema', id'.val⟩ : Key) = ⟨schema, id.val⟩ :=
        entryKey_inj id'.2 id.2 (congrArg Jobs.cronKey he)
      exact hne (congrArg Key.schema hkey)
    simpa [withReaper, withRelations, Function.update_of_ne apart] using hentry

theorem Intact.added {names : List String} {id : Uuid} {now now' : Int} {expression : String} (h : Intact S c)
    (owner : ∃ o ∈ c.organizations, ws.orgId = o.orgId.val) (slug : validateSlug ws.slug = true)
    (named : ws.schemaName = buildSchemaName ws.orgId ws.slug) (new : ∀ w ∈ c.workspaces, w.schemaName ≠ ws.schemaName)
    (has : ∀ n ∈ relationNames "", n ∈ names) :
    Intact S (withReaper (withRelations { c with workspaces := c.workspaces ++ [ws] } ws.schemaName names) ws.schemaName id
      now now' expression) := by
  have split : ∀ {w}, w ∈ c.workspaces ++ [ws] → w ∈ c.workspaces ∨ w = ws := by
    intro w hw
    simpa using hw
  refine ⟨fun w hw => ?_, fun w hw => ?_, fun w hw => ?_, fun schema hs => ?_, fun schema hnone => ?_⟩
  · rcases split hw with hw | rfl
    · exact h.owned w hw
    · exact owner
  · rcases split hw with hw | rfl
    · exact h.named w hw
    · exact ⟨slug, named⟩
  · rcases split hw with hw | rfl
    · exact (h.provisioned w hw).other (c := { c with workspaces := c.workspaces ++ [ws] }) (new w hw)
    · exact provisioned_withReaper id now now' expression (Function.update_self ..) has
  · obtain ⟨w, hw, hname⟩ := h.kept schema hs
    exact ⟨w, List.mem_append_left _ hw, hname⟩
  · have hne : schema ≠ ws.schemaName := fun he => hnone ws (by simp [withReaper, withRelations]) he.symm
    obtain ⟨hrel, hep, hjobs⟩ := h.untouched schema fun w hw => hnone w (by simp [withReaper, withRelations, hw])
    refine ⟨?_, fun n => ?_, fun id' => ?_⟩
    · simpa [withReaper, withRelations, Function.update_of_ne hne] using hrel
    · simpa [withReaper, withRelations, addRow_other hne] using hep n
    · simpa [withReaper, withRelations, addRow_other hne] using hjobs id'

theorem Intact.version {workspaceId : String} {version : Int} (h : Intact S c) : Intact S { c with
    workspaces := c.workspaces.map fun w => if w.workspaceId = workspaceId then { w with schemaVersion := version } else w } := by
  have back : ∀ {w}, w ∈ (c.workspaces.map fun w =>
      if w.workspaceId = workspaceId then { w with schemaVersion := version } else w) → ∃ w₀ ∈ c.workspaces,
        w₀.orgId = w.orgId ∧ w₀.slug = w.slug ∧ w₀.schemaName = w.schemaName := by
    intro w hw
    obtain ⟨w₀, hw₀, rfl⟩ := List.mem_map.mp hw
    refine ⟨w₀, hw₀, ?_⟩
    split <;> exact ⟨rfl, rfl, rfl⟩
  refine ⟨fun w hw => ?_, fun w hw => ?_, fun w hw => ?_, fun schema hs => ?_, fun schema hnone => ?_⟩
  · obtain ⟨w₀, hw₀, horg, _, _⟩ := back hw
    exact horg ▸ h.owned w₀ hw₀
  · obtain ⟨w₀, hw₀, horg, hslug, hschema⟩ := back hw
    have := h.named w₀ hw₀
    rw [horg, hslug, hschema] at this
    exact this
  · obtain ⟨w₀, hw₀, _, _, hschema⟩ := back hw
    exact hschema ▸ h.provisioned w₀ hw₀
  · obtain ⟨w, hw, hname⟩ := h.kept schema hs
    refine ⟨_, List.mem_map_of_mem hw, ?_⟩
    split <;> exact hname
  · refine h.untouched schema fun w hw he => ?_
    refine hnone _ (List.mem_map_of_mem hw) ?_
    split <;> exact he

end intact

section create

variable {S : List String} {s : Server} {org : Organization} {name slug cronExpression : String}

/-- A workspace of the organization with the slug. -/
def Taken (c : Catalog) (orgId slug : String) : Prop := ∃ ws ∈ c.workspaces, ws.orgId = orgId ∧ ws.slug = slug

/-- What a fault leaves intact, where the process may die. -/
def Survives (S : List String) (s₀ : Server) (allow : Server → CatalogOp → Option Occasion → Prop) (s : Server) (o : CatalogOp) : Prop :=
  o.isPanic = false ∧ (spared s o none = true → Sparing allow → Intact S s₀.committed → Intact S s.committed)

theorem Critical.survives {s₀ : Server} {o : CatalogOp} (h : Critical s o) : Survives S s₀ allow s o := by
  refine ⟨h.2, fun hs => ?_⟩
  rw [h.1] at hs
  cases hs

/-- What `insert_workspace` comes to. -/
theorem insertWorkspace_exec (accepts : String → Bool) (fresh : Uuid) (now : Int) (s : Server)
    (orgId name slug schemaName : String) :
    (∃ s' ws, (CatalogOp.insertWorkspace orgId name slug schemaName).exec accepts fresh now s = .ok (s', ws) ∧
        s' = { s with committed := { s.committed with workspaces := s.committed.workspaces ++ [ws] } } ∧
        ws = ⟨fresh.val, orgId, name, slug, schemaName, .active, 0⟩ ∧
        (∃ o ∈ s.committed.organizations, ws.orgId = o.orgId.val) ∧
        (∀ w ∈ s.committed.workspaces, w.workspaceId ≠ fresh.val ∧ w.schemaName ≠ schemaName)) ∨
      ∃ e, (CatalogOp.insertWorkspace orgId name slug schemaName).exec accepts fresh now s = .error e ∧
        ((e = .unique ∧ ∃ w ∈ s.committed.workspaces, w.workspaceId = fresh.val ∨ (w.orgId = orgId ∧ w.slug = slug) ∨
          w.schemaName = schemaName) ∨ (e = .foreignKey ∧ ∀ o ∈ s.committed.organizations, o.orgId.val ≠ orgId)) := by
  simp only [CatalogOp.exec, Catalog.insertWorkspace]
  split
  next hclash =>
    refine Or.inr ⟨.unique, rfl, Or.inl ⟨rfl, ?_⟩⟩
    obtain ⟨w, hw, hor⟩ := List.any_eq_true.mp hclash
    simp only [Bool.or_eq_true, Bool.and_eq_true, decide_eq_true_eq, or_assoc] at hor
    exact ⟨w, hw, hor⟩
  next hclear =>
    have clear : ∀ w ∈ s.committed.workspaces, w.workspaceId ≠ fresh.val ∧ w.schemaName ≠ schemaName := by
      intro w hw
      have hno : ¬_ := fun h => hclear (List.any_eq_true.mpr ⟨w, hw, h⟩)
      simp only [Bool.or_eq_true, Bool.and_eq_true, decide_eq_true_eq, not_or] at hno
      exact ⟨hno.1.1, hno.2⟩
    split
    next howner =>
      obtain ⟨o, ho, heq⟩ := List.any_eq_true.mp howner
      exact Or.inl ⟨_, _, rfl, rfl, rfl, ⟨o, ho, (of_decide_eq_true heq).symm⟩, clear⟩
    next hnone =>
      refine Or.inr ⟨.foreignKey, rfl, Or.inr ⟨rfl, fun o ho heq => hnone ?_⟩⟩
      exact List.any_eq_true.mpr ⟨o, ho, decide_eq_true heq⟩

def versioned (workspaceId : String) (version : Int) (w : Workspace) : Workspace :=
  if w.workspaceId = workspaceId then { w with schemaVersion := version } else w

theorem versioned_columns (workspaceId : String) (version : Int) (w : Workspace) :
    (versioned workspaceId version w).workspaceId = w.workspaceId ∧ (versioned workspaceId version w).orgId = w.orgId ∧
      (versioned workspaceId version w).slug = w.slug ∧ (versioned workspaceId version w).schemaName = w.schemaName := by
  unfold versioned
  split <;> exact ⟨rfl, rfl, rfl, rfl⟩

/-- The end of `create`. -/
theorem version_runs {ws : Workspace} {Good : Prop} (intact : Good → Intact S s.committed) (here : ws ∈ s.committed.workspaces)
    (only : ∀ w ∈ s.committed.workspaces, w.workspaceId = ws.workspaceId → w = ws) :
    Tries (Served accepts allow) (fun s' o => o.isPanic = false ∧ (Good → Intact S s'.committed))
      (fun ws' s' => ws'.schemaName = ws.schemaName ∧
        s'.committed = { s.committed with workspaces := s.committed.workspaces.map (versioned ws.workspaceId 1) } ∧
        (Good → Intact S s'.committed) ∧ Taken s'.committed ws.orgId ws.slug)
      (fun _ s' => (Good → Intact S s'.committed) ∧ Taken s'.committed ws.orgId ws.slug)
      (do
        sql (.setSchemaVersion ws.workspaceId 1)
        sql (.getWorkspace ws.workspaceId)) s := by
  have intact' : Good → Intact S { s.committed with workspaces := s.committed.workspaces.map (versioned ws.workspaceId 1) } :=
    fun good => (intact good).version
  have exists' : Taken { s.committed with workspaces := s.committed.workspaces.map (versioned ws.workspaceId 1) }
      ws.orgId ws.slug := by
    obtain ⟨_, horg, hslug, _⟩ := versioned_columns ws.workspaceId 1 ws
    exact ⟨_, List.mem_map_of_mem here, horg, hslug⟩
  refine tries_bind (tries_sql (o := .setSchemaVersion ws.workspaceId 1) ⟨rfl, intact⟩ (fun m s₁ _ _ h₁ => ?_)
    (fun m e _ _ he => by cases he) (fun m e _ _ _ _ => ⟨intact, ws, here, rfl, rfl⟩) fun m s₁ _ _ _ h₁ => ?_)
  · cases h₁
    refine tries_sql ⟨rfl, intact'⟩ (fun m s₂ ws' _ h₂ => ?_) (fun m e _ _ _ _ => ⟨intact', exists'⟩)
      (fun m e _ _ _ _ => ⟨intact', exists'⟩) fun m s₂ ws' _ _ h₂ => ?_
    · simp only [CatalogOp.exec] at h₂
      split at h₂
      next => cases h₂
      next w hw =>
        cases h₂
        have hid := List.find?_some hw
        obtain ⟨w₀, hw₀, rfl⟩ := List.mem_map.mp (List.mem_of_find?_eq_some hw)
        obtain ⟨hid₀, _, _, hschema⟩ := versioned_columns ws.workspaceId 1 w₀
        have hsame := only w₀ hw₀ (hid₀.symm.trans (of_decide_eq_true hid))
        exact ⟨hschema.trans (congrArg Workspace.schemaName hsame), rfl, intact', exists'⟩
    · simp only [CatalogOp.exec] at h₂
      split at h₂
      next => cases h₂
      next =>
        cases h₂
        exact ⟨intact', exists'⟩
  · cases h₁
    exact ⟨intact', exists'⟩

/-- The schema has its tables, and the reaper that `create` has inserted. -/
def Installed (c₀ c : Catalog) (schema expression : String) (id : Uuid) : Prop :=
  (∃ names, c.relations schema = some names ∧ ∀ n ∈ relationNames "", n ∈ names) ∧
    (∃ now, c.endpoints schema "endpoints" Workspaces.reaperEndpointName = some (Workspaces.reaperEndpoint now)) ∧
    c₀.jobs schema "jobs" id.val = none ∧
    (∃ now, c.jobs schema "jobs" id.val = some (Workspaces.reaperJob id now expression)) ∧
    c.cronJob (Jobs.cronJobName schema id.val) = some ⟨expression, Jobs.buildCronCommand "" schema id.val⟩

/-- What a failed `create` leaves. -/
def Failed (S : List String) (accepts : String → Bool) (allow : Server → CatalogOp → Option Occasion → Prop) (s₀ : Server)
    (orgId slug expression : String) (e : DbError) (s : Server) : Prop :=
  Sparing allow → accepts expression = true → Intact S s₀.committed →
    Intact S s.committed ∧ (isConstraint e = true → Taken s.committed orgId slug)

/-- What `create` adds to an intact catalog keeps it intact. -/
theorem Intact.created {c : Catalog} {ws : Workspace} {names : List String} {fresh id : Uuid} {now now' : Int}
    {expression orgId : String} (h : Intact S c) (hslug : validateSlug slug = true)
    (hws : ws = ⟨fresh.val, orgId, name, slug, buildSchemaName orgId slug, .active, 0⟩)
    (owner : ∃ o ∈ c.organizations, ws.orgId = o.orgId.val)
    (clear : ∀ w ∈ c.workspaces, w.workspaceId ≠ fresh.val ∧ w.schemaName ≠ buildSchemaName orgId slug)
    (has : ∀ n ∈ relationNames "", n ∈ names) :
    Intact S (withReaper (withRelations { c with workspaces := c.workspaces ++ [ws] } (buildSchemaName orgId slug) names)
      (buildSchemaName orgId slug) id now now' expression) := by
  have valid : validateSlug ws.slug = true := by rw [hws]; exact hslug
  have named : ws.schemaName = buildSchemaName ws.orgId ws.slug := by rw [hws]
  have schema : ws.schemaName = buildSchemaName orgId slug := by rw [hws]
  rw [← schema]
  exact h.added owner valid named (fun w hw => schema ▸ (clear w hw).2) has

theorem insertAndProvision_runs (hslug : validateSlug slug = true) (horg : org ∈ s.committed.organizations) :
    Tries (Served accepts allow) (Survives S s allow)
      (fun ws s' => (∃ id, Installed s.committed s'.committed (buildSchemaName org.orgId.val slug) cronExpression id) ∧
        ws.schemaName = buildSchemaName org.orgId.val slug ∧
        (Sparing allow → accepts cronExpression = true → Intact S s.committed → Intact S s'.committed ∧
          Taken s'.committed org.orgId.val slug))
      (Failed S accepts allow s org.orgId.val slug cronExpression)
      (WorkspacesDb.insertAndProvision org.orgId.val name slug (buildSchemaName org.orgId.val slug) cronExpression) s := by
  have valid := buildSchemaName_valid org.orgId hslug
  generalize hschema : buildSchemaName org.orgId.val slug = schemaName at valid
  refine tries_bind (tries_sql ⟨rfl, fun _ _ h => h⟩ (fun m s₁ ws _ h₁ => ?_) (fun m e e' hallow he hor => ?_)
    (fun m e _ _ _ hn _ _ intact => ⟨intact, fun hc => by rw [hn] at hc; cases hc⟩) fun m s₁ ws hallow hlost _ calm => ?_)
  · rcases insertWorkspace_exec accepts m.fresh m.now s org.orgId.val name slug schemaName with
      ⟨s₁', ws', h₁', rfl, hws, owner, clear⟩ | ⟨e, he, _⟩
    · rw [h₁'] at h₁
      cases h₁
      have unused : Intact S s.committed → s.committed.relations schemaName = none ∧
          (∀ n, s.committed.endpoints schemaName "endpoints" n = none) ∧ ∀ id, s.committed.jobs schemaName "jobs" id = none :=
        fun intact => intact.untouched schemaName fun w hw => (clear w hw).2
      refine tries_bind (((provisionSchema_runs valid rfl).pre_mono fun _ _ h => h.survives).mono
        (fun _ s₂ ⟨names, hs₂, has⟩ => ?_) fun _ _ hfails calm _ intact => (hfails calm (unused intact).1).elim)
      refine tries_bind (((provisionReaper_runs valid hs₂).pre_mono fun _ _ h => h.survives).mono
        (fun _ s₃ ⟨id, now, now', hs₃, hid⟩ => ?_) fun e s₃ hfails calm accepted intact => ?_)
      · have good : Intact S s.committed → Intact S s₃.committed := by
          intro intact
          rw [hs₃]
          subst hschema
          exact intact.created hslug hws owner clear has
        have here : ws ∈ s₃.committed.workspaces := by
          rw [hs₃]
          exact List.mem_append_right _ (List.mem_singleton_self ws)
        have only : ∀ w ∈ s₃.committed.workspaces, w.workspaceId = ws.workspaceId → w = ws := by
          intro w hw hid'
          rw [hs₃] at hw
          rcases List.mem_append.mp hw with hw | hw
          · rw [hws] at hid'
            exact ((clear w hw).1 hid').elim
          · exact List.mem_singleton.mp hw
        have horg' : ws.orgId = org.orgId.val := by rw [hws]
        have hslug' : ws.slug = slug := by rw [hws]
        refine ((version_runs good here only).pre_mono fun _ _ h => ⟨h.1, fun _ _ => h.2⟩).mono
          (fun ws₁ s₄ ⟨hname, hs₄, intact₄, found⟩ => ⟨⟨id, ?_⟩, ?_, fun _ _ intact => ⟨intact₄ intact, ?_⟩⟩)
          fun e s₄ ⟨intact₄, found⟩ _ _ intact => ⟨intact₄ intact, fun _ => ?_⟩
        · rw [hs₄, hs₃]
          refine ⟨⟨names, Function.update_self .., has⟩, ⟨now, ?_⟩, hid, ⟨now', ?_⟩, Function.update_self ..⟩
          · simp [withReaper, withRelations, addRow]
          · simp [withReaper, withRelations, addRow]
        · rw [hname, hws]
        · rw [← horg', ← hslug']
          exact found
        · rw [← horg', ← hslug']
          exact found
      · have ready : ReaperFits accepts (withRelations { s.committed with workspaces := s.committed.workspaces ++ [ws] }
            schemaName names) schemaName cronExpression := by
          refine ⟨accepted, ⟨?_, ?_⟩, (unused intact).2.1, (unused intact).2.2⟩
          · simp [Catalog.hasRelation, withRelations, has "endpoints" (by decide)]
          · simp [Catalog.hasRelation, withRelations, has "jobs" (by decide)]
        obtain ⟨id, now, now', hs₃⟩ := hfails calm ready
        rw [hs₃]
        refine ⟨?_, fun _ => ⟨ws, List.mem_append_right _ (List.mem_singleton_self ws), by rw [hws], by rw [hws]⟩⟩
        subst hschema
        exact intact.created hslug hws owner clear has
    · rw [he] at h₁
      cases h₁
  · rcases insertWorkspace_exec accepts m.fresh m.now s org.orgId.val name slug schemaName with
      ⟨s₁, ws, h₁, _⟩ | ⟨e₁, he₁, hclash⟩
    · rw [h₁] at he
      cases he
    · rw [he₁] at he
      cases he
      intro calm _ intact
      refine ⟨intact, fun _ => ?_⟩
      have drawn := calm _ _ _ hallow
      simp only [spared, Option.all_some, Bool.and_eq_true, Bool.not_eq_true', List.any_eq_false, decide_eq_true_eq] at drawn
      rcases hclash with ⟨_, w, hw, hsame | hsame | hsame⟩ | ⟨_, hnone⟩
      · exact (drawn.2 w hw hsame).elim
      · exact ⟨w, hw, hsame⟩
      · obtain ⟨o, _, ho⟩ := intact.owned w hw
        obtain ⟨hslug', hname⟩ := intact.named w hw
        rw [hname, ho, ← hschema] at hsame
        obtain ⟨hid, hs⟩ := buildSchemaName_inj hslug' hslug hsame
        exact ⟨w, hw, ho.trans hid, hs⟩
      · exact (hnone org horg rfl).elim
  · have := calm _ _ _ hallow
    simp [spared, hlost] at this

theorem organization_mem {c : Catalog} {orgRef : String} (h : c.organization orgRef = some org) : org ∈ c.organizations := by
  rcases Option.or_eq_some_iff.mp h with h | ⟨_, h⟩
  · exact List.mem_of_find?_eq_some h
  · exact List.mem_of_find?_eq_some h

theorem create_refuses {orgRef : String} (h : validateSlug slug = false) :
    WorkspacesApi.create cronExpression orgRef name slug = throw (WorkspacesApi.invalidSlug slug) := by
  simp only [WorkspacesApi.create, h]
  rfl

theorem create_goes {orgRef : String} (h : validateSlug slug = true) : WorkspacesApi.create cronExpression orgRef name slug =
    (ExceptT.adapt fromDb (sql (.getOrganization orgRef)) >>= fun
      | none => throw (.orgNotFound ("Organization " ++ orgRef ++ " not found"))
      | some org => ExceptT.adapt (WorkspacesApi.createError slug)
          (WorkspacesDb.create org.orgId.val name slug (buildSchemaName org.orgId.val slug) cronExpression)) := by
  simp only [WorkspacesApi.create, h]
  rfl

/-- What the handler's answer says. -/
theorem apiCreate_runs (orgRef : String) :
    Tries (Served accepts allow) (Survives S s allow)
      (fun ws s' => (∃ id, Installed s.committed s'.committed ws.schemaName cronExpression id) ∧
        (Sparing allow → accepts cronExpression = true → Intact S s.committed → Intact S s'.committed ∧
          ∃ org, s.committed.organization orgRef = some org ∧ Taken s'.committed org.orgId.val slug))
      (fun e s' => Sparing allow → accepts cronExpression = true → Intact S s.committed → Intact S s'.committed ∧
        (e.statusCode = 409 → ∃ org, s.committed.organization orgRef = some org ∧ Taken s'.committed org.orgId.val slug))
      (WorkspacesApi.create cronExpression orgRef name slug) s := by
  cases hslug : validateSlug slug with
  | false =>
    rw [create_refuses hslug]
    refine tries_throw fun _ _ intact => ⟨intact, fun h => ?_⟩
    simp [WorkspacesApi.invalidSlug, AppError.statusCode] at h
  | true =>
    rw [create_goes hslug]
    have down : ∀ e : DbError, Sparing allow → accepts cronExpression = true → Intact S s.committed → Intact S s.committed ∧
        ((fromDb e).statusCode = 409 → ∃ org, s.committed.organization orgRef = some org ∧
          Taken s.committed org.orgId.val slug) := by
      intro e _ _ intact
      refine ⟨intact, fun h => ?_⟩
      cases h
    refine tries_bind (tries_adapt (tries_sql ⟨rfl, fun _ _ h => h⟩ (fun m s₁ found _ h₁ => ?_)
      (fun _ _ e _ _ _ => down e) (fun _ e _ _ _ _ => down e) fun m s₁ _ _ _ h₁ => ?_))
    · cases h₁
      cases hfound : s.committed.organization orgRef with
      | none =>
        refine tries_throw fun _ _ intact => ⟨intact, fun h => ?_⟩
        cases h
      | some org =>
        have valid := buildSchemaName_valid org.orgId hslug
        have creates : WorkspacesDb.create org.orgId.val name slug (buildSchemaName org.orgId.val slug) cronExpression =
            WorkspacesDb.insertAndProvision org.orgId.val name slug (buildSchemaName org.orgId.val slug) cronExpression := by
          simp [WorkspacesDb.create, valid]
        change Tries _ _ _ _ (ExceptT.adapt (WorkspacesApi.createError slug) (WorkspacesDb.create _ _ _ _ _)) _
        rw [creates]
        refine tries_adapt ((insertAndProvision_runs hslug (organization_mem hfound)).mono
          (fun ws s' created => ⟨created.2.1 ▸ created.1, fun calm accepted intact => ?_⟩)
          fun e s' failed calm accepted intact => ?_)
        · obtain ⟨intact', found⟩ := created.2.2 calm accepted intact
          exact ⟨intact', org, rfl, found⟩
        · obtain ⟨intact', found⟩ := failed calm accepted intact
          refine ⟨intact', fun h => ⟨org, rfl, found ?_⟩⟩
          cases hc : isConstraint e with
          | true => rfl
          | false => simp [WorkspacesApi.createError, hc, fromDb, AppError.statusCode] at h
    · cases h₁
      exact down .closed

end create

end Invokr

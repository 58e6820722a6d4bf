import Invokr.Registrations
import Mathlib.Data.List.Nodup
import Mathlib.Data.List.Pairwise

namespace Invokr

open TxLib

variable {accepts : String → Bool}

def Organization.answersTo (o : Organization) (ref : String) : Bool := o.orgId.val = ref || o.slug = ref

def Workspace.answersTo (w : Workspace) (ref : String) : Bool := w.workspaceId = ref || w.slug = ref

namespace WorkspacesDb

/-- The rows that `get_by_org_and_id` matches. -/
def joined (c : Catalog) (orgRef workspaceRef : String) : List (Organization × Workspace) :=
  (c.organizations.flatMap fun o => (c.workspaces.filter fun w => w.orgId = o.orgId.val).map fun w => (o, w)).filter
    fun (o, w) => o.answersTo orgRef && w.answersTo workspaceRef

/-- `ORDER BY (o.org_id = $1) DESC, (w.workspace_id = $2) DESC LIMIT 1`. -/
def best (rows : List (Organization × Workspace)) (orgRef workspaceRef : String) : Option Workspace :=
  ((rows.find? fun (o, w) => o.orgId.val = orgRef && w.workspaceId = workspaceRef).or
    ((rows.find? fun (o, _) => o.orgId.val = orgRef).or
      ((rows.find? fun (_, w) => w.workspaceId = workspaceRef).or rows.head?))).map Prod.snd

def getByOrgAndId (c : Catalog) (orgRef workspaceRef : String) : Option Workspace :=
  best (joined c orgRef workspaceRef) orgRef workspaceRef

theorem resolveSchema_eq (c : Catalog) (orgRef workspaceRef : String) :
    resolveSchema c orgRef workspaceRef =
      (best ((joined c orgRef workspaceRef).filter fun (_, w) => w.status = .active) orgRef workspaceRef).map
        Workspace.schemaName := by
  unfold resolveSchema best joined
  rw [List.filter_filter, Option.map_map]
  have rows : ∀ l : List (Organization × Workspace),
      (l.filter fun x => decide (x.2.status = .active) && (x.1.answersTo orgRef && x.2.answersTo workspaceRef)) =
        l.filter fun x => (x.1.orgId.val = orgRef || x.1.slug = orgRef) &&
          (x.2.workspaceId = workspaceRef || x.2.slug = workspaceRef) && x.2.status = .active := by
    intro l
    refine List.filter_congr fun x _ => ?_
    rw [Bool.and_comm]
    rfl
  rw [rows]
  rfl

theorem best_single {rows : List (Organization × Workspace)} {orgRef workspaceRef : String} (h : rows.length ≤ 1) :
    best rows orgRef workspaceRef = rows.head?.map Prod.snd := by
  match rows, h with
  | [], _ => rfl
  | [(o, w)], _ =>
    unfold best
    cases ho : decide (o.orgId.val = orgRef) with
    | false =>
      cases hw : decide (w.workspaceId = workspaceRef) with
      | false => simp [List.find?, ho, hw]
      | true => simp [List.find?, ho, hw]
    | true =>
      cases hw : decide (w.workspaceId = workspaceRef) with
      | false => simp [List.find?, ho, hw]
      | true => simp [List.find?, ho, hw]

theorem mem_joined {c : Catalog} {orgRef workspaceRef : String} {o : Organization} {w : Workspace} :
    (o, w) ∈ joined c orgRef workspaceRef ↔ o ∈ c.organizations ∧ w ∈ c.workspaces ∧ w.orgId = o.orgId.val ∧
      o.answersTo orgRef = true ∧ w.answersTo workspaceRef = true := by
  simp only [joined, List.mem_filter, List.mem_flatMap, List.mem_map, Bool.and_eq_true, decide_eq_true_eq]
  constructor
  · rintro ⟨⟨o', ho, w', ⟨hw, howner⟩, heq⟩, hrefs⟩
    cases heq
    exact ⟨ho, hw, howner, hrefs⟩
  · rintro ⟨ho, hw, howner, hrefs⟩
    exact ⟨⟨o, ho, w, ⟨hw, howner⟩, rfl⟩, hrefs⟩

end WorkspacesDb

/-- No two rows of the control tables can be mistaken for each other. -/
structure Distinct (r : List Organization × List Workspace) : Prop where
  organizations : r.1.Pairwise fun a b => a.orgId.val ≠ b.orgId.val ∧ a.slug ≠ b.slug
  workspaces : r.2.Pairwise fun a b => a.workspaceId ≠ b.workspaceId ∧ ¬(a.orgId = b.orgId ∧ a.slug = b.slug)
  orgSlugs : ∀ o ∈ r.1, validateSlug o.slug = true
  ids : ∀ w ∈ r.2, isUuid w.workspaceId = true
  slugs : ∀ w ∈ r.2, validateSlug w.slug = true

theorem slug_not_uuid {slug id : String} (hslug : validateSlug slug = true) (hid : isUuid id = true) : id ≠ slug := by
  intro he
  have long := (uuid_chars ⟨id, hid⟩).1
  simp only [validateSlug, Bool.and_eq_true, decide_eq_true_eq] at hslug
  have short : slug.toList.length ≤ 25 := hslug.1.1.1.2
  rw [← he] at short
  have same : id.toList.length = 36 := long
  omega

/-- Of two rows, of which no column of the one is the other's, one reference means at most one. -/
theorem eq_of_pairwise {β : Type} {R : β → β → Prop} {l : List β} {a b : β} (h : l.Pairwise R) (symm : ∀ {x y}, R x y → R y x)
    (ha : a ∈ l) (hb : b ∈ l) (clash : ¬R a b) : a = b := by
  by_contra hne
  have : Std.Symm R := ⟨fun _ _ => symm⟩
  exact clash (h.forall ha hb hne)

section distinct

variable {r : List Organization × List Workspace}

theorem Distinct.organization (h : Distinct r) {o o' : Organization} {ref : String} (ho : o ∈ r.1) (ho' : o' ∈ r.1)
    (href : o.answersTo ref = true) (href' : o'.answersTo ref = true) : o = o' := by
  refine eq_of_pairwise h.organizations (fun hne => ⟨hne.1.symm, hne.2.symm⟩) ho ho' fun hne => ?_
  have hslug := h.orgSlugs o ho
  have hslug' := h.orgSlugs o' ho'
  simp only [Organization.answersTo, Bool.or_eq_true, decide_eq_true_eq] at href href'
  rcases href with hid | hs
  · rcases href' with hid' | hs'
    · exact hne.1 (hid.trans hid'.symm)
    · exact slug_not_uuid hslug' o.orgId.2 (hid.trans hs'.symm)
  · rcases href' with hid' | hs'
    · exact slug_not_uuid hslug o'.orgId.2 (hid'.trans hs.symm)
    · exact hne.2 (hs.trans hs'.symm)

theorem Distinct.workspace (h : Distinct r) {w w' : Workspace} {ref : String} (hw : w ∈ r.2) (hw' : w' ∈ r.2)
    (howner : w.orgId = w'.orgId) (href : w.answersTo ref = true) (href' : w'.answersTo ref = true) : w = w' := by
  refine eq_of_pairwise h.workspaces (fun hne => ⟨hne.1.symm, fun he => hne.2 ⟨he.1.symm, he.2.symm⟩⟩) hw hw' fun hne => ?_
  have hslug := h.slugs w hw
  have hslug' := h.slugs w' hw'
  simp only [Workspace.answersTo, Bool.or_eq_true, decide_eq_true_eq] at href href'
  rcases href with hid | hs
  · rcases href' with hid' | hs'
    · exact hne.1 (hid.trans hid'.symm)
    · exact slug_not_uuid hslug' (h.ids w hw) (hid.trans hs'.symm)
  · rcases href' with hid' | hs'
    · exact slug_not_uuid hslug (h.ids w' hw') (hid'.trans hs.symm)
    · exact hne.2 ⟨howner, hs.trans hs'.symm⟩

theorem distinct_empty : Distinct (Catalog.registry (.empty [])) := by
  refine ⟨List.Pairwise.nil, List.Pairwise.nil, fun o ho => ?_, fun w hw => ?_, fun w hw => ?_⟩
  · cases ho
  · cases hw
  · cases hw

/-- The tables have kept every row. -/
def RowsKept (r r' : List Organization × List Workspace) : Prop := r.1 ⊆ r'.1 ∧ r.2 ⊆ r'.2

theorem distinct_organization {s : Server} (m : Occasion) (name slug : String) (h : Distinct s.committed.registry) :
    Distinct (OrganizationsApi.create s m name slug).1.committed.registry ∧
      RowsKept s.committed.registry (OrganizationsApi.create s m name slug).1.committed.registry := by
  have kept : Distinct s.committed.registry ∧ RowsKept s.committed.registry s.committed.registry :=
    ⟨h, List.Subset.refl _, List.Subset.refl _⟩
  unfold OrganizationsApi.create
  split
  next => exact kept
  next hslug =>
    have valid : validateSlug slug = true := by simpa using hslug
    have created : ∀ c org, OrganizationsDb.create s.committed m.fresh name slug = .ok (c, org) →
        Distinct c.registry ∧ RowsKept s.committed.registry c.registry := by
      intro c org hc
      simp only [OrganizationsDb.create] at hc
      split at hc
      next => cases hc
      next hclear =>
        cases hc
        have fresh : ∀ o ∈ s.committed.organizations, o.orgId.val ≠ m.fresh.val ∧ o.slug ≠ slug := by
          intro o ho
          have hno : ¬_ := fun h => hclear (List.any_eq_true.mpr ⟨o, ho, h⟩)
          simpa only [Bool.or_eq_true, decide_eq_true_eq, not_or] using hno
        refine ⟨⟨?_, h.workspaces, ?_, h.ids, h.slugs⟩, List.subset_append_left _ _, List.Subset.refl _⟩
        · refine List.pairwise_append.mpr ⟨h.organizations, List.pairwise_singleton _ _, fun o ho o' ho' => ?_⟩
          rw [List.mem_singleton.mp ho']
          exact fresh o ho
        · intro o ho
          rcases List.mem_append.mp ho with ho | ho
          · exact h.orgSlugs o ho
          · rw [List.mem_singleton.mp ho]
            exact valid
    split
    next c org _ hc => exact created c org hc
    next => exact kept
    next => exact kept
    next c org _ hc => exact created c org hc
    next => exact kept

theorem distinct_gains {c : Catalog} {slug : String} (hslug : validateSlug slug = true) (h : Distinct c.registry)
    (gains : c.Gains slug r) : Distinct r ∧ RowsKept c.registry r := by
  obtain ⟨fresh, org, _, name, clear, rfl⟩ := gains
  refine ⟨⟨h.organizations, ?_, h.orgSlugs, fun w hw => ?_, fun w hw => ?_⟩, List.Subset.refl _, List.subset_append_left _ _⟩
  · refine List.pairwise_append.mpr ⟨h.workspaces, List.pairwise_singleton _ _, fun w hw w' hw' => ?_⟩
    obtain ⟨w₀, hw₀, rfl⟩ := List.mem_map.mp hw
    rw [List.mem_singleton.mp hw']
    exact clear w₀ hw₀
  · rcases List.mem_append.mp hw with hw | hw
    · exact h.ids w hw
    · rw [List.mem_singleton.mp hw]
      exact fresh.2
  · rcases List.mem_append.mp hw with hw | hw
    · exact h.slugs w hw
    · rw [List.mem_singleton.mp hw]
      exact hslug

theorem distinct_register {s : Server} {cronExpression : String} (x : Registration) (h : Distinct s.committed.registry) :
    Distinct (s.register accepts cronExpression x).committed.registry ∧
      RowsKept s.committed.registry (s.register accepts cronExpression x).committed.registry := by
  cases x with
  | organization m name slug => exact distinct_organization m name slug h
  | workspace p =>
    have becomes : s.committed.Becomes p.slug (s.register accepts cronExpression (.workspace p)).committed.registry := by
      have runs : Registers accepts (s.committed.Becomes p.slug)
          (WorkspacesApi.create cronExpression p.orgRef p.name p.slug) s := registers_workspace
      rcases serveAll_holds runs (undisturbed_all _ s p.moments) with ⟨res, _, hres⟩ | ⟨_, _, hpre, _⟩
      · cases res with
        | ok ws => exact hres
        | error e => exact hres
      · exact hpre
    rcases becomes with same | ⟨hslug, gains⟩
    · rw [same]
      exact ⟨h, List.Subset.refl _, List.Subset.refl _⟩
    · exact distinct_gains hslug h gains

theorem distinct_registerAll {s : Server} {cronExpression : String} (rs : List Registration)
    (h : Distinct s.committed.registry) :
    Distinct (s.registerAll accepts cronExpression rs).committed.registry ∧
      RowsKept s.committed.registry (s.registerAll accepts cronExpression rs).committed.registry := by
  induction rs generalizing s with
  | nil => exact ⟨h, List.Subset.refl _, List.Subset.refl _⟩
  | cons x rs ih =>
    obtain ⟨h₁, more₁⟩ := @distinct_register accepts _ cronExpression x h
    obtain ⟨h₂, more₂⟩ := ih h₁
    exact ⟨h₂, List.Subset.trans more₁.1 more₂.1, List.Subset.trans more₁.2 more₂.2⟩

end distinct

section references

variable {c c' : Catalog} {orgRef workspaceRef : String}

theorem Workspace.answersTo_columns (w : Workspace) (ref : String) : w.columns.answersTo ref = w.answersTo ref := rfl

theorem joined_nodup (h : Distinct c.registry) : (WorkspacesDb.joined c orgRef workspaceRef).Nodup := by
  have orgs : c.organizations.Nodup := h.organizations.imp fun hne he => hne.1 (congrArg (fun o => o.orgId.val) he)
  have spaces : c.workspaces.Nodup :=
    (List.pairwise_map.mp h.workspaces).imp fun hne he => hne.1 (congrArg (fun w => w.columns.workspaceId) he)
  refine List.Nodup.filter _ (List.nodup_flatMap.mpr ⟨fun o _ => ?_, orgs.imp fun {o o'} hne => ?_⟩)
  · exact (spaces.filter _).map fun w w' he => congrArg Prod.snd he
  · intro x hx hx'
    obtain ⟨w, _, rfl⟩ := List.mem_map.mp hx
    obtain ⟨w', _, he⟩ := List.mem_map.mp hx'
    exact hne (congrArg Prod.fst he).symm

theorem joined_unique (h : Distinct c.registry) {x y : Organization × Workspace}
    (hx : x ∈ WorkspacesDb.joined c orgRef workspaceRef) (hy : y ∈ WorkspacesDb.joined c orgRef workspaceRef) : x = y := by
  obtain ⟨o, w⟩ := x
  obtain ⟨o', w'⟩ := y
  obtain ⟨ho, hw, howner, horg, hws⟩ := WorkspacesDb.mem_joined.mp hx
  obtain ⟨ho', hw', howner', horg', hws'⟩ := WorkspacesDb.mem_joined.mp hy
  have horgs : o = o' := h.organization ho ho' horg horg'
  subst horgs
  have hcols : w.columns = w'.columns :=
    h.workspace (List.mem_map_of_mem hw) (List.mem_map_of_mem hw') (howner.trans howner'.symm) hws hws'
  have hid : w.columns.workspaceId = w'.columns.workspaceId := congrArg Workspace.workspaceId hcols
  have same := eq_of_pairwise (List.pairwise_map.mp h.workspaces)
    (fun hne => ⟨hne.1.symm, fun he => hne.2 ⟨he.1.symm, he.2.symm⟩⟩) hw hw' fun hne => hne.1 hid
  rw [same]

theorem length_le_one {β : Type} {l : List β} (hnd : l.Nodup) (hone : ∀ x ∈ l, ∀ y ∈ l, x = y) : l.length ≤ 1 := by
  match l with
  | [] => exact Nat.zero_le 1
  | [_] => exact Nat.le_refl 1
  | x :: y :: l =>
    have same := hone x (by simp) y (by simp)
    simp [same] at hnd

theorem joined_length (h : Distinct c.registry) : (WorkspacesDb.joined c orgRef workspaceRef).length ≤ 1 :=
  length_le_one (joined_nodup h) fun _ hx _ hy => joined_unique h hx hy

theorem head_of_unique {β : Type} {l : List β} {a : β} (hone : ∀ x ∈ l, ∀ y ∈ l, x = y) (ha : a ∈ l) : l.head? = some a := by
  cases l with
  | nil => cases ha
  | cons x l => rw [List.head?_cons, hone x List.mem_cons_self a ha]

theorem getByOrgAndId_eq (h : Distinct c.registry) :
    WorkspacesDb.getByOrgAndId c orgRef workspaceRef = (WorkspacesDb.joined c orgRef workspaceRef).head?.map Prod.snd :=
  WorkspacesDb.best_single (joined_length h)

theorem resolveSchema_single (h : Distinct c.registry) :
    WorkspacesDb.resolveSchema c orgRef workspaceRef =
      (((WorkspacesDb.joined c orgRef workspaceRef).filter fun (_, w) => w.status = .active).head?.map Prod.snd).map
        Workspace.schemaName := by
  rw [WorkspacesDb.resolveSchema_eq, WorkspacesDb.best_single]
  exact Nat.le_trans (List.length_filter_le _ _) (joined_length h)

/-- A row of the join stays in it, but for its schema's version. -/
theorem joined_kept {o : Organization} {w : Workspace} (more : RowsKept c.registry c'.registry)
    (h : (o, w) ∈ WorkspacesDb.joined c orgRef workspaceRef) :
    ∃ w', (o, w') ∈ WorkspacesDb.joined c' orgRef workspaceRef ∧ w'.columns = w.columns := by
  obtain ⟨ho, hw, howner, horg, hws⟩ := WorkspacesDb.mem_joined.mp h
  obtain ⟨w', hw', hcols⟩ := List.mem_map.mp (more.2 (List.mem_map_of_mem hw))
  have howner' : w'.columns.orgId = w.columns.orgId := congrArg Workspace.orgId hcols
  refine ⟨w', WorkspacesDb.mem_joined.mpr ⟨more.1 ho, hw', howner'.trans howner, horg, ?_⟩, hcols⟩
  rw [← Workspace.answersTo_columns, hcols]
  exact hws

end references

/-- However many organizations and workspaces have been created, a pair of references means one
workspace at most, of the one organization that the first of them means; and it means that
workspace whatever is created afterwards. -/
theorem references_unambiguous (cronExpression : String) (rs rs' : List Registration) (orgRef workspaceRef : String) :
    let s := Server.empty.registerAll accepts cronExpression rs
    let c := s.committed
    let c' := (s.registerAll accepts cronExpression rs').committed
    let joined := WorkspacesDb.joined c orgRef workspaceRef
    joined.length ≤ 1 ∧
      WorkspacesDb.getByOrgAndId c orgRef workspaceRef = joined.head?.map Prod.snd ∧
      WorkspacesDb.resolveSchema c orgRef workspaceRef =
        ((joined.filter fun (_, w) => w.status = .active).head?.map Prod.snd).map Workspace.schemaName ∧
      (∀ o w, (o, w) ∈ joined → w ∈ c.workspaces ∧ w.orgId = o.orgId.val ∧
        ∀ o' ∈ c.organizations, o'.answersTo orgRef = true ↔ o' = o) ∧
      (∀ w, WorkspacesDb.getByOrgAndId c orgRef workspaceRef = some w →
        ∃ w', WorkspacesDb.getByOrgAndId c' orgRef workspaceRef = some w' ∧ w'.columns = w.columns) ∧
      ∀ schema, WorkspacesDb.resolveSchema c orgRef workspaceRef = some schema →
        WorkspacesDb.resolveSchema c' orgRef workspaceRef = some schema := by
  intro s c c' joined
  obtain ⟨h, _⟩ := @distinct_registerAll accepts Server.empty cronExpression rs distinct_empty
  obtain ⟨h', more⟩ := @distinct_registerAll accepts _ cronExpression rs' h
  refine ⟨joined_length h, getByOrgAndId_eq h, resolveSchema_single h, fun o w hjoined => ?_, fun w hget => ?_,
    fun schema hres => ?_⟩
  · obtain ⟨ho, hw, howner, horg, _⟩ := WorkspacesDb.mem_joined.mp hjoined
    refine ⟨hw, howner, fun o' ho' => ⟨fun href => h.organization ho' ho href horg, fun he => ?_⟩⟩
    rw [he]
    exact horg
  · rw [getByOrgAndId_eq h] at hget
    obtain ⟨⟨o, w₀⟩, hhead, rfl⟩ := Option.map_eq_some_iff.mp hget
    obtain ⟨w', hw', hcols⟩ := joined_kept more (List.mem_of_head? hhead)
    refine ⟨w', ?_, hcols⟩
    rw [getByOrgAndId_eq h', head_of_unique (fun _ hx _ hy => joined_unique h' hx hy) hw']
    rfl
  · rw [resolveSchema_single h] at hres
    obtain ⟨w₀, hhead, hname⟩ := Option.map_eq_some_iff.mp hres
    obtain ⟨⟨o, w⟩, hhead', rfl⟩ := Option.map_eq_some_iff.mp hhead
    obtain ⟨hmem, hactive⟩ := List.mem_filter.mp (List.mem_of_head? hhead')
    obtain ⟨w', hw', hcols⟩ := joined_kept more hmem
    have hactive' : decide (w'.status = .active) = true := by
      have hs : w'.columns.status = w.columns.status := congrArg Workspace.status hcols
      have : w'.status = w.status := hs
      rw [this]
      exact hactive
    have hfiltered : (o, w') ∈ (WorkspacesDb.joined c' orgRef workspaceRef).filter fun (_, w) => w.status = .active :=
      List.mem_filter.mpr ⟨hw', hactive'⟩
    rw [resolveSchema_single h', head_of_unique (fun x hx y hy => ?_) hfiltered]
    · have hn : w'.columns.schemaName = w.columns.schemaName := congrArg Workspace.schemaName hcols
      exact congrArg some (hn.trans hname)
    · exact joined_unique h' (List.mem_filter.mp hx).1 (List.mem_filter.mp hy).1

end Invokr

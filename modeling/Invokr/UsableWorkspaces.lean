import Invokr.WorkspaceCreation
import Invokr.Runs

namespace Invokr

open TxLib

variable {accepts : String → Bool}

section site

/-- A request for a new workspace, and the moments it finds. -/
structure Post where
  orgRef : String
  name : String
  slug : String
  moments : List Occasion

inductive Event where
  | post (p : Post)
  | poll (now : Nat)

/-- The database and a worker's registry of schemas. -/
structure Site where
  server : Server
  registry : SchemaRegistry

def Catalog.empty (organizations : List Organization) : Catalog :=
  ⟨organizations, [], fun _ => none, fun _ _ _ => none, fun _ _ _ => none, fun _ => none⟩

def Site.start (organizations : List Organization) : Site :=
  ⟨⟨.empty organizations, .empty organizations⟩, ⟨[], 0⟩⟩

variable (accepts : String → Bool) (cronExpression : String) (ttl : Nat)

def Post.program (p : Post) : Setting (Except AppError Workspace) :=
  (WorkspacesApi.create cronExpression p.orgRef p.name p.slug).run

/-- The answer to a request, unless the process dies. -/
def Site.answer (d : Site) (p : Post) : Option (Except AppError Workspace) :=
  (serveAll accepts (p.program cronExpression) d.server p.moments).2

def Site.act (d : Site) : Event → Site
  | .post p => { d with server := (serveAll accepts (p.program cronExpression) d.server p.moments).1 }
  | .poll now => { d with registry := (d.registry.getActiveSchemas d.server.committed ttl now).2 }

def Site.run : Site → List Event → Site
  | d, [] => d
  | d, x :: events => (d.act accepts cronExpression ttl x).run events

def Site.Spares (d : Site) : Event → Prop
  | .post p => Undisturbed accepts (fun s o m => spared s o m = true) (p.program cronExpression) d.server p.moments
  | .poll _ => True

/-- No request of the run leaves a workspace half provisioned. -/
def Site.SparesAll : Site → List Event → Prop
  | _, [] => True
  | d, x :: events => d.Spares accepts cronExpression x ∧ (d.act accepts cronExpression ttl x).SparesAll events

end site

section run

variable {cronExpression : String} {ttl : Nat} {organizations : List Organization} {d : Site}

theorem sparing_spared : Sparing fun s o m => spared s o m = true := fun _ _ _ h => h

theorem intact_start : Intact [] (Site.start organizations).server.committed := by
  refine ⟨fun w hw => ?_, fun w hw => ?_, fun w hw => ?_, fun schema hs => ?_, fun schema _ => ⟨rfl, fun _ => rfl, fun _ => rfl⟩⟩
  · cases hw
  · cases hw
  · cases hw
  · cases hs

/-- A request that is spared leaves the catalog intact, and if it answers 201 or 409 the slug is taken. -/
theorem post_intact {p : Post} (accepted : accepts cronExpression = true)
    (intact : Intact d.registry.schemas d.server.committed) (spares : d.Spares accepts cronExpression (.post p)) :
    Intact d.registry.schemas (d.act accepts cronExpression ttl (.post p)).server.committed ∧
      ∀ r, d.answer accepts cronExpression p = some r → provisionWorkspaceOk r = true →
        ∃ org, d.server.committed.organization p.orgRef = some org ∧
          Taken (d.act accepts cronExpression ttl (.post p)).server.committed org.orgId.val p.slug := by
  have runs : Tries (Served accepts fun s o m => spared s o m = true)
      (Survives d.registry.schemas d.server fun s o m => spared s o m = true) _ _
      (WorkspacesApi.create cronExpression p.orgRef p.name p.slug) d.server := apiCreate_runs p.orgRef
  rcases serveAll_holds runs spares with ⟨r, hr, hpost⟩ | ⟨o, hnone, ⟨calls, survives⟩, hend⟩
  · cases r with
    | ok ws =>
      obtain ⟨intact', taken⟩ := hpost.2 sparing_spared accepted intact
      exact ⟨intact', fun _ _ _ => taken⟩
    | error e =>
      obtain ⟨intact', taken⟩ := hpost sparing_spared accepted intact
      refine ⟨intact', fun r hr' hok => taken ?_⟩
      have hr'' : some r = some (.error e) := hr'.symm.trans hr
      cases hr''
      simpa [provisionWorkspaceOk] using hok
  · rcases hend with hpanic | hend
    · rw [calls] at hpanic
      cases hpanic
    · refine ⟨survives hend sparing_spared intact, fun r hr _ => ?_⟩
      have : (none : Option (Except AppError Workspace)) = some r := hnone.symm.trans hr
      cases this

theorem active_schemas {r : SchemaRegistry} {c : Catalog} {now : Nat} (intact : Intact r.schemas c) :
    Intact (r.getActiveSchemas c ttl now).2.schemas c ∧
      ∀ schema ∈ (r.getActiveSchemas c ttl now).1, ∃ ws ∈ c.workspaces, ws.schemaName = schema := by
  unfold SchemaRegistry.getActiveSchemas
  split
  next => exact ⟨intact, intact.kept⟩
  next =>
    have listed : ∀ schema ∈ (c.workspaces.filter fun w => w.status = .active).map Workspace.schemaName,
        ∃ ws ∈ c.workspaces, ws.schemaName = schema := by
      intro schema hs
      obtain ⟨ws, hws, hname⟩ := List.mem_map.mp hs
      exact ⟨ws, (List.mem_filter.mp hws).1, hname⟩
    exact ⟨⟨intact.owned, intact.named, intact.provisioned, listed, intact.untouched⟩, listed⟩

theorem intact_run (accepted : accepts cronExpression = true) (events : List Event)
    (intact : Intact d.registry.schemas d.server.committed) (spares : d.SparesAll accepts cronExpression ttl events) :
    Intact (d.run accepts cronExpression ttl events).registry.schemas
      (d.run accepts cronExpression ttl events).server.committed := by
  induction events generalizing d with
  | nil => exact intact
  | cons x events ih =>
    refine ih ?_ spares.2
    cases x with
    | post p => exact (post_intact accepted intact spares.1).1
    | poll now => exact (active_schemas intact).1

theorem resolveSchema_mem {c : Catalog} {orgRef workspaceRef schema : String}
    (h : WorkspacesDb.resolveSchema c orgRef workspaceRef = some schema) : ∃ ws ∈ c.workspaces, ws.schemaName = schema := by
  obtain ⟨⟨o, ws⟩, hbest, hname⟩ := Option.map_eq_some_iff.mp h
  have listed : (o, ws) ∈ ((c.organizations.flatMap fun o =>
      (c.workspaces.filter fun w => w.orgId = o.orgId.val).map fun w => (o, w)).filter fun p =>
        (p.1.orgId.val = orgRef || p.1.slug = orgRef) && (p.2.workspaceId = workspaceRef || p.2.slug = workspaceRef) &&
          p.2.status = .active) := by
    rcases Option.or_eq_some_iff.mp hbest with h | ⟨_, h⟩
    · exact List.mem_of_find?_eq_some h
    · rcases Option.or_eq_some_iff.mp h with h | ⟨_, h⟩
      · exact List.mem_of_find?_eq_some h
      · rcases Option.or_eq_some_iff.mp h with h | ⟨_, h⟩
        · exact List.mem_of_find?_eq_some h
        · exact List.mem_of_head? h
  obtain ⟨o', _, hpair⟩ := List.mem_flatMap.mp (List.mem_filter.mp listed).1
  obtain ⟨w, hw, heq⟩ := List.mem_map.mp hpair
  cases heq
  exact ⟨ws, (List.mem_filter.mp hw).1, hname⟩

end run

section sample

def undisturbed (accepts : String → Bool) {α : Type} : Setting α → Server → List Occasion → Bool
  | .ret _, _, _ => true
  | .call o _, s, [] => spared s o none
  | .call o next, s, m :: ms =>
    spared s o (some m) && undisturbed accepts (next (o.serve accepts s m).2) (o.serve accepts s m).1 ms

theorem undisturbed_iff {α : Type} {p : Setting α} {s : Server} {ms : List Occasion} (h : undisturbed accepts p s ms = true) :
    Undisturbed accepts (fun s o m => spared s o m = true) p s ms := by
  induction p generalizing s ms with
  | ret a => trivial
  | call o next ih =>
    cases ms with
    | nil => exact h
    | cons m ms =>
      rw [undisturbed, Bool.and_eq_true] at h
      exact ⟨h.1, ih _ h.2⟩

def acme : Organization := ⟨sampleUuid 1, "Acme", "acme", .active⟩

/-- A request whose statements are served up to one that meets another fate. -/
def postUntil (t n : Nat) (fates : List Fate) : Post where
  orgRef := "acme"
  name := "Team"
  slug := "team"
  moments := (((List.replicate n Fate.served) ++ fates).zipIdx).map fun (fate, i) => ⟨fate, sampleUuid (100 * t + i), 0⟩

def onTheMinute (expression : String) : Bool := expression = "*/15 * * * *"

/-- The statement after the insert of the row is rejected; the same request is made once more. -/
def halfProvisioned : List Event := [.post (postUntil 1 2 [.rejected])]

end sample

end Invokr

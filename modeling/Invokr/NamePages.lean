import Invokr.JobPages
import Invokr.RequestCalls
import Invokr.RowRules

namespace Keyset

variable {α K : Type} [LinearOrder K] {key : α → K} {tables : List (List α)} {below : Option K} {shown : List α}
  {next : Option α}

/-- A key that every table has is shown, or is below the cursor that is left. -/
theorem Reads.shows (h : Reads key tables below shown next) {k : K} (there : ∀ rows ∈ tables, ∃ r ∈ rows, key r = k)
    (from_ : ∀ b, below = some b → k < b) : (∃ s ∈ shown, key s = k) ∨ ∃ l, next = some l ∧ k < key l := by
  induction h with
  | @one rows below shown next page =>
    obtain ⟨r, hr, rfl⟩ := there rows (List.mem_singleton.mpr rfl)
    exact (page.rest r hr from_).imp_left fun hs => ⟨r, hs, rfl⟩
  | @more rows tables below shown rest l next page _ ih =>
    obtain ⟨r, hr, rfl⟩ := there rows (List.mem_cons_self ..)
    rcases page.rest r hr from_ with hs | ⟨l', hl, hlt⟩
    · exact Or.inl ⟨r, List.mem_append_left _ hs, rfl⟩
    · cases hl
      have later := ih (fun rows hrows => there rows (List.mem_cons_of_mem _ hrows)) fun b hb => by
        cases hb
        exact hlt
      rcases later with ⟨s, hs, he⟩ | left
      · exact Or.inl ⟨s, List.mem_append_right _ hs, he⟩
      · exact Or.inr left

/-- What is shown has been read from one of the tables. -/
theorem Reads.read (h : Reads key tables below shown next) : ∀ s ∈ shown, ∃ rows ∈ tables, s ∈ rows := by
  induction h with
  | @one rows below shown next page => exact fun s hs => ⟨rows, List.mem_singleton.mpr rfl, (page.mem s hs).1⟩
  | @more rows tables below shown rest l next page _ ih =>
    intro s hs
    rcases List.mem_append.mp hs with h | h
    · exact ⟨rows, List.mem_cons_self .., (page.mem s h).1⟩
    · obtain ⟨rows', hrows, hs'⟩ := ih s h
      exact ⟨rows', List.mem_cons_of_mem _ hrows, hs'⟩

end Keyset

namespace Invokr

open TxLib

variable {env : Setup}

/-- How the database orders texts; different texts have different places. -/
structure Collation where
  Place : Type
  order : LinearOrder Place
  place : String → Place
  apart : Function.Injective place

instance (c : Collation) : LinearOrder c.Place := c.order

def nameOf (tb : Table) (r : tb.Row) : String := (rowName tb r).getD ""

/-- `WHERE name > $1 ORDER BY name ASC LIMIT $2`, the condition only with a cursor. -/
def listedByName (c : Collation) (tb : Table) (snap : Snapshot Pg) (schema : String) (cursor : Option String) (limit : Int) :
    List tb.Row :=
  let rows : List tb.Row := (matching snap schema tb fun _ r =>
    cursor.all fun n => c.place n < c.place (nameOf tb r)).filterMap (snap.row tb)
  (rows.insertionSort fun a b => c.place (nameOf tb a) ≤ c.place (nameOf tb b)).take limit.toNat

/-- The handlers and statements that list a table by its names. -/
def listByName (env : Setup) (c : Collation) (tb : Table) (schemaName : String) (params : PaginationParams) :
    Try Pg AppError (PaginatedResponse tb.Row) := do
  scopedConnection schemaName
  let db : DbContext := ⟨schemaName, env.tablePrefix, false⟩
  let items ← ExceptT.adapt fromDb (db.execute (do
    -- tagged as the listing of the jobs is
    let snap ← query (M := Pg) .listJobs
    return listedByName c tb snap db.schema params.decodeCursor (params.effectiveLimit + 1)))
  return paginated params (nameOf tb) items

def PayloadSpecsApi.list (env : Setup) (c : Collation) (schemaName : String) (params : PaginationParams) :
    Try Pg AppError (PaginatedResponse PayloadSpec) := listByName env c .payloadSpecs schemaName params

def ConfigsApi.list (env : Setup) (c : Collation) (schemaName : String) (params : PaginationParams) :
    Try Pg AppError (PaginatedResponse Config) := listByName env c .configs schemaName params

def SecretsApi.list (env : Setup) (c : Collation) (schemaName : String) (params : PaginationParams) :
    Try Pg AppError (PaginatedResponse Secret) := listByName env c .secrets schemaName params

def EndpointsApi.list (env : Setup) (c : Collation) (schemaName : String) (params : PaginationParams) :
    Try Pg AppError (PaginatedResponse Endpoint) := listByName env c .endpoints schemaName params

section names

/-- Rows are stored under their names. -/
def nameRule : RowRule Pg where
  kept tb k r := byName tb = true → rowName tb r = some k.id
  held _ tb k r := byName tb = true → rowName tb r = some k.id
  settles _ _ _ _ h := h

theorem names_neutral : Neutral (Op.Obeys nameRule) :=
  ⟨fun _ _ => trivial, trivial, trivial, fun _ => trivial, trivial, trivial⟩

theorem names_labours : Labours (Op.Obeys nameRule) where
  neutral := names_neutral
  claim _ _ _ _ _ _ h := by cases h
  processes schemaName executionId :=
    { ext := fun _ => trivial
      halt := trivial
      read := fun _ _ => trivial
      retire := fun _ _ _ _ _ _ h => by cases h
      drop := fun _ => trivial
      attempt := fun _ _ _ h => by cases h
      line := fun _ _ _ _ h => by cases h
      finish := trivial
      success := fun _ _ _ _ _ h => by cases h
      retry := fun _ _ _ _ _ _ h => by cases h
      failed := fun _ _ _ _ h => by cases h }

theorem names_serves (schemaName : String) : Serves (Op.Obeys nameRule) schemaName := by
  refine ⟨names_neutral, ?_, ?_, ?_, ?_, ?_, ?_, ?_, ?_, ?_⟩
  · exact fun stmt build h id now hb => by cases hb
  · exact fun stmt k keep patch h now r _ _ hb => by cases hb
  · exact fun stmt orIgnore build h id now hb => by cases hb
  · exact fun stmt k keep h _ now e _ _ hb => by cases hb
  · exact fun jobId row now hb => by cases hb
  · exact fun jobId => trivial
  · exact fun stmt tb build hb h id now _ => (h id now).2
  · exact fun stmt tb k keep patch hb h names now r hr _ _ => (names now r).trans (hr hb)
  · exact fun stmt tb k hb h => trivial

theorem name_of_key {tb : Table} (hb : byName tb = true) {acts : List (Action (service env))} {k : Key} {r : tb.Row}
    (hr : (after acts).world.rows tb k = some r) : nameOf tb r = k.id := by
  have obeys := Pool.obeys (S := service env) (R := nameRule) (serves_all names_labours names_serves)
    (fun _ _ _ _ _ _ h => h) acts
  have name := obeys.rows tb k r hr hb
  rw [nameOf, name, Option.getD_some]

end names

section pages

variable {c : Collation} {tb : Table} {schemaName : String} {limit : Int}

/-- A page of a table listed by its names, read at a moment of the run by a request of its own. -/
def ReadsNames (env : Setup) (c : Collation) (tb : Table) (schemaName : String) (limit : Int)
    (acts : List (Action (service env))) (cursor : Option String) (r : PaginatedResponse tb.Row) : Prop :=
  ∃ t envs w', (after acts).world.sessions t = none ∧
    World.play t (listByName env c tb schemaName ⟨cursor, limit⟩).run envs (after acts).world = some (w', .ok r)

theorem reads_names {acts : List (Action (service env))} {cursor : Option String} {r : PaginatedResponse tb.Row}
    (h : ReadsNames env c tb schemaName limit acts cursor r) : ∃ now, r = paginated ⟨cursor, limit⟩ (nameOf tb)
      (listedByName c tb ⟨now, (after acts).world.rows, (after acts).world.keys⟩ schemaName
        (PaginationParams.decodeCursor ⟨cursor, limit⟩) (PaginationParams.effectiveLimit ⟨cursor, limit⟩ + 1)) := by
  obtain ⟨t, envs, w', idle, play⟩ := h
  have body : Solo t (after acts).world (fun r _ => ∃ now, r = paginated ⟨cursor, limit⟩ (nameOf tb)
      (listedByName c tb ⟨now, (after acts).world.rows, (after acts).world.keys⟩ schemaName
        (PaginationParams.decodeCursor ⟨cursor, limit⟩) (PaginationParams.effectiveLimit ⟨cursor, limit⟩ + 1)))
      (fun _ _ => True) (listByName env c tb schemaName ⟨cursor, limit⟩) (after acts).world := by
    refine tries_bind ((solo_connect (between_start idle)).mono (fun _ w₁ hi => ?_) fun _ _ h => h)
    refine tries_bind (tries_adapt ((solo_read rfl hi).mono (fun items w₂ hr => ?_) fun _ _ h => h))
    obtain ⟨_, now, rfl⟩ := hr
    exact tries_pure ⟨now, rfl⟩
  have ends := World.play_ends play
  exact (solo_ends (Beside.refl (keeps_all acts).sound) body ends).2

/-- The place of a row in its listing, from the last to the first. -/
def placeFrom (c : Collation) (tb : Table) (r : tb.Row) : (Collation.Place c)ᵒᵈ := OrderDual.toDual (c.place (nameOf tb r))

/-- The rows of the table at a moment of the run. -/
def rowsAt (tb : Table) (schemaName : String) (acts : List (Action (service env))) : List tb.Row :=
  rowsOf (committed acts) schemaName tb fun _ => true

theorem listedByName_eq {snap : Snapshot Pg} {cursor : Option String} {n : Int} :
    listedByName c tb snap schemaName cursor n = Keyset.select (placeFrom c tb) (rowsOf snap schemaName tb fun _ => true)
      (cursor.map fun name => OrderDual.toDual (c.place name)) n.toNat := by
  have rows := rowsOf_and snap schemaName tb (fun _ => true) fun r => cursor.all fun n => c.place n < c.place (nameOf tb r)
  simp only [Bool.true_and] at rows
  have filters : (fun r : tb.Row => (cursor.map fun name => OrderDual.toDual (c.place name)).all (placeFrom c tb r < ·)) =
      fun r => cursor.all fun n => c.place n < c.place (nameOf tb r) := by
    funext r
    cases cursor <;> rfl
  rw [Keyset.select, filters, ← rows]
  rfl

theorem mem_rowsAt (hb : byName tb = true) {acts : List (Action (service env))} {r : tb.Row} :
    r ∈ rowsAt tb schemaName acts ↔ (after acts).world.rows tb ⟨schemaName, nameOf tb r⟩ = some r := by
  constructor
  · intro h
    obtain ⟨k, _, hs, hr, _⟩ := mem_rowsOf.mp h
    have hid := name_of_key hb hr
    subst hs
    rw [hid]
    exact hr
  · exact fun hr => mem_rowsOf.mpr ⟨_, committed_keyed hr, rfl, hr, rfl⟩

/-- Following the cursors of a listing by names, from page to page and with any steps of the deployment between
the pages, gives rows in strictly ascending order of their names. Each of them was in the table when its page was
read; where no cursor is left, every name that was in the table all the time has been given; and there are no more
pages than names and one. -/
theorem name_paging_complete (hb : byName tb = true) {first : List (Action (service env))}
    {moments : List (List (Action (service env)))} (chain : (first :: moments).IsChain (· <+: ·)) {shown : List tb.Row}
    {cursor : Option String}
    (follows : Follows (ReadsNames env c tb schemaName limit) (first :: moments) none shown cursor) :
    shown.Pairwise (fun a b => c.place (nameOf tb a) < c.place (nameOf tb b)) ∧
      (∀ r ∈ shown, ∃ acts ∈ first :: moments, (after acts).world.rows tb ⟨schemaName, nameOf tb r⟩ = some r) ∧
      (cursor = none → ∀ name, (∀ acts ∈ first :: moments, ((after acts).world.rows tb ⟨schemaName, name⟩).isSome = true) →
        ∃ r ∈ shown, nameOf tb r = name) ∧
      ∀ names : List String, (∀ acts ∈ first :: moments, ∀ name, ((after acts).world.rows tb ⟨schemaName, name⟩).isSome = true →
        name ∈ names) → (first :: moments).length ≤ names.length + 1 := by
  have distinct : ∀ acts : List (Action (service env)), (rowsAt tb schemaName acts).Pairwise
      fun a b => placeFrom c tb a ≠ placeFrom c tb b := by
    intro acts
    have apart : (rowsAt tb schemaName acts).Pairwise fun a b => nameOf tb a ≠ nameOf tb b :=
      rowsOf_distinct tb (fun _ => true) (nameOf tb) fun k r hr => name_of_key hb hr
    exact apart.imp fun hne he => hne (c.apart (OrderDual.toDual.injective he))
  obtain ⟨last, hcursor, reads⟩ := follows.reads (nameOf tb) (placeFrom c tb) (rowsAt tb schemaName)
    (PaginationParams.effectiveLimit ⟨none, limit⟩).toNat
    (by have := effectiveLimit_pos ⟨none, limit⟩; omega) distinct (by
      intro acts r read
      obtain ⟨now, rfl⟩ := reads_names read
      rw [listedByName_eq]
      exact paginated_isPage _ _ _) (by
      intro acts acts' l r hl before read
      obtain ⟨now, rfl⟩ := reads_names read
      rw [listedByName_eq, decodeCursor_encodeCursor]
      exact paginated_isPage ⟨some (encodeCursor (nameOf tb l)), limit⟩ _ _) chain none rfl (fun l h => by cases h)
  have ascends : shown.Pairwise (fun a b => c.place (nameOf tb a) < c.place (nameOf tb b)) :=
    reads.descends.1.imp fun h => OrderDual.toDual_lt_toDual.mp h
  have read : ∀ r ∈ shown, ∃ acts ∈ first :: moments, (after acts).world.rows tb ⟨schemaName, nameOf tb r⟩ = some r := by
    intro r hr
    obtain ⟨rows, hrows, hmem⟩ := reads.read r hr
    obtain ⟨acts, hacts, rfl⟩ := List.mem_map.mp hrows
    exact ⟨acts, hacts, (mem_rowsAt hb).mp hmem⟩
  refine ⟨ascends, read, fun hnone name there => ?_, fun names covers => ?_⟩
  · have found : ∀ rows ∈ (first :: moments).map (rowsAt tb schemaName), ∃ r ∈ rows,
        placeFrom c tb r = OrderDual.toDual (c.place name) := by
      intro rows hrows
      obtain ⟨acts, hacts, rfl⟩ := List.mem_map.mp hrows
      obtain ⟨r, hr⟩ := Option.isSome_iff_exists.mp (there acts hacts)
      have hname : nameOf tb r = name := name_of_key hb hr
      refine ⟨r, (mem_rowsAt hb).mpr (by rw [hname]; exact hr), ?_⟩
      rw [placeFrom, hname]
    rcases reads.shows found (fun b h => by cases h) with ⟨s, hs, he⟩ | ⟨l, hl, _⟩
    · exact ⟨s, hs, c.apart (OrderDual.toDual.injective he)⟩
    · rw [hl, hnone] at hcursor
      cases hcursor
  · have pages := reads.length_le
    have nodup : (shown.map (nameOf tb)).Nodup := by
      refine List.pairwise_map.mpr (ascends.imp fun h he => ?_)
      rw [he] at h
      exact lt_irrefl _ h
    have subset : shown.map (nameOf tb) ⊆ names := by
      intro name hname
      obtain ⟨r, hr, rfl⟩ := List.mem_map.mp hname
      obtain ⟨acts, hacts, hrow⟩ := read r hr
      exact covers acts hacts _ (by rw [hrow]; rfl)
    have fewer := (List.subperm_of_subset nodup subset).length_le
    rw [List.length_map] at fewer pages
    omega

end pages

section sample

/-- Texts in the order of their characters. -/
def plainCollation : Collation := ⟨String, inferInstance, fun s => s, fun _ _ h => h⟩

/-- Two endpoints. -/
def twoEndpoints : List (Action (service sample)) :=
  serve 1 8 (.createEndpoint "acme" sampleEndpoint) (.response 200 "") ++
    serve 2 8 (.createEndpoint "acme" { sampleEndpoint with name := "ping" }) (.response 200 "")

/-- The first of them is deleted. -/
def oneDeleted : List (Action (service sample)) :=
  twoEndpoints ++ serve 3 12 (.deleteEndpoint "acme" "hook") (.response 200 "")

/-- A page with one endpoint, undisturbed. -/
def readNames (acts : List (Action (service sample))) (cursor : Option String) : Option (PaginatedResponse Endpoint) :=
  match (after acts).world.sessions 9, World.play 9 (EndpointsApi.list sample plainCollation "acme" ⟨cursor, 1⟩).run
      ((List.range 5).map fun i => ⟨false, sampleUuid (900 + i), answers (900 + i) (.response 200 "")⟩) (after acts).world with
  | none, some (_, .ok r) => some r
  | _, _ => none

theorem readNames_reads {acts : List (Action (service sample))} {cursor : Option String} {r : PaginatedResponse Endpoint}
    (h : readNames acts cursor = some r) : ReadsNames sample plainCollation .endpoints "acme" 1 acts cursor r := by
  unfold readNames at h
  split at h
  next w' _ idle play =>
    cases h
    exact ⟨9, _, w', idle, play⟩
  next => cases h

/-- The first page leaves a cursor, and the second, read when the row of the cursor is gone, does not. -/
def namePages : Bool :=
  match readNames twoEndpoints none with
  | some ⟨_, some c⟩ => (readNames oneDeleted (some c)).any fun r => r.cursor.isNone
  | _ => false

theorem name_paging_complete_two : ∃ shown : List Endpoint,
    Follows (ReadsNames sample plainCollation .endpoints "acme" 1) [twoEndpoints, oneDeleted] none shown none ∧
      ∃ r ∈ shown, r.name = "ping" := by
  have pages : namePages = true := by decide +kernel
  have there : ((after twoEndpoints).world.rows .endpoints ⟨"acme", "ping"⟩).isSome = true ∧
      ((after oneDeleted).world.rows .endpoints ⟨"acme", "ping"⟩).isSome = true := by decide +kernel
  unfold namePages at pages
  split at pages
  next data c hfirst =>
    obtain ⟨r, hsecond, hnone⟩ := (Option.any_eq_true _ _).mp pages
    have cursor : r.cursor = none := by simpa using hnone
    have follows : Follows (ReadsNames sample plainCollation .endpoints "acme" 1) [twoEndpoints, oneDeleted] none
        (data ++ r.data) r.cursor := .more (r := ⟨data, some c⟩) (readNames_reads hfirst) rfl (.one (readNames_reads hsecond))
    have chain : [twoEndpoints, oneDeleted].IsChain (· <+: ·) := by
      simp [oneDeleted]
    rw [cursor] at follows
    refine ⟨_, follows, (name_paging_complete rfl chain follows).2.2.1 rfl "ping" fun acts hacts => ?_⟩
    rcases List.mem_cons.mp hacts with rfl | hacts
    · exact there.1
    · rw [List.mem_singleton.mp hacts]
      exact there.2
  next => cases pages

end sample

end Invokr

import Invokr.Paging
import Mathlib.Data.Prod.Lex
import Mathlib.Data.String.Basic

namespace Invokr

open TxLib

variable {env : Setup} {pg : PgRules} {schemaName : String} {filters : JobFilters} {limit : Int}

/-- The rows of a table that a statement finds. -/
def rowsOf (snap : Snapshot Pg) (schema : String) (tb : Table) (keep : tb.Row → Bool) : List tb.Row :=
  (matching snap schema tb fun _ r => keep r).filterMap (snap.row tb)

theorem mem_rowsOf {snap : Snapshot Pg} {schema : String} {tb : Table} {keep : tb.Row → Bool} {r : tb.Row} :
    r ∈ rowsOf snap schema tb keep ↔ ∃ k ∈ snap.keys tb, k.schema = schema ∧ snap.row tb k = some r ∧ keep r = true := by
  simp only [rowsOf, matching, List.mem_filterMap, List.mem_filter, Bool.and_eq_true, decide_eq_true_eq]
  constructor
  · rintro ⟨k, ⟨hk, hs, hr⟩, he⟩
    rw [he] at hr
    exact ⟨k, hk, hs, he, hr⟩
  · rintro ⟨k, hk, hs, he, hr⟩
    exact ⟨k, ⟨hk, hs, by rw [he]; exact hr⟩, he⟩

/-- A further condition picks rows out of those found. -/
theorem rowsOf_and (snap : Snapshot Pg) (schema : String) (tb : Table) (p q : tb.Row → Bool) :
    rowsOf snap schema tb (fun r => p r && q r) = (rowsOf snap schema tb p).filter q := by
  simp only [rowsOf, matching]
  generalize snap.keys tb = ks
  induction ks with
  | nil => rfl
  | cons k ks ih =>
    cases hr : snap.row tb k with
    | none => simpa [List.filter_cons, hr] using ih
    | some r =>
      by_cases hs : k.schema = schema <;> by_cases hp : p r = true <;> by_cases hq : q r = true <;>
        simp_all

/-- What a listing that has not been filtered by status can never lose. -/
theorem passes_same {j j' : Job} (same : SameJob j j') (anyStatus : filters.status = []) :
    Jobs.passes pg filters j' = Jobs.passes pg filters j := by
  have hj := same.1
  rw [← hj]
  simp [Jobs.passes, anyStatus]

/-- The place of a job in the listing. -/
def place (j : Job) : Int ×ₗ String := toLex (j.createdAt, j.jobId)

theorem newestFirst_iff {a b : Job} : Jobs.newestFirst a b = true ↔ place b ≤ place a := by
  simp [Jobs.newestFirst, place, Prod.Lex.toLex_le_toLex]

theorem beforeCursor_eq {snap : Snapshot Pg} {cursor : String} {c : Job}
    (h : (snap.row .jobs ⟨schemaName, cursor⟩ : Option Job) = some c) (j : Job) :
    Jobs.beforeCursor snap schemaName cursor j = decide (place j < toLex (c.createdAt, cursor)) := by
  rw [Bool.eq_iff_iff]
  simp [Jobs.beforeCursor, h, place, Prod.Lex.toLex_lt_toLex]

theorem sorted_eq (rows : List Job) : (rows.insertionSort fun a b => Jobs.newestFirst a b = true) =
    rows.insertionSort fun a b => place b ≤ place a := by
  have h := List.map_insertionSort (fun a b => Jobs.newestFirst a b = true) (fun a b => place b ≤ place a) id rows
    fun a _ b _ => newestFirst_iff
  simpa using h

theorem listed_none {snap : Snapshot Pg} {n : Int} : Jobs.listed pg snap schemaName none n filters =
    Keyset.select place (rowsOf snap schemaName .jobs (Jobs.passes pg filters)) none n.toNat := by
  simp only [Jobs.listed, Keyset.select, sorted_eq, Option.all_none, Bool.and_true, List.filter_true]
  rfl

theorem listed_some {snap : Snapshot Pg} {n : Int} {cursor : String} {c : Job}
    (h : (snap.row .jobs ⟨schemaName, cursor⟩ : Option Job) = some c) :
    Jobs.listed pg snap schemaName (some cursor) n filters =
      Keyset.select place (rowsOf snap schemaName .jobs (Jobs.passes pg filters)) (some (toLex (c.createdAt, cursor)))
        n.toNat := by
  have rows := rowsOf_and snap schemaName .jobs (Jobs.passes pg filters) (Jobs.beforeCursor snap schemaName cursor)
  have before : Jobs.beforeCursor snap schemaName cursor = fun j => decide (place j < toLex (c.createdAt, cursor)) :=
    funext (beforeCursor_eq h)
  rw [before] at rows
  simp only [Jobs.listed, Keyset.select, sorted_eq, Option.all_some, before]
  rw [← rows]
  rfl

section moments

variable {acts acts' : List (Action (service env))}

/-- What a statement can see of the committed rows. -/
def committed (acts : List (Action (service env))) : Snapshot Pg :=
  ⟨(after acts).world.clock, (after acts).world.rows, (after acts).world.keys⟩

theorem committed_keyed {tb : Table} {k : Key} {r : tb.Row} (h : (after acts).world.rows tb k = some r) :
    k ∈ (after acts).world.keys tb := (keeps_all acts).sound.keyed tb k r (Or.inl h)

/-- Rows of one schema that carry the identifiers of their keys are told apart by these. -/
theorem rowsOf_distinct (tb : Table) (keep : tb.Row → Bool) (id : tb.Row → String)
    (identified : ∀ k r, (after acts).world.rows tb k = some r → id r = k.id) :
    (rowsOf (committed acts) schemaName tb keep).Pairwise fun a b => id a ≠ id b := by
  have nodup : ((committed acts).keys tb).Nodup := Pool.keys_nodup acts tb
  refine List.pairwise_filterMap.mpr ((nodup.filter _).imp_of_mem fun {k k'} hk hk' hne r hr r' hr' he => hne ?_)
  have hs : k.schema = schemaName := by
    have := (List.mem_filter.mp hk).2
    simp only [Bool.and_eq_true, decide_eq_true_eq] at this
    exact this.1
  have hs' : k'.schema = schemaName := by
    have := (List.mem_filter.mp hk').2
    simp only [Bool.and_eq_true, decide_eq_true_eq] at this
    exact this.1
  have hid : k.id = k'.id := by rw [← identified k r hr, ← identified k' r' hr', he]
  cases k
  cases k'
  simp_all

end moments

/-- A page of the jobs, read at a moment of the run by a request of its own. -/
def ReadsJobs (env : Setup) (pg : PgRules) (schemaName : String) (limit : Int) (filters : JobFilters)
    (acts : List (Action (service env))) (cursor : Option String) (r : PaginatedResponse Job) : Prop :=
  ∃ t envs w', (after acts).world.sessions t = none ∧
    World.play t (JobsApi.list env pg schemaName ⟨cursor, limit⟩ filters).run envs (after acts).world = some (w', .ok r)

theorem reads_jobs {acts : List (Action (service env))} {cursor : Option String} {r : PaginatedResponse Job}
    (h : ReadsJobs env pg schemaName limit filters acts cursor r) : ∃ now, r = paginated ⟨cursor, limit⟩ Job.jobId
      (Jobs.listed pg ⟨now, (after acts).world.rows, (after acts).world.keys⟩ schemaName
        (PaginationParams.decodeCursor ⟨cursor, limit⟩) (PaginationParams.effectiveLimit ⟨cursor, limit⟩ + 1) filters) := by
  obtain ⟨t, envs, w', idle, play⟩ := h
  have body : Solo t (after acts).world (fun r _ => ∃ now, r = paginated ⟨cursor, limit⟩ Job.jobId
      (Jobs.listed pg ⟨now, (after acts).world.rows, (after acts).world.keys⟩ schemaName
        (PaginationParams.decodeCursor ⟨cursor, limit⟩) (PaginationParams.effectiveLimit ⟨cursor, limit⟩ + 1) filters))
      (fun _ _ => True) (JobsApi.list env pg schemaName ⟨cursor, limit⟩ filters) (after acts).world := by
    refine tries_bind ((solo_connect (between_start idle)).mono (fun _ w₁ hi => ?_) fun _ _ h => h)
    refine tries_bind (tries_adapt ((solo_read rfl hi).mono (fun items w₂ hr => ?_) fun _ _ h => h))
    obtain ⟨_, now, rfl⟩ := hr
    exact tries_pure ⟨now, rfl⟩
  have ends := World.play_ends play
  exact (solo_ends (Beside.refl (keeps_all acts).sound) body ends).2

/-- The jobs that the listing is about, at a moment of the run. -/
def matchingJobs (pg : PgRules) (schemaName : String) (filters : JobFilters) (acts : List (Action (service env))) :
    List Job := rowsOf (committed acts) schemaName .jobs (Jobs.passes pg filters)

theorem mem_matchingJobs {acts : List (Action (service env))} {j : Job} :
    j ∈ matchingJobs pg schemaName filters acts ↔
      (after acts).world.rows .jobs ⟨schemaName, j.jobId⟩ = some j ∧ Jobs.passes pg filters j = true := by
  constructor
  · intro h
    obtain ⟨k, _, hs, hr, hp⟩ := mem_rowsOf.mp h
    have hid := ((keeps_all acts).inv.linked.job k j hr).1
    subst hs
    rw [hid]
    exact ⟨hr, hp⟩
  · rintro ⟨hr, hp⟩
    exact mem_rowsOf.mpr ⟨_, committed_keyed hr, rfl, hr, hp⟩

theorem jobs_apart {acts : List (Action (service env))} : ∀ a ∈ matchingJobs pg schemaName filters acts,
    ∀ b ∈ matchingJobs pg schemaName filters acts, a.jobId = b.jobId → place a = place b := by
  intro a ha b hb same
  have hra := (mem_matchingJobs.mp ha).1
  rw [same, (mem_matchingJobs.mp hb).1] at hra
  cases hra
  rfl

theorem jobs_keep (anyStatus : filters.status = []) {acts acts' : List (Action (service env))} (before : acts <+: acts') :
    Keyset.Keeps place Job.jobId (matchingJobs pg schemaName filters acts) (matchingJobs pg schemaName filters acts') := by
  intro j hj
  obtain ⟨hr, hp⟩ := mem_matchingJobs.mp hj
  obtain ⟨j', hj', same⟩ := (later_since before).job _ j hr
  have hid := same.columns.1
  have hcreated : j'.createdAt = j.createdAt := by
    have hs := same.1
    rw [← hs]
  refine ⟨j', mem_matchingJobs.mpr ⟨by rw [hid]; exact hj', by rw [passes_same same anyStatus]; exact hp⟩, ?_, hid⟩
  simp only [place, hid, hcreated]

/-- Following the cursors of the job listing, from page to page and with any steps of the deployment
between the pages, gives the jobs in strictly descending order and none of them twice. Where no
cursor is left it has given every job of the first page's moment, and there are no more pages than
jobs and one. -/
theorem job_paging_complete (anyStatus : filters.status = []) {first : List (Action (service env))}
    {moments : List (List (Action (service env)))} (chain : (first :: moments).IsChain (· <+: ·)) {shown : List Job}
    {cursor : Option String}
    (follows : Follows (ReadsJobs env pg schemaName limit filters) (first :: moments) none shown cursor) :
    shown.Pairwise (fun a b => b.createdAt < a.createdAt ∨ (b.createdAt = a.createdAt ∧ b.jobId < a.jobId)) ∧
      (shown.map Job.jobId).Nodup ∧
      (cursor = none → ∀ id, ∀ j : Job, (after first).world.rows .jobs ⟨schemaName, id⟩ = some j →
        Jobs.passes pg filters j = true → ∃ j' ∈ shown, j'.jobId = id ∧ j'.createdAt = j.createdAt) ∧
      ∀ last, (first :: moments).getLast? = some last → ∀ ids : List String,
        (∀ id, ∀ j : Job, (after last).world.rows .jobs ⟨schemaName, id⟩ = some j → Jobs.passes pg filters j = true →
          id ∈ ids) → (first :: moments).length ≤ ids.length + 1 := by
  have distinct : ∀ acts : List (Action (service env)), (matchingJobs pg schemaName filters acts).Pairwise
      fun a b => place a ≠ place b := by
    intro acts
    have apart : (matchingJobs pg schemaName filters acts).Pairwise fun a b => a.jobId ≠ b.jobId :=
      rowsOf_distinct .jobs (Jobs.passes pg filters) Job.jobId fun k j hj => ((keeps_all acts).inv.linked.job k j hj).1
    refine apart.imp fun hne he => hne ?_
    exact congrArg (fun p => (ofLex p).2) he
  obtain ⟨last, hcursor, reads⟩ := follows.reads Job.jobId place (matchingJobs pg schemaName filters)
    (PaginationParams.effectiveLimit ⟨none, limit⟩).toNat
    (by have := effectiveLimit_pos ⟨none, limit⟩; omega) distinct (by
      intro acts r read
      obtain ⟨now, rfl⟩ := reads_jobs read
      rw [show PaginationParams.decodeCursor ⟨none, limit⟩ = none from rfl, listed_none]
      exact paginated_isPage _ _ _) (by
      intro acts acts' l r hl before read
      obtain ⟨now, rfl⟩ := reads_jobs read
      obtain ⟨hr, hp⟩ := mem_matchingJobs.mp hl
      obtain ⟨l', hl', same⟩ := (later_since before).job _ l hr
      have hcreated : l'.createdAt = l.createdAt := by
        have hs := same.1
        rw [← hs]
      rw [decodeCursor_encodeCursor, listed_some hl', hcreated]
      exact paginated_isPage ⟨some (encodeCursor l.jobId), limit⟩ _ _) chain none rfl (fun l h => by cases h)
  have tables : ((first :: moments).map (matchingJobs pg schemaName filters)).IsChain (Keyset.Keeps place Job.jobId) :=
    List.isChain_map_of_isChain _ (fun _ _ before => jobs_keep anyStatus before) chain
  obtain ⟨end_, hend⟩ : ∃ end_, (first :: moments).getLast? = some end_ :=
    ⟨_, List.getLast?_eq_some_getLast (List.cons_ne_nil _ _)⟩
  have hlast : ((first :: moments).map (matchingJobs pg schemaName filters)).getLast? =
      some (matchingJobs pg schemaName filters end_) := by
    rw [List.getLast?_map, hend]
    rfl
  refine ⟨reads.descends.1.imp fun {a b} h => ?_, reads.nodup tables hlast jobs_apart, fun hnone id j hj hp => ?_,
    fun acts hacts ids covers => ?_⟩
  · simpa [place, Prod.Lex.toLex_lt_toLex] using h
  · have hid := ((keeps_all first).inv.linked.job _ j hj).1
    have hmem : j ∈ matchingJobs pg schemaName filters first := mem_matchingJobs.mpr ⟨by rw [hid]; exact hj, hp⟩
    rcases reads.complete tables _ rfl j hmem (fun b h => by cases h) with ⟨s, hs, he, hs'⟩ | ⟨l, hl, _⟩
    · exact ⟨s, hs, hs'.trans hid, congrArg (fun p => (ofLex p).1) he⟩
    · rw [hl, hnone] at hcursor
      cases hcursor
  · rw [hend] at hacts
    cases hacts
    have pages := reads.bounded tables hlast jobs_apart ids fun j hj => by
      obtain ⟨hr, hp⟩ := mem_matchingJobs.mp hj
      exact covers _ j hr hp
    simpa using pages

section sample

theorem rounded_near (i : Int) : |1000 * ((i + 500) / 1000) - i| ≤ 500 := by
  rw [abs_le]
  omega

/-- Letters are taken as they are, and of two microseconds equally near the later one. -/
def plainRules : PgRules := ⟨fun c => c, fun i => (i + 500) / 1000, rounded_near⟩

def noFilters : JobFilters := ⟨none, [], [], none, [], none, none⟩

/-- An endpoint and two jobs. -/
def twoJobs : List (Action (service sample)) :=
  serve 1 8 (.createEndpoint "acme" sampleEndpoint) (.response 200 "") ++
    serve 2 14 (.createJob "acme" sampleJob) (.response 200 "") ++
    serve 3 14 (.createJob "acme" { sampleJob with idempotencyKey := some "order-2" }) (.response 200 "")

/-- One of them is cancelled. -/
def oneCancelled : List (Action (service sample)) :=
  twoJobs ++ serve 4 20 (.cancelJob "acme" (sampleId 208)) (.response 200 "")

/-- A page with one job, undisturbed. -/
def readPage (acts : List (Action (service sample))) (cursor : Option String) : Option (PaginatedResponse Job) :=
  match (after acts).world.sessions 9, World.play 9 (JobsApi.list sample plainRules "acme" ⟨cursor, 1⟩ noFilters).run
      ((List.range 5).map fun i => ⟨false, sampleUuid (900 + i), answers (900 + i) (.response 200 "")⟩) (after acts).world with
  | none, some (_, .ok r) => some r
  | _, _ => none

theorem readPage_reads {acts : List (Action (service sample))} {cursor : Option String} {r : PaginatedResponse Job}
    (h : readPage acts cursor = some r) : ReadsJobs sample plainRules "acme" 1 noFilters acts cursor r := by
  unfold readPage at h
  split at h
  next w' _ idle play =>
    cases h
    exact ⟨9, _, w', idle, play⟩
  next => cases h

/-- The first page leaves a cursor, and the second, read after the cancellation, does not. -/
def twoPages : Bool :=
  match readPage twoJobs none with
  | some ⟨_, some c⟩ => (readPage oneCancelled (some c)).any fun r => r.cursor.isNone
  | _ => false

theorem job_paging_complete_two : ∃ shown : List Job,
    Follows (ReadsJobs sample plainRules "acme" 1 noFilters) [twoJobs, oneCancelled] none shown none ∧
      ∀ id, ∀ j : Job, (after twoJobs).world.rows .jobs ⟨"acme", id⟩ = some j → Jobs.passes plainRules noFilters j = true →
        ∃ j' ∈ shown, j'.jobId = id ∧ j'.createdAt = j.createdAt := by
  have pages : twoPages = true := by decide +kernel
  unfold twoPages at pages
  split at pages
  next data c hfirst =>
    obtain ⟨r, hsecond, hnone⟩ := (Option.any_eq_true _ _).mp pages
    have cursor : r.cursor = none := by simpa using hnone
    have follows : Follows (ReadsJobs sample plainRules "acme" 1 noFilters) [twoJobs, oneCancelled] none (data ++ r.data) r.cursor :=
      .more (r := ⟨data, some c⟩) (readPage_reads hfirst) rfl (.one (readPage_reads hsecond))
    have chain : [twoJobs, oneCancelled].IsChain (· <+: ·) := by
      simp [oneCancelled]
    rw [cursor] at follows
    exact ⟨_, follows, (job_paging_complete rfl chain follows).2.2.1 rfl⟩
  next => cases pages

end sample

end Invokr

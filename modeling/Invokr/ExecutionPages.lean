import Invokr.JobPages
import Invokr.Schedules

namespace Invokr

open TxLib

variable {env : Setup} {g : Guard (service env)} {req : Request env} {now : Int} {D D' : Rows Pg}

/-- An execution carries a key: its job's own, or for a CRON job the one that tells its moment. -/
def Stamped (D : Rows Pg) : Prop :=
  ∀ k, ∀ e : Execution, D .executions k = some e → e.idempotencyKey ≠ none ∧
    ∀ j : Job, D .jobs (jobKey k e) = some j → (j.triggerType ≠ .cron ∧ e.idempotencyKey = j.idempotencyKey) ∨
      (j.triggerType = .cron ∧ e.idempotencyKey = some (Jobs.cronIdempotencyKey e.jobId e.createdAt))

theorem Stamped.commit (h : Stamped D) (inv : Inv g D) (c : Commit g req now D D') : Stamped D' := by
  intro k e' he'
  have linked := (inv.commit c).linked
  cases he : D .executions k with
  | none =>
    obtain ⟨kj, j, hj, new, _, kind⟩ := c.new_execution he he'
    refine ⟨new.keyed, fun j' hj' => ?_⟩
    rw [new.job, hj] at hj'
    cases hj'
    rcases kind with fired | ⟨once, twin⟩
    · have hid : e'.jobId = j.jobId := by
        rw [(linked.job kj j hj).1, ← new.job, jobKey]
      refine Or.inr ⟨fired.cron, ?_⟩
      rw [fired.key, fired.createdAt, hid]
    · exact Or.inl ⟨once, twin.idempotencyKey⟩
  | some e =>
    obtain ⟨e₁, he₁, same⟩ := c.later.execution k e he
    rw [he'] at he₁
    cases he₁
    obtain ⟨keyed, kinds⟩ := h k e he
    have hjob : jobKey k e' = jobKey k e := by simp only [jobKey, same.jobId]
    rw [same.idempotencyKey, same.createdAt, same.jobId, hjob]
    refine ⟨keyed, fun j' hj' => ?_⟩
    obtain ⟨_, j, hj, _⟩ := inv.linked.execution k e he
    obtain ⟨j₁, hj₁, sameJob⟩ := c.later.job _ j hj
    rw [hj'] at hj₁
    cases hj₁
    obtain ⟨_, _, _, htrigger, _, hkey, _⟩ := sameJob.columns
    rw [htrigger, hkey]
    exact kinds j hj

theorem stamped_run {acts : List (Action (service env))} (h : (Pool.empty (service env)).Meets g acts) :
    Stamped (after acts).world.rows :=
  run_induction h (fun k e he => by cases he) fun _ _ _ _ inv c stamped => stamped.commit inv c

/-- Two executions of one job are never created at the same time: a one-shot job has one execution
only, and ticks at the same time make the same key. -/
theorem executions_apart (acts : List (Action (service env))) {schemaName jobId : String} {k k' : Key} {e e' : Execution}
    (he : (after acts).world.rows .executions k = some e) (he' : (after acts).world.rows .executions k' = some e')
    (hs : k.schema = schemaName) (hs' : k'.schema = schemaName) (hj : e.jobId = jobId) (hj' : e'.jobId = jobId)
    (same : e.createdAt = e'.createdAt) : k = k' := by
  have keeps := keeps_all acts
  have stamped : Stamped (after acts).world.rows := stamped_run (Pool.meets_all _ acts)
  obtain ⟨keyed, kinds⟩ := stamped k e he
  obtain ⟨_, kinds'⟩ := stamped k' e' he'
  obtain ⟨_, j, hjob, _⟩ := keeps.inv.linked.execution k e he
  have hk : jobKey k' e' = jobKey k e := by simp only [jobKey, hs, hs', hj, hj']
  have keys : e.idempotencyKey = e'.idempotencyKey := by
    rcases kinds j hjob with ⟨once, hkey⟩ | ⟨cron, hkey⟩ <;> rcases kinds' j (hk ▸ hjob) with ⟨once', hkey'⟩ | ⟨cron', hkey'⟩
    · rw [hkey, hkey']
    · exact absurd cron' once
    · exact absurd cron once'
    · rw [hkey, hkey', same, hj, hj']
  have index : Table.unique .executions k e = Table.unique .executions k' e' := by
    simp only [Table.unique, keys, hs, hs', hj, hj']
  refine keeps.sound.unique .executions k k' e e' (Or.inl he) (Or.inl he') index fun hnone => keyed ?_
  simpa [Table.unique] using hnone

section pages

variable {schemaName jobId : String} {limit : Int} {acts acts' : List (Action (service env))}

/-- A page of a job's executions, read at a moment of the run by a request of its own. -/
def ReadsExecutions (env : Setup) (schemaName jobId : String) (limit : Int) (acts : List (Action (service env)))
    (cursor : Option String) (r : PaginatedResponse Execution) : Prop :=
  ∃ t envs w', (after acts).world.sessions t = none ∧
    World.play t (JobsApi.listExecutions env schemaName jobId ⟨cursor, limit⟩).run envs (after acts).world = some (w', .ok r)

theorem reads_executions {cursor : Option String} {r : PaginatedResponse Execution}
    (h : ReadsExecutions env schemaName jobId limit acts cursor r) :
    ∃ now, r = paginated ⟨cursor, limit⟩ Execution.executionId
      (Executions.listed ⟨now, (after acts).world.rows, (after acts).world.keys⟩ schemaName jobId
        (PaginationParams.decodeCursor ⟨cursor, limit⟩) (PaginationParams.effectiveLimit ⟨cursor, limit⟩ + 1)) := by
  obtain ⟨t, envs, w', idle, play⟩ := h
  have body : Solo t (after acts).world (fun r _ => ∃ now, r = paginated ⟨cursor, limit⟩ Execution.executionId
      (Executions.listed ⟨now, (after acts).world.rows, (after acts).world.keys⟩ schemaName jobId
        (PaginationParams.decodeCursor ⟨cursor, limit⟩) (PaginationParams.effectiveLimit ⟨cursor, limit⟩ + 1)))
      (fun _ _ => True) (JobsApi.listExecutions env schemaName jobId ⟨cursor, limit⟩) (after acts).world := by
    refine tries_bind ((solo_connect (between_start idle)).mono (fun _ w₁ hi => ?_) fun _ _ h => h)
    refine tries_bind (tries_adapt ((solo_read rfl hi).mono (fun found w₂ hr => ?_) fun _ _ h => h))
    split
    next => exact tries_throw trivial
    next =>
      refine tries_bind (tries_adapt ((solo_read rfl hr.1).mono (fun items w₃ hr' => ?_) fun _ _ h => h))
      obtain ⟨_, now, rfl⟩ := hr'
      exact tries_pure ⟨now, rfl⟩
  have ends := World.play_ends play
  exact (solo_ends (Beside.refl (keeps_all acts).sound) body ends).2

/-- The job's executions at a moment of the run. -/
def executionsOf (schemaName jobId : String) (acts : List (Action (service env))) : List Execution :=
  rowsOf (committed acts) schemaName .executions fun (e : Execution) => e.jobId = jobId

theorem mem_executionsOf {e : Execution} : e ∈ executionsOf schemaName jobId acts ↔
    (after acts).world.rows .executions ⟨schemaName, e.executionId⟩ = some e ∧ e.jobId = jobId := by
  constructor
  · intro h
    obtain ⟨k, _, hs, hr, hp⟩ := mem_rowsOf.mp h
    have hid := ((keeps_all acts).inv.linked.execution k e hr).1
    subst hs
    rw [hid]
    exact ⟨hr, by simpa using hp⟩
  · rintro ⟨hr, hp⟩
    exact mem_rowsOf.mpr ⟨_, committed_keyed hr, rfl, hr, by simpa using hp⟩

theorem executionsOf_distinct (acts : List (Action (service env))) :
    (executionsOf schemaName jobId acts).Pairwise fun a b => a.createdAt ≠ b.createdAt := by
  have apart : (executionsOf schemaName jobId acts).Pairwise fun a b => a.executionId ≠ b.executionId :=
    rowsOf_distinct .executions (fun e => e.jobId = jobId) Execution.executionId
      fun k e he => ((keeps_all acts).inv.linked.execution k e he).1
  refine apart.imp_of_mem fun {a b} ha hb hne same => hne ?_
  obtain ⟨hra, hja⟩ := mem_executionsOf.mp ha
  obtain ⟨hrb, hjb⟩ := mem_executionsOf.mp hb
  exact congrArg Key.id (executions_apart acts hra hrb rfl rfl hja hjb same)

theorem sorted_by_creation (rows : List Execution) :
    (rows.insertionSort fun a b => Executions.newestFirst a b = true) =
      rows.insertionSort fun a b => b.createdAt ≤ a.createdAt := by
  have h := List.map_insertionSort (fun a b => Executions.newestFirst a b = true)
    (fun a b => b.createdAt ≤ a.createdAt) id rows fun a _ b _ => by simp [Executions.newestFirst]
  simpa using h

theorem listed_first {snap : Snapshot Pg} {n : Int} : Executions.listed snap schemaName jobId none n =
    Keyset.select Execution.createdAt (rowsOf snap schemaName .executions fun (e : Execution) => e.jobId = jobId) none
      n.toNat := by
  simp only [Executions.listed, Keyset.select, sorted_by_creation, Option.all_none, Bool.and_true, List.filter_true]
  rfl

theorem listed_after {snap : Snapshot Pg} {n : Int} {cursor : String} {c : Execution}
    (h : (snap.row .executions ⟨schemaName, cursor⟩ : Option Execution) = some c) :
    Executions.listed snap schemaName jobId (some cursor) n = Keyset.select Execution.createdAt
      (rowsOf snap schemaName .executions fun (e : Execution) => e.jobId = jobId) (some c.createdAt) n.toNat := by
  have before : Executions.beforeCursor snap schemaName cursor = fun e => decide (e.createdAt < c.createdAt) := by
    funext e
    simp [Executions.beforeCursor, h]
  have rows := rowsOf_and snap schemaName .executions (fun (e : Execution) => e.jobId = jobId)
    (Executions.beforeCursor snap schemaName cursor)
  rw [before] at rows
  simp only [Executions.listed, Keyset.select, sorted_by_creation, Option.all_some, before]
  rw [← rows]
  rfl

theorem executions_keep (before : acts <+: acts') : Keyset.Keeps Execution.createdAt Execution.executionId
    (executionsOf schemaName jobId acts) (executionsOf schemaName jobId acts') := by
  intro e he
  obtain ⟨hr, hj⟩ := mem_executionsOf.mp he
  obtain ⟨e', he', same⟩ := (later_since before).execution _ e hr
  exact ⟨e', mem_executionsOf.mpr ⟨by rw [same.executionId]; exact he', same.jobId.trans hj⟩, same.createdAt,
    same.executionId⟩

theorem executions_same : ∀ a ∈ executionsOf schemaName jobId acts, ∀ b ∈ executionsOf schemaName jobId acts,
    a.executionId = b.executionId → a.createdAt = b.createdAt := by
  intro a ha b hb same
  have hra := (mem_executionsOf.mp ha).1
  rw [same, (mem_executionsOf.mp hb).1] at hra
  cases hra
  rfl

/-- No two executions of a job are created at the same time, at any moment. Following the cursors of
a job's executions, from page to page and with any steps of the deployment between the pages, gives
none of them twice. Where no cursor is left it has given every execution of the first page's moment,
and there are no more pages than executions and one. -/
theorem execution_paging_complete {first : List (Action (service env))} {moments : List (List (Action (service env)))}
    (chain : (first :: moments).IsChain (· <+: ·)) {shown : List Execution} {cursor : Option String}
    (follows : Follows (ReadsExecutions env schemaName jobId limit) (first :: moments) none shown cursor) :
    (∀ acts : List (Action (service env)), ∀ k k', ∀ e e' : Execution, (after acts).world.rows .executions k = some e →
        (after acts).world.rows .executions k' = some e' → k.schema = k'.schema → e.jobId = e'.jobId → k ≠ k' →
        e.createdAt ≠ e'.createdAt) ∧
      (shown.map Execution.executionId).Nodup ∧
      (cursor = none → ∀ id, ∀ e : Execution, (after first).world.rows .executions ⟨schemaName, id⟩ = some e →
        e.jobId = jobId → (shown.map Execution.executionId).count id = 1) ∧
      ∀ last, (first :: moments).getLast? = some last → ∀ ids : List String,
        (∀ id, ∀ e : Execution, (after last).world.rows .executions ⟨schemaName, id⟩ = some e → e.jobId = jobId → id ∈ ids) →
          (first :: moments).length ≤ ids.length + 1 := by
  obtain ⟨last, hcursor, reads⟩ := follows.reads Execution.executionId Execution.createdAt (executionsOf schemaName jobId)
    (PaginationParams.effectiveLimit ⟨none, limit⟩).toNat
    (by have := effectiveLimit_pos ⟨none, limit⟩; omega) executionsOf_distinct (by
      intro acts r read
      obtain ⟨now, rfl⟩ := reads_executions read
      rw [show PaginationParams.decodeCursor ⟨none, limit⟩ = none from rfl, listed_first]
      exact paginated_isPage _ _ _) (by
      intro acts acts' l r hl before read
      obtain ⟨now, rfl⟩ := reads_executions read
      obtain ⟨l', hl', same⟩ := (later_since before).execution _ l (mem_executionsOf.mp hl).1
      rw [decodeCursor_encodeCursor, listed_after hl', same.createdAt]
      exact paginated_isPage ⟨some (encodeCursor l.executionId), limit⟩ _ _) chain none rfl (fun l h => by cases h)
  have tables : ((first :: moments).map (executionsOf schemaName jobId)).IsChain
      (Keyset.Keeps Execution.createdAt Execution.executionId) :=
    List.isChain_map_of_isChain _ (fun _ _ before => executions_keep before) chain
  obtain ⟨end_, hend⟩ : ∃ end_, (first :: moments).getLast? = some end_ :=
    ⟨_, List.getLast?_eq_some_getLast (List.cons_ne_nil _ _)⟩
  have hlast : ((first :: moments).map (executionsOf schemaName jobId)).getLast? =
      some (executionsOf schemaName jobId end_) := by
    rw [List.getLast?_map, hend]
    rfl
  have nodup := reads.nodup tables hlast executions_same
  refine ⟨fun acts k k' e e' he he' hs hj hne same => hne (executions_apart acts he he' hs rfl hj rfl same), nodup,
    fun hnone id e he hj => ?_, fun acts hacts ids covers => ?_⟩
  · have hid := ((keeps_all first).inv.linked.execution _ e he).1
    have hmem : e ∈ executionsOf schemaName jobId first := mem_executionsOf.mpr ⟨by rw [hid]; exact he, hj⟩
    rcases reads.complete tables _ rfl e hmem (fun b h => by cases h) with ⟨s, hs, _, he'⟩ | ⟨l, hl, _⟩
    · exact List.count_eq_one_of_mem nodup (List.mem_map.mpr ⟨s, hs, he'.trans hid⟩)
    · rw [hl, hnone] at hcursor
      cases hcursor
  · rw [hend] at hacts
    cases hacts
    have pages := reads.bounded tables hlast executions_same ids fun e he => by
      obtain ⟨hr, hj⟩ := mem_executionsOf.mp he
      exact covers _ e hr hj
    simpa using pages

end pages

section sample

def nextMinute (t : Nat) : List (Action (service sample)) :=
  .tick 60000000 :: serve t 8 (.tick (Jobs.cronJobName "acme" (sampleId 206))) (.response 200 "")

/-- A CRON job that has fired twice. -/
def firedTwice : List (Action (service sample)) := oneCron ++ nextMinute 3 ++ nextMinute 4

/-- It fires again. -/
def firedAgain : List (Action (service sample)) := firedTwice ++ nextMinute 5

/-- A page with one execution, undisturbed. -/
def readTicks (acts : List (Action (service sample))) (cursor : Option String) : Option (PaginatedResponse Execution) :=
  match (after acts).world.sessions 9, World.play 9 (JobsApi.listExecutions sample "acme" (sampleId 206) ⟨cursor, 1⟩).run
      ((List.range 8).map fun i => ⟨false, sampleUuid (900 + i), answers (900 + i) (.response 200 "")⟩) (after acts).world with
  | none, some (_, .ok r) => some r
  | _, _ => none

theorem readTicks_reads {acts : List (Action (service sample))} {cursor : Option String} {r : PaginatedResponse Execution}
    (h : readTicks acts cursor = some r) : ReadsExecutions sample "acme" (sampleId 206) 1 acts cursor r := by
  unfold readTicks at h
  split at h
  next w' _ idle play =>
    cases h
    exact ⟨9, _, w', idle, play⟩
  next => cases h

def ticksInTwoPages : Bool :=
  match readTicks firedTwice none with
  | some ⟨_, some c⟩ => (readTicks firedAgain (some c)).any fun r => r.cursor.isNone
  | _ => false

theorem execution_paging_complete_two : ∃ shown : List Execution,
    Follows (ReadsExecutions sample "acme" (sampleId 206) 1) [firedTwice, firedAgain] none shown none ∧
      ∀ id, ∀ e : Execution, (after firedTwice).world.rows .executions ⟨"acme", id⟩ = some e → e.jobId = sampleId 206 →
        (shown.map Execution.executionId).count id = 1 := by
  have pages : ticksInTwoPages = true := by decide +kernel
  unfold ticksInTwoPages at pages
  split at pages
  next data c hfirst =>
    obtain ⟨r, hsecond, hnone⟩ := (Option.any_eq_true _ _).mp pages
    have cursor : r.cursor = none := by simpa using hnone
    have follows : Follows (ReadsExecutions sample "acme" (sampleId 206) 1) [firedTwice, firedAgain] none (data ++ r.data)
        r.cursor := .more (r := ⟨data, some c⟩) (readTicks_reads hfirst) rfl (.one (readTicks_reads hsecond))
    have chain : [firedTwice, firedAgain].IsChain (· <+: ·) := by
      simp [firedAgain]
    rw [cursor] at follows
    exact ⟨_, follows, (execution_paging_complete chain follows).2.2.1 rfl⟩
  next => cases pages

end sample

end Invokr

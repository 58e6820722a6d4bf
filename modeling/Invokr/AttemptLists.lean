import Invokr.Lifecycle
import Invokr.LogOrder
import Invokr.PermanentRecords

namespace Numbering

variable {α : Type} {f : α → Int} {l l' : List α} {c c' : Int}

/-- The numbers up to one. -/
def upTo (c : Int) : List Int := (List.range c.toNat).map fun n : Nat => (n : Int) + 1

theorem mem_upTo {n : Int} : n ∈ upTo c ↔ 1 ≤ n ∧ n ≤ c := by
  simp only [upTo, List.mem_map, List.mem_range]
  constructor
  · rintro ⟨i, hi, rfl⟩
    omega
  · rintro ⟨h, h'⟩
    exact ⟨(n - 1).toNat, by omega, by omega⟩

theorem upTo_ascends (c : Int) : (upTo c).Pairwise (· < ·) := by
  refine List.pairwise_map.mpr (List.pairwise_lt_range.imp fun h => ?_)
  omega

/-- An ascending list with one entry for each number up to one. -/
theorem numbers_eq (ascends : l.Pairwise fun a b => f a < f b) (each : ∀ n, 1 ≤ n ∧ n ≤ c ↔ ∃ a ∈ l, f a = n) :
    l.map f = upTo c := by
  have sorted : (l.map f).Pairwise (· < ·) := List.pairwise_map.mpr ascends
  have same : ∀ n, n ∈ l.map f ↔ n ∈ upTo c := by
    intro n
    rw [mem_upTo, each n, List.mem_map]
  have perm : (l.map f).Perm (upTo c) :=
    (List.perm_ext_iff_of_nodup (sorted.imp fun h => ne_of_lt h) ((upTo_ascends c).imp fun h => ne_of_lt h)).mpr same
  exact perm.eq_of_pairwise (fun a b _ _ hab hba => absurd hab (lt_asymm hba)) sorted (upTo_ascends c)

theorem number_at (h : l.map f = upTo c) {i : Nat} (hi : i < l.length) : f l[i] = (i : Int) + 1 := by
  have at_ : (l.map f)[i]? = (upTo c)[i]? := by rw [h]
  have bound : i < (upTo c).length := by
    rw [← h, List.length_map]
    exact hi
  rw [List.getElem?_map, List.getElem?_eq_getElem hi, List.getElem?_eq_getElem bound] at at_
  simpa [upTo] using at_

/-- A numbered list is a prefix of one that has all its entries. -/
theorem prefix_of_subset (h : l.map f = upTo c) (h' : l'.map f = upTo c') (sub : l ⊆ l') : l <+: l' := by
  refine List.prefix_iff_getElem?.mpr fun i hi => ?_
  obtain ⟨j, hj, same⟩ := List.mem_iff_getElem.mp (sub (List.getElem_mem hi))
  have here := number_at h hi
  have there := number_at h' hj
  rw [same, here] at there
  have place : j = i := by omega
  subst place
  rw [List.getElem?_eq_getElem hj, same]

end Numbering

namespace Invokr

open TxLib

variable {env : Setup}

namespace Attempts

/-- `SELECT * FROM attempts WHERE execution_id = $1 ORDER BY attempt_number ASC`. -/
def listed (snap : Snapshot Pg) (schema executionId : String) : List Attempt :=
  let rows : List Attempt := (matching snap schema .attempts fun _ (a : Attempt) =>
    a.executionId = executionId).filterMap (snap.row .attempts)
  rows.insertionSort fun a b => a.attemptNumber ≤ b.attemptNumber

def listForExecution (db : DbContext) (executionId : String) : Try Pg DbError (List Attempt) := db.execute do
  -- tagged as the listing of the logs is
  let snap ← query (M := Pg) .listLogs
  return listed snap db.schema executionId

end Attempts

namespace ExecutionsApi

def listAttempts (env : Setup) (schemaName executionId : String) : Try Pg AppError (List Attempt) := do
  scopedConnection schemaName
  let db : DbContext := ⟨schemaName, env.tablePrefix, false⟩
  match ← ExceptT.adapt fromDb (Executions.get db executionId) with
  | none => throw (.executionNotFound executionId)
  | some _ => ExceptT.adapt fromDb (Attempts.listForExecution db executionId)

end ExecutionsApi

variable {acts acts' : List (Action (service env))} {schemaName executionId : String} {as as' : List Attempt}

/-- The attempts of an execution, as a request of its own lists them at a moment of the run. -/
def ReadsAttempts (env : Setup) (schemaName executionId : String) (acts : List (Action (service env)))
    (as : List Attempt) : Prop :=
  ∃ t envs w', (after acts).world.sessions t = none ∧
    World.play t (ExecutionsApi.listAttempts env schemaName executionId).run envs (after acts).world = some (w', .ok as)

theorem reads_attempts (h : ReadsAttempts env schemaName executionId acts as) :
    (∃ e : Execution, (after acts).world.rows .executions ⟨schemaName, executionId⟩ = some e) ∧
      as = Attempts.listed (committed acts) schemaName executionId := by
  obtain ⟨t, envs, w', idle, play⟩ := h
  have body : Solo t (after acts).world
      (fun as _ => (∃ e : Execution, (after acts).world.rows .executions ⟨schemaName, executionId⟩ = some e) ∧
        as = Attempts.listed (committed acts) schemaName executionId) (fun _ _ => True)
      (ExecutionsApi.listAttempts env schemaName executionId) (after acts).world := by
    refine tries_bind ((solo_connect (between_start idle)).mono (fun _ w₁ hi => ?_) fun _ _ h => h)
    refine tries_bind (tries_adapt ((solo_read rfl hi).mono (fun found w₂ hr => ?_) fun _ _ h => h))
    obtain ⟨hi₂, _, hfound⟩ := hr
    split
    next => exact tries_throw trivial
    next e =>
      refine tries_adapt ((solo_read rfl hi₂).mono (fun as w₃ hr' => ?_) fun _ _ h => h)
      obtain ⟨_, now, rfl⟩ := hr'
      exact ⟨⟨e, hfound.symm⟩, rfl⟩
  have ends := World.play_ends play
  exact (solo_ends (Beside.refl (keeps_all acts).sound) body ends).2

/-- The committed attempts of an execution. -/
def attemptsOf (schemaName executionId : String) (acts : List (Action (service env))) : List Attempt :=
  rowsOf (committed acts) schemaName .attempts fun (a : Attempt) => a.executionId = executionId

theorem mem_attemptsOf {a : Attempt} : a ∈ attemptsOf schemaName executionId acts ↔
    ∃ ka, AttemptOf (after acts).world.rows ⟨schemaName, executionId⟩ ka a := by
  constructor
  · intro h
    obtain ⟨k, _, hs, ha, hid⟩ := mem_rowsOf.mp h
    exact ⟨k, ha, hs, by simpa using hid⟩
  · rintro ⟨ka, ha, hs, hid⟩
    exact mem_rowsOf.mpr ⟨ka, committed_keyed ha, hs, ha, by simpa using hid⟩

/-- No two attempts of an execution have one number. -/
theorem attemptsOf_distinct (acts : List (Action (service env))) :
    (attemptsOf schemaName executionId acts).Pairwise fun a b => a.attemptNumber ≠ b.attemptNumber := by
  have nodup : ((committed acts).keys .attempts).Nodup := Pool.keys_nodup acts .attempts
  refine List.pairwise_filterMap.mpr ((nodup.filter _).imp_of_mem fun {k k'} hk hk' hne a ha a' ha' he => hne ?_)
  have there : ∀ {k : Key} {a : Attempt}, k ∈ (committed acts).keys .attempts ∧ (decide (k.schema = schemaName) &&
      ((committed acts).row .attempts k).any fun (a : Attempt) => decide (a.executionId = executionId)) = true →
      (committed acts).row .attempts k = some a → k.schema = schemaName ∧ a.executionId = executionId := by
    rintro k a ⟨_, h⟩ ha
    simpa [ha] using h
  obtain ⟨hs, hid⟩ := there (List.mem_filter.mp hk) ha
  obtain ⟨hs', hid'⟩ := there (List.mem_filter.mp hk') ha'
  refine (keeps_all acts).sound.unique .attempts k k' a a' (Or.inl ha) (Or.inl ha') ?_ (Option.some_ne_none _)
  simp only [Table.unique, hs, hs', hid, hid', he]

theorem listed_attempts_perm : (Attempts.listed (committed acts) schemaName executionId).Perm
    (attemptsOf schemaName executionId acts) := List.perm_insertionSort _ _

theorem listed_attempts_ascend : (Attempts.listed (committed acts) schemaName executionId).Pairwise
    fun a b => a.attemptNumber < b.attemptNumber := by
  have trans : ∀ a b c : Attempt, a.attemptNumber ≤ b.attemptNumber → b.attemptNumber ≤ c.attemptNumber →
      a.attemptNumber ≤ c.attemptNumber := fun _ _ _ => le_trans
  have : Std.Total fun a b : Attempt => a.attemptNumber ≤ b.attemptNumber := ⟨fun a b => le_total _ _⟩
  have : IsTrans Attempt fun a b => a.attemptNumber ≤ b.attemptNumber := ⟨trans⟩
  have sorted : (Attempts.listed (committed acts) schemaName executionId).Pairwise
      fun a b => a.attemptNumber ≤ b.attemptNumber := List.pairwise_insertionSort _ _
  have distinct : (Attempts.listed (committed acts) schemaName executionId).Pairwise
      fun a b => a.attemptNumber ≠ b.attemptNumber :=
    (listed_attempts_perm.pairwise_iff fun {_ _} (h : _ ≠ _) => h.symm).mpr (attemptsOf_distinct acts)
  exact (sorted.and distinct).imp fun h => lt_of_le_of_ne h.1 h.2

theorem listed_numbers {e : Execution} (he : (after acts).world.rows .executions ⟨schemaName, executionId⟩ = some e) :
    (Attempts.listed (committed acts) schemaName executionId).map Attempt.attemptNumber = Numbering.upTo e.attemptCount := by
  have ledger := (keeps_all acts).inv.ledger
  refine Numbering.numbers_eq listed_attempts_ascend fun n => ⟨fun h => ?_, ?_⟩
  · obtain ⟨ka, a, ha, hs, hid, hn⟩ := ledger.complete _ e he n h.1 h.2
    exact ⟨a, listed_attempts_perm.mem_iff.mpr (mem_attemptsOf.mpr ⟨ka, ha, hs, hid⟩), hn⟩
  · rintro ⟨a, ha, rfl⟩
    obtain ⟨ka, of⟩ := mem_attemptsOf.mp (listed_attempts_perm.mem_iff.mp ha)
    exact ⟨(of.within ledger he).1, (of.within ledger he).2.1⟩

/-- `GET /v1/executions/{id}/attempts` lists the attempts numbered from one up to the execution's count; all but
the last have failed, and the last has succeeded just when the execution has. What is listed at a moment begins
what is listed at any later one. -/
theorem attempts_listed (le : acts <+: acts') (h : ReadsAttempts env schemaName executionId acts as)
    (h' : ReadsAttempts env schemaName executionId acts' as') :
    (∃ e : Execution, (after acts).world.rows .executions ⟨schemaName, executionId⟩ = some e ∧
      as.map Attempt.attemptNumber = Numbering.upTo e.attemptCount ∧
      ∀ a ∈ as, a.executionId = executionId ∧ (a.attemptNumber < e.attemptCount → a.status = .failed) ∧
        (a.attemptNumber = e.attemptCount → (a.status = .success ↔ e.status = .success))) ∧
      as <+: as' := by
  obtain ⟨⟨e, he⟩, rfl⟩ := reads_attempts h
  obtain ⟨⟨e', he'⟩, rfl⟩ := reads_attempts h'
  refine ⟨⟨e, he, listed_numbers he, fun a ha => ?_⟩, ?_⟩
  · obtain ⟨ka, of⟩ := mem_attemptsOf.mp (listed_attempts_perm.mem_iff.mp ha)
    exact ⟨of.2.2, (of.within (keeps_all acts).inv.ledger he).2.2⟩
  · refine Numbering.prefix_of_subset (listed_numbers he) (listed_numbers he') fun a ha => ?_
    obtain ⟨ka, hrow, hs, hid⟩ := mem_attemptsOf.mp (listed_attempts_perm.mem_iff.mp ha)
    exact listed_attempts_perm.mem_iff.mpr (mem_attemptsOf.mpr ⟨ka, record_stays rfl le hrow, hs, hid⟩)

section sample

/-- The attempts of the sample's execution, undisturbed. -/
def readAttempts (acts : List (Action (service sample))) : Option (List Attempt) :=
  match (after acts).world.sessions 9, World.play 9 (ExecutionsApi.listAttempts sample "acme" (sampleId 209)).run
      ((List.range 8).map fun i => ⟨false, sampleUuid (900 + i), answers (900 + i) (.response 200 "")⟩) (after acts).world with
  | none, some (_, .ok as) => some as
  | _, _ => none

theorem readAttempts_reads {acts : List (Action (service sample))} {as : List Attempt} (h : readAttempts acts = some as) :
    ReadsAttempts sample "acme" (sampleId 209) acts as := by
  unfold readAttempts at h
  split at h
  next w' _ idle play =>
    cases h
    exact ⟨9, _, w', idle, play⟩
  next => cases h

/-- A refused attempt is listed. -/
theorem attempts_listed_refused : ∃ as : List Attempt,
    ReadsAttempts sample "acme" (sampleId 209) (oneAttempt (.response 500 "")) as ∧ as.map Attempt.attemptNumber = [1] ∧
      as <+: as := by
  have found : ((readAttempts (oneAttempt (.response 500 ""))).map fun as => as.map Attempt.attemptNumber) = some [1] := by
    decide +kernel
  obtain ⟨as, has, numbers⟩ := Option.map_eq_some_iff.mp found
  have reads := readAttempts_reads has
  exact ⟨as, reads, numbers, (attempts_listed (List.prefix_refl _) reads reads).2⟩

end sample

end Invokr

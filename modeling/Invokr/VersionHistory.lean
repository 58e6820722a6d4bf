import Invokr.LiveVersion

namespace Invokr

open TxLib

variable {env : Setup} {D : Rows Pg} {k : Key} {j : Job}

/-- What a snapshot of a workspace's jobs has to do with the rows. -/
structure Lists (rows : List Job) (D : Rows Pg) (schemaName : String) : Prop where
  find : ∀ id, rows.filter (fun j => j.jobId = id) = (D .jobs ⟨schemaName, id⟩ : Option Job).toList
  versioned : Versioned D

/-- The numbers of the versions up to the `n`-th, from the last to the first. -/
def countdown : Nat → List Int
  | 0 => []
  | n + 1 => (n + 1 : Int) :: countdown n

theorem countdown_reverse (n : Nat) : (countdown n).reverse = (List.range n).map fun i : Nat => (i : Int) + 1 := by
  induction n with
  | zero => rfl
  | succ n ih => simp [countdown, ih, List.range_succ]

/-- The recursion goes back from a job to its first version, and ends. -/
theorem Lists.chainRounds {rows : List Job} {schemaName : String} (h : Lists rows D schemaName) (n : Nat) {id : String}
    {j : Job} (hj : D .jobs ⟨schemaName, id⟩ = some j) (hv : j.version = n) :
    ∃ l, (∀ rounds, n ≤ rounds → Jobs.chainRounds rows rounds [j] = some l) ∧ l.map Job.version = countdown n ∧
      ∀ i : Job, i ∈ l ↔ ∃ k', GoesBackTo (previousOf D) ⟨schemaName, id⟩ k' ∧ D .jobs k' = some i := by
  induction n generalizing id j with
  | zero =>
    have := h.versioned.pos _ j hj
    omega
  | succ n ih =>
    have round : ∀ rounds, Jobs.chainRounds rows (rounds + 1) [j] =
        (Jobs.chainRounds rows rounds (rows.filter fun i => j.previousVersionId = some i.jobId)).map (j :: ·) := by
      intro rounds
      simp [Jobs.chainRounds]
    cases hp : j.previousVersionId with
    | none =>
      have hone := h.versioned.first _ j hj hp
      have hn : n = 0 := by omega
      subst hn
      have none_left : rows.filter (fun i => j.previousVersionId = some i.jobId) = [] := by simp [hp]
      refine ⟨[j], fun rounds hr => ?_, by simp [countdown, hone], fun i => ?_⟩
      · obtain ⟨m, rfl⟩ := Nat.exists_eq_add_of_le' hr
        rw [round, none_left]
        cases m <;> rfl
      · constructor
        · intro hi
          rw [List.mem_singleton.mp hi]
          exact ⟨_, .refl, hj⟩
        · rintro ⟨k', back, hk'⟩
          rcases Relation.ReflTransGen.cases_head back with rfl | ⟨c, step, _⟩
          · exact List.mem_singleton.mpr (Option.some.inj (hk'.symm.trans hj))
          · simp [previousOf, hj, hp] at step
    | some p =>
      obtain ⟨b, hb, _, hver⟩ := h.versioned.base _ j p hj hp
      have one_left : rows.filter (fun i => j.previousVersionId = some i.jobId) = [b] := by
        have hf := h.find p
        rw [hb] at hf
        rw [hp, ← Option.toList_some, ← hf]
        congr 1
        funext i
        simp [eq_comm]
      obtain ⟨l, hl, hmap, hmem⟩ := ih hb (by omega)
      refine ⟨j :: l, fun rounds hr => ?_, ?_, fun i => ?_⟩
      · obtain ⟨m, rfl⟩ := Nat.exists_eq_add_of_le' hr
        have : n + m = m + n := Nat.add_comm n m
        rw [show m + (n + 1) = (m + n) + 1 by omega, round, one_left, hl (m + n) (by omega)]
        rfl
      · simp [countdown, hmap, hv]
      · have hstep : previousOf D ⟨schemaName, id⟩ = some ⟨schemaName, p⟩ := previousOf_job hj hp
        rw [List.mem_cons, hmem]
        constructor
        · rintro (rfl | ⟨k', back, hk'⟩)
          · exact ⟨_, .refl, hj⟩
          · exact ⟨k', back.head hstep, hk'⟩
        · rintro ⟨k', back, hk'⟩
          rcases Relation.ReflTransGen.cases_head back with rfl | ⟨c, step, rest⟩
          · exact Or.inl (Option.some.inj (hk'.symm.trans hj))
          · rw [hstep] at step
            cases step
            exact Or.inr ⟨k', rest, hk'⟩

theorem filterMap_filter_one {ks : List Key} (nodup : ks.Nodup) {f : Key → Option Job} (k₀ : Key)
    (only : ∀ k ∈ ks, ∀ j, f k = some j → (j.jobId = k₀.id ↔ k = k₀)) (mem : ∀ j, f k₀ = some j → k₀ ∈ ks) :
    (ks.filterMap f).filter (fun j => j.jobId = k₀.id) = (f k₀).toList := by
  induction ks with
  | nil =>
    cases hf : f k₀ with
    | none => rfl
    | some j => cases mem j hf
  | cons k ks ih =>
    obtain ⟨hk, hks⟩ := List.nodup_cons.mp nodup
    by_cases he : k = k₀
    · subst he
      have rest : (ks.filterMap f).filter (fun j => j.jobId = k.id) = [] := by
        refine List.filter_eq_nil_iff.mpr fun j hj => ?_
        obtain ⟨k', hk', hf⟩ := List.mem_filterMap.mp hj
        have hne : k' ≠ k := fun h => hk (h ▸ hk')
        have := (only k' (List.mem_cons_of_mem _ hk') j hf).not.mpr hne
        simpa using this
      cases hf : f k with
      | none => simp [hf, rest]
      | some j =>
        have hid := (only k List.mem_cons_self j hf).mpr rfl
        simp [hf, rest, hid]
    · have tail := ih hks (fun k' hk' => only k' (List.mem_cons_of_mem _ hk')) fun j hj =>
        (List.mem_cons.mp (mem j hj)).resolve_left (Ne.symm he)
      cases hf : f k with
      | none => simpa [hf] using tail
      | some j =>
        have hid := (only k List.mem_cons_self j hf).not.mpr he
        simpa [hf, hid] using tail

/-- What `get_versions` sees when it runs after the actions. -/
def snapshotAfter (acts : List (Action (service env))) (now : Int) : Snapshot Pg :=
  ⟨now, (after acts).world.rows, (after acts).world.keys⟩

theorem lists_run (acts : List (Action (service env))) (now : Int) (schemaName : String) :
    Lists ((matching (snapshotAfter acts now) schemaName .jobs fun _ _ => true).filterMap ((after acts).world.rows .jobs))
      (after acts).world.rows schemaName := by
  have keeps := keeps_all acts
  refine ⟨fun id => ?_, versioned_run (Pool.meets_all _ acts)⟩
  refine filterMap_filter_one ((Pool.keys_nodup acts .jobs).filter _) ⟨schemaName, id⟩ ?_ ?_
  · intro k hk j hj
    have hs : k.schema = schemaName := by
      have := (List.mem_filter.mp hk).2
      simp only [Bool.and_eq_true, decide_eq_true_eq] at this
      exact this.1
    rw [(keeps.inv.linked.job k j hj).1]
    constructor
    · rintro rfl
      rw [← hs]
    · rintro rfl
      rfl
  · intro j hj
    refine List.mem_filter.mpr ⟨keeps.sound.keyed .jobs _ j (Or.inl hj), ?_⟩
    have hrow : (snapshotAfter acts now).row .jobs ⟨schemaName, id⟩ = some j := hj
    simp [hrow]

theorem goesBackTo_schema {k k' : Key} (h : GoesBackTo (previousOf D) k k') : k'.schema = k.schema := by
  induction h with
  | refl => rfl
  | tail _ step ih =>
    obtain ⟨_, _, _, hs⟩ := previousOf_some step
    exact hs.trans ih

/-- The jobs a job goes back to are all of its chain just when no version comes after it and the
chain has no fork. -/
theorem Versioned.whole (h : Versioned D) (k : Key) :
    (∀ k', SameChain (previousOf D) k k' → GoesBackTo (previousOf D) k k') ↔
      (∀ k', previousOf D k' ≠ some k) ∧ Unforked (previousOf D) k := by
  constructor
  · intro whole
    refine ⟨fun k' hp => ?_, fun x y z hx hy hxz hyz => ?_⟩
    · have back := whole k' (.symm _ _ (.rel _ _ hp))
      have hle := GoesBackTo.rank_le h.down back
      have := h.down _ _ hp
      omega
    · have hxy : versionAt D x = versionAt D y := by rw [h.step hxz, h.step hyz]
      rcases (whole x hx).total (whole y hy) with hb | hb
      · exact GoesBackTo.eq_of_rank h.down hb hxy
      · exact (GoesBackTo.eq_of_rank h.down hb hxy.symm).symm
  · rintro ⟨newest, unforked⟩ k' chain
    rcases chain.comparable unforked with hb | hb
    · exact hb
    · by_cases he : k' = k
      · subst he
        exact .refl
      · obtain ⟨c, _, step⟩ := hb.successor he
        exact (newest c step).elim

/-- The result of `get_versions` for a job is all of the job's chain. -/
def AllVersions (D : Rows Pg) (k : Key) (vs : List Job) : Prop :=
  ∀ i : Job, i ∈ vs ↔ ∃ k', SameChain (previousOf D) k k' ∧ D .jobs k' = some i

theorem allVersions_iff (linked : Linked D) (h : Versioned D) {k : Key} {j : Job} (hj : D .jobs k = some j) {vs : List Job}
    (back : ∀ i : Job, i ∈ vs ↔ ∃ k', GoesBackTo (previousOf D) k k' ∧ D .jobs k' = some i) :
    AllVersions D k vs ↔ ∀ k', SameChain (previousOf D) k k' → GoesBackTo (previousOf D) k k' := by
  constructor
  · intro all k' chain
    obtain ⟨i, hi⟩ : ∃ i : Job, D .jobs k' = some i := by
      obtain ⟨c, hc, hc'⟩ := chain.join
      rcases Relation.ReflTransGen.cases_head hc' with rfl | ⟨d, step, _⟩
      · rcases Relation.ReflTransGen.cases_tail hc with rfl | ⟨d, _, step⟩
        · exact ⟨j, hj⟩
        · obtain ⟨i, hi, hprev, hs⟩ := previousOf_some step
          obtain ⟨b, hb, _⟩ := h.base d i _ hi hprev
          have hk : (⟨d.schema, k'.id⟩ : Key) = k' := by rw [← hs]
          exact ⟨b, hk ▸ hb⟩
      · obtain ⟨i, hi, _⟩ := previousOf_some step
        exact ⟨i, hi⟩
    obtain ⟨k'', hback, hi'⟩ := (back i).mp ((all i).mpr ⟨k', chain, hi⟩)
    have hid : k''.id = k'.id := (linked.job k'' i hi').1.symm.trans (linked.job k' i hi).1
    have hschema : k''.schema = k'.schema := by
      obtain ⟨c, hc, hc'⟩ := chain.join
      rw [goesBackTo_schema hback, ← goesBackTo_schema hc, goesBackTo_schema hc']
    have hk : k'' = k' := by
      cases k''
      cases k'
      simp only at hid hschema
      rw [hid, hschema]
    exact hk ▸ hback
  · intro whole i
    rw [back i]
    constructor
    · rintro ⟨k', hb, hi⟩
      exact ⟨k', hb.sameChain, hi⟩
    · rintro ⟨k', hc, hi⟩
      exact ⟨k', whole k' hc, hi⟩

/-- The statement of `get_versions` ends and gives the versions a job goes back to, in their order. -/
theorem versionsIn_spec (acts : List (Action (service env))) (now : Int) {schemaName jobId : String} {j : Job}
    (hj : (after acts).world.rows .jobs ⟨schemaName, jobId⟩ = some j) :
    ∃ vs enough, (∀ rounds, enough ≤ rounds → Jobs.versionsIn (snapshotAfter acts now) schemaName jobId rounds = some vs) ∧
      vs.map Job.version = (List.range vs.length).map (fun i : Nat => (i : Int) + 1) ∧
      ∀ i : Job, i ∈ vs ↔ ∃ k', GoesBackTo (previousOf (after acts).world.rows) ⟨schemaName, jobId⟩ k' ∧
        (after acts).world.rows .jobs k' = some i := by
  have lists := lists_run acts now schemaName
  have hpos := lists.versioned.pos _ j hj
  obtain ⟨l, hl, hmap, hmem⟩ := lists.chainRounds j.version.toNat hj (by omega)
  have hfind := lists.find jobId
  rw [hj, Option.toList_some] at hfind
  have hperm : (l.mergeSort fun a b => a.version ≤ b.version).Perm l := List.mergeSort_perm l _
  have hlen : l.length = j.version.toNat := by
    rw [← List.length_map (f := Job.version), hmap, ← List.length_reverse, countdown_reverse]
    simp
  refine ⟨l.mergeSort fun a b => a.version ≤ b.version, j.version.toNat, fun rounds hr => ?_, ?_, fun i => ?_⟩
  · have heq : Jobs.versionsIn (snapshotAfter acts now) schemaName jobId rounds =
        (Jobs.chainRounds ((matching (snapshotAfter acts now) schemaName .jobs fun _ _ => true).filterMap
          ((after acts).world.rows .jobs)) rounds [j]).map fun chain => chain.mergeSort fun a b => a.version ≤ b.version := by
      rw [← hfind]
      rfl
    rw [heq, hl rounds hr]
    rfl
  · have sorted : ((l.mergeSort fun a b => a.version ≤ b.version).map Job.version).Pairwise (· ≤ ·) := by
      rw [List.pairwise_map]
      refine (List.pairwise_mergeSort ?_ ?_ l).imp fun h => by simpa using h
      · intro a b c hab hbc
        simp only [decide_eq_true_eq] at hab hbc ⊢
        omega
      · intro a b
        simp only [Bool.or_eq_true, decide_eq_true_eq]
        omega
    have target : ((List.range l.length).map fun i : Nat => (i : Int) + 1).Pairwise (· ≤ ·) := by
      rw [List.pairwise_map]
      exact (List.pairwise_lt_range).imp fun h => by omega
    have perm : ((l.mergeSort fun a b => a.version ≤ b.version).map Job.version).Perm
        ((List.range l.length).map fun i : Nat => (i : Int) + 1) := by
      rw [hlen, ← countdown_reverse, ← hmap]
      exact (hperm.map Job.version).trans (List.reverse_perm _).symm
    rw [List.length_mergeSort]
    exact perm.eq_of_pairwise (fun a b _ _ hab hba => Int.le_antisymm hab hba) sorted target
  · rw [hperm.mem_iff]
    exact hmem i

/-- `get_versions` ends for every job and gives versions with the numbers from 1 on, each once. They are
the whole chain just when the job is the newest version of a chain without a fork. -/
theorem version_history (acts : List (Action (service env))) (now : Int) (schemaName jobId : String) (j : Job)
    (hj : (after acts).world.rows .jobs ⟨schemaName, jobId⟩ = some j) :
    ∃ vs enough, (∀ rounds, enough ≤ rounds → Jobs.versionsIn (snapshotAfter acts now) schemaName jobId rounds = some vs) ∧
      vs.map Job.version = (List.range vs.length).map (fun i : Nat => (i : Int) + 1) ∧
      (AllVersions (after acts).world.rows ⟨schemaName, jobId⟩ vs ↔
        (∀ k', previousOf (after acts).world.rows k' ≠ some ⟨schemaName, jobId⟩) ∧
          Unforked (previousOf (after acts).world.rows) ⟨schemaName, jobId⟩) := by
  have versioned := versioned_run (Pool.meets_all _ acts)
  obtain ⟨vs, enough, hvs, hversions, back⟩ := versionsIn_spec acts now hj
  refine ⟨vs, enough, hvs, hversions, ?_⟩
  rw [← versioned.whole]
  exact allVersions_iff (keeps_all acts).inv.linked versioned hj back

/-- The history of a job in its second version. -/
theorem version_history_newest : ∃ vs enough, Jobs.versionsIn (snapshotAfter oneUpdate 0) "acme" (sampleId 308) enough = some vs ∧
    vs.map Job.version = (List.range vs.length).map fun i : Nat => (i : Int) + 1 := by
  have found : ((after oneUpdate).world.rows .jobs ⟨"acme", sampleId 308⟩).isSome = true := by decide +kernel
  obtain ⟨j, hj⟩ := Option.isSome_iff_exists.mp found
  obtain ⟨vs, enough, hvs, hversions, _⟩ := version_history oneUpdate 0 "acme" (sampleId 308) j hj
  exact ⟨vs, enough, hvs enough (Nat.le_refl _), hversions⟩

/-- Asked for the first of two versions, `get_versions` leaves out the second. -/
theorem first_version_incomplete : ∃ vs enough,
    (∀ rounds, enough ≤ rounds → Jobs.versionsIn (snapshotAfter oneUpdate 0) "acme" (sampleId 206) rounds = some vs) ∧
      ¬AllVersions (after oneUpdate).world.rows ⟨"acme", sampleId 206⟩ vs := by
  have old : ((after oneUpdate).world.rows .jobs ⟨"acme", sampleId 206⟩).isSome = true := by decide +kernel
  have new : ((after oneUpdate).world.rows .jobs ⟨"acme", sampleId 308⟩).map Job.previousVersionId = some (some (sampleId 206)) := by
    decide +kernel
  obtain ⟨j, hj⟩ := Option.isSome_iff_exists.mp old
  obtain ⟨j', hj', hp⟩ := Option.map_eq_some_iff.mp new
  have versioned := versioned_run (Pool.meets_all _ oneUpdate)
  obtain ⟨vs, enough, hvs, _, back⟩ := versionsIn_spec oneUpdate 0 hj
  refine ⟨vs, enough, hvs, fun all => ?_⟩
  have whole := (allVersions_iff (keeps_all oneUpdate).inv.linked versioned hj back).mp all
  exact ((versioned.whole _).mp whole).1 _ (previousOf_job hj' hp)

end Invokr

import Invokr.Alone
import Invokr.DbRules

namespace Invokr

open TxLib

/-- A sweep of the schema at `now` has retired the jobs `ids` and nothing else. -/
structure Sweep (now : Int) (schemaName : String) (ids : List String) (D D' : Rows Pg) : Prop where
  retired : ∀ id, id ∈ ids ↔ ∃ k, ∃ j : Job, k.schema = schemaName ∧ D .jobs k = some j ∧ Jobs.isExpired now j = true ∧ j.jobId = id
  jobs : ∀ k, D' .jobs k = (D .jobs k).map fun (j : Job) =>
    if k.schema = schemaName ∧ Jobs.isExpired now j = true then { j with status := .retired, retiredAt := some now } else j
  entries : ∀ k, D' .cronJob k =
    if ∃ id ∈ ids, k = Jobs.cronKey (Jobs.cronJobName schemaName id) then none else D .cronJob k
  others : ∀ tb, tb ≠ .jobs → tb ≠ .cronJob → D' tb = D tb

/-- The `UPDATE` of a sweep at work: the keys `ks` are still to come, `done` is what it has returned. -/
structure Expiring (now : Int) (schemaName : String) (ks : List Key) (done : List Job) (D D' : Rows Pg) : Prop where
  jobs : ∀ k, D' .jobs k = D .jobs k ∨ ∃ j : Job, k.schema = schemaName ∧ D .jobs k = some j ∧ Jobs.isExpired now j = true ∧
    D' .jobs k = some (Jobs.retirePatch.apply now j) ∧ j.jobId ∈ done.map Job.jobId
  todo : ∀ k, ∀ j : Job, k.schema = schemaName → D .jobs k = some j → Jobs.isExpired now j = true → k ∈ ks ∨
    D' .jobs k = some (Jobs.retirePatch.apply now j)
  listed : ∀ x ∈ done, ∃ k, ∃ j : Job, k.schema = schemaName ∧ D .jobs k = some j ∧ Jobs.isExpired now j = true ∧
    j.jobId = x.jobId
  schema : ∀ k ∈ ks, k.schema = schemaName
  others : ∀ tb, tb ≠ .jobs → D' tb = D tb

theorem not_expired_retired (now : Int) (j : Job) : Jobs.isExpired now (Jobs.retirePatch.apply now j) = false := by
  simp [Jobs.isExpired, Jobs.retirePatch]

section steps

variable {now : Int} {schemaName : String} {ks : List Key} {k : Key} {done : List Job} {ids rest : List String}
  {D D' D'' : Rows Pg} {s : Session Pg} {old : Job}

/-- A row that the `UPDATE` leaves as it is. -/
theorem Expiring.skip (h : Expiring now schemaName (k :: ks) done D D')
    (kept : ∀ j : Job, D' .jobs k = some j → Jobs.isExpired now j = false) : Expiring now schemaName ks done D D' where
  jobs := h.jobs
  todo k' j hk hj hx := by
    rcases h.todo k' j hk hj hx with hm | hd
    · rcases List.mem_cons.mp hm with rfl | hm
      · rcases h.jobs k' with hs | ⟨j', _, hj', _, hd, _⟩
        · rw [kept j (hs.trans hj)] at hx
          cases hx
        · rw [hj] at hj'
          cases hj'
          exact Or.inr hd
      · exact Or.inl hm
    · exact Or.inr hd
  listed := h.listed
  schema k' hm := h.schema k' (List.mem_cons_of_mem _ hm)
  others := h.others

/-- The next row is retired. -/
theorem Expiring.retire (h : Expiring now schemaName (k :: ks) done D D') (hold : D' .jobs k = some old)
    (expired : Jobs.isExpired now old = true) (new : D'' .jobs k = some (Jobs.retirePatch.apply now old))
    (same : ∀ k', k' ≠ k → D'' .jobs k' = D' .jobs k') (frame : ∀ tb, tb ≠ .jobs → D'' tb = D' tb) :
    Expiring now schemaName ks (done ++ [Jobs.retirePatch.apply now old]) D D'' := by
  have hk : k.schema = schemaName := h.schema k (List.mem_cons_self ..)
  have hbase : D .jobs k = some old := by
    rcases h.jobs k with hs | ⟨j, _, _, _, hd, _⟩
    · exact hs.symm.trans hold
    · rw [hold] at hd
      cases hd
      rw [not_expired_retired] at expired
      cases expired
  refine ⟨fun k' => ?_, fun k' j hk' hj hx => ?_, fun x hx => ?_, fun k' hm => h.schema k' (List.mem_cons_of_mem _ hm),
    fun tb ht => (frame tb ht).trans (h.others tb ht)⟩
  · by_cases he : k' = k
    · subst he
      exact Or.inr ⟨old, hk, hbase, expired, new, by simp [Jobs.retirePatch]⟩
    · rw [same k' he]
      rcases h.jobs k' with hs | ⟨j, hk', hj, hx, hd, hm⟩
      · exact Or.inl hs
      · exact Or.inr ⟨j, hk', hj, hx, hd, by simp only [List.map_append, List.mem_append]; exact Or.inl hm⟩
  · by_cases he : k' = k
    · subst he
      rw [hbase] at hj
      cases hj
      exact Or.inr new
    · rw [same k' he]
      rcases h.todo k' j hk' hj hx with hm | hd
      · exact Or.inl ((List.mem_cons.mp hm).resolve_left he)
      · exact Or.inr hd
  · rcases List.mem_append.mp hx with hx | hx
    · exact h.listed x hx
    · rw [List.mem_singleton] at hx
      exact ⟨k, old, hk, hbase, expired, by rw [hx]; rfl⟩

/-- The entries of the retired jobs are going: those of the jobs `rest` are still to come. -/
structure Clearing (schemaName : String) (ids rest : List String) (D D' : Rows Pg) : Prop where
  entries : ∀ k, D' .cronJob k = D .cronJob k ∨
    (D' .cronJob k = none ∧ ∃ id ∈ ids, k = Jobs.cronKey (Jobs.cronJobName schemaName id))
  todo : ∀ id ∈ ids, id ∈ rest ∨ D' .cronJob (Jobs.cronKey (Jobs.cronJobName schemaName id)) = none
  listed : ∀ id ∈ rest, id ∈ ids
  others : ∀ tb, tb ≠ .cronJob → D' tb = D tb

theorem Clearing.next {id : String} (h : Clearing schemaName ids (id :: rest) D D')
    (gone : D'' .cronJob (Jobs.cronKey (Jobs.cronJobName schemaName id)) = none)
    (same : ∀ k, k ≠ Jobs.cronKey (Jobs.cronJobName schemaName id) → D'' .cronJob k = D' .cronJob k)
    (frame : ∀ tb, tb ≠ .cronJob → D'' tb = D' tb) : Clearing schemaName ids rest D D'' where
  entries k := by
    by_cases hk : k = Jobs.cronKey (Jobs.cronJobName schemaName id)
    · subst hk
      exact Or.inr ⟨gone, id, h.listed id (List.mem_cons_self ..), rfl⟩
    · rw [same k hk]
      exact h.entries k
  todo id' hm := by
    by_cases hk : Jobs.cronKey (Jobs.cronJobName schemaName id') = Jobs.cronKey (Jobs.cronJobName schemaName id)
    · rw [hk]
      exact Or.inr gone
    · rw [same _ hk]
      rcases h.todo id' hm with hr | hg
      · rcases List.mem_cons.mp hr with rfl | hr
        · exact (hk rfl).elim
        · exact Or.inl hr
      · exact Or.inr hg
  listed id' hm := h.listed id' (List.mem_cons_of_mem _ hm)
  others tb ht := (frame tb ht).trans (h.others tb ht)

/-- The two halves of a sweep. -/
theorem Expiring.swept (h : Expiring now schemaName [] done D D') (c : Clearing schemaName (done.map Job.jobId) [] D' D'') :
    Sweep now schemaName (done.map Job.jobId) D D'' where
  retired id := by
    constructor
    · intro hm
      obtain ⟨x, hx, rfl⟩ := List.mem_map.mp hm
      exact h.listed x hx
    · rintro ⟨k, j, hk, hj, hx, rfl⟩
      have hd : D' .jobs k = some (Jobs.retirePatch.apply now j) := (h.todo k j hk hj hx).resolve_left List.not_mem_nil
      rcases h.jobs k with hs | ⟨j', _, hj', _, _, hm⟩
      · rw [hs, hj] at hd
        have hnot := not_expired_retired now j
        rw [← Option.some.inj hd, hx] at hnot
        cases hnot
      · rw [hj] at hj'
        cases hj'
        exact hm
  jobs k := by
    rw [c.others .jobs (by decide)]
    cases hj : D .jobs k with
    | none =>
      rcases h.jobs k with hs | ⟨j, _, hj', _⟩
      · exact hs.trans hj
      · rw [hj] at hj'
        cases hj'
    | some j =>
      by_cases hx : k.schema = schemaName ∧ Jobs.isExpired now j = true
      · rw [Option.map_some, if_pos hx]
        exact (h.todo k j hx.1 hj hx.2).resolve_left List.not_mem_nil
      · rw [Option.map_some, if_neg hx]
        rcases h.jobs k with hs | ⟨j', hk, hj', hx', _⟩
        · exact hs.trans hj
        · rw [hj] at hj'
          cases hj'
          exact (hx ⟨hk, hx'⟩).elim
  entries k := by
    split
    next hm =>
      obtain ⟨id, hid, rfl⟩ := hm
      exact (c.todo id hid).resolve_left List.not_mem_nil
    next hn =>
      rcases c.entries k with hs | ⟨_, id, hid, hk⟩
      · rw [hs, h.others .cronJob (by decide)]
      · exact (hn ⟨id, hid, hk⟩).elim
  others tb hj hc := (c.others tb hc).trans (h.others tb hj)

end steps

/-- A sweep right after a sweep finds nothing to do. -/
theorem Sweep.again {now : Int} {schemaName : String} {ids ids' : List String} {D D' D'' : Rows Pg}
    (h : Sweep now schemaName ids D D') (h' : Sweep now schemaName ids' D' D'') : ids' = [] ∧ D'' = D' := by
  have none_left : ∀ k (j : Job), k.schema = schemaName → D' .jobs k = some j → Jobs.isExpired now j = false := by
    intro k j hk hj
    rw [h.jobs k] at hj
    obtain ⟨j₀, _, rfl⟩ := Option.map_eq_some_iff.mp hj
    split
    next => exact not_expired_retired now j₀
    next hn => exact Bool.not_eq_true _ ▸ fun hx => hn ⟨hk, hx⟩
  have hids : ids' = [] := by
    refine List.eq_nil_iff_forall_not_mem.mpr fun id hm => ?_
    obtain ⟨k, j, hk, hj, hx, _⟩ := (h'.retired id).mp hm
    rw [none_left k j hk hj] at hx
    cases hx
  refine ⟨hids, funext fun tb => ?_⟩
  by_cases htj : tb = .jobs
  · subst htj
    funext k
    rw [h'.jobs k]
    cases hj : D' .jobs k with
    | none => rfl
    | some j =>
      rw [Option.map_some, if_neg fun hx => ?_]
      rw [none_left k j hx.1 hj] at hx
      cases hx.2
  · by_cases htc : tb = .cronJob
    · subst htc
      funext k
      rw [h'.entries k, hids]
      simp
    · exact h'.others tb htj htc

end Invokr

import Invokr.Schedules
import Invokr.Chains

namespace Invokr

open TxLib

variable {env : Setup} {g : Guard (service env)} {req : Request env} {now : Int} {D D' : Rows Pg}

/-- The version a job was made from. -/
def previousOf (D : Rows Pg) (k : Key) : Option Key :=
  (D .jobs k : Option Job).bind fun j => j.previousVersionId.map fun p => ⟨k.schema, p⟩

theorem previousOf_some {k k' : Key} (h : previousOf D k = some k') :
    ∃ j : Job, D .jobs k = some j ∧ j.previousVersionId = some k'.id ∧ k'.schema = k.schema := by
  obtain ⟨j, hj, hm⟩ := Option.bind_eq_some_iff.mp h
  obtain ⟨p, hp, rfl⟩ := Option.map_eq_some_iff.mp hm
  exact ⟨j, hj, hp, rfl⟩

theorem previousOf_job {k : Key} {j : Job} {p : String} (hj : D .jobs k = some j) (hp : j.previousVersionId = some p) :
    previousOf D k = some ⟨k.schema, p⟩ := by
  simp [previousOf, hj, hp]

/-- How the rows of a job's versions hang together. The column `replaced_by_id` of a job that has been
replaced holds the job's own identifier. -/
structure Versioned (D : Rows Pg) : Prop where
  link : ∀ k (j : Job), D .jobs k = some j → j.replacedById = none ∨ (j.replacedById = some k.id ∧
    j.status = .retired ∧ ∃ kn, ∃ new : Job, kn.schema = k.schema ∧ D .jobs kn = some new ∧ new.previousVersionId = some k.id)
  base : ∀ k (j : Job) p, D .jobs k = some j → j.previousVersionId = some p →
    ∃ b : Job, D .jobs ⟨k.schema, p⟩ = some b ∧ b.status = .retired ∧ j.version = b.version + 1
  first : ∀ k (j : Job), D .jobs k = some j → j.previousVersionId = none → j.version = 1
  pos : ∀ k (j : Job), D .jobs k = some j → 1 ≤ j.version

theorem Versioned.commit (h : Versioned D) (c : Commit g req now D D') : Versioned D' := by
  have known : ∀ k (j : Job), D' .jobs k = some j → (∃ j₀ : Job, D .jobs k = some j₀ ∧ SameJob j₀ j) ∨
      ∃ previous, NewJob k j previous ∧ ∀ p, previous = some p → Based g D D' ⟨k.schema, p⟩ k j := by
    intro k j hj
    have step := c.job_step k
    rw [hj] at step
    generalize hx : D .jobs k = x at step
    cases step with
    | same => exact Or.inl ⟨j, rfl, sameJob_refl j⟩
    | new job base => exact Or.inr ⟨_, job, base⟩
    | retire _ same _ _ => exact Or.inl ⟨_, rfl, same⟩
  refine ⟨fun k j hj => ?_, fun k j p hj hp => ?_, fun k j hj hp => ?_, fun k j hj => ?_⟩
  · have step := c.job_step k
    rw [hj] at step
    generalize hx : D .jobs k = x at step
    cases step with
    | same =>
      rcases h.link k j hx with hn | ⟨hs, hr, kn, new, hschema, hnew, hprev⟩
      · exact Or.inl hn
      · obtain ⟨new', hnew', same⟩ := c.later.job kn new hnew
        exact Or.inr ⟨hs, hr, kn, new', hschema, hnew', same.columns.2.2.2.2.1.trans hprev⟩
    | new job _ => exact Or.inl job.replacedById
    | @retire j₀ _ active _ retired link =>
      rcases link with hl | ⟨hl, rest⟩
      · rcases h.link k j₀ hx with hn | ⟨_, hr, _⟩
        · exact Or.inl (hl.trans hn)
        · rw [active] at hr
          cases hr
      · exact Or.inr ⟨hl, retired, rest⟩
  · rcases known k j hj with ⟨j₀, hj₀, same⟩ | ⟨previous, job, base⟩
    · obtain ⟨b, hb, hr, hv⟩ := h.base k j₀ p hj₀ (same.columns.2.2.2.2.1.symm.trans hp)
      obtain ⟨b', hb', sameBase⟩ := c.later.job _ b hb
      refine ⟨b', hb', sameBase.2 hr, ?_⟩
      rw [same.version, sameBase.version, hv]
    · have based := base p (job.previousVersionId.symm.trans hp)
      obtain ⟨b, hb, _, _, _, hv⟩ := based.succeeds
      obtain ⟨b', hb', hr⟩ := based.retired
      obtain ⟨b'', hb'', sameBase⟩ := c.later.job _ b hb
      rw [hb'] at hb''
      cases hb''
      exact ⟨b', hb', hr, by rw [sameBase.version, hv]⟩
  · rcases known k j hj with ⟨j₀, hj₀, same⟩ | ⟨previous, job, _⟩
    · exact same.version.trans (h.first k j₀ hj₀ (same.columns.2.2.2.2.1.symm.trans hp))
    · exact job.version (job.previousVersionId.symm.trans hp)
  · rcases known k j hj with ⟨j₀, hj₀, same⟩ | ⟨previous, job, base⟩
    · rw [same.version]
      exact h.pos k j₀ hj₀
    · cases previous with
      | none =>
        have := job.version rfl
        omega
      | some p =>
        obtain ⟨b, hb, _, _, _, hv⟩ := (base p rfl).succeeds
        have := h.pos _ b hb
        omega

theorem versioned_run {acts : List (Action (service env))} (meets : (Pool.empty (service env)).Meets g acts) :
    Versioned (after acts).world.rows := by
  refine run_induction meets ⟨?_, ?_, ?_, ?_⟩ fun _ _ _ _ _ c h => h.commit c
  · exact fun k j h => by cases h
  · exact fun k j p h => by cases h
  · exact fun k j h => by cases h
  · exact fun k j h => by cases h

def versionAt (D : Rows Pg) (k : Key) : Int := ((D .jobs k : Option Job).map Job.version).getD 0

/-- The version before is older by one. -/
theorem Versioned.step (h : Versioned D) {k k' : Key} (hp : previousOf D k = some k') :
    versionAt D k = versionAt D k' + 1 := by
  obtain ⟨j, hj, hprev, hs⟩ := previousOf_some hp
  obtain ⟨b, hb, _, hv⟩ := h.base k j _ hj hprev
  have hk : (⟨k.schema, k'.id⟩ : Key) = k' := by rw [← hs]
  rw [hk] at hb
  simp only [versionAt, hj, hb, Option.map_some, Option.getD_some, hv]

theorem Versioned.down (h : Versioned D) (k k' : Key) (hp : previousOf D k = some k') : versionAt D k' < versionAt D k := by
  have := h.step hp
  omega

section links

/-- The two links are inverse to each other, the version after has the next number, and an ACTIVE
version has not been replaced. -/
structure LinksInverse (D : Rows Pg) : Prop where
  inverse : ∀ schemaName jId kId, ∀ j k : Job, D .jobs ⟨schemaName, jId⟩ = some j → D .jobs ⟨schemaName, kId⟩ = some k →
    (j.replacedById = some k.jobId ↔ k.previousVersionId = some j.jobId)
  version : ∀ kk, ∀ k : Job, D .jobs kk = some k → ∀ p, k.previousVersionId = some p →
    ∃ j : Job, D .jobs ⟨kk.schema, p⟩ = some j ∧ k.version = j.version + 1
  current : ∀ kk, ∀ k : Job, D .jobs kk = some k → k.status = .active → k.replacedById = none

/-- No update of the run creates a version. -/
def NeverReplaced (acts : List (Action (service env))) : Prop :=
  ∀ before x rest k, ∀ j : Job, acts = before ++ x :: rest → (after before).world.rows .jobs k = none →
    (after (before ++ [x])).world.rows .jobs k = some j → j.previousVersionId = none

theorem NeverReplaced.first {acts : List (Action (service env))} (never : NeverReplaced acts) {k : Key} {j : Job}
    (hj : (after acts).world.rows .jobs k = some j) : j.previousVersionId = none := by
  obtain ⟨before, x, rest, _, _, _, j₀, hacts, _, hn, hj₀, same⟩ := job_origin (Pool.meets_all _ acts) hj
  exact same.columns.2.2.2.2.1.trans (never before x rest k j₀ hacts hn hj₀)

/-- The versions' links are as documented in just the runs in which no update creates a version. -/
theorem version_links_inverse (acts : List (Action (service env))) :
    LinksInverse (after acts).world.rows ↔ NeverReplaced acts := by
  have versioned := versioned_run (Pool.meets_all _ acts)
  have linked := (keeps_all acts).inv.linked
  constructor
  · intro links before x rest k j hacts _ hj
    cases hprev : j.previousVersionId with
    | none => rfl
    | some p =>
      have later := later_run (keeps_all (before ++ [x])) (Pool.meets_all _ rest)
      have hrun : (after (before ++ [x])).run rest = after acts := by simp [after, hacts, ← Pool.run_append]
      rw [hrun] at later
      obtain ⟨j', hj', same⟩ := later.job k j hj
      have hprev' := same.columns.2.2.2.2.1.trans hprev
      obtain ⟨b, hb, _, hv⟩ := versioned.base k j' p hj' hprev'
      have hlink := (links.inverse k.schema p k.id b j' hb hj').mpr (by rw [hprev', (linked.job _ b hb).1])
      have hid : p = k.id := by
        rcases versioned.link _ b hb with hn | ⟨hs, _⟩
        · rw [hn] at hlink
          cases hlink
        · rw [hs, (linked.job k j' hj').1] at hlink
          exact Option.some.inj hlink
      subst hid
      obtain rfl : j' = b := Option.some.inj (hj'.symm.trans hb)
      omega
  · intro never
    have unlinked : ∀ k (j : Job), (after acts).world.rows .jobs k = some j → j.replacedById = none := by
      intro k j hj
      rcases versioned.link k j hj with hn | ⟨_, _, kn, new, _, hnew, hprev⟩
      · exact hn
      · rw [never.first hnew] at hprev
        cases hprev
    refine ⟨fun schemaName jId kId j k hj hk => ?_, fun kk k hk p hp => ?_, fun kk k hk _ => unlinked kk k hk⟩
    · rw [unlinked _ j hj, never.first hk]
      exact ⟨fun h => (by cases h), fun h => (by cases h)⟩
    · rw [never.first hk] at hp
      cases hp

def sampleUpdate : UpdateJob := ⟨some "* * * * *", none, none, none, none⟩

/-- A CRON job and its second version, whose identifier is `sampleId 308`. -/
def oneUpdate : List (Action (service sample)) :=
  oneCron ++ serve 3 13 (.updateJob "acme" (sampleId 206) sampleUpdate) (.response 200 "")

/-- The job that was replaced names itself as its replacement. -/
theorem replaced_by_itself : ∃ j k : Job, (after oneUpdate).world.rows .jobs ⟨"acme", sampleId 206⟩ = some j ∧
    (after oneUpdate).world.rows .jobs ⟨"acme", sampleId 308⟩ = some k ∧ k.previousVersionId = some j.jobId ∧
    j.replacedById ≠ some k.jobId := by
  have old : (((after oneUpdate).world.rows .jobs ⟨"acme", sampleId 206⟩).map fun (j : Job) => (j.jobId, j.replacedById)) =
      some (sampleId 206, some (sampleId 206)) := by decide +kernel
  have new : (((after oneUpdate).world.rows .jobs ⟨"acme", sampleId 308⟩).map fun (j : Job) =>
      (j.jobId, j.previousVersionId)) = some (sampleId 308, some (sampleId 206)) := by decide +kernel
  obtain ⟨j, hj, hx⟩ := Option.map_eq_some_iff.mp old
  obtain ⟨k, hk, hy⟩ := Option.map_eq_some_iff.mp new
  obtain ⟨hid, hby⟩ := Prod.mk.inj hx
  obtain ⟨hid', hprev⟩ := Prod.mk.inj hy
  refine ⟨j, k, hj, hk, by rw [hprev, hid], ?_⟩
  rw [hby, hid']
  decide +kernel

end links

end Invokr

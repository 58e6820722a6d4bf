import Invokr.EndpointTypes
import Invokr.Undisturbed

namespace Invokr

open TxLib

variable {env : Setup} {acts before own q : List (Action (service env))} {t : Nat} {req : Request env}

/-- The input of a job satisfies the schema; an input that is absent counts as null. -/
def Satisfies (env : Setup) (spec : PayloadSpec) (input : Option Json) : Prop :=
  JobsApi.validateInput env (input.getD .null) spec.schemaJson = .ok ()

/-- The requests of the API that make versions of jobs. -/
def Request.makesVersion : Request env → Bool
  | .createJob .. | .updateJob .. => true
  | _ => false

/-- An input that the request does not check satisfies the schema. -/
def InputFits (D : Rows Pg) (spec : PayloadSpec) : Request env → Prop
  | .createJob _ body => body.input = none → Satisfies env spec none
  | .updateJob schemaName jobId body => ∀ old : Job, D .jobs ⟨schemaName, jobId⟩ = some old →
      Satisfies env spec (body.input.orElse fun _ => old.input)
  | _ => True

theorem jobs_solid : Pg.plain .jobs = false := rfl

/-- Jobs keep their endpoints and inputs. -/
def keepsInput : Descent Pg .jobs where
  rel _ (j j' : Job) := j'.endpoint = j.endpoint ∧ j'.input = j.input
  refl _ _ := ⟨rfl, rfl⟩
  trans h h' := ⟨h'.1.trans h.1, h'.2.trans h.2⟩
  solid := jobs_solid

theorem inputs_origins (acts : List (Action (service env))) : (after acts).Origins keepsInput [] acts := by
  change (after ([] ++ acts)).Origins keepsInput [] ([] ++ acts)
  refine Pool.origins_run (fun _ => rfl) fun before t req o _ _ hn => ?_
  rintro stmt k skip keep patch rfl now j
  obtain ⟨l, _, knows⟩ := issues_run hn
  exact ⟨(knows now j).1, (knows now j).2.2⟩

theorem SameJob.input {j j' : Job} (h : SameJob j j') : j'.input = j.input := by
  have cols := h.1
  rw [← cols]

theorem SameJob.endpoint {j j' : Job} (h : SameJob j j') : j'.endpoint = j.endpoint := by
  have cols := h.1
  rw [← cols]

/-- A job that appears while a request is served undisturbed was inserted by the request. -/
theorem job_inserted (free : (after before).threads t = none) (alone : TxLib.Undisturbed t own) {k : Key} {j : Job}
    (absent : (after before).world.rows .jobs k = none) (since : before <+: q) (le : q <+: before ++ .start t req :: own)
    (stored : (after q).world.rows .jobs k = some j) :
    ∃ before' e stmt orIgnore build s, before <+: before' ∧ before' ++ [.step t e] <+: q ∧
      (after before').Makes t e req (.insert stmt .jobs orIgnore build) ∧ (build e.fresh (s : Session Pg).now).1 = k ∧
      j.endpoint = (build e.fresh s.now).2.endpoint ∧ j.input = (build e.fresh s.now).2.input := by
  obtain ⟨more, rfl⟩ := since
  induction more using List.reverseRecOn generalizing j with
  | nil =>
    rw [List.append_nil, absent] at stored
    cases stored
  | append_singleton more x ih =>
    rw [← List.append_assoc] at le stored ⊢
    have upTo := (List.prefix_append (before ++ more) [x]).trans le
    cases hrow : (after (before ++ more)).world.rows .jobs k with
    | some j₀ =>
      obtain ⟨before', e, stmt, orIgnore, build, s, hb, hle, makes, hk, hend, hin⟩ := ih upTo hrow
      obtain ⟨j', hj', same⟩ := (later_since (List.prefix_append (before ++ more) [x])).job k j₀ hrow
      have hjj : j' = j := Option.some.inj (hj'.symm.trans stored)
      subst hjj
      exact ⟨before', e, stmt, orIgnore, build, s, hb, hle.trans (List.prefix_append _ _), makes, hk,
        same.endpoint.trans hend, same.input.trans hin⟩
    | none =>
      rw [after_snoc] at stored
      obtain ⟨u, e, req', j₀, rfl, hn, ⟨before', e', req₁, stmt, orIgnore, build, s, _, hle, makes, _, _, hb⟩, rel⟩ :=
        (inputs_origins (before ++ more)).appears hrow stored
      have hu : u = t := alone.own_step (List.prefix_append _ _) le
      subst hu
      obtain ⟨hsince, rfl⟩ := Pool.served free ((List.prefix_append before' _).trans (hle.trans upTo)) makes.1
      obtain ⟨hk, rfl⟩ := Prod.mk.inj hb
      exact ⟨before', e', stmt, orIgnore, build, s, hsince, hle.trans (List.prefix_append _ _), makes, hk, rel.1, rel.2⟩

section served

variable (free : (after before).threads t = none) (alone : TxLib.Undisturbed t own) (versions : Request.makesVersion req = true)
  (since : before <+: q) (le : q <+: before ++ .start t req :: own)

include free alone versions since le

theorem endpoints_kept : (after q).world.rows .endpoints = (after before).world.rows .endpoints := by
  refine Pool.undisturbed_rows issues_all (fun m o ho => mild_spares ?_ ho) free alone since le
  cases req <;> trivial

theorem specs_kept : (after q).world.rows .payloadSpecs = (after before).world.rows .payloadSpecs := by
  have quiet : Request.ofSpecs req ≠ true := by
    cases req <;> first | exact Bool.false_ne_true | cases versions
  refine Pool.undisturbed_rows issues_all (fun m o ho => ?_) free alone since le
  cases o with
  | update stmt tb k skip keep patch =>
    refine ⟨?_, id⟩
    rintro rfl
    exact quiet ho
  | insert stmt tb orIgnore build =>
    refine ⟨?_, id⟩
    rintro rfl
    exact quiet ho
  | put stmt tb k row => exact ⟨fun hp he => (by rw [he] at hp; cases hp), id⟩
  | delete stmt tb k => exact ⟨fun hp he => (by rw [he] at hp; cases hp), id⟩
  | deleteNow stmt tb k =>
    refine ⟨trivial, ?_⟩
    rintro rfl
    exact quiet ho
  | _ => exact ⟨trivial, id⟩

omit since in
/-- What the request has been shown of endpoints and schemas was there when it came. -/
theorem shown_kept {l : List (Exchange Pg)} (made : ∀ x ∈ l, Made q t req x) :
    (∀ stmt k (ep : Endpoint), Shown l stmt .endpoints k ep → (after before).world.rows .endpoints k = some ep) ∧
      ∀ stmt k (spec : PayloadSpec), Shown l stmt .payloadSpecs k spec →
        (after before).world.rows .payloadSpecs k = some spec := by
  refine ⟨fun stmt k ep shown => ?_, fun stmt k spec shown => ?_⟩
  · obtain ⟨before', e, hle, makes, hrow⟩ := shown.made made
    have upTo := ((List.prefix_append before' _).trans hle).trans le
    rw [← endpoints_kept free alone versions (Pool.served free upTo makes.1).1 upTo]
    exact hrow
  · obtain ⟨before', e, hle, makes, hrow⟩ := shown.made made
    have upTo := ((List.prefix_append before' _).trans hle).trans le
    rw [← specs_kept free alone versions (Pool.served free upTo makes.1).1 upTo]
    exact hrow

end served

theorem spec_of_ref {k : Key} {ep : Endpoint} {name : String} (h : (after acts).world.rows .endpoints k = some ep)
    (ref : ep.payloadSpecRef = some name) :
    ∃ spec : PayloadSpec, (after acts).world.rows .payloadSpecs ⟨k.schema, name⟩ = some spec := by
  have refs := (keeps_all acts).sound.refs .endpoints k ep h
  have mem : (Table.payloadSpecs, (⟨k.schema, name⟩ : Key)) ∈ Table.refs .endpoints k ep := by
    simp [Table.refs, ref]
  exact Option.isSome_iff_exists.mp (List.all_eq_true.mp refs _ mem)

/-- The base version of an update was there when the request came. -/
theorem base_kept {schemaName jobId : String} {body : UpdateJob} (free : (after before).threads t = none)
    (alone : TxLib.Undisturbed t own) (since : before <+: q) (le : q <+: before ++ .start t (.updateJob schemaName jobId body) :: own)
    {j : Job} (h : (after q).world.rows .jobs ⟨schemaName, jobId⟩ = some j) :
    ∃ old : Job, (after before).world.rows .jobs ⟨schemaName, jobId⟩ = some old ∧ j.input = old.input := by
  obtain ⟨more, rfl⟩ := since
  induction more using List.reverseRecOn generalizing j with
  | nil => exact ⟨j, by simpa using h, rfl⟩
  | append_singleton more x ih =>
    rw [← List.append_assoc] at le h
    have upTo := (List.prefix_append (before ++ more) [x]).trans le
    cases hrow : (after (before ++ more)).world.rows .jobs ⟨schemaName, jobId⟩ with
    | some j₀ =>
      obtain ⟨old, hold, same⟩ := ih upTo hrow
      obtain ⟨j', hj', step⟩ := (later_since (List.prefix_append (before ++ more) [x])).job _ j₀ hrow
      have hjj : j' = j := Option.some.inj (hj'.symm.trans h)
      exact ⟨old, hold, hjj ▸ step.input.trans same⟩
    | none =>
      -- the request would have inserted the version that it was shown before
      have absent : (after before).world.rows .jobs ⟨schemaName, jobId⟩ = none := by
        cases hb : (after before).world.rows .jobs ⟨schemaName, jobId⟩ with
        | none => rfl
        | some old =>
          obtain ⟨j', hj', _⟩ := (later_since (List.prefix_append before more)).job _ old hb
          rw [hrow] at hj'
          cases hj'
      obtain ⟨before', e, stmt, orIgnore, build, s, _, hle, makes, _, _, _⟩ :=
        job_inserted free alone absent ((List.prefix_append before more).trans (List.prefix_append _ [x])) le h
      obtain ⟨l, made, knows⟩ := issues_run makes.1
      have job := knows
      simp only [Issues, KnowsJob] at job
      obtain ⟨old, shown, _, _⟩ := job
      obtain ⟨before'', e', hle', _, hold⟩ := shown.made made
      have early : before' <+: before ++ more := by
        rcases List.prefix_concat_iff.mp hle with he | he
        · exact (List.append_inj' he rfl).1 ▸ List.prefix_refl _
        · exact (List.prefix_append _ _).trans he
      obtain ⟨j', hj', _⟩ := (later_since (((List.prefix_append before'' _).trans hle').trans early)).job _ old hold
      rw [hrow] at hj'
      cases hj'

/-- A version made by `POST /v1/jobs` or `PUT /v1/jobs/{id}` has an input that satisfies the schema of its
endpoint if and only if the input that is not checked does: an update's, and one left out at creation. -/
theorem stored_inputs_valid (before own : List (Action (service env))) {t : Nat} {req : Request env} {k : Key} {j : Job}
    {ep : Endpoint} {name : String} (versions : Request.makesVersion req = true) (free : (after before).threads t = none)
    (alone : TxLib.Undisturbed t own) (absent : (after before).world.rows .jobs k = none)
    (stored : (after (before ++ .start t req :: own)).world.rows .jobs k = some j)
    (endpoint : (after (before ++ .start t req :: own)).world.rows .endpoints ⟨k.schema, j.endpoint⟩ = some ep)
    (ref : ep.payloadSpecRef = some name) :
    ∃ spec : PayloadSpec, (after (before ++ .start t req :: own)).world.rows .payloadSpecs ⟨k.schema, name⟩ = some spec ∧
      (Satisfies env spec j.input ↔ InputFits (after before).world.rows spec req) := by
  have whole : before <+: before ++ .start t req :: own := List.prefix_append _ _
  obtain ⟨before', e, stmt, orIgnore, build, s, since, le, makes, rfl, hend, hin⟩ :=
    job_inserted free alone absent whole (List.prefix_refl _) stored
  obtain ⟨l, made, knows⟩ := issues_run makes.1
  obtain ⟨spec, hspec⟩ := spec_of_ref endpoint ref
  have upTo := (List.prefix_append before' _).trans le
  obtain ⟨epShown, specShown⟩ := shown_kept free alone versions upTo made
  refine ⟨spec, hspec, ?_⟩
  rw [endpoints_kept free alone versions whole (List.prefix_refl _)] at endpoint
  rw [specs_kept free alone versions whole (List.prefix_refl _)] at hspec
  have job := knows
  simp only [Issues, KnowsJob] at job
  cases req with
  | createJob schemaName body =>
    obtain ⟨ep₀, read, hb⟩ := job
    have hj := hb e.fresh s.now
    rw [hin, hj.input]
    cases hinput : body.input with
    | none => simp [InputFits, hinput]
    | some input =>
      have hep : ep₀ = ep := by
        have h₀ := epShown _ _ ep₀ read.shown
        rw [hend, hj.schema, hj.endpoint, h₀] at endpoint
        exact Option.some.inj endpoint
      obtain ⟨spec₀, shown, valid⟩ := read.checked name input (hep ▸ ref) hinput
      have hsame : spec₀ = spec := by
        have h₀ := specShown _ _ spec₀ shown
        rw [hj.schema, h₀] at hspec
        exact Option.some.inj hspec
      subst hsame
      refine iff_of_true valid fun hn => ?_
      rw [hinput] at hn
      cases hn
  | updateJob schemaName jobId body =>
    obtain ⟨old, shown, _, hb⟩ := job
    have hj := hb e.fresh s.now
    rw [hin, hj.input]
    obtain ⟨before'', e', hle, makes', hrow⟩ := shown.made made
    have upTo' := ((List.prefix_append before'' _).trans hle).trans upTo
    obtain ⟨old₀, hold₀, hinput⟩ := base_kept free alone (Pool.served free upTo' makes'.1).1 upTo' hrow
    simp only [InputFits, hold₀, Option.some.injEq, forall_eq', hinput]
  | provisionReaper => cases versions
  | libraryCreateJob => cases versions
  | _ => exact job.elim

section sample

def isObject : Json → Bool
  | .obj _ => true
  | _ => false

/-- Every schema asks for an object. -/
def strict : Setup := { sample with schemaErrors := fun _ input => if isObject input then [] else ["not of type object"] }

theorem satisfies_strict {spec : PayloadSpec} {input : Option Json} (h : Satisfies strict spec input) :
    isObject (input.getD .null) = true := by
  simp only [Satisfies, JobsApi.validateInput, strict, sample] at h
  by_contra hn
  rw [if_neg hn] at h
  cases h

def checkedJob : CreateJob :=
  ⟨"hook", "CRON", some "order-1", some (.object []), none, none, some "* * * * *", some "UTC", none, none⟩

/-- An endpoint with a schema. -/
def withSchema : List (Action (service strict)) :=
  serve 1 8 (.createPayloadSpec "acme" "order" (.object [("type", .str "object")])) (.response 200 "") ++
    serve 2 14 (.createEndpoint "acme" { sampleEndpoint with payloadSpec := some "order" }) (.response 200 "")

/-- A job for it that fires every minute. -/
def withJob : List (Action (service strict)) :=
  withSchema ++ .start 3 (.createJob "acme" checkedJob) :: steps 3 24 (.response 200 "")

def textInput : Request strict := .updateJob "acme" (sampleId 312) ⟨some "* * * * *", none, some (.str "x"), none, none⟩

theorem steps_undisturbed {env : Setup} (t n : Nat) (reply : HttpReply) :
    TxLib.Undisturbed t (steps t n reply : List (Action (service env))) := by
  intro x hx u e hs
  obtain ⟨i, _, rfl⟩ := List.mem_map.mp hx
  cases hs
  rfl

/-- An update stores a text where the schema asks for an object. -/
theorem stored_input_invalid : ¬∀ (before own : List (Action (service strict))) (t : Nat) (req : Request strict) (k : Key)
    (j : Job) (ep : Endpoint) (name : String), Request.makesVersion req = true → (after before).threads t = none →
    TxLib.Undisturbed t own → (after before).world.rows .jobs k = none →
    (after (before ++ .start t req :: own)).world.rows .jobs k = some j →
    (after (before ++ .start t req :: own)).world.rows .endpoints ⟨k.schema, j.endpoint⟩ = some ep →
    ep.payloadSpecRef = some name → ∃ spec : PayloadSpec,
      (after (before ++ .start t req :: own)).world.rows .payloadSpecs ⟨k.schema, name⟩ = some spec ∧
        Satisfies strict spec j.input := by
  intro valid
  have free : ((after withJob).threads 4).isNone = true := by decide +kernel
  have absent : ((after withJob).world.rows .jobs ⟨"acme", sampleId 408⟩).isNone = true := by decide +kernel
  have stored : ((after (withJob ++ .start 4 textInput :: steps 4 24 (.response 200 ""))).world.rows .jobs
      ⟨"acme", sampleId 408⟩).map (fun j : Job => (j.endpoint, isObject (j.input.getD .null))) = some ("hook", false) := by
    decide +kernel
  have endpoint : ((after (withJob ++ .start 4 textInput :: steps 4 24 (.response 200 ""))).world.rows .endpoints
      ⟨"acme", "hook"⟩).map (fun ep : Endpoint => ep.payloadSpecRef) = some (some "order") := by
    decide +kernel
  obtain ⟨j, hj, hcols⟩ := Option.map_eq_some_iff.mp stored
  obtain ⟨hend, hinput⟩ := Prod.mk.inj hcols
  obtain ⟨ep, hep, href⟩ := Option.map_eq_some_iff.mp endpoint
  rw [← hend] at hep
  have made := valid withJob (steps 4 24 (.response 200 "")) 4 textInput ⟨"acme", sampleId 408⟩ j ep "order" rfl
    (Option.isNone_iff_eq_none.mp free) (steps_undisturbed _ _ _) (Option.isNone_iff_eq_none.mp absent) hj
  dsimp only at made
  obtain ⟨spec, _, hvalid⟩ := made hep href
  rw [satisfies_strict hvalid] at hinput
  cases hinput

theorem stored_inputs_valid_one : ∃ (j : Job) (spec : PayloadSpec),
    (after withJob).world.rows .jobs ⟨"acme", sampleId 312⟩ = some j ∧
      (after withJob).world.rows .payloadSpecs ⟨"acme", "order"⟩ = some spec ∧ Satisfies strict spec j.input := by
  have free : ((after withSchema).threads 3).isNone = true := by decide +kernel
  have absent : ((after withSchema).world.rows .jobs ⟨"acme", sampleId 312⟩).isNone = true := by decide +kernel
  have stored : ((after withJob).world.rows .jobs ⟨"acme", sampleId 312⟩).map (fun j : Job => j.endpoint) = some "hook" := by
    decide +kernel
  have endpoint : ((after withJob).world.rows .endpoints ⟨"acme", "hook"⟩).map (fun ep : Endpoint => ep.payloadSpecRef) =
      some (some "order") := by
    decide +kernel
  obtain ⟨j, hj, hend⟩ := Option.map_eq_some_iff.mp stored
  obtain ⟨ep, hep, href⟩ := Option.map_eq_some_iff.mp endpoint
  rw [← hend] at hep
  obtain ⟨spec, hspec, valid⟩ := @stored_inputs_valid strict withSchema (steps 3 24 (.response 200 "")) 3
    (.createJob "acme" checkedJob) ⟨"acme", sampleId 312⟩ j ep "order" rfl (Option.isNone_iff_eq_none.mp free)
    (steps_undisturbed _ _ _) (Option.isNone_iff_eq_none.mp absent) hj hep href
  refine ⟨j, spec, hj, hspec, valid.mpr ?_⟩
  exact fun hn => (Option.some_ne_none _ hn).elim

end sample

end Invokr

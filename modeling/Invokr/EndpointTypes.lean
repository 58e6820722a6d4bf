import Invokr.Spared
import Invokr.Recollection
import Invokr.Runs

namespace Invokr

open TxLib

/-- Jobs carry the type of their endpoint. -/
def endpointTypes : Copy Pg where
  parent := .endpoints
  child := .jobs
  Value := EndpointType
  value (ep : Endpoint) := ep.endpointType
  copied (j : Job) := j.endpointType
  key k (j : Job) := ⟨k.schema, j.endpoint⟩
  refers _ _ := List.mem_singleton.mpr rfl
  apart := by decide
  solidParent := rfl
  solidChild := rfl

variable {env : Setup} {acts acts' : List (Action (service env))}

/-- The endpoint that a request reads and then inserts a job for. -/
def Request.endpointKey : Request env → Option Key
  | .createJob schemaName body => some ⟨schemaName, body.endpoint⟩
  | .libraryCreateJob schemaName endpoint _ _ _ _ => some ⟨schemaName, endpoint⟩
  | _ => none

/-- Whenever a request inserts a job, the endpoint has the type it had when the request read it. -/
def TypesStay (acts : List (Action (service env))) : Prop :=
  ∀ before before' t e e' req k stmt orIgnore build, before ++ [.step t e] <+: before' →
    before' ++ [.step t e'] <+: acts → Request.endpointKey req = some k → (after before).Makes t e req (.snapshot .getEndpoint) →
    (after before').Makes t e' req (.insert stmt .jobs orIgnore build) → ∀ ep ep' : Endpoint,
      (after before).world.rows .endpoints k = some ep → (after before').world.rows .endpoints k = some ep' →
      ep'.endpointType = ep.endpointType

theorem TypesStay.before (h : TypesStay acts') (le : acts <+: acts') : TypesStay acts :=
  fun before before' t e e' req k stmt orIgnore build hb hb' => h before before' t e e' req k stmt orIgnore build hb (hb'.trans le)

/-- A request that inserts jobs but no endpoint. -/
def Request.mild : Request env → Prop
  | .createJob .. | .updateJob .. | .libraryCreateJob .. => True
  | _ => False

theorem mild_spares {req : Request env} {m : Memory Pg} {o : Op Pg} (hr : Request.mild req) (h : Issues env req m o) :
    Spares (M := Pg) .endpoints o ∧ ¬Drops (M := Pg) .endpoints o := by
  cases o with
  | update stmt tb k skip keep patch =>
    refine ⟨?_, id⟩
    rintro rfl
    cases req <;> first | exact hr.elim | exact h.1.elim
  | insert stmt tb orIgnore build =>
    refine ⟨?_, id⟩
    rintro rfl
    have hk := h (sampleUuid 0) 0
    cases req <;> first | exact hr.elim | exact hk.elim
  | put stmt tb k row => exact ⟨fun hp he => (by rw [he] at hp; cases hp), id⟩
  | delete stmt tb k => exact ⟨fun hp he => (by rw [he] at hp; cases hp), id⟩
  | deleteNow stmt tb k =>
    refine ⟨trivial, ?_⟩
    rintro rfl
    cases req <;> first | exact hr.elim | exact h.elim
  | _ => exact ⟨trivial, id⟩

/-- A request that inserts a job has read its endpoint at some earlier step. -/
theorem Shown.made {l : List (Exchange Pg)} {t : Nat} {req : Request env} {stmt : Statement} {tb : Table} {k : Key}
    {r : tb.Row} (h : Shown l stmt tb k r) (made : ∀ x ∈ l, Made acts t req x) :
    ∃ before e, before ++ [.step t e] <+: acts ∧ (after before).Makes t e req (.snapshot stmt) ∧
      (after before).world.rows tb k = some r := by
  obtain ⟨x, hx, hop, hrow⟩ := h
  obtain ⟨before, le, makes, hrows⟩ := (made x hx).makes
  exact ⟨before, x.env, le, hop ▸ makes, by rw [hrows]; exact hrow⟩

/-- The insert of a job copies the type that the endpoint has now. -/
theorem copies_now (stays : TypesStay acts) (holds : endpointTypes.Holds (after (acts' : List (Action (service env)))).world) {t : Nat} {e : Env Pg}
    (le : acts' ++ [.step t e] <+: acts) {req : Request env} {stmt : Statement} {orIgnore : Bool}
    {build : Uuid → Int → Key × Job} (makes : (after acts').Makes t e req (.insert stmt .jobs orIgnore build))
    {s : Session Pg} (hs : (after acts').world.sessions t = some s) {ep : Endpoint}
    (hv : s.visible (after acts').world.rows .endpoints
      ⟨(build e.fresh s.now).1.schema, (build e.fresh s.now).2.endpoint⟩ = some ep) :
    ep.endpointType = (build e.fresh s.now).2.endpointType := by
  obtain ⟨l, made, knows⟩ := issues_run makes.1
  have committed : Request.mild req → (after acts').world.rows .endpoints
      ⟨(build e.fresh s.now).1.schema, (build e.fresh s.now).2.endpoint⟩ = some ep := by
    intro hm
    have spares : ∀ req' m o, Request.mild req' → Issues env req' m o → Spares (M := Pg) .endpoints o :=
      fun _ _ _ hr ho => (mild_spares hr ho).1
    have free : Unheld (M := Pg) .endpoints (some s) :=
      hs ▸ Pool.recalled_free (P := Issues env) issues_all spares hm makes.1
    have same : s.visible (after acts').world.rows .endpoints = (after acts').world.rows .endpoints := free.visible
    rw [← same]
    exact hv
  -- a request that has read the endpoint finds the type it read
  have current : ∀ {ep₀ : Endpoint} {k : Key}, Request.endpointKey req = some k → Request.mild req →
      Shown l .getEndpoint .endpoints k ep₀ → ⟨(build e.fresh s.now).1.schema, (build e.fresh s.now).2.endpoint⟩ = k →
      ep.endpointType = ep₀.endpointType := by
    intro ep₀ k hkey hm shown hk
    obtain ⟨before, e₀, hbefore, read, hread⟩ := shown.made made
    exact stays before acts' t e₀ e req k stmt orIgnore build hbefore le hkey read makes ep₀ ep hread (hk ▸ committed hm)
  have job := knows
  simp only [Issues, KnowsJob] at job
  cases req with
  | createJob schemaName body =>
    obtain ⟨ep₀, read, hb⟩ := job
    have hj := hb e.fresh s.now
    rw [hj.endpointType]
    exact current rfl trivial read.shown (by rw [hj.schema, hj.endpoint])
  | libraryCreateJob schemaName endpoint input n trigger key =>
    obtain ⟨ep₀, shown, hb⟩ := job
    have hj := hb e.fresh s.now
    rw [hj.endpointType]
    exact current rfl trivial shown (by rw [hj.schema, hj.endpoint])
  | updateJob schemaName jobId body =>
    obtain ⟨old, shown, _, hb⟩ := job
    have hj := hb e.fresh s.now
    obtain ⟨before, e₀, hbefore, _, hread⟩ := shown.made made
    obtain ⟨j, hrow, same⟩ := (later_since ((List.prefix_append before [.step t e₀]).trans hbefore)).job _ old hread
    obtain ⟨ep', hrow', heq⟩ := holds.rows ⟨schemaName, jobId⟩ j hrow
    have hcols := same.1
    have hend : j.endpoint = old.endpoint := by rw [← hcols]
    have htype : j.endpointType = old.endpointType := by rw [← hcols]
    have hc := committed trivial
    rw [hj.schema, hj.endpoint, ← hend] at hc
    have hep : ep' = ep := Option.some.inj (hrow'.symm.trans hc)
    rw [hj.endpointType, ← htype, ← hep]
    exact heq
  | provisionReaper schemaName expression plain =>
    obtain ⟨⟨s', h, ep', hs', hheld, hnew, htype⟩, hb⟩ := job
    have hj := hb e.fresh s.now
    have hse : s' = s := Option.some.inj (hs'.symm.trans hs)
    subst hse
    rw [hj.schema, hj.endpoint, Session.visible, hheld] at hv
    have hep : ep' = ep := Option.some.inj (hnew.symm.trans hv)
    rw [hj.endpointType, ← hep]
    exact htype
  | _ => exact job.elim

theorem types_lawful (stays : TypesStay acts) (holds : endpointTypes.Holds (after acts').world) {t : Nat} {e : Env Pg}
    (le : acts' ++ [.step t e] <+: acts) {req : Request env} {o : Op Pg} (makes : (after acts').Makes t e req o)
    {s : Session Pg} (hs : (after acts').world.sessions t = some s) :
    endpointTypes.Lawful (after acts').world.rows e s o where
  value stmt k skip keep patch ho now ep := by
    subst ho
    obtain ⟨l, _, knows⟩ := issues_run makes.1
    exact knows.2 now ep
  copied stmt k skip keep patch ho now j := by
    subst ho
    obtain ⟨l, _, knows⟩ := issues_run makes.1
    obtain ⟨hend, htype, _⟩ := knows now j
    exact ⟨htype, congrArg (Key.mk k.schema) hend⟩
  insert stmt orIgnore build ho ep hv := by
    subst ho
    exact copies_now stays holds le makes hs hv

theorem types_run (stays : TypesStay acts) : endpointTypes.Holds (after acts).world := by
  induction acts using List.reverseRecOn with
  | nil => exact Copy.holds_empty
  | append_singleton acts x ih =>
    have before := ih (stays.before (List.prefix_append _ _))
    rw [after_snoc]
    refine before.act (keeps_all acts).sound x fun t e req o s hx makes hs => ?_
    subst hx
    exact types_lawful stays before (List.prefix_refl _) makes hs

/-- While no request finds its endpoint with another type than it read, jobs and executions carry
the types of their endpoints. -/
theorem endpoint_type_current (acts : List (Action (service env))) (stays : TypesStay acts) :
    (∀ k (j : Job), (after acts).world.rows .jobs k = some j → ∃ ep : Endpoint,
        (after acts).world.rows .endpoints ⟨k.schema, j.endpoint⟩ = some ep ∧ ep.endpointType = j.endpointType) ∧
      ∀ k (e : Execution), (after acts).world.rows .executions k = some e → ∃ ep : Endpoint,
        (after acts).world.rows .endpoints ⟨k.schema, e.endpoint⟩ = some ep ∧ ep.endpointType = e.endpointType := by
  have agrees := (types_run stays).rows
  refine ⟨fun k j hj => agrees k j hj, fun k e he => ?_⟩
  obtain ⟨_, j, hj, hend, htype⟩ := (keeps_all acts).inv.linked.execution k e he
  obtain ⟨ep, hep, heq⟩ := agrees _ j hj
  exact ⟨ep, by rw [hend]; exact hep, by rw [htype]; exact heq⟩

section sample

/-- The endpoint is deleted and made again with another type while a request that has read it is on
its way to its insert. -/
def recreated : List (Action (service sample)) :=
  serve 1 8 (.createEndpoint "acme" sampleEndpoint) (.response 200 "") ++
    .start 2 (.createJob "acme" sampleJob) :: steps 2 8 (.response 200 "") ++
    serve 3 12 (.deleteEndpoint "acme" "hook") (.response 200 "") ++
    serve 4 8 (.createEndpoint "acme" { sampleEndpoint with endpointType := "KAFKA" }) (.response 200 "") ++
    steps 2 6 (.response 200 "")

/-- The worker would hand the job of a KAFKA endpoint to the HTTP dispatcher. -/
theorem endpoint_type_stale : ¬∀ acts : List (Action (service sample)),
    (∀ k (j : Job), (after acts).world.rows .jobs k = some j → ∃ ep : Endpoint,
        (after acts).world.rows .endpoints ⟨k.schema, j.endpoint⟩ = some ep ∧ ep.endpointType = j.endpointType) ∧
      ∀ k (e : Execution), (after acts).world.rows .executions k = some e → ∃ ep : Endpoint,
        (after acts).world.rows .endpoints ⟨k.schema, e.endpoint⟩ = some ep ∧ ep.endpointType = e.endpointType := by
  intro current
  have types : ((after recreated).world.rows .jobs ⟨"acme", sampleId 200⟩).map (fun j : Job => (j.endpoint, j.endpointType)) =
        some ("hook", .http) ∧
      ((after recreated).world.rows .endpoints ⟨"acme", "hook"⟩).map Endpoint.endpointType = some .kafka := by
    decide +kernel
  obtain ⟨j, hj, hcols⟩ := Option.map_eq_some_iff.mp types.1
  obtain ⟨ep, hep, htype⟩ := Option.map_eq_some_iff.mp types.2
  obtain ⟨hname, hhttp⟩ := Prod.mk.inj hcols
  obtain ⟨ep', hep', heq⟩ := (current recreated).1 _ j hj
  rw [hname] at hep'
  have same : ep' = ep := Option.some.inj (hep'.symm.trans hep)
  rw [same, htype, hhttp] at heq
  cases heq

/-- An endpoint and a job for it. -/
def oneJob : List (Action (service sample)) :=
  serve 1 8 (.createEndpoint "acme" sampleEndpoint) (.response 200 "") ++
    serve 2 14 (.createJob "acme" sampleJob) (.response 200 "")

def staysHttp (p : Pool (service sample)) (_ : Action (service sample)) : Bool :=
  (p.world.rows .endpoints ⟨"acme", "hook"⟩).all fun ep : Endpoint => ep.endpointType = .http

theorem oneJob_stays : TypesStay oneJob := by
  have check : checked staysHttp (after []) oneJob = true := by decide +kernel
  intro before before' t e e' req k stmt orIgnore build hb hb' hkey _ makes ep ep' hep hep'
  obtain ⟨th, _, hth, _, rfl, _⟩ := Pool.waits makes.1
  have started : .start t th.req ∈ oneJob := (List.prefix_append _ _).trans hb' |>.subset (Pool.thread_started hth)
  have hk : k = ⟨"acme", "hook"⟩ := by
    simp only [oneJob, serve, steps, List.mem_append, List.mem_cons, List.mem_map, reduceCtorEq, and_false, exists_false,
      or_false, Action.start.injEq] at started
    rcases started with ⟨_, hreq⟩ | ⟨_, hreq⟩
    · rw [hreq] at hkey
      cases hkey
    · rw [hreq] at hkey
      exact (Option.some.inj hkey).symm
  subst hk
  have first := checked_step check (hb.trans ((List.prefix_append _ _).trans hb'))
  have second := checked_step check hb'
  simp only [staysHttp, Pool.run_nil] at first second
  have hfirst : (after before).world.rows .endpoints ⟨"acme", "hook"⟩ = some ep := hep
  have hsecond : (after before').world.rows .endpoints ⟨"acme", "hook"⟩ = some ep' := hep'
  rw [hfirst] at first
  rw [hsecond] at second
  simp only [Option.all_some, decide_eq_true_eq] at first second
  rw [first, second]

theorem endpoint_type_current_one :
    ((after oneJob).world.rows .jobs ⟨"acme", sampleId 208⟩).isSome = true ∧
      ∀ k (j : Job), (after oneJob).world.rows .jobs k = some j → ∃ ep : Endpoint,
        (after oneJob).world.rows .endpoints ⟨k.schema, j.endpoint⟩ = some ep ∧ ep.endpointType = j.endpointType :=
  ⟨by decide +kernel, (endpoint_type_current oneJob oneJob_stays).1⟩

end sample

end Invokr

import Invokr.ClaimSafety
import Invokr.Schedules

namespace Invokr

open TxLib

variable {env : Setup} {g : Guard (service env)} {acts : List (Action (service env))} {t : Nat} {d : Dispatch}

/-- In the course of the run the thread has handed this to a dispatcher. -/
def Delivered (acts : List (Action (service env))) (t : Nat) (d : Dispatch) : Prop :=
  Entry.ext (M := Pg) (.dispatch d) () ∈ (after acts).world.history t

/-- Which call has written the line of a call outside the database. -/
theorem entries_ext {o : Op Pg} {D : Rows Pg} {foreign : Table → Key → Bool} {e : Env Pg} {s : Option (Session Pg)}
    {x : External} {r : x.Answer} (h : o.entries D foreign e s = [.ext x r]) : o = .ext x := by
  cases o with
  | ext y =>
    simp only [Op.entries, List.cons.injEq, Entry.ext.injEq, and_true] at h
    rw [h.1]
  | begin =>
    simp only [Op.entries] at h
    split at h
    next => cases h
    next => split at h <;> cases h
  | update stmt tb k skip keep patch =>
    simp only [Op.entries] at h
    split at h <;> cases h
  | commit =>
    simp only [Op.entries] at h
    split at h
    next => split at h <;> cases h
    next => cases h
  | rollback =>
    simp only [Op.entries] at h
    split at h <;> cases h
  | _ => cases h

/-- A dispatch is one of an execution that was there, with the key of its job or, where that has
none, the execution's own identifier, and the spec is resolved with the same key. -/
theorem delivered_job (h : Delivered acts t d) : ∃ (e : Execution) (j : Job),
    (after acts).world.rows .executions d.key = some e ∧ (after acts).world.rows .jobs (jobKey d.key e) = some j ∧
      d.idempotencyKey = j.idempotencyKey.getD d.executionId ∧ Resolved d := by
  obtain ⟨l₁, l₂, hl⟩ := List.append_of_mem h
  obtain ⟨before, x, rest, hacts, _, _, logs⟩ := Pool.log_origin hl
  have later := later_run (keeps_all before) (Pool.meets_all _ (x :: rest))
  rw [← Pool.run_append, ← hacts] at later
  cases logs with
  | @call e th o next w r _ hth ha hp he hes =>
    obtain rfl := entries_ext hes
    obtain ⟨w₀, later₀, hv, pre⟩ := keeps_pre (keeps_all before) hth ha hp
    obtain ⟨_, s, l, b, hv₀, hm, _, ⟨j, hj, hkey⟩, resolved, _⟩ := pre.2
    have hist : (after before).world.history t = l := congrArg Prod.snd (hv.trans hv₀)
    obtain ⟨m₁, m₂, hsplit, _⟩ := current_split hm
    obtain ⟨start, y, mid, hbefore, hstart, hafter, claimed⟩ := Pool.log_origin (hist.trans hsplit)
    obtain ⟨s₁, claims⟩ := claims_of_logs claimed (by rw [hstart]; exact hafter)
    have since := later_run (keeps_all start) (Pool.meets_all _ (y :: mid))
    rw [← Pool.run_append, ← hbefore] at since
    obtain ⟨e₁, he₁, same⟩ := (since.trans later).execution d.key b claims.found
    obtain ⟨j₁, hj₁, sameJob⟩ := (later₀.trans later).job _ j hj
    refine ⟨e₁, j₁, he₁, ?_, ?_, resolved⟩
    · rw [jobKey, same.jobId]
      exact hj₁
    · rw [hkey, sameJob.columns.2.2.2.2.2.1]

/-- The generated identifiers of executions are no keys of jobs. -/
def Apart (D : Rows Pg) : Prop :=
  ∀ kj (j : Job) ke (e : Execution), D .jobs kj = some j → D .executions ke = some e → j.idempotencyKey ≠ some e.executionId

/-- Both executions are of one CRON job that has a key. -/
def SharedKey (D : Rows Pg) (kj kj' : Key) : Prop :=
  kj = kj' ∧ ∃ j : Job, D .jobs kj = some j ∧ j.triggerType = .cron ∧ j.idempotencyKey ≠ none

/-- Two executions of one job are two ticks of a CRON job. -/
theorem Together.cron {D : Rows Pg} (h : Together D) {ke ke' kj : Key} {e e' : Execution} {j : Job}
    (he : D .executions ke = some e) (he' : D .executions ke' = some e') (hj : D .jobs kj = some j)
    (hjob : jobKey ke e = kj) (hjob' : jobKey ke' e' = kj) (hne : ke ≠ ke') : j.triggerType = .cron := by
  by_contra once
  obtain ⟨k₀, _, _, _, _, unique⟩ := h kj j hj once
  exact hne ((unique ke e he hjob).trans (unique ke' e' he' hjob').symm)

/-- All dispatches of an execution carry the same key, and dispatches of different executions of an
endpoint carry different ones unless both executions are of one CRON job that was created with a
key. -/
theorem delivered_key_identifies (official : Official g) (acts : List (Action (service env)))
    (meets : (Pool.empty (service env)).Meets g acts) (apart : Apart (after acts).world.rows) :
    (∀ t d, Delivered acts t d → Resolved d) ∧
      (∀ t t' d d', Delivered acts t d → Delivered acts t' d' → d.key = d'.key → d.idempotencyKey = d'.idempotencyKey) ∧
      ∀ t t' d d', ∀ e e' : Execution, Delivered acts t d → Delivered acts t' d' →
        (after acts).world.rows .executions d.key = some e → (after acts).world.rows .executions d'.key = some e' →
        d.schemaName = d'.schemaName → e.endpoint = e'.endpoint → d.key ≠ d'.key →
        (d.idempotencyKey ≠ d'.idempotencyKey ↔
          ¬SharedKey (after acts).world.rows (jobKey d.key e) (jobKey d'.key e')) := by
  have keeps := keeps_run meets
  refine ⟨fun t d h => ?_, fun t t' d d' h h' hk => ?_, fun t t' d d' e e' h h' he he' hschema hep hne => ?_⟩
  · obtain ⟨_, _, _, _, _, resolved⟩ := delivered_job h
    exact resolved
  · obtain ⟨e, j, he, hj, hkey, _⟩ := delivered_job h
    obtain ⟨e', j', he', hj', hkey', _⟩ := delivered_job h'
    rw [← hk, he] at he'
    cases he'
    rw [← hk, hj] at hj'
    cases hj'
    have hid : d.executionId = d'.executionId := congrArg Key.id hk
    rw [hkey, hkey', hid]
  · obtain ⟨e₀, j, he₀, hj, hkey, _⟩ := delivered_job h
    obtain ⟨e₁, j', he₁, hj', hkey', _⟩ := delivered_job h'
    obtain rfl : e = e₀ := Option.some.inj (he.symm.trans he₀)
    obtain rfl : e' = e₁ := Option.some.inj (he'.symm.trans he₁)
    have hid : d.executionId ≠ d'.executionId := by
      intro hid
      apply hne
      rw [Dispatch.key, Dispatch.key, hschema, hid]
    have execId : ∀ {d : Dispatch} {e : Execution}, (after acts).world.rows .executions d.key = some e →
        e.executionId = d.executionId := fun he => (keeps.inv.linked.execution _ _ he).1
    rw [hkey, hkey', ne_eq, not_iff_not]
    constructor
    · intro heq
      cases hk : j.idempotencyKey with
      | none =>
        cases hk' : j'.idempotencyKey with
        | none =>
          rw [hk, hk'] at heq
          exact (hid heq).elim
        | some key' =>
          rw [hk, hk', Option.getD_none, Option.getD_some, ← execId he] at heq
          exact (apart _ j' _ e hj' he (by rw [hk', heq])).elim
      | some key =>
        cases hk' : j'.idempotencyKey with
        | none =>
          rw [hk, hk', Option.getD_none, Option.getD_some, ← execId he'] at heq
          exact (apart _ j _ e' hj he' (by rw [hk, heq])).elim
        | some key' =>
          rw [hk, hk', Option.getD_some, Option.getD_some] at heq
          subst heq
          have hend : j.endpoint = j'.endpoint := by
            obtain ⟨_, i, hi, hie, _⟩ := keeps.inv.linked.execution _ e he
            obtain ⟨_, i', hi', hie', _⟩ := keeps.inv.linked.execution _ e' he'
            rw [hj] at hi
            cases hi
            rw [hj'] at hi'
            cases hi'
            rw [← hie, ← hie', hep]
          have hsame : jobKey d.key e = jobKey d'.key e' := by
            refine keeps.sound.unique .jobs _ _ j j' (Or.inl hj) (Or.inl hj') ?_ (by simp [Table.unique, hk])
            have : (jobKey d.key e).schema = (jobKey d'.key e').schema := hschema
            simp [Table.unique, hk, hk', hend, this]
          have together := keeps.inv.together (official_atomic official)
          exact ⟨hsame, j, hj, together.cron he he' hj rfl hsame.symm hne, by rw [hk]; exact Option.some_ne_none key⟩
    · rintro ⟨hsame, i, hi, _, hsome⟩
      rw [hj] at hi
      cases hi
      rw [← hsame, hj] at hj'
      cases hj'
      obtain ⟨key, hk⟩ := Option.ne_none_iff_exists'.mp hsome
      rw [hk, Option.getD_some, Option.getD_some]

section sample

/-- The first dispatch of a thread, by the execution and the key it carries. -/
def firstDelivery (acts : List (Action (service env))) (t : Nat) : Option Dispatch :=
  (((after acts).world.history t).filterMap dispatchOf).head?

theorem firstDelivery_delivered (h : firstDelivery acts t = some d) : Delivered acts t d := by
  obtain ⟨y, hy, hd⟩ := List.mem_filterMap.mp (List.mem_of_head? h)
  unfold dispatchOf at hd
  split at hd
  next d' r =>
    cases hd
    exact hy
  next => cases hd

def apartCheck (w : World Pg) : Bool :=
  (w.keys .jobs).all fun kj => (w.keys .executions).all fun ke =>
    match (w.rows .jobs kj : Option Job), (w.rows .executions ke : Option Execution) with
    | some j, some e => j.idempotencyKey ≠ some e.executionId
    | _, _ => true

theorem apart_of_check (h : apartCheck (after acts).world = true) : Apart (after acts).world.rows := by
  intro kj j ke e hj he
  have keyed := (keeps_all acts).sound.keyed
  have check := List.all_eq_true.mp (List.all_eq_true.mp h kj (keyed .jobs kj j (Or.inl hj))) ke
    (keyed .executions ke e (Or.inl he))
  rw [hj, he] at check
  simpa using check

/-- A CRON job with or without a key, two ticks of it and an attempt for each. -/
def twoTicks (key : Option String) (steps : Nat) (jobId : String) : List (Action (service sample)) :=
  serve 1 8 (.createEndpoint "acme" sampleEndpoint) (.response 200 "") ++
    serve 2 steps (.createJob "acme" { sampleCron with idempotencyKey := key }) (.response 200 "") ++
    serve 3 5 (.tick (Jobs.cronJobName "acme" jobId)) (.response 200 "") ++ [.tick 60000000] ++
    serve 4 5 (.tick (Jobs.cronJobName "acme" jobId)) (.response 200 "") ++
    serve 5 25 (.work "worker-1" ["acme"]) (.response 200 "") ++ serve 6 25 (.work "worker-1" ["acme"]) (.response 200 "")

/-- Without a key the two ticks are delivered under different keys. -/
theorem delivered_key_identifies_ticks : ∃ d d', Delivered (twoTicks none 10 (sampleId 206)) 5 d ∧
    Delivered (twoTicks none 10 (sampleId 206)) 6 d' ∧ d.key ≠ d'.key ∧ d.idempotencyKey ≠ d'.idempotencyKey := by
  have first : (firstDelivery (twoTicks none 10 (sampleId 206)) 5).map Dispatch.key = some ⟨"acme", sampleId 303⟩ := by
    decide +kernel
  have second : (firstDelivery (twoTicks none 10 (sampleId 206)) 6).map Dispatch.key = some ⟨"acme", sampleId 403⟩ := by
    decide +kernel
  have row : ((after (twoTicks none 10 (sampleId 206))).world.rows .executions ⟨"acme", sampleId 303⟩).map
      (fun (e : Execution) => (e.endpoint, e.jobId)) = some ("hook", sampleId 206) := by decide +kernel
  have row' : ((after (twoTicks none 10 (sampleId 206))).world.rows .executions ⟨"acme", sampleId 403⟩).map
      (fun (e : Execution) => e.endpoint) = some "hook" := by decide +kernel
  have job : ((after (twoTicks none 10 (sampleId 206))).world.rows .jobs ⟨"acme", sampleId 206⟩).map
      (fun (j : Job) => j.idempotencyKey) = some none := by decide +kernel
  have meets : (Pool.empty (service sample)).Meets (apiOnly sample) (twoTicks none 10 (sampleId 206)) :=
    meets_apiOnly (by decide +kernel)
  obtain ⟨d, hd, hk⟩ := Option.map_eq_some_iff.mp first
  obtain ⟨d', hd', hk'⟩ := Option.map_eq_some_iff.mp second
  obtain ⟨e, he, hx⟩ := Option.map_eq_some_iff.mp row
  obtain ⟨e', he', hep'⟩ := Option.map_eq_some_iff.mp row'
  obtain ⟨hep, hjob⟩ := Prod.mk.inj hx
  have hne : d.key ≠ d'.key := by
    rw [hk, hk']
    decide +kernel
  have hschema : d.schemaName = d'.schemaName := (congrArg Key.schema hk).trans (congrArg Key.schema hk').symm
  refine ⟨d, d', firstDelivery_delivered hd, firstDelivery_delivered hd', hne, ?_⟩
  have identifies := (delivered_key_identifies official_apiOnly _ meets (apart_of_check (by decide +kernel))).2.2
  refine (identifies 5 6 d d' e e' (firstDelivery_delivered hd) (firstDelivery_delivered hd') (hk ▸ he) (hk' ▸ he') hschema
    (hep.trans hep'.symm) hne).mpr ?_
  rintro ⟨_, j, hj, _, hsome⟩
  have hkey : jobKey d.key e = ⟨"acme", sampleId 206⟩ := by rw [jobKey, hk, hjob]
  obtain ⟨j', hj', hnone⟩ := Option.map_eq_some_iff.mp job
  obtain rfl : j = j' := Option.some.inj ((hkey ▸ hj).symm.trans hj')
  exact hsome hnone

/-- With a key both ticks are delivered under that key. -/
theorem ticks_share_key : ∃ (d d' : Dispatch) (e e' : Execution),
    Delivered (twoTicks (some "report") 13 (sampleId 209)) 5 d ∧
    Delivered (twoTicks (some "report") 13 (sampleId 209)) 6 d' ∧
    (after (twoTicks (some "report") 13 (sampleId 209))).world.rows .executions d.key = some e ∧
    (after (twoTicks (some "report") 13 (sampleId 209))).world.rows .executions d'.key = some e' ∧
    e.endpoint = e'.endpoint ∧ d.key ≠ d'.key ∧ d.idempotencyKey = d'.idempotencyKey := by
  have first : (firstDelivery (twoTicks (some "report") 13 (sampleId 209)) 5).map (fun d => (d.key, d.idempotencyKey)) =
      some (⟨"acme", sampleId 303⟩, "report") := by decide +kernel
  have second : (firstDelivery (twoTicks (some "report") 13 (sampleId 209)) 6).map (fun d => (d.key, d.idempotencyKey)) =
      some (⟨"acme", sampleId 403⟩, "report") := by decide +kernel
  have row : ((after (twoTicks (some "report") 13 (sampleId 209))).world.rows .executions ⟨"acme", sampleId 303⟩).map
      (fun (e : Execution) => e.endpoint) = some "hook" := by decide +kernel
  have row' : ((after (twoTicks (some "report") 13 (sampleId 209))).world.rows .executions ⟨"acme", sampleId 403⟩).map
      (fun (e : Execution) => e.endpoint) = some "hook" := by decide +kernel
  obtain ⟨d, hd, hx⟩ := Option.map_eq_some_iff.mp first
  obtain ⟨d', hd', hx'⟩ := Option.map_eq_some_iff.mp second
  obtain ⟨e, he, hep⟩ := Option.map_eq_some_iff.mp row
  obtain ⟨e', he', hep'⟩ := Option.map_eq_some_iff.mp row'
  obtain ⟨hk, hkey⟩ := Prod.mk.inj hx
  obtain ⟨hk', hkey'⟩ := Prod.mk.inj hx'
  refine ⟨d, d', e, e', firstDelivery_delivered hd, firstDelivery_delivered hd', hk ▸ he, hk' ▸ he', hep.trans hep'.symm, ?_,
    hkey.trans hkey'.symm⟩
  rw [hk, hk']
  decide +kernel

end sample

end Invokr

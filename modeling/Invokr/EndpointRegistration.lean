import Invokr.RegistrationRuns
import Invokr.Runs

namespace Invokr

open TxLib

variable {env : Setup} {t : Nat} {client : InvokrClient} {g : RegisterArgs} {now now' : Time} {D D' D'' : Rows Pg}

/-- The endpoint is what the registration asks for. -/
structure AsAsked (g : RegisterArgs) (ep : Endpoint) : Prop where
  endpointType : ep.endpointType = g.endpointType
  spec : ep.spec = g.spec
  policy : ep.getRetryPolicy = policyOf g.retryPolicy

/-- The rows are the same but for the time of an endpoint's last change. -/
def OnlyTouched (D D' : Rows Pg) : Prop :=
  (∀ tb, tb ≠ .endpoints → D' tb = D tb) ∧ ∀ k,
    (D' .endpoints k).map (fun ep : Endpoint => { ep with updatedAt := 0 }) =
      (D .endpoints k).map fun ep : Endpoint => { ep with updatedAt := 0 }

/-- What an upsert promises: the endpoint is stored as asked, the others are left alone, and the same
call with nobody else about touches nothing but a time. -/
structure Upserted (env : Setup) (client : InvokrClient) (g : RegisterArgs) (w w' : World Pg) : Prop where
  stored : ∃ ep, w'.rows .endpoints g.key = some ep ∧ AsAsked g ep
  others : ∀ k, k ≠ g.key → w'.rows .endpoints k = w.rows .endpoints k
  again : ∀ t envs w'' r, w'.sessions t = none → World.play t (g.run env client).run envs w' = some (w'', r) →
    OnlyTouched w'.rows w''.rows

/-- Where the update meets an endpoint, it is the one of the name, has the type already, and a spec and
a policy that are not sent are no others than those it has; or it is another endpoint, which the
update leaves as it is, and the name's is already as asked. -/
def Upsertable (client : InvokrClient) (g : RegisterArgs) (now : Time) (D : Rows Pg) : Prop :=
  ∀ target old, client.Meets g D target old →
    (target = g.name ∧ old.endpointType = g.endpointType ∧ (client.sentSpec g.spec = none → old.spec = g.spec) ∧
        (client.sentPolicy g.retryPolicy = none → old.getRetryPolicy = .default)) ∨
      (target ≠ g.name ∧ (client.change g).apply now old = old ∧ ∃ ep, D .endpoints g.key = some ep ∧ AsAsked g ep)

theorem sentSpec_getD (client : InvokrClient) (spec : Json) : (client.sentSpec spec).getD spec = spec := by
  cases client with
  | library => rfl
  | http pathName => cases spec <;> rfl

theorem sentSpec_some {spec v : Json} (h : client.sentSpec spec = some v) : v = spec := by
  have kept := sentSpec_getD client spec
  rw [h] at kept
  exact kept

theorem key_target {target : String} : (⟨g.schemaName, target⟩ : Key) = g.key ↔ target = g.name := by
  simp [RegisterArgs.key]

theorem row_asAsked (readable : policyOf (client.sentPolicy g.retryPolicy) = policyOf g.retryPolicy) :
    AsAsked g (client.row g now) := ⟨rfl, rfl, readable⟩

theorem change_asAsked (readable : policyOf (client.sentPolicy g.retryPolicy) = policyOf g.retryPolicy) {old : Endpoint} :
    AsAsked g ((client.change g).apply now old) ↔ old.endpointType = g.endpointType ∧
      (client.sentSpec g.spec = none → old.spec = g.spec) ∧
        (client.sentPolicy g.retryPolicy = none → old.getRetryPolicy = .default) := by
  have specAsked : (client.sentSpec g.spec).getD old.spec = g.spec ↔ (client.sentSpec g.spec = none → old.spec = g.spec) := by
    cases hs : client.sentSpec g.spec with
    | none => simp
    | some v => simp [sentSpec_some hs]
  have policyAsked : ((client.change g).apply now old).getRetryPolicy = policyOf g.retryPolicy ↔
      (client.sentPolicy g.retryPolicy = none → old.getRetryPolicy = .default) := by
    cases hp : client.sentPolicy g.retryPolicy with
    | none =>
      have none : policyOf g.retryPolicy = .default := by
        rw [← readable, hp]
        rfl
      simp [InvokrClient.change, Endpoints.updatePatch, Endpoint.getRetryPolicy, hp, none]
    | some v =>
      have written : ((client.change g).apply now old).getRetryPolicy = policyOf (some v) := by
        simp [InvokrClient.change, Endpoints.updatePatch, Endpoint.getRetryPolicy, policyOf, hp]
      rw [written, ← readable, hp]
      simp
  exact ⟨fun h => ⟨h.endpointType, specAsked.mp h.spec, policyAsked.mp h.policy⟩,
    fun h => ⟨h.1, specAsked.mpr h.2.1, policyAsked.mpr h.2.2⟩⟩

theorem OnlyTouched.refl (D : Rows Pg) : OnlyTouched D D := ⟨fun _ _ => rfl, fun _ => rfl⟩

theorem onlyTouched_set {k : Key} {old new : Endpoint} (hold : D .endpoints k = some old)
    (same : ({ new with updatedAt := 0 } : Endpoint) = { old with updatedAt := 0 }) :
    OnlyTouched D (setAt D .endpoints k (some new)) := by
  refine ⟨fun tb ht => ?_, fun k' => ?_⟩
  · funext k'
    exact setAt_tbl _ _ ht
  · by_cases hk : k' = k
    · rw [hk, setAt_same, hold]
      exact congrArg some same
    · rw [setAt_key _ _ hk]

/-- An update that meets what was asked for, or what it has itself made, changes a time at most. -/
theorem change_touches {old : Endpoint} (hspec : (client.sentSpec g.spec).getD old.spec = old.spec)
    (hpolicy : (client.sentPolicy g.retryPolicy).orElse (fun _ => old.retryPolicy) = old.retryPolicy) :
    ({ (client.change g).apply now old with updatedAt := 0 } : Endpoint) = { old with updatedAt := 0 } := by
  simp only [InvokrClient.change, Endpoints.updatePatch, hspec, hpolicy]
  rfl

theorem again_row : (client.sentSpec g.spec).getD (client.row g now).spec = (client.row g now).spec ∧
    (client.sentPolicy g.retryPolicy).orElse (fun _ => (client.row g now).retryPolicy) = (client.row g now).retryPolicy := by
  refine ⟨sentSpec_getD client g.spec, ?_⟩
  simp only [InvokrClient.row]
  cases client.sentPolicy g.retryPolicy <;> rfl

theorem again_change {old : Endpoint} :
    (client.sentSpec g.spec).getD ((client.change g).apply now old).spec = ((client.change g).apply now old).spec ∧
      (client.sentPolicy g.retryPolicy).orElse (fun _ => ((client.change g).apply now old).retryPolicy) =
        ((client.change g).apply now old).retryPolicy := by
  simp only [InvokrClient.change, Endpoints.updatePatch]
  constructor
  · cases client.sentSpec g.spec <;> rfl
  · cases client.sentPolicy g.retryPolicy <;> rfl

/-- Once registered, the same registration touches a time at most. -/
theorem registers_again (first : client.Registers g now D D') (second : client.Registers g now' D' D'') : OnlyTouched D' D'' := by
  cases first with
  | created readable unmet free =>
    cases second with
    | created _ _ taken =>
      rw [setAt_same] at taken
      cases taken
    | @changed _ target old meets =>
      obtain ⟨ht, hold⟩ := meets
      by_cases hk : (⟨g.schemaName, target⟩ : Key) = g.key
      · rw [hk, setAt_same] at hold
        cases hold
        rw [hk]
        exact onlyTouched_set (setAt_same ..) (change_touches again_row.1 again_row.2)
      · rw [setAt_key _ _ hk] at hold
        exact absurd ⟨ht, hold⟩ (unmet target old)
  | @changed _ target old meets =>
    cases second with
    | created _ unmet _ => exact absurd ⟨meets.1, setAt_same ..⟩ (unmet target _)
    | @changed _ target' old' meets' =>
      have same : target' = target := Option.some.inj (meets'.1.symm.trans meets.1)
      subst same
      have hold := meets'.2
      rw [setAt_same] at hold
      cases hold
      exact onlyTouched_set (setAt_same ..) (change_touches again_change.1 again_change.2)

theorem played_registers {env : Setup} {w w' : World Pg} {envs : List (Env Pg)} {r : Except ClientError Unit} (sound : Sound w)
    (idle : w.sessions t = none) (play : World.play t (g.run env client).run envs w = some (w', r)) : Sound w' ∧
      (r = .ok () → client.Registers g w.clock w.rows w'.rows) ∧ (r ≠ .ok () → w'.rows = w.rows) := by
  obtain ⟨sound', -, ok, err⟩ := lone_played sound idle (lone_register (rests_start idle)) play
  refine ⟨sound', fun hr => ?_, fun hr => ?_⟩
  · obtain ⟨D', rests, h⟩ := ok () hr
    rw [rests.rows]
    exact h
  · cases r with
    | ok a => exact absurd rfl hr
    | error e => exact (err e rfl).rows

/-- The endpoint is stored as asked, and the others are left alone. -/
def StoredAsAsked (g : RegisterArgs) (D D' : Rows Pg) : Prop :=
  (∃ ep, D' .endpoints g.key = some ep ∧ AsAsked g ep) ∧ ∀ k, k ≠ g.key → D' .endpoints k = D .endpoints k

theorem registers_asked (h : client.Registers g now D D') : StoredAsAsked g D D' ↔ Upsertable client g now D := by
  cases h with
  | created readable unmet free =>
    refine iff_of_true ⟨⟨_, setAt_same .., row_asAsked readable⟩, fun k hk => setAt_key _ _ hk⟩ ?_
    exact fun target old meets => absurd meets (unmet target old)
  | @changed readable target old meets =>
    by_cases ht : target = g.name
    · have hk : (⟨g.schemaName, target⟩ : Key) = g.key := key_target.mpr ht
      rw [hk]
      constructor
      · rintro ⟨⟨ep, hep, asked⟩, -⟩ target' old' meets'
        rw [setAt_same] at hep
        cases hep
        have same : target' = target := Option.some.inj (meets'.1.symm.trans meets.1)
        subst same
        have hold : old' = old := Option.some.inj (meets'.2.symm.trans meets.2)
        subst hold
        exact Or.inl ⟨ht, (change_asAsked readable).mp asked⟩
      · intro fits
        rcases fits target old meets with ⟨-, kept⟩ | ⟨hne, -⟩
        · exact ⟨⟨_, setAt_same .., (change_asAsked readable).mpr kept⟩, fun k hk => setAt_key _ _ hk⟩
        · exact absurd ht hne
    · have hk : (⟨g.schemaName, target⟩ : Key) ≠ g.key := fun he => ht (key_target.mp he)
      constructor
      · rintro ⟨⟨ep, hep, asked⟩, others⟩ target' old' meets'
        have same : target' = target := Option.some.inj (meets'.1.symm.trans meets.1)
        subst same
        have hold : old' = old := Option.some.inj (meets'.2.symm.trans meets.2)
        subst hold
        have unchanged := others _ hk
        rw [setAt_same, meets.2] at unchanged
        rw [setAt_key _ _ (Ne.symm hk)] at hep
        exact Or.inr ⟨ht, Option.some.inj unchanged, ep, hep, asked⟩
      · intro fits
        rcases fits target old meets with ⟨he, -⟩ | ⟨-, unchanged, ep, hep, asked⟩
        · exact absurd he ht
        · refine ⟨⟨ep, (setAt_key _ _ (Ne.symm hk)).trans hep, asked⟩, fun k _ => ?_⟩
          by_cases hkt : k = ⟨g.schemaName, target⟩
          · rw [hkt, setAt_same, unchanged, meets.2]
          · exact setAt_key _ _ hkt

/-- A registration that has succeeded is an upsert exactly where it meets no endpoint, or one of the
same type that keeps nothing but what was asked for. -/
theorem register_endpoint (acts : List (Action (service env))) {envs : List (Env Pg)} {w' : World Pg}
    (idle : (after acts).world.sessions t = none)
    (play : World.play t (g.run env client).run envs (after acts).world = some (w', .ok ())) :
    Upserted env client g (after acts).world w' ↔ Upsertable client g (after acts).world.clock (after acts).world.rows := by
  obtain ⟨sound', ok, -⟩ := played_registers (keeps_all acts).sound idle play
  have registers := ok rfl
  rw [← registers_asked registers]
  refine ⟨fun h => ⟨h.stored, h.others⟩, fun h => ⟨h.1, h.2, fun t' envs' w'' r idle' play' => ?_⟩⟩
  obtain ⟨-, ok', err'⟩ := played_registers sound' idle' play'
  by_cases hr : r = .ok ()
  · exact registers_again registers (ok' hr)
  · rw [err' hr]
    exact .refl _

section sample

/-- An endpoint has been created. -/
def oneEndpoint : List (Action (service sample)) := serve 1 8 (.createEndpoint "acme" sampleEndpoint) (.response 200 "")

/-- A registration with nobody else about. -/
def registered (client : InvokrClient) (g : RegisterArgs) : Option (World Pg) :=
  match (after oneEndpoint).world.sessions 9, World.play 9 (g.run sample client).run
      ((List.range 12).map fun i => ⟨false, sampleUuid (900 + i), answers (900 + i) (.response 200 "")⟩)
      (after oneEndpoint).world with
  | none, some (w', .ok ()) => some w'
  | _, _ => none

theorem registered_plays {client : InvokrClient} {g : RegisterArgs} {w' : World Pg} (h : registered client g = some w') :
    (after oneEndpoint).world.sessions 9 = none ∧ ∃ envs,
      World.play 9 (g.run sample client).run envs (after oneEndpoint).world = some (w', .ok ()) := by
  unfold registered at h
  split at h
  next idle play =>
    cases h
    exact ⟨idle, _, play⟩
  next => cases h

/-- The endpoint with another spec, over HTTP and with names that are kept by paths. -/
def otherSpec : RegisterArgs := ⟨"acme", "hook", .http, .object [("url", .str "http://localhost/other")], some (.object [])⟩

/-- The endpoint's name again, with another type. -/
def otherType : RegisterArgs := ⟨"acme", "hook", .kafka, .object [("topic", .str "orders")], some (.object [])⟩

theorem one_hook {old : Endpoint} (h : (after oneEndpoint).world.rows .endpoints ⟨"acme", "hook"⟩ = some old) :
    old.endpointType = .http := by
  have column : ((after oneEndpoint).world.rows .endpoints ⟨"acme", "hook"⟩).map (fun ep : Endpoint => ep.endpointType) =
      some .http := by decide +kernel
  rw [h] at column
  exact Option.some.inj column

theorem register_endpoint_again : ∃ w', registered (.http some) otherSpec = some w' ∧
    Upserted sample (.http some) otherSpec (after oneEndpoint).world w' := by
  have done : (registered (.http some) otherSpec).isSome = true := by decide +kernel
  obtain ⟨w', h⟩ := Option.isSome_iff_exists.mp done
  obtain ⟨idle, envs, play⟩ := registered_plays h
  refine ⟨w', h, (register_endpoint oneEndpoint idle play).mpr fun target old meets => Or.inl ?_⟩
  obtain ⟨ht, hold⟩ := meets
  cases ht
  exact ⟨rfl, one_hook hold, fun none => absurd none (by simp [InvokrClient.sentSpec, bodyValue, otherSpec, Json.object]), fun none =>
    absurd none (by simp [InvokrClient.sentPolicy, bodyPolicy, otherSpec, Json.object, RetryPolicy.fromValue, RetryPolicy.field, Json.get])⟩

theorem register_endpoint_fails : ¬∀ (client : InvokrClient) (g : RegisterArgs) (acts : List (Action (service sample))) (t : Nat)
    (envs : List (Env Pg)) (w' : World Pg), (after acts).world.sessions t = none →
    World.play t (g.run sample client).run envs (after acts).world = some (w', .ok ()) →
    Upserted sample client g (after acts).world w' := by
  intro h
  have done : (registered .library otherType).isSome = true := by decide +kernel
  obtain ⟨w', hw⟩ := Option.isSome_iff_exists.mp done
  obtain ⟨idle, envs, play⟩ := registered_plays hw
  have upserted := h .library otherType oneEndpoint 9 envs w' idle play
  obtain ⟨-, ok, -⟩ := played_registers (keeps_all oneEndpoint).sound idle play
  have fits := (registers_asked (ok rfl)).mp ⟨upserted.stored, upserted.others⟩
  obtain ⟨old, hold⟩ : ∃ old : Endpoint, (after oneEndpoint).world.rows .endpoints ⟨"acme", "hook"⟩ = some old :=
    Option.isSome_iff_exists.mp (by decide +kernel)
  rcases fits "hook" old ⟨rfl, hold⟩ with ⟨-, kafka, -⟩ | ⟨ne, -⟩
  · rw [one_hook hold] at kafka
    cases kafka
  · exact ne rfl

end sample

end Invokr

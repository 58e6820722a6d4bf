import Invokr.EndpointClients
import Invokr.Lone

namespace Invokr

open TxLib

variable {env : Setup} {t : Nat} {c : Int} {D : Rows Pg} {w : World Pg} {schemaName name : String}
  {endpointType : EndpointType} {spec : Json} {retryPolicy : Option Json}

theorem EndpointType.fromStrVal_asStr (tp : EndpointType) : EndpointType.fromStrVal tp.asStr = some tp := by
  cases tp <;> decide

section statements

theorem lone_get (hw : Rests t D w) : Lone t c (fun found w' => found = D .endpoints ⟨schemaName, name⟩ ∧ Rests t D w')
    (fun _ w' => Rests t D w') (Endpoints.get ⟨schemaName, env.tablePrefix, false⟩ name) w := by
  refine lone_transaction hw fun now w₁ hw₁ => ?_
  refine tries_bind (lone_query hw₁ fun w₂ keys hw₂ => tries_pure ?_)
  exact ⟨D, hw₂, fun w₃ _ h => ⟨rfl, h⟩⟩

theorem lone_create {payloadSpecRef configRef : Option String} (hw : Rests t D w) :
    Lone t c (fun _ w' => D .endpoints ⟨schemaName, name⟩ = none ∧ Rests t (setAt D .endpoints ⟨schemaName, name⟩
        (some (Endpoint.mk name endpointType payloadSpecRef configRef spec retryPolicy c c))) w')
      (fun _ w' => Rests t D w')
      (Endpoints.create ⟨schemaName, env.tablePrefix, false⟩ name endpointType payloadSpecRef configRef spec retryPolicy) w := by
  refine lone_transaction hw fun now w₁ hw₁ => ?_
  refine tries_bind (lone_insert (by decide) hw₁ fun fresh free w₂ hw₂ => tries_pure ?_)
  exact ⟨_, hw₂, fun w₃ hnow h => ⟨free, hnow ▸ h⟩⟩

theorem lone_change {spec : Option Json} {configRef payloadSpecRef : Option String} (hw : Rests t D w) :
    Lone t c (fun (found : Option Endpoint) w' =>
        (found = none ∧ D .endpoints ⟨schemaName, name⟩ = none ∧ Rests t D w') ∨
        ∃ old : Endpoint, found.isSome = true ∧ D .endpoints ⟨schemaName, name⟩ = some old ∧
          Rests t (setAt D .endpoints ⟨schemaName, name⟩
            (some ((Endpoints.updatePatch spec configRef payloadSpecRef retryPolicy).apply c old))) w')
      (fun _ w' => Rests t D w')
      (Endpoints.update ⟨schemaName, env.tablePrefix, false⟩ name spec configRef payloadSpecRef retryPolicy) w := by
  refine lone_transaction hw fun now w₁ hw₁ => ?_
  refine tries_bind (lone_query hw₁ fun w₂ keys hw₂ => ?_)
  simp only
  cases hD : D .endpoints ⟨schemaName, name⟩ with
  | none =>
    simp only [DbContext.key, hD]
    refine tries_pure ⟨D, hw₂, fun w₃ _ h => Or.inl ?_⟩
    simpa using h
  | some old =>
    simp only [DbContext.key, hD, if_true]
    refine lone_update hw₂ (fun none => ?_) fun old' hold w₃ hw₃ => ?_
    · rw [hD] at none
      cases none
    · rw [hD] at hold
      cases hold
      exact ⟨_, hw₃, fun w₄ hnow h => Or.inr ⟨old, rfl, rfl, hnow ▸ h⟩⟩

theorem lone_connect (hw : Rests t D w) :
    Lone t c (fun _ w' => Rests t D w') (fun e w' => e = fromDb .closed ∧ Rests t D w') (scopedConnection schemaName) w := by
  have rest : Lone t c (fun _ w' => Rests t D w') (fun e w' => e = fromDb .closed ∧ Rests t D w') (do
      let acquired : Bool ← (ext (M := Pg) .acquire : Program Pg Bool)
      if acquired then return () else throw (fromDb .closed) : Try Pg AppError Unit) w := by
    refine tries_bind (tries_lift ?_)
    change (ext (M := Pg) .acquire >>= pure).Holds _ _ _ _
    refine holds_ext_idle (stable_eq _) trivial hw fun w₁ env w₂ _ hi => Prog.holds_pure.mpr ?_
    have same : Rests t D w₂ := hi.mono (fun _ _ => trivial) fun _ h => h
    split
    next => exact tries_pure same
    next => exact tries_throw ⟨rfl, same⟩
  unfold scopedConnection
  split
  next => exact tries_bind (tries_lift (holds_halt trivial))
  next => exact rest

end statements

/-- What a registration is given. -/
structure RegisterArgs where
  schemaName : String
  name : String
  endpointType : EndpointType
  spec : Json
  retryPolicy : Option Json

namespace RegisterArgs

def key (g : RegisterArgs) : Key := ⟨g.schemaName, g.name⟩

def run (g : RegisterArgs) (env : Setup) (client : InvokrClient) : Try Pg ClientError Unit :=
  client.registerEndpoint env g.schemaName g.name g.endpointType g.spec g.retryPolicy

end RegisterArgs

/-- How a policy behaves, whether or not it can be read. -/
def policyOf (retryPolicy : Option Json) : RetryPolicy := (retryPolicy.bind RetryPolicy.fromValue).getD .default

namespace InvokrClient

/-- The name whose endpoint an update meets. -/
def target : InvokrClient → String → Option String
  | .library, name => some name
  | .http pathName, name => pathName name

/-- What an update sets the spec to, if it sets it. -/
def sentSpec : InvokrClient → Json → Option Json
  | .library, spec => some spec
  | .http _, spec => bodyValue spec

/-- The policy column that is written, if one is. -/
def sentPolicy : InvokrClient → Option Json → Option Json
  | .library, policy => policy
  | .http _, policy => ((bodyPolicy policy).getD none).map RetryPolicy.toValue

def change (client : InvokrClient) (g : RegisterArgs) : Patch Pg .endpoints :=
  Endpoints.updatePatch (client.sentSpec g.spec) none none (client.sentPolicy g.retryPolicy)

def row (client : InvokrClient) (g : RegisterArgs) (now : Time) : Endpoint :=
  ⟨g.name, g.endpointType, none, none, g.spec, client.sentPolicy g.retryPolicy, now, now⟩

/-- The endpoint that an update of this registration meets. -/
def Meets (client : InvokrClient) (g : RegisterArgs) (D : Rows Pg) (target : String) (old : Endpoint) : Prop :=
  client.target g.name = some target ∧ D .endpoints ⟨g.schemaName, target⟩ = some old

/-- What a registration that succeeds has made of the rows. -/
inductive Registers (client : InvokrClient) (g : RegisterArgs) (now : Time) (D : Rows Pg) : Rows Pg → Prop where
  | created (readable : policyOf (client.sentPolicy g.retryPolicy) = policyOf g.retryPolicy)
      (unmet : ∀ target old, ¬client.Meets g D target old) (free : D .endpoints g.key = none) :
      Registers client g now D (setAt D .endpoints g.key (some (client.row g now)))
  | changed (readable : policyOf (client.sentPolicy g.retryPolicy) = policyOf g.retryPolicy) {target : String}
      {old : Endpoint} (meets : client.Meets g D target old) :
      Registers client g now D (setAt D .endpoints ⟨g.schemaName, target⟩ (some ((client.change g).apply now old)))

end InvokrClient

section runs

variable {client : InvokrClient} {g : RegisterArgs}

theorem lone_library (hw : Rests t D w) :
    Lone t c (fun _ w' => ∃ D', Rests t D' w' ∧ InvokrClient.Registers .library g c D D') (fun _ w' => Rests t D w')
      (g.run env .library) w := by
  refine tries_adapt (tries_bind (tries_bind ?_))
  refine tries_adapt ((lone_connect hw).mono (fun _ w₁ hw₁ => tries_pure ?_) fun _ _ h => h.2)
  refine tries_bind (tries_adapt ((lone_get hw₁).mono (fun found w₂ hw₂ => ?_) fun _ _ h => h))
  obtain ⟨rfl, hw₂⟩ := hw₂
  cases hD : D .endpoints ⟨g.schemaName, g.name⟩ with
  | none =>
    refine tries_bind (tries_adapt ((lone_create hw₂).mono (fun _ w₃ hw₃ => tries_pure ?_) fun _ _ h => h))
    refine ⟨_, hw₃.2, .created rfl (fun target old meets => ?_) hD⟩
    obtain ⟨ht, hrow⟩ := meets
    cases ht
    rw [hD] at hrow
    cases hrow
  | some old =>
    refine tries_bind (tries_adapt ((lone_change hw₂).mono (fun _ w₃ hw₃ => tries_pure ?_) fun _ _ h => h))
    rcases hw₃ with ⟨-, hnone, -⟩ | ⟨old', -, hold, hw₃⟩
    · rw [hD] at hnone
      cases hnone
    · exact ⟨_, hw₃, .changed rfl ⟨rfl, hold⟩⟩

/-- The numbers of a policy that could be read are those of `i64`. -/
def Stored (p : RetryPolicy) : Prop :=
  (Json.int p.maxAttempts).asI64 = some p.maxAttempts ∧ (Json.int p.initialDelayMs).asI64 = some p.initialDelayMs ∧
    (Json.int p.maxDelayMs).asI64 = some p.maxDelayMs

theorem asI64_int {v : Json} {n : Int} (h : v.asI64 = some n) : (Json.int n).asI64 = some n := by
  unfold Json.asI64 at h
  split at h
  next m =>
    split at h
    next hm =>
      cases h
      exact if_pos hm
    next => cases h
  next => cases h

theorem field_int {o : Option Json} {n d : Int} (hd : (Json.int d).asI64 = some d)
    (h : RetryPolicy.field o Json.asI64 d = some n) : (Json.int n).asI64 = some n := by
  cases o with
  | none =>
    cases h
    exact hd
  | some v => exact asI64_int h

theorem fromValue_toValue {v : Json} {p : RetryPolicy} (h : RetryPolicy.fromValue v = some p) :
    RetryPolicy.fromValue p.toValue = some p := by
  have stored : Stored p := by
    unfold RetryPolicy.fromValue at h
    split at h
    next =>
      simp only [Option.bind_eq_bind, Option.bind_eq_some_iff] at h
      obtain ⟨n, hn, b, -, i, hi, m, hm, hp⟩ := h
      cases hp
      exact ⟨field_int rfl hn, field_int rfl hi, field_int rfl hm⟩
    next =>
      split at h
      next => cases h
      next =>
        simp only [Option.bind_eq_bind, Option.bind_eq_some_iff] at h
        obtain ⟨n, hn, b, -, i, hi, m, hm, hp⟩ := h
        cases hp
        exact ⟨field_int rfl hn, field_int rfl hi, field_int rfl hm⟩
    next => cases h
  obtain ⟨hn, hi, hm⟩ := stored
  have shape : p.toValue = .obj [("backoff", .str p.backoff), ("initial_delay_ms", .int p.initialDelayMs),
      ("max_attempts", .int p.maxAttempts), ("max_delay_ms", .int p.maxDelayMs)] := by
    have delay : ¬"max_delay_ms" < "max_attempts" ∧ ¬"max_delay_ms" < "initial_delay_ms" ∧ ¬"max_delay_ms" < "backoff" := by decide
    have initial : "initial_delay_ms" < "max_attempts" ∧ ¬"initial_delay_ms" < "backoff" := by decide
    have backoff : "backoff" < "max_attempts" := by decide
    have order := And.intro backoff (And.intro initial delay)
    simp only [RetryPolicy.toValue, Json.object, List.foldl_cons, List.foldl_nil, insertField, order, String.reduceEq, if_false,
      if_true]
  simp [shape, RetryPolicy.fromValue, Json.get, List.lookup_cons, RetryPolicy.field, hn, hi, hm, Json.asStr]

theorem readable_http {pathName : String → Option String} {policy : Option Json} (h : (bodyPolicy policy).isSome = true) :
    policyOf ((InvokrClient.http pathName).sentPolicy policy) = policyOf policy := by
  obtain ⟨q, hq⟩ := Option.isSome_iff_exists.mp h
  simp only [InvokrClient.sentPolicy, hq, Option.getD_some]
  unfold bodyPolicy at hq
  split at hq
  next =>
    cases hq
    rfl
  next =>
    cases hq
    rfl
  next v =>
    obtain ⟨p, hp, rfl⟩ := Option.map_eq_some_iff.mp hq
    simp only [policyOf, Option.map_some, Option.bind_some, fromValue_toValue hp, hp]

/-- The rules for a request to the API. -/
abbrev Sends (t : Nat) (c : Int) (post : ServerAnswer → World Pg → Prop) (x : Program Pg ServerAnswer) (w : World Pg) : Prop :=
  x.Holds (Local Eq (Clocked t c) (fun _ _ _ _ => True) t) (fun _ _ => True) post w

/-- The request fails and changes nothing; it finds no endpoint only where there is none. -/
def Refuses (pathName : String → Option String) (g : RegisterArgs) (t : Nat) (D : Rows Pg) (answer : ServerAnswer) (w : World Pg) : Prop :=
  answer.isSuccess = false ∧ Rests t D w ∧
    (answer.status = 404 → ∀ target old, ¬(InvokrClient.http pathName).Meets g D target old)

theorem refuses_error {pathName : String → Option String} (e : DbError) (hw : Rests t D w) :
    Refuses pathName g t D (.handled (.error (fromDb e))) w :=
  ⟨rfl, hw, fun h => absurd (show (500 : Nat) = 404 from h) (by decide)⟩

theorem sends_put {pathName : String → Option String} (hw : Rests t D w) :
    Sends t c (fun answer w' =>
        (answer.isSuccess = true ∧ (bodyPolicy g.retryPolicy).isSome = true ∧ ∃ target old,
          (InvokrClient.http pathName).Meets g D target old ∧
          Rests t (setAt D .endpoints ⟨g.schemaName, target⟩ (some (((InvokrClient.http pathName).change g).apply c old))) w') ∨
        Refuses pathName g t D answer w')
      (HttpClient.putEndpoint env pathName g.schemaName g.name g.spec g.retryPolicy) w := by
  unfold HttpClient.putEndpoint
  cases hp : pathName g.name with
  | none =>
    refine Prog.holds_pure.mpr (Or.inr ⟨by decide, hw, fun _ target old meets => ?_⟩)
    have ht : pathName g.name = some target := meets.1
    rw [hp] at ht
    cases ht
  | some target =>
    cases hb : bodyPolicy g.retryPolicy with
    | none => exact Prog.holds_pure.mpr (Or.inr ⟨by decide, hw, fun h => absurd h (by decide)⟩)
    | some policy =>
      refine holds_run (tries_bind ((lone_connect hw).mono (fun _ w₁ hw₁ => ?_) fun e w₁ hw₁ => Or.inr ?_))
      · refine tries_bind (tries_pure (tries_bind (tries_adapt ((lone_change hw₁).mono (fun found w₂ hw₂ => ?_)
          fun e w₂ hw₂ => Or.inr (refuses_error e hw₂)))))
        rcases hw₂ with ⟨rfl, hnone, hw₂⟩ | ⟨old, hfound, hold, hw₂⟩
        · refine tries_throw (Or.inr ⟨rfl, hw₂, fun _ target' old meets => ?_⟩)
          obtain ⟨ht, hrow⟩ := meets
          have same : target' = target := Option.some.inj (ht.symm.trans hp)
          rw [same, hnone] at hrow
          cases hrow
        · obtain ⟨found, rfl⟩ := Option.isSome_iff_exists.mp hfound
          refine tries_pure (Or.inl ⟨rfl, rfl, target, old, ⟨hp, hold⟩, ?_⟩)
          simp only [InvokrClient.change, InvokrClient.sentSpec, InvokrClient.sentPolicy, hb, Option.getD_some]
          exact hw₂
      · rw [hw₁.1]
        exact refuses_error .closed hw₁.2

theorem sends_post (pathName : String → Option String) (hw : Rests t D w) :
    Sends t c (fun answer w' =>
        (answer.isSuccess = true ∧ (bodyPolicy g.retryPolicy).isSome = true ∧ D .endpoints g.key = none ∧
          Rests t (setAt D .endpoints g.key (some ((InvokrClient.http pathName).row g c))) w') ∨
        (answer.isSuccess = false ∧ Rests t D w'))
      (HttpClient.postEndpoint env g.schemaName g.name g.endpointType g.spec g.retryPolicy) w := by
  unfold HttpClient.postEndpoint
  cases hb : bodyPolicy g.retryPolicy with
  | none => exact Prog.holds_pure.mpr (Or.inr ⟨by decide, hw⟩)
  | some policy =>
    have refused : ∀ e w', Rests t D w' → (ServerAnswer.handled (.error e)).isSuccess = false ∧ Rests t D w' :=
      fun e w' h => ⟨by cases e <;> rfl, h⟩
    refine holds_run ?_
    unfold EndpointsApi.create
    simp only [EndpointType.fromStrVal_asStr]
    split
    next => exact tries_throw (Or.inr (refused _ w hw))
    next => exact tries_throw (Or.inr (refused _ w hw))
    next endpointType _ hty =>
      cases hty
      refine tries_bind ((lone_connect hw).mono (fun _ w₁ hw₁ => ?_) fun e w₁ hw₁ => Or.inr (refused e w₁ hw₁.2))
      refine tries_bind (tries_pure (tries_bind (tries_adapt ((lone_create hw₁).mono (fun _ w₂ hw₂ => ?_)
        fun e w₂ hw₂ => Or.inr (refused _ w₂ hw₂)))))
      refine tries_pure (Or.inl ⟨rfl, rfl, hw₂.1, ?_⟩)
      simp only [InvokrClient.row, InvokrClient.sentPolicy, hb, Option.getD_some]
      exact hw₂.2

theorem lone_http {pathName : String → Option String} (hw : Rests t D w) :
    Lone t c (fun _ w' => ∃ D', Rests t D' w' ∧ InvokrClient.Registers (.http pathName) g c D D') (fun _ w' => Rests t D w')
      (g.run env (.http pathName)) w := by
  refine tries_bind (tries_lift ((sends_put hw).mono fun answer w₁ hw₁ => ?_))
  rcases hw₁ with ⟨success, readable, target, old, meets, hw₁⟩ | ⟨failure, hw₁, unmet⟩
  · simp only [success, if_true]
    exact tries_pure ⟨_, hw₁, .changed (readable_http readable) meets⟩
  · simp only [failure, Bool.false_eq_true, if_false]
    split
    next h404 => exact tries_throw hw₁
    next h404 =>
      refine tries_bind (tries_lift ((sends_post pathName hw₁).mono fun answer' w₂ hw₂ => ?_))
      rcases hw₂ with ⟨success, readable, free, hw₂⟩ | ⟨failure, hw₂⟩
      · simp only [success, if_true]
        exact tries_pure ⟨_, hw₂, .created (readable_http readable) (unmet (not_not.mp h404)) free⟩
      · simp only [failure, Bool.false_eq_true, if_false]
        exact tries_throw hw₂

theorem lone_register (hw : Rests t D w) :
    Lone t c (fun _ w' => ∃ D', Rests t D' w' ∧ client.Registers g c D D') (fun _ w' => Rests t D w') (g.run env client) w := by
  cases client with
  | library => exact lone_library hw
  | http pathName => exact lone_http hw

end runs

end Invokr

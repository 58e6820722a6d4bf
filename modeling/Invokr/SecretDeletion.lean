import Invokr.SecretGuard
import Invokr.GuardedDeletes

namespace Invokr

open TextLib TxLib

section workspace

variable {D : Rows Pg} {schemaName name : String} {numeric : NumericText}

/-- A spec of an endpoint of the workspace. -/
def SpecOf (D : Rows Pg) (schemaName : String) (spec : Json) : Prop :=
  ∃ k, ∃ ep : Endpoint, D .endpoints k = some ep ∧ k.schema = schemaName ∧ ep.spec = spec

/-- Some spec of the workspace makes `load_secrets` request the name. -/
def Requested (D : Rows Pg) (schemaName name : String) : Prop :=
  ∃ spec, SpecOf D schemaName spec ∧ name ∈ requestedSecrets spec

/-- Some spec of the workspace has the text between a `{{secret.` and a `}}`. -/
def Enclosed (numeric : NumericText) (D : Rows Pg) (schemaName : String) (w : List Char) : Prop :=
  ∃ spec, SpecOf D schemaName spec ∧ reference w <:+: spec.jsonbChars numeric

/-- The name has no character that is special in a pattern, no quotation mark, and ends before the `}}` behind it. -/
structure Literal (name : String) : Prop where
  plain : name.toList.all (fun c => !isWild c) = true
  quote : '"' ∉ name.toList
  ends : EndsAtClose name.toList

/-- Where the guard decides right: a requested name is written without backslashes and quotation marks, or matches some
text as a pattern; a name that is not requested matches none. -/
def NameDecides (numeric : NumericText) (D : Rows Pg) (schemaName name : String) : Prop :=
  (Requested D schemaName name ∧ ('\\' ∉ name.toList ∧ '"' ∉ name.toList ∨
      ∃ w, Enclosed numeric D schemaName w ∧ nameMatches name.toList w = true)) ∨
    (¬Requested D schemaName name ∧ ∀ w, Enclosed numeric D schemaName w → nameMatches name.toList w = false)

def GuardSees (numeric : NumericText) (D : Rows Pg) (schemaName name : String) : Prop :=
  ∃ spec, SpecOf D schemaName spec ∧ mentionsSecret numeric spec name = true

theorem guardSees_iff : GuardSees numeric D schemaName name ↔
    ∃ w, Enclosed numeric D schemaName w ∧ nameMatches name.toList w = true := by
  constructor
  · rintro ⟨spec, hspec, h⟩
    obtain ⟨w, hw, hin⟩ := mentionsSecret_iff.mp h
    exact ⟨w, ⟨spec, hspec, hin⟩, hw⟩
  · rintro ⟨w, ⟨spec, hspec, hin⟩, hw⟩
    exact ⟨spec, hspec, mentionsSecret_iff.mpr ⟨w, hw, hin⟩⟩

/-- The guard sees every requested name that is written as it is. -/
theorem guardSees_of_requested (h : Requested D schemaName name) (hb : '\\' ∉ name.toList) (hq : '"' ∉ name.toList) :
    GuardSees numeric D schemaName name := by
  obtain ⟨spec, hspec, hmem⟩ := h
  have hscan : reference name.toList <:+: spec.chars := (reference_scan (scan_ends hmem) spec.chars).mpr ⟨name, hmem, Or.inl rfl⟩
  exact guardSees_iff.mpr ⟨name.toList, ⟨spec, hspec, (reference_jsonb numeric spec hq).mpr hscan⟩, nameMatches_self hb⟩

theorem guard_decides :
    (GuardSees numeric D schemaName name ↔ Requested D schemaName name) ↔ NameDecides numeric D schemaName name := by
  have none : ¬GuardSees numeric D schemaName name ↔
      ∀ w, Enclosed numeric D schemaName w → nameMatches name.toList w = false := by
    rw [guardSees_iff]
    simp only [not_exists, not_and, Bool.not_eq_true]
  unfold NameDecides
  rw [← none, ← guardSees_iff]
  constructor
  · intro same
    by_cases hr : Requested D schemaName name
    · exact Or.inl ⟨hr, Or.inr (same.mpr hr)⟩
    · exact Or.inr ⟨hr, fun hs => hr (same.mp hs)⟩
  · rintro (⟨hr, ⟨hb, hq⟩ | hs⟩ | ⟨hr, hs⟩)
    · exact iff_of_true (guardSees_of_requested hr hb hq) hr
    · exact iff_of_true hs hr
    · exact iff_of_false hs hr

/-- The guard sees a literal name where a requested name is that name or has it behind another `{{secret.`. -/
theorem guardSees_literal (h : Literal name) : GuardSees numeric D schemaName name ↔
    ∃ m, Requested D schemaName m ∧ (m = name ∨ secretMark ++ name.toList <:+ m.toList) := by
  rw [guardSees_iff]
  simp only [nameMatches_literal h.plain, exists_eq_right]
  constructor
  · rintro ⟨spec, hspec, hin⟩
    obtain ⟨m, hm, hname⟩ := (reference_scan h.ends spec.chars).mp ((reference_jsonb numeric spec h.quote).mp hin)
    exact ⟨m, ⟨spec, hspec, hm⟩, hname.imp_left fun he => String.toList_injective he⟩
  · rintro ⟨m, ⟨spec, hspec, hm⟩, hname⟩
    refine ⟨spec, hspec, (reference_jsonb numeric spec h.quote).mpr ((reference_scan h.ends spec.chars).mpr ⟨m, hm, ?_⟩)⟩
    exact hname.imp_left fun he => congrArg String.toList he

/-- For a literal name the guard decides right unless no spec requests the name and one requests a name that ends with
`{{secret.` and the name. -/
theorem literal_decides (h : Literal name) : NameDecides numeric D schemaName name ↔
    (Requested D schemaName name ∨ ∀ m, Requested D schemaName m → ¬secretMark ++ name.toList <:+ m.toList) := by
  rw [← guard_decides, guardSees_literal h]
  constructor
  · intro same
    by_cases hr : Requested D schemaName name
    · exact Or.inl hr
    · exact Or.inr fun m hm hsuf => hr (same.mp ⟨m, hm, Or.inr hsuf⟩)
  · rintro (hr | none)
    · exact iff_of_true ⟨name, hr, Or.inl rfl⟩ hr
    · constructor
      · rintro ⟨m, hm, rfl | hsuf⟩
        · exact hm
        · exact (none m hm hsuf).elim
      · exact fun hr => ⟨name, hr, Or.inl rfl⟩

end workspace

section runs

variable {env : Setup} {acts : List (Action (service env))} {t : Nat} {schemaName name : String} {r : Response}

/-- The answer of the guard of `DELETE /v1/secrets/{name}`. -/
def secretInUse (name : String) : Response := .error (.conflict ("Secret '" ++ name ++ "' is referenced by endpoints"))

theorem tries_deleteSecret (env : Setup) (schemaName name : String) :
    Tries Recalls (fun _ o => Deleting .deleteSecret .secrets ⟨schemaName, name⟩ o)
      (fun r m => Deletion .hasDependentEndpoints .deleteSecret .secrets ⟨schemaName, name⟩
        (fun D => GuardSees env.numericText D schemaName name) (.conflict ("Secret '" ++ name ++ "' is referenced by endpoints"))
        (.secretNotFound name) m.2 (.ok r))
      (fun e m => Deletion .hasDependentEndpoints .deleteSecret .secrets ⟨schemaName, name⟩
        (fun D => GuardSees env.numericText D schemaName name) (.conflict ("Secret '" ++ name ++ "' is referenced by endpoints"))
        (.secretNotFound name) m.2 (.error e))
      (SecretsApi.delete env schemaName name) (none, []) := by
  refine deletes_unused (c := ⟨schemaName, env.tablePrefix, false⟩) rfl fun now D keys keyed => ?_
  rw [decide_eq_true_iff, matching_pos keyed]
  constructor
  · rintro ⟨k, ep, hep, hs, keep⟩
    exact ⟨_, ⟨k, ep, hep, hs, rfl⟩, keep⟩
  · rintro ⟨_, ⟨k, ep, hep, hs, rfl⟩, keep⟩
    exact ⟨k, ep, hep, hs, keep⟩

/-- The guard of `DELETE /v1/secrets/{name}` refuses a name that some spec requests, and no other, if and only if it
decides right for the rows that it reads; what it refuses leaves every table as it is. -/
theorem secret_deletion (acts : List (Action (service env))) {t : Nat} {schemaName name : String} {r : Response}
    (up : ∀ x, Made acts t (.deleteSecret schemaName name) x → x.faulty = false ∧
      (x.op = .ext .acquire → x.env.answer .acquire = true))
    (answer : (after acts).answer t = some (.deleteSecret schemaName name, .http r)) :
    (∃ x, Made acts t (.deleteSecret schemaName name) x ∧ x.op = .snapshot .hasDependentEndpoints ∧
      ((r = secretInUse name ↔ Requested x.rows schemaName name) ↔ NameDecides env.numericText x.rows schemaName name) ∧
      (Literal name → ((r = secretInUse name ↔ Requested x.rows schemaName name) ↔
        (Requested x.rows schemaName name ∨ ∀ m, Requested x.rows schemaName m → ¬secretMark ++ name.toList <:+ m.toList)))) ∧
    (r = secretInUse name → KeepsTables acts t) := by
  obtain ⟨l, made, deletion⟩ := deletion_answered rfl (tries_deleteSecret env schemaName name) answer
  have available : Available l := available_of_calls made up
  have guarded : .snapshot .hasDependentEndpoints ∈ l.map Exchange.op := by
    cases deletion with
    | failed down => exact (down available).elim
    | inUse _ calls => simp [calls, guardCalls]
    | deleted _ calls => simp [calls, guardCalls]
    | missing _ calls => simp [calls, guardCalls]
    | referenced _ calls => simp [calls, guardCalls]
  obtain ⟨x, hx, hop⟩ := List.mem_map.mp guarded
  have decided : r = secretInUse name ↔ GuardSees env.numericText x.rows schemaName name := by
    cases deletion with
    | failed down => exact (down available).elim
    | inUse _ _ used => exact iff_of_true rfl (used x hx hop)
    | deleted _ _ idle => exact iff_of_false (fun h => by cases h) (idle x hx hop)
    | missing _ _ idle => exact iff_of_false (fun h => by cases h) (idle x hx hop)
    | referenced _ _ idle => exact iff_of_false (fun h => by cases h) (idle x hx hop)
  refine ⟨⟨x, (made x).mp hx, hop, ?_, fun literal => ?_⟩, fun refused before e le => ?_⟩
  · rw [decided, guard_decides]
  · rw [decided, guard_decides, literal_decides literal]
  · rcases deletion_step rfl (tries_deleteSecret env schemaName name) answer le with same | ⟨hit, _⟩
    · exact same
    · have calls : l.map Exchange.op = guardCalls .hasDependentEndpoints := by
        cases deletion with
        | failed down => exact (down available).elim
        | inUse _ calls => exact calls
        | _ => cases refused
      have := List.mem_map_of_mem (f := Exchange.op) ((made _).mpr hit)
      simp [calls, guardCalls] at this

end runs

section sample

/-- An endpoint whose spec names the secret `api-key`. -/
def withSecret : CreateEndpoint :=
  { sampleEndpoint with spec := .object [("url", .str "http://localhost/hook"),
      ("headers", .object [("Authorization", .str "Bearer \x7b\x7bsecret.api-key\x7d\x7d")])] }

/-- The secret of this name is deleted. -/
def deleteSecretOf (name : String) : List (Action (service sample)) :=
  serve 1 8 (.createEndpoint "acme" withSecret) (.response 200 "") ++ serve 2 8 (.createSecret "acme" name []) (.response 200 "") ++
    serve 3 8 (.deleteSecret "acme" name) (.response 200 "")

/-- The answer to a deletion that has been refused. -/
def refusedSecret (p : Pool (service sample)) (t : Nat) : Option (String × String × AppError) :=
  match p.answer t with
  | some (.deleteSecret schemaName name, .http (.error e)) => some (schemaName, name, e)
  | _ => none

theorem refusedSecret_answer {p : Pool (service sample)} {t : Nat} {schemaName name : String} {e : AppError}
    (h : refusedSecret p t = some (schemaName, name, e)) :
    p.answer t = some (.deleteSecret schemaName name, .http (.error e)) := by
  unfold refusedSecret at h
  split at h
  next hn =>
    cases h
    exact hn
  next => cases h

theorem deleteSecretOf_reliable (name : String) (u : Nat) (e : Env Pg) (h : .step u e ∈ deleteSecretOf name) :
    e.fault = false ∧ e.answer .acquire = true := by
  simp only [deleteSecretOf, serve, steps, List.mem_append, List.mem_cons, List.mem_map, reduceCtorEq, false_or] at h
  rcases h with (⟨i, _, hi⟩ | ⟨i, _, hi⟩) | ⟨i, _, hi⟩ <;> cases hi <;> exact ⟨rfl, rfl⟩

theorem reliable_made {env : Setup} {acts : List (Action (service env))} {t : Nat} {req : Request env}
    (reliable : ∀ u e, .step u e ∈ acts → e.fault = false ∧ e.answer .acquire = true) (x : Exchange Pg) (h : Made acts t req x) :
    x.faulty = false ∧ (x.op = .ext .acquire → x.env.answer .acquire = true) := by
  obtain ⟨before, le, _⟩ := h
  obtain ⟨fault, acquired⟩ := reliable t x.env (le.subset (List.mem_append_right _ (List.mem_singleton.mpr rfl)))
  refine ⟨?_, fun _ => acquired⟩
  unfold Exchange.faulty
  split <;> first | rfl | exact fault

/-- No spec requests the secret. -/
def unrequested (name : String) (p : Pool (service sample)) (_ : Action (service sample)) : Bool :=
  (p.world.keys .endpoints).all fun k => (p.world.rows .endpoints k).all fun ep : Endpoint => !(requestedSecrets ep.spec).contains name

theorem not_requested {acts : List (Action (service sample))} {name : String} (check : checked (unrequested name) (after []) acts = true)
    {t : Nat} {req : Request sample} {x : Exchange Pg} (made : Made acts t req x) : ¬Requested x.rows "acme" name := by
  obtain ⟨before, le, _, _, hrows⟩ := made
  rintro ⟨_, ⟨k, ep, hep, _, rfl⟩, hmem⟩
  rw [← hrows] at hep
  have here := checked_step check le
  have keyed := (Pool.sound_run before).keyed .endpoints k ep (Or.inl hep)
  have none := List.all_eq_true.mp here k keyed
  have row : (after before).world.rows .endpoints k = some ep := hep
  simp only [Pool.run_nil, row, Option.all_some, Bool.not_eq_true', List.contains_eq_mem, decide_eq_false_iff_not] at none
  exact none hmem

/-- A secret that no spec requests is not deleted: its name matches another one's as a pattern. -/
theorem secret_deletion_fails : ¬∀ (acts : List (Action (service sample))) (t : Nat) (schemaName name : String) (r : Response),
    (∀ u e, .step u e ∈ acts → e.fault = false ∧ e.answer .acquire = true) →
    (after acts).answer t = some (.deleteSecret schemaName name, .http r) →
    ∀ x, Made acts t (.deleteSecret schemaName name) x → x.op = .snapshot .hasDependentEndpoints →
      (r = secretInUse name ↔ Requested x.rows schemaName name) := by
  intro right
  have answer := refusedSecret_answer (show refusedSecret (after (deleteSecretOf "api_key")) 3 =
    some ("acme", "api_key", .conflict "Secret 'api_key' is referenced by endpoints") by decide +kernel)
  have check : checked (unrequested "api_key") (after []) (deleteSecretOf "api_key") = true := by decide +kernel
  have reliable := deleteSecretOf_reliable "api_key"
  obtain ⟨⟨x, made, hop, _⟩, _⟩ := secret_deletion _ (fun x => reliable_made reliable x) answer
  exact not_requested check made ((right _ 3 "acme" "api_key" _ reliable answer x made hop).mp rfl)

theorem secret_deletion_one : ∃ x, Made (deleteSecretOf "api-key") 3 (.deleteSecret "acme" "api-key") x ∧
    x.op = .snapshot .hasDependentEndpoints ∧
    (Requested x.rows "acme" "api-key" ↔ NameDecides sample.numericText x.rows "acme" "api-key") := by
  have answer := refusedSecret_answer (show refusedSecret (after (deleteSecretOf "api-key")) 3 =
    some ("acme", "api-key", .conflict "Secret 'api-key' is referenced by endpoints") by decide +kernel)
  obtain ⟨⟨x, made, hop, decides, _⟩, _⟩ := secret_deletion _ (fun x => reliable_made (deleteSecretOf_reliable "api-key") x) answer
  have refused : (.error (.conflict "Secret 'api-key' is referenced by endpoints") : Response) = secretInUse "api-key" := rfl
  rw [iff_true_left refused] at decides
  exact ⟨x, made, hop, decides⟩

end sample

end Invokr

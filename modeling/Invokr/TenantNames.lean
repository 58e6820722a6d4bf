import Invokr.WorkspaceCreation
import Invokr.Agreement
import Mathlib.Data.String.Basic

namespace Invokr

open TxLib

theorem wordChar_utf8Size {c : Char} (h : isWordChar c = true) : c.utf8Size = 1 := by
  rw [Char.utf8Size_eq_one_iff]
  simp only [isWordChar, Char.isAlphanum, isAlpha_or, Char.isDigit, Bool.or_eq_true, isUpper_val, isLower_val,
    Bool.and_eq_true, decide_eq_true_eq] at h
  rcases h with ((h | h) | h) | rfl
  · exact UInt32.le_trans h.2 (by decide)
  · exact UInt32.le_trans h.2 (by decide)
  · exact UInt32.le_trans h.2 (by decide)
  · decide

theorem utf8ByteSize_word {s : String} (h : ∀ c ∈ s.toList, isWordChar c = true) : s.utf8ByteSize = s.toList.length := by
  have bytes : s.utf8ByteSize = String.utf8Len s.toList := by
    rw [← String.utf8ByteSize_ofList, String.ofList_toList]
  rw [bytes]
  generalize s.toList = l at h ⊢
  induction l with
  | nil => rfl
  | cons c l ih =>
    have head := wordChar_utf8Size (h c List.mem_cons_self)
    have tail := ih fun x hx => h x (List.mem_cons_of_mem _ hx)
    rw [String.utf8Len_cons, head, tail, List.length_cons]

theorem buildSchemaName_length (org : Uuid) {slug : String} (h : validateSlug slug = true) :
    (buildSchemaName org.val slug).utf8ByteSize ≤ 63 := by
  have valid := buildSchemaName_valid org h
  simp only [validateSchemaName, Bool.and_eq_true, List.all_eq_true] at valid
  simp only [validateSlug, Bool.and_eq_true, decide_eq_true_eq] at h
  have short : slug.toList.length ≤ 25 := h.1.1.1.2
  have long := (uuid_chars org).1
  rw [utf8ByteSize_word valid.2]
  simp only [buildSchemaName, dashesToUnderscores, String.toList_append, String.toList_ofList, List.length_append,
    List.length_map]
  have one : "_".toList.length = 1 := rfl
  omega

theorem cronJobName_inj {schemaName schemaName' : String} {jobId jobId' : Uuid}
    (he : Jobs.cronJobName schemaName jobId.val = Jobs.cronJobName schemaName' jobId'.val) :
    schemaName = schemaName' ∧ jobId.val = jobId'.val := by
  have keys : entryKey ⟨schemaName, jobId.val⟩ = entryKey ⟨schemaName', jobId'.val⟩ := congrArg Jobs.cronKey he
  have := entryKey_inj jobId.2 jobId'.2 keys
  exact ⟨congrArg Key.schema this, congrArg Key.id this⟩

/-- An organization's identifier and a slug give a schema name of their own, which every assertion on
schema names accepts and PostgreSQL does not cut short; and a schema and a job give a pg_cron name
of their own. -/
theorem names_never_collide :
    (∀ orgId orgId' : Uuid, ∀ slug slug', validateSlug slug = true → validateSlug slug' = true →
        buildSchemaName orgId.val slug = buildSchemaName orgId'.val slug' → orgId = orgId' ∧ slug = slug') ∧
      (∀ orgId : Uuid, ∀ slug, validateSlug slug = true →
        validateSchemaName (buildSchemaName orgId.val slug) = true ∧ (buildSchemaName orgId.val slug).utf8ByteSize ≤ 63 ∧
          (scopedConnection (buildSchemaName orgId.val slug)).run.Uses (fun o => o ≠ Op.halt) ∧
          (∀ (α : Type) (body : Try Pg AppError α), body.run.Uses (fun o => o ≠ Op.halt) →
            (scopedTransaction (buildSchemaName orgId.val slug) body).run.Uses fun o => o ≠ Op.halt) ∧
          ∀ orgRef name expression, WorkspacesDb.create orgRef name slug (buildSchemaName orgId.val slug) expression =
            WorkspacesDb.insertAndProvision orgRef name slug (buildSchemaName orgId.val slug) expression) ∧
      ∀ orgId orgId' jobId jobId' : Uuid, ∀ slug slug', validateSlug slug = true → validateSlug slug' = true →
        Jobs.cronJobName (buildSchemaName orgId.val slug) jobId.val =
          Jobs.cronJobName (buildSchemaName orgId'.val slug') jobId'.val →
        buildSchemaName orgId.val slug = buildSchemaName orgId'.val slug' ∧ jobId = jobId' := by
  refine ⟨fun orgId orgId' slug slug' h h' he => ?_, fun orgId slug h => ?_, fun orgId orgId' jobId jobId' slug slug' _ _ he => ?_⟩
  · obtain ⟨hid, hslug⟩ := buildSchemaName_inj h h' he
    exact ⟨Subtype.ext hid, hslug⟩
  · have valid := buildSchemaName_valid orgId h
    refine ⟨valid, buildSchemaName_length orgId h, ?_, fun α body hbody => ?_, fun orgRef name expression => ?_⟩
    · unfold scopedConnection
      simp only [valid, Bool.not_true]
      refine uses_try_bind (uses_lift (Prog.uses_perform.mpr (fun he => nomatch he))) fun acquired => ?_
      cases acquired with
      | true => trivial
      | false => trivial
    · unfold scopedTransaction
      simp only [valid, Bool.not_true]
      exact uses_transaction (fun he => nomatch he) (fun he => nomatch he) (fun he => nomatch he) hbody
    · unfold WorkspacesDb.create
      simp only [valid, Bool.not_true]
      rfl
  · obtain ⟨hschema, hid⟩ := cronJobName_inj he
    exact ⟨hschema, Subtype.ext hid⟩

theorem names_never_collide_team : ∃ orgId jobId : Uuid,
    (orgId = orgId ∧ "team-1" = "team-1") ∧ validateSchemaName (buildSchemaName orgId.val "team-1") = true ∧
      buildSchemaName orgId.val "team-1" = buildSchemaName orgId.val "team-1" ∧ jobId = jobId := by
  have uuid : isUuid "00000000-0000-4000-8000-000000000001" = true := by decide +kernel
  have slug : validateSlug "team-1" = true := by decide +kernel
  obtain ⟨ids, schemas, schedules⟩ := names_never_collide
  exact ⟨⟨_, uuid⟩, ⟨_, uuid⟩, ids ⟨_, uuid⟩ ⟨_, uuid⟩ "team-1" "team-1" slug slug rfl, (schemas ⟨_, uuid⟩ "team-1" slug).1,
    schedules ⟨_, uuid⟩ ⟨_, uuid⟩ ⟨_, uuid⟩ ⟨_, uuid⟩ "team-1" "team-1" slug slug rfl⟩

end Invokr

import Invokr.Effects

namespace TxLib

variable {M : Model}

/-- The thread has changed no committed row, and its transaction, if it has one, has written none. -/
def Pristine (m : Memory M) : Prop := effect m.2 = ⟨false, false⟩

/-- The thread has changed no committed row. -/
def Unchanged (m : Memory M) : Prop := (effect m.2).changed = false

/-- The program makes its calls before it has changed any committed row. -/
abbrev Prudent {ε α : Type} (ok : α → Memory M → Prop) (err : ε → Memory M → Prop) (x : Try M ε α) (m : Memory M) : Prop :=
  Tries Recalls (fun m _ => Unchanged m) ok err x m

/-- The program changes nothing. -/
def ReadOnly {ε α : Type} (x : Try M ε α) : Prop :=
  ∀ m, Pristine m → Prudent (fun _ m' => Pristine m') (fun _ m' => Pristine m') x m

/-- The program changes nothing when it fails or ends in one of these results, and makes no call once it has. -/
def WritesUnless {ε α : Type} (quiet : α → Prop) (x : Try M ε α) : Prop :=
  ∀ m, Pristine m → Prudent (fun a m' => quiet a → Pristine m') (fun _ m' => Pristine m') x m

abbrev WritesLast {ε α : Type} (x : Try M ε α) : Prop := WritesUnless (fun _ => False) x

/-- Neither a begin nor an end of a transaction, nor a call that is a transaction of its own. -/
def Inner : Op M → Prop
  | .begin | .commit | .rollback | .deleteNow _ _ _ => False
  | _ => True

/-- A call that writes no row. -/
def Asks : Op M → Prop
  | .update _ _ _ _ _ _ | .insert _ _ _ _ | .put _ _ _ _ | .delete _ _ _ | .deleteNow _ _ _ => False
  | _ => True

theorem Pristine.unchanged {m : Memory M} (h : Pristine m) : Unchanged m := congrArg Effect.changed h

theorem pristine_start : Pristine ((none, []) : Memory M) := rfl

section rules

variable {ε ε' α β : Type} {quiet : α → Prop}

theorem readOnly_pure (a : α) : ReadOnly (pure a : Try M ε α) := fun _ hm => tries_pure hm

theorem readOnly_throw (e : ε) : ReadOnly (throw e : Try M ε α) := fun _ hm => tries_throw hm

theorem readOnly_of_uses {x : Try M ε α} (hx : x.run.Uses Asks) : ReadOnly x := by
  intro m hm
  refine (Prog.Uses.holds (P := Pristine) hx hm (fun _ _ _ h => h.unchanged) fun m o r m' ho h hs => ?_).mono fun r m' h => ?_
  · obtain ⟨env, D, hl⟩ := hs.snoc
    unfold Pristine at h ⊢
    rw [hl, effect_snoc, h]
    cases o with
    | update => exact ho.elim
    | insert => exact ho.elim
    | put => exact ho.elim
    | delete => exact ho.elim
    | deleteNow => exact ho.elim
    | _ => simp [Effect.after, Exchange.removes, Exchange.commits, Exchange.writes]
  · cases r <;> exact h

theorem ReadOnly.adapt {f : ε' → ε} {x : Try M ε' α} (hx : ReadOnly x) : ReadOnly (ExceptT.adapt f x) :=
  fun m hm => tries_adapt (hx m hm)

theorem ReadOnly.writesUnless {x : Try M ε α} (hx : ReadOnly x) : WritesUnless quiet x :=
  fun m hm => (hx m hm).mono (fun _ _ h _ => h) fun _ _ h => h

theorem ReadOnly.bind_writes {x : Try M ε α} {quiet : β → Prop} {f : α → Try M ε β} (hx : ReadOnly x)
    (hf : ∀ a, WritesUnless quiet (f a)) : WritesUnless quiet (x >>= f) :=
  fun m hm => tries_bind ((hx m hm).mono (fun a m' hm' => hf a m' hm') fun _ _ h => h)

theorem WritesUnless.adapt {f : ε' → ε} {x : Try M ε' α} (hx : WritesUnless quiet x) : WritesUnless quiet (ExceptT.adapt f x) :=
  fun m hm => tries_adapt (hx m hm)

/-- After the change the program makes no call; where there is none it may fail. -/
theorem WritesUnless.bind {x : Try M ε α} {f : α → Try M ε β} (hx : WritesUnless quiet x)
    (hf : ∀ a, (∃ b, f a = pure b) ∨ (quiet a ∧ WritesLast (f a))) : WritesLast (x >>= f) := by
  refine fun m hm => tries_bind ((hx m hm).mono (fun a m' hm' => ?_) fun _ _ h => h)
  rcases hf a with ⟨b, hb⟩ | ⟨hq, ha⟩
  · rw [hb]
    exact tries_pure fun h => h.elim
  · exact ha m' (hm' hq)

theorem WritesUnless.map {x : Try M ε α} {g : α → β} (hx : WritesUnless quiet x) : WritesLast (x >>= fun a => pure (g a)) :=
  hx.bind fun a => Or.inl ⟨g a, rfl⟩

/-- A single call, whose reply tells what it has done. -/
theorem holds_one {o : Op M} {m : Memory M} (hm : Unchanged m) {post : o.Reply → Memory M → Prop}
    (h : ∀ r env D m', effect m'.2 = (effect m.2).after ⟨o, env, r, D⟩ → post r m') :
    (Prog.perform o : Program M o.Reply).Holds Recalls (fun m _ => Unchanged m) post m := by
  refine Prog.holds_perform.mpr ⟨hm, fun r m' hr => ?_⟩
  obtain ⟨env, D, hl⟩ := hr.snoc
  refine h r env D m' ?_
  rw [hl, effect_snoc]

/-- The statements of a transaction change no committed row. -/
theorem inner_unchanged {x : Try M ε α} (hx : x.run.Uses Inner) {m : Memory M} (hm : Unchanged m) :
    Prudent (fun _ m' => Unchanged m') (fun _ m' => Unchanged m') x m := by
  refine (Prog.Uses.holds (P := Unchanged) hx hm (fun _ _ _ h => h) fun m o r m' ho h hs => ?_).mono fun r m' h => ?_
  · obtain ⟨env, D, hl⟩ := hs.snoc
    unfold Unchanged at h ⊢
    rw [hl, effect_snoc]
    cases o with
    | begin => exact ho.elim
    | commit => exact ho.elim
    | rollback => exact ho.elim
    | deleteNow => exact ho.elim
    | _ => simp [Effect.after, Exchange.removes, Exchange.commits, h]
  · cases r <;> exact h

/-- A transaction changes committed rows only where its body has written and it commits. -/
theorem writesUnless_transaction {fromDb : DbError → ε} {body : Try M ε α}
    (hb : ∀ m, Pristine m → Prudent (fun a m' => Unchanged m' ∧ (quiet a → Pristine m')) (fun _ m' => Unchanged m') body m) :
    WritesUnless quiet (transaction fromDb body) := by
  intro m hm
  refine tries_transaction (holds_one hm.unchanged fun r env D m₁ h₁ => ?_)
  rw [hm] at h₁
  cases r with
  | error e => exact h₁
  | ok _ =>
    refine (hb m₁ h₁).mono (fun a m₂ h₂ => ?_) fun e m₂ h₂ => ?_
    · refine holds_one h₂.1 fun r env D m₃ h₃ => ?_
      cases r with
      | error e =>
        refine h₃.trans ?_
        simp [Effect.after, Exchange.resets, Exchange.removes, Exchange.commits, show (effect m₂.2).changed = false from h₂.1]
      | ok _ =>
        intro hq
        refine h₃.trans ?_
        rw [h₂.2 hq]
        rfl
    · refine holds_one h₂ fun r env D m₃ h₃ => h₃.trans ?_
      simp [Effect.after, Exchange.resets, Exchange.removes, Exchange.commits, show (effect m₂.2).changed = false from h₂]

theorem writesLast_inner {fromDb : DbError → ε} {body : Try M ε α} (hb : body.run.Uses Inner) : WritesLast (transaction fromDb body) :=
  writesUnless_transaction fun _ hm => (inner_unchanged hb hm.unchanged).mono (fun _ _ h => ⟨h, False.elim⟩) fun _ _ h => h

theorem writesUnless_deleteNow {stmt : M.Stmt} {tb : M.Tbl} {k : M.Key} :
    WritesUnless (fun found => found = false) (deleteNow stmt tb k : Try M DbError Bool) := by
  refine fun m hm => holds_one hm.unchanged fun r env D m' h => ?_
  rw [hm] at h
  cases r with
  | error e => exact h
  | ok found =>
    rintro rfl
    exact h

end rules

section runs

variable {S : System M} {acts : List (Action S)} {t : Nat} {atomic : S.Req → Prop} {failed : S.Resp → Prop}

/-- The program of a request that changes committed rows in its last call or not at all, and not at all when it fails. -/
def AtomicProgram {R : Type} (failed : R → Prop) (p : Program M R) : Prop :=
  p.Holds Recalls (fun m _ => Unchanged m) (fun r m' => failed r → Unchanged m') (none, [])

/-- The action changes committed rows. -/
def Pool.Changes (before : List (Action S)) (a : Action S) : Prop :=
  ((Pool.empty S).run (before ++ [a])).world.rows ≠ ((Pool.empty S).run before).world.rows

theorem changed_later {before acts : List (Action S)} (le : before <+: acts)
    (h : (effect (transcript before t)).changed = true) : (effect (transcript acts t)).changed = true := by
  obtain ⟨rest, rfl⟩ := le
  induction rest using List.reverseRecOn with
  | nil => simpa using h
  | append_singleton rest a ih =>
    rw [← List.append_assoc, transcript_snoc]
    rcases exchange_cases ((Pool.empty S).run (before ++ rest)) t a with hx | ⟨x, req, w, _, _, _, _, hx⟩
    · rw [hx, List.append_nil]
      exact ih
    · rw [hx, effect_snoc]
      simp [Effect.after, ih]

theorem Pool.Changes.transcript {before : List (Action S)} {env : Env M} (h : Pool.Changes before (.step t env))
    (le : before ++ [.step t env] <+: acts) : (effect (transcript acts t)).changed = true :=
  changed_later le (Pool.changes_shown h)

/-- A step that changes committed rows is a call. -/
theorem Pool.Changes.made {before : List (Action S)} {env : Env M} (h : Pool.Changes before (.step t env)) :
    ∃ (req : S.Req) (x : Exchange M), ((Pool.empty S).run before).next t = some (req, x.op) ∧
      Made (before ++ [.step t env]) t req x := by
  rcases exchange_cases ((Pool.empty S).run before) t (.step t env) with hx | ⟨x, req, w, ha, hn, he, _, _⟩
  · unfold Pool.Changes at h
    rw [Pool.run_append, Pool.run_cons, Pool.run_nil] at h
    exact absurd (rows_idle hx) h
  · refine ⟨req, ⟨x.op, x.env, x.reply, ((Pool.empty S).run before).world.rows⟩, hn, before, ?_, hn, ⟨w, he⟩, rfl⟩
    simp only [ha, List.prefix_refl]

/-- What a program knows when it has ended, of all that its thread has exchanged. -/
theorem Pool.resumed_answer {P : S.Req → Memory M → Op M → Prop} {Q : S.Req → S.Resp → Memory M → Prop}
    (holds : ∀ req, (S.program req).Holds Recalls (P req) (Q req) (none, [])) {req : S.Req} {out : S.Resp}
    (h : ((Pool.empty S).run acts).answer t = some (req, out)) :
    Q req out (((Pool.empty S).run acts).world.sessions t, TxLib.transcript acts t) := by
  unfold Pool.answer at h
  split at h
  next => cases h
  next th ht =>
    split at h
    next ha =>
      have held := (Pool.traced_run holds acts).resumes t th ht ha
      cases hp : th.prog with
      | call o next => simp [hp, Prog.result] at h
      | ret r =>
        simp only [hp, Prog.result, Option.map_some, Option.some.injEq, Prod.mk.injEq] at h
        obtain ⟨rfl, rfl⟩ := h
        unfold Resumes at held
        rw [hp] at held
        exact held
    next => cases h

section programs

variable (programs : ∀ req, atomic req → AtomicProgram failed (S.program req))

include programs

theorem atomic_holds (req : S.Req) : (S.program req).Holds Recalls (fun m _ => atomic req → Unchanged m)
    (fun r m' => atomic req → failed r → Unchanged m') (none, []) := by
  by_cases ha : atomic req
  · exact ((programs req ha).pre_mono fun _ _ h _ => h).mono fun _ _ h _ => h
  · exact ((Prog.holds_true _ _).pre_mono fun _ _ _ h => absurd h ha).mono fun _ _ _ h => absurd h ha

/-- A request that is answered with a failure has changed no committed row in any of its steps. -/
theorem Pool.failed_unchanged {req : S.Req} {out : S.Resp} (ha : atomic req)
    (h : ((Pool.empty S).run acts).answer t = some (req, out)) (hf : failed out) {before : List (Action S)} {env : Env M}
    (le : before ++ [.step t env] <+: acts) : ¬Pool.Changes before (.step t env) := by
  intro hc
  have kept : Unchanged _ := Pool.resumed_answer (atomic_holds programs) h ha hf
  have changed := hc.transcript le
  rw [show (effect (transcript acts t)).changed = false from kept] at changed
  cases changed

/-- No call of a request comes after a step in which it has changed committed rows. -/
theorem Pool.changes_last {before later : List (Action S)} {env : Env M} {req : S.Req} {o : Op M} (ha : atomic req)
    (hn : ((Pool.empty S).run later).next t = some (req, o)) (le : before ++ [.step t env] <+: later) :
    ¬Pool.Changes before (.step t env) := by
  intro hc
  have kept : Unchanged _ := Pool.resumed (atomic_holds programs) hn ha
  have changed := hc.transcript le
  rw [show (effect (transcript later t)).changed = false from kept] at changed
  cases changed

/-- A request changes the committed rows in one of its steps at most. -/
theorem Pool.changes_once {before later : List (Action S)} {env env' : Env M} {th : Thread S}
    (ht : ((Pool.empty S).run acts).threads t = some th) (ha : atomic th.req) (le : before ++ [.step t env] <+: acts)
    (le' : later ++ [.step t env'] <+: acts) (h : Pool.Changes before (.step t env)) (h' : Pool.Changes later (.step t env')) :
    before = later := by
  have after : ∀ {b b' : List (Action S)} {e e' : Env M}, b ++ [.step t e] <+: acts → b' ++ [.step t e'] <+: acts →
      Pool.Changes b (.step t e) → Pool.Changes b' (.step t e') → ¬b.length < b'.length := by
    intro b b' e e' hb hb' hc hc' hlt
    obtain ⟨req, o, hn, made⟩ := hc'.made
    obtain ⟨th', ht', rfl⟩ := (made.later hb').thread
    rw [ht] at ht'
    cases ht'
    have le : b ++ [.step t e] <+: b' := by
      refine List.prefix_of_prefix_length_le hb ((List.prefix_append b' _).trans hb') ?_
      simpa [Nat.succ_le_iff] using hlt
    exact Pool.changes_last programs ha hn le hc
  have hle := after le le' h h'
  have hge := after le' le h' h
  have same : before.length = later.length := by omega
  exact List.IsPrefix.eq_of_length (List.prefix_of_prefix_length_le ((List.prefix_append before _).trans le)
    ((List.prefix_append later _).trans le') (le_of_eq same)) same

end programs

end runs

end TxLib

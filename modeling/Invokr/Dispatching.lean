import Invokr.Preparing

namespace Invokr

open TxLib

variable {env : Setup} {g : Guard (service env)} {workerId : String} {schemas : List String} {t : Nat} {now : Int}
  {K : Rows Pg → Prop} {w₀ : World Pg} {ke : Key} {b e : Execution} {tp : String} {d : Dispatch}

/-- What is handed over is what was claimed. -/
structure Handed (K : Rows Pg → Prop) (ke : Key) (b : Execution) (d : Dispatch) : Prop where
  key : d.key = ke
  keyed : ∀ D, K D → Keyed D d b
  resolved : Resolved d

/-- A worker about to dispatch has lost its transaction through a mishap only. -/
abbrev Poised (g : Guard (service env)) (t : Nat) (now : Int) (K : Rows Pg → Prop) (ke : Key) (b e : Execution)
    (w : World Pg) : Prop := Open t now (Past ke b none) K (Unless (¬Counted g) (Working g now ke b e none [])) w

theorem Poised.claimed {w : World Pg} (h : Poised g t now K ke b e w) : Claimed g t now K ke b e none none [] w :=
  h.mono (fun _ h => h) (fun _ h => h) fun _ _ h => h.imp_left fun h => ⟨h.1, trivial⟩

/-- The log line before the dispatch: a worker that fails to write it has met with a mishap. -/
theorem runs_announce {α : Type} {message : String} {number : Int} {level : LogLevel} {f : Unit → Program Pg α}
    {post : α → World Pg → Prop} (hK : Lasting K)
    (accepts : Pg.storable .executions b = true → textAccepts message = true) (hw : Ready g t now K ke b e w₀)
    (h : ∀ w', Poised g t now K ke b e w' → Runs g (.work workerId schemas) t post (f ()) w') :
    Runs g (.work workerId schemas) t post
      (Pipeline.logExecution ⟨ke.schema, tp, true⟩ ke.id number level message >>= f) w₀ := by
  refine Prog.holds_bind.mpr (holds_run (tries_bind ?_))
  refine does_insertOne hK (by decide) covers_past hw ?_ ?_
  · intro x w w' s e₁ facts hf working ho
    refine Prog.holds_pure.mpr (h w' (ho.mono (fun _ h => h) (fun _ h => h) fun s' _ ha => Or.inl ⟨ha, ?_⟩))
    have hb : w.rows .executions ke = some b := (facts.sound.visible_only facts.session working.execution).1
    have hs : Unless (¬Counted g) (Working g now ke b e none []) s := Or.inr ⟨working.live, working⟩
    refine log_lost ?_ (fun unlucky counted => ?_) (Or.inr (accepts (facts.sound.stored .executions ke b (Or.inl hb))))
      facts hf hs
    · exact fun _ _ => ⟨rfl, rfl, rfl⟩
    · exact counted.1 workerId schemas w t e₁ _ facts.allowed (Or.inl ⟨unlucky, Or.inr rfl⟩)
  · intro w w' s e₁ facts ha working _ _ ho
    refine tries_pure (Prog.holds_pure.mpr (h w' (ho.mono (fun _ h => h) (fun _ h => h ▸ facts.known) fun s' _ h => ?_)))
    subst h
    exact Or.inr ⟨ha, working.log⟩

/-- The dispatch itself. -/
theorem runs_handOver {α : Type} {f : Unit → Program Pg α} {post : α → World Pg → Prop} (hd : Handed K ke b d)
    (hK : Lasting K) (hc : e.attemptCount = b.attemptCount + 1) (hw : Poised g t now K ke b e w₀)
    (h : ∀ w', (Lost g (some d) ∨ (d.endpointType = .internal → (Dispatcher.taskOf d.spec).all textAccepts = true)) →
      Claimed g t now K ke b e (some d) none [] w' → Runs g (.work workerId schemas) t post (f ()) w') :
    Runs g (.work workerId schemas) t post (ext (M := Pg) (.dispatch d) >>= f) w₀ := by
  have pre : (base g).pre (.work workerId schemas) t w₀ (.ext (.dispatch d)) := by
    obtain ⟨s, l, hv, _, hl, hk, hs⟩ := hw
    have hh : handed l = [] := hl.1
    refine ⟨fun _ d' hd' => ?_, rfl, s, l, b, hv, by rw [hd.key]; exact hl.2, hh, hd.keyed _ hk, hd.resolved, ?_⟩
    · rw [hv] at hd'
      simp [hh] at hd'
    · refine hs.imp_right fun h => ⟨h.1, e, ?_, hc⟩
      rw [hd.key]
      exact h.2.execution.1
  refine holds_ext hK.stable pre hw fun w s e₁ w' facts _ ho => h w' ?_ (ho.mono ?_ (fun _ h => h) fun _ _ h => h)
  · by_cases hbad : unstorableAnswer e₁ (.ext (.dispatch d)) = true
    · exact Or.inl fun counted =>
        counted.1 workerId schemas w t e₁ _ facts.allowed (Or.inr (Or.inl hbad))
    · refine Or.inr fun internal => ?_
      simpa [unstorableAnswer, internal] using hbad
  · rintro l ⟨l₀, hl, rfl⟩
    have hh : handed l₀ = [] := hl.1
    refine ⟨?_, ?_⟩
    · rw [handed_snoc rfl, hh]
      rfl
    · rw [current_inside rfl]
      exact List.mem_append_left _ hl.2

section dispatchers

variable {post : DispatchResult → World Pg → Prop}

/-- A request to the world outside whose answer can be stored, or the worker has met with a mishap. -/
theorem runs_send {x : External} {result : External.Answer x → DispatchResult} (hd : d.key = ke) (hx : Free (.ext x))
    (hK : Lasting K) (hc : e.attemptCount = b.attemptCount + 1)
    (hun : ∀ e₁ : Env Pg, unstorableAnswer e₁ (.ext x) = !jsonbAccepts (result (e₁.answer x)).value)
    (hw : Claimed g t now K ke b e (some d) none [] w₀)
    (h : ∀ r w', Lost g (some d) ∨ jsonbAccepts r.value = true → Claimed g t now K ke b e (some d) none [] w' → post r w') :
    Runs g (.work workerId schemas) t post (do let reply ← ext (M := Pg) x; return result reply) w₀ := by
  have dispatched : ∀ d', some d = some d' → d'.key = ke := fun d' h => Option.some.inj h ▸ hd
  refine runs_ext hx ⟨dispatched, hc⟩ hK hw fun w e₁ w' here hc' => Prog.holds_pure.mpr (h _ w' ?_ hc')
  by_cases hbad : unstorableAnswer e₁ (.ext x) = true
  · exact Or.inl fun counted => counted.1 workerId schemas w t e₁ _ here.allowed (Or.inr (Or.inl hbad))
  · rw [hun e₁] at hbad
    exact Or.inr (by simpa using hbad)

theorem runs_internal (hd : d.key = ke) (hK : Lasting K) (hc : e.attemptCount = b.attemptCount + 1)
    (hschema : textAccepts ke.schema = true)
    (htask : Lost g (some d) ∨ (Dispatcher.taskOf d.spec).all textAccepts = true)
    (hw : Claimed g t now K ke b e (some d) none [] w₀)
    (h : ∀ r w', Lost g (some d) ∨ jsonbAccepts r.value = true → Claimed g t now K ke b e (some d) none [] w' → post r w') :
    Runs g (.work workerId schemas) t post (Dispatcher.internalDispatch env ⟨ke.schema, tp, true⟩ d.schemaName d.spec)
      w₀ := by
  have dispatched : ∀ d', some d = some d' → d'.key = ke := fun d' h => Option.some.inj h ▸ hd
  have hs : d.schemaName = ke.schema := congrArg Key.schema hd
  unfold Dispatcher.internalDispatch
  rw [hs]
  split
  next => exact Prog.holds_pure.mpr (h _ w₀ (Or.inr (jsonbAccepts_error (by decide) (by decide))) hw)
  next task htk =>
    split
    next =>
      refine holds_run ((does_reapSchema ⟨dispatched, hc⟩ hK hw).mono ?_ ?_)
      · rintro retired w' ⟨hc', huuid⟩
        refine Prog.holds_pure.mpr (h _ w' (Or.inr ?_) hc')
        exact jsonbAccepts_reaped hschema fun id hm => textAccepts_uuid (huuid id hm)
      · rintro x w' ⟨hc', lost⟩
        exact Prog.holds_pure.mpr (h _ w' (Or.inl lost) hc')
    next =>
      refine Prog.holds_pure.mpr (h _ w₀ (htask.imp_right fun ht => ?_) hw)
      rw [htk, Option.all_some] at ht
      refine jsonbAccepts_error (by decide) ?_
      rw [textAccepts_append, ht]
      decide

theorem asStr_accepts (tp : EndpointType) : textAccepts tp.asStr = true := by
  cases tp <;> decide

/-- Whatever is dispatched, the answer can be stored, or the worker has lost its transaction. -/
theorem runs_dispatch (hd : Handed K ke b d) (hK : Lasting K) (hc : e.attemptCount = b.attemptCount + 1)
    (hschema : textAccepts ke.schema = true) (hw : Poised g t now K ke b e w₀)
    (h : ∀ o r w', (∀ d', o = some d' → d'.key = ke) → Lost g o ∨ jsonbAccepts r.value = true →
      Claimed g t now K ke b e o none [] w' → post r w') :
    Runs g (.work workerId schemas) t post (Dispatcher.dispatch env ⟨ke.schema, tp, true⟩ d) w₀ := by
  have dispatched : ∀ d', some d = some d' → d'.key = ke := fun d' h => Option.some.inj h ▸ hd.key
  have sent := fun r w' => h (some d) r w' dispatched
  have unsupported : ∀ tp', Runs g (.work workerId schemas) t post (return Dispatcher.unsupported tp') w₀ := by
    intro tp'
    refine Prog.holds_pure.mpr (h none _ w₀ (fun d' hn => by cases hn) (Or.inr ?_) (Poised.claimed hw))
    refine jsonbAccepts_error (by decide) ?_
    rw [textAccepts_append, asStr_accepts]
    decide
  unfold Dispatcher.dispatch
  split
  next => exact runs_handOver hd hK hc hw fun w' _ hc' =>
      runs_send hd.key trivial hK hc (fun _ => rfl) hc' sent
  next hi => exact runs_handOver hd hK hc hw fun w' ht hc' =>
      runs_internal hd.key hK hc hschema (ht.imp_right fun ht => ht hi) hc' sent
  next =>
    split
    next => exact runs_handOver hd hK hc hw fun w' _ hc' =>
      runs_send hd.key trivial hK hc (fun _ => rfl) hc' sent
    next => exact unsupported .kafka
  next =>
    split
    next =>
      refine runs_handOver hd hK hc hw fun w' _ hc' => ?_
      unfold Dispatcher.redisDispatch
      split
      next => exact Prog.holds_pure.mpr (sent _ w' (Or.inr (jsonbAccepts_error (by decide) (by decide))) hc')
      next => exact runs_send hd.key trivial hK hc (fun _ => rfl) hc' sent
    next => exact unsupported .redisStream

end dispatchers

section process

variable {wid : String} {c : Pipeline.Call} {post : Unit → World Pg → Prop}

/-- From the claim to the end of the attempt. -/
theorem runs_processExecution (hc : CallFor ke b c) (hend : c.endpointName = b.endpoint) (hK : Lasting K)
    (hkeyed : ∀ D spec, K D → Keyed D ⟨c.schemaName, c.executionId, c.endpointType, spec, c.idempotencyKey⟩ b)
    (heligible : Executions.eligible now b = true) (hschema : textAccepts ke.schema = true)
    (hw : Ready g t now K ke b (claimedRow wid now b) w₀)
    (h : ∀ o w', (∀ d', o = some d' → d'.key = ke) → Over g t now K ke b o w' → post () w') :
    Runs g (.work workerId schemas) t post (Pipeline.processExecution env ⟨ke.schema, tp, true⟩ c) w₀ := by
  unfold Pipeline.processExecution
  refine runs_prepare hc hend hK heligible hw ?_ ?_
  · exact fun w' ho => Prog.holds_pure.mpr (h none w' (fun d' hn => by cases hn) ho)
  · intro p w₁ hspec h₁
    simp only [hc.executionId]
    refine runs_announce hK (fun stored => ?_) h₁ fun w₂ h₂ => ?_
    · simp only [Table.storable, Bool.and_eq_true] at stored
      simp only [textAccepts_append, asStr_accepts, hend, stored.1.1.1.1.1.1.1, Bool.and_true, Bool.and_eq_true]
      decide
    · have hd : Handed K ke b (Pipeline.handOver c p) := by
        refine ⟨?_, fun D hk => hkeyed D p.spec hk, ?_⟩
        · simp [Pipeline.handOver, Dispatch.key, hc.schemaName, hc.executionId]
        · obtain ⟨config, secrets, template, resolved, hres, hsp⟩ := hspec
          exact ⟨c, config, secrets, template, resolved, rfl, rfl, hres, hsp⟩
      refine Prog.holds_bind.mpr (runs_dispatch hd hK rfl hschema h₂ fun o r w₃ hkey accepts h₃ => ?_)
      cases r with
      | success output => exact runs_succeed hc hkey hK heligible accepts h₃ fun w₄ h₄ => h o w₄ hkey h₄
      | failure error => exact runs_fail hc hkey hK heligible accepts h₃ fun w₄ h₄ => h o w₄ hkey h₄

end process

end Invokr

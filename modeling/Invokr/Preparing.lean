import Invokr.Reaping

namespace Invokr

open TxLib

variable {env : Setup} {g : Guard (service env)} {workerId : String} {schemas : List String} {t : Nat} {now : Int}
  {K : Rows Pg → Prop} {Q : Session Pg → Prop} {w₀ : World Pg} {ke : Key} {b e : Execution} {tp : String}

/-- Before its dispatch a worker may lose its transaction. -/
theorem covers_past : Covers g (.work workerId schemas) t now (Past ke b none) K Q := by
  rintro w op free ⟨s, l, hv, _, hl, _, _⟩
  refine ⟨fun _ d hd => ?_, free_calls free⟩
  have hh : handed l = [] := hl.1
  rw [hv] at hd
  simp [hh] at hd

/-- The worker's transaction after its claim, with nothing lost. -/
abbrev Ready (g : Guard (service env)) (t : Nat) (now : Int) (K : Rows Pg → Prop) (ke : Key) (b e : Execution)
    (w : World Pg) : Prop := Open t now (Past ke b none) K (Working g now ke b e none []) w

theorem Ready.claimed {w : World Pg} (h : Ready g t now K ke b e w) : Claimed g t now K ke b e none none [] w :=
  h.mono (fun _ h => h) (fun _ h => h) fun _ _ h => Or.inr ⟨h.live, h⟩

theorem dead_claimed {w : World Pg} (h : Open t now (Past ke b none) K Aborted w) :
    Claimed g t now K ke b e none none [] w := open_lost h trivial

theorem runs_ext_past {α : Type} {x : External} {f : External.Answer x → Program Pg α} {post : α → World Pg → Prop}
    (hx : Free (.ext x)) (hK : Lasting K) (hw : Open t now (Past ke b none) K Q w₀)
    (h : ∀ e₁ : Env Pg, ∀ w', Open t now (Past ke b none) K Q w' →
      Runs g (.work workerId schemas) t post (f (e₁.answer x)) w') :
    Runs g (.work workerId schemas) t post (ext (M := Pg) x >>= f) w₀ := by
  refine holds_ext hK.stable (covers_past _ _ hx hw) hw fun w s e₁ w' facts _ ho => ?_
  refine h e₁ w' (ho.mono ?_ (fun _ h => h) fun _ _ h => h)
  rintro l ⟨l₀, hl, rfl⟩
  refine extends_past l₀ _ rfl ?_ hl
  cases x with
  | dispatch d => exact hx.elim
  | _ => rfl

/-- A `SELECT` of the worker. -/
theorem does_select {α : Type} {stmt : Statement} {f : Snapshot Pg → α} {ok : α → World Pg → Prop}
    {err : DbError → World Pg → Prop} (hK : Lasting K) (hw : Ready g t now K ke b e w₀)
    (herr : ∀ x w', Open t now (Past ke b none) K Aborted w' → err x w')
    (hok : ∀ w w' s e₁, At g (.work workerId schemas) t now (Past ke b none) K w s e₁ (.snapshot stmt) →
      Working g now ke b e none [] s → Open t now (Past ke b none) (fun D => D = w.rows) (Working g now ke b e none []) w' →
      ok (f ⟨now, s.visible w.rows, w.keys⟩) w') :
    Does g (.work workerId schemas) t ok err
      (DbContext.execute ⟨ke.schema, tp, true⟩ (do let snap ← query (M := Pg) stmt; return f snap)) w₀ := by
  refine tries_bind (tries_query hK.stable (covers_past _ _ trivial hw) hw (fun x _ w' _ _ _ _ _ ho => herr x w' ho) ?_)
  intro w w' s e₁ facts _ hs ho
  exact tries_pure (hok w w' s e₁ facts hs (ho.mono (fun _ h => h) (fun _ h => h) fun s' _ h => h ▸ hs))

theorem does_find {α : Type} {stmt : Statement} {f : Snapshot Pg → α} (hK : Lasting K) (hw : Ready g t now K ke b e w₀) :
    Does g (.work workerId schemas) t (fun _ w' => Ready g t now K ke b e w')
      (fun _ w' => Claimed g t now K ke b e none none [] w')
      (DbContext.execute ⟨ke.schema, tp, true⟩ (do let snap ← query (M := Pg) stmt; return f snap)) w₀ := by
  refine does_select hK hw (fun _ w' ho => dead_claimed ho) fun w w' s e₁ facts _ ho => ?_
  exact ho.mono (fun _ h => h) (fun _ h => h ▸ facts.known) fun _ _ h => h

section loads

variable {post : Unit → World Pg → Prop}

theorem runs_configGet {name : String} (hK : Lasting K) (hw : Open t now (Past ke b none) K Q w₀) :
    Runs g (.work workerId schemas) t (fun _ w' => Open t now (Past ke b none) K Q w') (ConfigCache.get name) w₀ := by
  unfold ConfigCache.get
  refine runs_ext_past (x := .configCacheGet name) trivial hK hw fun e₁ w' h => ?_
  split
  next => exact Prog.holds_pure.mpr h
  next => exact runs_ext_past (x := .configCacheRemove name true) trivial hK h fun _ _ h => Prog.holds_pure.mpr h
  next => exact runs_ext_past (x := .configCacheRemove name false) trivial hK h fun _ _ h => Prog.holds_pure.mpr h

theorem runs_secretGet {name : String} (hK : Lasting K) (hw : Open t now (Past ke b none) K Q w₀) :
    Runs g (.work workerId schemas) t (fun _ w' => Open t now (Past ke b none) K Q w') (SecretCache.get name) w₀ := by
  unfold SecretCache.get
  refine runs_ext_past (x := .secretCacheGet name) trivial hK hw fun e₁ w' h => ?_
  split
  next => exact Prog.holds_pure.mpr h
  next => exact runs_ext_past (x := .secretCacheRemove name true) trivial hK h fun _ _ h => Prog.holds_pure.mpr h
  next => exact runs_ext_past (x := .secretCacheRemove name false) trivial hK h fun _ _ h => Prog.holds_pure.mpr h

theorem runs_put {x : External} {ε : Type} {ok : External.Answer x → World Pg → Prop} {err : ε → World Pg → Prop}
    (hx : Free (.ext x)) (hK : Lasting K) (hw : Open t now (Past ke b none) K Q w₀)
    (h : ∀ r w', Open t now (Past ke b none) K Q w' → ok r w') :
    Does g (.work workerId schemas) t ok err (liftM (ext (M := Pg) x) : Try Pg ε (External.Answer x)) w₀ := by
  refine tries_lift ?_
  change (ext (M := Pg) x >>= pure).Holds _ _ _ _
  exact runs_ext_past hx hK hw fun e₁ w' ho => Prog.holds_pure.mpr (h _ w' ho)

/-- An outcome computed without a call. -/
theorem tries_value {ε α : Type} {r : Except ε α} {ok : α → World Pg → Prop} {err : ε → World Pg → Prop} {w : World Pg}
    (hok : ∀ x, ok x w) (herr : ∀ x, err x w) :
    Does g (.work workerId schemas) t ok err (ExceptT.mk (pure r) : Try Pg ε α) w := by
  cases r with
  | ok x => exact tries_pure (hok x)
  | error x => exact tries_throw (herr x)

theorem does_loadConfig {name : String} (hK : Lasting K) (hw : Ready g t now K ke b e w₀) :
    Does g (.work workerId schemas) t (fun _ w' => Ready g t now K ke b e w')
      (fun _ w' => Claimed g t now K ke b e none none [] w') (Pipeline.loadConfig env ⟨ke.schema, tp, true⟩ name) w₀ := by
  unfold Pipeline.loadConfig
  refine tries_bind (tries_lift (Prog.Holds.mono (runs_configGet hK hw) fun r w₁ h₁ => ?_))
  split
  next => exact tries_value (fun _ => h₁) fun _ => Ready.claimed h₁
  next =>
    refine tries_bind (tries_adapt ((does_find hK h₁).mono (fun found w₂ h₂ => ?_) fun _ _ h => h))
    split
    next => exact tries_throw (Ready.claimed h₂)
    next => exact tries_bind (runs_put trivial hK h₂ fun _ w₃ h₃ => tries_value (fun _ => h₃) fun _ => Ready.claimed h₃)

theorem does_loadSingleSecret {name : String} (hK : Lasting K) (hw : Ready g t now K ke b e w₀) :
    Does g (.work workerId schemas) t (fun _ w' => Ready g t now K ke b e w')
      (fun _ w' => Claimed g t now K ke b e none none [] w')
      (Pipeline.loadSingleSecret env ⟨ke.schema, tp, true⟩ name) w₀ := by
  unfold Pipeline.loadSingleSecret
  refine tries_bind (tries_lift (Prog.Holds.mono (runs_secretGet hK hw) fun r w₁ h₁ => ?_))
  split
  next => exact tries_pure h₁
  next =>
    refine tries_bind (tries_adapt ((does_find hK h₁).mono (fun found w₂ h₂ => ?_) fun _ _ h => h))
    split
    next => exact tries_throw (Ready.claimed h₂)
    next =>
      split
      next => exact tries_throw (Ready.claimed h₂)
      next => exact tries_bind (runs_put trivial hK h₂ fun _ w₃ h₃ => tries_pure h₃)

theorem does_loadEach {names : List String} {secrets : List (String × String)} (hK : Lasting K)
    (hw : Ready g t now K ke b e w₀) :
    Does g (.work workerId schemas) t (fun _ w' => Ready g t now K ke b e w')
      (fun _ w' => Claimed g t now K ke b e none none [] w')
      (Pipeline.loadEach env ⟨ke.schema, tp, true⟩ names secrets) w₀ := by
  induction names generalizing secrets w₀ with
  | nil => exact tries_pure hw
  | cons name names ih =>
    unfold Pipeline.loadEach
    split
    next => exact ih hw
    next => exact tries_bind ((does_loadSingleSecret hK hw).mono (fun _ _ h => ih h) fun _ _ h => h)

theorem does_loadConfigRef {name : Option String} (hK : Lasting K) (hw : Ready g t now K ke b e w₀) :
    Does g (.work workerId schemas) t (fun _ w' => Ready g t now K ke b e w')
      (fun _ w' => Claimed g t now K ke b e none none [] w')
      (Pipeline.loadConfigRef env ⟨ke.schema, tp, true⟩ name) w₀ := by
  cases name with
  | some name => exact does_loadConfig hK hw
  | none => exact tries_pure hw

end loads

section prepared

variable {wid : String} {c : Pipeline.Call}

/-- An execution whose spec cannot be resolved ends FAILED. -/
theorem runs_failTemplate {title message : String} {startedAt : Time} {post : Unit → World Pg → Prop}
    (hc : CallFor ke b c) (hK : Lasting K) (heligible : Executions.eligible now b = true)
    (hw : Claimed g t now K ke b (claimedRow wid now b) none none [] w₀)
    (h : ∀ w', Over g t now K ke b none w' → post () w') :
    Runs g (.work workerId schemas) t post (Pipeline.failTemplate ⟨ke.schema, tp, true⟩ c startedAt title message) w₀ := by
  unfold Pipeline.failTemplate
  rw [hc.executionId, hc.attemptCount]
  have fresh : ∀ d, none = some d → Dispatch.key d = ke := fun d h => by cases h
  refine runs_complete ⟨fresh, rfl⟩ hK (by decide) rfl rfl (fun _ _ _ _ _ _ => Or.inl trivial) hw ?_
  intro r w₁ h₁
  refine runs_recordAttempt ⟨fresh, rfl⟩ hK rfl (Or.inl trivial) h₁ ?_
  intro ka x w₂ hschema hid hnum hst h₂
  refine runs_lastLog ⟨fresh, rfl⟩ hK (Or.inl trivial) h₂ fun w₃ h₃ => h w₃ (over_of h₃ ?_ hschema hid)
  exact worked_of heligible ⟨rfl, rfl, rfl, rfl, rfl, rfl, rfl, rfl⟩ rfl hnum rfl (Or.inr (Or.inl ⟨rfl, hst, rfl⟩)) rfl

/-- A statement of a transaction that is lost. -/
theorem runs_dead {α : Type} {stmt : Statement} {k : Key} {keep : Int → Execution → Bool} {p : Patch Pg .executions}
    {f : Except DbError Unit → Program Pg α} {post : α → World Pg → Prop} (hK : Lasting K)
    (hw : Open t now (Past ke b none) K Aborted w₀)
    (h : ∀ r w', Open t now (Past ke b none) K Aborted w' → Runs g (.work workerId schemas) t post (f r) w') :
    Runs g (.work workerId schemas) t post
      ((DbContext.execute ⟨ke.schema, tp, true⟩ (do
        let _ ← updateOne stmt .executions k keep p
        return () : Try Pg DbError Unit)).run >>= f) w₀ := by
  refine holds_run (tries_bind (tries_bind (tries_query hK.stable (covers_past _ _ trivial hw) hw ?_ ?_)))
  · intro x w w' s e₁ _ _ _ ho
    exact h _ w' ho
  · intro w w' s e₁ _ ha hs _
    exact absurd (ha.symm.trans hs) (by decide)

/-- The endpoint of a claimed execution is there. -/
theorem endpoint_visible {w : World Pg} {s : Session Pg} {e₁ : Env Pg} {op : Op Pg} {rest : List String}
    {a : Option (Key × Attempt)} (facts : At g (.work workerId schemas) t now (Past ke b none) K w s e₁ op)
    (working : Working g now ke b e a rest s) : s.visible w.rows .endpoints ⟨ke.schema, b.endpoint⟩ ≠ none := by
  have hb : w.rows .executions ke = some b := (facts.sound.visible_only facts.session working.execution).1
  obtain ⟨_, j, hj, hend, _⟩ := facts.inv.linked.execution ke b hb
  have hrefs := facts.sound.refs .jobs _ j hj
  simp only [refsVisible, Table.refs, List.all_cons, List.all_nil, Bool.and_true, jobKey] at hrefs
  rw [← hend] at hrefs
  have hsome : (s.visible w.rows .endpoints ⟨ke.schema, b.endpoint⟩).isSome = true :=
    facts.sound.visible_refs facts.session rfl hrefs
  exact Option.isSome_iff_ne_none.mp hsome

/-- The spec a worker has ready. -/
def ReadySpec (c : Pipeline.Call) (spec : Json) : Prop :=
  ∃ config secrets template resolved,
    resolve ⟨Pipeline.inputMap c.input, config, secrets, Pipeline.executionMap c⟩ template = .ok resolved ∧
      spec = Pipeline.injectBody resolved c.input

theorem runs_prepare {α : Type} {f : Option Pipeline.Prepared → Program Pg α} {post : α → World Pg → Prop}
    (hc : CallFor ke b c) (hend : c.endpointName = b.endpoint) (hK : Lasting K)
    (heligible : Executions.eligible now b = true) (hw : Ready g t now K ke b (claimedRow wid now b) w₀)
    (hnone : ∀ w', Over g t now K ke b none w' → Runs g (.work workerId schemas) t post (f none) w')
    (hsome : ∀ p w', ReadySpec c p.spec → Ready g t now K ke b (claimedRow wid now b) w' →
      Runs g (.work workerId schemas) t post (f (some p)) w') :
    Runs g (.work workerId schemas) t post (Pipeline.prepare env ⟨ke.schema, tp, true⟩ c >>= f) w₀ := by
  refine Prog.holds_bind.mpr ?_
  unfold Pipeline.prepare
  refine runs_ext_past (x := .now) trivial hK hw fun e₁ w₁ h₁ => ?_
  refine holds_run (does_select hK h₁ ?_ ?_)
  · intro x w₂ h₂
    refine runs_dead hK h₂ fun _ w₃ h₃ => Prog.holds_pure.mpr (hnone w₃ ?_)
    exact open_lost h₃ trivial
  · intro w w₂ s e₂ facts working ho
    have ho' : Ready g t now K ke b (claimedRow wid now b) w₂ :=
      ho.mono (fun _ h => h) (fun _ h => h ▸ facts.known) fun _ _ h => h
    simp only [DbContext.key, hend]
    have failed : ∀ title message startedAt w', Claimed g t now K ke b (claimedRow wid now b) none none [] w' →
        Runs g (.work workerId schemas) t (fun x w'' => Runs g (.work workerId schemas) t post (f x) w'') (do
          Pipeline.failTemplate ⟨ke.schema, tp, true⟩ c startedAt title message
          return none) w' := by
      intro title message startedAt w' h'
      exact Prog.holds_bind.mpr (runs_failTemplate hc hK heligible h' fun w'' h'' => Prog.holds_pure.mpr (hnone w'' h''))
    split
    next h => cases h
    next h => exact (endpoint_visible facts working (Except.ok.inj h)).elim
    next endpoint _ =>
      refine holds_run ((does_loadConfigRef hK ho').mono (fun config w₃ h₃ => ?_) fun x w₃ h₃ => failed _ _ _ w₃ h₃)
      refine holds_run ((does_loadEach hK h₃).mono (fun secrets w₄ h₄ => ?_) fun x w₄ h₄ => failed _ _ _ w₄ h₄)
      simp only
      split
      next => exact failed _ _ _ w₄ (Ready.claimed h₄)
      next resolved hres => exact Prog.holds_pure.mpr (hsome _ w₄ ⟨config, secrets, _, resolved, hres, rfl⟩ h₄)

end prepared

end Invokr

import Invokr.Knowledge

namespace Invokr

open TxLib

variable {env : Setup} {m : Memory Pg} {l : List (Exchange Pg)}

theorem tries_checked {ε α L : Type} {step : L → (o : Op Pg) → o.Reply → L → Prop} {pre : L → Op Pg → Prop}
    {ok : α → L → Prop} {err : ε → L → Prop} {s : L} {c : Prop} [Decidable c] {e : ε} {rest : Try Pg ε α}
    (h : ¬c → Tries step pre ok err rest s) (herr : c → err e s) :
    Tries step pre ok err (if c then (throw e >>= fun _ : PUnit => rest) else rest) s := by
  split
  next hc => exact tries_bind (tries_throw (herr hc))
  next hc => exact h hc

section create

variable {schemaName : String} {body : CreateJob} {ep : Endpoint}

theorem walks_checkInput (hw : Outside l m) :
    Walks env (.createJob schemaName body) (fun _ m' => Outside l m' ∧ ∀ name input, ep.payloadSpecRef = some name →
        body.input = some input → ∃ spec : PayloadSpec,
          Shown m'.2 (.getPayloadSpec name) .payloadSpecs ⟨schemaName, name⟩ spec ∧
            JobsApi.validateInput env input spec.schemaJson = .ok ()) (fun _ _ => True)
      (JobsApi.checkInput env ⟨schemaName, env.tablePrefix, false⟩ ep body) m := by
  unfold JobsApi.checkInput
  split
  next name input hn hi =>
    refine tries_bind (tries_adapt (walks_read rfl hw fun m' now D keys e hm' _ _ made => ?_))
    split
    next => exact tries_throw trivial
    next spec hspec =>
      cases hv : JobsApi.validateInput env input spec.schemaJson with
      | error e => exact tries_throw trivial
      | ok _ =>
        refine tries_pure ⟨hm', fun name' input' hn' hi' => ?_⟩
        rw [hn] at hn'
        rw [hi] at hi'
        cases hn'
        cases hi'
        exact ⟨spec, ⟨_, made, rfl, hspec⟩, hv⟩
  next none =>
    refine tries_pure ⟨hw, fun name input hn hi => ?_⟩
    exact (none name input hn hi).elim

theorem creates_from (read : EndpointRead env schemaName body l ep) :
    Creates (From env (.createJob schemaName body) l) schemaName body.endpoint ep.endpointType body.input where
  toNeutral := neutral_from
  job build hb m hm := by
    refine ⟨ep, read.later hm, fun id now => ?_⟩
    obtain ⟨hk, he, ht, hi⟩ := hb id now
    exact ⟨congrArg Key.schema hk, he, ht, hi⟩
  put _ _ _ _ := trivial

theorem walks_create :
    Walks env (.createJob schemaName body) (fun _ _ => True) (fun _ _ => True) (JobsApi.create env schemaName body) (none, []) := by
  unfold JobsApi.create
  split
  next => exact tries_throw trivial
  next trigger _ =>
    have start : Outside [] ((none, []) : Memory Pg) := ⟨rfl, List.prefix_refl _⟩
    refine tries_bind ((walks_connect start).mono (fun _ m hm => ?_) fun _ _ _ => trivial)
    refine tries_bind (tries_adapt (walks_read rfl hm fun m' now D keys e hm' _ _ made => ?_))
    split
    next => exact tries_throw trivial
    next ep hep =>
      have shown : Shown m'.2 .getEndpoint .endpoints ⟨schemaName, body.endpoint⟩ ep := ⟨_, made, rfl, hep⟩
      refine tries_checked (fun user => ?_) fun _ => trivial
      have here : Outside m'.2 m' := ⟨hm'.1, List.prefix_refl _⟩
      refine tries_bind ((walks_checkInput here).mono (fun _ m₂ hm₂ => ?_) fun _ _ _ => trivial)
      have read : EndpointRead env schemaName body m₂.2 ep := ⟨shown.later hm₂.1.2, user, hm₂.2⟩
      refine walks_done (uses_try_bind (uses_findDuplicate neutral_from) fun found => ?_)
      split
      next => exact uses_done _
      next =>
        refine uses_createAs (creates_from read) ?_ trigger
        exact fun build hb m₃ hm₃ => ⟨ep, read.later hm₃, hb⟩

end create

theorem walks_update {schemaName jobId : String} {body : UpdateJob} :
    Walks env (.updateJob schemaName jobId body) (fun _ _ => True) (fun _ _ => True)
      (JobsApi.update env schemaName jobId body) (none, []) := by
  have start : Outside [] ((none, []) : Memory Pg) := ⟨rfl, List.prefix_refl _⟩
  refine tries_bind ((walks_connect start).mono (fun _ m hm => ?_) fun _ _ _ => trivial)
  refine tries_bind (tries_adapt (walks_read rfl hm fun m' now D keys e hm' _ _ made => ?_))
  split
  next => exact tries_throw trivial
  next old hold =>
    have shown : Shown m'.2 .getJob .jobs ⟨schemaName, jobId⟩ old := ⟨_, made, rfl, hold⟩
    cases hcheck : JobsApi.checkUpdatable old with
    | error e => exact tries_bind (tries_throw trivial)
    | ok _ =>
      have user : old.endpointType ≠ .internal := by
        intro hi
        simp only [JobsApi.checkUpdatable, hi] at hcheck
        split at hcheck
        next => cases hcheck
        next =>
          split at hcheck <;> cases hcheck
      have hn : Neutral (From env (.updateJob schemaName jobId body) m'.2) := neutral_from
      have replaced : ∀ cron tz nextRun, (scopedTransaction schemaName (JobsApi.replaceIn env schemaName jobId
          (JobsApi.replacementFor old body cron tz nextRun) cron)).run.Uses
            (From env (.updateJob schemaName jobId body) m'.2) := by
        intro cron tz nextRun
        refine uses_scopedTransaction hn (uses_replaceIn hn (fun _ _ _ _ _ => ⟨rfl, rfl, rfl⟩) (fun m₂ hm₂ => ?_)
          (fun _ _ _ => trivial) fun _ _ _ _ => trivial)
        exact ⟨old, shown.later hm₂, user, fun id now => ⟨rfl, rfl, rfl, rfl⟩⟩
      refine walks_done (uses_try_bind (uses_done _) fun _ => uses_try_bind (α := String) trivial fun cron => ?_)
      refine uses_checked (uses_try_bind (uses_ext hn fun _ h => by cases h) fun now => ?_)
      split
      next => exact uses_throw _
      next nextRun _ => exact uses_try_bind (replaced _ _ _) fun _ => uses_done _

theorem library_connected {α : Type} {schemaName : String} {rest : DbContext → Try Pg String α} :
    LibraryClient.connect env schemaName >>= rest =
      (ExceptT.adapt (fun _ => LibraryClient.dbText env .closed) (scopedConnection schemaName) >>= fun _ =>
        rest ⟨schemaName, env.tablePrefix, false⟩ : Try Pg String α) := by
  unfold LibraryClient.connect
  rw [bind_assoc]
  rfl

theorem walks_libraryCreate {schemaName endpoint : String} {input : Json} {maxAttempts : Int} {trigger : JobTrigger}
    {key : Option String} :
    Walks env (.libraryCreateJob schemaName endpoint input maxAttempts trigger key) (fun _ _ => True) (fun _ _ => True)
      (LibraryClient.createJob env schemaName endpoint input maxAttempts trigger key) (none, []) := by
  have start : Outside [] ((none, []) : Memory Pg) := ⟨rfl, List.prefix_refl _⟩
  unfold LibraryClient.createJob
  rw [library_connected]
  refine tries_bind (tries_adapt ((walks_connect start).mono (fun _ m hm => ?_) fun _ _ _ => trivial))
  refine tries_bind (tries_adapt (walks_read rfl hm fun m' now D keys e hm' _ _ made => ?_))
  split
  next => exact tries_throw trivial
  next ep hep =>
    have shown : Shown m'.2 .getEndpoint .endpoints ⟨schemaName, endpoint⟩ ep := ⟨_, made, rfl, hep⟩
    have hp : Creates (From env (.libraryCreateJob schemaName endpoint input maxAttempts trigger key) m'.2) schemaName endpoint
        ep.endpointType (some input) :=
      { toNeutral := neutral_from
        job := fun build hb m₂ hm₂ => by
          refine ⟨ep, shown.later hm₂, fun id now => ?_⟩
          obtain ⟨hk, he, ht, hi⟩ := hb id now
          exact ⟨congrArg Key.schema hk, he, ht, hi⟩
        put := fun _ _ _ _ => trivial }
    have hm : AdmitsExecution (From env (.libraryCreateJob schemaName endpoint input maxAttempts trigger key) m'.2) maxAttempts :=
      fun build hb m₂ _ => hb
    refine walks_done ?_
    cases trigger with
    | immediate => exact uses_try_bind (uses_adapt (uses_createImmediate hp rfl hm _)) fun _ => uses_done _
    | delayed => exact uses_try_bind (uses_adapt (uses_createDelayed hp rfl hm _ _)) fun _ => uses_done _
    | cron => exact uses_try_bind (uses_adapt (uses_createCron hp rfl _ _ _ _ _ _)) fun _ => uses_done _

theorem walks_provision {schemaName expression : String} {plain : env.tablePrefix = ""} :
    Walks env (.provisionReaper schemaName expression plain) (fun _ _ => True) (fun _ _ => True)
      (Workspaces.provisionReaper schemaName expression) (none, []) := by
  have start : Outside [] ((none, []) : Memory Pg) := ⟨rfl, List.prefix_refl _⟩
  have rest : Walks env (.provisionReaper schemaName expression plain) (fun _ _ => True) (fun _ _ => True)
      (transaction fromDb (ExceptT.adapt fromDb do
        let _ ← insertOne .insertEndpoint .endpoints fun _ now =>
          (⟨schemaName, Workspaces.reaperEndpointName⟩, Workspaces.reaperEndpoint now)
        let job : Job ← insertOne .insertJob .jobs fun id now => (⟨schemaName, id.val⟩, Workspaces.reaperJob id now expression)
        Jobs.registerPgCronConn "" schemaName job.jobId expression)) (none, []) := by
    have ended : ∀ m₁ : Memory Pg, ∀ e : AppError, (rollbackTx : Program Pg Unit).Holds Recalls
        (Issues env (.provisionReaper schemaName expression plain)) (fun _ _ => True) m₁ := fun m₁ e =>
      recalls_rollback (List.prefix_refl _) trivial fun _ _ => trivial
    refine tries_transaction (recalls_begin start trivial (fun m₁ now hs _ _ => ?_) fun _ _ _ _ => trivial)
    refine tries_adapt (tries_bind (tries_bind (recalls_insert hs (List.prefix_refl _) (fun _ _ => ⟨rfl, rfl⟩)
      (fun m₂ D fresh hs₂ _ => ?_) (fun m₂ _ => ?_) fun e m₂ _ => ended m₂ (fromDb e))))
    · have knows : KnowsJob env (.provisionReaper schemaName expression plain) m₂ fun id now =>
          (⟨schemaName, id.val⟩, Workspaces.reaperJob id now expression) :=
        ⟨⟨_, _, _, hs₂, Session.write_held_same .., rfl, rfl⟩, fun id now => ⟨rfl, rfl, rfl, rfl⟩⟩
      refine tries_pure (tries_bind (tries_bind ⟨knows, fun r m₃ _ => ?_⟩))
      cases r with
      | error e => exact ended m₃ (fromDb e)
      | ok new =>
        cases new with
        | none => exact ended m₃ (fromDb .rejected)
        | some new =>
          refine ⟨trivial, fun r m₄ _ => ?_⟩
          cases r with
          | error e => exact ended m₄ (fromDb e)
          | ok _ => exact ⟨trivial, fun r m₅ _ => by cases r <;> trivial⟩
    · exact tries_throw (ended m₂ (fromDb .rejected))
  unfold Workspaces.provisionReaper scopedTransaction
  split
  next => exact tries_bind (tries_lift ⟨trivial, fun r => r.elim⟩)
  next => exact rest

theorem walks_runCronCommand {jobName : String} {c : CronCommand} {now : Int} (hs : m.1 = some (.start now)) :
    Walks env (.tick jobName) (fun _ _ => True) (fun _ _ => True) (Jobs.runCronCommand c) m := by
  refine tries_bind (recalls_query hs (List.prefix_refl _) trivial (fun m₁ D keys e hs₁ _ _ _ made => ?_) fun _ _ _ _ => trivial)
  split
  next => exact tries_pure trivial
  next j hj =>
    split
    next => exact tries_pure trivial
    next ep hep =>
      split
      next hactive =>
        split
        next => exact tries_throw trivial
        next n hn =>
          have knows : KnowsExecution env (.tick jobName) m₁ fun id now => (⟨c.schemaName, id.val⟩,
              Jobs.newExecution id now j .queued (Jobs.cronIdempotencyKey j.jobId now) j.input now n) :=
            ⟨c, _, j, ep, n, made, rfl, hj, hep, hn, fun id now => ⟨rfl, rfl⟩⟩
          refine tries_bind ⟨knows, fun r m₂ _ => ?_⟩
          cases r with
          | error e => trivial
          | ok new => exact tries_pure trivial
      next => exact tries_pure trivial

theorem walks_tick {jobName : String} :
    Walks env (.tick jobName) (fun _ _ => True) (fun _ _ => True) (cronTick jobName) (none, []) := by
  have start : Outside [] ((none, []) : Memory Pg) := ⟨rfl, List.prefix_refl _⟩
  have committed : ∀ m₁ : Memory Pg, Walks env (.tick jobName) (fun _ _ => True) (fun _ _ => True)
      (commitTx : Try Pg DbError Unit) m₁ := fun m₁ => ⟨trivial, fun r m₂ _ => by cases r <;> trivial⟩
  have ended : ∀ m₁ : Memory Pg, (rollbackTx : Program Pg Unit).Holds Recalls (Issues env (.tick jobName))
      (fun _ _ => True) m₁ := fun m₁ => recalls_rollback (List.prefix_refl _) trivial fun _ _ => trivial
  refine tries_transaction (recalls_begin start trivial (fun m₁ now hs _ _ => ?_) fun _ _ _ _ => trivial)
  refine tries_bind (recalls_query hs (List.prefix_refl _) trivial (fun m₂ D keys e hs₂ _ _ _ _ => ?_) fun e m₂ _ _ => ended m₂)
  split
  next => exact tries_pure (committed m₂)
  next entry _ =>
    exact (walks_runCronCommand hs₂).mono (fun _ m₃ _ => committed m₃) fun _ m₃ _ => ended m₃

theorem works_from {workerId : String} {schemas : List String} : Works (From env (.work workerId schemas) l) where
  ext _ _ _ := trivial
  halt := neutral_from.halt
  read stmt _ := neutral_from.snapshot stmt
  attempt _ _ _ := trivial
  log _ _ _ := trivial
  retire _ _ _ _ _ _ := ⟨rfl, rfl, rfl⟩
  drop _ _ _ := trivial
  finish := neutral_from.snapshot _
  execution _ _ _ _ _ _ _ _ := trivial
  claim _ _ _ _ _ _ := trivial
  begin := neutral_from.begin
  commit := neutral_from.commit
  rollback := neutral_from.rollback

theorem withdraws_from {req : Request env} : AdmitsCancels (From env req l) where
  toNeutral := neutral_from
  execution _ _ _ _ _ := trivial
  job _ _ _ _ _ _ := ⟨rfl, rfl, rfl⟩
  drop _ _ _ := trivial

theorem uses_libraryCancel {req : Request env} {schemaName jobId : String} :
    (LibraryClient.cancelJob env schemaName jobId).run.Uses (From env req l) := by
  have hp : AdmitsCancels (From env req l) := withdraws_from
  refine uses_connected hp.toNeutral (uses_try_bind (uses_adapt (uses_read hp.toNeutral)) fun r => ?_)
  split
  next => exact uses_throw _
  next job =>
    refine uses_sometimes (uses_adapt (uses_cancelPending hp _)) (uses_try_bind (uses_adapt (uses_retire hp _)) fun _ => ?_)
    exact uses_sometimes (uses_adapt (uses_unregisterPgCron hp _ _)) (uses_done _)

/-- Every request knows at its calls what it has to know. -/
theorem issues_all (req : Request env) : req.program.Holds Recalls (Issues env req) (fun _ _ => True) (none, []) := by
  have run : ∀ {ε α : Type} {x : Try Pg ε α} {f : Except ε α → Outcome},
      Walks env req (fun _ _ => True) (fun _ _ => True) x (none, []) →
      (x.run >>= fun r => pure (f r) : Program Pg Outcome).Holds Recalls (Issues env req) (fun _ _ => True) (none, []) := by
    intro ε α x f h
    exact Prog.holds_bind.mpr (Prog.Holds.mono h fun _ _ _ => trivial)
  have uses : ∀ {p : Program Pg Outcome}, p.Uses (From env req []) →
      p.Holds Recalls (Issues env req) (fun _ _ => True) (none, []) := fun h =>
    (recalls_uses h fun m' o hm ho => ho m' hm).mono fun _ _ _ => trivial
  have hn : Neutral (From env req []) := neutral_from
  cases req with
  | createJob => exact run walks_create
  | updateJob => exact run walks_update
  | provisionReaper => exact run walks_provision
  | libraryCreateJob => exact run walks_libraryCreate
  | tick => exact run walks_tick
  | cancelJob => exact uses (uses_answered (uses_cancelJob withdraws_from _ _))
  | cancelExecution => exact uses (uses_answered (uses_cancelExecution withdraws_from _ _))
  | libraryCancelJob => exact uses (Prog.Uses.bind uses_libraryCancel fun _ => trivial)
  | work => exact uses (Prog.Uses.bind (uses_work works_from _ _) fun _ => trivial)
  | createEndpoint =>
    exact uses (uses_answered (uses_endpoints_create hn fun _ hne _ _ _ _ => ⟨rfl, hne⟩))
  | updateEndpoint => exact uses (uses_answered (uses_endpoints_update hn fun _ _ _ => ⟨rfl, fun _ _ => rfl⟩))
  | deleteEndpoint => exact uses (uses_answered (uses_endpoints_delete hn fun _ _ => rfl))
  | createPayloadSpec => exact uses (uses_answered (uses_payloadSpecs_create hn fun _ _ _ => rfl))
  | updatePayloadSpec => exact uses (uses_answered (uses_payloadSpecs_update hn fun _ _ _ _ _ => rfl))
  | deletePayloadSpec => exact uses (uses_answered (uses_deleteUnreferenced hn fun _ _ => rfl))
  | createConfig => exact uses (uses_answered (uses_configs_create hn fun _ _ _ => trivial))
  | updateConfig => exact uses (uses_answered (uses_configs_update hn fun _ _ _ _ _ => trivial))
  | deleteConfig => exact uses (uses_answered (uses_deleteUnreferenced hn fun _ _ => trivial))
  | createSecret => exact uses (uses_answered (uses_secrets_create hn fun _ _ _ => trivial))
  | updateSecret => exact uses (uses_answered (uses_secrets_update hn fun _ _ _ _ _ => trivial))
  | deleteSecret => exact uses (uses_answered (uses_deleteUnreferenced hn fun _ _ => trivial))
  | libraryRegisterEndpoint =>
    exact uses (Prog.Uses.bind (uses_registerEndpoint hn (fun _ _ _ _ => ⟨rfl, rfl⟩) fun _ _ _ => ⟨rfl, fun _ _ => rfl⟩)
      fun _ => trivial)
  | libraryDeleteEndpoint =>
    exact uses (Prog.Uses.bind (uses_library_delete (k := fun db => db.key _) hn fun _ _ => rfl) fun _ => trivial)
  | libraryUpsertSecret =>
    exact uses (Prog.Uses.bind (uses_upsertSecret hn (fun _ _ _ => trivial) fun _ _ _ _ _ => trivial) fun _ => trivial)
  | libraryDeleteSecret =>
    exact uses (Prog.Uses.bind (uses_library_delete (k := fun db => db.key _) hn fun _ _ => trivial) fun _ => trivial)

/-- A call that a thread makes in a run, and the calls it has made before. -/
theorem issues_run {acts : List (Action (service env))} {t : Nat} {req : Request env} {o : Op Pg}
    (h : ((Pool.empty (service env)).run acts).next t = some (req, o)) :
    ∃ l, (∀ x ∈ l, Made acts t req x) ∧
      Issues env req (((Pool.empty (service env)).run acts).world.sessions t, l) o :=
  Pool.recalled issues_all h

end Invokr

import Invokr.Recall
import Invokr.UsesWork

namespace TxLib

variable {M : Model} {α : Type} {pre pre' : Memory M → Op M → Prop} {m : Memory M}

/-- What the calls of a program keep of its memory holds at each of them. -/
theorem holds_keep {I : Memory M → Prop} {post : α → Memory M → Prop} {q : Program M α}
    (h : q.Holds Recalls pre post m) (start : I m)
    (keep : ∀ m o r m', pre m o → I m → Recalls m o r m' → I m') :
    q.Holds Recalls (fun m o => I m ∧ pre m o) (fun a m' => I m' ∧ post a m') m := by
  induction q generalizing m with
  | ret a => exact ⟨start, h⟩
  | call o next ih => exact ⟨⟨start, h.1⟩, fun r m' hr => ih r (h.2 r m' hr) (keep m o r m' h.1 start hr)⟩

theorem holds_both {post post' : α → Memory M → Prop} {q : Program M α} (h : q.Holds Recalls pre post m)
    (h' : q.Holds Recalls pre' post' m) :
    q.Holds Recalls (fun m o => pre m o ∧ pre' m o) (fun a m' => post a m' ∧ post' a m') m := by
  induction q generalizing m with
  | ret a => exact ⟨h, h'⟩
  | call o next ih => exact ⟨⟨h.1, h'.1⟩, fun r m' hr => ih r (h.2 r m' hr) (h'.2 r m' hr)⟩

/-- What a `SELECT` shows: the committed rows, under what its transaction has written. -/
theorem snapshot_seen {w w' : World M} {t : Nat} {stmt : M.Stmt} {e : Env M} {snap : Snapshot M}
    (h : w.exec t (.snapshot stmt) e = some (w', .ok snap)) :
    ∃ s, w.sessions t = some s ∧ snap = ⟨s.now, s.visible w.rows, w.keys⟩ := by
  obtain ⟨_, _, he, _⟩ := World.exec_eq h
  simp only [Op.eval, inTx] at he
  split at he
  next => cases he
  next s hs =>
    refine ⟨s, hs, ?_⟩
    split at he
    next => cases he
    next =>
      split at he
      next => cases he
      next =>
        cases he
        rfl

end TxLib

namespace Invokr

open TxLib

variable {env : Setup} {p : Op Pg → Prop} {schemaName : String}

/-- The two caches of a worker process. -/
inductive CacheKind where
  | config
  | secret
  deriving DecidableEq

namespace CacheKind

abbrev Value : CacheKind → Type
  | config => Json
  | secret => String

def set : (c : CacheKind) → String → c.Value → External
  | config, name, v => .configCacheSet name v
  | secret, name, v => .secretCacheSet name v

/-- The value stands in the rows under the key; a secret's is encrypted there. -/
def Stored (env : Setup) (D : Rows Pg) (k : Key) : (c : CacheKind) → c.Value → Prop
  | config, v => ∃ r : Config, D .configs k = some r ∧ r.valuesJson = v
  | secret, v => ∃ r : Secret, D .secrets k = some r ∧ env.decrypt r.encryptedValue env.encryptionKey = .ok v

end CacheKind

/-- The access puts a value into a cache. -/
def External.caches : External → Bool
  | .configCacheSet _ _ | .secretCacheSet _ _ => true
  | _ => false

/-- The read has shown the value under the name. -/
def Showed (env : Setup) (schemaName name : String) (c : CacheKind) (v : c.Value) (x : Exchange Pg) : Prop :=
  ∃ stmt e snap D, x = ⟨.snapshot stmt, e, .ok snap, D⟩ ∧ c.Stored env snap.row ⟨schemaName, name⟩ v

/-- The call puts a value into a cache that has just been read. -/
def Loaded (env : Setup) (schemaName : String) (m : Memory Pg) (o : Op Pg) : Prop :=
  ∃ (c : CacheKind) (name : String) (v : c.Value), o = .ext (c.set name v) ∧
    ∃ x, m.2.getLast? = some x ∧ Showed env schemaName name c v x

/-- The predicate admits the calls that a worker makes in a workspace, but for those that fill its caches. -/
structure Tasks (p : Op Pg → Prop) (schemaName : String) : Prop where
  ext : ∀ e, e.caches = false → p (.ext e)
  halt : p .halt
  begin : p .begin
  snapshot : ∀ stmt, p (.snapshot stmt)
  commit : p .commit
  rollback : p .rollback
  claim : ∀ workerId k, k.schema = schemaName →
    p (.update .claim .executions k true Executions.eligible (Executions.claimPatch workerId))
  execution : ∀ stmt executionId keep patch, p (.update stmt .executions ⟨schemaName, executionId⟩ false keep patch)
  attempt : ∀ stmt build, (∀ id now, (build id now).1.schema = schemaName) → p (.insert stmt .attempts false build)
  line : ∀ stmt build, (∀ id now, (build id now).1.schema = schemaName) → p (.insert stmt .executionLogs false build)
  retire : ∀ k keep, k.schema = schemaName → p (.update .retireExpired .jobs k false keep Jobs.retirePatch)
  drop : ∀ jobId, p (.delete .unschedule .cronJob (Jobs.cronKey (Jobs.cronJobName schemaName jobId)))

/-- The program makes the calls and fills the caches with what it has read. -/
def Loads {α : Type} (env : Setup) (p : Op Pg → Prop) (schemaName : String) (q : Program Pg α) : Prop :=
  ∀ m, q.Holds Recalls (fun m o => p o ∨ Loaded env schemaName m o) (fun _ _ => True) m

section rules

variable {α β ε : Type}

theorem loads_of_uses {q : Program Pg α} (h : q.Uses p) : Loads env p schemaName q := fun _ =>
  (recalls_uses h fun _ _ _ ho => Or.inl ho).mono fun _ _ _ => trivial

theorem loads_bind {q : Program Pg α} {f : α → Program Pg β} (h : Loads env p schemaName q)
    (hf : ∀ a, Loads env p schemaName (f a)) : Loads env p schemaName (q >>= f) := fun m =>
  Prog.holds_bind.mpr ((h m).mono fun a m' _ => hf a m')

theorem loads_try {x : Try Pg ε α} {f : α → Try Pg ε β} (h : Loads env p schemaName x.run)
    (hf : ∀ a, Loads env p schemaName (f a).run) : Loads env p schemaName (x >>= f).run := by
  rw [ExceptT.run_bind]
  refine loads_bind h fun r => ?_
  cases r with
  | ok a => exact hf a
  | error e => exact fun _ => trivial

end rules

section tasks

variable (hp : Tasks p schemaName)

include hp

theorem tasks_ext {e : External} (he : e.caches = false) : (ext (M := Pg) e : Program Pg (External.Answer e)).Uses p :=
  Prog.uses_perform.mpr (hp.ext e he)

theorem tasks_unregisterEach (ids : List String) : (Reaper.unregisterEach schemaName ids).run.Uses p := by
  induction ids with
  | nil => exact uses_done _
  | cons id ids ih =>
    refine uses_try_bind (uses_try_bind (Prog.uses_perform.mpr (hp.snapshot _)) fun snap => ?_) fun _ => ih
    split
    next => exact uses_try_bind (Prog.uses_perform.mpr (hp.drop id)) fun _ => uses_done _
    next => exact uses_done _

theorem tasks_retire {keep : Int → Job → Bool} :
    (updateWhere .retireExpired schemaName Table.jobs keep Jobs.retirePatch).run.Uses p := by
  refine uses_try_bind (Prog.uses_perform.mpr (hp.snapshot _)) fun snap => ?_
  have inside : ∀ k ∈ matching snap schemaName .jobs keep, k.schema = schemaName := by
    intro k hk
    obtain ⟨_, hk⟩ := List.mem_filter.mp hk
    simpa using (Bool.and_eq_true_iff.mp hk).1
  generalize matching snap schemaName .jobs keep = ks at inside
  induction ks with
  | nil => exact uses_done _
  | cons k ks ih =>
    refine uses_try_bind (Prog.uses_perform.mpr (hp.retire k _ (inside k (List.mem_cons_self ..)))) fun _ => ?_
    exact uses_try_bind (ih fun k' hk' => inside k' (List.mem_cons_of_mem _ hk')) fun _ => uses_done _

theorem tasks_claimFrom (workerId : String) {ks : List Key} (inside : ∀ k ∈ ks, k.schema = schemaName) :
    (Executions.claimFrom workerId ks).run.Uses p := by
  induction ks with
  | nil => exact uses_done _
  | cons k ks ih =>
    refine uses_try_bind (Prog.uses_perform.mpr (hp.claim workerId k (inside k (List.mem_cons_self ..)))) fun r => ?_
    split
    next => exact uses_done _
    next => exact ih fun k' hk' => inside k' (List.mem_cons_of_mem _ hk')

theorem tasks_retryJitter (policy : RetryPolicy) (attempt : Int) : (Pipeline.retryJitter env policy attempt).Uses p := by
  unfold Pipeline.retryJitter
  split
  next => trivial
  next => exact uses_either (tasks_ext hp rfl) trivial

theorem tasks_backoffFor (policy : RetryPolicy) (attempt : Int) : (Pipeline.backoffFor env policy attempt).Uses p := by
  refine (tasks_retryJitter hp _ _).bind fun jitter => ?_
  split
  next => trivial
  next => exact ⟨hp.halt, fun r => r.elim⟩

section work

variable {db : DbContext} (inside : db.inTx = true) (here : db.schema = schemaName)

include inside

theorem tasks_read {α : Type} {stmt : Statement} {f : Snapshot Pg → α} :
    (db.execute (do let snap ← query (M := Pg) stmt; return f snap)).run.Uses p :=
  uses_inside inside (uses_try_bind (Prog.uses_perform.mpr (hp.snapshot stmt)) fun _ => uses_done _)

include here

theorem tasks_finish {stmt : Statement} {executionId : String} {keep : Int → Execution → Bool} {patch : Patch Pg .executions} :
    (db.execute (do
      let _ ← updateOne stmt Table.executions (db.key executionId) keep patch
      return () : Try Pg DbError Unit)).run.Uses p := by
  subst here
  exact uses_inside inside (uses_try_bind (uses_updateOne (hp.snapshot _) (hp.execution _ _ _ _)) fun _ => uses_done _)

theorem tasks_line (executionId : String) (n : Int) (level : LogLevel) (message : String) :
    (Pipeline.logExecution db executionId n level message).Uses p := by
  subst here
  refine Prog.Uses.bind (uses_inside inside ?_) fun _ => trivial
  exact uses_try_bind (uses_insertOne (hp.line _ _ fun _ _ => rfl)) fun _ => uses_done _

theorem tasks_attempt (executionId : String) (n : Int) (status : AttemptStatus) (startedAt : Time)
    (output error : Option Json) : (Pipeline.recordAttempt db executionId n status startedAt output error).Uses p := by
  subst here
  refine (tasks_ext hp rfl).bind fun _ => Prog.Uses.bind (uses_inside inside ?_) fun _ => trivial
  exact uses_insertOne (hp.attempt _ _ fun _ _ => rfl)

theorem tasks_reapSchema : (Reaper.reapSchema db schemaName).run.Uses p := by
  subst here
  refine uses_try_bind (uses_inside inside ?_) fun _ => uses_try_bind (tasks_unregisterEach hp _) fun _ => uses_done _
  exact uses_try_bind (tasks_retire hp) fun _ => uses_done _

theorem tasks_dispatch {d : Dispatch} (same : d.schemaName = schemaName) : (Dispatcher.dispatch env db d).Uses p := by
  have announce : (ext (M := Pg) (.dispatch d)).Uses p := tasks_ext hp rfl
  unfold Dispatcher.dispatch
  split
  next => exact announce.bind fun _ => (tasks_ext hp rfl).bind fun _ => trivial
  next =>
    refine announce.bind fun _ => ?_
    unfold Dispatcher.internalDispatch
    split
    next => trivial
    next =>
      refine uses_either ?_ trivial
      rw [same]
      refine (tasks_reapSchema hp inside here).bind fun r => ?_
      cases r <;> trivial
  next => exact uses_either (announce.bind fun _ => (tasks_ext hp rfl).bind fun _ => trivial) trivial
  next =>
    refine uses_either (announce.bind fun _ => ?_) trivial
    unfold Dispatcher.redisDispatch
    split
    next => trivial
    next => exact (tasks_ext hp rfl).bind fun _ => trivial

theorem tasks_failTemplate (c : Pipeline.Call) (startedAt : Time) (title message : String) :
    (Pipeline.failTemplate db c startedAt title message).Uses p :=
  Prog.Uses.bind (tasks_finish hp inside here) fun _ => (tasks_attempt hp inside here _ _ _ _ _ _).bind fun _ =>
    tasks_line hp inside here _ _ _ _

theorem tasks_finalize (c : Pipeline.Call) (prepared : Pipeline.Prepared) (result : DispatchResult) :
    (Pipeline.finalize env db c prepared result).Uses p := by
  have line := tasks_line hp inside here c.executionId
  cases result with
  | success output =>
    refine (tasks_ext hp rfl).bind fun _ => (tasks_attempt hp inside here _ _ _ _ _ _).bind fun _ => ?_
    exact Prog.Uses.bind (tasks_finish hp inside here) fun _ => line _ _ _
  | failure error =>
    refine (tasks_ext hp rfl).bind fun _ => (tasks_attempt hp inside here _ _ _ _ _ _).bind fun _ => uses_either ?_ ?_
    · refine (tasks_backoffFor hp _ _).bind fun ms => ?_
      exact Prog.Uses.bind (tasks_finish hp inside here) fun _ => line _ _ _
    · exact Prog.Uses.bind (tasks_finish hp inside here) fun _ => line _ _ _

end work

end tasks

section loads

variable (hp : Tasks p schemaName)

include hp

theorem tasks_configGet (name : String) : (ConfigCache.get name).Uses p := by
  refine (tasks_ext hp rfl).bind fun r => ?_
  cases r with
  | live => trivial
  | expired => exact (tasks_ext hp rfl).bind fun _ => trivial
  | absent => exact (tasks_ext hp rfl).bind fun _ => trivial

theorem tasks_secretGet (name : String) : (SecretCache.get name).Uses p := by
  refine (tasks_ext hp rfl).bind fun r => ?_
  cases r with
  | live => trivial
  | expired => exact (tasks_ext hp rfl).bind fun _ => trivial
  | absent => exact (tasks_ext hp rfl).bind fun _ => trivial

variable {db : DbContext} (inside : db.inTx = true) (here : db.schema = schemaName)

include inside

/-- A read, and what is made of what it has shown. -/
theorem loads_read {α β ε : Type} {stmt : Statement} {f : Snapshot Pg → α} {g : DbError → ε} {rest : α → Try Pg ε β}
    (h : ∀ a m, (∃ e snap D, m.2.getLast? = some ⟨.snapshot stmt, e, .ok snap, D⟩ ∧ a = f snap) →
      (rest a).run.Holds Recalls (fun m o => p o ∨ Loaded env schemaName m o) (fun _ _ => True) m) :
    Loads env p schemaName
      (ExceptT.adapt g (db.execute (do let snap ← query (M := Pg) stmt; return f snap)) >>= rest).run := by
  intro m
  have shown : Tries Recalls (fun m o => p o ∨ Loaded env schemaName m o)
      (fun a m' => ∃ e snap D, m'.2.getLast? = some ⟨.snapshot stmt, e, .ok snap, D⟩ ∧ a = f snap) (fun _ _ => True)
      (db.execute (do let snap ← query (M := Pg) stmt; return f snap)) m := by
    unfold DbContext.execute
    rw [inside]
    refine tries_bind ⟨Or.inl (hp.snapshot stmt), fun r m' h => ?_⟩
    obtain ⟨D, _, _, _, e, _, hm⟩ := h.eval
    cases r with
    | error e => trivial
    | ok snap =>
      refine tries_pure ⟨e, snap, D, ?_, rfl⟩
      rw [hm, List.getLast?_concat]
  have walk : Tries Recalls (fun m o => p o ∨ Loaded env schemaName m o) (fun _ _ => True) (fun _ _ => True)
      (ExceptT.adapt g (db.execute (do let snap ← query (M := Pg) stmt; return f snap)) >>= rest) m := by
    refine tries_bind (tries_adapt (shown.mono (fun a m' ha => ?_) fun _ _ h => h))
    refine Prog.Holds.mono (h a m' ha) fun r _ _ => ?_
    cases r <;> trivial
  exact Prog.Holds.mono walk fun _ _ _ => trivial

include here

theorem loads_loadConfig (name : String) : Loads env p schemaName (Pipeline.loadConfig env db name).run := by
  subst here
  refine loads_try (loads_of_uses (uses_lift (tasks_configGet hp name))) fun cached => ?_
  split
  next => exact fun m => trivial
  next =>
    refine loads_read hp inside fun found m shown => ?_
    split
    next => trivial
    next config =>
      obtain ⟨e, snap, D, made, hfound⟩ := shown
      have filled : Loaded env db.schema m (.ext (.configCacheSet name config.valuesJson)) :=
        ⟨.config, name, config.valuesJson, rfl, _, made, _, e, snap, D, rfl, config, hfound.symm, rfl⟩
      exact ⟨Or.inr filled, fun _ _ _ => trivial⟩

theorem loads_loadSingleSecret (name : String) : Loads env p schemaName (Pipeline.loadSingleSecret env db name).run := by
  subst here
  refine loads_try (loads_of_uses (uses_lift (tasks_secretGet hp name))) fun cached => ?_
  split
  next => exact fun m => trivial
  next =>
    refine loads_read hp inside fun found m shown => ?_
    split
    next => trivial
    next secret =>
      split
      next => trivial
      next decrypted hd =>
        obtain ⟨e, snap, D, made, hfound⟩ := shown
        have filled : Loaded env db.schema m (.ext (.secretCacheSet name decrypted)) :=
          ⟨.secret, name, decrypted, rfl, _, made, _, e, snap, D, rfl, secret, hfound.symm, hd⟩
        exact ⟨Or.inr filled, fun _ _ _ => trivial⟩

theorem loads_loadEach (names : List String) (secrets : List (String × String)) :
    Loads env p schemaName (Pipeline.loadEach env db names secrets).run := by
  induction names generalizing secrets with
  | nil => exact fun m => trivial
  | cons name names ih =>
    unfold Pipeline.loadEach
    split
    next => exact ih _
    next => exact loads_try (loads_loadSingleSecret hp inside here name) fun _ => ih _

theorem loads_prepare (c : Pipeline.Call) : Loads env p schemaName (Pipeline.prepare env db c) := by
  have failed : ∀ startedAt title e, Loads env p schemaName (do
      Pipeline.failTemplate db c startedAt title e
      return none : Program Pg (Option Pipeline.Prepared)) := fun startedAt title e =>
    loads_of_uses ((tasks_failTemplate hp inside here c startedAt title e).bind fun _ => trivial)
  refine loads_bind (loads_of_uses (tasks_ext hp rfl)) fun startedAt =>
    loads_bind (loads_of_uses (tasks_read hp inside)) fun r => ?_
  split
  next => exact loads_of_uses (Prog.Uses.bind (tasks_finish hp inside here) fun _ => trivial)
  next =>
    refine loads_of_uses (Prog.Uses.bind (tasks_finish hp inside here) fun _ => ?_)
    exact (tasks_line hp inside here _ _ _ _).bind fun _ => trivial
  next endpoint =>
    have config : Loads env p schemaName (Pipeline.loadConfigRef env db endpoint.configRef).run := by
      cases endpoint.configRef with
      | none => exact fun m => trivial
      | some name => exact loads_loadConfig hp inside here name
    refine loads_bind config fun config => ?_
    split
    next => exact failed _ _ _
    next =>
      refine loads_bind (loads_loadEach hp inside here _ _) fun secrets => ?_
      split
      next => exact failed _ _ _
      next =>
        split
        next => exact failed _ _ _
        next => exact fun m => trivial

theorem loads_processExecution {c : Pipeline.Call} (same : c.schemaName = schemaName) :
    Loads env p schemaName (Pipeline.processExecution env db c) := by
  refine loads_bind (loads_prepare hp inside here c) fun r => ?_
  cases r with
  | none => exact fun m => trivial
  | some prepared =>
    refine loads_of_uses ((tasks_line hp inside here _ _ _ _).bind fun _ => ?_)
    exact (tasks_dispatch hp inside here same).bind fun result => tasks_finalize hp inside here c prepared result

end loads

/-- One schema of a worker's loop. -/
theorem loads_claimIn (hp : Tasks p schemaName) (workerId : String) :
    Loads env p schemaName (Poller.claimIn env workerId schemaName) := by
  have giveUp : Loads env p schemaName (do rollbackTx (M := Pg); return false : Program Pg Bool) :=
    loads_of_uses (Prog.Uses.bind (Prog.uses_perform.mpr hp.rollback) fun _ => trivial)
  unfold Poller.claimIn
  split
  next => exact loads_of_uses ⟨hp.halt, fun r => r.elim⟩
  next =>
    refine loads_bind (loads_of_uses (Prog.uses_perform.mpr hp.begin)) fun r => ?_
    cases r with
    | error e => exact fun m => trivial
    | ok _ =>
      have claimed : (Executions.claim ⟨schemaName, env.tablePrefix, true⟩ workerId).run.Uses p := by
        refine uses_inside rfl (uses_try_bind (Prog.uses_perform.mpr (hp.snapshot _)) fun snap => ?_)
        refine tasks_claimFrom hp workerId fun k hk => ?_
        obtain ⟨_, hk⟩ := List.mem_filter.mp ((List.mem_insertionSort _).mp hk)
        simpa using (Bool.and_eq_true_iff.mp hk).1
      refine loads_bind (loads_of_uses claimed) fun claimed => ?_
      split
      next => exact giveUp
      next => exact giveUp
      next exec =>
        refine loads_bind (loads_of_uses (tasks_read hp rfl)) fun found => ?_
        split
        next => exact giveUp
        next => exact loads_bind (loads_of_uses (tasks_finish hp rfl rfl)) fun _ => giveUp
        next job =>
          refine loads_bind (loads_processExecution hp rfl rfl rfl) fun _ => ?_
          exact loads_of_uses (Prog.Uses.bind (Prog.uses_perform.mpr hp.commit) fun _ => trivial)

end Invokr

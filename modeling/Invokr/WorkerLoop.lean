import Invokr.Atomicity
import Invokr.Runs

namespace Invokr

open TxLib

variable {env : Setup}

/-- The worker's settings and the identifier it gives itself. -/
structure WorkerEnv where
  workerId : String
  maxConcurrent : Nat
  pollIntervalMs : Nat
  shutdownTimeoutSec : Nat

/-- Where `run` stands: in its loop, in one of the loop's sleeps, or past it. -/
inductive Position where
  | ticking
  | resting (wake : Nat)
  | acquiring
  | fetching
  | backingOff (wake : Nat)
  | draining (deadline : Nat)
  | stopped (drained : Bool)
  deriving DecidableEq, Repr

/-- A spawned task holds a permit until it is over. -/
structure SpawnedTask where
  thread : Nat
  returned : Bool
  deriving DecidableEq, Repr

structure WorkerLoop where
  now : Nat
  position : Position
  idle : Bool
  cancelled : Bool
  lastTickMs : Nat
  permits : Nat
  tasks : List SpawnedTask
  deriving DecidableEq, Repr

/-- A worker with the database it shares with everyone else. -/
structure Deployment (env : Setup) where
  loop : WorkerLoop
  pool : Pool (service env)

inductive WorkerEvent (env : Setup) where
  | elapse (ms : Nat)
  | cancel
  | tick
  | wake
  | interrupt
  | acquire
  | fetched (schemas : Option (List String)) (thread : Nat)
  | retry
  | returned (thread : Nat)
  | released (thread : Nat)
  | drained
  | timedOut
  | database (a : Action (service env))

/-- The thread has answered or is gone. -/
def Ended {S : System Pg} (p : Pool S) (t : Nat) : Bool :=
  match p.threads t with
  | none => false
  | some th => !th.alive || th.prog.result.isSome

/-- What `claim_and_process` has returned on the thread. -/
def foundOn (p : Pool (service env)) (t : Nat) : Option Bool :=
  match p.answer t with
  | some (_, .polled found) => some found
  | _ => none

/-- The action starts a task of this worker, which only its own loop does. -/
def startsWork (workerId : String) : Action (service env) → Bool
  | .start _ (.work w _) => w = workerId
  | _ => false

section loop

variable (w : WorkerEnv)

/-- `acquire_many` takes the number of permits as a `u32`. -/
def WorkerEnv.drainPermits : Nat := w.maxConcurrent % 2 ^ 32

def WorkerLoop.start : WorkerLoop := ⟨0, .ticking, false, false, 0, w.maxConcurrent, []⟩

/-- A step of the loop, of its tasks or of anything around them; none where it cannot be taken. -/
def Deployment.step (d : Deployment env) : WorkerEvent env → Option (Deployment env)
  | .elapse ms => some { d with loop.now := d.loop.now + ms }
  | .cancel => some { d with loop.cancelled := true }
  | .tick =>
    if d.loop.position = .ticking then
      some { d with
        loop.lastTickMs := d.loop.now
        loop.position := if d.loop.idle then .resting (d.loop.now + w.pollIntervalMs) else .acquiring }
    else none
  | .wake =>
    match d.loop.position with
    | .resting wake => if wake ≤ d.loop.now then some { d with loop.idle := false, loop.position := .acquiring } else none
    | _ => none
  | .interrupt =>
    match d.loop.cancelled, d.loop.position with
    | true, .resting _ | true, .acquiring | true, .backingOff _ =>
      some { d with loop.position := .draining (d.loop.now + w.shutdownTimeoutSec * 1000) }
    | _, _ => none
  | .acquire =>
    if d.loop.position = .acquiring ∧ 0 < d.loop.permits then
      some { d with loop.permits := d.loop.permits - 1, loop.position := .fetching }
    else none
  | .fetched none _ =>
    if d.loop.position = .fetching then
      some { d with
        loop.permits := d.loop.permits + 1
        loop.position := .backingOff (d.loop.now + w.pollIntervalMs) }
    else none
  | .fetched (some schemas) t =>
    if d.loop.position = .fetching ∧ (d.pool.threads t).isNone then
      some ⟨{ d.loop with position := .ticking, tasks := ⟨t, false⟩ :: d.loop.tasks },
        d.pool.act (.start t (.work w.workerId schemas))⟩
    else none
  | .retry =>
    match d.loop.position with
    | .backingOff wake => if wake ≤ d.loop.now then some { d with loop.position := .ticking } else none
    | _ => none
  | .returned t =>
    match foundOn d.pool t with
    | some found =>
      if ⟨t, false⟩ ∈ d.loop.tasks then
        some { d with
          loop.idle := d.loop.idle || !found
          loop.tasks := d.loop.tasks.map fun task => if task.thread = t then ⟨t, true⟩ else task }
      else none
    | none => none
  | .released t =>
    if (d.loop.tasks.any fun task => task.thread = t && (task.returned || !(d.pool.threads t).any Thread.alive)) then
      some { d with
        loop.permits := d.loop.permits + 1
        loop.tasks := d.loop.tasks.filter fun task => task.thread ≠ t }
    else none
  | .drained =>
    match d.loop.position with
    | .draining _ => if w.drainPermits ≤ d.loop.permits then some { d with loop.position := .stopped true } else none
    | _ => none
  | .timedOut =>
    match d.loop.position with
    | .draining deadline => if deadline ≤ d.loop.now then some { d with loop.position := .stopped false } else none
    | _ => none
  | .database a => if startsWork w.workerId a then none else some { d with pool := d.pool.act a }

/-- A step that cannot be taken leaves everything as it is. -/
def Deployment.run (events : List (WorkerEvent env)) : Deployment env :=
  events.foldl (fun d e => (d.step w e).getD d) ⟨.start w, Pool.empty (service env)⟩

end loop

section endings

variable {S : System Pg} {p : Pool S} {t : Nat}

theorem ended_update {u : Nat} {th : Thread S} {v : Thread S} (hu : p.threads u = some th) (h : Ended p t = true)
    (finished : u = t → th.alive = true → th.prog.result.isSome = true → v.alive = false ∨ v.prog.result.isSome = true)
    (gone : th.alive = false → v.alive = false) (w : World Pg) : Ended ⟨w, Function.update p.threads u (some v)⟩ t = true := by
  unfold Ended at h ⊢
  by_cases ht : t = u
  · subst ht
    simp only [hu, Bool.or_eq_true, Bool.not_eq_true'] at h
    simp only [Function.update_self, Bool.or_eq_true, Bool.not_eq_true']
    rcases h with hd | hr
    · exact Or.inl (gone hd)
    · cases ha : th.alive with
      | false => exact Or.inl (gone ha)
      | true => exact finished rfl ha hr
  · simpa [Function.update_of_ne ht] using h

/-- A thread that has ended has ended for good. -/
theorem ended_act (h : Ended p t = true) (a : Action S) : Ended (p.act a) t = true := by
  cases a with
  | start u req =>
    simp only [Pool.act]
    split
    next => exact h
    next hn =>
      have ht : t ≠ u := by
        rintro rfl
        simp [Ended, hn] at h
      simpa [Ended, Function.update_of_ne ht] using h
  | step u e =>
    simp only [Pool.act]
    split
    next => exact h
    next th hu =>
      split
      next ha =>
        unfold Pool.advance
        split
        next => exact h
        next => exact ended_update hu h (fun _ _ _ => Or.inl rfl) (fun _ => rfl) _
        next o next _ hp =>
          split
          next => exact h
          next r _ =>
            refine ended_update (v := { th with prog := next r }) hu h (fun _ _ hr => ?_) (fun hd => hd) _
            rw [hp] at hr
            cases hr
      next => exact h
  | kill u =>
    simp only [Pool.act]
    split
    next => exact h
    next th hu =>
      split
      next => exact ended_update hu h (fun _ _ _ => Or.inl rfl) (fun _ => rfl) _
      next => exact h
  | tick d => exact h

end endings

theorem length_without {tasks : List SpawnedTask} (distinct : (tasks.map SpawnedTask.thread).Nodup) {task : SpawnedTask}
    (h : task ∈ tasks) : (tasks.filter fun other => other.thread ≠ task.thread).length + 1 = tasks.length := by
  induction tasks with
  | nil => exact absurd h List.not_mem_nil
  | cons head tasks ih =>
    obtain ⟨fresh, rest⟩ := List.nodup_cons.mp distinct
    by_cases hd : head.thread = task.thread
    · have others : tasks.filter (fun other => other.thread ≠ task.thread) = tasks := by
        refine List.filter_eq_self.mpr fun other hm => ?_
        have : other.thread ≠ head.thread := fun he => fresh (List.mem_map.mpr ⟨other, hm, he⟩)
        simpa [hd] using this
      rw [List.filter_cons_of_neg (by simpa using hd), others, List.length_cons]
    · have hm : task ∈ tasks := by
        rcases List.mem_cons.mp h with rfl | hm
        · exact absurd rfl hd
        · exact hm
      have := ih rest hm
      simp [hd] at this ⊢
      omega

/-- The permit that the loop itself holds. -/
def WorkerLoop.holding (l : WorkerLoop) : Nat := if l.position = .fetching then 1 else 0

/-- Every permit is free, the loop's or a task's, and the tasks are the worker's threads that go on. -/
structure Deployment.Sane (w : WorkerEnv) (d : Deployment env) : Prop where
  reached : ∃ acts, d.pool = after acts
  permits : d.loop.permits + d.loop.holding + d.loop.tasks.length = w.maxConcurrent
  distinct : (d.loop.tasks.map SpawnedTask.thread).Nodup
  started : ∀ task ∈ d.loop.tasks, (d.pool.threads task.thread).isSome = true
  returned : ∀ task ∈ d.loop.tasks, task.returned = true → Ended d.pool task.thread = true
  accounted : ∀ t th schemas, d.pool.threads t = some th → th.req = .work w.workerId schemas → Ended d.pool t = false →
    t ∈ d.loop.tasks.map SpawnedTask.thread
  drained : d.loop.position = .stopped true → w.maxConcurrent < 2 ^ 32 → d.loop.tasks = []

section sane

variable {w : WorkerEnv} {d d' : Deployment env}

theorem sane_start : Deployment.Sane w (⟨.start w, Pool.empty (service env)⟩ : Deployment env) where
  reached := ⟨[], rfl⟩
  permits := rfl
  distinct := List.nodup_nil
  started _ h := absurd h List.not_mem_nil
  returned _ h := absurd h List.not_mem_nil
  accounted _ _ _ h := by cases h
  drained h := by cases h

/-- The loop moves on and leaves its tasks alone. -/
theorem Deployment.Sane.moves (h : d.Sane w) {l : WorkerLoop} (tasks : l.tasks = d.loop.tasks)
    (permits : l.permits + l.holding = d.loop.permits + d.loop.holding)
    (stops : l.position = .stopped true → w.maxConcurrent < 2 ^ 32 → d.loop.tasks = []) :
    Deployment.Sane w ⟨l, d.pool⟩ where
  reached := h.reached
  permits := by
    have := h.permits
    simp only [tasks]
    omega
  distinct := by simpa [tasks] using h.distinct
  started task ht := h.started task (tasks ▸ ht)
  returned task ht := h.returned task (tasks ▸ ht)
  accounted t th schemas ht hr he := by
    simp only [tasks]
    exact h.accounted t th schemas ht hr he
  drained hp hm := by
    simp only [tasks]
    exact stops hp hm

/-- An action of the pool that starts no task of the worker. -/
theorem Deployment.Sane.serves (h : d.Sane w) {a : Action (service env)} (other : startsWork w.workerId a = false) :
    Deployment.Sane w ⟨d.loop, d.pool.act a⟩ where
  reached := by
    obtain ⟨acts, hacts⟩ := h.reached
    refine ⟨acts ++ [a], ?_⟩
    rw [hacts]
    exact (after_snoc _ _).symm
  permits := h.permits
  distinct := h.distinct
  started task ht := by
    obtain ⟨th, hth⟩ := Option.isSome_iff_exists.mp (h.started task ht)
    obtain ⟨th', hth', _⟩ := Pool.act_req hth a
    exact Option.isSome_iff_exists.mpr ⟨th', hth'⟩
  returned task ht hr := ended_act (h.returned task ht hr) a
  accounted t th schemas ht hr he := by
    cases hold : d.pool.threads t with
    | none =>
      rw [Pool.act_started hold ht, hr] at other
      simp [startsWork] at other
    | some th₀ =>
      obtain ⟨th', hth', same⟩ := Pool.act_req hold a
      rw [ht] at hth'
      cases hth'
      refine h.accounted t th₀ schemas hold (same.symm.trans hr) ?_
      by_contra hn
      rw [ended_act (by simpa using hn) a] at he
      cases he
  drained := h.drained

/-- The loop gives its permit to a task on a new thread. -/
theorem Deployment.Sane.spawns (h : d.Sane w) {schemas : List String} {t : Nat} (hp : d.loop.position = .fetching)
    (free : d.pool.threads t = none) :
    Deployment.Sane w ⟨{ d.loop with position := .ticking, tasks := ⟨t, false⟩ :: d.loop.tasks },
      d.pool.act (.start t (.work w.workerId schemas))⟩ where
  reached := by
    obtain ⟨acts, hacts⟩ := h.reached
    refine ⟨acts ++ [.start t (.work w.workerId schemas)], ?_⟩
    rw [hacts]
    exact (after_snoc acts (.start t (.work w.workerId schemas))).symm
  permits := by
    have all := h.permits
    simp only [WorkerLoop.holding, hp, ↓reduceIte] at all
    simp only [WorkerLoop.holding, reduceCtorEq, ↓reduceIte, List.length_cons]
    omega
  distinct := by
    refine List.nodup_cons.mpr ⟨fun ht => ?_, h.distinct⟩
    obtain ⟨task, hm, rfl⟩ := List.mem_map.mp ht
    have := h.started task hm
    rw [free] at this
    cases this
  started task ht := by
    rcases List.mem_cons.mp ht with rfl | ht
    · simp [Pool.act, free]
    · obtain ⟨th, hth⟩ := Option.isSome_iff_exists.mp (h.started task ht)
      obtain ⟨th', hth', _⟩ := Pool.act_req hth (.start t (.work w.workerId schemas))
      exact Option.isSome_iff_exists.mpr ⟨th', hth'⟩
  returned task ht hr := by
    rcases List.mem_cons.mp ht with rfl | ht
    · cases hr
    · exact ended_act (h.returned task ht hr) _
  accounted u th schemas' hu hr he := by
    cases hold : d.pool.threads u with
    | none =>
      obtain ⟨rfl, _⟩ := Action.start.inj (Pool.act_started hold hu)
      exact List.mem_cons_self ..
    | some th₀ =>
      obtain ⟨th', hth', same⟩ := Pool.act_req hold (.start t (.work w.workerId schemas))
      rw [hu] at hth'
      cases hth'
      refine List.mem_cons_of_mem _ (h.accounted u th₀ schemas' hold (same.symm.trans hr) ?_)
      by_contra hn
      rw [ended_act (by simpa using hn) _] at he
      cases he
  drained hstop := by cases hstop

theorem ended_of_foundOn {p : Pool (service env)} {t : Nat} {found : Bool} (h : foundOn p t = some found) : Ended p t = true := by
  unfold foundOn at h
  split at h
  next ha =>
    unfold Pool.answer at ha
    unfold Ended
    split at ha
    next => cases ha
    next th hth =>
      split at ha
      next =>
        obtain ⟨_, hr, _⟩ := Option.map_eq_some_iff.mp ha
        simp [hth, hr]
      next => cases ha
  next => cases h

/-- A task notes what `claim_and_process` has returned to it. -/
theorem Deployment.Sane.returns (h : d.Sane w) {t : Nat} {idle : Bool} (finished : Ended d.pool t = true) :
    Deployment.Sane w { d with
      loop.idle := idle
      loop.tasks := d.loop.tasks.map fun task => if task.thread = t then ⟨t, true⟩ else task } := by
  have threads : (d.loop.tasks.map fun task => if task.thread = t then (⟨t, true⟩ : SpawnedTask) else task).map
      SpawnedTask.thread = d.loop.tasks.map SpawnedTask.thread := by
    rw [List.map_map]
    refine List.map_congr_left fun task _ => ?_
    by_cases ht : task.thread = t <;> simp [ht]
  have from_old : ∀ {task}, task ∈ (d.loop.tasks.map fun task => if task.thread = t then (⟨t, true⟩ : SpawnedTask) else task) →
      ∃ old ∈ d.loop.tasks, old.thread = task.thread ∧ (task = old ∨ task.thread = t) := by
    intro task ht
    obtain ⟨old, hold, rfl⟩ := List.mem_map.mp ht
    by_cases hq : old.thread = t
    · exact ⟨old, hold, by simp [hq], Or.inr (by simp [hq])⟩
    · exact ⟨old, hold, by simp [hq], Or.inl (by simp [hq])⟩
  exact
    { reached := h.reached
      permits := by
        simp only [WorkerLoop.holding, List.length_map]
        exact h.permits
      distinct := by
        rw [threads]
        exact h.distinct
      started := fun task ht => by
        obtain ⟨old, hold, same, _⟩ := from_old ht
        rw [← same]
        exact h.started old hold
      returned := fun task ht hr => by
        obtain ⟨old, hold, _, rfl | rfl⟩ := from_old ht
        · exact h.returned _ hold hr
        · exact finished
      accounted := fun u th schemas hu hr he => by
        rw [threads]
        exact h.accounted u th schemas hu hr he
      drained := fun hstop hm => by simp [h.drained hstop hm] }

/-- A task that is over gives its permit back. -/
theorem Deployment.Sane.releases (h : d.Sane w) {task : SpawnedTask} (mem : task ∈ d.loop.tasks)
    (finished : Ended d.pool task.thread = true) :
    Deployment.Sane w { d with
      loop.permits := d.loop.permits + 1
      loop.tasks := d.loop.tasks.filter fun other => other.thread ≠ task.thread } where
  reached := h.reached
  permits := by
    have all := h.permits
    have one : (d.loop.tasks.filter fun other => other.thread ≠ task.thread).length + 1 = d.loop.tasks.length :=
      length_without h.distinct mem
    simp only [WorkerLoop.holding] at all ⊢
    omega
  distinct := List.Nodup.sublist (List.Sublist.map _ List.filter_sublist) h.distinct
  started other ht := h.started other (List.mem_of_mem_filter ht)
  returned other ht := h.returned other (List.mem_of_mem_filter ht)
  accounted u th schemas hu hr he := by
    obtain ⟨other, hother, rfl⟩ := List.mem_map.mp (h.accounted u th schemas hu hr he)
    refine List.mem_map_of_mem (List.mem_filter.mpr ⟨hother, ?_⟩)
    by_cases same : other.thread = task.thread
    · rw [same, finished] at he
      cases he
    · simpa using same
  drained hstop hm := by simp [h.drained hstop hm]

theorem Deployment.Sane.step (h : d.Sane w) {e : WorkerEvent env} (hs : d.step w e = some d') : d'.Sane w := by
  cases e with
  | elapse ms =>
    cases hs
    exact h.moves rfl rfl h.drained
  | cancel =>
    cases hs
    exact h.moves rfl rfl h.drained
  | tick =>
    simp only [Deployment.step] at hs
    split at hs
    next hp =>
      cases hs
      refine h.moves rfl ?_ ?_
      · simp only [WorkerLoop.holding, hp]
        split <;> simp
      · intro hstop
        split at hstop <;> cases hstop
    next => cases hs
  | wake =>
    simp only [Deployment.step] at hs
    split at hs
    next wake hp =>
      split at hs
      next =>
        cases hs
        exact h.moves rfl (by simp [WorkerLoop.holding, hp]) fun hstop => by cases hstop
      next => cases hs
    next => cases hs
  | interrupt =>
    have draining : ∀ until', d.loop.position ≠ .fetching → some { d with loop.position := .draining until' } = some d' →
        d'.Sane w := by
      rintro until' hp ⟨⟩
      exact h.moves rfl (by simp [WorkerLoop.holding, hp]) fun hstop => by cases hstop
    simp only [Deployment.step] at hs
    split at hs
    next hp => exact draining _ (by simp [hp]) hs
    next hp => exact draining _ (by simp [hp]) hs
    next hp => exact draining _ (by simp [hp]) hs
    next => cases hs
  | acquire =>
    simp only [Deployment.step] at hs
    split at hs
    next hp =>
      cases hs
      refine h.moves rfl ?_ fun hstop => by cases hstop
      have := hp.2
      simp only [WorkerLoop.holding, hp.1, ↓reduceIte, reduceCtorEq]
      omega
    next => cases hs
  | fetched schemas t =>
    cases schemas with
    | none =>
      simp only [Deployment.step] at hs
      split at hs
      next hp =>
        cases hs
        refine h.moves rfl ?_ fun hstop => by cases hstop
        simp [WorkerLoop.holding, hp]
      next => cases hs
    | some schemas =>
      simp only [Deployment.step] at hs
      split at hs
      next hp =>
        cases hs
        exact h.spawns hp.1 (Option.isNone_iff_eq_none.mp hp.2)
      next => cases hs
  | retry =>
    simp only [Deployment.step] at hs
    split at hs
    next hp =>
      split at hs
      next =>
        cases hs
        exact h.moves rfl (by simp [WorkerLoop.holding, hp]) fun hstop => by cases hstop
      next => cases hs
    next => cases hs
  | returned t =>
    simp only [Deployment.step] at hs
    split at hs
    next found hfound =>
      split at hs
      next =>
        cases hs
        exact h.returns (ended_of_foundOn hfound)
      next => cases hs
    next => cases hs
  | released t =>
    simp only [Deployment.step] at hs
    split at hs
    next hany =>
      cases hs
      obtain ⟨task, hm, hover⟩ := List.any_eq_true.mp hany
      obtain ⟨ht, hover⟩ := Bool.and_eq_true_iff.mp hover
      obtain rfl : task.thread = t := by simpa using ht
      refine h.releases hm ?_
      rcases Bool.or_eq_true_iff.mp hover with hr | hdead
      · exact h.returned task hm hr
      · obtain ⟨th, hth⟩ := Option.isSome_iff_exists.mp (h.started task hm)
        simpa [Ended, hth] using Or.inl hdead
    next => cases hs
  | drained =>
    simp only [Deployment.step] at hs
    split at hs
    next hp =>
      split at hs
      next hfree =>
        cases hs
        refine h.moves rfl (by simp [WorkerLoop.holding, hp]) fun _ hm => ?_
        have all := h.permits
        rw [WorkerEnv.drainPermits, Nat.mod_eq_of_lt hm] at hfree
        exact List.length_eq_zero_iff.mp (by omega)
      next => cases hs
    next => cases hs
  | timedOut =>
    simp only [Deployment.step] at hs
    split at hs
    next hp =>
      split at hs
      next =>
        cases hs
        exact h.moves rfl (by simp [WorkerLoop.holding, hp]) fun hstop => by cases hstop
      next => cases hs
    next => cases hs
  | database a =>
    simp only [Deployment.step] at hs
    split at hs
    next => cases hs
    next other =>
      cases hs
      exact h.serves (by simpa using other)

theorem sane_run (w : WorkerEnv) (events : List (WorkerEvent env)) : (Deployment.run w events : Deployment env).Sane w := by
  induction events using List.reverseRecOn with
  | nil => exact sane_start
  | append_singleton events e ih =>
    have one : (Deployment.run w (events ++ [e]) : Deployment env) =
        ((Deployment.run w events).step w e).getD (Deployment.run w events) := by
      simp [Deployment.run, List.foldl_append]
    rw [one]
    cases hs : (Deployment.run w events).step w e with
    | none => exact ih
    | some d => exact ih.step hs

end sane

section closing

theorem holds_out {α : Type} {o : Op Pg} (closes : o = .commit ∨ o = .rollback) {f : o.Reply → α} (m : Memory Pg) :
    (Prog.call o fun r => .ret (f r) : Program Pg α).Holds Recalls (fun _ _ => True) (fun _ m' => m'.1 = none) m := by
  refine ⟨trivial, fun r m' hr => ?_⟩
  obtain ⟨_, _, _, _, _, he, _⟩ := hr.eval
  rcases closes with rfl | rfl
  · simp only [Op.eval] at he
    split at he
    next => exact (Prod.mk.inj (Option.some.inj he)).2.symm
    next => split at he <;> exact (Prod.mk.inj (Option.some.inj he)).2.symm
  · exact (Prod.mk.inj (Option.some.inj he)).2.symm

/-- After each schema the worker has no transaction. -/
theorem claimIn_out (workerId schemaName : String) {m : Memory Pg} (hm : m.1 = none) :
    (Poller.claimIn env workerId schemaName).Holds Recalls (fun _ _ => True) (fun _ m' => m'.1 = none) m := by
  have giveUp : ∀ m : Memory Pg, (do rollbackTx (M := Pg); return false : Program Pg Bool).Holds Recalls (fun _ _ => True)
      (fun _ m' => m'.1 = none) m := fun m => holds_out (Or.inr rfl) m
  have free : ∀ {α β : Type} {p : Program Pg α} {f : α → Program Pg β} {post : β → Memory Pg → Prop} (m : Memory Pg),
      (∀ a m', (f a).Holds Recalls (fun _ _ => True) post m') → (p >>= f).Holds Recalls (fun _ _ => True) post m :=
    fun m hf => Prog.holds_bind.mpr ((Prog.holds_true _ m).mono fun a m' _ => hf a m')
  unfold Poller.claimIn
  split
  next => exact ⟨trivial, fun r => r.elim⟩
  next =>
    refine Prog.holds_bind.mpr ⟨trivial, fun r m₁ hr => ?_⟩
    cases r with
    | error e =>
      obtain ⟨_, _, _, _, _, he, _⟩ := hr.eval
      rw [hm] at he
      simp only [Op.eval] at he
      split at he
      next => exact (Prod.mk.inj (Option.some.inj he)).2.symm
      next => cases he
    | ok _ =>
      refine free m₁ fun claimed m₂ => ?_
      split
      next => exact giveUp m₂
      next => exact giveUp m₂
      next exec =>
        refine free m₂ fun found m₃ => ?_
        split
        next => exact giveUp m₃
        next => exact free m₃ fun _ m₄ => giveUp m₄
        next job => exact free m₃ fun _ m₄ => holds_out (Or.inl rfl) m₄

theorem work_out (workerId : String) (schemas : List String) {m : Memory Pg} (hm : m.1 = none) :
    (Poller.claimAndProcess env workerId schemas).Holds Recalls (fun _ _ => True) (fun _ m' => m'.1 = none) m := by
  induction schemas generalizing m with
  | nil => exact hm
  | cons schemaName schemas ih =>
    refine Prog.holds_bind.mpr ((claimIn_out workerId schemaName hm).mono fun found m' hm' => ?_)
    split
    next => exact hm'
    next => exact ih hm'

/-- A worker's thread that has ended has no transaction open. -/
theorem ended_out {acts : List (Action (service env))} {t : Nat} {th : Thread (service env)}
    (ht : (after acts).threads t = some th) (work : isWork th.req = true) (h : Ended (after acts) t = true) :
    (after acts).world.sessions t = none := by
  have programs : ∀ req : Request env, req.program.Holds Recalls (fun _ _ => True)
      (fun _ m => isWork req = true → m.1 = none) (none, []) := by
    intro req
    cases req with
    | work workerId schemas =>
      exact Prog.holds_bind.mpr ((work_out workerId schemas rfl).mono fun _ _ hm _ => hm)
    | _ => exact (Prog.holds_true _ _).mono fun _ _ _ hw => by cases hw
  cases ha : th.alive with
  | false => exact ((keeps_all acts).dead t th ht ha).1
  | true =>
    have finished : th.prog.result.isSome = true := by simpa [Ended, ht, ha] using h
    obtain ⟨out, hout⟩ := Option.isSome_iff_exists.mp finished
    have answer : (after acts).answer t = some (th.req, out) := by simp [Pool.answer, ht, ha, hout]
    exact Pool.resumed_answer (S := service env) programs answer work

end closing

section guarantees

variable (w : WorkerEnv) (events : List (WorkerEvent env))

/-- However the loop, its tasks and the others interleave, no more of the worker's threads go on or
hold a transaction open than it has permits. -/
theorem worker_concurrency_bounded (ts : List Nat) (distinct : ts.Nodup)
    (own : ∀ t ∈ ts, ∃ th schemas, (Deployment.run w events).pool.threads t = some th ∧ th.req = .work w.workerId schemas ∧
      (Ended (Deployment.run w events).pool t = false ∨ ((Deployment.run w events).pool.world.sessions t).isSome = true)) :
    ts.length ≤ w.maxConcurrent := by
  have sane := sane_run w events
  obtain ⟨acts, hacts⟩ := sane.reached
  have counted : ts ⊆ (Deployment.run w events).loop.tasks.map SpawnedTask.thread := by
    intro t ht
    obtain ⟨th, schemas, hth, hreq, active⟩ := own t ht
    refine sane.accounted t th schemas hth hreq ?_
    rcases active with going | opened
    · exact going
    · by_contra finished
      rw [hacts] at hth opened finished
      rw [ended_out hth (by rw [hreq]; rfl) (by simpa using finished)] at opened
      cases opened
  have bound := (List.subperm_of_subset distinct counted).length_le
  have all := sane.permits
  rw [List.length_map] at bound
  omega

/-- A worker that stops before its time-out has left nothing behind: every task of it is over, and it
has no transaction open and no row locked. -/
theorem worker_stops_clean (small : w.maxConcurrent < 2 ^ 32)
    (stopped : (Deployment.run w events).loop.position = .stopped true) {t : Nat} {th : Thread (service env)}
    {schemas : List String} (running : (Deployment.run w events).pool.threads t = some th)
    (own : th.req = .work w.workerId schemas) :
    Ended (Deployment.run w events).pool t = true ∧ (Deployment.run w events).pool.world.sessions t = none ∧
      ∀ tb k, (Deployment.run w events).pool.world.locks tb k ≠ some t := by
  have sane := sane_run w events
  obtain ⟨acts, hacts⟩ := sane.reached
  have finished : Ended (Deployment.run w events).pool t = true := by
    by_contra going
    have counted := sane.accounted t th schemas running own (by simpa using going)
    rw [sane.drained stopped small] at counted
    exact absurd counted List.not_mem_nil
  rw [hacts] at running finished ⊢
  have closed := ended_out running (by rw [own]; rfl) finished
  refine ⟨finished, closed, fun tb k locked => ?_⟩
  obtain ⟨s, _, hs, _⟩ := (keeps_all acts).sound.locked tb k t locked
  rw [closed] at hs
  cases hs

end guarantees

section sample

def sampleWorker : WorkerEnv := ⟨"worker-1", 2, 200, 5⟩

/-- The loop spawns two tasks. The workspace has no executions. -/
def twoTasks : List (WorkerEvent sample) :=
  [.tick, .acquire, .fetched (some ["acme"]) 1, .tick, .acquire, .fetched (some ["acme"]) 2]

/-- The tasks come back, the token is cancelled in the idle sleep and the permits are all free. -/
def twoReturned : List (WorkerEvent sample) :=
  twoTasks ++ ((steps 1 5 (.response 200 "") ++ steps 2 5 (.response 200 "")).map WorkerEvent.database) ++
    [.returned 1, .released 1, .tick, .returned 2, .elapse 50, .cancel, .interrupt, .released 2, .drained]

def worksFor (workerId : String) : Request sample → Bool
  | .work w _ => w = workerId
  | _ => false

theorem worksFor_iff {workerId : String} {req : Request sample} (h : worksFor workerId req = true) :
    ∃ schemas, req = .work workerId schemas := by
  cases req with
  | work w schemas => exact ⟨schemas, by simpa [worksFor] using h⟩
  | _ => cases h

theorem worker_concurrency_bounded_two : [1, 2].length ≤ sampleWorker.maxConcurrent := by
  have going : ∀ t ∈ [1, 2], ((Deployment.run sampleWorker twoTasks).pool.threads t).any (fun th => worksFor "worker-1" th.req) =
      true ∧ Ended (Deployment.run sampleWorker twoTasks).pool t = false := by decide +kernel
  refine worker_concurrency_bounded sampleWorker twoTasks [1, 2] (by decide) fun t ht => ?_
  obtain ⟨own, active⟩ := going t ht
  obtain ⟨th, hth, hreq⟩ := (Option.any_eq_true _ _).mp own
  obtain ⟨schemas, hw⟩ := worksFor_iff hreq
  exact ⟨th, schemas, hth, hw, Or.inl active⟩

theorem worker_stops_clean_two : Ended (Deployment.run sampleWorker twoReturned).pool 1 = true ∧
    (Deployment.run sampleWorker twoReturned).pool.world.sessions 1 = none ∧
    ∀ tb k, (Deployment.run sampleWorker twoReturned).pool.world.locks tb k ≠ some 1 := by
  have own : ((Deployment.run sampleWorker twoReturned).pool.threads 1).any (fun th => worksFor "worker-1" th.req) = true := by
    decide +kernel
  have stopped : (Deployment.run sampleWorker twoReturned).loop.position = .stopped true := by decide +kernel
  obtain ⟨th, hth, hreq⟩ := (Option.any_eq_true _ _).mp own
  obtain ⟨schemas, hw⟩ := worksFor_iff hreq
  exact worker_stops_clean sampleWorker twoReturned (by decide) stopped hth hw

end sample

end Invokr

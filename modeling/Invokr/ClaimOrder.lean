import Invokr.WorkerCalls
import Invokr.WorkerLoop

namespace TxLib

variable {M : Model} {S : System M} {acts acts' : List (Action S)} {t : Nat}

theorem transcript_mono (le : acts <+: acts') (t : Nat) : transcript acts t <+: transcript acts' t := by
  obtain ⟨rest, rfl⟩ := le
  induction rest using List.reverseRecOn with
  | nil => simp
  | append_singleton rest a ih =>
    rw [← List.append_assoc, transcript_snoc]
    exact ih.trans (List.prefix_append _ _)

/-- The step at which a thread has made a call of its transcript. -/
theorem transcript_split {l l' : List (Exchange M)} {x : Exchange M} (h : transcript acts t = l ++ x :: l') :
    ∃ before, before ++ [.step t x.env] <+: acts ∧ transcript before t = l ∧
      (∃ req, ((Pool.empty S).run before).next t = some (req, x.op)) ∧
      (∃ w, ((Pool.empty S).run before).world.exec t x.op x.env = some (w, x.reply)) ∧
      ((Pool.empty S).run before).world.rows = x.rows := by
  induction acts using List.reverseRecOn generalizing l' with
  | nil =>
    have none : ([] : List (Exchange M)) = l ++ x :: l' := h
    simp at none
  | append_singleton acts a ih =>
    rw [transcript_snoc] at h
    have earlier : ∀ l'', transcript acts t = l ++ x :: l'' → ∃ before, before ++ [.step t x.env] <+: acts ++ [a] ∧
        transcript before t = l ∧ (∃ req, ((Pool.empty S).run before).next t = some (req, x.op)) ∧
        (∃ w, ((Pool.empty S).run before).world.exec t x.op x.env = some (w, x.reply)) ∧
        ((Pool.empty S).run before).world.rows = x.rows := by
      intro l'' h
      obtain ⟨before, le, rest⟩ := ih h
      exact ⟨before, le.trans (List.prefix_append _ _), rest⟩
    rcases exchange_cases ((Pool.empty S).run acts) t a with hx | ⟨y, req, w, _, _, _, _, hx⟩
    · rw [hx, List.append_nil] at h
      exact earlier _ h
    · rcases List.eq_nil_or_concat l' with rfl | ⟨l'', z, rfl⟩
      · rw [hx] at h
        obtain ⟨hl, hy⟩ := List.append_inj' h rfl
        have mem : x ∈ ((Pool.empty S).run acts).exchange t a := by
          rw [hx, List.singleton_inj.mp hy]
          exact List.mem_singleton.mpr rfl
        obtain ⟨rfl, req, hn, he, hrows⟩ := mem_exchange.mp mem
        exact ⟨acts, List.prefix_refl _, hl, ⟨req, hn⟩, he, hrows⟩
      · rw [hx, List.concat_eq_append, ← List.cons_append, ← List.append_assoc] at h
        exact earlier _ (List.append_inj' h rfl).1

/-- Of two calls of a transcript the later one was made later in the run. -/
theorem transcript_later {before later : List (Action S)} (le : before <+: acts) (le' : later <+: acts)
    (h : (transcript before t).length < (transcript later t).length) : before.length < later.length := by
  by_contra early
  have prior : later <+: before := List.prefix_of_prefix_length_le le' le (by omega)
  have := (transcript_mono prior t).length_le
  omega

/-- An `UPDATE` that skips locked rows has found none to change. -/
theorem skipped_update {w w' : World M} {stmt : M.Stmt} {tb : M.Tbl} {k : M.Key} {keep : Int → M.Row tb → Bool}
    {patch : Patch M tb} {e : Env M} (h : w.exec t (.update stmt tb k true keep patch) e = some (w', .ok none)) :
    ∃ s, w.sessions t = some s ∧ (w.foreign t tb k = true ∨ ∀ r, s.visible w.rows tb k = some r → keep s.now r = false) := by
  obtain ⟨_, s', he, _⟩ := World.exec_eq h
  have he := Option.some.inj he
  unfold inTx at he
  split at he
  next => cases he
  next s hs =>
    refine ⟨s, hs, ?_⟩
    split at he
    next => cases he
    next =>
      split at he
      next => cases he
      next =>
        have found := (Prod.mk.inj he).1
        unfold updateRow at found
        split at found
        next locked => exact Or.inl (by simpa using locked)
        next =>
          refine Or.inr fun r hr => ?_
          rw [hr] at found
          by_contra due
          simp only [Bool.not_eq_false] at due
          simp only [due, if_true] at found
          split at found
          next => cases found
          next => split at found <;> cases found

end TxLib

namespace Invokr

open TxLib

variable {env : Setup} {workerId schemaName : String} {snap : Snapshot Pg} {l : List (Exchange Pg)}

/-- The claim's statement has read the snapshot between the calls `l` and `l'`. -/
def ClaimRead (snap : Snapshot Pg) (l l' all : List (Exchange Pg)) : Prop :=
  ∃ e, all = l ++ ⟨.snapshot .claim, e, .ok snap, snap.row⟩ :: l' ∧ Indexed snap.row snap.keys

/-- One of the calls has tried the execution for the claim, in vain. -/
def TriedFor (workerId : String) (l : List (Exchange Pg)) (k : Key) : Prop :=
  ∃ e D, (⟨.update .claim .executions k true Executions.eligible (Executions.claimPatch workerId), e, .ok none, D⟩ :
    Exchange Pg) ∈ l

/-- The claim has tried all candidates before this one. -/
def InTurn (workerId schemaName : String) (all : List (Exchange Pg)) (k : Key) : Prop :=
  ∃ l l' snap ks ks', ClaimRead snap l l' all ∧ Executions.candidates snap schemaName = ks ++ k :: ks' ∧
    ∀ k' ∈ ks, TriedFor workerId l' k'

/-- The claim has tried all candidates. -/
def TriedAll (workerId schemaName : String) (all : List (Exchange Pg)) : Prop :=
  ∃ l l' snap, ClaimRead snap l l' all ∧ ∀ k ∈ Executions.candidates snap schemaName, TriedFor workerId l' k

/-- What holds at a worker's calls: an execution is tried for the claim in its turn. -/
def TakesTurns (workerId schemaName : String) (m : Memory Pg) (o : Op Pg) : Prop :=
  ∀ k skip keep patch, o = .update .claim .executions k skip keep patch → InTurn workerId schemaName m.2 k

/-- The call has succeeded, and has changed no row if it is an `UPDATE`. -/
def Exchange.idle (x : Exchange Pg) : Bool :=
  match x with
  | ⟨.begin, _, .error _, _⟩ => false
  | ⟨.snapshot _, _, .error _, _⟩ => false
  | ⟨.update .., _, .error _, _⟩ => false
  | ⟨.update .., _, .ok (some _), _⟩ => false
  | _ => true

/-- Not all calls have been idle. -/
def Busy (l : List (Exchange Pg)) : Prop := ∃ x ∈ l, Exchange.idle x = false

theorem Busy.later {l l' : List (Exchange Pg)} (h : Busy l) (le : l <+: l') : Busy l' := by
  obtain ⟨x, hx, busy⟩ := h
  exact ⟨x, le.subset hx, busy⟩

theorem busy_last {x : Exchange Pg} (h : Exchange.idle x = false) : Busy (l ++ [x]) :=
  ⟨x, List.mem_append_right _ (List.mem_singleton.mpr rfl), h⟩

theorem TriedFor.later {l l' : List (Exchange Pg)} {k : Key} (h : TriedFor workerId l k) (le : l <+: l') :
    TriedFor workerId l' k := by
  obtain ⟨e, D, hx⟩ := h
  exact ⟨e, D, le.subset hx⟩

theorem ClaimRead.snoc {l l' all : List (Exchange Pg)} (h : ClaimRead snap l l' all) (x : Exchange Pg) :
    ClaimRead snap l (l' ++ [x]) (all ++ [x]) := by
  obtain ⟨e, rfl, indexed⟩ := h
  exact ⟨e, by simp, indexed⟩

theorem ClaimRead.later {l l' all all' : List (Exchange Pg)} (h : ClaimRead snap l l' all) (le : all <+: all') :
    ∃ more, ClaimRead snap l (l' ++ more) all' := by
  obtain ⟨e, rfl, indexed⟩ := h
  obtain ⟨more, rfl⟩ := le
  exact ⟨more, e, by simp, indexed⟩

theorem TriedAll.later {all all' : List (Exchange Pg)} (h : TriedAll workerId schemaName all) (le : all <+: all') :
    TriedAll workerId schemaName all' := by
  obtain ⟨l, l', snap, read, tried⟩ := h
  obtain ⟨more, read'⟩ := read.later le
  exact ⟨l, l' ++ more, snap, read', fun k hk => (tried k hk).later (List.prefix_append _ _)⟩

/-- The claim's tries, of which those for `tried` are over. -/
theorem tries_claimFrom {tried ks : List Key} {m : Memory Pg} {l' : List (Exchange Pg)}
    (all : Executions.candidates snap schemaName = tried ++ ks) (read : ClaimRead snap l l' m.2)
    (before : ∀ k ∈ tried, TriedFor workerId l' k) :
    Tries Recalls (TakesTurns workerId schemaName) (fun a m' => a = none ∧ TriedAll workerId schemaName m'.2 ∨ Busy m'.2)
      (fun _ m' => Busy m'.2) (Executions.claimFrom workerId ks) m := by
  induction ks generalizing tried m l' with
  | nil =>
    rw [List.append_nil] at all
    exact tries_pure (Or.inl ⟨rfl, l, l', snap, read, fun k hk => before k (all ▸ hk)⟩)
  | cons k ks ih =>
    refine tries_bind ⟨?_, fun r m' hr => ?_⟩
    · rintro k' skip keep patch same
      cases same
      exact ⟨l, l', snap, tried, ks, read, all, before⟩
    · obtain ⟨D, _, _, _, e, _, hm⟩ := hr.eval
      cases r with
      | error _ =>
        have busy : Busy m'.2 := hm ▸ busy_last rfl
        exact busy
      | ok found =>
        cases found with
        | some _ =>
          have busy : Busy m'.2 := hm ▸ busy_last rfl
          exact tries_pure (Or.inr busy)
        | none =>
          have all' : Executions.candidates snap schemaName = (tried ++ [k]) ++ ks := by
            rw [all]
            simp
          refine ih all' (hm ▸ read.snoc _) fun k' hk' => ?_
          rcases List.mem_append.mp hk' with earlier | last
          · exact (before k' earlier).later (List.prefix_append _ _)
          · rw [List.mem_singleton.mp last]
            exact ⟨e, D, List.mem_append_right _ (List.mem_singleton.mpr rfl)⟩

theorem tries_claim {m : Memory Pg} {now : Int} (hs : m.1 = some (.start now)) :
    Tries Recalls (TakesTurns workerId schemaName) (fun a m' => a = none ∧ TriedAll workerId schemaName m'.2 ∨ Busy m'.2)
      (fun _ m' => Busy m'.2) (Executions.claim ⟨schemaName, env.tablePrefix, true⟩ workerId) m := by
  have other : TakesTurns workerId schemaName m (.snapshot .claim) := by
    rintro k skip keep patch same
    cases same
  refine tries_bind ⟨other, fun r m' hr => ?_⟩
  cases r with
  | error _ =>
    obtain ⟨D, _, _, _, e, _, hm⟩ := hr.eval
    have busy : Busy m'.2 := hm ▸ busy_last rfl
    exact busy
  | ok snap =>
    obtain ⟨w, t, e, w', sound, hw, he, rfl⟩ := hr
    obtain ⟨s, hs', rfl⟩ := snapshot_seen he
    rw [hw, hs] at hs'
    cases hs'
    have indexed : Indexed w.rows w.keys := fun tb k r hr => sound.keyed tb k r (Or.inl hr)
    have whole : Executions.candidates ⟨now, w.rows, w.keys⟩ schemaName =
        [] ++ Executions.candidates ⟨now, w.rows, w.keys⟩ schemaName := rfl
    exact tries_claimFrom whole ⟨e, rfl, indexed⟩ fun k hk => absurd hk List.not_mem_nil

/-- The call is not one of the claim's tries. -/
def BesideClaim (o : Op Pg) : Prop := ∀ k skip keep patch, o ≠ .update .claim .executions k skip keep patch

theorem besideClaim_handles : Handles BesideClaim where
  ext _ _ _ _ _ h := by cases h
  halt _ _ _ _ h := by cases h
  read _ _ _ _ _ _ h := by cases h
  attempt _ _ _ _ _ h := by cases h
  log _ _ _ _ _ h := by cases h
  retire _ _ _ _ _ _ h := by cases h
  drop _ _ _ _ _ h := by cases h
  finish _ _ _ _ h := by cases h
  execution stmt k skip keep patch other _ _ _ _ h := by
    cases h
    exact other rfl

/-- What a worker knows of a workspace when it goes on. -/
def ClaimDone (workerId schemaName : String) (l : List (Exchange Pg)) : Prop := TriedAll workerId schemaName l ∨ Busy l

theorem ClaimDone.later {l l' : List (Exchange Pg)} (h : ClaimDone workerId schemaName l) (le : l <+: l') :
    ClaimDone workerId schemaName l' := h.imp (fun h => h.later le) fun h => h.later le

theorem holds_beside {α : Type} {q : Program Pg α} {m : Memory Pg} (h : q.Uses BesideClaim)
    (done : ClaimDone workerId schemaName m.2) :
    q.Holds Recalls (TakesTurns workerId schemaName) (fun _ m' => ClaimDone workerId schemaName m'.2) m := by
  refine (recalls_uses h fun _ o _ beside => ?_).mono fun _ m' le => done.later le
  exact fun k skip keep patch same => absurd same (beside k skip keep patch)

theorem claimIn_turns (workerId schemaName : String) {m : Memory Pg} (hm : m.1 = none) :
    (Poller.claimIn env workerId schemaName).Holds Recalls (TakesTurns workerId schemaName)
      (fun _ m' => ClaimDone workerId schemaName m'.2) m := by
  have hp := besideClaim_handles
  have giveUp : (do rollbackTx (M := Pg); return false : Program Pg Bool).Uses BesideClaim :=
    Prog.Uses.bind (Prog.uses_perform.mpr fun _ _ _ _ h => by cases h) fun _ => trivial
  unfold Poller.claimIn
  split
  next => exact ⟨fun _ _ _ _ h => (by cases h), fun r _ _ => r.elim⟩
  next =>
    refine Prog.holds_bind.mpr ⟨fun _ _ _ _ h => (by cases h), fun r m₁ hr => ?_⟩
    obtain ⟨D, _, clock, _, e, he, hm₁⟩ := hr.eval
    cases r with
    | error e =>
      have busy : Busy m₁.2 := hm₁ ▸ busy_last rfl
      exact Or.inr busy
    | ok _ =>
      have started : m₁.1 = some (.start clock) := by
        rw [hm] at he
        simp only [Op.eval] at he
        split at he
        next => cases he
        next => exact (Prod.mk.inj (Option.some.inj he)).2.symm
      refine Prog.holds_bind.mpr (Prog.Holds.mono (tries_claim started) fun r m₂ hr => ?_)
      cases r with
      | error _ => exact holds_beside giveUp (Or.inr hr)
      | ok found =>
        cases found with
        | none => exact holds_beside giveUp (hr.imp_left And.right)
        | some exec =>
          have busy : ClaimDone workerId schemaName m₂.2 := Or.inr (hr.resolve_left fun h => by cases h.1)
          have processes := hp.processes schemaName exec.executionId
          refine holds_beside (Prog.Uses.bind (uses_shown hp.asides rfl (by decide)) fun found => ?_) busy
          split
          next => exact giveUp
          next => exact Prog.Uses.bind (uses_inside rfl (uses_try_bind (uses_updateOne processes.finish processes.failed)
            fun _ => uses_done _)) fun _ => giveUp
          next job =>
            refine (uses_processExecution processes rfl).bind fun _ => ?_
            exact Prog.Uses.bind (Prog.uses_perform.mpr fun _ _ _ _ h => by cases h) fun _ => trivial

theorem work_turns (workerId : String) (schemas : List String) {m : Memory Pg} (hm : m.1 = none) :
    (Poller.claimAndProcess env workerId schemas).Holds Recalls
      (fun m o => ∃ schemaName ∈ schemas, TakesTurns workerId schemaName m o)
      (fun found m' => found = false → ∀ schemaName ∈ schemas, ClaimDone workerId schemaName m'.2) m := by
  induction schemas generalizing m with
  | nil => exact fun _ _ h => absurd h List.not_mem_nil
  | cons schemaName schemas ih =>
    have first : (Poller.claimIn env workerId schemaName).Holds Recalls
        (fun m o => ∃ s ∈ schemaName :: schemas, TakesTurns workerId s m o)
        (fun _ m' => ClaimDone workerId schemaName m'.2 ∧ m'.1 = none) m :=
      (holds_both (claimIn_turns workerId schemaName hm) (claimIn_out workerId schemaName hm)).pre_mono
        fun m o h => ⟨schemaName, List.mem_cons_self .., h.1⟩
    refine Prog.holds_bind.mpr (first.mono fun found m' hm' => ?_)
    split
    next => exact fun h => by cases h
    next =>
      have rest := holds_keep (I := fun m => ClaimDone workerId schemaName m.2) (ih hm'.2) hm'.1
        fun m o r m' _ h hr => h.later hr.extends
      refine (rest.pre_mono fun m o h => ?_).mono fun found m'' h none s hs => ?_
      · obtain ⟨s, hs, turns⟩ := h.2
        exact ⟨s, List.mem_cons_of_mem _ hs, turns⟩
      · rcases List.mem_cons.mp hs with rfl | hs
        · exact h.1
        · exact h.2 none s hs

/-- What a worker knows at its calls, and when it has found nothing to do. -/
theorem programs_turns (req : Request env) : req.program.Holds Recalls
    (fun m o => ∀ workerId schemas, req = .work workerId schemas →
      ∃ schemaName ∈ schemas, TakesTurns workerId schemaName m o)
    (fun out m => ∀ workerId schemas, req = .work workerId schemas → out = .polled false →
      ∀ schemaName ∈ schemas, ClaimDone workerId schemaName m.2) (none, []) := by
  cases req with
  | work workerId schemas =>
    refine Prog.holds_bind.mpr (((work_turns workerId schemas rfl).pre_mono fun m o h w ss same => ?_).mono
      fun found m h w ss same none => ?_)
    · cases same
      exact h
    · cases same
      cases none
      exact h rfl
  | _ => exact ((Prog.holds_true _ _).pre_mono fun _ _ _ _ _ h => by cases h).mono fun _ _ _ _ _ h => by cases h

section runs

variable {acts : List (Action (service env))} {t : Nat}

/-- The thread tries the execution for the claim, and it is locked by another transaction or does not
wait to be run. -/
def PassesOver (before : List (Action (service env))) (t : Nat) (workerId : String) (k : Key) : Prop :=
  (∃ req, (after before).next t =
      some (req, .update .claim .executions k true Executions.eligible (Executions.claimPatch workerId))) ∧
    ∃ s, (after before).world.sessions t = some s ∧ ((after before).world.foreign t .executions k = true ∨
      ∀ e : Execution, s.visible (after before).world.rows .executions k = some e → Executions.eligible s.now e = false)

/-- The thread reads for the claim which executions wait to be run, at the time of its transaction. -/
def ReadsWaiting (before : List (Action (service env))) (t : Nat) (now : Int) : Prop :=
  (∃ req, (after before).next t = some (req, .snapshot .claim)) ∧
    ∃ s, (after before).world.sessions t = some s ∧ s.now = now

/-- The execution waits to be run. -/
def Waiting (before : List (Action (service env))) (now : Int) (k : Key) (e : Execution) : Prop :=
  (after before).world.rows .executions k = some e ∧ Executions.eligible now e = true

theorem candidates_iff (indexed : Indexed snap.row snap.keys) {k : Key} : k ∈ Executions.candidates snap schemaName ↔
    k.schema = schemaName ∧ ∃ e : Execution, snap.row .executions k = some e ∧ Executions.eligible snap.now e = true := by
  unfold Executions.candidates matching
  rw [List.mem_insertionSort, List.mem_filter, Bool.and_eq_true, decide_eq_true_eq, Option.any_eq_true]
  refine ⟨fun h => h.2, fun h => ⟨?_, h⟩⟩
  obtain ⟨_, e, he, _⟩ := h
  exact indexed .executions k e he

/-- Of two candidates the one that is due earlier is tried earlier. -/
theorem candidates_ordered {ks ks' : List Key} {k k' : Key} {e e' : Execution}
    (all : Executions.candidates snap schemaName = ks ++ k :: ks') (he : snap.row .executions k = some e)
    (he' : snap.row .executions k' = some e') (mem : k' ∈ Executions.candidates snap schemaName) (earlier : e'.runAt < e.runAt) :
    k' ∈ ks := by
  have sorted : (Executions.candidates snap schemaName).Pairwise fun k k' =>
      ((snap.row .executions k).elim 0 fun (e : Execution) => e.runAt) ≤
        ((snap.row .executions k').elim 0 fun (e : Execution) => e.runAt) := List.pairwise_insertionSort _ _
  rw [all] at sorted mem
  have le := (List.pairwise_cons.mp (List.pairwise_append.mp sorted).2.1).1
  rcases List.mem_append.mp mem with before | rest
  · exact before
  · rcases List.mem_cons.mp rest with rfl | rest
    · rw [he] at he'
      cases he'
      exact absurd earlier (Int.lt_irrefl _)
    · have later := le k' rest
      simp only [he, he', Option.elim_some] at later
      exact absurd earlier (Int.not_lt.mpr later)

theorem read_waiting {l l' : List (Exchange Pg)} (h : ClaimRead snap l l' (transcript acts t)) :
    ∃ read e, read ++ [.step t e] <+: acts ∧ transcript read t = l ∧ ReadsWaiting read t snap.now ∧
      (after read).world.rows = snap.row := by
  obtain ⟨e, split, _⟩ := h
  obtain ⟨read, le, hl, ⟨req, next⟩, ⟨w, he⟩, hrows⟩ := transcript_split split
  obtain ⟨s, hs, seen⟩ := snapshot_seen he
  exact ⟨read, e, le, hl, ⟨⟨req, next⟩, s, hs, by rw [seen]⟩, hrows⟩

theorem tried_passed {l l' : List (Exchange Pg)} (h : ClaimRead snap l l' (transcript acts t)) {k : Key}
    (tried : TriedFor workerId l' k) {read : List (Action (service env))} {e : Env Pg} (le : read ++ [.step t e] <+: acts)
    (hl : transcript read t = l) :
    ∃ before e', before ++ [.step t e'] <+: acts ∧ read.length < before.length ∧ PassesOver before t workerId k := by
  obtain ⟨_, split, _⟩ := h
  obtain ⟨e', D, hx⟩ := tried
  obtain ⟨l₁, l₂, rfl⟩ := List.append_of_mem hx
  rw [← List.cons_append, ← List.append_assoc] at split
  obtain ⟨before, le', hl', next, ⟨w, he⟩, _⟩ := transcript_split split
  refine ⟨before, e', le', ?_, next, skipped_update he⟩
  refine transcript_later (t := t) ((List.prefix_append _ _).trans le) ((List.prefix_append _ _).trans le') ?_
  rw [hl, hl', List.length_append, List.length_cons]
  omega

/-- A worker's claim takes the executions in the order of their due times: by the time it tries one, it
has passed over every execution of the workspace that waited longer when it read. -/
theorem claim_oldest_first {schemas : List String} {k : Key} {skip : Bool} {keep : Int → Execution → Bool}
    {patch : Patch Pg .executions}
    (hn : (after acts).next t = some (.work workerId schemas, .update .claim .executions k skip keep patch)) :
    ∃ read e now row, read ++ [.step t e] <+: acts ∧ ReadsWaiting read t now ∧ Waiting read now k row ∧
      ∀ k' row', k'.schema = k.schema → Waiting read now k' row' → row'.runAt < row.runAt →
        ∃ before e', before ++ [.step t e'] <+: acts ∧ read.length < before.length ∧ PassesOver before t workerId k' := by
  obtain ⟨schemaName, _, turns⟩ := Pool.resumed (S := service env) programs_turns hn workerId schemas rfl
  obtain ⟨l, l', snap, ks, ks', claimRead, all, tried⟩ := turns k skip keep patch rfl
  obtain ⟨read, e, le, hl, reads, hrows⟩ := read_waiting claimRead
  have indexed : Indexed snap.row snap.keys := by
    obtain ⟨_, _, indexed⟩ := claimRead
    exact indexed
  obtain ⟨here, row, hrow, due⟩ := (candidates_iff indexed).mp (all ▸ List.mem_append_right ks (List.mem_cons_self ..))
  refine ⟨read, e, snap.now, row, le, reads, ⟨by rw [hrows]; exact hrow, due⟩, fun k' row' same waits earlier => ?_⟩
  obtain ⟨hrow', due'⟩ := waits
  rw [hrows] at hrow'
  have mem : k' ∈ Executions.candidates snap schemaName := (candidates_iff indexed).mpr ⟨same.trans here, row', hrow', due'⟩
  exact tried_passed claimRead (tried k' (candidates_ordered all hrow hrow' mem earlier)) le hl

/-- The execution that a worker's call tries for the claim. -/
def triesNext : Option (Request sample × Op Pg) → Option (String × List String × Key)
  | some (.work workerId schemas, .update .claim .executions k _ _ _) => some (workerId, schemas, k)
  | _ => none

theorem triesNext_call {workerId : String} {schemas : List String} {k : Key} {call : Option (Request sample × Op Pg)}
    (h : triesNext call = some (workerId, schemas, k)) :
    ∃ skip keep patch, call = some (.work workerId schemas, .update .claim .executions k skip keep patch) := by
  unfold triesNext at h
  split at h
  next =>
    cases h
    exact ⟨_, _, _, rfl⟩
  next => cases h

/-- One of two executions has been claimed, and another worker has passed over it. -/
def secondTry : List (Action (service sample)) :=
  serve 1 8 (.createEndpoint "acme" sampleEndpoint) (.response 200 "") ++
    serve 2 14 (.createJob "acme" sampleJob) (.response 200 "") ++ [.tick 5] ++
      serve 3 14 (.createJob "acme" { sampleJob with idempotencyKey := some "order-2" }) (.response 200 "") ++
        serve 4 3 (.work "worker-1" ["acme"]) (.response 200 "") ++ serve 5 3 (.work "worker-2" ["acme"]) (.response 200 "")

theorem claim_oldest_first_second : ∃ read e now row, read ++ [.step 5 e] <+: secondTry ∧ ReadsWaiting read 5 now ∧
    Waiting read now ⟨"acme", sampleId 309⟩ row ∧ ∀ k' row', k'.schema = "acme" → Waiting read now k' row' →
      row'.runAt < row.runAt → ∃ before e', before ++ [.step 5 e'] <+: secondTry ∧ read.length < before.length ∧
        PassesOver before 5 "worker-2" k' := by
  have trial : triesNext ((after secondTry).next 5) = some ("worker-2", ["acme"], ⟨"acme", sampleId 309⟩) := by decide +kernel
  obtain ⟨skip, keep, patch, hn⟩ := triesNext_call trial
  exact claim_oldest_first hn

/-- A poll that finds nothing to do and none of whose calls fails has overlooked nothing: in each of its
workspaces it has passed over every execution that waited when it read. -/
theorem idle_poll_complete {schemas : List String}
    (answer : (after acts).answer t = some (.work workerId schemas, .polled false))
    (idle : ∀ x ∈ transcript acts t, Exchange.idle x = true) : ∀ schemaName ∈ schemas, ∃ read e now,
      read ++ [.step t e] <+: acts ∧ ReadsWaiting read t now ∧ ∀ k row, k.schema = schemaName → Waiting read now k row →
        ∃ before e', before ++ [.step t e'] <+: acts ∧ read.length < before.length ∧ PassesOver before t workerId k := by
  intro schemaName mem
  rcases Pool.resumed_answer (S := service env) programs_turns answer workerId schemas rfl rfl schemaName mem with all | busy
  · obtain ⟨l, l', snap, claimRead, tried⟩ := all
    obtain ⟨read, e, le, hl, reads, hrows⟩ := read_waiting claimRead
    have indexed : Indexed snap.row snap.keys := by
      obtain ⟨_, _, indexed⟩ := claimRead
      exact indexed
    refine ⟨read, e, snap.now, le, reads, fun k row same waits => ?_⟩
    obtain ⟨hrow, due⟩ := waits
    rw [hrows] at hrow
    exact tried_passed claimRead (tried k ((candidates_iff indexed).mpr ⟨same, row, hrow, due⟩)) le hl
  · obtain ⟨x, hx, busy⟩ := busy
    rw [idle x hx] at busy
    cases busy

def emptyHanded : Option (Request sample × Outcome) → Option (String × List String)
  | some (.work workerId schemas, .polled false) => some (workerId, schemas)
  | _ => none

theorem emptyHanded_answer {workerId : String} {schemas : List String} {answer : Option (Request sample × Outcome)}
    (h : emptyHanded answer = some (workerId, schemas)) : answer = some (.work workerId schemas, .polled false) := by
  unfold emptyHanded at h
  split at h
  next =>
    cases h
    rfl
  next => cases h

/-- The only execution has been claimed, and another worker finds nothing to do. -/
def idlePoll : List (Action (service sample)) :=
  serve 1 8 (.createEndpoint "acme" sampleEndpoint) (.response 200 "") ++
    serve 2 14 (.createJob "acme" sampleJob) (.response 200 "") ++ serve 3 3 (.work "worker-1" ["acme"]) (.response 200 "") ++
      serve 4 8 (.work "worker-2" ["acme"]) (.response 200 "")

theorem idle_poll_complete_locked : ∃ read e now, read ++ [.step 4 e] <+: idlePoll ∧ ReadsWaiting read 4 now ∧
    ∀ k row, k.schema = "acme" → Waiting read now k row →
      ∃ before e', before ++ [.step 4 e'] <+: idlePoll ∧ read.length < before.length ∧ PassesOver before 4 "worker-2" k := by
  have empty : emptyHanded ((after idlePoll).answer 4) = some ("worker-2", ["acme"]) := by decide +kernel
  have idle : (transcript idlePoll 4).all Exchange.idle = true := by decide +kernel
  exact idle_poll_complete (emptyHanded_answer empty) (List.all_eq_true.mp idle) "acme" List.mem_cons_self

end runs

end Invokr

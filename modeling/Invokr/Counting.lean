import Invokr.Delivery

namespace Invokr

open TxLib

variable {env : Setup} {g : Guard (service env)} {k : Key}

/-- How often the execution has been handed to a dispatcher. -/
def dispatches (w : World Pg) (k : Key) : Nat :=
  (w.log.filter fun e => (dispatchOf e.2).any fun d => d.key = k).length

/-- The committed count of the execution's attempts. -/
def attemptsAt (D : Rows Pg) (k : Key) : Int := ((D .executions k : Option Execution).map Execution.attemptCount).getD 0

/-- The execution has been dispatched in a transaction that is still open. -/
def InFlight (w : World Pg) (k : Key) : Prop := ∃ t d, d ∈ handed (w.history t) ∧ d.key = k

theorem handed_inside {l : List (Entry Pg)} {y : Entry Pg} (h : y.inside = true) :
    handed (l ++ [y]) = handed l ++ (dispatchOf y).toList := by
  rw [handed, current_inside h, List.filterMap_append]
  cases hd : dispatchOf y <;> simp [handed, hd]

theorem handed_outside {l : List (Entry Pg)} {y : Entry Pg} (h : y.inside = false) : handed (l ++ [y]) = [] := by
  rw [handed, current_outside h, List.filterMap_nil]

/-- No dispatch of the execution is forgotten. -/
structure Tallied (p : Pool (service env)) (k : Key) : Prop where
  worker : ∀ t d, d ∈ handed (p.world.history t) → ∃ th, p.threads t = some th ∧ isWork th.req = true
  ended : ¬InFlight p.world k → (dispatches p.world k : Int) ≤ attemptsAt p.world.rows k
  open_one : (dispatches p.world k : Int) ≤ attemptsAt p.world.rows k + 1
  bound : ∀ e : Execution, p.world.rows .executions k = some e → (dispatches p.world k : Int) ≤ max 1 e.maxAttempts

section steps

variable {p : Pool (service env)} {x : Action (service env)} {t : Nat} {y : Entry Pg}

/-- Whoever has dispatched an execution in its open transaction holds the execution. -/
theorem Tallied.holds (h : Tallied p k) (keeps : p.Keeps (base g) g) (counted : Counted g) {d : Dispatch}
    (hd : d ∈ handed (p.world.history t)) : handed (p.world.history t) = [d] ∧
      ∃ s, p.world.sessions t = some s ∧ s.aborted = false ∧ Counting d s := by
  obtain ⟨th, hth, hwork⟩ := h.worker t d hd
  have rest : Rest g th.req (p.world.view t) := keeps.rest (base_valid_all g) hth
  cases hreq : th.req with
  | work workerId schemas =>
    rw [hreq] at rest
    exact rest counted d hd
  | _ =>
    rw [hreq] at hwork
    cases hwork

theorem Tallied.holder (h : Tallied p k) (keeps : p.Keeps (base g) g) (counted : Counted g) {u : Nat} {d d' : Dispatch}
    {s : Session Pg} {b : Held Execution} (hd' : d' ∈ handed (p.world.history u)) (hs : p.world.sessions t = some s)
    (held : s.held .executions d.key = some b) (hk : d'.key = d.key) : u = t := by
  obtain ⟨_, s', hs', _, b', e', held', _⟩ := h.holds keeps counted hd'
  have lock := (keeps.sound.held u s' .executions _ _ hs' held').1
  have lock' := (keeps.sound.held t s .executions _ _ hs held).1
  rw [hk, lock'] at lock
  exact (Option.some.inj lock).symm

/-- Only a commit changes executions. -/
theorem executions_kept (keeps : p.Keeps (base g) g) (allow : p.Allows g x)
    (hlog : (p.act x).world.log = p.world.log ++ [(t, y)]) (hy : ∀ s, y ≠ .commit s) :
    (p.act x).world.rows .executions = p.world.rows .executions := by
  rcases act_rows keeps allow with frame | ⟨u, th, s, c⟩
  · exact frame.eq (by simp)
  · have hlogged := c.logged
    rw [World.history, World.history_snoc hlog] at hlogged
    split at hlogged
    next => exact (hy s (by simpa using hlogged)).elim
    next => simp at hlogged

theorem Tallied.frame (h : Tallied p k) {p' : Pool (service env)}
    (rows : p'.world.rows .executions = p.world.rows .executions) (same : dispatches p'.world k = dispatches p.world k)
    (flight : InFlight p.world k → InFlight p'.world k)
    (worker : ∀ t d, d ∈ handed (p'.world.history t) → ∃ th, p'.threads t = some th ∧ isWork th.req = true) :
    Tallied p' k := by
  have hcount : attemptsAt p'.world.rows k = attemptsAt p.world.rows k := by rw [attemptsAt, attemptsAt, rows]
  refine ⟨worker, fun hn => ?_, ?_, fun e he => ?_⟩
  · rw [same, hcount]
    exact h.ended fun hf => hn (flight hf)
  · rw [same, hcount]
    exact h.open_one
  · rw [same]
    exact h.bound e (rows ▸ he)

theorem attemptsAt_row {D : Rows Pg} {e : Execution} (h : D .executions k = some e) : attemptsAt D k = e.attemptCount := by
  simp [attemptsAt, h]

theorem dispatches_snoc {w w' : World Pg} (h : w'.log = w.log ++ [(t, y)]) :
    dispatches w' k = dispatches w k + if ((dispatchOf y).any fun d => d.key = k) then 1 else 0 := by
  rw [dispatches, h, List.filter_append, List.length_append, ← dispatches]
  cases hd : (dispatchOf y).any fun d => d.key = k <;> simp [hd]

/-- A worker thread stays one, and only a worker's call adds a dispatch. -/
theorem Tallied.worker_act (h : Tallied p k) (hlog : (p.act x).world.log = p.world.log ++ [(t, y)])
    (new : ∀ d, dispatchOf y = some d → ∃ th, p.threads t = some th ∧ isWork th.req = true) (u : Nat) (d : Dispatch)
    (hd : d ∈ handed ((p.act x).world.history u)) : ∃ th, (p.act x).threads u = some th ∧ isWork th.req = true := by
  have keep : ∀ {u}, (∃ th, p.threads u = some th ∧ isWork th.req = true) →
      ∃ th, (p.act x).threads u = some th ∧ isWork th.req = true := by
    rintro u ⟨th, hth, hwork⟩
    obtain ⟨th', hth', hreq⟩ := Pool.act_req hth x
    exact ⟨th', hth', hreq ▸ hwork⟩
  rw [World.history, World.history_snoc hlog] at hd
  split at hd
  next hu =>
    subst hu
    cases hin : y.inside with
    | false =>
      rw [handed_outside hin] at hd
      cases hd
    | true =>
      rw [handed_inside hin, List.mem_append] at hd
      rcases hd with hd | hd
      · exact keep (h.worker u d hd)
      · exact keep (new d (Option.mem_toList.mp hd))
  next => exact keep (h.worker u d hd)

/-- What is in flight stays so, unless its own thread ends its transaction. -/
theorem InFlight.act (hf : InFlight p.world k) (hlog : (p.act x).world.log = p.world.log ++ [(t, y)])
    (hy : y.inside = true ∨ handed (p.world.history t) = []) : InFlight (p.act x).world k := by
  obtain ⟨u, d, hd, hk⟩ := hf
  refine ⟨u, d, ?_, hk⟩
  rw [World.history, World.history_snoc hlog]
  split
  next hu =>
    subst hu
    rcases hy with hin | hn
    · rw [handed_inside hin]
      exact List.mem_append_left _ hd
    · rw [hn] at hd
      cases hd
  next => exact hd

/-- No transaction ends without a commit once it has dispatched something. -/
theorem Tallied.aborts (h : Tallied p k) (keeps : p.Keeps (base g) g) (allow : p.Allows g x) (counted : Counted g)
    (logs : p.Logs t x .abort) : handed (p.world.history t) = [] := by
  have idle : (∀ {th}, p.threads t = some th → isWork th.req = true → handed (p.world.history t) = []) →
      handed (p.world.history t) = [] := by
    intro hwork
    by_contra hne
    obtain ⟨d, hd⟩ := List.exists_mem_of_ne_nil _ hne
    obtain ⟨th, hth, hw⟩ := h.worker t d hd
    exact hne (hwork hth hw)
  have isWork_iff : ∀ {req : Request env}, isWork req = true → ∃ workerId schemas, req = .work workerId schemas := by
    intro req hw
    cases req with
    | work workerId schemas => exact ⟨workerId, schemas, rfl⟩
    | _ => cases hw
  cases logs with
  | @call e th o next w r _ hth ha hp he hes =>
    refine idle fun hth' hw => ?_
    rw [hth] at hth'
    cases hth'
    obtain ⟨workerId, schemas, hreq⟩ := isWork_iff hw
    have hallow : g.step th.req p.world t e o := allow th.req o (Pool.next_of hth ha hp)
    rcases entries_abort hes with rfl | ⟨rfl, s, hs, haborted | hfault⟩
    · obtain ⟨w₀, _, hv, pre⟩ := keeps_pre keeps hth ha hp
      have hist : p.world.history t = w₀.history t := congrArg Prod.snd hv
      rw [hist]
      exact pre.2 hw counted
    · by_contra hne
      obtain ⟨d, hd⟩ := List.exists_mem_of_ne_nil _ hne
      obtain ⟨_, s', hs', live, _⟩ := h.holds keeps counted hd
      rw [hs] at hs'
      cases hs'
      rw [haborted] at live
      cases live
    · by_contra hne
      rw [hreq] at hallow
      exact counted.1 workerId schemas p.world t e .commit hallow (Or.inl ⟨Or.inl hfault, Or.inl hne⟩)
  | @stop _ th hth ha hx =>
    refine idle fun hth' hw => ?_
    rw [hth] at hth'
    cases hth'
    obtain ⟨workerId, schemas, hreq⟩ := isWork_iff hw
    rcases hx with rfl | ⟨e, next, rfl, hp⟩
    · exact counted.2 workerId schemas p.world t (hreq ▸ allow th hth)
    · by_contra hne
      have hallow : g.step th.req p.world t e .halt := allow th.req .halt (Pool.next_of hth ha hp)
      rw [hreq] at hallow
      exact counted.1 workerId schemas p.world t e .halt hallow (Or.inr (Or.inr (Or.inr ⟨rfl, hne⟩)))

theorem Tallied.unused (h : Tallied p k) (keeps : p.Keeps (base g) g) (counted : Counted g)
    (hn : p.world.rows .executions k = none) : (dispatches p.world k : Int) ≤ 0 := by
  have hcount : attemptsAt p.world.rows k = 0 := by simp [attemptsAt, hn]
  rw [← hcount]
  refine h.ended fun ⟨t, d, hd, hk⟩ => ?_
  obtain ⟨_, s, hs, _, b, e, held, _⟩ := h.holds keeps counted hd
  have hrow := (keeps.sound.held t s .executions _ _ hs held).2
  rw [hk, hn] at hrow
  cases hrow

/-- An execution that may be claimed has an attempt left. -/
theorem Settled.room {b : Execution} (h : Settled b) (ready : b.status = .queued ∨ b.status = .retrying ∨ b.status = .pending) :
    b.attemptCount + 1 ≤ max 1 b.maxAttempts := by
  rcases ready with hs | hs | hs
  · have := h.untried (Or.inr (Or.inl hs))
    omega
  · have := h.retrying hs
    omega
  · have := h.untried (Or.inl hs)
    omega

theorem attemptsAt_le {D D' : Rows Pg} {req : Request env} {now : Int} (c : Commit g req now D D') (l : Ledger D') :
    attemptsAt D k ≤ attemptsAt D' k := by
  cases he : (D .executions k : Option Execution) with
  | none =>
    have hz : attemptsAt D k = 0 := by simp [attemptsAt, he]
    rw [hz]
    cases he' : (D' .executions k : Option Execution) with
    | none => simp [attemptsAt, he']
    | some e' =>
      rw [attemptsAt_row he']
      exact (l.settled k e' he').nonneg
  | some e =>
    have step := c.execution_step k
    rw [he] at step
    generalize hx : (D' .executions k : Option Execution) = x' at step
    rcases step with step | ⟨b, e', a, hb, rfl, worked⟩
    · cases step with
      | same => rw [attemptsAt_row he, attemptsAt_row hx]
      | cancel cancelled =>
        obtain ⟨_, rfl⟩ := cancelled
        rw [attemptsAt_row he, attemptsAt_row hx]
        exact Int.le_refl _
    · cases hb
      have := worked.counted
      rw [attemptsAt_row he, attemptsAt_row hx]
      omega

end steps

section run

variable {acts : List (Action (service env))} {x : Action (service env)} {t : Nat} {y : Entry Pg} {d : Dispatch}

/-- A dispatch is made of an execution that no other open transaction has dispatched and that has an
attempt left. -/
theorem Tallied.dispatch (h : Tallied (after acts) k) (keeps : (after acts).Keeps (base g) g) (allow : (after acts).Allows g x)
    (counted : Counted g) (hlog : ((after acts).act x).world.log = (after acts).world.log ++ [(t, .ext (.dispatch d) ())])
    (logs : (after acts).Logs t x (.ext (.dispatch d) ())) : Tallied ((after acts).act x) k := by
  have hsnoc := dispatches_snoc (k := k) hlog
  have hrows := executions_kept keeps allow hlog (fun s hs => by cases hs)
  cases logs with
  | @call e th o next w r _ hth ha hp he hes =>
    obtain rfl := entries_ext hes
    obtain ⟨w₀, _, hv, pre⟩ := keeps_pre keeps hth ha hp
    obtain ⟨hwork, s, l, b, hv₀, hm, hnone, _, _, hopen⟩ := pre.2
    have worker := h.worker_act hlog fun _ _ => ⟨th, hth, hwork⟩
    have hist : (after acts).world.history t = l := congrArg Prod.snd (hv.trans hv₀)
    have hsession : (after acts).world.sessions t = some s := congrArg Prod.fst (hv.trans hv₀)
    obtain ⟨live, e₁, held, _⟩ := hopen.resolve_left fun ha => ha.2 counted
    by_cases hk : d.key = k
    · subst hk
      have idle : ¬InFlight (after acts).world d.key := by
        rintro ⟨u, d', hd', hk'⟩
        obtain rfl := h.holder keeps counted hd' hsession held hk'
        rw [hist, hnone] at hd'
        cases hd'
      have hb : (after acts).world.rows .executions d.key = some b := (keeps.sound.held t s .executions _ _ hsession held).2
      have hle := h.ended idle
      have room : b.attemptCount + 1 ≤ max 1 b.maxAttempts := by
        obtain ⟨l₁, l₂, hl, _⟩ := current_split hm
        obtain ⟨before, y, rest, _, hbefore, hafter, claimed⟩ := Pool.log_origin (hist.trans hl)
        obtain ⟨_, claims⟩ := claims_of_logs claimed (by rw [hbefore]; exact hafter)
        exact (keeps.inv.ledger.settled _ b hb).room claims.status
      rw [attemptsAt_row hb] at hle
      have hcount : attemptsAt ((after acts).act (.step t e)).world.rows d.key = b.attemptCount := by
        rw [attemptsAt, hrows, hb]
        rfl
      have hone : dispatches ((after acts).act (.step t e)).world d.key = dispatches (after acts).world d.key + 1 := by
        rw [hsnoc]
        simp [dispatchOf]
      refine ⟨worker, fun hn => (hn ⟨t, d, ?_, rfl⟩).elim, ?_, fun e' he' => ?_⟩
      · rw [World.history, World.history_snoc hlog, if_pos rfl, handed_inside rfl]
        exact List.mem_append_right _ (by simp [dispatchOf])
      · rw [hone, hcount]
        omega
      · rw [hrows, hb] at he'
        cases he'
        rw [hone]
        omega
    · refine h.frame hrows ?_ (fun hf => hf.act hlog (Or.inl rfl)) worker
      rw [hsnoc]
      simp [dispatchOf, hk]

theorem Tallied.commit {s : Session Pg} (h : Tallied (after acts) k) (keeps : (after acts).Keeps (base g) g)
    (keeps' : ((after acts).act x).Keeps (base g) g) (allow : (after acts).Allows g x)
    (counted : Counted g) (hlog : ((after acts).act x).world.log = (after acts).world.log ++ [(t, .commit s)])
    (logs : (after acts).Logs t x (.commit s)) : Tallied ((after acts).act x) k := by
  obtain ⟨_, _, hsession, _, hrows, _⟩ := logs.committed
  obtain ⟨_, _, c⟩ := act_commit keeps allow (.tick "")
  have hle := attemptsAt_le (k := k) c keeps'.inv.ledger
  have hsame : dispatches ((after acts).act x).world k = dispatches (after acts).world k := by
    rw [dispatches_snoc hlog]
    simp [dispatchOf]
  have worker := h.worker_act hlog fun d hd => by cases hd
  refine ⟨worker, fun hn => ?_, ?_, fun e' he' => ?_⟩
  · rw [hsame]
    by_cases hf : InFlight (after acts).world k
    · obtain ⟨u, d, hd, hk⟩ := id hf
      obtain rfl : u = t := by
        by_contra hu
        refine hn ⟨u, d, ?_, hk⟩
        rw [World.history, World.history_snoc hlog, if_neg hu]
        exact hd
      obtain ⟨_, s', hs', _, b, e, held, hcount⟩ := h.holds keeps counted hd
      rw [hsession] at hs'
      cases hs'
      rw [hk] at held
      have hb : (after acts).world.rows .executions k = some b := (keeps.sound.held u s .executions _ _ hsession held).2
      have he : ((after acts).act x).world.rows .executions k = some e := by
        rw [hrows]
        simp [Session.visible, held]
      have := h.open_one
      rw [attemptsAt_row hb] at this
      rw [attemptsAt_row he]
      omega
    · have := h.ended hf
      omega
  · rw [hsame]
    have := h.open_one
    omega
  · rw [hsame]
    cases he : ((after acts).world.rows .executions k : Option Execution) with
    | none =>
      have := h.unused keeps counted he
      omega
    | some e =>
      obtain ⟨e'', he'', same⟩ := c.later.execution k e he
      rw [he'] at he''
      cases he''
      rw [same.maxAttempts]
      exact h.bound e he

theorem Tallied.act (h : Tallied (after acts) k) (keeps : (after acts).Keeps (base g) g) (allow : (after acts).Allows g x)
    (counted : Counted g) : Tallied ((after acts).act x) k := by
  have keeps' := keeps.act (base_valid_all g) allow
  rcases (after acts).act_log x with hlog | ⟨t, y, hlog, logs⟩
  · have hist : ∀ u, ((after acts).act x).world.history u = (after acts).world.history u := fun u => by
      rw [World.history, World.history, hlog]
    refine h.frame ?_ (by rw [dispatches, dispatches, hlog]) ?_ ?_
    · rcases act_rows keeps allow with frame | ⟨u, th, s, c⟩
      · exact frame.eq (by simp)
      · have hl := c.logged
        rw [hist] at hl
        simp at hl
    · rintro ⟨u, d, hd, hk⟩
      exact ⟨u, d, by rw [hist]; exact hd, hk⟩
    · intro u d hd
      rw [hist] at hd
      obtain ⟨th, hth, hwork⟩ := h.worker u d hd
      obtain ⟨th', hth', hreq⟩ := Pool.act_req hth x
      exact ⟨th', hth', hreq ▸ hwork⟩
  · have quiet : dispatchOf y = none → y.inside = true ∨ handed ((after acts).world.history t) = [] →
        (∀ s, y ≠ .commit s) → Tallied ((after acts).act x) k := by
      intro hd hy hc
      refine h.frame (executions_kept keeps allow hlog hc) ?_ (fun hf => hf.act hlog hy) (h.worker_act hlog ?_)
      · rw [dispatches_snoc hlog, hd]
        rfl
      · intro d hd'
        rw [hd] at hd'
        cases hd'
    cases y with
    | ext e r =>
      cases e with
      | dispatch d => exact h.dispatch keeps allow counted hlog logs
      | _ => exact quiet rfl (Or.inl rfl) fun s hs => by cases hs
    | begin D => exact quiet rfl (Or.inl rfl) fun s hs => by cases hs
    | updated stmt tb k' b => exact quiet rfl (Or.inl rfl) fun s hs => by cases hs
    | commit s => exact h.commit keeps keeps' allow counted hlog logs
    | abort => exact quiet rfl (Or.inr (h.aborts keeps allow counted logs)) fun s hs => by cases hs

theorem tallied_run (counted : Counted g) (meets : (Pool.empty (service env)).Meets g acts) : Tallied (after acts) k := by
  induction acts using List.reverseRecOn with
  | nil =>
    refine ⟨fun t d hd => ?_, fun _ => ?_, ?_, fun e he => ?_⟩
    · cases hd
    · exact Int.le_refl 0
    · exact Int.le_of_lt (by decide : (0 : Int) < 0 + 1)
    · cases he
  | append_singleton acts x ih =>
    have meets' := Pool.meets_append.mp meets
    rw [after_snoc]
    exact (ih meets'.1).act (keeps_run meets'.1) meets'.2.1 counted

/-- If no worker meets with a mishap, an execution is dispatched no more often than it may be, and its
committed count of attempts is at least the number of its dispatches whose transactions have ended. -/
theorem no_dispatch_forgotten (counted : Counted g) (acts : List (Action (service env)))
    (meets : (Pool.empty (service env)).Meets g acts) (k : Key) (e : Execution)
    (he : (after acts).world.rows .executions k = some e) :
    (dispatches (after acts).world k : Int) ≤ max 1 e.maxAttempts ∧
      (dispatches (after acts).world k : Int) ≤ e.attemptCount + 1 ∧
      (¬InFlight (after acts).world k → (dispatches (after acts).world k : Int) ≤ e.attemptCount) := by
  have tallied := tallied_run (k := k) counted meets
  have hcount := attemptsAt_row (D := (after acts).world.rows) he
  refine ⟨tallied.bound e he, ?_, fun hn => ?_⟩
  · rw [← hcount]
    exact tallied.open_one
  · rw [← hcount]
    exact tallied.ended hn

end run

section sample

/-- The runs in which no worker meets with a mishap or is killed after a dispatch. -/
def countedOnly (env : Setup) : Guard (service env) where
  start _ := True
  step req w t e o := isWork req = true → ¬Mishap w t e o
  kill _ w t := handed (w.history t) = []

theorem counted_countedOnly : Counted (countedOnly env) := ⟨fun _ _ _ _ _ _ h => h rfl, fun _ _ _ _ h => h⟩

def retries : Op Pg → Bool
  | .update .completeRetry .. | .halt => true
  | _ => false

/-- Nothing is rejected or unstorable, no attempt is to be repeated and nobody is killed. -/
def countedStep (p : Pool (service env)) : Action (service env) → Bool
  | .step t e =>
    match p.next t with
    | none => true
    | some (_, o) => !e.fault && drawsFreshId p.world t e o && !unstorableAnswer e o && !retries o
  | .kill _ => false
  | _ => true

theorem allows_countedOnly {acts : List (Action (service env))} {x : Action (service env)}
    (h : countedStep (after acts) x = true) : (after acts).Allows (countedOnly env) x := by
  cases x with
  | start t req => exact True.intro
  | step t e =>
    intro req o hn _
    simp only [countedStep, hn, Bool.and_eq_true, Bool.not_eq_true'] at h
    obtain ⟨⟨⟨hfault, hfresh⟩, hstorable⟩, hretries⟩ := h
    rintro (⟨unlucky, _⟩ | unstorable | late | ⟨rfl, _⟩)
    · exact not_unlucky (keeps_all acts).sound hfault hfresh unlucky
    · rw [hstorable] at unstorable
      cases unstorable
    · unfold retryOutOfRange at late
      split at late
      next => cases hretries
      next => exact late
    · cases hretries
  | kill t => cases h
  | tick d => exact True.intro

/-- The one attempt of a job that succeeds is counted. -/
theorem no_dispatch_forgotten_one : ∃ k, ∃ e : Execution, (after (oneAttempt (.response 200 ""))).world.rows .executions k = some e ∧
    dispatches (after (oneAttempt (.response 200 ""))).world k = 1 ∧ 1 ≤ e.attemptCount + 1 := by
  have found : (dispatches (after (oneAttempt (.response 200 ""))).world ⟨"acme", sampleId 209⟩,
      ((after (oneAttempt (.response 200 ""))).world.rows .executions ⟨"acme", sampleId 209⟩).isSome) = (1, true) := by
    decide +kernel
  obtain ⟨hone, hsome⟩ := Prod.mk.inj found
  obtain ⟨e, he⟩ := Option.isSome_iff_exists.mp hsome
  have meets : (Pool.empty (service sample)).Meets (countedOnly sample) (oneAttempt (.response 200 "")) :=
    meets_checked [] (fun _ _ => allows_countedOnly) (by decide +kernel)
  have counted := (no_dispatch_forgotten counted_countedOnly _ meets _ e he).2.1
  rw [hone] at counted
  exact ⟨_, e, he, hone, counted⟩

/-- A job with one attempt whose receiver answers with a text that `JSONB` does not take. -/
def nulAnswer : HttpReply := .response 200 (String.singleton (Char.ofNat 0))

def nulAnswers : List (Action (service sample)) :=
  serve 1 8 (.createEndpoint "acme" sampleEndpoint) nulAnswer ++
    serve 2 14 (.createJob "acme" { sampleJob with maxAttempts := some 1 }) nulAnswer ++
    serve 3 25 (.work "worker-1" ["acme"]) nulAnswer ++ serve 4 25 (.work "worker-1" ["acme"]) nulAnswer

/-- The job's execution is dispatched twice and neither dispatch is counted. -/
theorem nul_answer_forgotten : ∃ k, ∃ e : Execution, (after nulAnswers).world.rows .executions k = some e ∧
    (after nulAnswers).world.sessions 3 = none ∧ (after nulAnswers).world.sessions 4 = none ∧ e.maxAttempts = 1 ∧
    dispatches (after nulAnswers).world k = 2 ∧ e.attemptCount = 0 := by
  have found : (((after nulAnswers).world.rows .executions ⟨"acme", sampleId 209⟩).map fun (e : Execution) =>
      (e.maxAttempts, e.attemptCount, dispatches (after nulAnswers).world ⟨"acme", sampleId 209⟩,
        ((after nulAnswers).world.sessions 3).isNone, ((after nulAnswers).world.sessions 4).isNone)) =
      some (1, 0, 2, true, true) := by decide +kernel
  obtain ⟨e, he, hx⟩ := Option.map_eq_some_iff.mp found
  simp only [Prod.mk.injEq, Option.isNone_iff_eq_none] at hx
  obtain ⟨hmax, hcount, htwo, h₃, h₄⟩ := hx
  exact ⟨_, e, he, h₃, h₄, hmax, htwo, hcount⟩

end sample

end Invokr

import Invokr.Dispatching

namespace Invokr

open TxLib

variable {env : Setup} {g : Guard (service env)} {workerId : String} {schemas : List String} {t : Nat} {now : Int}
  {K : Rows Pg → Prop} {Q : Session Pg → Prop} {w₀ : World Pg}

/-- Nothing has been dispatched since the last commit or abort. -/
def Empty (l : List (Entry Pg)) : Prop := handed l = []

theorem Past.empty {ke : Key} {b : Execution} {l : List (Entry Pg)} (h : Past ke b none l) : Empty l := h.1

theorem empty_outside {l : List (Entry Pg)} {x : Entry Pg} (h : x.inside = false) : Empty (l ++ [x]) := by
  simp [Empty, handed, current_outside h]

theorem extends_empty : Extends Empty := by
  intro l x hx hd hl
  have hh : handed l = [] := hl
  simp [Empty, handed_snoc hx, hd, hh]

theorem covers_empty : Covers g (.work workerId schemas) t now Empty K Q := by
  rintro w op free ⟨s, l, hv, _, hl, _, _⟩
  refine ⟨fun _ d hd => ?_, free_calls free⟩
  have hh : handed l = [] := hl
  rw [hv] at hd
  simp [hh] at hd

theorem rest_idle {w : World Pg} (h : Idle t Empty K w) : Rest g (.work workerId schemas) (w.view t) := by
  obtain ⟨l, hv, hl, _⟩ := h
  intro _ d hd
  have hh : handed l = [] := hl
  rw [hv] at hd
  simp [hh] at hd

theorem runs_giveUp {H : List (Entry Pg) → Prop} {post : Unit → World Pg → Prop} (hH : ∀ l, H l → Empty l) (hK : Lasting K)
    (hw : Open t now H K Q w₀) (h : ∀ w', Idle t Empty K w' → post () w') :
    Runs g (.work workerId schemas) t post rollbackTx w₀ := by
  have hh : handed (w₀.history t) = [] := by
    obtain ⟨s, l, hv, _, hl, _⟩ := hw
    have hhist : w₀.history t = l := congrArg Prod.snd hv
    rw [hhist]
    exact hH l hl
  refine holds_rollback hK.stable ⟨fun _ d hd => ?_, fun _ _ => hh⟩ hw fun w' hi => h w' (hi.mono ?_ fun _ h => h)
  · have hd' : d ∈ handed (w₀.history t) := hd
    rw [hh] at hd'
    cases hd'
  · rintro l ⟨l₀, _, rfl⟩
    exact empty_outside rfl

section claim

/-- The transaction has at most locked rows. -/
def Looking (s : Session Pg) : Prop := s.aborted = false ∧ Untouched s

theorem Looking.locks {s s' : Session Pg} (h : Looking s) (hl : Locks s s') : Looking s' :=
  ⟨hl.2.1.trans h.1, fun tb hs => (h.2 tb hs).locks hl⟩

theorem Looking.working {s : Session Pg} {D : Rows Pg} {k : Key} {b : Execution} (h : Looking s)
    (finds : Finds (M := Pg) D s .executions k (s.baseOf D .executions k) b) :
    Working g now k b (claimedRow workerId now b) none []
      (s.write D .executions k (some (claimedRow workerId now b))) where
  live := h.1
  execution := by
    have quiet := h.2 .executions rfl
    have only := quiet.only (D := D) (k := k) (v := some (claimedRow workerId now b))
    rwa [(quiet.found finds).1] at only
  attempt := by
    have quiet := h.2 .attempts rfl
    exact quiet.write_tbl (by decide)
  sweeps := sweeps_quiet ((h.2 .jobs rfl).write_tbl (by decide)) ((h.2 .cronJob rfl).write_tbl (by decide)) k.schema

variable {ok : Option ClaimedExecution → World Pg → Prop} {err : DbError → World Pg → Prop} {schemaName : String}

theorem does_claimFrom {ks : List Key} (hK : Lasting K) (hks : ∀ k ∈ ks, k.schema = schemaName)
    (hw : Open t now Empty K Looking w₀) (herr : ∀ x w', Open t now Empty K Aborted w' → err x w')
    (hmiss : ∀ w', Open t now Empty K Looking w' → ok none w')
    (hhit : ∀ ke b w', ke.schema = schemaName → b.executionId = ke.id → Executions.eligible now b = true →
      Ready g t now K ke b (claimedRow workerId now b) w' → ok (some (Executions.claimed (claimedRow workerId now b))) w') :
    Does g (.work workerId schemas) t ok err (Executions.claimFrom workerId ks) w₀ := by
  induction ks generalizing w₀ with
  | nil => exact tries_pure (hmiss w₀ hw)
  | cons k ks ih =>
    have next : ∀ w', Open t now Empty K Looking w' → Does g (.work workerId schemas) t ok err
        (Executions.claimFrom workerId ks) w' := fun w' h => ih (fun k' hm => hks k' (List.mem_cons_of_mem _ hm)) h
    have pre : (base g).pre (.work workerId schemas) t w₀
        (.update .claim .executions k true Executions.eligible (Executions.claimPatch workerId)) := by
      obtain ⟨s, l, hv, _, hl, _, hs⟩ := hw
      have hh : handed l = [] := hl
      refine ⟨fun _ d hd => ?_, rfl, rfl, s, l, hv, Or.inr (hs.2 .executions rfl)⟩
      rw [hv] at hd
      simp [hh] at hd
    refine tries_bind (tries_update hK.stable pre hw (fun x _ w' _ _ _ _ _ ho => herr x w' ho) ?_ ?_ ?_)
    · intro w w' s e facts _ hs _ ho
      exact next w' (ho.mono (fun _ h => h) (fun _ h => h ▸ facts.known) fun s' _ h => h ▸ hs)
    · intro w w' s e old facts _ hs finds _ ho
      exact next w' (ho.mono (fun _ h => h) (fun _ h => h ▸ facts.known) fun s' _ h => h ▸ hs.locks finds.locks)
    · intro w w' s e old facts _ hs finds hkeep _ ho
      obtain ⟨hb, hold⟩ := (hs.2 .executions rfl).found finds
      refine tries_pure (hhit k old w' (hks k (List.mem_cons_self ..)) (facts.inv.linked.execution k old hold).1 hkeep
        (ho.mono ?_ (fun _ h => h ▸ facts.known) fun s' _ h => h ▸ hs.working finds))
      rintro l ⟨l₀, hl, rfl⟩
      refine ⟨extends_empty l₀ _ rfl rfl hl, ?_⟩
      rw [current_inside rfl, hb]
      exact List.mem_append_right _ (List.mem_singleton.mpr rfl)

theorem mem_candidates {snap : Snapshot Pg} {k : Key} (h : k ∈ Executions.candidates snap schemaName) :
    k.schema = schemaName := by
  unfold Executions.candidates at h
  rw [List.mem_insertionSort] at h
  simp only [matching, List.mem_filter, Bool.and_eq_true, decide_eq_true_eq] at h
  exact h.2.1

theorem does_claim {tp : String} (hK : Lasting K) (hw : Open t now Empty K Started w₀)
    (herr : ∀ x w', Open t now Empty K Aborted w' → err x w')
    (hmiss : ∀ w', Open t now Empty K Looking w' → ok none w')
    (hhit : ∀ ke b w', ke.schema = schemaName → b.executionId = ke.id → Executions.eligible now b = true →
      Ready g t now K ke b (claimedRow workerId now b) w' → ok (some (Executions.claimed (claimedRow workerId now b))) w') :
    Does g (.work workerId schemas) t ok err (Executions.claim ⟨schemaName, tp, true⟩ workerId) w₀ := by
  refine tries_bind (tries_query hK.stable (covers_empty _ _ trivial hw) hw (fun x _ w' _ _ _ _ _ ho => herr x w' ho) ?_)
  intro w w' s e facts _ hs ho
  refine does_claimFrom hK (fun k hm => mem_candidates hm) ?_ herr hmiss hhit
  exact ho.mono (fun _ h => h) (fun _ h => h ▸ facts.known) fun s' _ h => h ▸ ⟨hs.1, untouched_of_started hs⟩

end claim

section commit

variable {ke : Key} {b : Execution} {o : Option Dispatch}

theorem Finished.commit {s : Session Pg} {w : World Pg} (h : Finished g now ke b s) (sound : Sound w)
    (hs : w.sessions t = some s) : Commit g (.work workerId schemas) now w.rows (s.visible w.rows) := by
  obtain ⟨e, ka, x, working, worked, hschema, hid⟩ := h
  obtain ⟨found, executions⟩ := sound.visible_only hs working.execution
  have attempt : Only (M := Pg) .attempts ka none (some x) s := working.attempt
  obtain ⟨unused, attempts⟩ := sound.visible_only hs attempt
  have swept := working.sweeps
  refine .worked found worked unused hschema hid executions attempts (sound.visible_each hs swept.jobs) ?_ ?_
  · intro k
    refine (sound.visible_each hs swept.entries k).imp_right ?_
    rintro ⟨hn, kj, y, hk, hh, hr⟩
    refine ⟨hn, kj, hk, ?_⟩
    rw [(sound.held t s .jobs kj y hs hh).2, show s.visible w.rows .jobs kj = y.new by simp [Session.visible, hh]]
    exact hr
  · intro official k hr
    cases hh : s.held .jobs k with
    | none =>
      refine (reaped_changes hr ?_).elim
      simp [Session.visible, hh]
    | some y =>
      rw [(sound.held t s .jobs k y hs hh).2, show s.visible w.rows .jobs k = y.new by simp [Session.visible, hh]] at hr
      rcases swept.gone official k y hh hr with hm | ⟨c, hc⟩
      · cases hm
      · simp [Session.visible, hc]

theorem over_pre (hd : ∀ d', o = some d' → d'.key = ke) (hw : Over g t now K ke b o w₀) :
    (base g).pre (.work workerId schemas) t w₀ .commit := by
  obtain ⟨s, l, hv, hn, hl, _, hs⟩ := hw
  subst hn
  have hh : handed l = o.toList := hl.1
  refine ⟨fun counted d hm => ?_, ?_, trivial⟩
  · rw [hv] at hm ⊢
    rw [hh] at hm ⊢
    cases o with
    | none => cases hm
    | some d' =>
      obtain rfl : d = d' := by simpa using hm
      rcases hs with ⟨_, lost⟩ | ⟨ha, e, ka, x, working, worked, _⟩
      · exact (lost counted).elim
      · exact ⟨rfl, s, rfl, ha, b, e, by rw [hd d rfl]; exact working.execution.1, worked.counted⟩
  · intro s' l' hv' ha w e _ sound _ hw' _
    rw [hv] at hv'
    cases hv'
    exact (unless_live hs ha).commit sound (congrArg Prod.fst hw')

theorem does_workCommit {ok : Unit → World Pg → Prop} {err : DbError → World Pg → Prop} (hK : Lasting K)
    (hd : ∀ d', o = some d' → d'.key = ke) (hw : Over g t now K ke b o w₀)
    (hok : ∀ w', Idle t Empty (fun _ => True) w' → ok () w') (herr : ∀ x w', Idle t Empty (fun _ => True) w' → err x w') :
    Does g (.work workerId schemas) t ok err (commitTx : Try Pg DbError Unit) w₀ := by
  refine tries_commit hK.stable (over_pre hd hw) hw ?_ ?_ ?_
  · intro x _ w' _ _ _ _ _ hi
    exact herr x w' (hi.mono (fun l ⟨l₀, _, he⟩ => he ▸ empty_outside rfl) fun _ _ => trivial)
  · intro _ w' _ _ _ _ _ hi
    exact hok w' (hi.mono (fun l ⟨l₀, _, he⟩ => he ▸ empty_outside rfl) fun _ _ => trivial)
  · intro _ w' _ _ _ _ _ hi
    exact hok w' (hi.mono (fun l ⟨l₀, _, he⟩ => he ▸ empty_outside rfl) fun _ _ => trivial)

end commit

section walk

variable {post : Bool → World Pg → Prop}

/-- The claimed execution's job and the key that goes with it. -/
def HasKey (k : Key) (key : Option String) (D : Rows Pg) : Prop := ∃ j : Job, D .jobs k = some j ∧ j.idempotencyKey = key

theorem lasting_hasKey (k : Key) (key : Option String) : Lasting (HasKey k key) :=
  lasting_job fun j j' same h => by rw [← h, same.columns.2.2.2.2.2.1]

theorem hasKey_visible {w : World Pg} {s : Session Pg} {ke k : Key} {b e : Execution} {job : Job} (sound : Sound w)
    (hs : w.sessions t = some s) (working : Working g now ke b e none [] s) (h : s.visible w.rows .jobs k = some job) :
    HasKey k job.idempotencyKey w.rows := by
  rcases sound.visible_each hs working.sweeps.jobs k with hv | ⟨_, j, hj, _, _, hn⟩
  · exact ⟨job, hv ▸ h, rfl⟩
  · refine ⟨j, hj, ?_⟩
    rw [h] at hn
    rw [Option.some.inj hn]
    rfl

theorem runs_claimIn {schemaName : String} (hw : Idle t Empty (fun _ => True) w₀)
    (h : ∀ found w', Idle t Empty (fun _ => True) w' → post found w') :
    Runs g (.work workerId schemas) t post (Poller.claimIn env workerId schemaName) w₀ := by
  have gaveUp : ∀ {H : List (Entry Pg) → Prop} {K : Rows Pg → Prop} {Q : Session Pg → Prop} {now w},
      (∀ l, H l → Empty l) → Lasting K → Open t now H K Q w →
      Runs g (.work workerId schemas) t post (do rollbackTx (M := Pg); return false) w := by
    intro H K Q now w hH hK ho
    refine Prog.holds_bind.mpr (runs_giveUp hH hK ho fun w' hi => Prog.holds_pure.mpr (h false w' ?_))
    exact hi.mono (fun _ h => h) fun _ _ => trivial
  unfold Poller.claimIn
  split
  next => exact Prog.holds_bind.mpr (holds_halt ⟨rest_idle hw, trivial⟩)
  next hv =>
    have valid : validateSchemaName schemaName = true := by simpa using hv
    refine holds_run (tries_begin lasting_true.stable ⟨rest_idle hw, trivial⟩ hw ?_ ?_)
    · exact fun x w e w' _ _ hi => Prog.holds_pure.mpr (h false w' hi)
    intro now w w₁ e here ho
    have ho' : Open t now Empty (fun _ => True) Started w₁ :=
      ho.mono (fun l ⟨l₀, hl, he⟩ => he ▸ extends_empty l₀ _ rfl rfl hl) (fun _ _ => trivial) fun _ _ h => h
    refine holds_run (does_claim lasting_true ho' ?_ ?_ ?_)
    · exact fun x w₂ h₂ => gaveUp (fun _ h => h) lasting_true h₂
    · exact fun w₂ h₂ => gaveUp (fun _ h => h) lasting_true h₂
    rintro ke b w₂ rfl hid heligible h₂
    refine holds_run (does_select lasting_true h₂ ?_ ?_)
    · intro x w₃ h₃
      exact runs_dead lasting_true h₃ fun _ w₄ h₄ => gaveUp (fun _ h => h.empty) lasting_true h₄
    intro w₃ w₄ s e₃ facts working h₄
    have h₄' : Open t now (Past ke b none) (fun _ => True) (Working g now ke b (claimedRow workerId now b) none []) w₄ :=
      h₄.mono (fun _ h => h) (fun _ _ => trivial) fun _ _ h => h
    simp only
    split
    next => exact gaveUp (fun _ h => h.empty) lasting_true h₄'
    next hbad => cases hbad
    next job hjob =>
      have known : HasKey ⟨ke.schema, b.jobId⟩ job.idempotencyKey w₃.rows :=
        hasKey_visible facts.sound facts.session working (Except.ok.inj hjob)
      have hready : Ready g t now (HasKey ⟨ke.schema, b.jobId⟩ job.idempotencyKey) ke b (claimedRow workerId now b) w₄ :=
        h₄.mono (fun _ h => h) (fun _ h => h ▸ known) fun _ _ h => h
      refine Prog.holds_bind.mpr (runs_processExecution ⟨rfl, hid, rfl, rfl⟩ rfl (lasting_hasKey _ _) ?_ heligible
        (textAccepts_schema valid) hready fun o w₅ hd h₅ => ?_)
      · rintro D spec ⟨j, hj, hkey⟩
        refine ⟨j, hj, ?_⟩
        rw [hkey]
        rfl
      · refine holds_run (does_workCommit (lasting_hasKey _ _) hd h₅ ?_ ?_)
        · exact fun w₆ hi => Prog.holds_pure.mpr (h true w₆ hi)
        · exact fun _ w₆ hi => Prog.holds_pure.mpr (h true w₆ hi)

theorem runs_claimAndProcess {names : List String} (hw : Idle t Empty (fun _ => True) w₀)
    (h : ∀ found w', Idle t Empty (fun _ => True) w' → post found w') :
    Runs g (.work workerId schemas) t post (Poller.claimAndProcess env workerId names) w₀ := by
  induction names generalizing w₀ with
  | nil => exact Prog.holds_pure.mpr (h false w₀ hw)
  | cons name names ih =>
    refine Prog.holds_bind.mpr (runs_claimIn hw fun found w₁ h₁ => ?_)
    cases found with
    | true => exact Prog.holds_pure.mpr (h true w₁ h₁)
    | false => exact ih h₁

theorem runs_work {w : World Pg} (h : w.view t = (none, [])) :
    Runs g (.work workerId schemas) t ((base g).post (.work workerId schemas) t)
      ((service env).program (.work workerId schemas)) w := by
  refine Prog.holds_bind.mpr (runs_claimAndProcess ⟨[], h, rfl, trivial⟩ fun found w' hi => Prog.holds_pure.mpr ?_)
  exact ⟨rest_idle hi, trivial⟩

end walk

end Invokr

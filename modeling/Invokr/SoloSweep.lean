import Invokr.Sweeping
import Invokr.Dispatcher

namespace Invokr

open TxLib

variable {t : Nat} {now : Int} {w₀ w : World Pg} {D V : Rows Pg} {schemaName tablePrefix : String} {ids rest : List String}
  {ks : List Key}

/-- The thread's transaction is sound, no row has been committed, and what it sees satisfies `Q`. -/
abbrev Sees (t : Nat) (now : Int) (D : Rows Pg) (Q : Rows Pg → Prop) (w : World Pg) : Prop :=
  Open t now (fun _ => True) (fun D' => D' = D) (fun s => s.aborted = false ∧ Q (s.visible D)) w

/-- The thread's transaction is aborted and no row has been committed. -/
abbrev Dropped (t : Nat) (now : Int) (D : Rows Pg) (w : World Pg) : Prop :=
  Open t now (fun _ => True) (fun D' => D' = D) Aborted w

theorem solo_retireEach (hw : Sees t now D (Expiring now schemaName ks [] V) w) :
    Solo t w₀ (fun done w' => Sees t now D (Expiring now schemaName [] done V) w') (fun _ w' => Dropped t now D w')
      (updateEach .retireExpired .jobs Jobs.isExpired Jobs.retirePatch ks) w := by
  refine tries_updateEach
    (P := fun ks (done : List (Table.Row .jobs)) w => Sees t now D (Expiring now schemaName ks done V) w) [] ?_ hw
  intro k ks done w hw
  refine tries_update (stable_eq _) trivial hw (fun e w₁ w' s env _ _ _ ho => ho) ?_ ?_ ?_
  · intro w₁ w' s env facts ha hq hmiss ho
    have hD : w₁.rows = D := facts.known
    have hnone : s.visible D .jobs k = none := by
      rw [← hD]
      exact hmiss.resolve_left (by simp)
    refine ho.mono (fun _ h => h) (fun _ h => h.trans hD) fun s' _ hs => hs ▸ ⟨ha, ?_⟩
    have skipped := hq.2.skip fun j hj => by
      rw [hnone] at hj
      cases hj
    simpa using skipped
  · intro w₁ w' s env old facts ha hq finds hkeep ho
    have hD : w₁.rows = D := facts.known
    rw [hD] at finds ho
    refine ho.mono (fun _ h => h) (fun _ h => h) fun s' _ hs => hs ▸ ⟨ha, ?_⟩
    have hold : s.visible D .jobs k = some old := finds.visible
    have same : (s.write D .jobs k (some old)).visible D = s.visible D := by
      funext tb k'
      by_cases ht : tb = .jobs
      · subst ht
        by_cases hk : k' = k
        · subst hk
          rw [Session.write_visible_same, hold]
        · rw [Session.write_visible_key s D _ hk]
      · rw [Session.write_visible_tbl s D _ ht]
    rw [same]
    have skipped := hq.2.skip fun j hj => by
      rw [hold] at hj
      cases hj
      exact hkeep
    simpa using skipped
  · intro w₁ w' s env old facts ha hq finds hkeep _ ho
    have hD : w₁.rows = D := facts.known
    rw [hD] at finds ho
    refine ho.mono (fun _ _ => trivial) (fun _ h => h) fun s' _ hs => hs ▸ ⟨ha, ?_⟩
    exact hq.2.retire finds.visible hkeep (Session.write_visible_same ..)
      (fun k' hk => Session.write_visible_key s D _ hk) (fun tb ht => by
        funext k'
        exact Session.write_visible_tbl s D _ ht)

theorem solo_unregisterEach (D' : Rows Pg) (ids : List String) (hw : Sees t now D (Clearing schemaName ids rest D') w) :
    Solo t w₀ (fun _ w' => Sees t now D (Clearing schemaName ids [] D') w') (fun _ w' => Dropped t now D w')
      (Reaper.unregisterEach schemaName rest) w := by
  induction rest generalizing w with
  | nil => exact tries_pure hw
  | cons id rest ih =>
    refine tries_bind (tries_bind (tries_query (stable_eq _) trivial hw (fun e w₁ w' s env _ _ _ ho => ho) ?_))
    intro w₁ w₂ s env facts ha hq ho
    have hD : w₁.rows = D := facts.known
    rw [hD] at ho ⊢
    have ho' : Sees t now D (fun V => V = s.visible D) w₂ :=
      ho.mono (fun _ h => h) (fun _ h => h) fun s' _ hs => ⟨hs ▸ ha, by rw [hs]⟩
    split
    next hsome =>
      refine tries_bind (tries_delete (stable_eq _) trivial ho' (fun e w₃ w' s₃ env _ _ _ ho => ho) ?_ ?_)
      · intro w₃ w₄ s₃ env₃ facts₃ _ hq₃ hnone _
        have hD₃ : w₃.rows = D := facts₃.known
        rw [hD₃, hq₃.2] at hnone
        have found : (s.visible D .cronJob (Jobs.cronKey (Jobs.cronJobName schemaName id))).isSome = true := hsome
        rw [hnone] at found
        cases found
      · intro w₃ w₄ s₃ env₃ facts₃ ha₃ hq₃ ho₃
        have hD₃ : w₃.rows = D := facts₃.known
        rw [hD₃] at ho₃
        refine tries_pure (ih (ho₃.mono (fun _ h => h) (fun _ h => h) fun s' _ hs => hs ▸ ⟨ha₃, ?_⟩))
        refine hq.2.next (Session.write_visible_same ..) (fun k hk => ?_) (fun tb ht => ?_)
        · rw [← hq₃.2]
          exact Session.write_visible_key s₃ D _ hk
        · rw [← hq₃.2]
          funext k
          exact Session.write_visible_tbl s₃ D _ ht
    next hsome =>
      refine tries_pure (ih (ho'.mono (fun _ h => h) (fun _ h => h) fun s' _ hs => ⟨hs.1, ?_⟩))
      rw [hs.2]
      exact hq.2.next (Option.not_isSome_iff_eq_none.mp hsome) (fun _ _ => rfl) fun _ _ => rfl

/-- A sweep in an open transaction retires all that has expired there, or the transaction is aborted. -/
theorem solo_reapSchema (w₀ : World Pg) (schemaName tablePrefix : String) (hw : Sees t now D (fun V' => V' = V) w) :
    Solo t w₀ (fun ids w' => Sees t now D (Sweep now schemaName ids V) w') (fun _ w' => Dropped t now D w')
      (Reaper.reapSchema ⟨schemaName, tablePrefix, true⟩ schemaName) w := by
  refine tries_bind (tries_bind ?_)
  refine tries_bind (tries_query (stable_eq _) trivial hw (fun e w₁ w' s env _ _ _ ho => ho) ?_)
  intro w₁ w₂ s env facts ha hq ho
  have hD : w₁.rows = D := facts.known
  have hV : s.visible w₁.rows = V := by rw [hD]; exact hq.2
  rw [hV]
  rw [hD] at ho
  have start : Sees t now D (Expiring now schemaName
      (matching ⟨now, V, w₁.keys⟩ schemaName .jobs Jobs.isExpired) [] V) w₂ := by
    refine ho.mono (fun _ h => h) (fun _ h => h) fun s' _ hs => hs ▸ ⟨ha, ?_⟩
    rw [hq.2]
    refine ⟨fun k => Or.inl rfl, fun k j hk hj hx => Or.inl ?_, fun x hx => absurd hx List.not_mem_nil, fun k hm => ?_,
      fun _ _ => rfl⟩
    · have hmem : k ∈ w₁.keys .jobs :=
        facts.sound.keyed .jobs k j (World.visible_version facts.session (hV ▸ hj))
      simp [matching, hmem, hk, hj, hx]
    · simp only [matching, List.mem_filter, Bool.and_eq_true, decide_eq_true_eq] at hm
      exact hm.2.1
  refine (solo_retireEach start).mono ?_ fun _ _ h => h
  intro done w₃ ho₃
  obtain ⟨s₃, l₃, hv₃, hn₃, hl₃, hk₃, ha₃, hq₃⟩ := ho₃
  refine tries_pure (tries_bind ((solo_unregisterEach (s₃.visible D) (done.map Job.jobId) ?_).mono ?_ fun _ _ h => h))
  · exact ⟨s₃, l₃, hv₃, hn₃, hl₃, hk₃, ha₃, fun k => Or.inl rfl, fun id hm => Or.inl hm, fun _ hm => hm, fun _ _ => rfl⟩
  · intro _ w₄ ho₄
    exact tries_pure (ho₄.mono (fun _ h => h) (fun _ h => h) fun s' _ hs => ⟨hs.1, hq₃.swept hs.2⟩)

/-- The sweep in a transaction of its own. -/
def sweepSchema (tablePrefix schemaName : String) : Try Pg DbError (List String) :=
  transaction id (Reaper.reapSchema ⟨schemaName, tablePrefix, true⟩ schemaName)

theorem solo_sweepSchema (idle : w.sessions t = none) :
    Solo t w (fun ids w' => w'.sessions t = none ∧ Sweep w.clock schemaName ids w.rows w'.rows)
      (fun _ w' => w'.sessions t = none ∧ w'.rows = w.rows) (sweepSchema tablePrefix schemaName) w := by
  have start : Idle t (fun _ => True) (fun D => D = w.rows) w := ⟨w.history t, by simp [World.view, idle], trivial, rfl⟩
  have gone : ∀ {w' : World Pg} {H K}, Idle t H K w' → w'.sessions t = none ∧ K w'.rows := by
    rintro w' H K ⟨l, hv, _, hk⟩
    exact ⟨congrArg Prod.fst hv, hk⟩
  refine tries_transaction (tries_begin (stable_eq _) trivial start (fun e w₁ env w' _ _ hi => gone hi) ?_)
  intro now w₁ w₂ env moment ho
  have hD : w₁.rows = w.rows := moment.known
  rw [hD] at ho
  have sees : Sees t now w.rows (fun V => V = w.rows) w₂ := by
    refine ho.mono (fun _ _ => trivial) (fun _ h => h) fun s _ hs => ⟨hs.1, ?_⟩
    funext tb k
    simp [Session.visible, hs.2 tb k]
  refine (solo_reapSchema _ _ _ sees).mono ?_ ?_
  · intro ids w₃ ho₃
    refine tries_commit (stable_eq _) trivial ho₃ (fun e w₄ w₅ s env _ _ _ hi => gone hi) ?_ ?_
    · intro w₄ w₅ s env facts ha hs _
      rw [hs.1] at ha
      cases ha
    · intro w₄ w₅ s env facts ha hs hi
      obtain ⟨hnone, hrows⟩ := gone hi
      have hD₄ : w₄.rows = w.rows := facts.known
      have hnow : s.now = w.clock := facts.inv.now idle s facts.session
      rw [hD₄] at hrows
      rw [hrows, ← hnow, facts.now]
      exact ⟨hnone, hs.2⟩
  · intro e w₃ ho₃
    exact holds_rollback (stable_eq _) trivial ho₃ fun w' hi => gone hi

end Invokr

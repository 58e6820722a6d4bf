import Invokr.TickWalk

namespace Invokr

open TxLib

variable {env : Setup} {g : Guard (service env)} {req : Request env} {t : Nat} {now : Int}
  {H : List (Entry Pg) → Prop} {K : Rows Pg → Prop} {Q : Session Pg → Prop} {w₀ : World Pg}

section executions

def Cancelled (now : Int) (b n : Option Execution) : Prop :=
  ∃ e e' : Execution, b = some e ∧ CancelStep now e e' ∧ n = some e'

/-- The transaction cancels executions and changes nothing else. -/
def Cancels (now : Int) (s : Session Pg) : Prop :=
  s.aborted = false ∧ Each (M := Pg) .executions (fun _ => Cancelled now) s ∧ Quiet (M := Pg) .jobs s ∧
    Quiet (M := Pg) .attempts s ∧ Quiet (M := Pg) .cronJob s

theorem cancels_started {s : Session Pg} (h : Started s) : Cancels now s :=
  ⟨h.1, each_started h, each_started h, each_started h, each_started h⟩

theorem Cancels.locks {s s' : Session Pg} (h : Cancels now s) (hl : Locks s s') : Cancels now s' := by
  obtain ⟨ha, he, hj, hat, hc⟩ := h
  exact ⟨hl.2.1.trans ha, he.locks hl, hj.locks hl, hat.locks hl, hc.locks hl⟩

/-- Of the versions an open transaction holds only the committed ones can still be cancelled. -/
theorem Cancels.write {s : Session Pg} {D : Rows Pg} {k : Key} {old : Execution} (h : Cancels now s)
    (finds : Finds (M := Pg) D s .executions k (s.baseOf D .executions k) old) (hc : Executions.cancellable old = true) :
    Cancels now (s.write D .executions k (some (Executions.cancelPatch.apply now old))) := by
  obtain ⟨ha, he, hj, hat, hcr⟩ := h
  have base : s.baseOf D .executions k = some old := by
    rcases finds.2 with hh | ⟨_, hb⟩
    · rcases he k _ hh with hsame | ⟨e, e', _, step, hn⟩
      · exact hsame.symm
      · obtain rfl : old = e' := Option.some.inj hn
        rw [step.2] at hc
        cases hc
    · exact hb
  refine ⟨ha, he.write (Or.inr ?_), hj.write_tbl (by decide), hat.write_tbl (by decide), hcr.write_tbl (by decide)⟩
  exact ⟨old, _, base, ⟨hc, rfl⟩, rfl⟩

theorem Cancels.visible {s : Session Pg} {w : World Pg} (h : Each (M := Pg) .executions (fun _ => Cancelled now) s)
    (sound : Sound w) (hs : w.sessions t = some s) (k : Key) :
    s.visible w.rows .executions k = w.rows .executions k ∨ ∃ e e' : Execution, w.rows .executions k = some e ∧
      CancelStep now e e' ∧ s.visible w.rows .executions k = some e' :=
  sound.visible_each hs h k

theorem Cancels.commit {s : Session Pg} {w : World Pg} (h : Cancels now s) (sound : Sound w)
    (hs : w.sessions t = some s) : Commit g req now w.rows (s.visible w.rows) := by
  obtain ⟨_, he, hj, hat, hc⟩ := h
  refine .cancelledExecutions (Cancels.visible he sound hs) fun tb hm => sound.visible_quiet hs ?_
  simp only [List.mem_cons, List.not_mem_nil, or_false] at hm
  rcases hm with rfl | rfl | rfl
  · exact hj
  · exact hat
  · exact hc

/-- A property of the open transaction that no further cancelled row takes away. -/
structure Lenient (R : Session Pg → Prop) : Prop where
  locks : ∀ s s', Locks s s' → R s → R s'
  cancel : ∀ s D k old now, Finds (M := Pg) D s .executions k (s.baseOf D .executions k) old → R s →
    R (s.write D .executions k (some (Executions.cancelPatch.apply now old)))
  apart : ∀ (s s' : Session Pg), s'.held .executions = s.held .executions → R s → R s'

theorem lenient_true : Lenient fun _ => True :=
  ⟨fun _ _ _ _ => trivial, fun _ _ _ _ _ _ _ => trivial, fun _ _ _ _ => trivial⟩

def waiting (jobId : String) (_ : Int) (e : Execution) : Bool := e.jobId = jobId && Executions.cancellable e

variable {R : Session Pg → Prop} {jobId : String} {err : DbError → World Pg → Prop}

theorem does_cancelEach {ks : List Key} (hR : Lenient R) (hK : Lasting K) (hreq : isWork req = false)
    (hw : Open t now (fun _ => True) K (fun s => Cancels now s ∧ R s) w₀)
    (herr : ∀ x w', Open t now (fun _ => True) K Aborted w' → err x w') :
    Does g req t (fun _ w' => Open t now (fun _ => True) K (fun s => Cancels now s ∧ R s) w') err
      (updateEach .cancelPending .executions (waiting jobId) Executions.cancelPatch ks) w₀ := by
  refine tries_updateEach (P := fun _ _ w => Open t now (fun _ => True) K (fun s => Cancels now s ∧ R s) w) [] ?_ hw
  intro k ks done w ho
  refine does_update hK extends_true (by decide) (covers_of_not_work hreq)
    (fun s s' hl h => ⟨h.1.locks hl, hR.locks s s' hl h.2⟩) ho (fun x _ w' _ _ _ _ _ h => herr x w' h)
    (fun w' h => h) ?_
  intro w₁ w' s e old _ _ hs finds hkeep ho'
  simp only [waiting, Bool.and_eq_true] at hkeep
  exact ho'.mono (fun _ h => h) (fun _ h => h) fun s' _ h => h ▸
    ⟨hs.1.write finds hkeep.2, hR.cancel s w₁.rows k old now finds hs.2⟩

/-- The execution of the job no longer waits for its first attempt. -/
def Begun (kj ke : Key) (D : Rows Pg) : Prop :=
  ∃ e : Execution, D .executions ke = some e ∧ jobKey ke e = kj ∧ Executions.cancellable e = false

theorem lasting_begun (kj ke : Key) : Lasting (Begun kj ke) :=
  lasting_execution fun e e' same h => ⟨by rw [← h.1, jobKey, jobKey, same.jobId], same.settled h.2⟩

def Ends (kj ke : Key) (s : Session Pg) : Prop :=
  ∃ b, ∃ e : Execution, s.held .executions ke = some ⟨b, some e⟩ ∧ jobKey ke e = kj ∧ Executions.cancellable e = false

theorem lenient_ends (kj ke : Key) : Lenient (Ends kj ke) where
  locks := by
    rintro s s' hl ⟨b, e, hh, hj, hc⟩
    exact ⟨b, e, hl.held hh, hj, hc⟩
  cancel := by
    rintro s D k old now finds ⟨b, e, hh, hj, hc⟩
    by_cases hk : ke = k
    · subst hk
      refine ⟨_, _, Session.write_held_same s D _ _ _, ?_, rfl⟩
      rcases finds.2 with hf | ⟨hf, _⟩
      · rw [hh] at hf
        cases hf
        exact hj
      · rw [hh] at hf
        cases hf
    · exact ⟨b, e, by rw [Session.write_held_key s D _ hk]; exact hh, hj, hc⟩
  apart := by
    rintro s s' he ⟨b, e, hh, hj, hc⟩
    exact ⟨b, e, by rw [he]; exact hh, hj, hc⟩

/-- The job's execution has begun, or this transaction cancels it. -/
def Halts (t : Nat) (now : Int) (K : Rows Pg → Prop) (kj ke : Key) (w : World Pg) : Prop :=
  Open t now (fun _ => True) (fun D => K D ∧ Begun kj ke D) (fun s => Cancels now s ∧ True) w ∨
    Open t now (fun _ => True) K (fun s => Cancels now s ∧ Ends kj ke s) w

/-- The job has the execution. -/
def Of (kj ke : Key) (D : Rows Pg) : Prop := ∃ e : Execution, D .executions ke = some e ∧ jobKey ke e = kj

theorem lasting_of (kj ke : Key) : Lasting (Of kj ke) :=
  lasting_execution fun e e' same h => by rw [← h, jobKey, jobKey, same.jobId]

theorem does_cancelRow {kj ke : Key} (hK : Lasting K) (hreq : isWork req = false) (hj : kj.id = jobId)
    (hw : Open t now (fun _ => True) (fun D => K D ∧ Of kj ke D) (fun s => Cancels now s) w₀)
    (herr : ∀ x w', Open t now (fun _ => True) K Aborted w' → err x w') :
    Does g req t (fun _ w' => Halts t now K kj ke w') err
      (update (M := Pg) .cancelPending .executions ke false (waiting jobId) Executions.cancelPatch) w₀ := by
  have known : ∀ {w : World Pg} {s : Session Pg}, Sound w → w.sessions t = some s → Cancels now s → Of kj ke w.rows →
      ∃ e : Execution, s.visible w.rows .executions ke = some e ∧ jobKey ke e = kj := by
    rintro w s sound hs hc ⟨e, he, hk⟩
    rcases Cancels.visible hc.2.1 sound hs ke with hv | ⟨e₀, e', he₀, step, hv⟩
    · exact ⟨e, hv.trans he, hk⟩
    · obtain rfl : e = e₀ := Option.some.inj (he.symm.trans he₀)
      exact ⟨e', hv, by rw [← hk, jobKey, jobKey, step.same.jobId]⟩
  refine tries_update (hK.and (lasting_of kj ke)).stable (free_pre hreq trivial) hw ?_ ?_ ?_ ?_
  · intro x w w' s e facts _ _ ho
    exact herr x w' (ho.mono (fun _ h => h) (fun _ h => h.1) fun _ _ h => h)
  · intro w w' s e facts _ hs hc ho
    obtain ⟨r, hr, _⟩ := known facts.sound facts.session hs facts.known.2
    rcases hc with ⟨h, _⟩ | h
    · cases h
    · rw [hr] at h
      cases h
  · intro w w' s e old facts _ hs finds hkeep ho
    obtain ⟨r, hr, hjob⟩ := known facts.sound facts.session hs facts.known.2
    obtain rfl : old = r := Option.some.inj (finds.visible.symm.trans hr)
    have hcan : Executions.cancellable old = false := by
      have hid : old.jobId = jobId := by rw [← hj, ← hjob, jobKey]
      simpa [waiting, hid] using hkeep
    exact Or.inr (ho.mono (fun _ h => h) (fun _ h => h ▸ facts.known.1) fun s' _ h => h ▸
      ⟨hs.locks finds.locks, _, old, Session.write_held_same s w.rows _ _ _, hjob, hcan⟩)
  · intro w w' s e old facts _ hs finds hkeep _ ho
    obtain ⟨r, hr, hjob⟩ := known facts.sound facts.session hs facts.known.2
    obtain rfl : old = r := Option.some.inj (finds.visible.symm.trans hr)
    simp only [waiting, Bool.and_eq_true] at hkeep
    exact Or.inr (ho.mono (fun _ _ => trivial) (fun _ h => h ▸ facts.known.1) fun s' _ h => h ▸
      ⟨hs.write finds hkeep.2, _, _, Session.write_held_same s w.rows _ _ _, hjob, rfl⟩)

theorem Halts.each {kj ke : Key} {ks : List Key} (h : Halts t now K kj ke w₀) (hK : Lasting K) (hreq : isWork req = false)
    (herr : ∀ x w', Open t now (fun _ => True) K Aborted w' → err x w') :
    Does g req t (fun _ w' => Halts t now K kj ke w') err
      (updateEach .cancelPending .executions (waiting jobId) Executions.cancelPatch ks) w₀ := by
  rcases h with h | h
  · refine (does_cancelEach lenient_true (hK.and (lasting_begun kj ke)) hreq h fun x w' ho => herr x w' ?_).mono
      (fun _ _ h => Or.inl h) fun _ _ h => h
    exact ho.mono (fun _ h => h) (fun _ h => h.1) fun _ _ h => h
  · exact (does_cancelEach (lenient_ends kj ke) hK hreq h herr).mono (fun _ _ h => Or.inr h) fun _ _ h => h

/-- The rows to be cancelled come one after the other; the job's execution is one of them. -/
theorem does_cancelThrough {kj ke : Key} {ks : List Key} (hK : Lasting K) (hreq : isWork req = false)
    (hj : kj.id = jobId) (hm : ke ∈ ks)
    (hw : Open t now (fun _ => True) (fun D => K D ∧ Of kj ke D) (fun s => Cancels now s) w₀)
    (herr : ∀ x w', Open t now (fun _ => True) K Aborted w' → err x w') :
    Does g req t (fun _ w' => Halts t now K kj ke w') err
      (updateEach .cancelPending .executions (waiting jobId) Executions.cancelPatch ks) w₀ := by
  induction ks generalizing w₀ with
  | nil => cases hm
  | cons k ks ih =>
    by_cases hk : ke = k
    · subst hk
      refine tries_bind ((does_cancelRow hK hreq hj hw herr).mono (fun r w' h => ?_) fun _ _ h => h)
      exact tries_bind ((h.each hK hreq herr).mono (fun _ _ h => tries_pure h) fun _ _ h => h)
    · have rest : ke ∈ ks := (List.mem_cons.mp hm).resolve_left hk
      refine tries_bind (does_update (hK.and (lasting_of kj ke)) extends_true (by decide) (covers_of_not_work hreq)
        (fun s s' hl h => h.locks hl) hw (fun x _ w' _ _ _ _ _ h => ?_) (fun w' h => ?_) ?_)
      · exact herr x w' (h.mono (fun _ h => h) (fun _ h => h.1) fun _ _ h => h)
      · exact tries_bind ((ih rest h).mono (fun _ _ h => tries_pure h) fun _ _ h => h)
      · intro w₁ w' s e old _ _ hs finds hkeep ho'
        simp only [waiting, Bool.and_eq_true] at hkeep
        have h : Open t now (fun _ => True) (fun D => K D ∧ Of kj ke D) (fun s => Cancels now s) w' :=
          ho'.mono (fun _ h => h) (fun _ h => h) fun s' _ h => h ▸ hs.write finds hkeep.2
        exact tries_bind ((ih rest h).mono (fun _ _ h => tries_pure h) fun _ _ h => h)

end executions

section jobs

variable {R : Session Pg → Prop} {k : Key}

/-- The transaction retires the job; it may cancel executions too. -/
def Retires (now : Int) (k : Key) (j : Job) (s : Session Pg) : Prop :=
  s.aborted = false ∧ j.status = .active ∧
    Only (M := Pg) .jobs k (some j) (some (Jobs.retirePatch.apply now j)) s ∧
    Each (M := Pg) .executions (fun _ => Cancelled now) s ∧ Quiet (M := Pg) .attempts s ∧ Quiet (M := Pg) .cronJob s

theorem Retires.locks {j : Job} {s s' : Session Pg} (h : Retires now k j s) (hl : Locks s s') : Retires now k j s' := by
  obtain ⟨ha, hact, hj, he, hat, hc⟩ := h
  exact ⟨hl.2.1.trans ha, hact, hj.locks hl, he.locks hl, hat.locks hl, hc.locks hl⟩

/-- `Jobs.cancel` in a transaction that has at most cancelled executions. -/
theorem does_retire {ok : Option (Table.Row .jobs) → World Pg → Prop} {err : DbError → World Pg → Prop}
    (hlock : ∀ s s', Locks s s' → R s → R s')
    (apart : ∀ s s' : Session Pg, s'.held .executions = s.held .executions → R s → R s') (hK : Lasting K)
    (hreq : isWork req = false) (hw : Open t now (fun _ => True) K (fun s => Cancels now s ∧ R s) w₀)
    (herr : ∀ x w', Open t now (fun _ => True) K Aborted w' → err x w')
    (hmiss : ∀ w', Open t now (fun _ => True) K (fun s => Cancels now s ∧ R s) w' → ok none w')
    (hhit : ∀ j w', Open t now (fun _ => True) K (fun s => Retires now k j s ∧ R s) w' →
      ok (some (Jobs.retirePatch.apply now j)) w') :
    Does g req t ok err (updateOne .cancelJob .jobs k Jobs.isActive Jobs.retirePatch) w₀ := by
  refine does_updateOne hK (fun s s' hl h => ⟨h.1.locks hl, hlock s s' hl h.2⟩) ?_
    (covers_of_not_work hreq) hw (fun x _ _ w' _ _ _ _ _ _ h => herr x w' h) ?_ ?_
  · decide
  · intro _ w w' s e facts _ _ _ _ ho
    exact hmiss w' (ho.mono (fun _ h => h) (fun _ h => h ▸ facts.known) fun _ _ h => h)
  · intro w w' s e old facts ha hs finds hkeep ho
    obtain ⟨⟨_, he, hj, hat, hc⟩, hr⟩ := hs
    obtain ⟨hb, _⟩ := hj.found finds
    refine hhit old w' (ho.mono (fun _ _ => trivial) (fun _ h => h ▸ facts.known) fun s' _ h => ?_)
    subst h
    have only := hj.only (D := w.rows) (k := k) (v := some (Jobs.retirePatch.apply now old))
    rw [hb] at only
    refine ⟨⟨ha, by simpa [Jobs.isActive] using hkeep, only, he.write_tbl (by decide), hat.write_tbl (by decide),
      hc.write_tbl (by decide)⟩, apart s _ ?_ hr⟩
    exact funext fun k' => Session.write_held_tbl s w.rows _ (by decide)

theorem Retires.commit {j : Job} {s : Session Pg} {w : World Pg} (h : Retires now k j s) (sound : Sound w)
    (hs : w.sessions t = some s) (once : j.triggerType ≠ .cron) (user : j.endpointType ≠ .internal) :
    Commit g req now w.rows (s.visible w.rows) := by
  obtain ⟨_, active, only, he, hat, hc⟩ := h
  obtain ⟨found, jobs⟩ := sound.visible_only hs only
  refine .cancelled found once ⟨⟨active, rfl⟩, user⟩ jobs (Cancels.visible he sound hs) fun tb hm => sound.visible_quiet hs ?_
  simp only [List.mem_cons, List.not_mem_nil, or_false] at hm
  rcases hm with rfl | rfl
  · exact hat
  · exact hc

end jobs

section entries

variable {k : Key}

theorem does_unregister {ok : Unit → World Pg → Prop} {err : DbError → World Pg → Prop} (hK : Lasting K)
    (covers : Covers g req t now H K Q) (hw : Open t now H K Q w₀)
    (herr : ∀ x o w w' s e, At g req t now H K w s e o → s.aborted = true ∨ e.fault = true → Q s →
      Open t now H K Aborted w' → err x w')
    (hmiss : ∀ o w w' s e, At g req t now H K w s e o → s.aborted = false → Q s →
      s.visible w.rows .cronJob (entryKey k) = none → Open t now H K (fun s' => s' = s) w' → ok () w')
    (hok : ∀ o w w' s e, At g req t now H K w s e o → s.aborted = false → Q s →
      Open t now H K (fun s' => s' = s.write w.rows .cronJob (entryKey k) none) w' → ok () w') :
    Does g req t ok err (Jobs.unregisterPgCronConn k.schema k.id) w₀ := by
  refine tries_bind (tries_query hK.stable (covers _ _ trivial hw) hw
    (fun x w w' s e facts hc hq ho => herr x _ w w' s e facts hc hq ho) ?_)
  intro w w' s e facts ha hq ho
  have ho' : Open t now H K (fun s' => s' = s) w' := ho.mono (fun _ h => h) (fun _ h => h ▸ facts.known) fun _ _ h => h
  simp only
  split
  next =>
    have hw' : Open t now H K Q w' := ho'.mono (fun _ h => h) (fun _ h => h) fun s' _ h => h ▸ hq
    refine tries_bind (tries_delete hK.stable (covers _ _ trivial hw') hw' ?_ ?_ ?_)
    · intro x w₁ w₂ s₁ e₁ facts₁ hc hq₁ ho₁
      refine herr x _ w₁ w₂ s₁ e₁ facts₁ ?_ hq₁ ho₁
      rcases hc with h | h | h
      · exact Or.inl h
      · exact Or.inr h
      · cases h
    · intro w₁ w₂ s₁ e₁ facts₁ ha₁ hq₁ hv ho₁
      exact tries_pure (hmiss _ w₁ w₂ s₁ e₁ facts₁ ha₁ hq₁ hv
        (ho₁.mono (fun _ h => h) (fun _ h => h ▸ facts₁.known) fun _ _ h => h))
    · intro w₁ w₂ s₁ e₁ facts₁ ha₁ hq₁ ho₁
      exact tries_pure (hok _ w₁ w₂ s₁ e₁ facts₁ ha₁ hq₁
        (ho₁.mono (fun _ h => h) (fun _ h => h ▸ facts₁.known) fun _ _ h => h))
  next hn => exact tries_pure (hmiss _ w w' s e facts ha hq (by simpa [entryKey] using hn) ho')

/-- Of the entries the transaction changes at most the job's, which it deletes. -/
def Unschedules (g : Guard (service env)) (k : Key) (s : Session Pg) : Prop :=
  (∃ b, Only (M := Pg) .cronJob (entryKey k) b none s) ∨ (¬Official g ∧ Quiet (M := Pg) .cronJob s)

/-- An ACTIVE CRON job that the transaction holds has an entry to delete. -/
theorem entry_visible {w : World Pg} {s : Session Pg} {j : Job} {n : Option Job} (agree : Agree env w.rows)
    (sound : Sound w) (hs : w.sessions t = some s) (held : s.held .jobs k = some ⟨some j, n⟩)
    (active : j.status = .active) (cron : j.triggerType = .cron) (hc : Quiet (M := Pg) .cronJob s) :
    s.visible w.rows .cronJob (entryKey k) ≠ none := by
  have hj : w.rows .jobs k = some j := (sound.held t s .jobs k _ hs held).2
  obtain ⟨expression, _, he⟩ := agree.job k j hj active cron
  rw [sound.quiet_visible hs hc, he]
  exact Option.some_ne_none _

theorem Unschedules.visible {s : Session Pg} {w : World Pg} (h : Unschedules g k s) (sound : Sound w)
    (hs : w.sessions t = some s) (k' : Key) : s.visible w.rows .cronJob k' = w.rows .cronJob k' ∨
      (k' = entryKey k ∧ s.visible w.rows .cronJob k' = none) := by
  rcases h with ⟨b, only⟩ | ⟨_, quiet⟩
  · have hu := (sound.visible_only hs only).2
    by_cases hk : k' = entryKey k
    · exact Or.inr ⟨hk, by rw [hu, hk, Function.update_self]⟩
    · exact Or.inl (by rw [hu, Function.update_of_ne hk])
  · exact Or.inl (sound.quiet_visible hs quiet k')

theorem Unschedules.gone {s : Session Pg} {D : Rows Pg} (h : Unschedules g k s) (official : Official g) :
    s.visible D .cronJob (entryKey k) = none := by
  rcases h with ⟨b, only⟩ | ⟨loose, _⟩
  · exact only.visible
  · exact (loose official).elim

end entries

end Invokr

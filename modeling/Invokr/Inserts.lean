import Invokr.DbRules

namespace Invokr

open TxLib

variable {env : Setup} {g : Guard (service env)} {req : Request env} {t : Nat} {now : Int}
  {H : List (Entry Pg) → Prop} {K : Rows Pg → Prop} {w₀ : World Pg}

theorem execute_inTx {α : Type} {db : DbContext} (h : db.inTx = true) (x : Try Pg DbError α) : db.execute x = x := by
  simp [DbContext.execute, h]

theorem execute_alone {α : Type} {db : DbContext} (h : db.inTx = false) (x : Try Pg DbError α) :
    db.execute x = transaction id x := by
  simp [DbContext.execute, h]

/-- The transaction has inserted the row and done nothing else yet. -/
def Inserted (tb : Table) (k : Key) (r : tb.Row) (s : Session Pg) : Prop :=
  s.aborted = false ∧ Only (M := Pg) tb k none (some r) s ∧ ∀ tb', tb' ≠ tb → ∀ k, s.held tb' k = none

/-- The transaction has inserted the job; nothing that belongs to jobs is changed otherwise. -/
def JobReady (k : Key) (j : Job) (s : Session Pg) : Prop :=
  s.aborted = false ∧ Only (M := Pg) .jobs k none (some j) s ∧ Quiet (M := Pg) .cronJob s ∧
    Quiet (M := Pg) .executions s ∧ Quiet (M := Pg) .attempts s

/-- The transaction has inserted the job and its execution. -/
def PairInserted (kj : Key) (j : Job) (ke : Key) (e : Execution) (s : Session Pg) : Prop :=
  s.aborted = false ∧ Only (M := Pg) .jobs kj none (some j) s ∧ Only (M := Pg) .executions ke none (some e) s ∧
    Quiet (M := Pg) .attempts s ∧ Quiet (M := Pg) .cronJob s

/-- The transaction has inserted the job and its entry. -/
def EntryInserted (k : Key) (j : Job) (c : CronEntry) (s : Session Pg) : Prop :=
  s.aborted = false ∧ Only (M := Pg) .jobs k none (some j) s ∧
    (∃ b, Only (M := Pg) .cronJob (entryKey k) b (some c) s) ∧
    Quiet (M := Pg) .executions s ∧ Quiet (M := Pg) .attempts s

theorem quiet_of_none {tb : Table} {s : Session Pg} (h : ∀ k, s.held tb k = none) : Quiet (M := Pg) tb s := by
  intro k hd hh
  rw [h k] at hh
  cases hh

theorem baseOf_none {tb : Table} {k : Key} {s : Session Pg} {D : Rows Pg} (hh : s.held tb k = none) (hD : D tb k = none) :
    s.baseOf D tb k = none := by
  simp [Session.baseOf, hh, hD]

theorem visible_started {s : Session Pg} {D : Rows Pg} (h : Started s) : s.visible D = D := by
  funext tb k
  simp [Session.visible, h.2 tb k]

theorem Inserted.write {tb : Table} {k : Key} {r : tb.Row} {s : Session Pg} {D : Rows Pg} (hs : Started s)
    (hD : D tb k = none) : Inserted tb k r (s.write D tb k (some r)) := by
  refine ⟨hs.1, ?_, fun tb' ht k' => ?_⟩
  · have quiet : Quiet (M := Pg) tb s := each_started hs
    have := quiet.only (D := D) (k := k) (v := some r)
    rwa [baseOf_none (hs.2 tb k) hD] at this
  · rw [Session.write_held_tbl s D _ ht]
    exact hs.2 tb' k'

theorem Inserted.ready {k : Key} {j : Job} {s : Session Pg} (h : Inserted .jobs k j s) : JobReady k j s :=
  ⟨h.1, h.2.1, quiet_of_none (h.2.2 .cronJob (by decide)), quiet_of_none (h.2.2 .executions (by decide)),
    quiet_of_none (h.2.2 .attempts (by decide))⟩

theorem Inserted.insertJob {tb : Table} {k k' : Key} {r : tb.Row} {j : Job} {s : Session Pg} {D : Rows Pg}
    (h : Inserted tb k r s) (ht : Side tb = true) (hD : D .jobs k' = none) :
    JobReady k' j (s.write D .jobs k' (some j)) := by
  have free : ∀ tb', Side tb' = false → ∀ k, s.held tb' k = none := fun tb' hf =>
    h.2.2 tb' fun he => by rw [he, ht] at hf; cases hf
  refine ⟨h.1, ?_, ?_, ?_, ?_⟩
  · have := (quiet_of_none (free .jobs rfl)).only (D := D) (k := k') (v := some j)
    rwa [baseOf_none (free .jobs rfl k') hD] at this
  · exact (quiet_of_none (free .cronJob rfl)).write_tbl (by decide)
  · exact (quiet_of_none (free .executions rfl)).write_tbl (by decide)
  · exact (quiet_of_none (free .attempts rfl)).write_tbl (by decide)

theorem does_insertFirst {stmt : Statement} {tb : Table} {build : Uuid → Int → Key × tb.Row}
    {ok : tb.Row → World Pg → Prop} {err : DbError → World Pg → Prop} (hK : Lasting K) (hreq : isWork req = false)
    (hp : tb ≠ .cronJob) (hw : Open t now H K Started w₀)
    (herr : ∀ x w w' s e, At g req t now H K w s e (.insert stmt tb false build) →
      InsertFails w s e tb (build e.fresh now) → Started s → Open t now H K Aborted w' → err x w')
    (hok : ∀ id w', Open t now H K (Inserted tb (build id now).1 (build id now).2) w' → ok (build id now).2 w') :
    Does g req t ok err (insertOne stmt tb build) w₀ := by
  refine does_insertOne hK hp (covers_of_not_work hreq) hw herr fun w w' s e facts _ hs hn _ ho => ?_
  refine hok e.fresh w' (ho.mono (fun _ h => h) (fun _ h => h ▸ facts.known) fun s' _ h => ?_)
  subst h
  exact .write hs hn

theorem does_insertExecution {stmt : Statement} {kj : Key} {j : Job} {build : Uuid → Int → Key × Execution}
    {ok : Execution → World Pg → Prop} {err : DbError → World Pg → Prop} (hK : Lasting K) (hreq : isWork req = false)
    (hw : Open t now H K (Inserted .jobs kj j) w₀)
    (herr : ∀ x w w' s e, At g req t now H K w s e (.insert stmt .executions false build) →
      InsertFails w s e .executions (build e.fresh now) → Inserted .jobs kj j s → Open t now H K Aborted w' → err x w')
    (hok : ∀ id w', Open t now H K (PairInserted kj j (build id now).1 (build id now).2) w' → ok (build id now).2 w') :
    Does g req t ok err (insertOne stmt .executions build) w₀ := by
  refine does_insertOne hK (by decide) (covers_of_not_work hreq) hw herr fun w w' s e facts ha hs hn hh ho => ?_
  refine hok e.fresh w' (ho.mono (fun _ h => h) (fun _ h => h ▸ facts.known) fun s' _ h => ?_)
  subst h
  obtain ⟨_, only, rest⟩ := hs
  refine ⟨ha, only.write_tbl (by decide), ?_, ?_, ?_⟩
  · have := (quiet_of_none (rest .executions (by decide))).only (D := w.rows) (k := (build e.fresh now).1)
      (v := some (build e.fresh now).2)
    rwa [baseOf_none hh hn] at this
  · exact (quiet_of_none (rest .attempts (by decide))).write_tbl (by decide)
  · exact (quiet_of_none (rest .cronJob (by decide))).write_tbl (by decide)

/-- The expression of a job that a transaction holds is a text the schedule can take. -/
theorem expression_accepted {w : World Pg} {s : Session Pg} {k : Key} {j : Job} {expression : String}
    {b : Option Job} (sound : Sound w) (hs : w.sessions t = some s) (held : s.held .jobs k = some ⟨b, some j⟩)
    (hj : j.cronExpression = some expression) : textAccepts expression = true := by
  have stored : Pg.storable .jobs j = true := sound.stored .jobs k j (Or.inr ⟨t, s, _, hs, held, rfl⟩)
  simp only [Table.storable, hj, Bool.and_eq_true, Option.all_some] at stored
  exact stored.1.1.1.1.2

theorem does_register {Q : Session Pg → Prop} {k : Key} {expression : String} {ok : Unit → World Pg → Prop}
    {err : DbError → World Pg → Prop} (hK : Lasting K) (hreq : isWork req = false) (hw : Open t now H K Q w₀)
    (live : ∀ s, Q s → s.aborted = false)
    (accepted : ∀ w s, Sound w → w.sessions t = some s → Q s → textAccepts expression = true)
    (herr : ∀ x w w' e, Here g req t H K w e
        (.put .schedule .cronJob (entryKey k) (entryOf env k expression)) → e.fault = true →
      Open t now H K Aborted w' → err x w')
    (hok : ∀ (w : World Pg) w' s, Q s → Open t now H K
      (fun s' => s' = s.write w.rows .cronJob (entryKey k) (some (entryOf env k expression))) w' → ok () w') :
    Does g req t ok err (Jobs.registerPgCronConn env.tablePrefix k.schema k.id expression) w₀ := by
  refine tries_put hK.stable (free_pre hreq trivial) hw ?_ ?_
  · intro x w w' s e facts hc hs ho
    refine herr x w w' e facts.toMoment ?_ ho
    rcases hc with h | h | h | h
    · rw [live s hs] at h
      cases h
    · exact h
    · cases h
    · simp [Table.storable, accepted w s facts.sound facts.session hs] at h
  · intro w w' s e facts ha hs ho
    exact hok w w' s hs (ho.mono (fun _ h => h) (fun _ h => h ▸ facts.known) fun _ _ h => h)

theorem does_register_ready {k : Key} {j : Job} {expression : String} {ok : Unit → World Pg → Prop}
    {err : DbError → World Pg → Prop} (hK : Lasting K) (hreq : isWork req = false)
    (hw : Open t now H K (JobReady k j) w₀) (hj : j.cronExpression = some expression)
    (herr : ∀ x w w' e, Here g req t H K w e
        (.put .schedule .cronJob (entryKey k) (entryOf env k expression)) → e.fault = true →
      Open t now H K Aborted w' → err x w')
    (hok : ∀ w', Open t now H K (EntryInserted k j (entryOf env k expression)) w' → ok () w') :
    Does g req t ok err (Jobs.registerPgCronConn env.tablePrefix k.schema k.id expression) w₀ := by
  refine does_register hK hreq hw (fun s hs => hs.1) (fun w s sound hs h => expression_accepted sound hs h.2.1.1 hj)
    herr fun w w' s hs ho => hok w' (ho.mono (fun _ h => h) (fun _ h => h) fun s' _ h => ?_)
  subst h
  obtain ⟨ha, only, hc, he, hat⟩ := hs
  exact ⟨ha, only.write_tbl (by decide), ⟨_, hc.only⟩, he.write_tbl (by decide), hat.write_tbl (by decide)⟩

theorem PairInserted.commit {kj ke : Key} {j : Job} {e : Execution} {s : Session Pg} {w : World Pg}
    (h : PairInserted kj j ke e s) (sound : Sound w) (hs : w.sessions t = some s) (asked : Asked g req kj j)
    (job : NewJob kj j none) (once : j.triggerType ≠ .cron) (new : NewExecution kj j ke e) (twin : Twin j e) :
    Commit g req now w.rows (s.visible w.rows) := by
  obtain ⟨_, hj, he, ha, hc⟩ := h
  obtain ⟨free, jobs⟩ := sound.visible_only hs hj
  obtain ⟨unused, executions⟩ := sound.visible_only hs he
  refine .oneShot free unused asked job once new twin jobs executions fun tb hm => ?_
  simp only [List.mem_cons, List.not_mem_nil, or_false] at hm
  rcases hm with rfl | rfl
  · exact sound.visible_quiet hs ha
  · exact sound.visible_quiet hs hc

theorem EntryInserted.commit {k : Key} {j : Job} {expression : String} {s : Session Pg} {w : World Pg}
    (h : EntryInserted k j (entryOf env k expression) s) (sound : Sound w) (hs : w.sessions t = some s)
    (asked : Asked g req k j) (job : NewJob k j none) (cron : j.triggerType = .cron)
    (hj : j.cronExpression = some expression) : Commit g req now w.rows (s.visible w.rows) := by
  obtain ⟨_, only, ⟨b, entry⟩, he, ha⟩ := h
  obtain ⟨free, jobs⟩ := sound.visible_only hs only
  obtain ⟨_, entries⟩ := sound.visible_only hs entry
  refine .scheduled free asked job cron hj jobs entries fun tb hm => ?_
  simp only [List.mem_cons, List.not_mem_nil, or_false] at hm
  rcases hm with rfl | rfl
  · exact sound.visible_quiet hs he
  · exact sound.visible_quiet hs ha

/-- The commit of a transaction that is open, by what it does. -/
theorem does_commit {Q : Session Pg → Prop} {ok : Unit → World Pg → Prop} {err : DbError → World Pg → Prop}
    (hK : Lasting K) (hreq : isWork req = false) (ticking : Ticking req t w₀) (hw : Open t now H K Q w₀)
    (live : ∀ s, Q s → s.aborted = false)
    (commits : ∀ w s e, At g req t now H K w s e .commit → Q s → Commit g req now w.rows (s.visible w.rows))
    (herr : ∀ x w w' e, Here g req t H K w e .commit → e.fault = true →
      Idle t (fun l => ∃ l₀, H l₀ ∧ l = l₀ ++ [.abort]) K w' → err x w')
    (hok : ∀ w w' s e, At g req t now H K w s e .commit → Q s →
      Idle t (fun l => ∃ l₀, H l₀ ∧ l = l₀ ++ [.commit s]) (fun D => K D ∧ D = s.visible w.rows) w' → ok () w') :
    Does g req t ok err (commitTx : Try Pg DbError Unit) w₀ := by
  refine tries_commit hK.stable ⟨rest_of_not_work hreq, ?_, ticking⟩ hw ?_ ?_ ?_
  · intro s l hv _ w e later sound inv hv' allow
    obtain ⟨s₀, l₀, hv₀, hn, hl, hk, hq⟩ := hw
    rw [hv₀] at hv
    cases hv
    subst hn
    have past : w.history t = l := congrArg Prod.snd hv'
    exact commits w s e ⟨⟨sound, inv, allow, past ▸ hl, hK _ _ later hk⟩, congrArg Prod.fst hv', rfl⟩ hq
  · intro x w w' s e facts hf _ hi
    exact herr x w w' e facts.toMoment hf hi
  · intro w w' s e _ ha hq _
    rw [live s hq] at ha
    cases ha
  · intro w w' s e facts _ hq hi
    have c := commits w s e facts hq
    exact hok w w' s e facts hq (hi.mono (fun _ h => h) fun D h => ⟨h ▸ hK _ _ c.later facts.known, h⟩)

end Invokr

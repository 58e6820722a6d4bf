import Invokr.SideRequests

namespace Invokr

open TxLib

variable {env : Setup} {g : Guard (service env)} {req : Request env} {t : Nat} {now : Int}
  {H : List (Entry Pg) → Prop} {K : Rows Pg → Prop} {Q : Session Pg → Prop} {w₀ : World Pg}

abbrev Here (g : Guard (service env)) (req : Request env) (t : Nat) (H : List (Entry Pg) → Prop) (K : Rows Pg → Prop)
    (w : World Pg) (e : Env Pg) (o : Op Pg) : Prop := Moment (base g).inv (g.step req) t H K w e o

abbrev At (g : Guard (service env)) (req : Request env) (t : Nat) (now : Int) (H : List (Entry Pg) → Prop)
    (K : Rows Pg → Prop) (w : World Pg) (s : Session Pg) (e : Env Pg) (o : Op Pg) : Prop :=
  Facts (base g).inv (g.step req) t now H K w s e o

/-- Knowledge that commits do not take away. -/
def Lasting (K : Rows Pg → Prop) : Prop := ∀ D D', Later D D' → K D → K D'

theorem Lasting.stable (h : Lasting K) : Stable (base g).rely K := fun w w' hl => h w.rows w'.rows hl

theorem lasting_true : Lasting fun _ => True := fun _ _ _ _ => trivial

theorem Lasting.and {K' : Rows Pg → Prop} (h : Lasting K) (h' : Lasting K') : Lasting fun D => K D ∧ K' D :=
  fun D D' hl hk => ⟨h D D' hl hk.1, h' D D' hl hk.2⟩

theorem lasting_job {k : Key} {P : Job → Prop} (hP : ∀ j j', SameJob j j' → P j → P j') :
    Lasting fun D => ∃ j : Job, D .jobs k = some j ∧ P j := by
  rintro D D' hl ⟨j, hj, hp⟩
  obtain ⟨j', hj', same⟩ := hl.job k j hj
  exact ⟨j', hj', hP j j' same hp⟩

theorem lasting_execution {k : Key} {P : Execution → Prop} (hP : ∀ e e', SameExecution e e' → P e → P e') :
    Lasting fun D => ∃ e : Execution, D .executions k = some e ∧ P e := by
  rintro D D' hl ⟨e, he, hp⟩
  obtain ⟨e', he', same⟩ := hl.execution k e he
  exact ⟨e', he', hP e e' same hp⟩

/-- The calls about which the outline has nothing to say. -/
def Free : Op Pg → Prop
  | .commit | .rollback | .deleteNow .. | .ext (.dispatch _) | .update .claim .. => False
  | _ => True

/-- What is open satisfies the outline at every such call. -/
def Covers (g : Guard (service env)) (req : Request env) (t : Nat) (now : Int) (H : List (Entry Pg) → Prop)
    (K : Rows Pg → Prop) (Q : Session Pg → Prop) : Prop :=
  ∀ w o, Free o → Open t now H K Q w → (base g).pre req t w o

theorem free_calls {w : World Pg} {o : Op Pg} (ho : Free o) : Calls g req t w o := by
  cases o with
  | ext e => cases e <;> trivial
  | update stmt tb k skip keep patch =>
    cases stmt with
    | claim => exact ho.elim
    | _ => trivial
  | commit | rollback | deleteNow => exact ho.elim
  | _ => trivial

theorem free_pre {w : World Pg} {o : Op Pg} (hreq : isWork req = false) (ho : Free o) : (base g).pre req t w o :=
  ⟨rest_of_not_work hreq, free_calls ho⟩

theorem covers_of_not_work (hreq : isWork req = false) : Covers g req t now H K Q := fun _ _ ho _ => free_pre hreq ho

theorem update_free {stmt : Statement} {tb : Table} {k : Key} {skip : Bool} {keep : Int → tb.Row → Bool}
    {patch : Patch Pg tb} (h : stmt ≠ .claim) : Free (.update stmt tb k skip keep patch) := by
  cases stmt with
  | claim => exact h rfl
  | _ => trivial

/-- Why an `UPDATE` of one row is rejected. -/
def UpdateFails (w : World Pg) (s : Session Pg) (e : Env Pg) (o : Op Pg) (stmt : Statement) (tb : Table) (k : Key)
    (keep : Int → tb.Row → Bool) (patch : Patch Pg tb) : Prop :=
  s.aborted = true ∨ e.fault = true ∨ o = .update stmt tb k false keep patch ∧ ∃ old, s.visible w.rows tb k = some old ∧ keep s.now old = true ∧
    (Pg.storable tb (patch.apply s.now old) = false ∨
      refsVisible (M := Pg) (s.visible w.rows) tb k (patch.apply s.now old) = false)

theorem does_updateOne {stmt : Statement} {tb : Table} {k : Key} {keep : Int → tb.Row → Bool} {patch : Patch Pg tb}
    {ok : Option tb.Row → World Pg → Prop} {err : DbError → World Pg → Prop} (hK : Lasting K)
    (hQ : ∀ s s', Locks s s' → Q s → Q s') (hstmt : stmt ≠ .claim) (covers : Covers g req t now H K Q)
    (hw : Open t now H K Q w₀)
    (herr : ∀ x o w w' s e, At g req t now H K w s e o → o = .snapshot stmt ∨ o = .update stmt tb k false keep patch →
      UpdateFails w s e o stmt tb k keep patch → Q s → Open t now H K Aborted w' → err x w')
    (hmiss : ∀ o w w' s e, At g req t now H K w s e o → o = .snapshot stmt ∨ o = .update stmt tb k false keep patch →
      s.aborted = false → Q s → (∀ old, s.visible w.rows tb k = some old → keep now old = false) →
      Open t now H (fun D => D = w.rows) Q w' → ok none w')
    (hhit : ∀ w w' s e old, At g req t now H K w s e (.update stmt tb k false keep patch) → s.aborted = false → Q s →
      Finds w.rows s tb k (s.baseOf w.rows tb k) old → keep now old = true →
      Open t now (fun l => ∃ l₀, H l₀ ∧ l = l₀ ++ [.updated stmt tb k (s.baseOf w.rows tb k)]) (fun D => D = w.rows)
        (fun s' => s' = s.write w.rows tb k (some (patch.apply now old))) w' → ok (some (patch.apply now old)) w') :
    Does g req t ok err (updateOne stmt tb k keep patch) w₀ := by
  refine tries_bind (tries_query hK.stable (covers _ _ trivial hw) hw ?_ ?_)
  · intro x w w' s e facts hc hq ho
    exact herr x _ w w' s e facts (Or.inl rfl) (hc.imp_right Or.inl) hq ho
  · intro w w' s e facts ha hq ho
    have missed : (∀ old, s.visible w.rows tb k = some old → keep now old = false) → ok none w' := fun hn =>
      hmiss _ w w' s e facts (Or.inl rfl) ha hq hn (ho.mono (fun _ h => h) (fun _ h => h) fun s' _ h => h ▸ hq)
    simp only
    split
    next hv => exact tries_pure (missed fun old h => by rw [hv] at h; cases h)
    next r hv =>
      split
      next hkeep =>
        have hw' : Open t now H K Q w' :=
          ho.mono (fun _ h => h) (fun _ h => h ▸ facts.known) fun s' _ h => h ▸ hq
        refine tries_update hK.stable (covers _ _ (update_free hstmt) hw') hw' ?_ ?_ ?_ ?_
        · intro x w₁ w₂ s₁ e₁ facts₁ hc hq₁ ho₁
          refine herr x _ w₁ w₂ s₁ e₁ facts₁ (Or.inr rfl) ?_ hq₁ ho₁
          unfold UpdateFails
          rw [facts₁.now]
          exact hc.imp_right fun h => h.imp_right fun h => ⟨rfl, h⟩
        · intro w₁ w₂ s₁ e₁ facts₁ ha₁ hq₁ hc ho₁
          rcases hc with ⟨hs, _⟩ | hn
          · cases hs
          · refine hmiss _ w₁ w₂ s₁ e₁ facts₁ (Or.inr rfl) ha₁ hq₁ (fun old h => ?_) ?_
            · rw [hn] at h
              cases h
            · exact ho₁.mono (fun _ h => h) (fun _ h => h) fun s' _ h => h ▸ hq₁
        · intro w₁ w₂ s₁ e₁ old facts₁ ha₁ hq₁ finds hk ho₁
          refine hmiss _ w₁ w₂ s₁ e₁ facts₁ (Or.inr rfl) ha₁ hq₁ (fun old' h => ?_) ?_
          · rw [finds.visible] at h
            cases h
            exact hk
          · exact ho₁.mono (fun _ h => h) (fun _ h => h) fun s' _ h => h ▸ hQ _ _ finds.locks hq₁
        · intro w₁ w₂ s₁ e₁ old facts₁ ha₁ hq₁ finds hk _ ho₁
          exact hhit w₁ w₂ s₁ e₁ old facts₁ ha₁ hq₁ finds hk ho₁
      next hkeep =>
        refine tries_pure (missed fun old h => ?_)
        rw [hv] at h
        cases h
        simpa using hkeep

/-- Why an `INSERT` is rejected. -/
def InsertFails (w : World Pg) (s : Session Pg) (e : Env Pg) (tb : Table) (new : Key × tb.Row) : Prop :=
  s.aborted = true ∨ e.fault = true ∨ Pg.storable tb new.2 = false ∨
    clash (M := Pg) w.rows w.keys s tb new.1 new.2 = true ∨
    refsVisible (M := Pg) (s.visible w.rows) tb new.1 new.2 = false

theorem does_insertOne {stmt : Statement} {tb : Table} {build : Uuid → Int → Key × tb.Row}
    {ok : tb.Row → World Pg → Prop} {err : DbError → World Pg → Prop} (hK : Lasting K) (hp : tb ≠ .cronJob)
    (covers : Covers g req t now H K Q) (hw : Open t now H K Q w₀)
    (herr : ∀ x w w' s e, At g req t now H K w s e (.insert stmt tb false build) →
      InsertFails w s e tb (build e.fresh now) → Q s → Open t now H K Aborted w' → err x w')
    (hok : ∀ w w' s e, At g req t now H K w s e (.insert stmt tb false build) → s.aborted = false → Q s →
      w.rows tb (build e.fresh now).1 = none → s.held tb (build e.fresh now).1 = none →
      Open t now H (fun D => D = w.rows)
        (fun s' => s' = s.write w.rows tb (build e.fresh now).1 (some (build e.fresh now).2)) w' →
      ok (build e.fresh now).2 w') : Does g req t ok err (insertOne stmt tb build) w₀ := by
  refine tries_bind (tries_insert hK.stable (by simpa using hp) (covers _ _ trivial hw) hw ?_ ?_ ?_)
  · intro x w w' s e facts hc hq ho
    refine herr x w w' s e facts ?_ hq ho
    rcases hc with h | h | h | ⟨_, h⟩ | h
    · exact Or.inl h
    · exact Or.inr (Or.inl h)
    · exact Or.inr (Or.inr (Or.inl h))
    · exact Or.inr (Or.inr (Or.inr (Or.inl h)))
    · exact Or.inr (Or.inr (Or.inr (Or.inr h)))
  · intro w w' s e _ _ _ hi
    cases hi
  · intro w w' s e facts ha hq hn hh _ ho
    exact tries_pure (hok w w' s e facts ha hq hn hh ho)

/-- The history goes on within the transaction, without a dispatch. -/
def Extends (H : List (Entry Pg) → Prop) : Prop := ∀ l x, x.inside = true → dispatchOf x = none → H l → H (l ++ [x])

theorem extends_true : Extends fun _ => True := fun _ _ _ _ _ => trivial

/-- An `UPDATE` of one row of many keeps what patches and locks keep. -/
theorem does_update {stmt : Statement} {tb : Table} {k : Key} {keep : Int → tb.Row → Bool} {patch : Patch Pg tb}
    {ok : Option tb.Row → World Pg → Prop} {err : DbError → World Pg → Prop} (hK : Lasting K) (hH : Extends H)
    (hstmt : stmt ≠ .claim) (covers : Covers g req t now H K Q) (hlock : ∀ s s', Locks s s' → Q s → Q s')
    (hw : Open t now H K Q w₀)
    (herr : ∀ x w w' s e, At g req t now H K w s e (.update stmt tb k false keep patch) →
      UpdateFails w s e (.update stmt tb k false keep patch) stmt tb k keep patch → Q s → Open t now H K Aborted w' → err x w')
    (hmiss : ∀ w', Open t now H K Q w' → ok none w')
    (hhit : ∀ w w' s e old, At g req t now H K w s e (.update stmt tb k false keep patch) → s.aborted = false → Q s →
      Finds w.rows s tb k (s.baseOf w.rows tb k) old → keep now old = true →
      Open t now H K (fun s' => s' = s.write w.rows tb k (some (patch.apply now old))) w' →
      ok (some (patch.apply now old)) w') :
    Does g req t ok err (update (M := Pg) stmt tb k false keep patch) w₀ := by
  refine tries_update hK.stable (covers _ _ (update_free hstmt) hw) hw ?_ ?_ ?_ ?_
  · intro x w w' s e facts hc hq ho
    refine herr x w w' s e facts ?_ hq ho
    unfold UpdateFails
    rw [facts.now]
    exact hc.imp_right fun h => h.imp_right fun h => ⟨rfl, h⟩
  · intro w w' s e facts _ hq _ ho
    exact hmiss w' (ho.mono (fun _ h => h) (fun _ h => h ▸ facts.known) fun s' _ h => h ▸ hq)
  · intro w w' s e old facts _ hq finds _ ho
    exact hmiss w' (ho.mono (fun _ h => h) (fun _ h => h ▸ facts.known) fun s' _ h => h ▸ hlock _ _ finds.locks hq)
  · intro w w' s e old facts ha hq finds hk _ ho
    refine hhit w w' s e old facts ha hq finds hk (ho.mono ?_ (fun _ h => h ▸ facts.known) fun _ _ h => h)
    rintro l ⟨l₀, hl, rfl⟩
    exact hH l₀ _ rfl rfl hl

/-- An `UPDATE` of many rows, by what holds before each of them. -/
theorem tries_updateEach {step : World Pg → (o : Op Pg) → o.Reply → World Pg → Prop} {pre : World Pg → Op Pg → Prop}
    {stmt : Statement} {tb : Table} {keep : Int → tb.Row → Bool} {patch : Patch Pg tb}
    {P : List Key → List tb.Row → World Pg → Prop} {err : DbError → World Pg → Prop} {ks : List Key}
    {w : World Pg} (done : List tb.Row)
    (one : ∀ k ks done w, P (k :: ks) done w →
      Tries step pre (fun r w' => P ks (done ++ r.toList) w') err (update (M := Pg) stmt tb k false keep patch) w)
    (h : P ks done w) :
    Tries step pre (fun rows w' => P [] (done ++ rows) w') err (updateEach stmt tb keep patch ks) w := by
  induction ks generalizing done w with
  | nil => exact tries_pure (by simpa using h)
  | cons k ks ih =>
    refine tries_bind ((one k ks done w h).mono (fun r w' h' => ?_) fun _ _ he => he)
    refine tries_bind ((ih _ h').mono (fun rows w'' h'' => ?_) fun _ _ he => he)
    exact tries_pure (by simpa using h'')

theorem does_tx {ε α : Type} {fromDb : DbError → ε} {body : Try Pg ε α} {ok : α → World Pg → Prop}
    {err : ε → World Pg → Prop} (hH : ∀ l D, H l → H (l ++ [.begin D])) (hK : Lasting K) (hreq : isWork req = false)
    (hw : Idle t H K w₀)
    (hbegin : ∀ x w e w', Here g req t H K w e .begin → e.fault = true → Idle t H K w' → err (fromDb x) w')
    (hbody : ∀ now w, Open t now H K Started w →
      Does g req t (fun a w₁ => Does g req t (fun _ w₂ => ok a w₂) (fun x w₂ => err (fromDb x) w₂)
          (commitTx : Try Pg DbError Unit) w₁)
        (fun x w₁ => Runs g req t (fun _ w₂ => err x w₂) rollbackTx w₁) body w) :
    Does g req t ok err (transaction fromDb body) w₀ := by
  refine tries_transaction (tries_begin hK.stable (free_pre hreq trivial) hw hbegin fun now w w' e here ho => hbody now w' ?_)
  exact ho.mono (fun l ⟨l₀, hl, he⟩ => he ▸ hH l₀ _ hl) (fun _ h => h ▸ here.known) fun _ _ h => h

/-- The history may go on with calls, rollbacks and commits that change nothing of interest. -/
structure Closed (H : List (Entry Pg) → Prop) : Prop where
  ext : ∀ l e r, H l → H (l ++ [.ext e r])
  begin : ∀ l D, H l → H (l ++ [.begin D])
  abort : ∀ l, H l → H (l ++ [.abort])
  commit : ∀ l s, Untouched s → H l → H (l ++ [.commit s])

theorem Closed.aborted (closed : Closed H) {l : List (Entry Pg)} (h : ∃ l₀, H l₀ ∧ l = l₀ ++ [.abort]) : H l := by
  obtain ⟨l₀, hl, rfl⟩ := h
  exact closed.abort l₀ hl

theorem Closed.committed (closed : Closed H) {l : List (Entry Pg)} {s : Session Pg} (quiet : Untouched s)
    (h : ∃ l₀, H l₀ ∧ l = l₀ ++ [.commit s]) : H l := by
  obtain ⟨l₀, hl, rfl⟩ := h
  exact closed.commit l₀ s quiet hl

theorem closed_true : Closed fun _ => True :=
  ⟨fun _ _ _ _ => trivial, fun _ _ _ => trivial, fun _ _ => trivial, fun _ _ _ _ => trivial⟩

theorem closed_silent : Closed Silent := by
  have snoc : ∀ l x, (∀ s, x = Entry.commit s → Quiet (M := Pg) .jobs s ∧ Quiet (M := Pg) .executions s) →
      Silent l → Silent (l ++ [x]) := by
    intro l x hx hl s hs
    rcases List.mem_append.mp hs with h | h
    · exact hl s h
    · exact hx s (List.mem_singleton.mp h).symm
  refine ⟨fun l e r => snoc l _ fun s h => ?_, fun l D => snoc l _ fun s h => ?_, fun l => snoc l _ fun s h => ?_, fun l s hu => snoc l _ fun s' h => ?_⟩
  · cases h
  · cases h
  · cases h
  · cases h
    exact ⟨hu _ rfl, hu _ rfl⟩

theorem untouched_of_started {s : Session Pg} (h : Started s) : Untouched s := fun _ _ => each_started h

theorem runs_rollback {post : World Pg → Prop} (hK : Lasting K) (hreq : isWork req = false) (hw : Open t now H K Q w₀)
    (h : ∀ w', Idle t (fun l => ∃ l₀, H l₀ ∧ l = l₀ ++ [.abort]) K w' → post w') :
    Runs g req t (fun _ w' => post w') rollbackTx w₀ := by
  refine holds_rollback hK.stable ⟨rest_of_not_work hreq, fun hwork => ?_⟩ hw h
  rw [hreq] at hwork
  cases hwork

theorem ticking_of_started (h : Open t now H K Started w₀) : Ticking req t w₀ := by
  obtain ⟨s, l, hv, _, _, _, hs⟩ := h
  refine ticking_of_quiet fun s' hs' _ => ?_
  rw [hv] at hs'
  cases hs'
  exact each_started hs

/-- A single `SELECT` outside a transaction. -/
theorem does_read {α : Type} {stmt : Statement} {f : Snapshot Pg → α} {ok : α → World Pg → Prop}
    {err : DbError → World Pg → Prop} (closed : Closed H) (hK : Lasting K) (hreq : isWork req = false)
    (hw : Idle t H K w₀)
    (herr : ∀ x o w e w', Here g req t H K w e o → e.fault = true → Idle t H K w' → err x w')
    (hok : ∀ w e now, Here g req t H K w e (.snapshot stmt) → ∃ K', Lasting K' ∧ K' w.rows ∧
      ∀ w', Idle t H K' w' → ok (f ⟨now, w.rows, w.keys⟩) w') :
    Does g req t ok err (transaction id (do let snap ← query (M := Pg) stmt; return f snap)) w₀ := by
  refine does_tx closed.begin hK hreq hw (fun x w e w' here hf hi => herr x _ w e w' here hf hi) fun now w hopen => ?_
  refine tries_bind (tries_query hK.stable (free_pre hreq trivial) hopen ?_ ?_)
  · intro x w₁ w₂ s e facts hc hs ho
    have hf : e.fault = true := hc.resolve_left (by simp [hs.1])
    exact runs_rollback hK hreq ho fun w₃ hi =>
      herr x _ w₁ e w₃ facts.toMoment hf (hi.mono (fun _ => closed.aborted) fun _ h => h)
  · intro w₁ w₂ s e facts _ hs ho
    obtain ⟨K', hK', hk, done⟩ := hok w₁ e now facts.toMoment
    have hv : s.visible w₁.rows = w₁.rows := by
      funext tb k
      simp [Session.visible, hs.2 tb k]
    rw [hv]
    have ho' : Open t now H (fun D => K' D ∧ K D) Started w₂ :=
      ho.mono (fun _ h => h) (fun _ h => h ▸ ⟨hk, facts.known⟩) fun s' _ h => h ▸ hs
    refine tries_pure (tries_commit (hK'.and hK).stable ⟨rest_of_not_work hreq, ?_, ticking_of_started ho'⟩ ho' ?_ ?_ ?_)
    · intro s₁ l hv₁ ha w₃ e₃ _ sound _ hs₃ _
      obtain ⟨s₀, l₀, hv₀, _, _, _, hst⟩ := ho'
      rw [hv₀] at hv₁
      cases hv₁
      exact (untouched_of_started hst).commit sound (congrArg Prod.fst hs₃)
    · intro x w₃ w₄ s₃ e₃ facts₃ hf _ hi
      exact herr x _ w₃ e₃ w₄ ⟨facts₃.sound, facts₃.inv, facts₃.allowed, facts₃.past, facts₃.known.2⟩ hf
        (hi.mono (fun _ => closed.aborted) fun _ h => h.2)
    · intro w₃ w₄ s₃ e₃ _ ha hs₃ _
      rw [hs₃.1] at ha
      cases ha
    · intro w₃ w₄ s₃ e₃ facts₃ ha hs₃ hi
      have hv₃ : s₃.visible w₃.rows = w₃.rows := by
        funext tb k
        simp [Session.visible, hs₃.2 tb k]
      refine done w₄ (hi.mono (fun _ => closed.committed (untouched_of_started hs₃)) fun D h => ?_)
      rw [h, hv₃]
      exact facts₃.known.1

theorem does_ext_idle {ε : Type} {x : External} {ok : External.Answer x → World Pg → Prop} {err : ε → World Pg → Prop}
    (closed : Closed H) (hK : Lasting K) (hreq : isWork req = false) (hx : Free (.ext x)) (hw : Idle t H K w₀)
    (hok : ∀ w e w', Here g req t H K w e (.ext x) → Idle t H K w' → ok (e.answer x) w') :
    Does g req t ok err (liftM (ext (M := Pg) x) : Try Pg ε (External.Answer x)) w₀ := by
  refine tries_lift ?_
  change (ext (M := Pg) x >>= pure).Holds _ _ _ _
  refine holds_ext_idle hK.stable (free_pre hreq hx) hw fun w e w' here hi => Prog.holds_pure.mpr ?_
  exact hok w e w' here (hi.mono (fun l ⟨l₀, hl, he⟩ => he ▸ closed.ext l₀ _ _ hl) fun _ h => h)

theorem does_connect {schemaName : String} {ok : Unit → World Pg → Prop} {err : AppError → World Pg → Prop}
    (closed : Closed H) (hK : Lasting K) (hreq : isWork req = false) (hw : Idle t H K w₀)
    (herr : ∀ x w e w', Here g req t H K w e (.ext .acquire) → e.answer .acquire = false → Idle t H K w' → err x w')
    (hok : ∀ w', Idle t H K w' → ok () w') : Does g req t ok err (scopedConnection schemaName) w₀ := by
  have rest : Does g req t ok err (do
      let acquired : Bool ← (ext (M := Pg) .acquire : Program Pg Bool)
      if acquired then return () else throw (fromDb .closed) : Try Pg AppError Unit) w₀ := by
    refine tries_bind (does_ext_idle closed hK hreq trivial hw fun w e w' here hi => ?_)
    split
    next => exact tries_pure (hok w' hi)
    next hn => exact tries_throw (herr _ w e w' here ((Bool.not_eq_true _).mp hn) hi)
  unfold scopedConnection
  split
  next => exact tries_bind (tries_lift (holds_halt (free_pre hreq trivial)))
  next => exact rest

end Invokr

import Invokr.Recall
import Invokr.Spared

namespace TxLib

variable {M : Model}

/-- Whether a thread's transaction has written a row, and whether the thread has changed committed rows. -/
structure Effect where
  writing : Bool
  changed : Bool

namespace Exchange

/-- The call has written a row of its transaction. -/
def writes : Exchange M → Bool
  | ⟨.insert _ _ _ _, _, .ok (some _), _⟩ => true
  | ⟨.update _ _ _ _ _ _, _, .ok (some _), _⟩ => true
  | ⟨.put _ _ _ _, _, .ok _, _⟩ => true
  | ⟨.delete _ _ _, _, .ok found, _⟩ => found
  | _ => false

/-- The call has removed a row at once. -/
def removes : Exchange M → Bool
  | ⟨.deleteNow _ _ _, _, .ok found, _⟩ => found
  | _ => false

/-- The call has ended its transaction by a commit. -/
def commits : Exchange M → Bool
  | ⟨.commit, _, .ok _, _⟩ => true
  | _ => false

/-- After the call its thread has no transaction or a new one. -/
def resets : Exchange M → Bool
  | ⟨.begin, _, .ok _, _⟩ => true
  | ⟨.commit, _, _, _⟩ => true
  | ⟨.rollback, _, _, _⟩ => true
  | _ => false

end Exchange

def Effect.after (f : Effect) (x : Exchange M) : Effect where
  writing := !x.resets && (f.writing || x.writes)
  changed := f.changed || x.removes || (x.commits && f.writing)

def effect (l : List (Exchange M)) : Effect := l.foldl Effect.after ⟨false, false⟩

theorem effect_snoc (l : List (Exchange M)) (x : Exchange M) : effect (l ++ [x]) = (effect l).after x :=
  List.foldl_append

theorem Effect.after_quiet {f : Effect} {x : Exchange M} (h : (f.after x).writing = false) (hr : x.resets = false) :
    f.writing = false ∧ x.writes = false := by
  simpa [Effect.after, hr] using h

theorem Effect.after_still {f : Effect} {x : Exchange M} (h : (f.after x).changed = false) :
    f.changed = false ∧ x.removes = false ∧ (x.commits = true → f.writing = false) := by
  simpa [Effect.after, and_assoc] using h

theorem Recalls.snoc {m m' : Memory M} {o : Op M} {r : o.Reply} (h : Recalls m o r m') :
    ∃ env D, m'.2 = m.2 ++ [⟨o, env, r, D⟩] := by
  obtain ⟨D, _, _, _, env, _, hl⟩ := h.eval
  exact ⟨env, D, hl⟩

/-- The transaction has written nothing: each row it holds has the version it found. -/
def Session.Blank (s : Session M) : Prop := ∀ tb k h, s.held tb k = some h → h.new = h.base

theorem Session.blank_of_unheld {s : Session M} (h : ∀ tb k, s.held tb k = none) : s.Blank := by
  intro tb k x hx
  rw [h] at hx
  cases hx

/-- A lock that leaves the row as it was. -/
theorem Session.Blank.lock {s : Session M} (h : s.Blank) {D : Rows M} {tb : M.Tbl} {k : M.Key} {r : M.Row tb}
    (hv : s.visible D tb k = some r) : (s.write D tb k (some r)).Blank := by
  intro tb' k' x hx
  rcases Session.write_held_cases hx with ⟨rfl, rfl, rfl⟩ | hold
  · simp only [Session.baseOf]
    cases hh : s.held tb' k' with
    | none => simpa [Session.visible, hh] using hv.symm
    | some y =>
      have same := h tb' k' y hh
      simpa [Session.visible, hh, same] using hv.symm
  · exact h tb' k' x hold

/-- What a transaction that has written nothing sees are the committed rows. -/
theorem Session.Blank.visible {w : World M} (sound : Sound w) {t : Nat} {s : Session M} (hs : w.sessions t = some s)
    (h : s.Blank) : s.visible w.rows = w.rows := by
  funext tb k
  unfold Session.visible
  split
  next x hx => exact (h tb k x hx).trans (sound.held t s tb k x hs hx).2.symm
  next => rfl

/-- A statement of a transaction that has written nothing, and writes nothing, leaves it so. -/
theorem blank_inTx {α : Type} {s s' : Option (Session M)} {env : Env M}
    {act : Session M → Except DbError α × Session M} {r : Except DbError α} (h : inTx s env act = (r, s'))
    (blank : ∀ u, s = some u → u.Blank) (keep : ∀ u, s = some u → (act u).1 = r → (act u).2.Blank) :
    ∀ u, s' = some u → u.Blank := by
  rintro u rfl
  rcases inTx_cases h with ⟨hs, _⟩ | ⟨s₀, _, hs, _⟩ | ⟨s₀, h₀, _, _, hr, hs⟩
  · exact blank u hs.symm
  · cases hs
    exact Session.blank_of_unheld fun _ _ => rfl
  · cases hs
    exact keep s₀ h₀ hr.symm

theorem blank_updateRow {D : Rows M} {foreign : Bool} {tb : M.Tbl} {k : M.Key} {keep : Int → M.Row tb → Bool}
    {patch : Patch M tb} {s : Session M} (h : s.Blank) (quiet : ∀ r, (updateRow D foreign tb k keep patch s).1 ≠ .ok (some r)) :
    (updateRow D foreign tb k keep patch s).2.Blank := by
  revert quiet
  unfold updateRow
  split
  next => exact fun _ => h
  next =>
    split
    next => exact fun _ => h
    next old hv =>
      split
      next =>
        split
        next => exact fun _ => Session.blank_of_unheld fun _ _ => rfl
        next =>
          split
          next => exact fun _ => Session.blank_of_unheld fun _ _ => rfl
          next => exact fun quiet => absurd rfl (quiet _)
      next => exact fun _ => h.lock hv

theorem blank_insertRow {D : Rows M} {keys : (tb : M.Tbl) → List M.Key} {fresh : M.Fresh} {tb : M.Tbl} {orIgnore : Bool}
    {build : M.Fresh → Int → M.Key × M.Row tb} {s : Session M} (h : s.Blank)
    (quiet : ∀ r, (insertRow D keys fresh tb orIgnore build s).1 ≠ .ok (some r)) :
    (insertRow D keys fresh tb orIgnore build s).2.Blank := by
  revert quiet
  simp only [insertRow]
  split
  next => exact fun _ => Session.blank_of_unheld fun _ _ => rfl
  next =>
    split
    next =>
      split
      next => exact fun _ => h
      next => exact fun _ => Session.blank_of_unheld fun _ _ => rfl
    next =>
      split
      next => exact fun _ => Session.blank_of_unheld fun _ _ => rfl
      next => exact fun quiet => absurd rfl (quiet _)

theorem blank_putRow {D : Rows M} {tb : M.Tbl} {k : M.Key} {row : M.Row tb} {s : Session M}
    (quiet : (putRow D tb k row s).1 ≠ .ok ()) : (putRow D tb k row s).2.Blank := by
  revert quiet
  unfold putRow
  split
  next => exact fun _ => Session.blank_of_unheld fun _ _ => rfl
  next => exact fun quiet => absurd rfl quiet

theorem blank_deleteRow {D : Rows M} {tb : M.Tbl} {k : M.Key} {s : Session M} (h : s.Blank)
    (quiet : (deleteRow D tb k s).1 ≠ .ok true) : (deleteRow D tb k s).2.Blank := by
  revert quiet
  unfold deleteRow
  split
  next => exact fun _ => Session.blank_of_unheld fun _ _ => rfl
  next =>
    split
    next => exact fun quiet => absurd rfl quiet
    next => exact fun _ => h

/-- One call keeps a transaction blank unless it writes, and a new transaction is blank. -/
theorem blank_eval {D : Rows M} {keys : (tb : M.Tbl) → List M.Key} {clock : Int} {foreign : (tb : M.Tbl) → M.Key → Bool}
    {env : Env M} {s s' : Option (Session M)} {o : Op M} {r : o.Reply} {rows : Rows M}
    (he : o.eval D keys clock foreign env s = some (r, s'))
    (h : (⟨o, env, r, rows⟩ : Exchange M).resets = false → ∀ u, s = some u → u.Blank)
    (quiet : (⟨o, env, r, rows⟩ : Exchange M).resets = false → (⟨o, env, r, rows⟩ : Exchange M).writes = false) :
    ∀ u, s' = some u → u.Blank := by
  cases o with
  | ext e =>
    obtain ⟨_, rfl⟩ := Prod.mk.inj (Option.some.inj he)
    exact h rfl
  | halt => cases he
  | begin =>
    simp only [Op.eval] at he
    split at he
    next s₀ =>
      obtain ⟨rfl, rfl⟩ := Prod.mk.inj (Option.some.inj he)
      exact h rfl
    next =>
      split at he
      next =>
        obtain ⟨_, rfl⟩ := Prod.mk.inj (Option.some.inj he)
        exact fun u hu => by cases hu
      next =>
        obtain ⟨_, rfl⟩ := Prod.mk.inj (Option.some.inj he)
        rintro u hu
        cases hu
        exact Session.blank_of_unheld fun _ _ => rfl
  | snapshot stmt => exact blank_inTx (Option.some.inj he) (h rfl) fun u hu _ => h rfl u hu
  | update stmt tb k skip keep patch =>
    refine blank_inTx (Option.some.inj he) (h rfl) fun u hu hr => blank_updateRow (h rfl u hu) fun row hrow => ?_
    have := quiet rfl
    rw [← hr, hrow] at this
    cases this
  | insert stmt tb orIgnore build =>
    refine blank_inTx (Option.some.inj he) (h rfl) fun u hu hr => blank_insertRow (h rfl u hu) fun row hrow => ?_
    have := quiet rfl
    rw [← hr, hrow] at this
    cases this
  | put stmt tb k row =>
    refine blank_inTx (Option.some.inj he) (h rfl) fun u hu hr => blank_putRow fun hrow => ?_
    have := quiet rfl
    rw [← hr, hrow] at this
    cases this
  | delete stmt tb k =>
    refine blank_inTx (Option.some.inj he) (h rfl) fun u hu hr => blank_deleteRow (h rfl u hu) fun hrow => ?_
    have := quiet rfl
    rw [← hr, hrow] at this
    cases this
  | deleteNow stmt tb k =>
    simp only [Op.eval] at he
    split at he
    next s₀ =>
      obtain ⟨rfl, rfl⟩ := Prod.mk.inj (Option.some.inj he)
      exact h rfl
    next =>
      obtain ⟨_, rfl⟩ := Prod.mk.inj (Option.some.inj he)
      exact fun u hu => by cases hu
  | commit =>
    simp only [Op.eval] at he
    split at he
    next =>
      obtain ⟨_, rfl⟩ := Prod.mk.inj (Option.some.inj he)
      exact fun u hu => by cases hu
    next =>
      split at he
      next =>
        obtain ⟨_, rfl⟩ := Prod.mk.inj (Option.some.inj he)
        exact fun u hu => by cases hu
      next =>
        obtain ⟨_, rfl⟩ := Prod.mk.inj (Option.some.inj he)
        exact fun u hu => by cases hu
  | rollback =>
    obtain ⟨_, rfl⟩ := Prod.mk.inj (Option.some.inj he)
    exact fun u hu => by cases hu

/-- A call that neither removes a row at once nor commits a transaction that has written leaves the
committed rows as they are. -/
theorem store_still {w w' : World M} (sound : Sound w) {t : Nat} {o : Op M} {env : Env M} {r : o.Reply} {rows : Rows M}
    (he : w.exec t o env = some (w', r)) (kept : (⟨o, env, r, rows⟩ : Exchange M).removes = false)
    (blank : (⟨o, env, r, rows⟩ : Exchange M).commits = true → ∀ s, w.sessions t = some s → s.Blank) : w'.rows = w.rows := by
  obtain ⟨_, s, hev, hw⟩ := World.exec_eq he
  subst hw
  cases o with
  | commit =>
    simp only [Op.store]
    cases hs : w.sessions t with
    | none => rfl
    | some u =>
      simp only
      split
      next => rfl
      next hlive =>
        rw [hs] at hev
        simp only [Op.eval] at hev
        split at hev
        next hf => exact absurd (by simp [(Bool.and_eq_true_iff.mp hf).2]) hlive
        next =>
          obtain ⟨rfl, _⟩ := Prod.mk.inj (Option.some.inj hev)
          exact (blank rfl u hs).visible sound hs
  | deleteNow stmt tb k =>
    simp only [Op.store]
    split
    next hs hreply =>
      simp only [Op.eval, hs] at hev
      obtain ⟨rfl, _⟩ := Prod.mk.inj (Option.some.inj hev)
      rw [hreply] at kept
      cases kept
    next => rfl
  | _ => rfl

section runs

variable {S : System M} {acts : List (Action S)} {t : Nat}

theorem exchange_eval {p : Pool S} {env : Env M} {o : Op M} {w : World M} {r : o.Reply}
    (he : p.world.exec t o env = some (w, r)) :
    o.eval p.world.rows p.world.keys p.world.clock (p.world.foreign t) env (p.world.sessions t) = some (r, w.sessions t) := by
  obtain ⟨_, s, hev, hw⟩ := World.exec_eq he
  rw [hev, hw]
  simp

/-- In an action a thread makes one call or none. -/
theorem exchange_cases (p : Pool S) (t : Nat) (a : Action S) : p.exchange t a = [] ∨
    ∃ (x : Exchange M) (req : S.Req) (w : World M), a = .step t x.env ∧ p.next t = some (req, x.op) ∧ p.world.exec t x.op x.env = some (w, x.reply) ∧
      (p.act a).world = w ∧ p.exchange t a = [⟨x.op, x.env, x.reply, p.world.rows⟩] := by
  by_cases h : p.exchange t a = []
  · exact Or.inl h
  · obtain ⟨x, hx⟩ := List.exists_mem_of_ne_nil _ h
    obtain ⟨rfl, req, hn, ⟨w, he⟩, _⟩ := mem_exchange.mp hx
    exact Or.inr ⟨x, req, w, rfl, hn, he, Pool.act_call hn he, exchange_call hn he⟩

/-- An action in which a thread makes no call leaves its transaction as it is, or ends it. -/
theorem sessions_idle {p : Pool S} {a : Action S} (h : p.exchange t a = []) :
    (p.act a).world.sessions t = p.world.sessions t ∨ (p.act a).world.sessions t = none := by
  have hacts := p.acts a
  generalize p.act a = p' at hacts ⊢
  cases hacts with
  | still _ sessions _ _ => exact Or.inl (congrFun sessions t)
  | @call u env th o next w r ht ha hp he =>
    by_cases hu : t = u
    · subst hu
      rw [exchange_call (Pool.next_of ht ha hp) he] at h
      cases h
    · exact Or.inl (World.exec_sessions_of_ne he hu)
  | @stop _ u th ht ha hx =>
    by_cases hu : t = u
    · subst hu
      exact Or.inr (congrArg Prod.fst (p.world.kill_view t))
    · exact Or.inl (congrArg Prod.fst (p.world.kill_view_of_ne hu))

theorem rows_idle {p : Pool S} {env : Env M} (h : p.exchange t (.step t env) = []) :
    (p.act (.step t env)).world.rows = p.world.rows := by
  have hacts := p.acts (.step t env)
  generalize p.act (.step t env) = p' at hacts ⊢
  cases hacts with
  | still rows _ _ _ => exact rows
  | call ht ha hp he =>
    rw [exchange_call (Pool.next_of ht ha hp) he] at h
    cases h
  | stop => rfl

/-- At every moment of every run a thread whose transcript shows no write since its transaction began
has a transaction that has written nothing. -/
theorem Pool.blank (acts : List (Action S)) (t : Nat) (h : (effect (transcript acts t)).writing = false) :
    ∀ s, ((Pool.empty S).run acts).world.sessions t = some s → s.Blank := by
  induction acts using List.reverseRecOn with
  | nil =>
    intro s hs
    cases hs
  | append_singleton acts a ih =>
    rw [transcript_snoc] at h
    rw [Pool.run_append]
    rcases exchange_cases ((Pool.empty S).run acts) t a with hx | ⟨x, req, w, _, _, he, hw, hx⟩
    · rw [hx, List.append_nil] at h
      intro s hs
      rcases sessions_idle hx with same | gone
      · exact ih h s (same.symm.trans hs)
      · rw [Pool.run_cons, Pool.run_nil, gone] at hs
        cases hs
    · rw [hx, effect_snoc] at h
      intro s hs
      refine blank_eval (exchange_eval he) (fun hr => ih (Effect.after_quiet h hr).1)
        (fun hr => (Effect.after_quiet h hr).2) s ?_
      rw [← hw]
      exact hs

/-- A step that changes the committed rows shows in its thread's transcript. -/
theorem Pool.changes_shown {acts : List (Action S)} {t : Nat} {env : Env M}
    (h : ((Pool.empty S).run (acts ++ [.step t env])).world.rows ≠ ((Pool.empty S).run acts).world.rows) :
    (effect (transcript (acts ++ [.step t env]) t)).changed = true := by
  rw [Pool.run_append] at h
  rw [transcript_snoc]
  rcases exchange_cases ((Pool.empty S).run acts) t (.step t env) with hx | ⟨x, req, w, _, _, he, hw, hx⟩
  · exact absurd (rows_idle hx) h
  · rw [hx, effect_snoc]
    by_contra hn
    obtain ⟨_, kept, quiet⟩ := Effect.after_still ((Bool.not_eq_true _).mp hn)
    rw [Pool.run_cons, Pool.run_nil, hw] at h
    exact h (store_still (Pool.sound_run acts) he kept fun hc => Pool.blank acts t (quiet hc))

end runs

end TxLib

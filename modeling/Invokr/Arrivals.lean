import Invokr.Copies

namespace TxLib

variable {M : Model} {S : System M} {tb : M.Tbl} {k k' : M.Key} {r r' : M.Row tb} {p : Pool S} {acts : List (Action S)}

/-- The call changes no row of the table. -/
def Op.Keeps (tb : M.Tbl) : Op M → Prop
  | .update _ tb' _ _ _ _ => tb' ≠ tb
  | _ => True

/-- A transaction that has failed holds nothing. -/
def Void (s : Option (Session M)) : Prop := ∀ s', s = some s' → s'.aborted = true → ∀ tb k, s'.held tb k = none

theorem Recalls.void {m m' : Memory M} {o : Op M} {r : o.Reply} (h : Recalls m o r m') (void : Void m.1) : Void m'.1 := by
  obtain ⟨w, t, env, w', sound, hs, he, rfl⟩ := h
  intro s' hs' aborted tb k
  have move := (sound.exec he).1
  rw [hs, show w'.sessions t = some s' from hs'] at move
  generalize w'.rows = rows at move
  generalize hm : m.1 = cur at move
  cases move with
  | stay => exact void s' hm aborted tb k
  | start => rfl
  | fail => rfl
  | write live =>
    rw [Session.write_aborted, live] at aborted
    cases aborted

/-- What the calls of its program keep of a transaction holds of it at every moment of every run. -/
theorem Pool.session_known {G : S.Req → Option (Session M) → Prop}
    (holds : ∀ req, (S.program req).Holds Recalls (fun m _ => G req m.1) (fun _ m => G req m.1) (none, []))
    {t : Nat} {th : Thread S} (ht : ((Pool.empty S).run acts).threads t = some th) (ha : th.alive = true) :
    G th.req (((Pool.empty S).run acts).world.sessions t) := by
  have resumes := (Pool.traced_run holds acts).resumes t th ht ha
  unfold Resumes at resumes
  cases hp : th.prog with
  | ret r =>
    rw [hp] at resumes
    exact resumes
  | call o next =>
    rw [hp] at resumes
    exact resumes.1

theorem Pool.void {t : Nat} {th : Thread S} (ht : ((Pool.empty S).run acts).threads t = some th) (ha : th.alive = true) :
    Void (((Pool.empty S).run acts).world.sessions t) := by
  have holds : ∀ req, (S.program req).Holds Recalls (fun m _ => Void m.1) (fun _ m => Void m.1) (none, []) := by
    intro req
    have start : Void ((none, []) : Memory M).1 := fun s hs => by cases hs
    have any : (S.program req).Uses fun _ => True := by
      induction S.program req with
      | ret => trivial
      | call o next ih => exact ⟨trivial, ih⟩
    exact any.holds start (fun _ _ _ hm => hm) fun _ _ _ _ _ hm hr => hr.void hm
  exact Pool.session_known holds ht ha

/-- A row that an action leaves in the table was there before or is one that it commits. -/
theorem Pool.rows_act (sound : Sound p.world) (x : Action S) (h : (p.act x).world.rows tb k = some r) :
    p.world.rows tb k = some r ∨ ∃ t s y, p.world.sessions t = some s ∧ s.held tb k = some y ∧ y.new = some r ∧
      (p.act x).world.rows = s.visible p.world.rows := by
  have hacts := p.acts x
  generalize p.act x = p' at hacts h ⊢
  cases hacts with
  | still hr _ _ _ =>
    rw [hr] at h
    exact Or.inl h
  | stop => exact Or.inl h
  | @call t e th o next w reply ht ha hp he =>
    have move := (sound.exec he).1
    generalize hs : p.world.sessions t = s at move
    generalize w.sessions t = s' at move
    change w.rows tb k = some r at h
    change p.world.rows tb k = some r ∨ ∃ t s y, p.world.sessions t = some s ∧ s.held tb k = some y ∧ y.new = some r ∧
      w.rows = s.visible p.world.rows
    generalize w.rows = rows at move h ⊢
    cases move with
    | @commit s _ =>
      cases hy : s.held tb k with
      | none => exact Or.inl (by simpa [Session.visible, hy] using h)
      | some y => exact Or.inr ⟨t, s, y, hs, hy, by simpa [Session.visible, hy] using h, rfl⟩
    | @remove tb' k₀ _ _ _ =>
      rcases setAt_cases p.world.rows tb' k₀ none tb k with ⟨rfl, rfl, hv⟩ | ⟨_, hv⟩
      · rw [hv] at h
        cases h
      · exact Or.inl (hv.symm.trans h)
    | _ => exact Or.inl h

/-- The action inserts the row, in the transaction `s` of the thread. -/
def Pool.Inserts (p : Pool S) (x : Action S) (t : Nat) (s : Session M) (k : M.Key) (r : M.Row tb) : Prop :=
  ∃ e req stmt orIgnore build, x = .step t e ∧ p.next t = some (req, .insert stmt tb orIgnore build) ∧
    p.world.sessions t = some s ∧ build e.fresh s.now = (k, r)

theorem Pool.Inserts.same {x : Action S} {t t' : Nat} {s s' : Session M} (h : p.Inserts x t s k r)
    (h' : p.Inserts x t' s' k' r') : k = k' ∧ r = r' := by
  obtain ⟨e, req, stmt, orIgnore, build, rfl, hn, hs, hb⟩ := h
  obtain ⟨e', req', stmt', orIgnore', build', hx, hn', hs', hb'⟩ := h'
  cases hx
  rw [hn] at hn'
  cases hn'
  rw [hs] at hs'
  cases hs'
  rw [hb] at hb'
  exact Prod.mk.inj hb'

/-- An insertion commits nothing. -/
theorem Pool.Inserts.rows {x : Action S} {t : Nat} {s : Session M} (h : p.Inserts x t s k r) :
    (p.act x).world.rows = p.world.rows := by
  obtain ⟨e, req, stmt, orIgnore, build, rfl, hn, -⟩ := h
  have hacts := p.acts (.step t e)
  generalize p.act (.step t e) = p' at hacts ⊢
  cases hacts with
  | still hr _ _ _ => exact hr
  | stop => rfl
  | @call _ _ th o next w reply ht ha hp he =>
    obtain ⟨_, s, _, rfl⟩ := World.exec_eq he
    have hn' := Pool.next_of ht ha hp
    rw [hn] at hn'
    cases hn'
    rfl

/-- A version that a call brings forth is inserted by it. -/
theorem World.Version.before {w w' : World M} {t : Nat} {o : Op M} {e : Env M} {reply : o.Reply} (sound : Sound w)
    (solid : M.plain tb = false) (keeps : o.Keeps tb) (he : w.exec t o e = some (w', reply)) (h : w'.Version tb k r) :
    w.Version tb k r ∨ ∃ stmt orIgnore build s, o = .insert stmt tb orIgnore build ∧ w.sessions t = some s ∧
      build e.fresh s.now = (k, r) := by
  rcases h with committed | ⟨u, s', x, hs', hx, hr⟩
  · left
    have m := (sound.exec he).1
    generalize hs : w.sessions t = s at m
    generalize w'.sessions t = s' at m
    generalize w'.rows = rows at m committed
    cases m with
    | @commit s _ =>
      unfold Session.visible at committed
      split at committed
      next x hx => exact Or.inr ⟨t, s, x, hs, hx, committed⟩
      next => exact Or.inl committed
    | @remove tb' k₀ _ _ _ =>
      rcases setAt_cases w.rows tb' k₀ none tb k with ⟨rfl, rfl, hv⟩ | ⟨_, hv⟩
      · rw [hv] at committed
        cases committed
      · exact Or.inl (hv.symm.trans committed)
    | _ => exact Or.inl committed
  · by_cases hu : u = t
    · subst hu
      cases hs : w.sessions u with
      | none =>
        have m := (sound.exec he).1
        rw [hs, hs'] at m
        generalize w'.rows = rows at m
        cases m with
        | start => cases hx
      | some s =>
        rcases World.exec_written sound he hs hs' with rfl | rfl | ⟨tb', k₀, v, rfl, written⟩
        · exact Or.inl (Or.inr ⟨u, _, x, hs, hx, hr⟩)
        · cases hx
        · rcases Session.write_held_cases hx with ⟨rfl, rfl, rfl⟩ | hold
          · cases written with
            | patch => exact (keeps rfl).elim
            | lock => exact (keeps rfl).elim
            | insert =>
              cases hr
              exact Or.inr ⟨_, _, _, s, rfl, rfl, rfl⟩
            | put hplain =>
              rw [solid] at hplain
              cases hplain
            | delete hplain =>
              rw [solid] at hplain
              cases hplain
          · exact Or.inl (Or.inr ⟨u, s, x, hs, hold, hr⟩)
    · have same : w.sessions u = some s' := (World.exec_sessions_of_ne he hu).symm.trans hs'
      exact Or.inl (Or.inr ⟨u, s', x, same, hx, hr⟩)

theorem Pool.version_act (sound : Sound p.world) (solid : M.plain tb = false) (x : Action S)
    (keeps : ∀ t req o, p.next t = some (req, o) → o.Keeps tb) (h : (p.act x).world.Version tb k r) :
    p.world.Version tb k r ∨ ∃ t s, p.Inserts x t s k r := by
  have hacts := p.acts x
  generalize p.act x = p' at hacts h
  cases hacts with
  | still hr hs _ _ =>
    left
    unfold World.Version World.Uncommitted at h ⊢
    rw [hr, hs] at h
    exact h
  | @call t e th o next w reply ht ha hp he =>
    have hn := Pool.next_of ht ha hp
    refine (World.Version.before sound solid (keeps t th.req o hn) he h).imp_right ?_
    rintro ⟨stmt, orIgnore, build, s, rfl, hs, hb⟩
    exact ⟨t, s, e, th.req, stmt, orIgnore, build, rfl, hn, hs, hb⟩
  | @stop _ t th _ _ _ =>
    left
    rcases h with committed | ⟨u, s, y, hs, hy, hr⟩
    · exact Or.inl committed
    · by_cases hu : u = t
      · subst hu
        simp [Pool.stop, World.kill] at hs
      · refine Or.inr ⟨u, s, y, ?_, hy, hr⟩
        simpa [Pool.stop, World.kill, Function.update_of_ne hu] using hs

/-- The `n`-th action of the run brings in the row, which is there from then on. -/
structure Entered (acts : List (Action S)) (n : Nat) (k : M.Key) (r : M.Row tb) : Prop where
  inRun : n < acts.length
  absent : ¬((Pool.empty S).run (acts.take n)).world.Version tb k r
  since : ∀ m, n < m → m ≤ acts.length → ((Pool.empty S).run (acts.take m)).world.Version tb k r

theorem entered_exists (h : ((Pool.empty S).run acts).world.Version tb k r) : ∃ n, Entered acts n k r := by
  induction acts using List.reverseRecOn with
  | nil => rcases h with h | ⟨_, _, _, h, _⟩ <;> cases h
  | append_singleton acts x ih =>
    by_cases before : ((Pool.empty S).run acts).world.Version tb k r
    · obtain ⟨n, hn, absent, since⟩ := ih before
      refine ⟨n, by simp only [List.length_append]; omega, ?_, fun m hm hle => ?_⟩
      · rw [List.take_append_of_le_length hn.le]
        exact absent
      · rcases Nat.lt_or_ge acts.length m with whole | short
        · rw [List.take_of_length_le (by simp only [List.length_append, List.length_singleton]; omega)]
          exact h
        · rw [List.take_append_of_le_length short]
          exact since m hm short
    · refine ⟨acts.length, by simp, ?_, fun m hm hle => ?_⟩
      · rw [List.take_left']
        · exact before
        · rfl
      · rw [List.take_of_length_le (by simp only [List.length_append, List.length_singleton]; omega)]
        exact h

theorem Entered.inserts {n : Nat} (h : Entered acts n k r) (solid : M.plain tb = false)
    (keeps : ∀ before t req o, ((Pool.empty S).run before).next t = some (req, o) → o.Keeps tb) :
    ∃ x t s, acts[n]? = some x ∧ ((Pool.empty S).run (acts.take n)).Inserts x t s k r := by
  have there := h.since (n + 1) (Nat.lt_succ_self n) h.inRun
  rw [List.take_succ_eq_append_getElem h.inRun, Pool.run_append, Pool.run_cons, Pool.run_nil] at there
  obtain ⟨t, s, inserts⟩ := (Pool.version_act (Pool.sound_run _) solid _ (keeps _) there).resolve_left h.absent
  exact ⟨_, t, s, List.getElem?_eq_getElem h.inRun, inserts⟩

/-- The row is not committed when it comes in. -/
theorem Entered.pending {n : Nat} (h : Entered acts n k r) (solid : M.plain tb = false)
    (keeps : ∀ before t req o, ((Pool.empty S).run before).next t = some (req, o) → o.Keeps tb) :
    ((Pool.empty S).run (acts.take (n + 1))).world.Uncommitted tb k r := by
  have there := h.since (n + 1) (Nat.lt_succ_self n) h.inRun
  refine there.resolve_left fun committed => h.absent (Or.inl ?_)
  obtain ⟨x, t, s, hx, inserts⟩ := h.inserts solid keeps
  have last : acts.take (n + 1) = acts.take n ++ [x] := by rw [List.take_add_one, hx]; rfl
  rw [last, Pool.run_append, Pool.run_cons, Pool.run_nil, inserts.rows] at committed
  exact committed

/-- The step that brings in a row leaves it in the transaction of its thread, as open as before. -/
theorem Entered.session {n : Nat} (h : Entered acts n k r) (solid : M.plain tb = false)
    (keeps : ∀ before t req o, ((Pool.empty S).run before).next t = some (req, o) → o.Keeps tb) :
    ∃ t e s s' y, acts[n]? = some (.step t e) ∧ ((Pool.empty S).run (acts.take n)).world.sessions t = some s ∧
      ((Pool.empty S).run (acts.take (n + 1))).world.sessions t = some s' ∧ s'.now = s.now ∧ s'.held tb k = some y ∧
      y.new = some r := by
  obtain ⟨u, s', y, hs', hy, hr⟩ := h.pending solid keeps
  obtain ⟨x, t, s, hx, e, req, stmt, orIgnore, build, rfl, hn, hs, hb⟩ := h.inserts solid keeps
  have last : acts.take (n + 1) = acts.take n ++ [.step t e] := by rw [List.take_add_one, hx]; rfl
  have here := hs'
  rw [last, Pool.run_append, Pool.run_cons, Pool.run_nil] at hs'
  have sound := Pool.sound_run (S := S) (acts.take n)
  have absent := h.absent
  generalize (Pool.empty S).run (acts.take n) = p at hn hs hs' sound absent
  have hacts := p.acts (.step t e)
  generalize p.act (.step t e) = p' at hacts hs'
  cases hacts with
  | still _ hsame _ _ =>
    rw [hsame] at hs'
    exact absurd (Or.inr ⟨u, s', y, hs', hy, hr⟩) absent
  | @stop _ v _ _ _ _ =>
    by_cases hu : u = v
    · subst hu
      simp [Pool.stop, World.kill] at hs'
    · have same : p.world.sessions u = some s' := by
        simpa [Pool.stop, World.kill, Function.update_of_ne hu] using hs'
      exact absurd (Or.inr ⟨u, s', y, same, hy, hr⟩) absent
  | @call _ _ th o next w reply ht ha hp he =>
    by_cases hu : u = t
    · subst hu
      refine ⟨u, e, s, s', y, hx, hs, here, ?_, hy, hr⟩
      rcases World.exec_written sound he hs hs' with rfl | rfl | ⟨_, _, _, rfl, _⟩ <;> rfl
    · have same : p.world.sessions u = some s' := (World.exec_sessions_of_ne he hu).symm.trans hs'
      exact absurd (Or.inr ⟨u, s', y, same, hy, hr⟩) absent

theorem Entered.unique {n n' : Nat} (h : Entered acts n k r) (h' : Entered acts n' k r) : n = n' := by
  have notBefore : ∀ {m m' : Nat}, Entered acts m k r → Entered acts m' k r → ¬m < m' :=
    fun hm hm' lt => hm'.absent (hm.since _ lt hm'.inRun.le)
  have := notBefore h h'
  have := notBefore h' h
  omega

/-- Two rows come in with two actions. -/
theorem Entered.apart {n : Nat} (h : Entered acts n k r) (h' : Entered acts n k' r') (solid : M.plain tb = false)
    (keeps : ∀ before t req o, ((Pool.empty S).run before).next t = some (req, o) → o.Keeps tb) : k = k' ∧ r = r' := by
  obtain ⟨x, t, s, hx, inserts⟩ := h.inserts solid keeps
  obtain ⟨x', t', s', hx', inserts'⟩ := h'.inserts solid keeps
  rw [hx] at hx'
  cases hx'
  exact inserts.same inserts'

end TxLib

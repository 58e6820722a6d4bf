import Invokr.Outline
import Invokr.Open
import Mathlib.Data.List.Induction
import Mathlib.Data.List.TakeWhile

namespace TxLib

variable {M : Model} {S : System M}

namespace Pool

/-- What an action can do: let a thread make the call it waits for, end a thread, or leave the
database as it is but for the clock. -/
inductive Acts (p : Pool S) : Action S → Pool S → Prop where
  | still {x : Action S} {p' : Pool S} : p'.world.rows = p.world.rows → p'.world.sessions = p.world.sessions →
      p'.world.log = p.world.log → p'.world.keys = p.world.keys → Acts p x p'
  | call {t : Nat} {env : Env M} {th : Thread S} {o : Op M} {next : o.Reply → Program M S.Resp} {w : World M}
      {r : o.Reply} : p.threads t = some th → th.alive = true → th.prog = .call o next →
      p.world.exec t o env = some (w, r) →
      Acts p (.step t env) ⟨w, Function.update p.threads t (some { th with prog := next r })⟩
  | stop {x : Action S} {t : Nat} {th : Thread S} : p.threads t = some th → th.alive = true →
      (x = .kill t ∨ ∃ env next, x = .step t env ∧ th.prog = .call .halt next) → Acts p x (p.stop t th)

theorem acts (p : Pool S) (x : Action S) : p.Acts x (p.act x) := by
  cases x with
  | start t req =>
    simp only [act]
    split
    next => exact .still rfl rfl rfl rfl
    next => exact .still rfl rfl rfl rfl
  | step t env =>
    simp only [act]
    split
    next => exact .still rfl rfl rfl rfl
    next th h =>
      split
      next ha =>
        unfold advance
        split
        next => exact .still rfl rfl rfl rfl
        next next hp => exact .stop h ha (Or.inr ⟨env, next, rfl, hp⟩)
        next o next _ hp =>
          split
          next => exact .still rfl rfl rfl rfl
          next w r he => exact .call h ha hp he
      next => exact .still rfl rfl rfl rfl
  | kill t =>
    simp only [act]
    split
    next => exact .still rfl rfl rfl rfl
    next th h =>
      split
      next ha => exact .stop h ha (Or.inl rfl)
      next => exact .still rfl rfl rfl rfl
  | tick d => exact .still rfl rfl rfl rfl

theorem next_of {p : Pool S} {t : Nat} {th : Thread S} {o : Op M} {next : o.Reply → Program M S.Resp}
    (h : p.threads t = some th) (ha : th.alive = true) (hp : th.prog = .call o next) : p.next t = some (th.req, o) := by
  simp [Pool.next, h, ha, hp, Prog.head]

/-- A thread that waits for a call. -/
theorem waits {p : Pool S} {t : Nat} {req : S.Req} {o : Op M} (h : p.next t = some (req, o)) :
    ∃ th next, p.threads t = some th ∧ th.alive = true ∧ th.req = req ∧ th.prog = .call o next := by
  unfold Pool.next at h
  split at h
  next => cases h
  next th hth =>
    split at h
    next ha =>
      cases hp : th.prog with
      | ret r => simp [hp, Prog.head] at h
      | call o' next =>
        simp only [hp, Prog.head, Option.map_some, Option.some.injEq, Prod.mk.injEq] at h
        obtain ⟨hr, rfl⟩ := h
        exact ⟨th, next, hth, ha, hr, hp⟩
    next => cases h

end Pool

theorem entries_length (o : Op M) (D : Rows M) (foreign : (tb : M.Tbl) → M.Key → Bool) (env : Env M)
    (s : Option (Session M)) : (o.entries D foreign env s).length ≤ 1 := by
  cases o with
  | begin =>
    cases s with
    | none =>
      simp only [Op.entries]
      split <;> simp
    | some s => simp [Op.entries]
  | update stmt tb k skip keep patch =>
    simp only [Op.entries]
    split <;> simp
  | commit =>
    cases s with
    | none => simp [Op.entries]
    | some s =>
      simp only [Op.entries]
      split <;> simp
  | rollback => cases s <;> simp [Op.entries]
  | _ => simp [Op.entries]

/-- The action adds the line to the thread's history. -/
inductive Pool.Logs (p : Pool S) (t : Nat) : Action S → Entry M → Prop where
  | call {env : Env M} {th : Thread S} {o : Op M} {next : o.Reply → Program M S.Resp} {w : World M} {r : o.Reply}
      {y : Entry M} : p.threads t = some th → th.alive = true → th.prog = .call o next →
      p.world.exec t o env = some (w, r) →
      o.entries p.world.rows (p.world.foreign t) env (p.world.sessions t) = [y] → Logs p t (.step t env) y
  | stop {x : Action S} {th : Thread S} : p.threads t = some th → th.alive = true →
      (x = .kill t ∨ ∃ env next, x = .step t env ∧ th.prog = .call .halt next) → Logs p t x .abort

theorem Pool.act_history (p : Pool S) (x : Action S) (t : Nat) :
    (p.act x).world.history t = p.world.history t ∨
      ∃ y, (p.act x).world.history t = p.world.history t ++ [y] ∧ p.Logs t x y := by
  have hacts := p.acts x
  generalize p.act x = p' at hacts ⊢
  cases hacts with
  | still _ _ hl _ => exact Or.inl (by simp [World.history, hl])
  | @call u env th o next w r h ha hp he =>
    by_cases hu : t = u
    · subst hu
      have hv : w.history t = p.world.history t ++ o.entries p.world.rows (p.world.foreign t) env (p.world.sessions t) :=
        congrArg Prod.snd (World.exec_view he)
      have hlen := entries_length o p.world.rows (p.world.foreign t) env (p.world.sessions t)
      cases hes : o.entries p.world.rows (p.world.foreign t) env (p.world.sessions t) with
      | nil => exact Or.inl (by simp [hv, hes])
      | cons y rest =>
        rw [hes] at hlen
        obtain rfl : rest = [] := by
          cases rest with
          | nil => rfl
          | cons _ _ => simp at hlen
        exact Or.inr ⟨y, by simp [hv, hes], .call h ha hp he hes⟩
    · exact Or.inl (congrArg Prod.snd (World.exec_view_of_ne he hu))
  | @stop _ u th h ha hx =>
    by_cases hu : t = u
    · subst hu
      have hv : (p.world.kill t).history t = p.world.history t ++ if (p.world.view t).1.isSome then [Entry.abort] else [] :=
        congrArg Prod.snd (p.world.kill_view t)
      by_cases hs : (p.world.view t).1.isSome = true
      · exact Or.inr ⟨.abort, by simp [Pool.stop, hv, hs], .stop h ha hx⟩
      · exact Or.inl (by simp [Pool.stop, hv, hs])
    · exact Or.inl (congrArg Prod.snd (p.world.kill_view_of_ne hu))

theorem Pool.act_log (p : Pool S) (x : Action S) : (p.act x).world.log = p.world.log ∨
    ∃ t y, (p.act x).world.log = p.world.log ++ [(t, y)] ∧ p.Logs t x y := by
  have hacts := p.acts x
  generalize p.act x = p' at hacts ⊢
  cases hacts with
  | still _ _ hl _ => exact Or.inl hl
  | @call t env th o next w r h ha hp he =>
    obtain ⟨_, s, _, hw⟩ := World.exec_eq he
    have hlen := entries_length o p.world.rows (p.world.foreign t) env (p.world.sessions t)
    cases hes : o.entries p.world.rows (p.world.foreign t) env (p.world.sessions t) with
    | nil => exact Or.inl (by simp [hw, hes])
    | cons y rest =>
      rw [hes] at hlen
      obtain rfl : rest = [] := by
        cases rest with
        | nil => rfl
        | cons _ _ => simp at hlen
      exact Or.inr ⟨t, y, by simp [hw, hes], .call h ha hp he hes⟩
  | @stop _ t th h ha hx =>
    cases hs : p.world.sessions t with
    | none => exact Or.inl (by simp [Pool.stop, World.kill, hs])
    | some s => exact Or.inr ⟨t, .abort, by simp [Pool.stop, World.kill, hs], .stop h ha hx⟩

theorem World.history_snoc {w : World M} {log : List (Nat × Entry M)} {t u : Nat} {y : Entry M} (h : log = w.log ++ [(t, y)]) :
    ((log.filter fun e => e.1 = u).map Prod.snd) = if u = t then w.history u ++ [y] else w.history u :=
  World.history_append w t u [y] log (by simpa using h)

/-- What ends a transaction without a commit. -/
theorem entries_abort {o : Op M} {D : Rows M} {foreign : (tb : M.Tbl) → M.Key → Bool} {env : Env M} {s : Option (Session M)}
    (h : o.entries D foreign env s = [.abort]) :
    o = .rollback ∨ (o = .commit ∧ ∃ s₀, s = some s₀ ∧ (s₀.aborted = true ∨ env.fault = true)) := by
  cases o with
  | ext e => cases h
  | begin =>
    simp only [Op.entries] at h
    split at h
    next => cases h
    next => split at h <;> cases h
  | update stmt tb k skip keep patch =>
    simp only [Op.entries] at h
    split at h <;> cases h
  | commit =>
    simp only [Op.entries] at h
    split at h
    next s₀ =>
      split at h
      next hor => exact Or.inr ⟨rfl, s₀, rfl, by simpa using hor⟩
      next => cases h
    next => cases h
  | rollback => exact Or.inl rfl
  | _ => cases h

/-- Every line of a thread's history was added by one of the actions. -/
theorem Pool.log_origin {acts : List (Action S)} {t : Nat} {l₁ l₂ : List (Entry M)} {y : Entry M}
    (h : ((Pool.empty S).run acts).world.history t = l₁ ++ y :: l₂) :
    ∃ before x after, acts = before ++ x :: after ∧ ((Pool.empty S).run before).world.history t = l₁ ∧
      ((Pool.empty S).run (before ++ [x])).world.history t = l₁ ++ [y] ∧ ((Pool.empty S).run before).Logs t x y := by
  induction acts using List.reverseRecOn generalizing l₂ with
  | nil =>
    have : (l₁ ++ y :: l₂ : List (Entry M)) = [] := h.symm
    simp at this
  | append_singleton acts x ih =>
    have hrun : (Pool.empty S).run (acts ++ [x]) = ((Pool.empty S).run acts).act x := by simp [Pool.run_append]
    have lift : ∀ {l₂}, ((Pool.empty S).run acts).world.history t = l₁ ++ y :: l₂ →
        ∃ before x' after, acts ++ [x] = before ++ x' :: after ∧ ((Pool.empty S).run before).world.history t = l₁ ∧
          ((Pool.empty S).run (before ++ [x'])).world.history t = l₁ ++ [y] ∧
          ((Pool.empty S).run before).Logs t x' y := by
      intro l₂ hl
      obtain ⟨before, x', after, rfl, rest⟩ := ih hl
      exact ⟨before, x', after ++ [x], by simp, rest⟩
    rw [hrun] at h
    rcases Pool.act_history ((Pool.empty S).run acts) x t with he | ⟨y', he, logs⟩
    · exact lift (he ▸ h)
    · rcases List.eq_nil_or_concat l₂ with rfl | ⟨l₂', y₂, rfl⟩
      · rw [he] at h
        obtain ⟨hl, hy⟩ := List.append_inj' h rfl
        cases hy
        exact ⟨acts, x, [], by simp, hl, by rw [hrun, he, hl], logs⟩
      · rw [he] at h
        have h' : ((Pool.empty S).run acts).world.history t ++ [y'] = (l₁ ++ y :: l₂') ++ [y₂] := by simpa using h
        exact lift (List.append_inj' h' rfl).1

theorem Pool.run_history (p : Pool S) (acts : List (Action S)) (t : Nat) :
    ∃ l, (p.run acts).world.history t = p.world.history t ++ l := by
  induction acts generalizing p with
  | nil => exact ⟨[], by simp⟩
  | cons x acts ih =>
    obtain ⟨l, hl⟩ := ih (p.act x)
    rcases p.act_history x t with he | ⟨y, he, _⟩
    · exact ⟨l, by rw [Pool.run_cons, hl, he]⟩
    · exact ⟨y :: l, by rw [Pool.run_cons, hl, he]; simp⟩

/-- The line of a commit is written where a transaction's versions become the committed ones. -/
theorem Pool.Logs.committed {p : Pool S} {t : Nat} {x : Action S} {s : Session M} (h : p.Logs t x (.commit s)) :
    ∃ th, p.threads t = some th ∧ p.world.sessions t = some s ∧ s.aborted = false ∧
      (p.act x).world.rows = s.visible p.world.rows ∧ ∃ e, x = .step t e := by
  cases h with
  | @call env th o next w r _ hth ha hp he hes =>
    have hrows : (p.act (.step t env)).world.rows = o.store p.world.rows p.world.keys env (p.world.sessions t) := by
      obtain ⟨_, s', hev, hw⟩ := World.exec_eq he
      have hact : p.act (.step t env) = ⟨w, Function.update p.threads t (some { th with prog := next r })⟩ := by
        simp only [Pool.act, hth, ha, ↓reduceIte, Pool.advance, hp]
        cases o with
        | halt => cases hev
        | _ => simp only [he]
      rw [hact, hw]
    refine ⟨th, hth, ?_⟩
    rw [hrows]
    cases o with
    | ext e => cases hes
    | begin =>
      simp only [Op.entries] at hes
      split at hes
      next => cases hes
      next => split at hes <;> cases hes
    | update stmt tb k skip keep patch =>
      simp only [Op.entries] at hes
      split at hes <;> cases hes
    | commit =>
      cases hs : p.world.sessions t with
      | none =>
        rw [hs] at hes
        cases hes
      | some s' =>
        rw [hs] at hes
        simp only [Op.entries] at hes
        split at hes
        next => cases hes
        next hn =>
          cases hes
          simp only [Op.store, if_neg hn]
          simp only [Bool.or_eq_true, not_or, Bool.not_eq_true] at hn
          exact ⟨trivial, hn.1, trivial, env, rfl⟩
    | rollback =>
      simp only [Op.entries] at hes
      split at hes <;> cases hes
    | _ => cases hes

/-- A thread keeps its request for good. -/
theorem Pool.act_req {p : Pool S} {t : Nat} {th : Thread S} (h : p.threads t = some th) (x : Action S) :
    ∃ th', (p.act x).threads t = some th' ∧ th'.req = th.req := by
  have keep : ∀ {u : Nat} {th₁ : Thread S} {prog : Program M S.Resp} {alive : Bool}, p.threads u = some th₁ →
      ∃ th', Function.update p.threads u (some ⟨th₁.req, prog, alive⟩) t = some th' ∧ th'.req = th.req := by
    intro u th₁ prog alive hu
    by_cases ht : t = u
    · subst ht
      rw [h] at hu
      cases hu
      exact ⟨_, Function.update_self .., rfl⟩
    · exact ⟨th, by rw [Function.update_of_ne ht, h], rfl⟩
  cases x with
  | start u req =>
    simp only [act]
    split
    next => exact ⟨th, h, rfl⟩
    next hn =>
      have ht : t ≠ u := by
        rintro rfl
        rw [h] at hn
        cases hn
      exact ⟨th, by simp only [Function.update_of_ne ht, h], rfl⟩
  | step u env =>
    simp only [act]
    split
    next => exact ⟨th, h, rfl⟩
    next th₁ hu =>
      split
      next =>
        unfold advance
        split
        next => exact ⟨th, h, rfl⟩
        next => exact keep hu
        next =>
          split
          next => exact ⟨th, h, rfl⟩
          next => exact keep hu
      next => exact ⟨th, h, rfl⟩
  | kill u =>
    simp only [act]
    split
    next => exact ⟨th, h, rfl⟩
    next th₁ hu =>
      split
      next => exact keep hu
      next => exact ⟨th, h, rfl⟩
  | tick d => exact ⟨th, h, rfl⟩

theorem Pool.run_req {p : Pool S} {t : Nat} {th : Thread S} (h : p.threads t = some th) (acts : List (Action S)) :
    ∃ th', (p.run acts).threads t = some th' ∧ th'.req = th.req := by
  induction acts generalizing p th with
  | nil => exact ⟨th, h, rfl⟩
  | cons x acts ih =>
    obtain ⟨th₁, h₁, hr₁⟩ := Pool.act_req h x
    obtain ⟨th₂, h₂, hr₂⟩ := ih h₁
    exact ⟨th₂, h₂, hr₂.trans hr₁⟩

/-- A thread that an action adds is the one it starts. -/
theorem Pool.act_started {p : Pool S} {x : Action S} {t : Nat} {th : Thread S} (hn : p.threads t = none)
    (h : (p.act x).threads t = some th) : x = .start t th.req := by
  have other : ∀ {u : Nat} {th₁ : Thread S} {v : Option (Thread S)}, p.threads u = some th₁ →
      Function.update p.threads u v t = none := by
    intro u th₁ v hu
    have ht : t ≠ u := by
      rintro rfl
      rw [hn] at hu
      cases hu
    rw [Function.update_of_ne ht, hn]
  cases x with
  | start u req =>
    simp only [act] at h
    split at h
    next =>
      rw [hn] at h
      cases h
    next =>
      by_cases ht : t = u
      · subst ht
        simp only [Function.update_self, Option.some.injEq] at h
        rw [← h]
      · simp only [Function.update_of_ne ht, hn] at h
        cases h
  | step u env =>
    simp only [act] at h
    split at h
    next =>
      rw [hn] at h
      cases h
    next th₁ hu =>
      split at h
      next =>
        unfold advance at h
        split at h
        next =>
          rw [hn] at h
          cases h
        next =>
          simp only [stop, other hu] at h
          cases h
        next =>
          split at h
          next =>
            rw [hn] at h
            cases h
          next =>
            simp only [other hu] at h
            cases h
      next =>
        rw [hn] at h
        cases h
  | kill u =>
    simp only [act] at h
    split at h
    next =>
      rw [hn] at h
      cases h
    next th₁ hu =>
      split at h
      next =>
        simp only [stop, other hu] at h
        cases h
      next =>
        rw [hn] at h
        cases h
  | tick d =>
    simp only [act, hn] at h
    cases h

theorem Pool.thread_started {acts : List (Action S)} {t : Nat} {th : Thread S}
    (h : ((Pool.empty S).run acts).threads t = some th) : .start t th.req ∈ acts := by
  induction acts using List.reverseRecOn generalizing th with
  | nil => cases h
  | append_singleton acts x ih =>
    have hrun : (Pool.empty S).run (acts ++ [x]) = ((Pool.empty S).run acts).act x := by simp [Pool.run_append]
    rw [hrun] at h
    cases hth : ((Pool.empty S).run acts).threads t with
    | none => exact List.mem_append_right _ (List.mem_singleton.mpr (Pool.act_started hth h).symm)
    | some th₀ =>
      obtain ⟨th', h', hreq⟩ := Pool.act_req hth x
      rw [h] at h'
      cases h'
      exact List.mem_append_left _ (hreq ▸ ih hth)

/-- The line of a transaction's begin keeps the rows that were committed then. -/
theorem Pool.Logs.began {p : Pool S} {t : Nat} {x : Action S} {D : Rows M} (h : p.Logs t x (.begin D)) :
    D = p.world.rows := by
  cases h with
  | @call env th o next w r _ hth ha hp he hes =>
    cases o with
    | begin =>
      simp only [Op.entries] at hes
      split at hes
      next => cases hes
      next =>
        split at hes
        next => cases hes
        next =>
          cases hes
          rfl
    | ext e => cases hes
    | update stmt tb k skip keep patch =>
      simp only [Op.entries] at hes
      split at hes <;> cases hes
    | commit =>
      simp only [Op.entries] at hes
      split at hes
      next => split at hes <;> cases hes
      next => cases hes
    | rollback =>
      simp only [Op.entries] at hes
      split at hes <;> cases hes
    | _ => cases hes

/-- The lines of the open transaction follow each other without a commit or an abort. -/
theorem current_split {l : List (Entry M)} {y : Entry M} (h : y ∈ current l) :
    ∃ l₁ l₂, l = l₁ ++ y :: l₂ ∧ ∀ z ∈ l₂, z.inside = true := by
  unfold current at h
  rw [List.mem_reverse] at h
  obtain ⟨a, b, hab⟩ := List.append_of_mem h
  have hl : l.reverse = a ++ y :: (b ++ l.reverse.dropWhile Entry.inside) := by
    conv_lhs => rw [← List.takeWhile_append_dropWhile (p := Entry.inside) (l := l.reverse), hab]
    simp
  refine ⟨(b ++ l.reverse.dropWhile Entry.inside).reverse, a.reverse, ?_, fun z hz => ?_⟩
  · have := congrArg List.reverse hl
    simpa using this
  · have hm : z ∈ l.reverse.takeWhile Entry.inside := by
      rw [hab]
      exact List.mem_append_left _ (List.mem_reverse.mp hz)
    exact List.mem_takeWhile_imp hm

section updates

variable {w w' : World M} {t : Nat} {env : Env M} {stmt : M.Stmt} {tb : M.Tbl} {k : M.Key} {skip : Bool}
  {keep : Int → M.Row tb → Bool} {patch : Patch M tb}

theorem updateRow_some {D : Rows M} {foreign : Bool} {s : Session M} {r : M.Row tb}
    (h : (updateRow D foreign tb k keep patch s).1 = .ok (some r)) :
    (updateRow D foreign tb k keep patch s).2 = s.write D tb k (some r) ∧
      ∃ old, s.visible D tb k = some old ∧ keep s.now old = true := by
  unfold updateRow at h ⊢
  split at h
  next => cases h
  next hf =>
    split at h
    next => cases h
    next old hv =>
      split at h
      next hk =>
        split at h
        next => cases h
        next hs =>
          split at h
          next => cases h
          next hr =>
            obtain rfl := Option.some.inj (Except.ok.inj h)
            simp [hf, hv, hk, hs, hr]
      next => cases h

/-- The line of an `UPDATE` is written where it has patched a row. -/
theorem entries_update {y : Entry M}
    (h : (Op.update stmt tb k skip keep patch).entries w.rows (w.foreign t) env (w.sessions t) = [y]) :
    ∃ s r old, w.sessions t = some s ∧ s.aborted = false ∧ y = .updated stmt tb k (s.baseOf w.rows tb k) ∧
      inTx (w.sessions t) env (updateRow w.rows (skip && w.foreign t tb k) tb k keep patch) =
        (.ok (some r), some (s.write w.rows tb k (some r))) ∧ s.visible w.rows tb k = some old ∧ keep s.now old = true := by
  simp only [Op.entries] at h
  split at h
  next r s' s he hs =>
    rcases inTx_cases he with ⟨_, _, hbad⟩ | ⟨_, _, _, _, hbad⟩ | ⟨s₀, hs₀, ha, _, hr, hs'⟩
    · cases hbad
    · cases hbad
    · obtain rfl : s = s₀ := Option.some.inj (hs.symm.trans hs₀)
      obtain ⟨hw, old, hv, hk⟩ := updateRow_some hr.symm
      refine ⟨s, r, old, hs, ha, (List.singleton_inj.mp h).symm, ?_, hv, hk⟩
      rw [he, hs', hw]
  next => cases h

/-- Every row that the open transaction has patched is still held by it. -/
def Logged (v : View M) : Prop :=
  ∀ (stmt : M.Stmt) (tb : M.Tbl) (k : M.Key) (b : Option (M.Row tb)), Entry.updated stmt tb k b ∈ current v.2 →
    ∃ s, v.1 = some s ∧ (s.aborted = false → ∃ h, s.held tb k = some h ∧ h.base = b)

theorem logged_outside {v : View M} {y : Entry M} {l : List (Entry M)} (hv : v.2 = l ++ [y]) (hy : y.inside = false) :
    Logged v := by
  intro stmt tb k b hm
  rw [hv, current_outside hy] at hm
  cases hm

theorem logged_snoc {v : View M} {y : Entry M} {l : List (Entry M)} (h : Logged (v.1, l)) (hv : v.2 = l ++ [y])
    (hy : y.inside = true) (hu : ∀ stmt tb k b, y ≠ .updated stmt tb k b) : Logged v := by
  intro stmt tb k b hm
  rw [hv, current_inside hy, List.mem_append, List.mem_singleton] at hm
  rcases hm with hm | hm
  · exact h stmt tb k b hm
  · exact (hu _ _ _ _ hm.symm).elim

/-- A transaction that goes on still holds what it held. -/
theorem Move.holds {keys : (tb : M.Tbl) → List M.Key} {rows : Rows M} {s s' : Session M}
    (m : Move w t keys (some s) (some s') rows) (ha : s'.aborted = false) :
    s.aborted = false ∧ ∀ tb k h, s.held tb k = some h → ∃ h', s'.held tb k = some h' ∧ h'.base = h.base := by
  cases m with
  | stay => exact ⟨ha, fun tb k h hh => ⟨h, hh, rfl⟩⟩
  | fail => cases ha
  | @write _ tb k v hn _ _ _ _ =>
    refine ⟨hn, fun tb' k' h hh => ?_⟩
    by_cases ht : tb' = tb
    · subst ht
      by_cases hk : k' = k
      · subst hk
        exact ⟨_, Session.write_held_same s w.rows _ _ _, by simp [Session.baseOf, hh]⟩
      · exact ⟨h, by rw [Session.write_held_key s _ _ hk]; exact hh, rfl⟩
    · exact ⟨h, by rw [Session.write_held_tbl s _ _ ht]; exact hh, rfl⟩

theorem logged_move {keys : (tb : M.Tbl) → List M.Key} {rows : Rows M} {s' : Option (Session M)} {l : List (Entry M)}
    (h : Logged (w.sessions t, l)) (m : Move w t keys (w.sessions t) s' rows) (hs : (w.sessions t).isSome → s'.isSome) :
    Logged (s', l) := by
  intro stmt tb k b hm
  obtain ⟨s, hv, held⟩ := h stmt tb k b hm
  have hv' : w.sessions t = some s := hv
  rw [hv'] at m hs
  obtain ⟨s₁, rfl⟩ := Option.isSome_iff_exists.mp (hs rfl)
  refine ⟨s₁, rfl, fun ha => ?_⟩
  obtain ⟨hn, keeps⟩ := m.holds ha
  obtain ⟨x, hx, hb⟩ := held hn
  obtain ⟨x', hx', hb'⟩ := keeps tb k x hx
  exact ⟨x', hx', hb'.trans hb⟩

theorem Logged.exec {o : Op M} {r : o.Reply} (sound : Sound w) (h : Logged (w.view t))
    (he : w.exec t o env = some (w', r)) : Logged (w'.view t) := by
  have m := (sound.exec he).1
  have hv : w'.history t = w.history t ++ o.entries w.rows (w.foreign t) env (w.sessions t) :=
    congrArg Prod.snd (World.exec_view he)
  obtain ⟨_, s', hev, hw⟩ := World.exec_eq he
  have hs' : w'.sessions t = s' := by simp [hw]
  have silent : o.entries w.rows (w.foreign t) env (w.sessions t) = [] → ((w.sessions t).isSome → s'.isSome) →
      Logged (w'.view t) := by
    intro hes hsome
    rw [hes, List.append_nil] at hv
    have := logged_move h m (by rwa [hs'])
    rwa [show w'.view t = (w'.sessions t, w.history t) from Prod.ext rfl hv]
  have inside : ∀ {α : Type} {act : Session M → Except DbError α × Session M} {x : Except DbError α},
      inTx (w.sessions t) env act = (x, s') → (w.sessions t).isSome → s'.isSome := by
    intro α act x hx hsome
    rcases inTx_cases hx with ⟨rfl, _⟩ | ⟨_, _, rfl, _⟩ | ⟨_, _, _, _, _, rfl⟩
    · exact hsome
    · rfl
    · rfl
  cases o with
  | ext e =>
    refine logged_snoc (l := w.history t) (y := .ext e (env.answer e)) ?_ hv rfl fun _ _ _ _ hy => by cases hy
    rw [show (w'.view t).1 = w.sessions t by rw [World.view, hs']; exact (Prod.mk.inj (Option.some.inj hev)).2.symm]
    exact h
  | halt => cases hev
  | begin =>
    cases hs : w.sessions t with
    | some s =>
      rw [hs] at hev
      refine silent (by simp [Op.entries, hs]) fun _ => ?_
      rw [← (Prod.mk.inj (Option.some.inj hev)).2]
      rfl
    | none =>
      have none_updated : ∀ stmt tb k b, Entry.updated stmt tb k b ∉ current (w.history t) := by
        intro stmt tb k b hm
        obtain ⟨s, hs₁, _⟩ := h stmt tb k b hm
        have hs₂ : w.sessions t = some s := hs₁
        rw [hs] at hs₂
        cases hs₂
      intro stmt tb k b hm
      have hm' : Entry.updated stmt tb k b ∈ current (w'.history t) := hm
      rw [hv] at hm'
      simp only [Op.entries, hs] at hm'
      split at hm'
      next => exact (none_updated stmt tb k b (by simpa using hm')).elim
      next =>
        rw [current_inside rfl, List.mem_append, List.mem_singleton] at hm'
        rcases hm' with hm' | hm'
        · exact (none_updated stmt tb k b hm').elim
        · cases hm'
  | snapshot stmt => exact silent rfl (inside (Option.some.inj hev))
  | insert => exact silent rfl (inside (Option.some.inj hev))
  | put => exact silent rfl (inside (Option.some.inj hev))
  | delete => exact silent rfl (inside (Option.some.inj hev))
  | deleteNow stmt tb k =>
    refine silent rfl fun hsome => ?_
    obtain ⟨s, hs⟩ := Option.isSome_iff_exists.mp hsome
    rw [hs] at hev
    rw [← (Prod.mk.inj (Option.some.inj hev)).2]
    rfl
  | update stmt tb k skip keep patch =>
    cases hes : (Op.update stmt tb k skip keep patch).entries w.rows (w.foreign t) env (w.sessions t) with
    | nil => exact silent hes (inside (Option.some.inj hev))
    | cons y rest =>
      have hlen := entries_length (Op.update stmt tb k skip keep patch) w.rows (w.foreign t) env (w.sessions t)
      rw [hes] at hlen
      obtain rfl : rest = [] := by
        cases rest with
        | nil => rfl
        | cons _ _ => simp at hlen
      obtain ⟨s, row, old, hs, ha, rfl, htx, _⟩ := entries_update hes
      rw [hes] at hv
      have hafter : s' = some (s.write w.rows tb k (some row)) := by
        have := Option.some.inj hev
        rw [htx] at this
        exact (Prod.mk.inj this).2.symm
      have moved := logged_move h m (by rw [hs', hafter]; exact fun _ => rfl)
      intro stmt' tb' k' b hm
      have hm' : Entry.updated stmt' tb' k' b ∈ current (w'.history t) := hm
      rw [hv, current_inside rfl, List.mem_append, List.mem_singleton] at hm'
      rcases hm' with hm' | hm'
      · exact moved stmt' tb' k' b hm'
      · cases hm'
        refine ⟨_, hs'.trans hafter, fun _ => ⟨_, Session.write_held_same s w.rows _ _ _, rfl⟩⟩
  | commit =>
    cases hs : w.sessions t with
    | none => exact silent (by simp [Op.entries, hs]) fun hsome => by simp [hs] at hsome
    | some s =>
      rw [hs] at hv
      simp only [Op.entries] at hv
      split at hv
      next => exact logged_outside hv rfl
      next => exact logged_outside hv rfl
  | rollback =>
    cases hs : w.sessions t with
    | none => exact silent (by simp [Op.entries, hs]) fun hsome => by simp [hs] at hsome
    | some s =>
      rw [hs] at hv
      exact logged_outside hv rfl

theorem Pool.logged_act {p : Pool S} {x : Action S} (sound : Sound p.world) (h : ∀ t, Logged (p.world.view t)) (t : Nat) :
    Logged ((p.act x).world.view t) := by
  have hacts := p.acts x
  generalize p.act x = p' at hacts ⊢
  cases hacts with
  | still _ hs hl _ =>
    have hv : p'.world.view t = p.world.view t := by simp [World.view, World.history, hs, hl]
    rw [hv]
    exact h t
  | @call u env th o next w r _ _ _ he =>
    by_cases hu : t = u
    · subst hu
      exact (h t).exec sound he
    · exact (World.exec_view_of_ne he hu) ▸ h t
  | @stop _ u th _ _ _ =>
    by_cases hu : t = u
    · subst hu
      have hv : (p.world.kill t).view t = World.killed (p.world.view t) := p.world.kill_view t
      change Logged ((p.world.kill t).view t)
      rw [hv]
      cases hs : (p.world.view t).1 with
      | none =>
        have : World.killed (p.world.view t) = p.world.view t := by
          refine Prod.ext hs.symm ?_
          simp [World.killed, hs]
        rw [this]
        exact h t
      | some s => exact logged_outside (l := (p.world.view t).2) (by simp [World.killed, hs]) (y := .abort) rfl
    · exact (p.world.kill_view_of_ne hu) ▸ h t

/-- Which call has written the line of an `UPDATE`. -/
theorem entries_updated {o : Op M} {b : Option (M.Row tb)}
    (h : o.entries w.rows (w.foreign t) env (w.sessions t) = [.updated stmt tb k b]) :
    ∃ skip keep patch, o = .update stmt tb k skip keep patch := by
  cases o with
  | ext e => cases h
  | begin =>
    simp only [Op.entries] at h
    split at h
    next => cases h
    next => split at h <;> cases h
  | update stmt' tb' k' skip keep patch =>
    obtain ⟨s, r, old, _, _, hy, _⟩ := entries_update h
    cases hy
    exact ⟨skip, keep, patch, rfl⟩
  | commit =>
    simp only [Op.entries] at h
    split at h
    next => split at h <;> cases h
    next => cases h
  | rollback =>
    simp only [Op.entries] at h
    split at h <;> cases h
  | _ => cases h

end updates

/-- No key is listed twice. -/
theorem addKey_nodup {keys : (tb : M.Tbl) → List M.Key} (h : ∀ tb, (keys tb).Nodup) (tb : M.Tbl) (k : M.Key) (tb' : M.Tbl) :
    (addKey keys tb k tb').Nodup := by
  unfold addKey
  by_cases ht : tb' = tb
  · subst ht
    rw [Function.update_self]
    split
    next => exact h tb'
    next hk =>
      refine List.nodup_append.mpr ⟨h tb', by simp, fun a ha b hb => ?_⟩
      rw [List.mem_singleton.mp hb]
      rintro rfl
      exact hk ha
  · rw [Function.update_of_ne ht]
    exact h tb'

theorem keysAfter_nodup {keys : (tb : M.Tbl) → List M.Key} (h : ∀ tb, (keys tb).Nodup) (o : Op M) (env : Env M)
    (s : Option (Session M)) (tb : M.Tbl) : (o.keysAfter keys env s tb).Nodup := by
  cases o with
  | insert stmt tb' orIgnore build =>
    simp only [Op.keysAfter]
    split
    next => exact addKey_nodup h _ _ tb
    next => exact h tb
  | put stmt tb' k row => exact addKey_nodup h _ _ tb
  | _ => exact h tb

theorem Pool.keys_nodup (acts : List (Action S)) (tb : M.Tbl) : (((Pool.empty S).run acts).world.keys tb).Nodup := by
  induction acts using List.reverseRecOn generalizing tb with
  | nil => exact List.nodup_nil
  | append_singleton acts x ih =>
    have hrun : (Pool.empty S).run (acts ++ [x]) = ((Pool.empty S).run acts).act x := by simp [Pool.run_append]
    rw [hrun]
    have hacts := ((Pool.empty S).run acts).acts x
    generalize ((Pool.empty S).run acts).act x = p' at hacts ⊢
    cases hacts with
    | still _ _ _ hk => exact hk ▸ ih tb
    | @call t env th o next w r _ _ _ he =>
      obtain ⟨_, s, _, hw⟩ := World.exec_eq he
      rw [hw]
      exact keysAfter_nodup ih o env _ tb
    | stop _ _ _ => exact ih tb

end TxLib

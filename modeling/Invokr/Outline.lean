import Invokr.Pool

namespace TxLib

variable {M : Model} {S : System M}

/-- A call as the thread that makes it sees it. Since its last step the others have moved on as
`rely` says and have left its view alone; the world is sound, satisfies the invariant and allows
the call. -/
def Local (rely : World M → World M → Prop) (Inv : World M → Prop) (allow : World M → Nat → Env M → Op M → Prop)
    (t : Nat) (w₀ : World M) (o : Op M) (r : o.Reply) (w' : World M) : Prop :=
  ∃ w env, rely w₀ w ∧ w.view t = w₀.view t ∧ Sound w ∧ Inv w ∧ allow w t env o ∧ w.exec t o env = some (w', r)

/-- An invariant of the store, what others may count on from one moment to a later one, and what
every thread guarantees at its calls, at its end and at any time. -/
structure Outline (S : System M) where
  inv : World M → Prop
  rely : World M → World M → Prop
  pre : S.Req → Nat → World M → Op M → Prop
  post : S.Req → Nat → S.Resp → World M → Prop
  rest : S.Req → View M → Prop

/-- The guarantees of the threads keep the invariant, and the programs give the guarantees. -/
structure Outline.Valid (a : Outline S) (g : Guard S) : Prop where
  init : a.inv (World.empty M)
  refl : ∀ w, a.rely w w
  trans : ∀ w w' w'', a.rely w w' → a.rely w' w'' → a.rely w w''
  start : ∀ req t w, g.start req → Sound w → a.inv w → w.view t = (none, []) →
    (S.program req).Holds (Local a.rely a.inv (g.step req) t) (a.pre req t) (a.post req t) w
  exec : ∀ req t w₀ w w' env (o : Op M) (r : o.Reply), a.rely w₀ w → w.view t = w₀.view t → Sound w → a.inv w →
    g.step req w t env o → a.pre req t w₀ o → w.exec t o env = some (w', r) → a.inv w' ∧ a.rely w w'
  kill : ∀ req w t, Sound w → a.inv w → a.rest req (w.view t) →
    (g.kill req w t ∨ ∃ env, g.step req w t env .halt) → a.inv (w.kill t) ∧ a.rely w (w.kill t)
  tick : ∀ w (d : Nat), a.inv w → a.inv { w with clock := w.clock + d } ∧ a.rely w { w with clock := w.clock + d }
  rest_pre : ∀ req t w o, a.pre req t w o → a.rest req (w.view t)
  rest_post : ∀ req t r w, a.post req t r w → a.rest req (w.view t)
  rest_kill : ∀ req v, a.rest req v → a.rest req (World.killed v)

/-- What a thread has guaranteed, from its last step on. -/
def Pool.Guarantees (a : Outline S) (g : Guard S) (w : World M) (t : Nat) (th : Thread S) : Prop :=
  ∃ w₀, a.rely w₀ w ∧ w.view t = w₀.view t ∧
    th.prog.Holds (Local a.rely a.inv (g.step th.req) t) (a.pre th.req t) (a.post th.req t) w₀

/-- What holds between the steps of a run. -/
structure Pool.Keeps (a : Outline S) (g : Guard S) (p : Pool S) : Prop where
  sound : Sound p.world
  inv : a.inv p.world
  idle : ∀ t, p.threads t = none → p.world.view t = (none, [])
  dead : ∀ t th, p.threads t = some th → th.alive = false →
    p.world.sessions t = none ∧ a.rest th.req (p.world.view t)
  alive : ∀ t th, p.threads t = some th → th.alive = true → Pool.Guarantees a g p.world t th
  started : ∀ t th, p.threads t = some th → g.start th.req

section rules

variable {a : Outline S} {g : Guard S} {p : Pool S}

theorem Pool.keeps_empty (valid : a.Valid g) : (Pool.empty S).Keeps a g where
  sound := sound_empty M
  inv := valid.init
  idle _ _ := rfl
  dead _ _ h := by cases h
  alive _ _ h := by cases h
  started _ _ h := by cases h

theorem Pool.Guarantees.later (valid : a.Valid g) {w w' : World M} {t : Nat} {th : Thread S}
    (h : Pool.Guarantees a g w t th) (hr : a.rely w w') (hv : w'.view t = w.view t) : Pool.Guarantees a g w' t th := by
  obtain ⟨w₀, hr₀, hv₀, hold⟩ := h
  exact ⟨w₀, valid.trans _ _ _ hr₀ hr, hv.trans hv₀, hold⟩

theorem Pool.Keeps.rest (k : p.Keeps a g) (valid : a.Valid g) {t : Nat} {th : Thread S}
    (h : p.threads t = some th) : a.rest th.req (p.world.view t) := by
  cases ha : th.alive with
  | false => exact (k.dead t th h ha).2
  | true =>
    obtain ⟨w₀, _, hv, hold⟩ := k.alive t th h ha
    rw [hv]
    cases hp : th.prog with
    | ret r => rw [hp] at hold; exact valid.rest_post _ _ _ _ hold
    | call o next => rw [hp] at hold; exact valid.rest_pre _ _ _ _ hold.1

/-- A thread comes to an end or a beginning and the others stay as they are. -/
theorem Pool.Keeps.replace (k : p.Keeps a g) (valid : a.Valid g) {t : Nat} {th : Thread S} {w : World M}
    (sound : Sound w) (inv : a.inv w) (later : a.rely p.world w) (frame : ∀ u, u ≠ t → w.view u = p.world.view u)
    (started : g.start th.req)
    (dead : th.alive = false → w.sessions t = none ∧ a.rest th.req (w.view t))
    (alive : th.alive = true → Pool.Guarantees a g w t th) :
    Pool.Keeps a g ⟨w, Function.update p.threads t (some th)⟩ where
  sound := sound
  inv := inv
  idle u hu := by
    by_cases he : u = t
    · subst he; simp at hu
    · exact (frame u he).trans (k.idle u (by simpa [Function.update_of_ne he] using hu))
  dead u th' hu hd := by
    by_cases he : u = t
    · subst he
      simp only [Function.update_self, Option.some.injEq] at hu
      subst hu
      exact dead hd
    · have old := k.dead u th' (by simpa [Function.update_of_ne he] using hu) hd
      exact ⟨(congrArg Prod.fst (frame u he)).trans old.1, by rw [frame u he]; exact old.2⟩
  alive u th' hu ha := by
    by_cases he : u = t
    · subst he
      simp only [Function.update_self, Option.some.injEq] at hu
      subst hu
      exact alive ha
    · exact (k.alive u th' (by simpa [Function.update_of_ne he] using hu) ha).later valid later (frame u he)
  started u th' hu := by
    by_cases he : u = t
    · subst he
      simp only [Function.update_self, Option.some.injEq] at hu
      subst hu
      exact started
    · exact k.started u th' (by simpa [Function.update_of_ne he] using hu)

theorem Pool.Keeps.start (k : p.Keeps a g) (valid : a.Valid g) {t : Nat} {req : S.Req} (hr : g.start req)
    (h : p.threads t = none) :
    Pool.Keeps a g { p with threads := Function.update p.threads t (some ⟨req, S.program req, true⟩) } := by
  refine k.replace valid k.sound k.inv (valid.refl _) (fun _ _ => rfl) hr (fun hd => by cases hd) fun _ => ?_
  exact ⟨p.world, valid.refl _, rfl, valid.start req t p.world hr k.sound k.inv (k.idle t h)⟩

theorem Pool.Keeps.stop (k : p.Keeps a g) (valid : a.Valid g) {t : Nat} {th : Thread S}
    (h : p.threads t = some th) (allow : g.kill th.req p.world t ∨ ∃ env, g.step th.req p.world t env .halt) :
    (p.stop t th).Keeps a g := by
  have rest := k.rest valid h
  obtain ⟨inv, later⟩ := valid.kill _ _ t k.sound k.inv rest allow
  refine k.replace valid (k.sound.kill t) inv later (fun u hu => p.world.kill_view_of_ne hu) (k.started t th h)
    (fun _ => ⟨by simp [World.kill], ?_⟩) (fun ha => by cases ha)
  rw [World.kill_view]
  exact valid.rest_kill _ _ rest

/-- One answered call keeps what holds between the steps: the caller by its own guarantee, every
other thread because its view is as it was. -/
theorem Pool.Keeps.answered (k : p.Keeps a g) (valid : a.Valid g) {t : Nat} {th : Thread S} {env : Env M}
    {o : Op M} {next : o.Reply → Program M S.Resp} {w : World M} {r : o.Reply} (h : p.threads t = some th)
    (ha : th.alive = true) (hp : th.prog = .call o next) (allow : g.step th.req p.world t env o)
    (he : p.world.exec t o env = some (w, r)) :
    Pool.Keeps a g ⟨w, Function.update p.threads t (some { th with prog := next r })⟩ := by
  obtain ⟨w₀, later₀, hv₀, hold⟩ := k.alive t th h ha
  rw [hp] at hold
  obtain ⟨pre, rest⟩ := hold
  obtain ⟨inv, later⟩ := valid.exec th.req t w₀ _ w env o r later₀ hv₀ k.sound k.inv allow pre he
  refine k.replace valid (k.sound.exec he).2 inv later (fun u hu => World.exec_view_of_ne he hu) (k.started t th h)
    (fun hd => ?_) fun _ => ?_
  · rw [ha] at hd
    cases hd
  · exact ⟨w, valid.refl _, rfl, rest r w ⟨p.world, env, later₀, hv₀, k.sound, k.inv, allow, he⟩⟩

theorem Pool.Keeps.act (k : p.Keeps a g) (valid : a.Valid g) {x : Action S} (allow : p.Allows g x) :
    (p.act x).Keeps a g := by
  cases x with
  | start t req =>
    simp only [Pool.act]
    split
    next => exact k
    next h => exact k.start valid allow h
  | step t env =>
    simp only [Pool.act]
    split
    next => exact k
    next th h =>
      split
      next ha =>
        unfold Pool.advance
        split
        next => exact k
        next next hp =>
          exact k.stop valid h (Or.inr ⟨env, allow th.req .halt (by simp [Pool.next, h, ha, hp, Prog.head])⟩)
        next o next _ hp =>
          split
          next => exact k
          next w r he => exact k.answered valid h ha hp (allow th.req o (by simp [Pool.next, h, ha, hp, Prog.head])) he
      next => exact k
  | kill t =>
    simp only [Pool.act]
    split
    next => exact k
    next th h =>
      split
      next => exact k.stop valid h (Or.inl (allow th h))
      next => exact k
  | tick d =>
    obtain ⟨inv, later⟩ := valid.tick _ d k.inv
    exact ⟨k.sound.tick _, inv, k.idle, k.dead, fun t th h ha => (k.alive t th h ha).later valid later rfl, k.started⟩

/-- The rule for runs: what a valid outline states holds at every moment of every allowed run. -/
theorem Pool.Keeps.run (k : p.Keeps a g) (valid : a.Valid g) {acts : List (Action S)} (h : p.Meets g acts) :
    (p.run acts).Keeps a g := by
  induction acts generalizing p with
  | nil => exact k
  | cons x acts ih => exact ih (k.act valid h.1) h.2

theorem Outline.Valid.keeps (valid : a.Valid g) {acts : List (Action S)} (h : (Pool.empty S).Meets g acts) :
    ((Pool.empty S).run acts).Keeps a g :=
  (Pool.keeps_empty valid).run valid h

end rules

end TxLib

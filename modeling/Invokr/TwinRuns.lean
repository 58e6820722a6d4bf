import Invokr.Twins

namespace TxLib

variable {M : Model} {S : System M} {α : Type} {t : Nat}

section pools

variable {T : M.Tbl} {c : Int} {D D' : Rows M} {old : Nat → Prop} {p p' : Pool S}

/-- A thread on the two sides: the same, or apart and without anything more to write. Nothing is
known of the threads `old`. -/
inductive Paired (T : M.Tbl) (c : Int) (D D' : Rows M) (old : Nat → Prop) (w w' : World M) (t : Nat) :
    Option (Thread S) → Option (Thread S) → Prop where
  | same {th : Option (Thread S)} : w'.sessions t = w.sessions t →
      (¬old t → WritesOnly T c (w.sessions t) ∧ (th = none → w.sessions t = none) ∧
        ∃ clean, (clean = true → WritesNone c (w.sessions t)) ∧
          ∀ th₁, th = some th₁ → Alike T (Reads T c D) (Reads T c D') clean th₁.prog) → Paired T c D D' old w w' t th th
  | apart {th th' : Thread S} : th'.alive = th.alive → WritesNone c (w.sessions t) → WritesNone c (w'.sessions t) →
      Barren (Reads T c D) th.prog → Barren (Reads T c D') th'.prog → Paired T c D D' old w w' t (some th) (some th')

/-- Two deployments that nobody can tell apart by looking at `T`. -/
structure Twins (T : M.Tbl) (c : Int) (D D' : Rows M) (old : Nat → Prop) (p p' : Pool S) : Prop
    extends Near T c D D' p.world p'.world where
  sound : Sound p.world
  sound' : Sound p'.world
  threads : ∀ t, Paired T c D D' old p.world p'.world t (p.threads t) (p'.threads t)

theorem Paired.frame {w w' w₁ w₁' : World M} {th th' : Option (Thread S)} (h : Paired T c D D' old w w' t th th')
    (hs : w₁.sessions t = w.sessions t) (hs' : w₁'.sessions t = w'.sessions t) : Paired T c D D' old w₁ w₁' t th th' := by
  cases h with
  | same same alike => exact .same (by rw [hs, hs', same]) (by rw [hs]; exact alike)
  | apart alive idle idle' barren barren' => exact .apart alive (by rw [hs]; exact idle) (by rw [hs']; exact idle') barren barren'

/-- One thread moves on, on both sides. -/
theorem Twins.move (h : Twins T c D D' old p p') {w w' : World M} {th th' : Option (Thread S)}
    (near : Near T c D D' w w') (sound : Sound w) (sound' : Sound w')
    (frame : ∀ u, u ≠ t → w.sessions u = p.world.sessions u) (frame' : ∀ u, u ≠ t → w'.sessions u = p'.world.sessions u)
    (pair : Paired T c D D' old w w' t th th') :
    Twins T c D D' old ⟨w, Function.update p.threads t th⟩ ⟨w', Function.update p'.threads t th'⟩ where
  toNear := near
  sound := sound
  sound' := sound'
  threads u := by
    by_cases hu : u = t
    · subst hu
      simpa using pair
    · simp only [Function.update_of_ne hu]
      exact (h.threads u).frame (frame u hu) (frame' u hu)

/-- The uncommitted rows of `T` are the same on both sides. -/
theorem Twins.pending (h : Twins T c D D' old p p') (k : M.Key) : p'.world.pending T k = p.world.pending T k := by
  unfold World.pending
  rw [h.locks]
  cases hl : p.world.locks T k with
  | none => rfl
  | some u =>
    obtain ⟨s, x, hs, hx⟩ := h.sound.locked T k u hl
    have same : p'.world.sessions u = p.world.sessions u := by
      have pair := h.threads u
      generalize p.threads u = th at pair
      generalize p'.threads u = th' at pair
      cases pair with
      | same same _ => exact same
      | apart _ idle _ _ _ =>
        rw [(idle s hs).2 T k] at hx
        cases hx
    simp only [same]

theorem advance_some {th : Thread S} {o : Op M} {next : o.Reply → Program M S.Resp} {env : Env M} {w : World M} {r : o.Reply}
    (hp : th.prog = .call o next) (ho : o ≠ .halt) (he : p.world.exec t o env = some (w, r)) :
    p.advance t env th = ⟨w, Function.update p.threads t (some { th with prog := next r })⟩ := by
  unfold Pool.advance
  rw [hp]
  cases o with
  | halt => exact (ho rfl).elim
  | _ => simp only [he]

theorem advance_none {th : Thread S} {o : Op M} {next : o.Reply → Program M S.Resp} {env : Env M}
    (hp : th.prog = .call o next) (ho : o ≠ .halt) (he : p.world.exec t o env = none) : p.advance t env th = p := by
  unfold Pool.advance
  rw [hp]
  cases o with
  | halt => exact (ho rfl).elim
  | _ => simp only [he]

theorem advance_ret {th : Thread S} {r : S.Resp} {env : Env M} (hp : th.prog = .ret r) : p.advance t env th = p := by
  unfold Pool.advance
  rw [hp]

theorem update_same {th : Thread S} (hth : p.threads t = some th) : p = ⟨p.world, Function.update p.threads t (some th)⟩ := by
  rw [← hth, Function.update_eq_self]

theorem Op.mute.ne_halt {o : Op M} (ho : o.mute) : o ≠ .halt := by
  rintro rfl
  exact ho

theorem Alike.ne_halt {o : Op M} {next : o.Reply → Program M α} {F F' : Snapshot M → Prop} {clean : Bool}
    (h : Alike T F F' clean (.call o next)) : o ≠ .halt := by
  rintro rfl
  exact h

/-- A thread that will write nothing more makes its next call. -/
theorem advance_barren (sound : Sound p.world) (fixed : ∀ tb, tb ≠ T → p.world.rows tb = D tb) {th : Thread S} (env : Env M)
    (hth : p.threads t = some th) (idle : WritesNone c (p.world.sessions t)) (barren : Barren (Reads T c D) th.prog) :
    ∃ w th₁, p.advance t env th = ⟨w, Function.update p.threads t (some th₁)⟩ ∧ Untouching t p.world w ∧
      th₁.alive = th.alive ∧ WritesNone c (w.sessions t) ∧ Barren (Reads T c D) th₁.prog := by
  have still : p.advance t env th = p → ∃ w th₁, p.advance t env th = ⟨w, Function.update p.threads t (some th₁)⟩ ∧
      Untouching t p.world w ∧ th₁.alive = th.alive ∧ WritesNone c (w.sessions t) ∧ Barren (Reads T c D) th₁.prog :=
    fun he => ⟨p.world, th, he.trans (update_same hth), ⟨sound, rfl, rfl, rfl, rfl, fun _ _ => rfl⟩, rfl, idle, barren⟩
  cases hp : th.prog with
  | ret r => exact still (advance_ret hp)
  | call o next =>
    rw [hp] at barren
    have mute : o.mute := barren.1
    cases he : p.world.exec t o env with
    | none => exact still (advance_none hp mute.ne_halt he)
    | some wr =>
      obtain ⟨untouching, idle', fit⟩ := mute_exec sound idle mute he fixed
      exact ⟨wr.1, _, advance_some hp mute.ne_halt he, untouching, rfl, idle', barren.2 wr.2 () fit⟩

theorem Near.foreign {w w' : World M} (h : Near T c D D' w w') : w'.foreign t = w.foreign t := by
  funext tb k
  unfold World.foreign
  rw [h.locks]

theorem Twins.blocked (h : Twins T c D D' old p p') (same : p'.world.sessions t = p.world.sessions t) {o : Op M}
    {next : o.Reply → Program M α} {F F' : Snapshot M → Prop} {clean : Bool} (alike : Alike T F F' clean (.call o next))
    (env : Env M) : p'.world.blocked t env o = p.world.blocked t env o := by
  cases o with
  | insert stmt tb orIgnore build =>
    obtain ⟨rfl, _⟩ := alike
    unfold World.blocked
    rw [same]
    cases p.world.sessions t with
    | none => rfl
    | some s => simp only [h.keys, h.foreign, h.pending]
  | snapshot => rfl
  | begin => rfl
  | commit => rfl
  | rollback => rfl
  | _ => exact alike.elim

theorem World.exec_of {w : World M} {o : Op M} {env : Env M} {r : o.Reply} {s : Option (Session M)}
    (hb : w.blocked t env o = false) (he : o.eval w.rows w.keys w.clock (w.foreign t) env (w.sessions t) = some (r, s)) :
    ∃ w', w.exec t o env = some (w', r) := by
  unfold World.exec
  rw [if_neg (by simp [hb]), he]
  exact ⟨_, rfl⟩

/-- A thread that is the same on both sides makes its next call. -/
theorem Twins.advance_alike (h : Twins T c D D' old p p') (targets : SameTargets T D D') {th : Thread S} {clean : Bool}
    (env : Env M) (same : p'.world.sessions t = p.world.sessions t) (writes : WritesOnly T c (p.world.sessions t))
    (hc : clean = true → WritesNone c (p.world.sessions t)) (alike : Alike T (Reads T c D) (Reads T c D') clean th.prog) :
    Twins T c D D' old (p.advance t env th) (p'.advance t env th) := by
  cases hp : th.prog with
  | ret r =>
    rw [advance_ret hp, advance_ret hp]
    exact h
  | call o next =>
    rw [hp] at alike
    have live := alike.ne_halt
    obtain ⟨r, r', s', both⟩ := alike_eval (t := t) h.toNear targets writes hc alike env
    have blocked := h.blocked same alike env
    cases hb : p.world.blocked t env o with
    | true =>
      have waits : p.world.exec t o env = none := by
        unfold World.exec
        rw [if_pos hb]
      have waits' : p'.world.exec t o env = none := by
        unfold World.exec
        rw [if_pos (blocked.trans hb)]
      rw [advance_none hp live waits, advance_none hp live waits']
      exact h
    | false =>
      obtain ⟨w, he⟩ := World.exec_of hb both.left
      obtain ⟨w', he'⟩ := World.exec_of (blocked.trans hb) (same ▸ both.right)
      rw [advance_some hp live he, advance_some hp live he']
      have sound := (h.sound.exec he).2
      have sound' := (h.sound'.exec he').2
      obtain ⟨_, s₁, hs₁, hw⟩ := World.exec_eq he
      obtain ⟨_, s₂, hs₂, hw'⟩ := World.exec_eq he'
      rw [both.left] at hs₁
      rw [same, both.right] at hs₂
      cases hs₁
      cases hs₂
      have session : w.sessions t = s' := by rw [hw]; exact Function.update_self ..
      have session' : w'.sessions t = s' := by rw [hw']; exact Function.update_self ..
      have near : Near T c D D' w w' := by
        refine ⟨?_, ?_, ?_, ?_, ?_, fun tb ht => ?_, fun tb ht => ?_⟩
        · rw [hw, hw']
          exact h.clock
        · rw [hw]
          exact h.late
        · rw [hw, hw', same]
          exact both.keys
        · rw [hw, hw']
          exact congrArg (World.relock · t s') h.locks
        · rw [hw, hw', same]
          exact both.rows
        · rw [hw]
          exact (both.fixed tb ht).trans (h.fixed tb ht)
        · rw [hw', same]
          exact (both.fixed' tb ht).trans (h.fixed' tb ht)
      refine h.move near sound sound' (fun u hu => ?_) (fun u hu => ?_) ?_
      · rw [hw]
        exact Function.update_of_ne hu ..
      · rw [hw']
        exact Function.update_of_ne hu ..
      · rcases both.continues with ⟨hq, clean', hc', alike'⟩ | ⟨idle, barren, barren'⟩
        · rw [hq]
          refine .same (session'.trans session.symm) fun _ => ⟨session ▸ both.writes, (nomatch ·), clean', session ▸ hc', ?_⟩
          intro th₁ hth₁
          cases hth₁
          exact alike'
        · exact .apart rfl (session ▸ idle) (session' ▸ idle) barren barren'

/-- Two threads that will write nothing more make their next calls. -/
theorem Twins.advance_apart (h : Twins T c D D' old p p') {th th' : Thread S} (env : Env M) (hth : p.threads t = some th)
    (hth' : p'.threads t = some th') (alive : th'.alive = th.alive) (idle : WritesNone c (p.world.sessions t))
    (idle' : WritesNone c (p'.world.sessions t)) (barren : Barren (Reads T c D) th.prog)
    (barren' : Barren (Reads T c D') th'.prog) : Twins T c D D' old (p.advance t env th) (p'.advance t env th') := by
  obtain ⟨w, th₁, he, left, alive₁, idle₁, barren₁⟩ := advance_barren h.sound h.fixed env hth idle barren
  obtain ⟨w', th₂, he', right, alive₂, idle₂, barren₂⟩ := advance_barren h.sound' h.fixed' env hth' idle' barren'
  rw [he, he']
  refine h.move ⟨?_, ?_, ?_, ?_, ?_, fun tb ht => ?_, fun tb ht => ?_⟩ left.sound right.sound left.others right.others
    (.apart (alive₂.trans (alive.trans alive₁.symm)) idle₁ idle₂ barren₁ barren₂)
  · rw [left.clock, right.clock, h.clock]
  · rw [left.clock]
    exact h.late
  · rw [left.keys, right.keys, h.keys]
  · rw [left.locks, right.locks, h.locks]
  · rw [left.rows, right.rows, h.rows]
  · rw [left.rows]
    exact h.fixed tb ht
  · rw [right.rows]
    exact h.fixed' tb ht

theorem Twins.stop (h : Twins T c D D' old p p') {th th' : Thread S} (hth : p.threads t = some th)
    (hth' : p'.threads t = some th') : Twins T c D D' old (p.stop t th) (p'.stop t th') := by
  have near : Near T c D D' (p.world.kill t) (p'.world.kill t) :=
    ⟨h.clock, h.late, h.keys, congrArg (World.relock · t none) h.locks, h.rows, h.fixed, h.fixed'⟩
  refine h.move near (h.sound.kill t) (h.sound'.kill t) (fun u hu => Function.update_of_ne hu ..)
    (fun u hu => Function.update_of_ne hu ..) ?_
  · have gone : ∀ w : World M, (w.kill t).sessions t = none := fun w => Function.update_self ..
    have pair := h.threads t
    rw [hth, hth'] at pair
    cases pair with
    | same _ alike =>
      refine .same ((gone _).trans (gone _).symm) fun young => ?_
      obtain ⟨_, _, clean, _, hal⟩ := alike young
      rw [gone]
      refine ⟨writesNone_none.only, fun _ => rfl, clean, fun _ => writesNone_none, fun th₁ hth₁ => ?_⟩
      cases hth₁
      exact hal th rfl
    | apart _ _ _ barren barren' =>
      exact .apart rfl (gone _ ▸ writesNone_none) (gone _ ▸ writesNone_none) barren barren'

/-- The action begins a program that goes on alike, or is one of a thread that has. -/
def Action.Young (T : M.Tbl) (c : Int) (D D' : Rows M) (old : Nat → Prop) : Action S → Prop
  | .start _ req => Alike T (Reads T c D) (Reads T c D') true (S.program req)
  | .step t _ => ¬old t
  | .kill t => ¬old t
  | .tick _ => True

theorem Twins.act (h : Twins T c D D' old p p') (targets : SameTargets T D D') {x : Action S}
    (young : x.Young T c D D' old) : Twins T c D D' old (p.act x) (p'.act x) := by
  cases x with
  | tick d =>
    have late : c ≤ p.world.clock + (d : Int) := by
      have := h.late
      omega
    exact ⟨⟨congrArg (· + (d : Int)) h.clock, late, h.keys, h.locks, h.rows, h.fixed, h.fixed'⟩,
      h.sound.tick _, h.sound'.tick _, fun t => (h.threads t).frame rfl rfl⟩
  | start t req =>
    have pair := h.threads t
    unfold Pool.act
    dsimp only
    cases hth : p.threads t with
    | some th =>
      cases hth' : p'.threads t with
      | some th' => exact h
      | none =>
        rw [hth, hth'] at pair
        cases pair
    | none =>
      cases hth' : p'.threads t with
      | some th' =>
        rw [hth, hth'] at pair
        cases pair
      | none =>
        rw [hth, hth'] at pair
        refine h.move h.toNear h.sound h.sound' (fun _ _ => rfl) (fun _ _ => rfl) ?_
        cases pair with
        | same same alike =>
          refine .same same fun hy => ?_
          obtain ⟨_, idle, _⟩ := alike hy
          rw [idle rfl]
          refine ⟨writesNone_none.only, fun _ => rfl, true, fun _ => writesNone_none, fun th₁ hth₁ => ?_⟩
          cases hth₁
          exact young
  | step t env =>
    have pair := h.threads t
    unfold Pool.act
    dsimp only
    cases hth : p.threads t with
    | none =>
      cases hth' : p'.threads t with
      | none => exact h
      | some th' =>
        rw [hth, hth'] at pair
        cases pair
    | some th =>
      cases hth' : p'.threads t with
      | none =>
        rw [hth, hth'] at pair
        cases pair
      | some th' =>
        rw [hth, hth'] at pair
        cases pair with
        | same same alike =>
          obtain ⟨writes, _, clean, hc, hal⟩ := alike young
          dsimp only
          split
          next => exact h.advance_alike targets env same writes hc (hal th rfl)
          next => exact h
        | apart alive idle idle' barren barren' =>
          dsimp only
          rw [alive]
          split
          next => exact h.advance_apart env hth hth' alive idle idle' barren barren'
          next => exact h
  | kill t =>
    have pair := h.threads t
    unfold Pool.act
    dsimp only
    cases hth : p.threads t with
    | none =>
      cases hth' : p'.threads t with
      | none => exact h
      | some th' =>
        rw [hth, hth'] at pair
        cases pair
    | some th =>
      cases hth' : p'.threads t with
      | none =>
        rw [hth, hth'] at pair
        cases pair
      | some th' =>
        have alive : th'.alive = th.alive := by
          rw [hth, hth'] at pair
          cases pair with
          | same => rfl
          | apart alive => exact alive
        dsimp only
        rw [alive]
        split
        next => exact h.stop hth hth'
        next => exact h

/-- Neither side ever shows more of `T` than the other. -/
theorem Twins.run (h : Twins T c D D' old p p') (targets : SameTargets T D D') {acts : List (Action S)}
    (young : ∀ x ∈ acts, x.Young T c D D' old) : Twins T c D D' old (p.run acts) (p'.run acts) := by
  induction acts generalizing p p' with
  | nil => exact h
  | cons x acts ih =>
    rw [Pool.run_cons, Pool.run_cons]
    exact ih (h.act targets (young x (List.mem_cons_self ..))) fun y hy => young y (List.mem_cons_of_mem _ hy)

end pools

end TxLib

import Invokr.History

namespace TxLib

variable {M : Model} {S : System M}

/-- A call of a thread, what the world outside made of it, the reply and the rows that were committed
when it was made. -/
structure Exchange (M : Model) where
  op : Op M
  env : Env M
  reply : op.Reply
  rows : Rows M

/-- What a thread knows of itself: its transaction and the calls it has made. -/
abbrev Memory (M : Model) := Option (Session M) × List (Exchange M)

/-- A call of a thread with this memory, whatever the others have done meanwhile. -/
def Recalls (m : Memory M) (o : Op M) (r : o.Reply) (m' : Memory M) : Prop :=
  ∃ w t env w', Sound w ∧ w.sessions t = m.1 ∧ w.exec t o env = some (w', r) ∧
    m' = (w'.sessions t, m.2 ++ [⟨o, env, r, w.rows⟩])

/-- The thread makes the call in its next step. -/
def Pool.Makes (p : Pool S) (t : Nat) (e : Env M) (req : S.Req) (o : Op M) : Prop :=
  p.next t = some (req, o) ∧ (p.world.exec t o e).isSome

/-- The thread has made the call at some step of the run. -/
def Made (acts : List (Action S)) (t : Nat) (req : S.Req) (x : Exchange M) : Prop :=
  ∃ before, before ++ [.step t x.env] <+: acts ∧ ((Pool.empty S).run before).next t = some (req, x.op) ∧
    (∃ w, ((Pool.empty S).run before).world.exec t x.op x.env = some (w, x.reply)) ∧
    ((Pool.empty S).run before).world.rows = x.rows

theorem Made.later {acts acts' : List (Action S)} {t : Nat} {req : S.Req} {x : Exchange M} (h : Made acts t req x)
    (le : acts <+: acts') : Made acts' t req x := by
  obtain ⟨before, hle, rest⟩ := h
  exact ⟨before, hle.trans le, rest⟩

theorem Made.makes {acts : List (Action S)} {t : Nat} {req : S.Req} {x : Exchange M} (h : Made acts t req x) :
    ∃ before, before ++ [.step t x.env] <+: acts ∧ ((Pool.empty S).run before).Makes t x.env req x.op ∧
      ((Pool.empty S).run before).world.rows = x.rows := by
  obtain ⟨before, hle, next, ⟨w, he⟩, hrows⟩ := h
  exact ⟨before, hle, ⟨next, by rw [he]; rfl⟩, hrows⟩

/-- What one more action of the run adds to the calls of a thread. -/
theorem made_snoc {acts : List (Action S)} {a : Action S} {t : Nat} {req : S.Req} {x : Exchange M} :
    Made (acts ++ [a]) t req x ↔ Made acts t req x ∨ (a = .step t x.env ∧
      ((Pool.empty S).run acts).next t = some (req, x.op) ∧
      (∃ w, ((Pool.empty S).run acts).world.exec t x.op x.env = some (w, x.reply)) ∧
      ((Pool.empty S).run acts).world.rows = x.rows) := by
  constructor
  · rintro ⟨before, le, rest⟩
    rcases List.prefix_concat_iff.mp le with he | hle
    · obtain ⟨rfl, ha⟩ := List.append_inj' he rfl
      exact Or.inr ⟨(List.singleton_inj.mp ha).symm, rest⟩
    · exact Or.inl ⟨before, hle, rest⟩
  · rintro (h | ⟨rfl, rest⟩)
    · exact h.later (List.prefix_append _ _)
    · exact ⟨acts, List.prefix_refl _, rest⟩

/-- What the thread exchanges in an action. -/
def Pool.exchange (p : Pool S) (t : Nat) : Action S → List (Exchange M)
  | .step u env =>
    if u = t then
      match p.next t with
      | none => []
      | some (_, o) =>
        match p.world.exec t o env with
        | none => []
        | some (_, r) => [⟨o, env, r, p.world.rows⟩]
    else []
  | _ => []

/-- What the thread has exchanged in the run, in order. -/
def transcript (acts : List (Action S)) (t : Nat) : List (Exchange M) := go (Pool.empty S) acts
where
  go (p : Pool S) : List (Action S) → List (Exchange M)
    | [] => []
    | a :: acts => p.exchange t a ++ go (p.act a) acts

theorem transcript_snoc (acts : List (Action S)) (a : Action S) (t : Nat) :
    transcript (acts ++ [a]) t = transcript acts t ++ ((Pool.empty S).run acts).exchange t a := by
  have run : ∀ p : Pool S, transcript.go t p (acts ++ [a]) = transcript.go t p acts ++ (p.run acts).exchange t a := by
    induction acts with
    | nil => exact fun p => by simp [transcript.go]
    | cons b acts ih => exact fun p => by simp [transcript.go, ih, List.append_assoc]
  exact run _

theorem mem_exchange {p : Pool S} {t : Nat} {a : Action S} {x : Exchange M} : x ∈ p.exchange t a ↔
    a = .step t x.env ∧ ∃ req, p.next t = some (req, x.op) ∧ (∃ w, p.world.exec t x.op x.env = some (w, x.reply)) ∧
      p.world.rows = x.rows := by
  obtain ⟨op, xenv, reply, rows⟩ := x
  constructor
  · intro h
    unfold Pool.exchange at h
    split at h
    next u env =>
      split at h
      next hu =>
        subst hu
        split at h
        next => cases h
        next req o hn =>
          split at h
          next => cases h
          next w r he =>
            cases List.mem_singleton.mp h
            exact ⟨rfl, req, hn, ⟨w, he⟩, rfl⟩
      next => cases h
    next => cases h
  · rintro ⟨rfl, req, hn, ⟨w, he⟩, rfl⟩
    simp only [Pool.exchange, if_true, hn, he, List.mem_singleton]

theorem exchange_call {p : Pool S} {t : Nat} {env : Env M} {req : S.Req} {o : Op M} {w : World M} {r : o.Reply}
    (hn : p.next t = some (req, o)) (he : p.world.exec t o env = some (w, r)) :
    p.exchange t (.step t env) = [⟨o, env, r, p.world.rows⟩] := by
  simp only [Pool.exchange, if_true, hn, he]

theorem exchange_nil {p : Pool S} {t : Nat} {a : Action S}
    (still : ∀ req o env, p.next t = some (req, o) → a = .step t env → p.world.exec t o env = none) : p.exchange t a = [] := by
  refine List.eq_nil_iff_forall_not_mem.mpr fun x hx => ?_
  obtain ⟨ha, req, hn, ⟨w, he⟩, -⟩ := mem_exchange.mp hx
  rw [still req _ _ hn ha] at he
  cases he

theorem made_iff {acts : List (Action S)} {t : Nat} {x : Exchange M} : (∃ req, Made acts t req x) ↔ x ∈ transcript acts t := by
  induction acts using List.reverseRecOn with
  | nil =>
    refine ⟨?_, fun h => absurd h List.not_mem_nil⟩
    rintro ⟨req, before, hle, -⟩
    simp at hle
  | append_singleton acts a ih =>
    rw [transcript_snoc, List.mem_append, ← ih, mem_exchange]
    constructor
    · rintro ⟨req, h⟩
      rcases made_snoc.mp h with h | ⟨ha, hn, he, hrows⟩
      · exact Or.inl ⟨req, h⟩
      · exact Or.inr ⟨ha, req, hn, he, hrows⟩
    · rintro (⟨req, h⟩ | ⟨ha, req, hn, he, hrows⟩)
      · exact ⟨req, made_snoc.mpr (Or.inl h)⟩
      · exact ⟨req, made_snoc.mpr (Or.inr ⟨ha, hn, he, hrows⟩)⟩

theorem Made.thread {acts : List (Action S)} {t : Nat} {req : S.Req} {x : Exchange M} (h : Made acts t req x) :
    ∃ th, ((Pool.empty S).run acts).threads t = some th ∧ th.req = req := by
  obtain ⟨before, ⟨rest, rfl⟩, next, _⟩ := h
  obtain ⟨th, _, hth, _, hreq, _⟩ := Pool.waits next
  obtain ⟨th', hth', hsame⟩ := Pool.run_req hth ([.step t x.env] ++ rest)
  rw [List.append_assoc, Pool.run_append]
  exact ⟨th', hth', hsame.trans hreq⟩

theorem Made.started {acts : List (Action S)} {t : Nat} {req : S.Req} {x : Exchange M} (h : Made acts t req x) :
    ((Pool.empty S).run acts).threads t ≠ none := by
  obtain ⟨th, hth, -⟩ := h.thread
  rw [hth]
  exact Option.some_ne_none th

/-- The calls in a thread's transcript are those that it has made for its request. -/
theorem mem_transcript {acts : List (Action S)} {t : Nat} {th : Thread S} {x : Exchange M}
    (ht : ((Pool.empty S).run acts).threads t = some th) : x ∈ transcript acts t ↔ Made acts t th.req x := by
  refine ⟨fun h => ?_, fun h => made_iff.mp ⟨_, h⟩⟩
  obtain ⟨req, h⟩ := made_iff.mpr h
  obtain ⟨th', hth', rfl⟩ := h.thread
  rw [ht] at hth'
  cases hth'
  exact h

/-- The thread goes on from what it has exchanged in the run. -/
def Resumes (P : S.Req → Memory M → Op M → Prop) (Q : S.Req → S.Resp → Memory M → Prop) (acts : List (Action S))
    (w : World M) (t : Nat) (th : Thread S) : Prop :=
  th.prog.Holds Recalls (P th.req) (Q th.req) (w.sessions t, transcript acts t)

structure Pool.Traced (P : S.Req → Memory M → Op M → Prop) (Q : S.Req → S.Resp → Memory M → Prop)
    (acts : List (Action S)) (p : Pool S) : Prop where
  sound : Sound p.world
  idle : ∀ t, p.threads t = none → p.world.sessions t = none
  resumes : ∀ t th, p.threads t = some th → th.alive = true → Resumes P Q acts p.world t th

section runs

variable {P : S.Req → Memory M → Op M → Prop} {Q : S.Req → S.Resp → Memory M → Prop} {acts acts' : List (Action S)}
  {p : Pool S}

theorem Resumes.later {w w' : World M} {t : Nat} {th : Thread S} (h : Resumes P Q acts w t th)
    (still : transcript acts' t = transcript acts t) (same : w'.sessions t = w.sessions t) : Resumes P Q acts' w' t th := by
  unfold Resumes
  rw [still, same]
  exact h

theorem Pool.Traced.later (h : p.Traced P Q acts) (still : ∀ t, transcript acts' t = transcript acts t) {w : World M}
    (sound : Sound w) (same : w.sessions = p.world.sessions) : Pool.Traced P Q acts' ⟨w, p.threads⟩ where
  sound := sound
  idle t ht := by rw [same]; exact h.idle t ht
  resumes t th ht ha := (h.resumes t th ht ha).later (still t) (by rw [same])

/-- One thread moves on and the others stay as they are. -/
theorem Pool.Traced.replace (h : p.Traced P Q acts) {w : World M} {t : Nat} {th : Thread S}
    (still : ∀ u, u ≠ t → transcript acts' u = transcript acts u) (sound : Sound w)
    (frame : ∀ u, u ≠ t → w.sessions u = p.world.sessions u) (own : th.alive = true → Resumes P Q acts' w t th) :
    Pool.Traced P Q acts' ⟨w, Function.update p.threads t (some th)⟩ where
  sound := sound
  idle u hu := by
    by_cases he : u = t
    · subst he
      simp at hu
    · exact (frame u he).trans (h.idle u (by simpa [Function.update_of_ne he] using hu))
  resumes u th' hu ha := by
    by_cases he : u = t
    · subst he
      simp only [Function.update_self, Option.some.injEq] at hu
      subst hu
      exact own ha
    · exact (h.resumes u th' (by simpa [Function.update_of_ne he] using hu) ha).later (still u he) (frame u he)

theorem World.exec_sessions_of_ne {w w' : World M} {t u : Nat} {o : Op M} {env : Env M} {r : o.Reply}
    (h : w.exec t o env = some (w', r)) (hu : u ≠ t) : w'.sessions u = w.sessions u :=
  congrArg Prod.fst (World.exec_view_of_ne h hu)

theorem Pool.Traced.stop (h : p.Traced P Q acts) (t : Nat) (th : Thread S)
    (still : ∀ u, u ≠ t → transcript acts' u = transcript acts u) : (p.stop t th).Traced P Q acts' :=
  h.replace still (h.sound.kill t) (fun _ hu => congrArg Prod.fst (p.world.kill_view_of_ne hu)) fun ha => by cases ha

/-- An action in which the thread exchanges nothing leaves its transcript as it is. -/
theorem transcript_still {a : Action S} {t : Nat} (h : ((Pool.empty S).run acts).exchange t a = []) :
    transcript (acts ++ [a]) t = transcript acts t := by
  rw [transcript_snoc, h, List.append_nil]

theorem exchange_other {t u : Nat} {env : Env M} (hu : u ≠ t) : p.exchange u (.step t env) = [] :=
  exchange_nil fun _ _ _ _ hs => by
    cases hs
    exact (hu rfl).elim

theorem Pool.Traced.call (h : ((Pool.empty S).run acts).Traced P Q acts) {t : Nat} {env : Env M} {th : Thread S}
    {o : Op M} {next : o.Reply → Program M S.Resp} {w : World M} {r : o.Reply}
    (ht : ((Pool.empty S).run acts).threads t = some th) (ha : th.alive = true) (hp : th.prog = .call o next)
    (he : ((Pool.empty S).run acts).world.exec t o env = some (w, r)) :
    Pool.Traced P Q (acts ++ [.step t env])
      ⟨w, Function.update ((Pool.empty S).run acts).threads t (some { th with prog := next r })⟩ := by
  have hnext : ((Pool.empty S).run acts).next t = some (th.req, o) := Pool.next_of ht ha hp
  refine h.replace (fun u hu => transcript_still (exchange_other hu)) (h.sound.exec he).2
    (fun u hu => World.exec_sessions_of_ne he hu) fun _ => ?_
  have holds := h.resumes t th ht ha
  unfold Resumes at holds ⊢
  rw [hp] at holds
  rw [transcript_snoc, exchange_call hnext he]
  exact holds.2 r _ ⟨_, t, env, w, h.sound, rfl, he, rfl⟩

theorem Pool.Traced.act (holds : ∀ req, (S.program req).Holds Recalls (P req) (Q req) (none, []))
    (h : ((Pool.empty S).run acts).Traced P Q acts) (x : Action S) :
    (((Pool.empty S).run acts).act x).Traced P Q (acts ++ [x]) := by
  cases x with
  | start t req =>
    have still : ∀ u, transcript (acts ++ [.start t req]) u = transcript acts u := fun _ => transcript_still rfl
    simp only [Pool.act]
    split
    next => exact h.later still h.sound rfl
    next hn =>
      refine h.replace (fun u _ => still u) h.sound (fun _ _ => rfl) fun _ => ?_
      have fresh : transcript acts t = [] := by
        refine List.eq_nil_iff_forall_not_mem.mpr fun y hy => ?_
        obtain ⟨_, made⟩ := made_iff.mpr hy
        exact made.started hn
      unfold Resumes
      rw [still, fresh, h.idle t hn]
      exact holds req
  | step t env =>
    have other : ∀ u, u ≠ t → transcript (acts ++ [.step t env]) u = transcript acts u :=
      fun _ hu => transcript_still (exchange_other hu)
    -- a step of the thread that is no call
    have still (idle : ∀ req o, ((Pool.empty S).run acts).next t = some (req, o) →
        ((Pool.empty S).run acts).world.exec t o env = none) :
        ∀ u, transcript (acts ++ [.step t env]) u = transcript acts u := by
      intro u
      by_cases hu : u = t
      · subst hu
        refine transcript_still (exchange_nil fun req o env' hn hs => ?_)
        cases hs
        exact idle req o hn
      · exact other u hu
    simp only [Pool.act]
    split
    next hn => exact h.later (still fun req o ho => by simp [Pool.next, hn] at ho) h.sound rfl
    next th ht =>
      split
      next ha =>
        unfold Pool.advance
        split
        next hp => exact h.later (still fun req o ho => by simp [Pool.next, ht, ha, hp, Prog.head] at ho) h.sound rfl
        next hp => exact h.stop t th other
        next o next _ hp =>
          split
          next he =>
            refine h.later (still fun req o' ho => ?_) h.sound rfl
            obtain ⟨_, rfl⟩ := Prod.mk.inj (Option.some.inj ((Pool.next_of ht ha hp).symm.trans ho))
            exact he
          next w r he => exact h.call ht ha hp he
      next ha => exact h.later (still fun req o ho => by simp [Pool.next, ht, ha] at ho) h.sound rfl
  | kill t =>
    have still : ∀ u, transcript (acts ++ [.kill t]) u = transcript acts u := fun _ => transcript_still rfl
    simp only [Pool.act]
    split
    next => exact h.later still h.sound rfl
    next th ht =>
      split
      next => exact h.stop t th fun u _ => still u
      next => exact h.later still h.sound rfl
  | tick d => exact h.later (fun _ => transcript_still rfl) (h.sound.tick _) rfl

theorem Pool.traced_run (holds : ∀ req, (S.program req).Holds Recalls (P req) (Q req) (none, []))
    (acts : List (Action S)) : ((Pool.empty S).run acts).Traced P Q acts := by
  induction acts using List.reverseRecOn with
  | nil => exact ⟨sound_empty M, fun _ _ => rfl, fun _ _ h => by cases h⟩
  | append_singleton acts x ih =>
    rw [Pool.run_append]
    exact ih.act holds x

/-- What a program knows at each of its calls holds at every moment of every run. -/
theorem Pool.resumed (holds : ∀ req, (S.program req).Holds Recalls (P req) (Q req) (none, []))
    {acts : List (Action S)} {t : Nat} {req : S.Req} {o : Op M} (h : ((Pool.empty S).run acts).next t = some (req, o)) :
    P req (((Pool.empty S).run acts).world.sessions t, transcript acts t) o := by
  obtain ⟨th, next, ht, ha, rfl, hp⟩ := Pool.waits h
  have held := (Pool.traced_run holds acts).resumes t th ht ha
  unfold Resumes at held
  rw [hp] at held
  exact held.1

theorem Pool.recalled (holds : ∀ req, (S.program req).Holds Recalls (P req) (Q req) (none, []))
    {acts : List (Action S)} {t : Nat} {req : S.Req} {o : Op M} (h : ((Pool.empty S).run acts).next t = some (req, o)) :
    ∃ l, (∀ x ∈ l, Made acts t req x) ∧ P req (((Pool.empty S).run acts).world.sessions t, l) o := by
  obtain ⟨th, next, ht, ha, rfl, hp⟩ := Pool.waits h
  exact ⟨_, fun x hx => (mem_transcript ht).mp hx, Pool.resumed holds h⟩

/-- What a program knows when it has ended holds of the answer of its thread. -/
theorem Pool.recalled_answer (holds : ∀ req, (S.program req).Holds Recalls (P req) (Q req) (none, []))
    {acts : List (Action S)} {t : Nat} {req : S.Req} {out : S.Resp}
    (h : ((Pool.empty S).run acts).answer t = some (req, out)) :
    ∃ l, (∀ x, x ∈ l ↔ Made acts t req x) ∧ Q req out (((Pool.empty S).run acts).world.sessions t, l) := by
  unfold Pool.answer at h
  split at h
  next => cases h
  next th ht =>
    split at h
    next ha =>
      have held := (Pool.traced_run holds acts).resumes t th ht ha
      cases hp : th.prog with
      | call o next => simp [hp, Prog.result] at h
      | ret r =>
        simp only [hp, Prog.result, Option.map_some, Option.some.injEq, Prod.mk.injEq] at h
        obtain ⟨rfl, rfl⟩ := h
        unfold Resumes at held
        rw [hp] at held
        exact ⟨_, fun x => mem_transcript ht, held⟩
    next => cases h

end runs

theorem Pool.answer_thread {p : Pool S} {t : Nat} {req : S.Req} {out : S.Resp} (h : p.answer t = some (req, out)) :
    ∃ th, p.threads t = some th ∧ th.req = req := by
  unfold Pool.answer at h
  split at h
  next => cases h
  next th ht =>
    split at h
    next =>
      obtain ⟨_, _, hq⟩ := Option.map_eq_some_iff.mp h
      exact ⟨th, ht, congrArg Prod.fst hq⟩
    next => cases h

theorem Prog.holds_true {α : Type} (q : Program M α) (m : Memory M) :
    q.Holds Recalls (fun _ _ => True) (fun _ _ => True) m := by
  induction q generalizing m with
  | ret a => exact trivial
  | call o next ih => exact ⟨trivial, fun r m' _ => ih r m'⟩

/-- What is said of one request says nothing of the others. -/
theorem holds_of {R : S.Req} {P : Memory M → Op M → Prop} {Q : S.Resp → Memory M → Prop}
    (h : (S.program R).Holds Recalls P Q (none, [])) (req : S.Req) :
    (S.program req).Holds Recalls (fun m o => req = R → P m o) (fun r m => req = R → Q r m) (none, []) := by
  by_cases hr : req = R
  · subst hr
    exact (h.pre_mono fun _ _ ho _ => ho).mono fun _ _ hq _ => hq
  · exact ((Prog.holds_true _ _).pre_mono fun _ _ _ he => absurd he hr).mono fun _ _ _ he => absurd he hr

theorem Pool.sound_run (acts : List (Action S)) : Sound ((Pool.empty S).run acts).world :=
  (Pool.traced_run (P := fun _ _ _ => True) (Q := fun _ _ _ => True) (fun _ => Prog.holds_true _ _) acts).sound

end TxLib

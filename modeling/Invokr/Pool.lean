import Invokr.StoreKeeps

namespace TxLib

/-- The programs a database serves: one for each request. -/
structure System (M : Model) where
  Req : Type
  Resp : Type
  program : Req → Program M Resp

structure Thread {M : Model} (S : System M) where
  req : S.Req
  prog : Program M S.Resp
  alive : Bool

structure Pool {M : Model} (S : System M) where
  world : World M
  threads : Nat → Option (Thread S)

inductive Action {M : Model} (S : System M) where
  | start (t : Nat) (req : S.Req)
  | step (t : Nat) (env : Env M)
  | kill (t : Nat)
  | tick (d : Nat)

/-- Which requests, calls and kills the runs under consideration contain. -/
structure Guard {M : Model} (S : System M) where
  start : S.Req → Prop
  step : S.Req → World M → Nat → Env M → Op M → Prop
  kill : S.Req → World M → Nat → Prop

def Guard.all {M : Model} (S : System M) : Guard S := ⟨fun _ => True, fun _ _ _ _ _ => True, fun _ _ _ => True⟩

namespace Pool

variable {M : Model} {S : System M}

def empty (S : System M) : Pool S := ⟨World.empty M, fun _ => none⟩

def stop (p : Pool S) (t : Nat) (th : Thread S) : Pool S :=
  ⟨p.world.kill t, Function.update p.threads t (some { th with alive := false })⟩

/-- A thread makes its next call. A thread that has ended, or has to wait, stays as it is. -/
def advance (p : Pool S) (t : Nat) (env : Env M) (th : Thread S) : Pool S :=
  match th.prog with
  | .ret _ => p
  | .call .halt _ => p.stop t th
  | .call o next =>
    match p.world.exec t o env with
    | none => p
    | some (w, r) => ⟨w, Function.update p.threads t (some { th with prog := next r })⟩

def act (p : Pool S) : Action S → Pool S
  | .start t req =>
    match p.threads t with
    | some _ => p
    | none => { p with threads := Function.update p.threads t (some ⟨req, S.program req, true⟩) }
  | .step t env =>
    match p.threads t with
    | none => p
    | some th => if th.alive then p.advance t env th else p
  | .kill t =>
    match p.threads t with
    | none => p
    | some th => if th.alive then p.stop t th else p
  | .tick d => { p with world := { p.world with clock := p.world.clock + d } }

def run (p : Pool S) (acts : List (Action S)) : Pool S := acts.foldl act p

/-- The call thread `t` waits for. -/
def next (p : Pool S) (t : Nat) : Option (S.Req × Op M) :=
  match p.threads t with
  | none => none
  | some th => if th.alive then th.prog.head.map (Prod.mk th.req) else none

/-- The answer thread `t` has given, with its request. -/
def answer (p : Pool S) (t : Nat) : Option (S.Req × S.Resp) :=
  match p.threads t with
  | none => none
  | some th => if th.alive then th.prog.result.map (Prod.mk th.req) else none

def Allows (g : Guard S) (p : Pool S) : Action S → Prop
  | .start _ req => g.start req
  | .step t env => ∀ req o, p.next t = some (req, o) → g.step req p.world t env o
  | .kill t => ∀ th, p.threads t = some th → g.kill th.req p.world t
  | .tick _ => True

def Meets (g : Guard S) : Pool S → List (Action S) → Prop
  | _, [] => True
  | p, a :: acts => p.Allows g a ∧ (p.act a).Meets g acts

@[simp] theorem run_nil (p : Pool S) : p.run [] = p := rfl

@[simp] theorem run_cons (p : Pool S) (a : Action S) (acts : List (Action S)) :
    p.run (a :: acts) = (p.act a).run acts := rfl

theorem run_append (p : Pool S) (acts acts' : List (Action S)) : p.run (acts ++ acts') = (p.run acts).run acts' :=
  List.foldl_append

theorem meets_append {g : Guard S} {p : Pool S} {acts acts' : List (Action S)} :
    p.Meets g (acts ++ acts') ↔ p.Meets g acts ∧ (p.run acts).Meets g acts' := by
  induction acts generalizing p with
  | nil => simp [Meets]
  | cons a acts ih => simp [Meets, ih, and_assoc]

theorem meets_all (p : Pool S) (acts : List (Action S)) : p.Meets (.all S) acts := by
  induction acts generalizing p with
  | nil => trivial
  | cons a acts ih =>
    refine ⟨?_, ih _⟩
    cases a with
    | start t req => exact True.intro
    | step t env => exact fun _ _ _ => True.intro
    | kill t => exact fun _ _ => True.intro
    | tick d => exact True.intro

end Pool

/-- A transaction of a thread and the thread's part of the history. -/
abbrev View (M : Model) := Option (Session M) × List (Entry M)

namespace World

variable {M : Model}

def history (w : World M) (t : Nat) : List (Entry M) := (w.log.filter fun e => e.1 = t).map Prod.snd

def view (w : World M) (t : Nat) : View M := (w.sessions t, w.history t)

theorem history_append (w : World M) (t u : Nat) (es : List (Entry M)) (log : List (Nat × Entry M))
    (h : log = w.log ++ es.map (Prod.mk t)) :
    ((log.filter fun e => e.1 = u).map Prod.snd) = if u = t then w.history u ++ es else w.history u := by
  subst h
  simp only [history, List.filter_append, List.map_append, List.filter_map]
  split
  next hu => subst hu; simp [Function.comp_def]
  next hu => simp [Function.comp_def, Ne.symm hu]

theorem exec_view {w w' : World M} {t : Nat} {o : Op M} {env : Env M} {r : o.Reply}
    (h : w.exec t o env = some (w', r)) :
    w'.view t = (w'.sessions t, w.history t ++ o.entries w.rows (w.foreign t) env (w.sessions t)) := by
  obtain ⟨_, s, _, hw⟩ := exec_eq h
  have := history_append w t t _ w'.log (by rw [hw])
  simp only [↓reduceIte] at this
  exact Prod.ext rfl this

theorem exec_view_of_ne {w w' : World M} {t u : Nat} {o : Op M} {env : Env M} {r : o.Reply}
    (h : w.exec t o env = some (w', r)) (hu : u ≠ t) : w'.view u = w.view u := by
  obtain ⟨_, s, _, hw⟩ := exec_eq h
  refine Prod.ext ?_ ?_
  · simp [view, hw, Function.update_of_ne hu]
  · have := history_append w t u _ w'.log (by rw [hw])
    rwa [if_neg hu] at this

def killed (v : View M) : View M := (none, v.2 ++ if v.1.isSome then [.abort] else [])

theorem kill_view (w : World M) (t : Nat) : (w.kill t).view t = killed (w.view t) := by
  have := history_append w t t (if (w.sessions t).isSome then [.abort] else []) (w.kill t).log
    (by cases hs : w.sessions t <;> simp [kill, hs])
  simp only [↓reduceIte] at this
  exact Prod.ext (by simp [kill, view, killed]) this

theorem kill_view_of_ne (w : World M) {t u : Nat} (hu : u ≠ t) : (w.kill t).view u = w.view u := by
  have := history_append w t u (if (w.sessions t).isSome then [.abort] else []) (w.kill t).log
    (by cases hs : w.sessions t <;> simp [kill, hs])
  refine Prod.ext ?_ ?_
  · simp [kill, view, Function.update_of_ne hu]
  · rwa [if_neg hu] at this

end World

end TxLib

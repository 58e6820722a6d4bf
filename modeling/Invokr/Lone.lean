import Invokr.Alone
import Invokr.Changes
import Invokr.Copies

namespace TxLib

variable {M : Model} {t : Nat} {c : Int} {D : Rows M} {w w' : World M} {α ε : Type}

/-- The clock stands still, and the thread's transaction has its time. -/
def Clocked (t : Nat) (now : Int) (w : World M) : Prop := w.clock = now ∧ ∀ s, w.sessions t = some s → s.now = now

theorem Clocked.exec {o : Op M} {e : Env M} {r : o.Reply} (h : Clocked t c w) (sound : Sound w)
    (he : w.exec t o e = some (w', r)) : Clocked t c w' := by
  obtain ⟨m, -⟩ := sound.exec he
  obtain ⟨_, s, _, hw⟩ := World.exec_eq he
  refine ⟨by rw [hw]; exact h.1, fun s₁ hs₁ => ?_⟩
  rcases m.now hs₁ with ⟨s₀, hs₀, hnow⟩ | ⟨_, hnow⟩
  · exact hnow.trans (h.2 s₀ hs₀)
  · exact hnow.trans h.1

/-- The rules for a program that runs with no other thread acting. -/
abbrev Lone (t : Nat) (c : Int) (ok : α → World M → Prop) (err : ε → World M → Prop) (x : Try M ε α) (w : World M) : Prop :=
  Tries (Local Eq (Clocked t c) (fun _ _ _ _ => True) t) (fun _ _ => True) ok err x w

/-- The thread is between transactions, and these rows are committed. -/
abbrev Rests (t : Nat) (D : Rows M) (w : World M) : Prop := Idle t (fun _ => True) (fun D' => D' = D) w

theorem rests_start (idle : w.sessions t = none) : Rests t w.rows w :=
  ⟨w.history t, by simp [World.view, idle], trivial, rfl⟩

theorem Rests.idle (h : Rests t D w) : w.sessions t = none := by
  obtain ⟨l, hv, -, -⟩ := h
  exact congrArg Prod.fst hv

theorem Rests.rows (h : Rests t D w) : w.rows = D := by
  obtain ⟨l, -, -, hD⟩ := h
  exact hD

theorem lone_ends {p : Program M α} {post : α → World M → Prop} {a : α} (sound : Sound w)
    (clocked : Clocked t c w) (h : p.Holds (Local Eq (Clocked t c) (fun _ _ _ _ => True) t) (fun _ _ => True) post w)
    (e : p.Ends (World.Alone t) w a w') : Sound w' ∧ Clocked t c w' ∧ post a w' := by
  induction p generalizing w with
  | ret b =>
    obtain ⟨rfl, rfl⟩ := e
    exact ⟨sound, clocked, h⟩
  | call o next ih =>
    obtain ⟨r, w₁, ⟨env, he⟩, rest⟩ := e
    exact ih r (sound.exec he).2 (clocked.exec sound he) (h.2 r w₁ ⟨w, env, rfl, rfl, sound, clocked, trivial, he⟩) rest

theorem lone_played {ok : α → World M → Prop} {err : ε → World M → Prop} {x : Try M ε α} {envs : List (Env M)}
    {r : Except ε α} (sound : Sound w) (idle : w.sessions t = none) (h : Lone t w.clock ok err x w) (play : World.play t x.run envs w = some (w', r)) :
    Sound w' ∧ w'.clock = w.clock ∧ (∀ a, r = .ok a → ok a w') ∧ ∀ e, r = .error e → err e w' := by
  have clocked : Clocked t w.clock w := ⟨rfl, fun s hs => by rw [idle] at hs; cases hs⟩
  obtain ⟨sound', clocked', post⟩ := lone_ends sound clocked h (World.play_ends play)
  refine ⟨sound', clocked'.1, fun a ha => ?_, fun e he => ?_⟩
  · rw [ha] at post
    exact post
  · rw [he] at post
    exact post

/-- The thread's transaction is open, and it sees these rows. -/
abbrev Sighted (t : Nat) (now : Int) (D V : Rows M) (w : World M) : Prop :=
  Open t now (fun _ => True) (fun D' => D' = D) (fun s => s.aborted = false ∧ s.visible D = V) w

theorem lone_transaction {fromDb : DbError → ε} {body : Try M ε α} {ok : α → World M → Prop} (hw : Rests t D w)
    (h : ∀ now w₁, Sighted t now D D w₁ → Lone t c
      (fun a w₂ => ∃ V, Sighted t now D V w₂ ∧ ∀ w₃, now = c → Rests t V w₃ → ok a w₃)
      (fun _ w₂ => ∃ Q, Open t now (fun _ => True) (fun D' => D' = D) Q w₂) body w₁) :
    Lone t c ok (fun _ w' => Rests t D w') (transaction fromDb body) w := by
  refine tries_transaction (tries_begin (stable_eq _) trivial hw (fun _ _ _ _ _ _ hi => hi) ?_)
  intro now w₁ w₂ env moment ho
  have hD : w₁.rows = D := moment.known
  rw [hD] at ho
  have seen : Sighted t now D D w₂ := by
    refine ho.mono (fun _ _ => trivial) (fun _ h => h) fun s _ hs => ⟨hs.1, ?_⟩
    funext tb k
    simp [Session.visible, hs.2 tb k]
  refine (h now w₂ seen).mono ?_ ?_
  · rintro a w₃ ⟨V, ho₃, done⟩
    refine tries_commit (stable_eq _) trivial ho₃ (fun _ _ _ _ _ _ _ _ hi => hi.mono (fun _ _ => trivial) fun _ h => h) ?_ ?_
    · intro w₄ w₅ s env _ aborted hs _
      rw [hs.1] at aborted
      cases aborted
    · intro w₄ w₅ s env facts _ hs hi
      have hD₄ : w₄.rows = D := facts.known
      rw [hD₄, hs.2] at hi
      have hnow : now = c := facts.now.symm.trans (facts.inv.2 s facts.session)
      exact done w₅ hnow (hi.mono (fun _ _ => trivial) fun _ h => h)
  · rintro e w₃ ⟨Q, ho₃⟩
    exact holds_rollback (stable_eq _) trivial ho₃ fun w' hi => hi.mono (fun _ _ => trivial) fun _ h => h

theorem lone_query {stmt : M.Stmt} {now : Int} {V : Rows M} {ok : Snapshot M → World M → Prop} (hw : Sighted t now D V w)
    (h : ∀ w₁ keys, Sighted t now D V w₁ → ok ⟨now, V, keys⟩ w₁) :
    Lone t c ok (fun _ w' => ∃ Q, Open t now (fun _ => True) (fun D' => D' = D) Q w') (query stmt) w := by
  refine tries_query (stable_eq _) trivial hw (fun _ _ _ _ _ _ _ _ ho => ⟨_, ho⟩) ?_
  intro w₁ w₂ s env facts ha hs ho
  have hD : w₁.rows = D := facts.known
  rw [hD] at ho ⊢
  rw [hs.2]
  exact h w₂ w₁.keys (ho.mono (fun _ h => h) (fun _ h => h) fun s' _ he => he ▸ hs)

/-- Whether there is such a row in sight, and the row that then takes its place. -/
theorem lone_update {stmt : M.Stmt} {tb : M.Tbl} {k : M.Key} {patch : Patch M tb} {now : Int} {V : Rows M}
    {ok : Option (M.Row tb) → World M → Prop} (hw : Sighted t now D V w)
    (miss : V tb k = none → ∀ w₁, Sighted t now D V w₁ → ok none w₁)
    (hit : ∀ old, V tb k = some old → ∀ w₁, Sighted t now D (setAt V tb k (some (patch.apply now old))) w₁ →
      ok (some (patch.apply now old)) w₁) :
    Lone t c ok (fun _ w' => ∃ Q, Open t now (fun _ => True) (fun D' => D' = D) Q w')
      (update stmt tb k false (fun _ _ => true) patch) w := by
  refine tries_update (stable_eq _) trivial hw (fun _ _ _ _ _ _ _ _ ho => ⟨_, ho⟩) ?_ ?_ ?_
  · intro w₁ w₂ s env facts ha hs none ho
    have hD : w₁.rows = D := facts.known
    rw [hD] at ho none
    rw [hs.2] at none
    refine miss (none.resolve_left fun h => by cases h.1) w₂ (ho.mono (fun _ h => h) (fun _ h => h) fun s' _ he => he ▸ hs)
  · intro w₁ w₂ s env old facts ha hs finds kept ho
    cases kept
  · intro w₁ w₂ s env old facts ha hs finds _ _ ho
    have hD : w₁.rows = D := facts.known
    have found : V tb k = some old := by
      rw [← hs.2, ← hD]
      exact finds.visible
    rw [hD] at ho
    refine hit old found w₂ (ho.mono (fun _ _ => trivial) (fun _ h => h) fun s' _ he => ?_)
    rw [he, Session.write_visible, hs.2]
    exact ⟨hs.1, rfl⟩

/-- A row that is inserted is a new one. -/
theorem lone_insert {stmt : M.Stmt} {tb : M.Tbl} {build : M.Fresh → Int → M.Key × M.Row tb} {now : Int} {V : Rows M}
    {ok : Option (M.Key × M.Row tb) → World M → Prop} (hp : M.plain tb = false) (hw : Sighted t now D V w)
    (new : ∀ fresh, D tb (build fresh now).1 = none → ∀ w₁,
      Sighted t now D (setAt V tb (build fresh now).1 (some (build fresh now).2)) w₁ → ok (some (build fresh now)) w₁) :
    Lone t c ok (fun _ w' => ∃ Q, Open t now (fun _ => True) (fun D' => D' = D) Q w') (insert stmt tb false build) w := by
  refine tries_insert (stable_eq _) hp trivial hw (fun _ _ _ _ _ _ _ _ ho => ⟨_, ho⟩) ?_ ?_
  · intro w₁ w₂ s env facts ha hs ignore
    cases ignore
  · intro w₁ w₂ s env facts ha hs free _ _ ho
    have hD : w₁.rows = D := facts.known
    rw [hD] at ho free
    refine new env.fresh free w₂ (ho.mono (fun _ h => h) (fun _ h => h) fun s' _ he => ?_)
    rw [he, Session.write_visible, hs.2]
    exact ⟨hs.1, rfl⟩

end TxLib

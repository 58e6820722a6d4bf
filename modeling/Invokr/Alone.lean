import Invokr.OpenRules

namespace TxLib

/-- The program, begun in `l`, can end in `l'` with `a`. -/
def Prog.Ends {Op : Type} {Reply : Op → Type} {α L : Type} (step : L → (o : Op) → Reply o → L → Prop) :
    Prog Op Reply α → L → α → L → Prop
  | .ret b, l, a, l' => a = b ∧ l' = l
  | .call o next, l, a, l' => ∃ r l₁, step l o r l₁ ∧ (next r).Ends step l₁ a l'

variable {M : Model} {t : Nat} {w₀ w w' : World M} {α : Type}

/-- The thread makes a call and no other thread acts. -/
def World.Alone (t : Nat) (w : World M) (o : Op M) (r : o.Reply) (w' : World M) : Prop :=
  ∃ env, w.exec t o env = some (w', r)

/-- The calls of a program with nobody else about, one surrounding for each; none if it has to wait. -/
def World.play (t : Nat) : Program M α → List (Env M) → World M → Option (World M × α)
  | .ret a, _, w => some (w, a)
  | .call _ _, [], _ => none
  | .call o next, env :: envs, w =>
    match w.exec t o env with
    | none => none
    | some (w₁, r) => World.play t (next r) envs w₁

theorem World.play_ends {p : Program M α} {envs : List (Env M)} {a : α} (h : World.play t p envs w = some (w', a)) :
    p.Ends (World.Alone t) w a w' := by
  induction p generalizing w envs with
  | ret b =>
    cases h
    exact ⟨rfl, rfl⟩
  | call o next ih =>
    cases envs with
    | nil => cases h
    | cons env envs =>
      unfold World.play at h
      split at h
      next => cases h
      next w₁ r he => exact ⟨r, w₁, ⟨env, he⟩, ih r h⟩

def Op.insertsNothing : Op M → Prop
  | .insert _ _ _ _ => False
  | .put _ _ _ _ => False
  | _ => True

/-- What one thread leaves to the others: the clock, the keys in use and their transactions. A
transaction that it begins has the clock's time. -/
structure Beside (t : Nat) (w w' : World M) : Prop where
  sound : Sound w'
  clock : w'.clock = w.clock
  keys : w'.keys = w.keys
  others : ∀ u, u ≠ t → w'.sessions u = w.sessions u
  now : w.sessions t = none → ∀ s, w'.sessions t = some s → s.now = w.clock

theorem Beside.refl (sound : Sound w) : Beside t w w where
  sound := sound
  clock := rfl
  keys := rfl
  others _ _ := rfl
  now hn s hs := by
    rw [hn] at hs
    cases hs

theorem Beside.trans {w₁ w₂ : World M} (h : Beside t w w₁) (h' : Beside t w₁ w₂) (idle : w₁.sessions t = none) :
    Beside t w w₂ where
  sound := h'.sound
  clock := h'.clock.trans h.clock
  keys := h'.keys.trans h.keys
  others u hu := (h'.others u hu).trans (h.others u hu)
  now _ s hs := (h'.now idle s hs).trans h.clock

theorem Move.now {keys : (tb : M.Tbl) → List M.Key} {s s' : Option (Session M)} {rows : Rows M} (m : Move w t keys s s' rows)
    {s₁ : Session M} (h : s' = some s₁) : (∃ s₀, s = some s₀ ∧ s₁.now = s₀.now) ∨ (s = none ∧ s₁.now = w.clock) := by
  cases m with
  | stay => exact Or.inl ⟨s₁, h, rfl⟩
  | start =>
    cases h
    exact Or.inr ⟨rfl, rfl⟩
  | fail s₀ =>
    cases h
    exact Or.inl ⟨s₀, rfl, rfl⟩
  | @write s₀ =>
    cases h
    exact Or.inl ⟨s₀, rfl, rfl⟩
  | close => cases h
  | commit => cases h
  | remove => cases h

theorem Beside.call {o : Op M} {r : o.Reply} (h : Beside t w₀ w) (ho : o.insertsNothing) (step : World.Alone t w o r w') :
    Beside t w₀ w' := by
  obtain ⟨env, he⟩ := step
  obtain ⟨m, sound⟩ := h.sound.exec he
  obtain ⟨_, s, _, hw⟩ := World.exec_eq he
  have keys : w'.keys = w.keys := by
    rw [hw]
    cases o with
    | insert => exact ho.elim
    | put => exact ho.elim
    | _ => rfl
  have clock : w'.clock = w.clock := by rw [hw]
  refine ⟨sound, clock.trans h.clock, keys.trans h.keys, fun u hu => ?_, fun hn s₁ hs₁ => ?_⟩
  · rw [← h.others u hu, hw]
    exact Function.update_of_ne hu _ _
  · rcases m.now hs₁ with ⟨s₀, hs₀, hnow⟩ | ⟨_, hnow⟩
    · exact hnow.trans (h.now hn s₀ hs₀)
    · exact hnow.trans h.clock

/-- The row locks are those of the open transactions, so they are the same where these are. -/
theorem Sound.locks_eq (h : Sound w) (h' : Sound w') (same : ∀ u, w'.sessions u = w.sessions u) : w'.locks = w.locks := by
  have half : ∀ {w₁ w₂ : World M}, Sound w₁ → Sound w₂ → (∀ u, w₂.sessions u = w₁.sessions u) →
      ∀ tb k u, w₁.locks tb k = some u → w₂.locks tb k = some u := by
    intro w₁ w₂ h₁ h₂ hsame tb k u hu
    obtain ⟨s, x, hs, hx⟩ := h₁.locked tb k u hu
    exact (h₂.held u s tb k x ((hsame u).trans hs) hx).1
  funext tb k
  cases hl : w.locks tb k with
  | some u => exact half h h' same tb k u hl
  | none =>
    cases hl' : w'.locks tb k with
    | none => rfl
    | some u =>
      rw [half h' h (fun u => (same u).symm) tb k u hl'] at hl
      cases hl

/-- The rules for a thread that nobody disturbs. -/
abbrev Solo (t : Nat) (w₀ : World M) {ε : Type} (ok : α → World M → Prop) (err : ε → World M → Prop)
    (x : Try M ε α) (w : World M) : Prop :=
  Tries (Local Eq (Beside t w₀) (fun _ _ _ _ => True) t) (fun _ o => o.insertsNothing) ok err x w

theorem solo_ends {p : Program M α} {post : α → World M → Prop} {a : α} (hw : Beside t w₀ w)
    (h : p.Holds (Local Eq (Beside t w₀) (fun _ _ _ _ => True) t) (fun _ o => o.insertsNothing) post w)
    (e : p.Ends (World.Alone t) w a w') : Beside t w₀ w' ∧ post a w' := by
  induction p generalizing w with
  | ret b =>
    obtain ⟨rfl, rfl⟩ := e
    exact ⟨hw, h⟩
  | call o next ih =>
    obtain ⟨r, w₁, step, rest⟩ := e
    obtain ⟨env, he⟩ := step
    exact ih r (hw.call h.1 ⟨env, he⟩) (h.2 r w₁ ⟨w, env, rfl, rfl, hw.sound, hw, trivial, he⟩) rest

theorem stable_eq (K : Rows M → Prop) : Stable (M := M) Eq K := fun _ _ h hk => h ▸ hk

end TxLib

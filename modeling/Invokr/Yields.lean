import Invokr.Recall

namespace TxLib

variable {M : Model} {ε ε' α β : Type} {P : α → Prop} {Q : β → Prop}

/-- Wherever the program is run, what it ends in satisfies `P`, and the thread remembers what it did before. -/
def Yields (P : α → Prop) (x : Try M ε α) : Prop :=
  ∀ m, Tries Recalls (fun _ _ => True) (fun a m' => m.2 <+: m'.2 ∧ P a) (fun _ _ => True) x m

theorem yields_any (x : Try M ε α) : Yields (fun _ => True) x := by
  intro m
  have grows : ∀ q : Program M (Except ε α), ∀ m : Memory M, q.Holds Recalls (fun _ _ => True) (fun _ m' => m.2 <+: m'.2) m := by
    intro q
    induction q with
    | ret a => exact fun m => List.prefix_refl _
    | call o next ih => exact fun m => ⟨trivial, fun r m' hr => (ih r m').mono fun _ _ hm => hr.extends.trans hm⟩
  refine (grows x.run m).mono fun r m' hm => ?_
  cases r with
  | ok a => exact ⟨hm, trivial⟩
  | error e => trivial

theorem yields_pure {a : α} (h : P a) : Yields P (pure a : Try M ε α) := fun _ => tries_pure ⟨List.prefix_refl _, h⟩

theorem yields_throw (e : ε) : Yields P (throw e : Try M ε α) := fun _ => tries_throw trivial

theorem yields_bind {x : Try M ε α} {f : α → Try M ε β} (hx : Yields P x) (hf : ∀ a, P a → Yields Q (f a)) :
    Yields Q (x >>= f) := fun m =>
  tries_bind ((hx m).mono (fun a m₁ h => (hf a h.2 m₁).mono (fun _ _ h' => ⟨h.1.trans h'.1, h'.2⟩) fun _ _ _ => trivial)
    fun _ _ _ => trivial)

theorem yields_adapt {f : ε' → ε} {x : Try M ε' α} (hx : Yields P x) : Yields P (ExceptT.adapt f x) := fun m =>
  tries_adapt (hx m)

theorem yields_transaction {fromDb : DbError → ε} {body : Try M ε α} (h : Yields P body) : Yields P (transaction fromDb body) := by
  intro m
  refine tries_transaction ((yields_any beginTx m).mono (fun _ m₁ h₁ => ?_) fun _ _ _ => trivial)
  refine (h m₁).mono (fun a m₂ h₂ => ?_) fun e m₂ _ => (Prog.holds_true _ m₂).pre_mono fun _ _ _ => trivial
  exact (yields_any commitTx m₂).mono (fun _ m₃ h₃ => ⟨h₁.1.trans (h₂.1.trans h₃.1), h₂.2⟩) fun _ _ _ => trivial

/-- What an `INSERT` returns is the row that it was to insert. -/
theorem yields_insert {stmt : M.Stmt} {tb : M.Tbl} {orIgnore : Bool} {build : M.Fresh → Int → M.Key × M.Row tb} :
    Yields (fun new => ∀ n, new = some n → ∃ fresh now, n = build fresh now) (insert stmt tb orIgnore build) := by
  intro m
  refine ⟨trivial, fun r m' hr => ?_⟩
  have le := hr.extends
  obtain ⟨D, keys, clock, foreign, env, he, _⟩ := hr.eval
  cases r with
  | error e => trivial
  | ok new =>
    refine ⟨le, fun n hn => ?_⟩
    subst hn
    rcases inTx_cases (Option.some.inj he) with ⟨_, _, hr⟩ | ⟨_, _, _, _, hr⟩ | ⟨s, _, _, _, hr, _⟩
    · cases hr
    · cases hr
    · refine ⟨env.fresh, s.now, ?_⟩
      simp only [insertRow] at hr
      split at hr
      next => cases hr
      next =>
        split at hr
        next =>
          split at hr
          next => cases hr
          next => cases hr
        next =>
          split at hr
          next => cases hr
          next => exact Option.some.inj (Except.ok.inj hr)

end TxLib

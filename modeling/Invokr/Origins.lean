import Invokr.Copies

namespace TxLib

variable {M : Model} {S : System M} {tb : M.Tbl}

/-- How the rows of a table may change once they are there. -/
structure Descent (M : Model) (tb : M.Tbl) where
  rel : M.Key → M.Row tb → M.Row tb → Prop
  refl : ∀ k r, rel k r r
  trans : ∀ {k r r' r''}, rel k r r' → rel k r' r'' → rel k r r''
  solid : M.plain tb = false

/-- A call that changes the rows of the table so. -/
def Descent.Allows (R : Descent M tb) (o : Op M) : Prop :=
  ∀ stmt k skip keep patch, o = .update stmt tb k skip keep patch → ∀ now r, R.rel k r (patch.apply now r)

/-- Since some moment of the run the thread has inserted the row where it saw none. -/
def Placed (since acts : List (Action S)) (t : Nat) (k : M.Key) (r : M.Row tb) : Prop :=
  ∃ before e req stmt orIgnore build s, since <+: before ∧ before ++ [.step t e] <+: acts ∧
    ((Pool.empty S).run before).Makes t e req (.insert stmt tb orIgnore build) ∧
    ((Pool.empty S).run before).world.sessions t = some s ∧
    s.visible ((Pool.empty S).run before).world.rows tb k = none ∧ build e.fresh s.now = (k, r)

/-- Every row comes from one that was there at that moment or from an insert made since. -/
structure Pool.Origins (R : Descent M tb) (since acts : List (Action S)) (p : Pool S) : Prop where
  rows : ∀ k r, p.world.rows tb k = some r →
    (∃ r₀, ((Pool.empty S).run since).world.rows tb k = some r₀ ∧ R.rel k r₀ r) ∨
      ∃ t r₀, Placed since acts t k r₀ ∧ R.rel k r₀ r
  seen : ∀ t s k r, p.world.sessions t = some s → s.visible p.world.rows tb k = some r →
    (∃ r₀, p.world.rows tb k = some r₀ ∧ R.rel k r₀ r) ∨ ∃ r₀, Placed since acts t k r₀ ∧ R.rel k r₀ r

variable {R : Descent M tb} {since acts acts' : List (Action S)} {p p' : Pool S}

theorem Placed.later {t : Nat} {k : M.Key} {r : M.Row tb} (h : Placed since acts t k r) (le : acts <+: acts') :
    Placed since acts' t k r := by
  obtain ⟨before, e, req, stmt, orIgnore, build, s, after, upTo, rest⟩ := h
  exact ⟨before, e, req, stmt, orIgnore, build, s, after, upTo.trans le, rest⟩

theorem World.exec_rows_open {w w' : World M} {t : Nat} {o : Op M} {env : Env M} {r : o.Reply} (sound : Sound w)
    (he : w.exec t o env = some (w', r)) {s' : Session M} (hs' : w'.sessions t = some s') : w'.rows = w.rows := by
  have m := (sound.exec he).1
  rw [hs'] at m
  generalize w.sessions t = s at m
  generalize w'.rows = rows at m ⊢
  cases m <;> rfl

namespace Pool.Origins

/-- Rows and what the transactions see of them stay as they are. -/
theorem still (h : p.Origins R since acts) (le : acts <+: acts') (rows : p'.world.rows = p.world.rows)
    (seen : ∀ t s, p'.world.sessions t = some s → p.world.sessions t = some s) : p'.Origins R since acts' where
  rows k r hr := by
    rw [rows] at hr
    rcases h.rows k r hr with old | ⟨t, r₀, placed, rel⟩
    · exact Or.inl old
    · exact Or.inr ⟨t, r₀, placed.later le, rel⟩
  seen t s k r hs hr := by
    rw [rows] at hr ⊢
    rcases h.seen t s k r (seen t s hs) hr with old | ⟨r₀, placed, rel⟩
    · exact Or.inl old
    · exact Or.inr ⟨r₀, placed.later le, rel⟩

/-- What the thread sees after its own call. -/
theorem own (h : ((Pool.empty S).run acts).Origins R since acts) (le : since <+: acts)
    {t : Nat} {e : Env M} {req : S.Req} {o : Op M} {w : World M}
    {reply : o.Reply} (next : ((Pool.empty S).run acts).next t = some (req, o)) (allows : R.Allows o)
    (he : ((Pool.empty S).run acts).world.exec t o e = some (w, reply)) {s' : Session M} (hs' : w.sessions t = some s')
    {k : M.Key} {r : M.Row tb} (hr : s'.visible w.rows tb k = some r) :
    (∃ r₀, w.rows tb k = some r₀ ∧ R.rel k r₀ r) ∨ ∃ r₀, Placed since (acts ++ [.step t e]) t k r₀ ∧ R.rel k r₀ r := by
  rw [World.exec_rows_open (Pool.sound_run acts) he hs'] at hr ⊢
  have committed : ((Pool.empty S).run acts).world.rows tb k = some r → (∃ r₀, ((Pool.empty S).run acts).world.rows tb k =
      some r₀ ∧ R.rel k r₀ r) ∨ ∃ r₀, Placed since (acts ++ [.step t e]) t k r₀ ∧ R.rel k r₀ r :=
    fun hc => Or.inl ⟨r, hc, R.refl k r⟩
  cases hs : ((Pool.empty S).run acts).world.sessions t with
  | none =>
    have m := ((Pool.sound_run acts).exec he).1
    rw [hs, hs'] at m
    generalize w.rows = rows at m
    cases m with
    | start => exact committed hr
  | some s =>
    have before : ∀ {r₁}, s.visible ((Pool.empty S).run acts).world.rows tb k = some r₁ → R.rel k r₁ r →
        (∃ r₀, ((Pool.empty S).run acts).world.rows tb k = some r₀ ∧ R.rel k r₀ r) ∨
          ∃ r₀, Placed since (acts ++ [.step t e]) t k r₀ ∧ R.rel k r₀ r := by
      intro r₁ h₁ rel
      rcases h.seen t s k r₁ hs h₁ with ⟨r₀, h₀, rel₀⟩ | ⟨r₀, placed, rel₀⟩
      · exact Or.inl ⟨r₀, h₀, R.trans rel₀ rel⟩
      · exact Or.inr ⟨r₀, placed.later (List.prefix_append _ _), R.trans rel₀ rel⟩
    rcases World.exec_written (Pool.sound_run acts) he hs hs' with rfl | rfl | ⟨tb', k', v, rfl, written⟩
    · exact before hr (R.refl k r)
    · exact committed hr
    · rw [Session.write_visible] at hr
      rcases setAt_cases (s.visible ((Pool.empty S).run acts).world.rows) tb' k' v tb k with ⟨rfl, rfl, hv⟩ | ⟨_, hv⟩
      · rw [hv] at hr
        cases written with
        | patch hold =>
          cases hr
          exact before hold (allows _ _ _ _ _ rfl _ _)
        | lock hold =>
          cases hr
          exact before hold (R.refl _ _)
        | @insert stmt tb orIgnore build _ free _ =>
          cases hr
          exact Or.inr ⟨_, ⟨acts, e, req, stmt, orIgnore, build, s, le, List.prefix_refl _, ⟨next, by rw [he]; rfl⟩, hs, free,
            rfl⟩, R.refl _ _⟩
        | put hp =>
          rw [R.solid] at hp
          cases hp
        | delete hp =>
          rw [R.solid] at hp
          cases hp
      · rw [hv] at hr
        exact before hr (R.refl k r)

theorem call (h : ((Pool.empty S).run acts).Origins R since acts) (le : since <+: acts)
    {t : Nat} {e : Env M} {req : S.Req} {o : Op M} {w : World M}
    {reply : o.Reply} (next : ((Pool.empty S).run acts).next t = some (req, o)) (allows : R.Allows o)
    (he : ((Pool.empty S).run acts).world.exec t o e = some (w, reply)) {threads : Nat → Option (Thread S)} :
    Pool.Origins R since (acts ++ [.step t e]) (⟨w, threads⟩ : Pool S) where
  rows k r hr := by
    have old : ((Pool.empty S).run acts).world.rows tb k = some r →
        (∃ r₀, ((Pool.empty S).run since).world.rows tb k = some r₀ ∧ R.rel k r₀ r) ∨
          ∃ u r₀, Placed since (acts ++ [.step t e]) u k r₀ ∧ R.rel k r₀ r := by
      intro hc
      rcases h.rows k r hc with old | ⟨u, r₀, placed, rel⟩
      · exact Or.inl old
      · exact Or.inr ⟨u, r₀, placed.later (List.prefix_append _ _), rel⟩
    have m := ((Pool.sound_run acts).exec he).1
    generalize hs : ((Pool.empty S).run acts).world.sessions t = s at m
    generalize w.sessions t = s' at m
    have hr' : w.rows tb k = some r := hr
    generalize w.rows = rows at m hr'
    cases m with
    | @commit s _ =>
      rcases h.seen t s k r hs hr' with ⟨r₁, h₁, rel₁⟩ | ⟨r₀, placed, rel⟩
      · rcases h.rows k r₁ h₁ with ⟨r₀, h₀, rel₀⟩ | ⟨u, r₀, placed, rel₀⟩
        · exact Or.inl ⟨r₀, h₀, R.trans rel₀ rel₁⟩
        · exact Or.inr ⟨u, r₀, placed.later (List.prefix_append _ _), R.trans rel₀ rel₁⟩
      · exact Or.inr ⟨t, r₀, placed.later (List.prefix_append _ _), rel⟩
    | @remove tb' k' _ _ _ =>
      rcases setAt_cases ((Pool.empty S).run acts).world.rows tb' k' none tb k with ⟨rfl, rfl, hv⟩ | ⟨_, hv⟩
      · rw [hv] at hr'
        cases hr'
      · exact old (hv ▸ hr')
    | _ => exact old hr'
  seen u s k r hs hr := by
    by_cases hu : u = t
    · subst hu
      exact own h le next allows he hs hr
    · have hs' : ((Pool.empty S).run acts).world.sessions u = some s := (World.exec_sessions_of_ne he hu).symm.trans hs
      cases hx : s.held tb k with
      | none =>
        refine Or.inl ⟨r, ?_, R.refl k r⟩
        simpa [Session.visible, hx] using hr
      | some x =>
        -- the row is locked, so that the call leaves its committed version alone
        have foreign : ((Pool.empty S).run acts).world.foreign t tb k = true :=
          World.foreign_iff.mpr ⟨u, hu, ((Pool.sound_run acts).held u s tb k x hs' hx).1⟩
        have same : w.rows tb k = ((Pool.empty S).run acts).world.rows tb k :=
          ((Pool.sound_run acts).exec he).1.rows_foreign (Pool.sound_run acts) foreign
        have hold : s.visible ((Pool.empty S).run acts).world.rows tb k = some r := by
          simpa [Session.visible, hx] using hr
        rcases h.seen u s k r hs' hold with ⟨r₀, h₀, rel⟩ | ⟨r₀, placed, rel⟩
        · exact Or.inl ⟨r₀, same.trans h₀, rel⟩
        · exact Or.inr ⟨r₀, placed.later (List.prefix_append _ _), rel⟩

theorem act (h : ((Pool.empty S).run acts).Origins R since acts) (le : since <+: acts)
    (x : Action S)
    (allows : ∀ t req o, ((Pool.empty S).run acts).next t = some (req, o) → R.Allows o) :
    (((Pool.empty S).run acts).act x).Origins R since (acts ++ [x]) := by
  have hacts := ((Pool.empty S).run acts).acts x
  generalize ((Pool.empty S).run acts).act x = p' at hacts ⊢
  cases hacts with
  | still hr hs _ _ => exact h.still (List.prefix_append _ _) hr fun t s ht => by rw [← hs]; exact ht
  | @call t e th o next w r ht ha hp he =>
    have hn := Pool.next_of ht ha hp
    exact h.call le hn (allows t th.req o hn) he
  | @stop _ t th ht ha hx =>
    refine h.still (List.prefix_append _ _) rfl fun u s hu => ?_
    by_cases hut : u = t
    · subst hut
      simp [Pool.stop, World.kill] at hu
    · simpa [Pool.stop, World.kill, Function.update_of_ne hut] using hu

end Pool.Origins

/-- The origins of the rows of a table, from a moment at which no transaction was open. -/
theorem Pool.origins_run (quiet : ∀ t, ((Pool.empty S).run since).world.sessions t = none)
    (allows : ∀ before t req o, since <+: before → before <+: since ++ acts →
      ((Pool.empty S).run before).next t = some (req, o) → R.Allows o) :
    ((Pool.empty S).run (since ++ acts)).Origins R since (since ++ acts) := by
  induction acts using List.reverseRecOn with
  | nil =>
    rw [List.append_nil]
    exact ⟨fun k r hr => Or.inl ⟨r, hr, R.refl k r⟩, fun t s k r hs => by rw [quiet t] at hs; cases hs⟩
  | append_singleton acts x ih =>
    rw [← List.append_assoc] at allows ⊢
    have run : (Pool.empty S).run (since ++ acts ++ [x]) = ((Pool.empty S).run (since ++ acts)).act x := Pool.run_append _ _ _
    rw [run]
    refine (ih fun before t req o hb hle => allows before t req o hb (hle.trans (List.prefix_append _ _))).act
      (List.prefix_append _ _) x fun t req o hn => ?_
    exact allows _ t req o (List.prefix_append _ _) (List.prefix_append _ _) hn

/-- A row appears where a transaction commits that has inserted it. -/
theorem Pool.Origins.appears (h : ((Pool.empty S).run acts).Origins R since acts) {x : Action S} {k : M.Key} {r : M.Row tb}
    (absent : ((Pool.empty S).run acts).world.rows tb k = none)
    (there : (((Pool.empty S).run acts).act x).world.rows tb k = some r) :
    ∃ t e req r₀, x = .step t e ∧ ((Pool.empty S).run acts).next t = some (req, .commit) ∧ Placed since acts t k r₀ ∧
      R.rel k r₀ r := by
  have same : ((Pool.empty S).run acts).world.rows tb k = some r → False := fun hs => by rw [absent] at hs; cases hs
  have hacts := ((Pool.empty S).run acts).acts x
  generalize ((Pool.empty S).run acts).act x = p' at hacts there
  cases hacts with
  | still hr _ _ _ => exact (same (hr ▸ there)).elim
  | stop _ _ _ => exact (same there).elim
  | @call t e th o next w reply ht ha hp he =>
    have hn := Pool.next_of ht ha hp
    obtain ⟨_, s', _, hw⟩ := World.exec_eq he
    have there' : w.rows tb k = some r := there
    have hr : w.rows = o.store ((Pool.empty S).run acts).world.rows ((Pool.empty S).run acts).world.keys e
        (((Pool.empty S).run acts).world.sessions t) := by rw [hw]
    rw [hr] at there'
    cases o with
    | commit =>
      cases hs : ((Pool.empty S).run acts).world.sessions t with
      | none =>
        rw [hs] at there'
        exact (same there').elim
      | some s =>
        rw [hs] at there'
        simp only [Op.store] at there'
        split at there'
        next => exact (same there').elim
        next =>
          rcases h.seen t s k r hs there' with ⟨r₀, h₀, _⟩ | ⟨r₀, placed, rel⟩
          · rw [absent] at h₀
            cases h₀
          · exact ⟨t, e, th.req, r₀, rfl, hn, placed, rel⟩
    | deleteNow stmt tb' k' =>
      rcases store_deleteNow ((Pool.empty S).run acts).world.rows ((Pool.empty S).run acts).world.keys e
        (((Pool.empty S).run acts).world.sessions t) stmt tb' k' with hd | hd
      · rw [hd] at there'
        exact (same there').elim
      · rw [hd] at there'
        rcases setAt_cases ((Pool.empty S).run acts).world.rows tb' k' none tb k with ⟨rfl, rfl, hv⟩ | ⟨_, hv⟩
        · rw [hv] at there'
          cases there'
        · exact (same (hv ▸ there')).elim
    | _ => exact (same there').elim

end TxLib

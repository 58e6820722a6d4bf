import Invokr.Listing
import Invokr.Keyset
import Invokr.Runs
import Invokr.Alone

namespace Invokr

open TxLib

section solo

variable {α : Type} {t : Nat} {w₀ w : World Pg} {D : Rows Pg}

/-- The thread is between transactions and the committed rows are these. -/
abbrev Between (t : Nat) (D : Rows Pg) (w : World Pg) : Prop := Idle t (fun _ => True) (fun D' => D' = D) w

theorem between_start (idle : w.sessions t = none) : Between t w.rows w :=
  ⟨w.history t, by simp [World.view, idle], trivial, rfl⟩

/-- A single `SELECT` sees what is committed. -/
theorem solo_read {stmt : Statement} {f : Snapshot Pg → α} {db : DbContext} (alone : db.inTx = false)
    (hw : Between t D w) :
    Solo t w₀ (fun a w' => Between t D w' ∧ ∃ now, a = f ⟨now, D, w₀.keys⟩) (fun _ _ => True)
      (db.execute (do let snap ← query (M := Pg) stmt; return f snap)) w := by
  unfold DbContext.execute
  rw [alone]
  refine tries_transaction (tries_begin (stable_eq _) trivial hw (fun _ _ _ _ _ _ _ => trivial) ?_)
  intro now w₁ w₂ env moment ho
  have hD : w₁.rows = D := moment.known
  rw [hD] at ho
  refine tries_bind (tries_query (stable_eq _) trivial ho ?_ ?_)
  · intro e w₃ w₄ s env _ _ _ ho
    exact holds_rollback (stable_eq _) trivial ho fun _ _ => trivial
  · intro w₃ w₄ s env facts ha hs ho
    have hD₃ : w₃.rows = D := facts.known
    have seen : s.visible w₃.rows = D := by
      rw [← hD₃]
      funext tb k
      simp [Session.visible, hs.2 tb k]
    have keys : w₃.keys = w₀.keys := facts.inv.keys
    rw [seen, keys]
    refine tries_pure (tries_commit (stable_eq _) trivial ho (fun _ _ _ _ _ _ _ _ _ => trivial) ?_ ?_)
    · intro w₅ w₆ s' env _ aborted hs' _
      rw [hs', hs.1] at aborted
      cases aborted
    · intro w₅ w₆ s' env facts' _ hs' hi
      refine ⟨hi.mono (fun _ _ => trivial) fun D' h => ?_, now, rfl⟩
      have hD₅ : w₅.rows = w₃.rows := facts'.known
      rw [h, hs', hD₅, seen]

theorem solo_connect {schemaName : String} (hw : Between t D w) :
    Solo t w₀ (fun _ w' => Between t D w') (fun _ _ => True) (scopedConnection schemaName) w := by
  have rest : Solo t w₀ (fun _ w' => Between t D w') (fun _ _ => True) (do
      let acquired : Bool ← (ext (M := Pg) .acquire : Program Pg Bool)
      if acquired then return () else throw (fromDb .closed) : Try Pg AppError Unit) w := by
    refine tries_bind (tries_lift ?_)
    change (ext (M := Pg) .acquire >>= pure).Holds _ _ _ _
    refine holds_ext_idle (stable_eq _) trivial hw fun w₁ env w₂ _ hi => Prog.holds_pure.mpr ?_
    split
    next => exact tries_pure (hi.mono (fun _ _ => trivial) fun _ h => h)
    next => exact tries_throw trivial
  unfold scopedConnection
  split
  next => exact tries_bind (tries_lift (holds_halt trivial))
  next => exact rest

end solo

section pages

variable {env : Setup} {α K : Type} [LinearOrder K] {id : α → String} {key : α → K}
  {page : List (Action (service env)) → Option String → PaginatedResponse α → Prop}
  {rows : List (Action (service env)) → List α}

/-- A listing followed from page to page, each read at a moment of the run and with the cursor of
the one before. -/
inductive Follows (page : List (Action (service env)) → Option String → PaginatedResponse α → Prop) :
    List (List (Action (service env))) → Option String → List α → Option String → Prop where
  | one {acts : List (Action (service env))} {cursor : Option String} {r : PaginatedResponse α} (read : page acts cursor r) :
      Follows page [acts] cursor r.data r.cursor
  | more {acts : List (Action (service env))} {moments : List (List (Action (service env)))} {cursor next : Option String}
      {r : PaginatedResponse α} {c : String} {rest : List α} (read : page acts cursor r) (cont : r.cursor = some c)
      (then_ : Follows page moments (some c) rest next) : Follows page (acts :: moments) cursor (r.data ++ rest) next

/-- The answer is the keyset page of these rows. -/
def IsPage (id : α → String) (key : α → K) (rows : List α) (below : Option K) (limit : Nat) (r : PaginatedResponse α) : Prop :=
  r.data = (Keyset.page key rows below limit).1 ∧
    r.cursor = (Keyset.page key rows below limit).2.map fun l => encodeCursor (id l)

theorem paginated_isPage (params : PaginationParams) (below : Option K) (found : List α) :
    IsPage id key found below params.effectiveLimit.toNat
      (paginated params id (Keyset.select key found below (params.effectiveLimit + 1).toNat)) := by
  have positive := effectiveLimit_pos params
  have succ : (params.effectiveLimit + 1).toNat = params.effectiveLimit.toNat + 1 := by omega
  refine ⟨by rw [succ]; rfl, ?_⟩
  rw [succ]
  simp only [paginated, Keyset.page]
  have same : ((Keyset.select key found below (params.effectiveLimit.toNat + 1)).length : Int) > params.effectiveLimit ↔
      (Keyset.select key found below (params.effectiveLimit.toNat + 1)).length > params.effectiveLimit.toNat := by omega
  by_cases h : (Keyset.select key found below (params.effectiveLimit.toNat + 1)).length > params.effectiveLimit.toNat
  · rw [if_pos h, if_pos (same.mpr h)]
  · rw [if_neg h, if_neg fun h' => h (same.mp h')]
    rfl

/-- Following the cursors reads the tables of the moments one after the other. -/
theorem Follows.reads (id : α → String) (key : α → K) (rows : List (Action (service env)) → List α) (limit : Nat)
    (positive : 0 < limit)
    (distinct : ∀ acts, (rows acts).Pairwise fun a b => key a ≠ key b)
    (first : ∀ acts r, page acts none r → IsPage id key (rows acts) none limit r)
    (next : ∀ acts acts' l r, l ∈ rows acts → acts <+: acts' → page acts' (some (encodeCursor (id l))) r →
      IsPage id key (rows acts') (some (key l)) limit r)
    {moments : List (List (Action (service env)))} {cursor out : Option String} {shown : List α}
    (h : Follows page moments cursor shown out) (chain : moments.IsChain (· <+: ·)) (from_ : Option α)
    (hcursor : cursor = from_.map fun l => encodeCursor (id l))
    (there : ∀ l, from_ = some l → ∃ acts, l ∈ rows acts ∧ ∀ acts', moments.head? = some acts' → acts <+: acts') :
    ∃ last, out = last.map (fun l => encodeCursor (id l)) ∧
      Keyset.Reads key (moments.map rows) (from_.map key) shown last := by
  have here : ∀ {acts r cursor} {from_ : Option α} (moments : List (List (Action (service env)))), page acts cursor r →
      cursor = from_.map (fun l => encodeCursor (id l)) → (∀ l, from_ = some l → ∃ acts₀, l ∈ rows acts₀ ∧
        ∀ acts', (acts :: moments).head? = some acts' → acts₀ <+: acts') →
      IsPage id key (rows acts) (from_.map key) limit r := by
    intro acts r cursor from_ moments read hcursor there
    cases from_ with
    | none =>
      subst hcursor
      exact first acts r read
    | some l =>
      subst hcursor
      obtain ⟨acts₀, hl, before⟩ := there l rfl
      exact next acts₀ acts l r hl (before acts rfl) read
  induction h generalizing from_ with
  | @one acts cursor r read =>
    obtain ⟨data, hnext⟩ := here [] read hcursor there
    refine ⟨_, hnext, ?_⟩
    rw [data]
    exact .one (Keyset.page_spec _ (distinct acts) positive)
  | @more acts moments cursor out r c rest read cont then_ ih =>
    obtain ⟨data, hnext⟩ := here moments read hcursor there
    rw [cont] at hnext
    obtain ⟨l, hl, hc⟩ := Option.map_eq_some_iff.mp hnext.symm
    have spec := Keyset.page_spec (from_.map key) (distinct acts) positive
    rw [hl] at spec
    have hmem : l ∈ rows acts := (spec.mem l (spec.last l rfl).1).1
    obtain ⟨last, hout, reads⟩ := ih chain.tail (some l) (by rw [← hc]; rfl) fun l' hl' => by
      cases hl'
      refine ⟨acts, hmem, fun acts' hhead => ?_⟩
      obtain ⟨tail, rfl⟩ := List.head?_eq_some_iff.mp hhead
      exact (List.isChain_cons_cons.mp chain).1
    refine ⟨last, hout, ?_⟩
    rw [data]
    exact .more spec reads

end pages

end Invokr

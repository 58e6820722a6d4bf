import Invokr.Traces

namespace TxLib

variable {M : Model}

theorem Recalls.eval {m m' : Memory M} {o : Op M} {r : o.Reply} (h : Recalls m o r m') :
    ∃ D keys clock foreign env, o.eval D keys clock foreign env m.1 = some (r, m'.1) ∧ m'.2 = m.2 ++ [⟨o, env, r, D⟩] := by
  obtain ⟨w, t, env, w', _, hs, he, rfl⟩ := h
  obtain ⟨_, s, hev, rfl⟩ := World.exec_eq he
  refine ⟨w.rows, w.keys, w.clock, w.foreign t, env, ?_, rfl⟩
  rw [← hs, hev]
  simp

theorem Recalls.extends {m m' : Memory M} {o : Op M} {r : o.Reply} (h : Recalls m o r m') : m.2 <+: m'.2 := by
  obtain ⟨_, _, _, _, _, _, hl⟩ := h.eval
  rw [hl]
  exact List.prefix_append _ _

/-- The call is one to the database, which has rejected it for a reason of its own. -/
def Exchange.faulty (x : Exchange M) : Bool :=
  match x.op with
  | .ext _ | .halt | .rollback => false
  | _ => x.env.fault

/-- The database has rejected some call for a reason of its own. -/
def Harmed (l : List (Exchange M)) : Prop := ∃ x ∈ l, x.faulty = true

theorem harmed_last {l : List (Exchange M)} {x : Exchange M} (h : x.faulty = true) : Harmed (l ++ [x]) :=
  ⟨x, List.mem_append_right _ (List.mem_singleton.mpr rfl), h⟩

/-- These calls have been made since then, and none was rejected. -/
def Adds (ops : List (Op M)) (m m' : Memory M) : Prop :=
  ∃ xs, m'.2 = m.2 ++ xs ∧ xs.map Exchange.op = ops ∧ ∀ x ∈ xs, x.faulty = false

theorem Adds.trans {ops ops' : List (Op M)} {m m' m'' : Memory M} (h : Adds ops m m') (h' : Adds ops' m' m'') :
    Adds (ops ++ ops') m m'' := by
  obtain ⟨xs, hm, rfl, calm⟩ := h
  obtain ⟨ys, hm', rfl, calm'⟩ := h'
  refine ⟨xs ++ ys, by rw [hm', hm, List.append_assoc], List.map_append, fun x hx => ?_⟩
  rcases List.mem_append.mp hx with hx | hx
  · exact calm x hx
  · exact calm' x hx

theorem adds_one {m m' : Memory M} {x : Exchange M} (hm : m'.2 = m.2 ++ [x]) (h : x.faulty = false) : Adds [x.op] m m' :=
  ⟨[x], hm, rfl, fun y hy => by rw [List.mem_singleton.mp hy]; exact h⟩

/-- The thread is between transactions and has made these calls before. -/
def Outside (l : List (Exchange M)) (m : Memory M) : Prop := m.1 = none ∧ l <+: m.2

/-- Every row has its key listed. -/
def Indexed (D : Rows M) (keys : (tb : M.Tbl) → List M.Key) : Prop := ∀ tb k r, D tb k = some r → k ∈ keys tb

section rules

variable {α : Type} {pre : Memory M → Op M → Prop} {m : Memory M} {l : List (Exchange M)}

/-- A program knows at its calls what it knew before. -/
theorem recalls_uses {p : Op M → Prop} {q : Program M α} (hq : q.Uses p)
    (allowed : ∀ m' o, m.2 <+: m'.2 → p o → pre m' o) : q.Holds Recalls pre (fun _ m' => m.2 <+: m'.2) m :=
  hq.holds (P := fun m' : Memory M => m.2 <+: m'.2) (List.prefix_refl _) (fun m' o ho hm => allowed m' o hm ho)
    fun _ _ _ _ _ hm hs => hm.trans hs.extends

theorem recalls_begin {ok : Unit → Memory M → Prop} {err : DbError → Memory M → Prop} (hw : Outside l m)
    (hpre : pre m .begin) (hok : ∀ m' now, m'.1 = some (.start now) → l <+: m'.2 → Adds [.begin] m m' → ok () m')
    (herr : ∀ e m', Outside l m' → Harmed m'.2 → err e m') :
    Tries Recalls pre ok err (beginTx : Try M DbError Unit) m := by
  refine ⟨hpre, fun r m' h => ?_⟩
  have le : l <+: m'.2 := hw.2.trans h.extends
  obtain ⟨D, keys, clock, foreign, env, he, hmade⟩ := h.eval
  rw [hw.1] at he
  simp only [Op.eval] at he
  split at he
  next hf =>
    obtain ⟨rfl, hm⟩ := Prod.mk.inj (Option.some.inj he)
    exact herr _ m' ⟨hm.symm, le⟩ (hmade ▸ harmed_last hf)
  next hf =>
    obtain ⟨rfl, hm⟩ := Prod.mk.inj (Option.some.inj he)
    exact hok m' clock hm.symm le (adds_one hmade (by simpa only [Exchange.faulty, Bool.not_eq_true] using hf))

theorem recalls_query {stmt : M.Stmt} {ok : Snapshot M → Memory M → Prop} {err : DbError → Memory M → Prop}
    {s : Session M} (hs : m.1 = some s) (hl : l <+: m.2) (hpre : pre m (.snapshot stmt))
    (hok : ∀ m' D keys env, m'.1 = some s → l <+: m'.2 → Adds [.snapshot stmt] m m' → Indexed D keys →
      ⟨.snapshot stmt, env, .ok ⟨s.now, s.visible D, keys⟩, D⟩ ∈ m'.2 → ok ⟨s.now, s.visible D, keys⟩ m')
    (herr : ∀ e m', l <+: m'.2 → (s.aborted = false → Harmed m'.2) → err e m') : Tries Recalls pre ok err (query stmt) m := by
  refine ⟨hpre, fun r m' h => ?_⟩
  have le : l <+: m'.2 := hl.trans h.extends
  obtain ⟨w, t, env, w', sound, hw, hex, rfl⟩ := h
  have made : ∀ r, (⟨.snapshot stmt, env, r, w.rows⟩ : Exchange M) ∈ m.2 ++ [⟨.snapshot stmt, env, r, w.rows⟩] :=
    fun r => List.mem_append_right _ (List.mem_singleton.mpr rfl)
  obtain ⟨_, s', he, hw'⟩ := World.exec_eq hex
  have after : w'.sessions t = s' := by simp [hw']
  rw [hw, hs] at he
  simp only [Op.eval, inTx] at he
  split at he
  next ha =>
    obtain ⟨rfl, hm⟩ := Prod.mk.inj (Option.some.inj he)
    exact herr _ _ le fun hn => by rw [hn] at ha; cases ha
  next =>
    split at he
    next hf =>
      obtain ⟨rfl, hm⟩ := Prod.mk.inj (Option.some.inj he)
      exact herr _ _ le fun _ => harmed_last hf
    next hf =>
      obtain ⟨rfl, hm⟩ := Prod.mk.inj (Option.some.inj he)
      have calm : (⟨.snapshot stmt, env, .ok ⟨s.now, s.visible w.rows, w.keys⟩, w.rows⟩ : Exchange M).faulty = false := by
        simpa only [Exchange.faulty, Bool.not_eq_true] using hf
      exact hok _ w.rows w.keys env (after.trans hm.symm) le (adds_one rfl calm)
        (fun tb k r hr => sound.keyed tb k r (Or.inl hr)) (made _)

theorem recalls_insert {stmt : M.Stmt} {tb : M.Tbl} {orIgnore : Bool} {build : M.Fresh → Int → M.Key × M.Row tb}
    {ok : Option (M.Key × M.Row tb) → Memory M → Prop} {err : DbError → Memory M → Prop} {s : Session M}
    (hs : m.1 = some s) (hl : l <+: m.2) (hpre : pre m (.insert stmt tb orIgnore build))
    (hok : ∀ m' D fresh, m'.1 = some (s.write D tb (build fresh s.now).1 (some (build fresh s.now).2)) → l <+: m'.2 →
      ok (some (build fresh s.now)) m')
    (hmiss : ∀ m', l <+: m'.2 → ok none m') (herr : ∀ e m', l <+: m'.2 → err e m') :
    Tries Recalls pre ok err (insert stmt tb orIgnore build) m := by
  refine ⟨hpre, fun r m' h => ?_⟩
  have le : l <+: m'.2 := hl.trans h.extends
  obtain ⟨D, keys, clock, foreign, env, he, _⟩ := h.eval
  rw [hs] at he
  rcases inTx_cases (Option.some.inj he) with ⟨_, e, rfl⟩ | ⟨_, _, _, e, rfl⟩ | ⟨s₀, h₀, _, _, rfl, hm⟩
  · exact herr e m' le
  · exact herr e m' le
  · cases h₀
    revert hm
    simp only [insertRow]
    split
    next => exact fun _ => herr _ m' le
    next =>
      split
      next =>
        split
        next => exact fun _ => hmiss m' le
        next => exact fun _ => herr _ m' le
      next =>
        split
        next => exact fun _ => herr _ m' le
        next => exact fun hm => hok m' D env.fresh hm le

theorem recalls_update {stmt : M.Stmt} {tb : M.Tbl} {k : M.Key} {skip : Bool} {keep : Int → M.Row tb → Bool}
    {patch : Patch M tb} {ok : Option (M.Row tb) → Memory M → Prop} {err : DbError → Memory M → Prop} {s : Session M}
    (hs : m.1 = some s) (hpre : pre m (.update stmt tb k skip keep patch))
    (hhit : ∀ m' D old, s.visible D tb k = some old → keep s.now old = true → s.aborted = false →
      m'.1 = some (s.write D tb k (some (patch.apply s.now old))) → ok (some (patch.apply s.now old)) m')
    (hmiss : ∀ m' s', m'.1 = some s' → s' = s ∨ (∃ D old, s.visible D tb k = some old ∧ s' = s.write D tb k (some old)) →
      ok none m')
    (herr : ∀ e m' s', m'.1 = some s' → s'.aborted = true → err e m') :
    Tries Recalls pre ok err (update stmt tb k skip keep patch) m := by
  refine ⟨hpre, fun r m' h => ?_⟩
  obtain ⟨D, keys, clock, foreign, env, he, _⟩ := h.eval
  rw [hs] at he
  simp only [Op.eval, inTx] at he
  split at he
  next ha =>
    obtain ⟨rfl, hm⟩ := Prod.mk.inj (Option.some.inj he)
    exact herr _ m' s hm.symm ha
  next ha =>
    split at he
    next =>
      obtain ⟨rfl, hm⟩ := Prod.mk.inj (Option.some.inj he)
      exact herr _ m' _ hm.symm rfl
    next =>
      obtain ⟨hr, hm⟩ := Prod.mk.inj (Option.some.inj he)
      revert hr hm
      unfold updateRow
      split
      next =>
        rintro rfl hm
        exact hmiss m' _ hm.symm (Or.inl rfl)
      next =>
        split
        next =>
          rintro rfl hm
          exact hmiss m' _ hm.symm (Or.inl rfl)
        next old hv =>
          split
          next hk =>
            split
            next =>
              rintro rfl hm
              exact herr _ m' _ hm.symm rfl
            next =>
              split
              next =>
                rintro rfl hm
                exact herr _ m' _ hm.symm rfl
              next =>
                rintro rfl hm
                exact hhit m' D old hv hk (by simpa using ha) hm.symm
          next =>
            rintro rfl hm
            exact hmiss m' _ hm.symm (Or.inr ⟨D, old, hv, rfl⟩)

theorem recalls_commit {ok : Unit → Memory M → Prop} {err : DbError → Memory M → Prop} {s : Session M}
    (hs : m.1 = some s) (hl : l <+: m.2) (hpre : pre m .commit)
    (hok : ∀ m', Outside l m' → (s.aborted = false → Adds [.commit] m m') → ok () m')
    (herr : ∀ e m', Outside l m' → Harmed m'.2 → err e m') :
    Tries Recalls pre ok err (commitTx : Try M DbError Unit) m := by
  refine ⟨hpre, fun r m' h => ?_⟩
  have le : l <+: m'.2 := hl.trans h.extends
  obtain ⟨D, keys, clock, foreign, env, he, hmade⟩ := h.eval
  rw [hs] at he
  simp only [Op.eval] at he
  split at he
  next hf =>
    obtain ⟨rfl, hm⟩ := Prod.mk.inj (Option.some.inj he)
    have fault : (⟨.commit, env, .error .rejected, D⟩ : Exchange M).faulty = true := (Bool.and_eq_true_iff.mp hf).2
    exact herr _ m' ⟨hm.symm, le⟩ (hmade ▸ harmed_last fault)
  next hf =>
    obtain ⟨rfl, hm⟩ := Prod.mk.inj (Option.some.inj he)
    refine hok m' ⟨hm.symm, le⟩ fun live => adds_one hmade ?_
    simpa [Exchange.faulty, live] using hf

theorem recalls_rollback {post : Unit → Memory M → Prop} (hl : l <+: m.2) (hpre : pre m .rollback)
    (h : ∀ m', Outside l m' → post () m') : (rollbackTx : Program M Unit).Holds Recalls pre post m := by
  refine ⟨hpre, fun r m' hr => ?_⟩
  have le : l <+: m'.2 := hl.trans hr.extends
  obtain ⟨D, keys, clock, foreign, env, he, _⟩ := hr.eval
  simp only [Op.eval] at he
  obtain ⟨_, hm⟩ := Prod.mk.inj (Option.some.inj he)
  exact h m' ⟨hm.symm, le⟩

/-- No committed row refers to the row. -/
def Unreferenced (D : Rows M) (tb : M.Tbl) (k : M.Key) : Prop := ∀ tb' k' r, D tb' k' = some r → (tb, k) ∉ M.refs tb' k' r

theorem referenced_iff {w : World M} (sound : Sound w) {tb : M.Tbl} {k : M.Key} :
    referenced w.rows w.keys tb k = true ↔ ¬Unreferenced w.rows tb k := by
  constructor
  · intro h free
    simp only [referenced, List.any_eq_true] at h
    obtain ⟨tb', _, k', _, hr⟩ := h
    cases hrow : w.rows tb' k' with
    | none => simp [hrow] at hr
    | some r => exact free tb' k' r hrow (by simpa [hrow] using hr)
  · intro h
    by_contra hn
    refine h fun tb' k' r hrow => ?_
    exact referenced_false (by simpa using hn) (sound.keyed tb' k' r (Or.inl hrow)) hrow

/-- A row deleted at once, outside any transaction. -/
theorem recalls_deleteNow {stmt : M.Stmt} {tb : M.Tbl} {k : M.Key} {ok : Bool → Memory M → Prop}
    {err : DbError → Memory M → Prop} (hw : Outside l m) (hpre : pre m (.deleteNow stmt tb k))
    (hok : ∀ found m' env D, Outside l m' → m'.2 = m.2 ++ [⟨.deleteNow stmt tb k, env, .ok found, D⟩] → Adds [.deleteNow stmt tb k] m m' →
      (D tb k).isSome = found → (found = true → Unreferenced D tb k) → ok found m')
    (herr : ∀ e m' env D, Outside l m' → m'.2 = m.2 ++ [⟨.deleteNow stmt tb k, env, .error e, D⟩] →
      Harmed m'.2 ∨ (Adds [.deleteNow stmt tb k] m m' ∧ (D tb k).isSome = true ∧ ¬Unreferenced D tb k) → err e m') :
    Tries Recalls pre ok err (deleteNow stmt tb k) m := by
  refine ⟨hpre, fun r m' hr => ?_⟩
  have le : l <+: m'.2 := hw.2.trans hr.extends
  obtain ⟨w, t, env, w', sound, hs, he, rfl⟩ := hr
  obtain ⟨_, s, hev, hw'⟩ := World.exec_eq he
  rw [hs, hw.1] at hev
  obtain ⟨hreply, rfl⟩ := Prod.mk.inj (Option.some.inj hev)
  have out : Outside l (w'.sessions t, m.2 ++ [⟨.deleteNow stmt tb k, env, r, w.rows⟩]) := ⟨by simp [hw'], le⟩
  unfold deleteNowReply at hreply
  split at hreply
  next hf =>
    subst hreply
    exact herr _ _ env w.rows out rfl (Or.inl (harmed_last hf))
  next hf =>
    have adds : ∀ r, Adds [.deleteNow stmt tb k] m (w'.sessions t, m.2 ++ [⟨.deleteNow stmt tb k, env, r, w.rows⟩]) := by
      intro r
      have calm : (⟨.deleteNow stmt tb k, env, r, w.rows⟩ : Exchange M).faulty = false := by
        simpa only [Exchange.faulty, Bool.not_eq_true] using hf
      exact adds_one rfl calm
    split at hreply
    next hnone =>
      subst hreply
      refine hok false _ env w.rows out rfl (adds _) ?_ fun h => by cases h
      simpa using hnone
    next hsome =>
      have there : (w.rows tb k).isSome = true := by simpa [Option.isSome_iff_ne_none] using hsome
      split at hreply
      next href =>
        subst hreply
        exact herr _ _ env w.rows out rfl (Or.inr ⟨adds _, there, (referenced_iff sound).mp href⟩)
      next href =>
        subst hreply
        refine hok true _ env w.rows out rfl (adds _) there fun _ => ?_
        by_contra hn
        exact href ((referenced_iff sound).mpr hn)

/-- A call outside the database. -/
theorem recalls_ext {e : M.Ext} {post : M.Answer e → Memory M → Prop} (hw : Outside l m) (hpre : pre m (.ext e))
    (h : ∀ D env m', Outside l m' → m'.2 = m.2 ++ [⟨.ext e, env, env.answer e, D⟩] → post (env.answer e) m') :
    (ext e : Program M (M.Answer e)).Holds Recalls pre post m := by
  refine ⟨hpre, fun r m' hr => ?_⟩
  have le : l <+: m'.2 := hw.2.trans hr.extends
  obtain ⟨D, keys, clock, foreign, env, he, hmade⟩ := hr.eval
  simp only [Op.eval] at he
  obtain ⟨rfl, hm⟩ := Prod.mk.inj (Option.some.inj he)
  exact h D env m' ⟨hm.symm.trans hw.1, le⟩ hmade

/-- The calls of a single `SELECT` outside any transaction. -/
def Reading (stmt : M.Stmt) : Op M → Prop
  | .begin | .commit | .rollback => True
  | .snapshot stmt' => stmt' = stmt
  | _ => False

/-- A single `SELECT` shows the rows that were committed when it was made. -/
theorem recalls_read {stmt : M.Stmt} {f : Snapshot M → α} {ok : α → Memory M → Prop} {err : DbError → Memory M → Prop}
    (hw : Outside l m) (hpre : ∀ m' o, l <+: m'.2 → Reading stmt o → pre m' o)
    (hok : ∀ m' now D keys env, Outside l m' → Adds [.begin, .snapshot stmt, .commit] m m' → Indexed D keys →
      ⟨.snapshot stmt, env, .ok ⟨now, D, keys⟩, D⟩ ∈ m'.2 → ok (f ⟨now, D, keys⟩) m')
    (herr : ∀ e m', Outside l m' → Harmed m'.2 → err e m') :
    Tries Recalls pre ok err (transaction id (do let snap ← query stmt; return f snap)) m := by
  refine tries_transaction (recalls_begin hw (hpre m _ hw.2 trivial) (fun m₁ now hs hl adds₁ => ?_) herr)
  refine tries_bind (recalls_query hs hl (hpre m₁ _ hl rfl) (fun m₂ D keys env hs₂ hl₂ adds₂ keyed hmade => ?_)
    fun e m₂ hl₂ harmed => ?_)
  · refine tries_pure (recalls_commit hs₂ (List.prefix_refl _) (hpre m₂ _ hl₂ trivial) (fun m₃ h₃ adds₃ => ?_)
      fun e m₃ h₃ hm₃ => ?_)
    · exact hok m₃ now D keys env ⟨h₃.1, hl₂.trans h₃.2⟩ ((adds₁.trans adds₂).trans (adds₃ rfl)) keyed (h₃.2.subset hmade)
    · exact herr e m₃ ⟨h₃.1, hl₂.trans h₃.2⟩ hm₃
  · refine recalls_rollback (List.prefix_refl _) (hpre m₂ _ hl₂ trivial) fun m₃ h₃ => ?_
    obtain ⟨x, hx, hf⟩ := harmed rfl
    exact herr e m₃ ⟨h₃.1, hl₂.trans h₃.2⟩ ⟨x, h₃.2.subset hx, hf⟩

/-- The calls that a program adds to what the thread remembers. -/
theorem holds_only {p : Program M α} {post : α → Memory M → Prop} {q : Op M → Prop} (h : p.Holds Recalls pre post m)
    (only : ∀ m o, pre m o → q o) :
    p.Holds Recalls pre (fun a m' => post a m' ∧ ∀ x ∈ m'.2, x ∈ m.2 ∨ q x.op) m := by
  induction p generalizing m with
  | ret a => exact ⟨h, fun x hx => Or.inl hx⟩
  | call o next ih =>
    refine ⟨h.1, fun r m' hr => (ih r (h.2 r m' hr)).mono fun a m'' hm => ⟨hm.1, fun x hx => ?_⟩⟩
    rcases hm.2 x hx with hx | hx
    · obtain ⟨D, _, _, _, env, _, hm'⟩ := hr.eval
      rw [hm'] at hx
      rcases List.mem_append.mp hx with hx | hx
      · exact Or.inl hx
      · rw [List.mem_singleton.mp hx]
        exact Or.inr (only m o h.1)
    · exact Or.inr hx

end rules

end TxLib

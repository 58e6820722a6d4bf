import Invokr.StoreSound

namespace TxLib

variable {M : Model}

def World.after (w : World M) (t : Nat) (s : Option (Session M)) (rows : Rows M)
    (keys : (tb : M.Tbl) → List M.Key) (log : List (Nat × Entry M)) : World M :=
  ⟨w.clock, rows, keys, World.relock w.locks t s, Function.update w.sessions t s, log⟩

section after

variable {w : World M} {t : Nat} {s : Option (Session M)} {rows : Rows M}
  {keys : (tb : M.Tbl) → List M.Key} {log : List (Nat × Entry M)}

theorem after_sessions {u : Nat} {s₁ : Session M}
    (h : (w.after t s rows keys log).sessions u = some s₁) :
    (u = t ∧ s = some s₁) ∨ (u ≠ t ∧ w.sessions u = some s₁) := by
  by_cases hu : u = t
  · subst hu
    exact Or.inl ⟨rfl, by simpa [World.after] using h⟩
  · exact Or.inr ⟨hu, by simpa [World.after, Function.update_of_ne hu] using h⟩

theorem World.visible_version {u : Nat} {s₁ : Session M} (hs : w.sessions u = some s₁)
    {tb : M.Tbl} {k : M.Key} {r : M.Row tb} (hv : s₁.visible w.rows tb k = some r) : w.Version tb k r := by
  unfold Session.visible at hv
  split at hv
  next h hh => exact Or.inr ⟨u, s₁, h, hs, hh, hv⟩
  next => exact Or.inl hv

theorem Sound.visible_refs (sound : Sound w) {u : Nat} {s₁ : Session M} (hs : w.sessions u = some s₁)
    {tb : M.Tbl} {k : M.Key} (hp : M.plain tb = false) (h : (w.rows tb k).isSome) :
    (s₁.visible w.rows tb k).isSome := by
  unfold Session.visible
  split
  next hd hh =>
    obtain ⟨r, hr⟩ := sound.kept u s₁ tb k hd hs hh hp
    simp [hr]
  next => exact h

theorem refsVisible_mono {D D' : Rows M} {tb : M.Tbl} {k : M.Key} {r : M.Row tb}
    (h : refsVisible D tb k r = true)
    (more : ∀ ref ∈ M.refs tb k r, M.plain ref.1 = false → (D ref.1 ref.2).isSome → (D' ref.1 ref.2).isSome) :
    refsVisible D' tb k r = true := by
  unfold refsVisible at *
  rw [List.all_eq_true] at *
  intro ref hr
  exact more ref hr (M.refs_plain tb k r ref hr) (h ref hr)

/-- The references of what a statement writes are visible to its transaction. -/
theorem Sound.writes_refs (sound : Sound w) {s₁ : Session M} (hs : w.sessions t = some s₁) {tb : M.Tbl}
    {k : M.Key} {r : M.Row tb} (h : Writes w t s₁ tb k (some r)) :
    refsVisible (s₁.visible w.rows) tb k r = true := by
  cases h with
  | patch _ _ hr => exact hr
  | lock hv =>
    unfold Session.visible at hv
    split at hv
    next hd hh => exact sound.refsNew t s₁ tb k hd r hs hh hv
    next =>
      exact refsVisible_mono (sound.refs tb k r hv) fun ref _ hp h => sound.visible_refs hs hp h
  | insert _ _ hr => exact hr
  | plain hp => simp [refsVisible, M.plain_refs tb k r hp]

/-- A version after a move is one from before, one with the same index value, or a new row that
collides with nothing. -/
theorem Move.version_after (m : Move w t keys (w.sessions t) s rows) {tb : M.Tbl}
    {k : M.Key} {r : M.Row tb} (h : (w.after t s rows keys log).Version tb k r) :
    (∃ r₀, w.Version tb k r₀ ∧ M.unique tb k r = M.unique tb k r₀) ∨ M.unique tb k r = none ∨
      ∃ s₁ : Session M, w.sessions t = some s₁ ∧ s = some (s₁.write w.rows tb k (some r)) ∧
        clash w.rows w.keys s₁ tb k r = false ∧ ∀ k' ∈ w.keys tb, w.foreign t tb k' = true → collides tb k r k' (w.pending tb k') = false := by
  rcases h with hrow | ⟨u, s₁, hd, hs₁, hh, hr⟩
  · change rows tb k = some r at hrow
    generalize hc : w.sessions t = cur at m
    cases m with
    | @commit s₀ ha => exact Or.inl ⟨r, World.visible_version hc hrow, rfl⟩
    | @remove tb' k' _ _ _ =>
      rcases setAt_cases w.rows tb' k' none tb k with ⟨e, rfl, he⟩ | ⟨_, he⟩
      · subst e
        simp at hrow
      · exact Or.inl ⟨r, Or.inl (he ▸ hrow), rfl⟩
    | _ => exact Or.inl ⟨r, Or.inl hrow, rfl⟩
  · rcases after_sessions hs₁ with ⟨rfl, hs⟩ | ⟨_, hs⟩
    · generalize hc : w.sessions u = cur at m
      cases m with
      | stay => exact Or.inl ⟨r, Or.inr ⟨u, s₁, hd, hc.trans hs, hh, hr⟩, rfl⟩
      | start => cases hs; simp at hh
      | fail => cases hs; simp at hh
      | @write s₀ tb' k' v ha hf hw hk =>
        cases hs
        rcases Session.write_held_cases hh with ⟨rfl, rfl, rfl⟩ | hold
        · simp only at hr
          subst hr
          cases hw with
          | @patch old new hv hu _ => exact Or.inl ⟨old, World.visible_version hc hv, hu⟩
          | lock hv => exact Or.inl ⟨r, World.visible_version hc hv, rfl⟩
          | insert hcl hp _ => exact Or.inr (Or.inr ⟨s₀, rfl, rfl, hcl, hp⟩)
          | plain hp => exact Or.inr (Or.inl (M.plain_unique _ _ _ hp))
        · exact Or.inl ⟨r, Or.inr ⟨u, s₀, hd, hc, hold, hr⟩, rfl⟩
      | close => cases hs
      | commit => cases hs
      | remove => cases hs
    · exact Or.inl ⟨r, Or.inr ⟨u, s₁, hd, hs, hh, hr⟩, rfl⟩

theorem collides_of_unique {tb : M.Tbl} {k k' : M.Key} {r r' : M.Row tb}
    (hu : M.unique tb k r = M.unique tb k' r') (hne : M.unique tb k r ≠ none) :
    collides tb k r k' (some r') = true := by
  have hsome : (M.unique tb k r).isSome = true := Option.isSome_iff_ne_none.mpr hne
  simp only [collides, hsome, Bool.true_and, Bool.or_eq_true, decide_eq_true_eq]
  exact Or.inr hu.symm

/-- A row that a statement may insert shares its index value with no version of another row. -/
theorem Sound.insert_distinct (sound : Sound w) {s₁ : Session M} (hs : w.sessions t = some s₁) {tb : M.Tbl}
    {k k' : M.Key} {r r' : M.Row tb} (hcl : clash w.rows w.keys s₁ tb k r = false)
    (hp : ∀ k' ∈ w.keys tb, w.foreign t tb k' = true → collides tb k r k' (w.pending tb k') = false)
    (hv : w.Version tb k' r') (hu : M.unique tb k r = M.unique tb k' r') : M.unique tb k r = none := by
  by_contra hne
  have hyes := collides_of_unique hu hne
  have hmem := sound.keyed tb k' r' hv
  have hc := List.any_eq_false.mp hcl k' hmem
  simp only [Bool.or_eq_true, not_or, Bool.not_eq_true] at hc
  rcases hv with hrow | ⟨u, s₂, hd, hs₂, hh, hr⟩
  · rw [hrow, hyes] at hc
    exact Bool.noConfusion hc.1
  · by_cases hut : u = t
    · subst hut
      have he : s₂ = s₁ := Option.some.inj (hs₂.symm.trans hs)
      subst he
      have hvis : s₂.visible w.rows tb k' = some r' := by simp [Session.visible, hh, hr]
      rw [hvis, hyes] at hc
      exact Bool.noConfusion hc.2
    · have hf : w.foreign t tb k' = true :=
        World.foreign_iff.mpr ⟨u, hut, (sound.held u s₂ tb k' hd hs₂ hh).1⟩
      have hno := hp k' hmem hf
      rw [sound.pending.mpr ⟨u, s₂, hd, hs₂, hh, hr⟩, hyes] at hno
      exact Bool.noConfusion hno

theorem Sound.unique_after (sound : Sound w) (m : Move w t keys (w.sessions t) s rows) {tb : M.Tbl}
    {k k' : M.Key} {r r' : M.Row tb} (h : (w.after t s rows keys log).Version tb k r)
    (h' : (w.after t s rows keys log).Version tb k' r') (hu : M.unique tb k r = M.unique tb k' r')
    (hne : M.unique tb k r ≠ none) : k = k' := by
  rcases m.version_after h with ⟨r₀, hv, he⟩ | he | ⟨s₁, hs, hw, hcl, hp⟩
  · rcases m.version_after h' with ⟨r₀', hv', he'⟩ | he' | ⟨s₁', hs', _, hcl', hp'⟩
    · exact sound.unique tb k k' r₀ r₀' hv hv' (by rw [← he, ← he', hu]) (he ▸ hne)
    · exact absurd (hu.trans he') hne
    · have := sound.insert_distinct hs' hcl' hp' hv (by rw [← hu, he])
      exact absurd (hu.trans this) hne
  · exact absurd he hne
  · rcases m.version_after h' with ⟨r₀', hv', he'⟩ | he' | ⟨s₁', hs', hw', _, _⟩
    · exact absurd (sound.insert_distinct hs hcl hp hv' (by rw [hu, he'])) hne
    · exact absurd (hu.trans he') hne
    · by_contra hk
      have he : s₁' = s₁ := Option.some.inj (hs'.symm.trans hs)
      subst he
      have hsame := congrArg (fun x : Session M => x.held tb k') (Option.some.inj (hw.symm.trans hw'))
      simp only [Session.write_held_same, Session.write_held_key _ _ _ (Ne.symm hk)] at hsame
      have hv' : w.Version tb k' r' := Or.inr ⟨t, s₁', _, hs, hsame, rfl⟩
      exact hne (sound.insert_distinct hs hcl hp hv' hu)

theorem Sound.held_after (sound : Sound w) (m : Move w t keys (w.sessions t) s rows) {u : Nat}
    {s₁ : Session M} {tb : M.Tbl} {k : M.Key} {h : Held (M.Row tb)}
    (open₁ : (w.after t s rows keys log).sessions u = some s₁) (hh : s₁.held tb k = some h) :
    (w.after t s rows keys log).locks tb k = some u ∧ rows tb k = h.base := by
  rcases after_sessions open₁ with ⟨rfl, hs⟩ | ⟨hu, hs⟩
  · refine ⟨?_, m.held_base sound hs hh⟩
    simp [World.after, World.relock, hs, hh]
  · obtain ⟨hl, hb⟩ := sound.held u s₁ tb k h hs hh
    have hf : w.foreign t tb k = true := World.foreign_iff.mpr ⟨u, hu, hl⟩
    refine ⟨?_, (m.rows_foreign sound hf).trans hb⟩
    have hno : ¬(s.bind fun s => s.held tb k).isSome = true := by
      intro hsome
      obtain ⟨h₂, hb₂⟩ := Option.isSome_iff_exists.mp hsome
      obtain ⟨s₂, hs₂, hh₂⟩ := Option.bind_eq_some_iff.mp hb₂
      rcases m.held_before hs₂ hh₂ with ⟨s₀, h₀, hs₀, hh₀⟩ | hfree
      · have := (sound.held t s₀ tb k h₀ hs₀ hh₀).1
        rw [hl] at this
        exact hu (Option.some.inj this)
      · rw [hf] at hfree
        cases hfree
    have hne : w.locks tb k ≠ some t := by rw [hl]; simpa using hu
    simp only [World.after, World.relock, if_neg hno, if_neg hne]
    exact hl

theorem Sound.locked_after (sound : Sound w) {tb : M.Tbl} {k : M.Key} {u : Nat}
    (hl : (w.after t s rows keys log).locks tb k = some u) :
    ∃ s₁ h, (w.after t s rows keys log).sessions u = some s₁ ∧ s₁.held tb k = some h := by
  simp only [World.after, World.relock] at hl ⊢
  split at hl
  next hsome =>
    have hu := Option.some.inj hl
    subst hu
    obtain ⟨h, hb⟩ := Option.isSome_iff_exists.mp hsome
    obtain ⟨s₁, hs, hh⟩ := Option.bind_eq_some_iff.mp hb
    exact ⟨s₁, h, by simpa using hs, hh⟩
  next =>
    split at hl
    next => cases hl
    next hne =>
      have hu : u ≠ t := fun he => hne (he ▸ hl)
      obtain ⟨s₁, h, hs, hh⟩ := sound.locked tb k u hl
      exact ⟨s₁, h, by simpa [Function.update_of_ne hu] using hs, hh⟩

theorem Sound.kept_after (sound : Sound w) (m : Move w t keys (w.sessions t) s rows) {u : Nat}
    {s₁ : Session M} {tb : M.Tbl} {k : M.Key} {h : Held (M.Row tb)}
    (open₁ : (w.after t s rows keys log).sessions u = some s₁) (hh : s₁.held tb k = some h)
    (hp : M.plain tb = false) : ∃ r, h.new = some r := by
  rcases after_sessions open₁ with ⟨rfl, hs⟩ | ⟨_, hs⟩
  · generalize hc : w.sessions u = cur at m
    cases m with
    | stay => exact sound.kept u s₁ tb k h (hc.trans hs) hh hp
    | start => cases hs; simp at hh
    | fail => cases hs; simp at hh
    | @write s₀ tb' k' v ha hf hw hk =>
      cases hs
      rcases Session.write_held_cases hh with ⟨rfl, rfl, rfl⟩ | hold
      · cases hw with
        | plain hp' => rw [hp] at hp'; cases hp'
        | _ => exact ⟨_, rfl⟩
      · exact sound.kept u s₀ tb k h hc hold hp
    | close => cases hs
    | commit => cases hs
    | remove => cases hs
  · exact sound.kept u s₁ tb k h hs hh hp

theorem Sound.keyed_after (sound : Sound w) (m : Move w t keys (w.sessions t) s rows)
    (grow : ∀ tb k, k ∈ w.keys tb → k ∈ keys tb) {tb : M.Tbl} {k : M.Key} {r : M.Row tb}
    (h : (w.after t s rows keys log).Version tb k r) : k ∈ keys tb := by
  rcases h with hrow | ⟨u, s₁, hd, hs₁, hh, hr⟩
  · change rows tb k = some r at hrow
    generalize hc : w.sessions t = cur at m
    cases m with
    | commit ha => exact grow tb k (sound.keyed tb k r (World.visible_version hc hrow))
    | @remove tb' k' _ _ _ =>
      rcases setAt_cases w.rows tb' k' none tb k with ⟨e, rfl, he⟩ | ⟨_, he⟩
      · subst e
        simp at hrow
      · exact grow tb k (sound.keyed tb k r (Or.inl (he ▸ hrow)))
    | _ => exact grow tb k (sound.keyed tb k r (Or.inl hrow))
  · rcases after_sessions hs₁ with ⟨rfl, hs⟩ | ⟨_, hs⟩
    · generalize hc : w.sessions u = cur at m
      cases m with
      | stay => exact grow tb k (sound.keyed tb k r (Or.inr ⟨u, s₁, hd, hc.trans hs, hh, hr⟩))
      | start => cases hs; simp at hh
      | fail => cases hs; simp at hh
      | @write s₀ tb' k' v ha hf hw hk =>
        cases hs
        rcases Session.write_held_cases hh with ⟨rfl, rfl, rfl⟩ | hold
        · simp only at hr
          rcases hk (by simp [hr]) with hk | hv
          · exact hk
          · obtain ⟨r₀, hr₀⟩ := Option.isSome_iff_exists.mp hv
            exact grow _ _ (sound.keyed _ _ r₀ (World.visible_version hc hr₀))
        · exact grow tb k (sound.keyed tb k r (Or.inr ⟨u, s₀, hd, hc, hold, hr⟩))
      | close => cases hs
      | commit => cases hs
      | remove => cases hs
    · exact grow tb k (sound.keyed tb k r (Or.inr ⟨u, s₁, hd, hs, hh, hr⟩))

theorem Sound.stored_after (sound : Sound w) (m : Move w t keys (w.sessions t) s rows) {tb : M.Tbl}
    {k : M.Key} {r : M.Row tb} (h : (w.after t s rows keys log).Version tb k r) : M.storable tb r = true := by
  rcases h with hrow | ⟨u, s₁, hd, hs₁, hh, hr⟩
  · change rows tb k = some r at hrow
    generalize hc : w.sessions t = cur at m
    cases m with
    | commit ha => exact sound.stored tb k r (World.visible_version hc hrow)
    | @remove tb' k' _ _ _ =>
      rcases setAt_cases w.rows tb' k' none tb k with ⟨e, rfl, he⟩ | ⟨_, he⟩
      · subst e
        simp at hrow
      · exact sound.stored tb k r (Or.inl (he ▸ hrow))
    | _ => exact sound.stored tb k r (Or.inl hrow)
  · rcases after_sessions hs₁ with ⟨rfl, hs⟩ | ⟨_, hs⟩
    · generalize hc : w.sessions u = cur at m
      cases m with
      | stay => exact sound.stored tb k r (Or.inr ⟨u, s₁, hd, hc.trans hs, hh, hr⟩)
      | start => cases hs; simp at hh
      | fail => cases hs; simp at hh
      | @write s₀ tb' k' v ha hf hw hk hst =>
        cases hs
        rcases Session.write_held_cases hh with ⟨rfl, rfl, rfl⟩ | hold
        · simp only at hr
          rcases hst r hr with hst | hv
          · exact hst
          · exact sound.stored _ _ r (World.visible_version hc hv)
        · exact sound.stored tb k r (Or.inr ⟨u, s₀, hd, hc, hold, hr⟩)
      | close => cases hs
      | commit => cases hs
      | remove => cases hs
    · exact sound.stored tb k r (Or.inr ⟨u, s₁, hd, hs, hh, hr⟩)

theorem referenced_false {D : Rows M} {ks : (tb : M.Tbl) → List M.Key} {tb : M.Tbl} {k : M.Key}
    (h : referenced D ks tb k = false) {tb' : M.Tbl} {k' : M.Key} {r : M.Row tb'} (hk : k' ∈ ks tb')
    (hr : D tb' k' = some r) : (tb, k) ∉ M.refs tb' k' r := by
  have h₁ := List.any_eq_false.mp h tb' (M.mem_tables tb')
  simp only [List.any_eq_true, not_exists, not_and] at h₁
  simpa [hr] using h₁ k' hk

/-- A row that is referred to stays: only plain tables lose rows in a transaction, and a row is
removed outside one only while nothing refers to it. -/
theorem Sound.target_after (sound : Sound w) (m : Move w t keys (w.sessions t) s rows) {tb : M.Tbl}
    {k : M.Key} {r : M.Row tb} (hv : w.Version tb k r) {ref : M.Tbl × M.Key} (hr : ref ∈ M.refs tb k r)
    (h : (w.rows ref.1 ref.2).isSome) : (rows ref.1 ref.2).isSome := by
  generalize hc : w.sessions t = cur at m
  cases m with
  | commit ha => exact sound.visible_refs hc (M.refs_plain tb k r ref hr) h
  | @remove tb' k' _ href hp =>
    rcases setAt_cases w.rows tb' k' none ref.1 ref.2 with ⟨e, hk, _⟩ | ⟨_, he⟩
    · have hmem := sound.keyed tb k r hv
      have hin : (tb', k') ∈ M.refs tb k r := by rw [← e, ← hk]; exact hr
      rcases hv with hrow | hun
      · exact absurd hin (referenced_false href hmem hrow)
      · exact absurd hin (hp tb k hmem r (sound.pending.mpr hun))
    · rw [he]
      exact h
  | _ => exact h

theorem Sound.refs_after (sound : Sound w) (m : Move w t keys (w.sessions t) s rows) {tb : M.Tbl}
    {k : M.Key} {r : M.Row tb} (hrow : rows tb k = some r) : refsVisible rows tb k r = true := by
  have keep : w.rows tb k = some r → refsVisible rows tb k r = true := fun h =>
    refsVisible_mono (sound.refs tb k r h) fun ref hr _ h' => sound.target_after m (Or.inl h) hr h'
  generalize hc : w.sessions t = cur at m
  cases m with
  | @commit s₀ ha =>
    unfold Session.visible at hrow
    split at hrow
    next hd hh => exact sound.refsNew t s₀ tb k hd r hc hh hrow
    next => exact keep hrow
  | @remove tb' k' _ _ _ =>
    rcases setAt_cases w.rows tb' k' none tb k with ⟨e, rfl, he⟩ | ⟨_, he⟩
    · subst e
      simp at hrow
    · exact keep (he ▸ hrow)
  | _ => exact keep hrow

theorem Sound.refsNew_after (sound : Sound w) (m : Move w t keys (w.sessions t) s rows) {u : Nat}
    {s₁ : Session M} {tb : M.Tbl} {k : M.Key} {h : Held (M.Row tb)} {r : M.Row tb}
    (open₁ : (w.after t s rows keys log).sessions u = some s₁) (hh : s₁.held tb k = some h)
    (hr : h.new = some r) : refsVisible (s₁.visible rows) tb k r = true := by
  rcases after_sessions open₁ with ⟨rfl, hs⟩ | ⟨_, hs⟩
  · generalize hc : w.sessions u = cur at m
    cases m with
    | stay => exact sound.refsNew u s₁ tb k h r (hc.trans hs) hh hr
    | start => cases hs; simp at hh
    | fail => cases hs; simp at hh
    | @write s₀ tb' k' v ha hf hw hk =>
      cases hs
      have wider : ∀ ref : M.Tbl × M.Key, M.plain ref.1 = false → (s₀.visible w.rows ref.1 ref.2).isSome →
          ((s₀.write w.rows tb' k' v).visible w.rows ref.1 ref.2).isSome := by
        intro ref hp hsome
        by_cases ht : ref.1 = tb'
        · by_cases hk' : ref.2 = k'
          · obtain ⟨rt, rk⟩ := ref
            simp only at ht hk' hp
            subst ht hk'
            cases hw with
            | plain hp' => rw [hp] at hp'; cases hp'
            | _ => simp
          · obtain ⟨rt, rk⟩ := ref
            simp only at ht hk'
            subst ht
            simpa [Session.write_visible_key _ _ _ hk'] using hsome
        · simpa [Session.write_visible_tbl _ _ _ ht] using hsome
      rcases Session.write_held_cases hh with ⟨rfl, rfl, rfl⟩ | hold
      · simp only at hr
        subst hr
        exact refsVisible_mono (sound.writes_refs hc hw) fun ref _ hp h' => wider ref hp h'
      · exact refsVisible_mono (sound.refsNew u s₀ tb k h r hc hold hr) fun ref _ hp h' => wider ref hp h'
    | close => cases hs
    | commit => cases hs
    | remove => cases hs
  · have hv : w.Version tb k r := Or.inr ⟨u, s₁, h, hs, hh, hr⟩
    refine refsVisible_mono (sound.refsNew u s₁ tb k h r hs hh hr) fun ref hin hp hsome => ?_
    unfold Session.visible at hsome ⊢
    split
    next hd hhd => simpa [hhd] using hsome
    next hno => exact sound.target_after m hv hin (by simpa [hno] using hsome)

/-- Every move keeps the store sound. -/
theorem Sound.after (sound : Sound w) (log : List (Nat × Entry M)) (m : Move w t keys (w.sessions t) s rows)
    (grow : ∀ tb k, k ∈ w.keys tb → k ∈ keys tb) : Sound (w.after t s rows keys log) where
  held _ _ _ _ _ hs hh := sound.held_after m hs hh
  locked _ _ _ hl := sound.locked_after hl
  kept _ _ _ _ _ hs hh hp := sound.kept_after m hs hh hp
  keyed _ _ _ h := sound.keyed_after m grow h
  stored _ _ _ h := sound.stored_after m h
  refs _ _ _ h := sound.refs_after m h
  refsNew _ _ _ _ _ _ hs hh hr := sound.refsNew_after m hs hh hr
  unique _ _ _ _ _ h h' hu hne := sound.unique_after m h h' hu hne

end after

theorem Sound.exec {w w' : World M} (sound : Sound w) {t : Nat} {o : Op M} {env : Env M} {r : o.Reply}
    (h : w.exec t o env = some (w', r)) : Move w t w'.keys (w.sessions t) (w'.sessions t) w'.rows ∧ Sound w' := by
  have m := World.exec_move h fun _ _ => sound.foreign_pending
  refine ⟨m, ?_⟩
  obtain ⟨_, s, _, hw⟩ := World.exec_eq h
  have hs : w'.sessions t = s := by simp [hw]
  rw [hs] at m
  have := sound.after w'.log m fun tb k hk => by rw [hw]; exact keysAfter_subset o _ _ _ hk
  rw [hw] at this ⊢
  exact this

theorem Sound.kill {w : World M} (sound : Sound w) (t : Nat) : Sound (w.kill t) := by
  have m : Move w t w.keys (w.sessions t) none w.rows := by
    cases h : w.sessions t with
    | none => exact .stay _
    | some s => exact .close s
  exact sound.after (w.kill t).log m fun _ _ h => h

theorem Sound.tick {w : World M} (sound : Sound w) (now : Int) : Sound { w with clock := now } where
  held := sound.held
  locked := sound.locked
  kept := sound.kept
  keyed := sound.keyed
  stored := sound.stored
  refs := sound.refs
  refsNew := sound.refsNew
  unique := sound.unique

end TxLib

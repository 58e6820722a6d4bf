import Invokr.TemplateMeaning

namespace Invokr

open TextLib

section trim

variable {s a b r : List Char} {c : Char}

theorem dropWhile_stop (hc : isWhitespace c = false) :
    (a ++ c :: r).dropWhile isWhitespace = a.dropWhile isWhitespace ++ c :: r := by
  induction a with
  | nil => simp [hc]
  | cons x a ih =>
    cases hx : isWhitespace x with
    | true => simp [hx, ih]
    | false => simp [hx]

/-- `str::trim_end`. -/
def trimEnd (s : List Char) : List Char := (s.reverse.dropWhile isWhitespace).reverse

theorem trimEnd_stop (hc : isWhitespace c = false) : trimEnd (a ++ c :: r) = a ++ c :: trimEnd r := by
  have hrev : (a ++ c :: r).reverse = r.reverse ++ c :: a.reverse := by simp
  rw [trimEnd, trimEnd, hrev, dropWhile_stop hc]
  simp

theorem trimEnd_front (s : List Char) : trimEnd s <+: s := by
  have h : (s.reverse.dropWhile isWhitespace).reverse <+: s.reverse.reverse :=
    List.reverse_prefix.mpr (List.dropWhile_suffix isWhitespace)
  rw [List.reverse_reverse] at h
  exact h

theorem trim_stop (hc : isWhitespace c = false) :
    trim (a ++ c :: r) = a.dropWhile isWhitespace ++ c :: trimEnd r := by
  change trimEnd ((a ++ c :: r).dropWhile isWhitespace) = _
  rw [dropWhile_stop hc, trimEnd_stop hc]

theorem whitespace_takeWhile : ∀ c ∈ s.takeWhile isWhitespace, isWhitespace c = true := by
  induction s with
  | nil =>
    intro c hc
    cases hc
  | cons x s ih =>
    cases hx : isWhitespace x with
    | true => simpa [hx] using ih
    | false => simp [hx]

/-- What `trim` removes is nothing but blanks. -/
theorem trim_parts (s : List Char) :
    ∃ left right, s = left ++ (trim s ++ right) ∧ (∀ c ∈ left, isWhitespace c = true) ∧ ∀ c ∈ right, isWhitespace c = true := by
  have hleft := (List.takeWhile_append_dropWhile (p := isWhitespace) (l := s)).symm
  have hright := (List.takeWhile_append_dropWhile (p := isWhitespace) (l := (s.dropWhile isWhitespace).reverse)).symm
  refine ⟨s.takeWhile isWhitespace, ((s.dropWhile isWhitespace).reverse.takeWhile isWhitespace).reverse, ?_,
    whitespace_takeWhile, fun c hc => whitespace_takeWhile c (List.mem_reverse.mp hc)⟩
  have hback : s.dropWhile isWhitespace =
      trim s ++ ((s.dropWhile isWhitespace).reverse.takeWhile isWhitespace).reverse := by
    have h := congrArg List.reverse hright
    rw [List.reverse_reverse, List.reverse_append] at h
    exact h
  rw [← hback]
  exact hleft

theorem brace_visible {c : Char} (h : c = '\x7b' ∨ c = '\x7d') : isWhitespace c = false := by
  rcases h with rfl | rfl <;> decide

theorem openMark_visible : ∀ c ∈ openMark, isWhitespace c = false := by
  intro c hc
  refine brace_visible (Or.inl ?_)
  simpa [openMark] using hc

/-- A brace that a blank-free pattern starts with is not in the blanks around a text. -/
theorem avoids_trim {p : Char} {pat : List Char} (hp : isWhitespace p = false) (hx : ∀ c ∈ p :: pat, isWhitespace c = false)
    (h : Avoids (p :: pat) (trim s) []) : Avoids (p :: pat) s [] := by
  obtain ⟨left, right, hs, hleft, hright⟩ := trim_parts s
  have blank : ∀ l : List Char, (∀ c ∈ l, isWhitespace c = true) → p ∉ l := by
    intro l hl hmem
    rw [hl p hmem] at hp
    cases hp
  rw [hs]
  refine avoids_append.mpr ⟨avoids_head (blank left hleft), avoids_append.mpr ⟨?_, avoids_head (blank right hright)⟩⟩
  rw [List.append_nil]
  cases right with
  | nil => exact h
  | cons c right =>
    have hc : c ∉ p :: pat := by
      intro hmem
      have := hright c List.mem_cons_self
      rw [hx c hmem] at this
      cases this
    exact (avoids_stop hc).mpr h

end trim

def namespaces : List String := ["input.", "config.", "secret.", "execution."]

section names

variable {scope : Scope} {pat key : String} {var : List Char}

theorem stripPrefix_append (pat key : String) : stripPrefix pat (pat ++ key).toList = some key := by
  have hp : pat.toList.isPrefixOf (pat ++ key).toList = true := by
    rw [String.toList_append]
    exact List.isPrefixOf_iff_prefix.mpr (List.prefix_append _ _)
  rw [stripPrefix, if_pos hp, String.toList_append, ← String.length_toList, List.drop_left, String.ofList_toList]

theorem stripPrefix_none : stripPrefix pat var = none ↔ ¬pat.toList <+: var := by
  rw [stripPrefix, ← List.isPrefixOf_iff_prefix]
  split
  next h => simp [h]
  next h => simp [h]

theorem resolveVariable_unknown (scope : Scope) (h : ∀ pat ∈ namespaces, stripPrefix pat var = none) :
    ∃ e, resolveVariable scope var = .error e := by
  have h₁ := h "input." (by decide)
  have h₂ := h "config." (by decide)
  have h₃ := h "secret." (by decide)
  have h₄ := h "execution." (by decide)
  simp only [resolveVariable, h₁, h₂, h₃, h₄]
  exact ⟨_, rfl⟩

theorem other_namespace (pat pat' key : String) (h : ¬pat'.toList <+: pat.toList) (h' : ¬pat.toList <+: pat'.toList) :
    stripPrefix pat' (pat ++ key).toList = none := by
  rw [stripPrefix_none, String.toList_append]
  intro hp
  rcases List.prefix_or_prefix_of_prefix hp (List.prefix_append pat.toList key.toList) with hle | hle
  · exact h hle
  · exact h' hle

/-- A scope in which one variable of a namespace has a value and another of it has not. -/
theorem scope_between {key' : String} (hpat : pat ∈ namespaces) (hne : key ≠ key') :
    ∃ scope, (∃ v, resolveVariable scope (pat ++ key').toList = .ok v) ∧ ∃ e, resolveVariable scope (pat ++ key).toList = .error e := by
  have miss : ∀ {β : Type} (v : β), [(key', v)].lookup key = none := by
    intro β v
    have hb : (key == key') = false := by simp [hne]
    simp [List.lookup_cons, hb]
  have hit : ∀ {β : Type} (v : β), [(key', v)].lookup key' = some v := by simp
  have own := fun key => stripPrefix_append pat key
  simp only [namespaces, List.mem_cons, List.not_mem_nil, or_false] at hpat
  rcases hpat with rfl | rfl | rfl | rfl
  · refine ⟨⟨[(key', .null)], [], [], []⟩, ?_⟩
    simp only [resolveVariable, own, hit, miss]
    exact ⟨⟨_, rfl⟩, _, rfl⟩
  · have other := fun key => other_namespace "config." "input." key (by decide) (by decide)
    refine ⟨⟨[], [(key', .null)], [], []⟩, ?_⟩
    simp only [resolveVariable, own, other, hit, miss]
    exact ⟨⟨_, rfl⟩, _, rfl⟩
  · have other := fun key => other_namespace "secret." "input." key (by decide) (by decide)
    have other' := fun key => other_namespace "secret." "config." key (by decide) (by decide)
    refine ⟨⟨[], [], [(key', "")], []⟩, ?_⟩
    simp only [resolveVariable, own, other, other', hit, miss]
    exact ⟨⟨_, rfl⟩, _, rfl⟩
  · have other := fun key => other_namespace "execution." "input." key (by decide) (by decide)
    have other' := fun key => other_namespace "execution." "config." key (by decide) (by decide)
    have other'' := fun key => other_namespace "execution." "secret." key (by decide) (by decide)
    refine ⟨⟨[], [], [], [(key', .null)]⟩, ?_⟩
    simp only [resolveVariable, own, other, other', other'', hit, miss]
    exact ⟨⟨_, rfl⟩, _, rfl⟩

end names

/-- The fast path, which looks up `inner`, agrees with the loop run on the trimmed text. -/
def FastAgrees (scope : Scope) (s inner : List Char) : Prop :=
  ((∃ v, resolveVariable scope inner = .ok v) ↔ ∃ text, interpolate scope (trim s).length (trim s) = .ok text) ∧
    ∀ v text, resolveVariable scope inner = .ok v → interpolate scope (trim s).length (trim s) = .ok text → replacement v = text

section single

variable {scope : Scope} {s inner raw var tail : List Char}

theorem single_parts (h : isSingleTemplate s = some inner) :
    ∃ raw, trim s = openMark ++ (raw ++ closeMark) ∧ inner = trim raw ∧ Avoids openMark raw [] := by
  unfold isSingleTemplate at h
  dsimp only at h
  split at h
  next hmarks =>
    obtain ⟨hopen, hclose⟩ := Bool.and_eq_true_iff.mp hmarks
    obtain ⟨raw, hraw⟩ := InPlace.marked_inner hopen hclose
    have htake : ((trim s).drop 2).take ((trim s).length - 4) = raw := by
      rw [hraw]
      simp [openMark, closeMark]
    rw [htake] at h
    split at h
    next hnone =>
      cases h
      have hav := (splitAt_none (by decide)).mp (Option.isNone_iff_eq_none.mp hnone)
      exact ⟨raw, hraw, rfl, avoids_trim (by decide) openMark_visible hav⟩
    next => cases h
  next => cases h

theorem interpolate_plain (fuel : Nat) (h : Avoids openMark tail []) : interpolate scope fuel tail = .ok tail := by
  cases fuel with
  | zero => rfl
  | succ fuel => rw [interpolate, (splitAt_none (by decide)).mpr h]

/-- The loop closes the variable at the first `}}`, wherever the text ends. -/
theorem loop_single (scope : Scope) (hs : trim s = openMark ++ (raw ++ closeMark)) (hraw : Avoids openMark raw [])
    (hclose : FirstAt closeMark (raw ++ closeMark) var tail) :
    interpolate scope (trim s).length (trim s) = (resolveVariable scope (trim var)).map fun v => replacement v ++ tail := by
  have hopen : splitAt openMark (trim s) = some ([], raw ++ closeMark) := by
    rw [hs]
    exact splitAt_self (by decide)
  have hend : Avoids openMark (raw ++ closeMark) [] := by
    refine avoids_append.mpr ⟨?_, avoids_head (by decide)⟩
    exact (avoids_stop (x := '\x7d') (by decide)).mpr hraw
  have htail : Avoids openMark tail [] := by
    rw [hclose.eq] at hend
    exact avoids_of_sublist (avoids_of_sublist hend)
  obtain ⟨n, hn⟩ : ∃ n, (trim s).length = n + 1 := by
    rw [hs]
    exact ⟨_, rfl⟩
  rw [hn, interpolate, hopen]
  simp only [splitAt_first (by decide) hclose, interpolate_plain n htail]
  cases resolveVariable scope (trim var) with
  | error e => rfl
  | ok v => simp [Except.map, bind, Except.bind, pure, Except.pure]

/-- If the first `}}` does not end the text, the fast path takes more for the variable's name. -/
theorem early_close (hclose : FirstAt closeMark (raw ++ closeMark) var tail) (htail : tail ≠ []) :
    ∃ rest, raw = var ++ '\x7d' :: rest := by
  rcases List.append_eq_append_iff.mp hclose.eq with ⟨m, hvar, hmarks⟩ | ⟨m, hraw, hmarks⟩
  · have hlen := congrArg List.length hmarks
    simp only [closeMark, List.length_cons, List.length_nil, List.length_append] at hlen
    have : tail.length = 0 := by omega
    exact (htail (List.eq_nil_of_length_eq_zero this)).elim
  · cases m with
    | nil =>
      have hlen := congrArg List.length hmarks
      simp only [closeMark, List.length_cons, List.length_nil, List.length_append] at hlen
      have : tail.length = 0 := by omega
      exact (htail (List.eq_nil_of_length_eq_zero this)).elim
    | cons c m =>
      have hc : '\x7d' = c := (List.cons.inj hmarks).1
      rw [hc]
      exact ⟨m, hraw⟩

theorem trimEnd_length (s : List Char) : (trimEnd s).length ≤ s.length := (trimEnd_front s).length_le

/-- The two readings of a text name variables of one namespace, but different ones. -/
theorem early_names {pat : String} {rest : List Char} (hpat : pat ∈ namespaces) (hraw : raw = var ++ '\x7d' :: rest)
    (hp : pat.toList <+: trim raw) : ∃ key key' : String, key ≠ key' ∧ trim raw = (pat ++ key).toList ∧
      trim var = (pat ++ key').toList := by
  have hname : trim raw = var.dropWhile isWhitespace ++ '\x7d' :: trimEnd rest := by
    rw [hraw]
    exact trim_stop (by decide)
  have hbrace : '\x7d' ∉ pat.toList := by
    simp only [namespaces, List.mem_cons, List.not_mem_nil, or_false] at hpat
    rcases hpat with rfl | rfl | rfl | rfl <;> decide
  rw [hname] at hp
  obtain ⟨m, hm⟩ := (prefix_stop hbrace).mp hp
  obtain ⟨l, hl⟩ : ∃ l, pat.toList = l ++ ['.'] := by
    simp only [namespaces, List.mem_cons, List.not_mem_nil, or_false] at hpat
    rcases hpat with rfl | rfl | rfl | rfl
    · exact ⟨"input".toList, by decide⟩
    · exact ⟨"config".toList, by decide⟩
    · exact ⟨"secret".toList, by decide⟩
    · exact ⟨"execution".toList, by decide⟩
  have hvar : trim var = pat.toList ++ trimEnd m := by
    change trimEnd (var.dropWhile isWhitespace) = _
    rw [← hm, hl, List.append_assoc, List.singleton_append, trimEnd_stop (by decide)]
    simp
  refine ⟨String.ofList (m ++ '\x7d' :: trimEnd rest), String.ofList (trimEnd m), fun he => ?_, ?_, ?_⟩
  · have hlen := congrArg List.length (String.ofList_injective he)
    have hle := trimEnd_length m
    simp only [List.length_append, List.length_cons] at hlen
    omega
  · rw [hname, ← hm, String.toList_append, String.toList_ofList, List.append_assoc]
  · rw [hvar, String.toList_append, String.toList_ofList]

end single

/-- The fast path agrees with the loop, whatever the variables' values are, exactly if the first `}}`
behind the opening `{{` ends the trimmed text or the text names no namespace. -/
theorem fast_path_agrees {s inner : List Char} (h : isSingleTemplate s = some inner) :
    (∀ scope, FastAgrees scope s inner) ↔
      (splitAt closeMark ((trim s).drop 2)).map Prod.snd = some [] ∨ ∀ pat ∈ namespaces, stripPrefix pat inner = none := by
  obtain ⟨raw, hs, rfl, hraw⟩ := single_parts h
  have hdrop : (trim s).drop 2 = raw ++ closeMark := by
    rw [hs]
    rfl
  obtain ⟨⟨var, tail⟩, hsplit⟩ : ∃ split, splitAt closeMark (raw ++ closeMark) = some split := by
    refine Option.ne_none_iff_exists'.mp fun hnone => ?_
    have hav := (avoids_append.mp ((splitAt_none (by decide)).mp hnone)).2
    exact hav.1 (List.prefix_append closeMark [])
  have hclose := splitAt_spec hsplit
  have hloop := fun scope => loop_single scope hs hraw hclose
  rw [hdrop, hsplit]
  constructor
  · intro agrees
    by_cases htail : tail = []
    · exact Or.inl (congrArg some htail)
    · refine Or.inr fun pat hpat => stripPrefix_none.mpr fun hp => ?_
      obtain ⟨rest, hrest⟩ := early_close hclose htail
      obtain ⟨key, key', hne, hname, hname'⟩ := early_names hpat hrest hp
      obtain ⟨scope, ⟨v, hv⟩, e, he⟩ := scope_between hpat hne
      rw [← hname'] at hv
      rw [← hname] at he
      obtain ⟨w, hw⟩ := (agrees scope).1.mpr ⟨replacement v ++ tail, by rw [hloop, hv]; rfl⟩
      rw [he] at hw
      cases hw
  · rintro (hend | hunknown) scope
    · have htail : tail = [] := Option.some.inj hend
      subst htail
      have hvar : raw = var := by
        have heq := hclose.eq
        rw [List.append_nil] at heq
        exact List.append_cancel_right heq
      subst hvar
      unfold FastAgrees
      rw [hloop]
      cases resolveVariable scope (trim raw) with
      | error e => simp [Except.map]
      | ok v => simp [Except.map]
    · have unknown : ∀ pat ∈ namespaces, stripPrefix pat (trim var) = none := by
        intro pat hpat
        by_cases htail : tail = []
        · subst htail
          have heq := hclose.eq
          rw [List.append_nil] at heq
          rw [← List.append_cancel_right heq]
          exact hunknown pat hpat
        · obtain ⟨rest, hrest⟩ := early_close hclose htail
          refine stripPrefix_none.mpr fun hp => stripPrefix_none.mp (hunknown pat hpat) ?_
          rw [hrest, trim_stop (by decide)]
          exact (hp.trans (trimEnd_front _)).trans (List.prefix_append _ _)
      obtain ⟨e, he⟩ := resolveVariable_unknown scope hunknown
      obtain ⟨e', he'⟩ := resolveVariable_unknown scope unknown
      unfold FastAgrees
      rw [hloop, he, he']
      simp [Except.map]

/-- In `{{input.a}}}` the fast path looks for `a}`, and the loop for `a`. -/
theorem fast_path_disagrees : ¬∀ s inner, isSingleTemplate s = some inner → ∀ scope, FastAgrees scope s inner := by
  intro agrees
  have h := (agrees "\x7b\x7binput.a\x7d\x7d\x7d".toList "input.a\x7d".toList (by decide +kernel) ⟨[("a", .int 1)], [], [], []⟩).1
  obtain ⟨v, hv⟩ := h.mpr ⟨"1\x7d".toList, by rfl⟩
  cases hv

theorem fast_path_agrees_clean :
    isSingleTemplate " \x7b\x7b input.a \x7d\x7d ".toList = some "input.a".toList ∧
      ∀ scope, FastAgrees scope " \x7b\x7b input.a \x7d\x7d ".toList "input.a".toList := by
  have h : isSingleTemplate " \x7b\x7b input.a \x7d\x7d ".toList = some "input.a".toList := by decide +kernel
  exact ⟨h, (fast_path_agrees h).mpr (Or.inl (by decide +kernel))⟩

end Invokr

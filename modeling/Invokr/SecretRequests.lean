import Invokr.SecretSpans
import Invokr.Pipeline

namespace Invokr

open TextLib

/-- `load_secrets` requests the secrets that `resolve` looks up, and no other. -/
def ScanAgrees (spec : Json) : Prop := ∀ name, name ∈ requestedSecrets spec ↔ name ∈ secretLookups (templateVariables spec)

theorem loadSecrets_eq (env : Setup) (db : DbContext) (spec : Json) :
    Pipeline.loadSecrets env db spec = Pipeline.loadEach env db (requestedSecrets spec) [] := rfl

section spec

variable {rest : List Char}

theorem number_brace (n : Num) : '\x7b' ∉ (Json.num n).chars := by
  have digits : ∀ n : Nat, '\x7b' ∉ n.repr.toList := by
    intro n hmem
    rw [Nat.toList_repr] at hmem
    have := Nat.isDigit_of_mem_toDigits (by decide) (by decide) hmem
    exact absurd this (by decide)
  cases n with
  | int n =>
    rw [Json.chars]
    cases n with
    | ofNat n => exact digits n
    | negSucc n =>
      change '\x7b' ∉ ("-" ++ (n + 1).repr).toList
      rw [String.toList_append, List.mem_append, not_or]
      exact ⟨by decide, digits (n + 1)⟩
  | float text =>
    rw [Json.chars]
    intro hmem
    have := List.all_eq_true.mp text.2 _ hmem
    exact absurd this (by decide)

theorem secretLookups_append (l l' : List (List Char)) : secretLookups (l ++ l') = secretLookups l ++ secretLookups l' :=
  List.filterMap_append

/-- The brace that opens an object does not go with another one. -/
theorem scan_object {c : Char} (hc : c ≠ '\x7b') : scan ('\x7b' :: c :: rest) = scan (c :: rest) := by
  refine @scan_skip _ ['\x7b'] ⟨fun hp => hc ?_, trivial⟩
  have hsecond := (List.cons_prefix_cons.mp (List.cons_prefix_cons.mp hp).2).1
  exact hsecond.symm

mutual

theorem scan_json (j : Json) (rest : List Char) (h : plainIn j rest = true) :
    scan (j.chars ++ rest) = secretLookups (templateVariables j) ++ scan rest := by
  cases j with
  | null => exact scan_skip (avoids_head (by decide))
  | bool b =>
    cases b with
    | true => exact scan_skip (avoids_head (by decide))
    | false => exact scan_skip (avoids_head (by decide))
  | num n => exact scan_skip (avoids_head (number_brace n))
  | str s =>
    rw [plainIn] at h
    rw [Json.chars, templateVariables]
    exact scan_string h
  | arr items =>
    rw [plainIn] at h
    rw [Json.chars, templateVariables, List.cons_append, List.cons_append, scan_char (by decide), List.append_assoc,
      List.singleton_append, scan_items items (']' :: rest) h, scan_char (by decide)]
  | obj fields =>
    rw [plainIn] at h
    rw [Json.chars, templateVariables, List.cons_append, List.cons_append, List.append_assoc]
    have hopen : scan ('\x7b' :: (Json.charsFields fields ++ ('\x7d' :: rest))) =
        scan (Json.charsFields fields ++ ('\x7d' :: rest)) := by
      match fields with
      | [] => exact scan_object (by decide)
      | [(k, v)] => exact scan_object (by decide)
      | (k, v) :: f :: fields => exact scan_object (by decide)
    rw [List.singleton_append, hopen, scan_fields fields ('\x7d' :: rest) h, scan_char (by decide)]

theorem scan_items (items : List Json) (rest : List Char) (h : plainItems items rest = true) :
    scan (Json.charsItems items ++ rest) = secretLookups (templateVariablesItems items) ++ scan rest := by
  match items with
  | [] => rfl
  | [j] =>
    rw [plainItems] at h
    rw [Json.charsItems, templateVariablesItems, templateVariablesItems, List.append_nil]
    exact scan_json j rest h
  | j :: j' :: items =>
    rw [plainItems, Bool.and_eq_true] at h
    · rw [Json.charsItems, templateVariablesItems, List.append_assoc, List.cons_append, scan_json j _ h.1, scan_char (by decide),
        scan_items (j' :: items) rest h.2, secretLookups_append, List.append_assoc]
      exact List.cons_ne_nil _ _
    · exact List.cons_ne_nil _ _

theorem scan_fields (fields : List (String × Json)) (rest : List Char) (h : plainFields fields rest = true) :
    scan (Json.charsFields fields ++ rest) = secretLookups (templateVariablesFields fields) ++ scan rest := by
  match fields with
  | [] => rfl
  | [(k, v)] =>
    rw [plainFields, Bool.and_eq_true] at h
    rw [Json.charsFields, templateVariablesFields, templateVariablesFields, List.append_nil, List.append_assoc, List.cons_append,
      scan_string h.1, scan_char (by decide), scan_json v rest h.2, secretLookups_append, List.append_assoc]
  | (k, v) :: f :: fields =>
    rw [plainFields, Bool.and_eq_true, Bool.and_eq_true] at h
    · have htext : Json.charsFields ((k, v) :: f :: fields) ++ rest =
          quote k ++ ':' :: (v.chars ++ ',' :: (Json.charsFields (f :: fields) ++ rest)) := by
        rw [Json.charsFields]
        · simp only [List.append_assoc, List.cons_append]
        · exact List.cons_ne_nil _ _
      rw [htext, templateVariablesFields, scan_string h.1, scan_char (by decide), scan_json v _ h.2.1, scan_char (by decide),
        scan_fields (f :: fields) rest h.2.2, secretLookups_append, secretLookups_append, List.append_assoc, List.append_assoc]
    · exact List.cons_ne_nil _ _

end

theorem scan_spec {spec : Json} (h : plainSpec spec = true) : ScanAgrees spec := by
  have hscan := scan_json spec [] h
  rw [List.append_nil] at hscan
  have hlist : requestedSecrets spec = secretLookups (templateVariables spec) := hscan.trans (List.append_nil _)
  intro name
  rw [hlist]

end spec

section variable_of

variable {pre raw post : List Char}

/-- A text without braces but for the marks of one variable. -/
structure OneVariable (s pre raw post : List Char) : Prop where
  eq : s = pre ++ (openMark ++ (raw ++ (closeMark ++ post)))
  noOpen : '\x7b' ∉ pre ++ raw ++ post
  noClose : '\x7d' ∉ pre ++ raw ++ post

section one

variable {s : String} (h : OneVariable s.toList pre raw post)
include h

theorem OneVariable.opens : FirstAt openMark s.toList pre (raw ++ (closeMark ++ post)) := by
  have hno := h.noOpen
  simp only [List.mem_append, not_or] at hno
  exact ⟨h.eq, avoids_head hno.1.1⟩

theorem OneVariable.closes : FirstAt closeMark (raw ++ (closeMark ++ post)) raw post := by
  have hno := h.noClose
  simp only [List.mem_append, not_or] at hno
  exact ⟨rfl, avoids_head hno.1.2⟩

/-- Both ways of reading the text find the same variable. -/
theorem OneVariable.variables (follows : List Char) :
    textVariables s = [trim raw] ∧ plainString s follows = plainVariable raw := by
  have hopen := splitAt_first (by decide) h.opens
  have hclose := splitAt_first (by decide) h.closes
  cases hsingle : isSingleTemplate s.toList with
  | none =>
    have hpos : s.length = (s.length - 1) + 1 := by
      have hlen := congrArg List.length h.eq
      simp only [List.length_append, openMark, closeMark, List.length_cons, String.length_toList] at hlen
      omega
    have hpost : '\x7b' ∉ post := fun hmem => h.noOpen (List.mem_append_right _ hmem)
    have hlast : Avoids openMark post [] := avoids_head hpost
    have hnone : splitAt openMark post = none := (splitAt_none (by decide)).mpr hlast
    have hnone' : splitAt secretMark post = none := (splitAt_none (by decide)).mpr (avoids_head hpost)
    have hpieces : ∀ fuel, pieces fuel post = [.lit post] ∧ plainPieces fuel post follows = true := by
      intro fuel
      cases fuel with
      | zero => exact ⟨rfl, by simp [plainPieces, hnone']⟩
      | succ fuel => simp [pieces, plainPieces, hnone]
    constructor
    · rw [textVariables_pieces hsingle, hpos, pieces]
      simp only [hopen, hclose, (hpieces _).1]
      rfl
    · unfold plainString
      rw [hsingle, hpos]
      simp only [plainPieces, hopen, hclose, (hpieces _).2, Bool.and_true]
  | some inner =>
    obtain ⟨raw', hraw', rfl, _⟩ := single_parts hsingle
    obtain ⟨left, right, hs, hleft, hright⟩ := trim_parts s.toList
    have hfirst : FirstAt openMark s.toList left (raw' ++ (closeMark ++ right)) := by
      refine ⟨?_, avoids_head (blank_brace hleft)⟩
      rw [hs, hraw']
      simp only [List.append_assoc]
    have hsame := hopen.symm.trans (splitAt_first (by decide) hfirst)
    have hafter : raw ++ (closeMark ++ post) = raw' ++ (closeMark ++ right) := congrArg (fun r => r.2) (Option.some.inj hsame)
    have hno := h.noClose
    simp only [List.mem_append, not_or] at hno
    have hraw : raw' = raw := by
      rcases List.append_eq_append_iff.mp hafter with ⟨m, hm, hmarks⟩ | ⟨m, hm, hmarks⟩
      · cases m with
        | nil => simpa using hm
        | cons c m =>
          cases m with
          | nil =>
            simp [closeMark] at hmarks
            exact (hno.2 (by rw [hmarks.2]; simp)).elim
          | cons d m =>
            simp [closeMark] at hmarks
            exact (hno.2 (by rw [hmarks.2.2]; simp)).elim
      · cases m with
        | nil => simpa using hm.symm
        | cons c m =>
          have hc := (List.cons.inj hmarks).1
          exact (hno.1.2 (by rw [hm, ← hc]; simp)).elim
    have htake : ((trim s.toList).drop 2).take ((trim s.toList).length - 4) = raw' := by
      rw [hraw']
      simp [openMark, closeMark]
    constructor
    · rw [textVariables, hsingle, hraw]
    · unfold plainString
      rw [hsingle]
      simp only [htake, hraw]

theorem OneVariable.text : requestedSecrets (.str s) =
    scan (openMark ++ (escape raw ++ (closeMark ++ (escape post ++ ['"'])))) := by
  have hno := h.noOpen
  simp only [List.mem_append, not_or] at hno
  have htext : (Json.str s).chars = '"' :: (escape pre ++ (openMark ++ (escape raw ++ (closeMark ++ (escape post ++ ['"']))))) := by
    have hquote : (Json.str s).chars = '"' :: (escape s.toList ++ ['"']) := by
      simp [Json.chars, quote, escape]
    rw [hquote, h.eq]
    simp only [escape_append, List.append_assoc]
    rfl
  change scan (Json.str s).chars = _
  rw [htext, scan_char (by decide), scan_skip (avoids_head (brace_escape hno.1.1))]

theorem OneVariable.tail (rest : List Char) : scan (escape post ++ rest) = scan rest := by
  have hno := h.noOpen
  simp only [List.mem_append, not_or] at hno
  exact scan_skip (avoids_head (brace_escape hno.2))

/-- A variable that is `secret.` with a name: the name is requested as JSON writes it. -/
theorem OneVariable.named {name : String} (hname : stripPrefix "secret." raw = some name) :
    requestedSecrets (.str s) = [String.ofList (escape name.toList)] ∧
      secretLookups [trim raw] = [String.ofList (trimEnd name.toList)] := by
  have hraw : raw = "secret.".toList ++ name.toList := by
    rw [stripPrefix_some hname, String.toList_append]
  have hno := h.noClose
  simp only [List.mem_append, not_or] at hno
  have hclose : '\x7d' ∉ escape name.toList := by
    refine escape_brace (Or.inr rfl) fun hmem => hno.1.2 ?_
    rw [hraw]
    exact List.mem_append_right _ hmem
  have hescape : escape raw = "secret.".toList ++ escape name.toList := by
    rw [hraw, escape_append]
    rfl
  constructor
  · rw [h.text, hescape, List.append_assoc, ← List.append_assoc]
    change scan (secretMark ++ (escape name.toList ++ (closeMark ++ (escape post ++ ['"'])))) = _
    rw [scan_hit (avoids_head hclose), h.tail]
    rfl
  · have htrim : trim raw = ("secret." ++ String.ofList (trimEnd name.toList)).toList := by
      rw [hraw, trim_secret, String.toList_append, String.toList_ofList (l := trimEnd name.toList)]
    rw [htrim, secretLookups, List.filterMap_cons, stripPrefix_append]
    rfl

/-- A variable that does not begin with `secret.` as it is written is requested under no name. -/
theorem OneVariable.unnamed (hname : stripPrefix "secret." raw = none) : requestedSecrets (.str s) = [] := by
  have hno := h.noOpen
  simp only [List.mem_append, not_or] at hno
  have hraw := brace_escape hno.1.2
  have hfirst : Avoids secretMark openMark (escape raw ++ (closeMark ++ (escape post ++ ['"']))) := by
    refine ⟨fun hp => ?_, fun hp => ?_, trivial⟩
    · have htail : "secret.".toList <+: escape raw ++ '\x7d' :: ('\x7d' :: (escape post ++ ['"'])) :=
        (List.prefix_append_right_inj openMark).mp hp
      exact stripPrefix_none.mp hname (prefix_of_escape (by decide) ((prefix_stop (by decide)).mp htail))
    · have htail := (List.cons_prefix_cons.mp hp).2
      rw [List.nil_append] at htail
      have hmem : '\x7b' ∈ escape raw := by
        cases hesc : escape raw with
        | nil =>
          rw [hesc] at htail
          exact absurd (List.cons_prefix_cons.mp htail).1 (by decide)
        | cons c esc =>
          rw [hesc] at htail
          rw [(List.cons_prefix_cons.mp htail).1]
          exact List.mem_cons_self
      exact hraw hmem
  rw [h.text, scan_skip hfirst, scan_skip (avoids_head hraw), scan_skip (avoids_head (by decide)), h.tail]
  rfl

theorem OneVariable.agrees : ScanAgrees (.str s) ↔ plainSpec (.str s) = true := by
  obtain ⟨hvars, hplain⟩ := h.variables []
  refine ⟨fun agrees => ?_, scan_spec⟩
  rw [plainSpec, plainIn, hplain]
  have hlook : templateVariables (.str s) = [trim raw] := by
    rw [templateVariables, hvars]
  unfold ScanAgrees at agrees
  rw [hlook] at agrees
  unfold plainVariable
  split
  next name hname =>
    obtain ⟨hreq, hres⟩ := h.named hname
    rw [hreq, hres] at agrees
    have hsame : escape name.toList = trimEnd name.toList := by
      have := (agrees (String.ofList (escape name.toList))).mp List.mem_cons_self
      exact String.ofList_injective (List.mem_singleton.mp this)
    have hlong := escape_length name.toList
    have hshort := trimEnd_length name.toList
    have hlen := congrArg List.length hsame
    have htrim : trimEnd name.toList = name.toList := (trimEnd_front _).eq_of_length (by omega)
    have hno := h.noClose
    simp only [List.mem_append, not_or] at hno
    have hclose : '\x7d' ∉ name.toList := by
      intro hmem
      refine hno.1.2 ?_
      rw [stripPrefix_some hname, String.toList_append]
      exact List.mem_append_right _ hmem
    have hnone : splitAt closeMark (name.toList ++ ['\x7d']) = none := by
      refine (splitAt_none (by decide)).mpr (avoids_append.mpr ⟨avoids_head hclose, by decide, trivial⟩)
    simp only [plainName, htrim, decide_true, plain_of_length (by omega : (escape name.toList).length = name.toList.length),
      hnone, Option.isNone_none, Bool.and_self]
  next hname =>
    rw [h.unnamed hname] at agrees
    have hno := h.noOpen
    simp only [List.mem_append, not_or] at hno
    have hlooked : stripPrefix "secret." (trim raw) = none := by
      cases hsome : stripPrefix "secret." (trim raw) with
      | none => rfl
      | some name =>
        have hmem : name ∈ secretLookups [trim raw] := by
          rw [secretLookups, List.filterMap_cons, hsome]
          exact List.mem_cons_self
        cases (agrees name).mpr hmem
    have hnone : splitAt secretMark (openMark ++ raw) = none := by
      refine (splitAt_none (by decide)).mpr (avoids_append.mpr ⟨⟨fun hp => ?_, fun hp => ?_, trivial⟩, avoids_head hno.1.2⟩)
      · rw [List.append_nil] at hp
        exact stripPrefix_none.mp hname ((List.prefix_append_right_inj openMark).mp hp)
      · rw [List.append_nil] at hp
        have htail := (List.cons_prefix_cons.mp hp).2
        rw [List.nil_append] at htail
        exact hno.1.2 (htail.mem List.mem_cons_self)
    simp only [hlooked, hnone, Option.isNone_none, Bool.and_self]

end one

end variable_of

/-- The scan agrees with the resolver on every spec whose secrets are written plainly, and of the
texts with one variable on no other. -/
theorem secrets_requested (spec : Json) :
    (plainSpec spec = true → ScanAgrees spec) ∧
      ∀ (s : String) (pre raw post : List Char), spec = .str s → OneVariable s.toList pre raw post →
        (ScanAgrees spec ↔ plainSpec spec = true) := by
  refine ⟨fun h => scan_spec h, fun s pre raw post hs h => ?_⟩
  subst hs
  exact h.agrees

/-- The secret of `{{ secret.x }}` is not requested. -/
theorem secret_not_requested : ¬∀ spec, ScanAgrees spec := by
  intro agrees
  have h := (agrees (.str "\x7b\x7b secret.x \x7d\x7d") "x").mpr (by decide +kernel)
  revert h
  decide +kernel

theorem secrets_requested_clean :
    ScanAgrees (.obj [("Authorization", .str "Bearer \x7b\x7bsecret.x\x7d\x7d"), ("body", .str "\x7b\x7b input.y \x7d\x7d")]) ∧
      ScanAgrees (.str "\x7b\x7bsecret.x\x7d\x7d") :=
  ⟨(secrets_requested _).1 (by decide +kernel), ((secrets_requested _).2 "\x7b\x7bsecret.x\x7d\x7d" [] "secret.x".toList [] rfl
    ⟨by decide +kernel, by decide +kernel, by decide +kernel⟩).mpr (by decide +kernel)⟩

end Invokr

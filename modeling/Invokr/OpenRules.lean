import Invokr.Open

namespace TxLib

variable {M : Model} {rely : World M → World M → Prop} {Inv : World M → Prop}
  {allow : World M → Nat → Env M → Op M → Prop} {pre : World M → Op M → Prop} {t : Nat} {now : Int}
  {H : List (Entry M) → Prop} {K : Rows M → Prop} {Q : Session M → Prop} {w₀ : World M}

/-- What is true of the world a call of the thread runs in. -/
structure Moment (Inv : World M → Prop) (allow : World M → Nat → Env M → Op M → Prop) (t : Nat)
    (H : List (Entry M) → Prop) (K : Rows M → Prop) (w : World M) (env : Env M) (o : Op M) : Prop where
  sound : Sound w
  inv : Inv w
  allowed : allow w t env o
  past : H (w.history t)
  known : K w.rows

/-- The same, with the open transaction. -/
structure Facts (Inv : World M → Prop) (allow : World M → Nat → Env M → Op M → Prop) (t : Nat) (now : Int)
    (H : List (Entry M) → Prop) (K : Rows M → Prop) (w : World M) (s : Session M) (env : Env M) (o : Op M) : Prop
    extends Moment Inv allow t H K w env o where
  session : w.sessions t = some s
  now : s.now = now

theorem Seen.moment {s : Option (Session M)} {l : List (Entry M)} {o : Op M} {w : World M} {env : Env M}
    (h : Seen rely Inv allow t w₀ s l o w env) (hK : Stable rely K) (hl : H l) (hk : K w₀.rows) :
    Moment Inv allow t H K w env o :=
  ⟨h.sound, h.inv, h.allow, by rw [h.history]; exact hl, hK _ _ h.later hk⟩

theorem Seen.facts {s : Session M} {l : List (Entry M)} {o : Op M} {w : World M} {env : Env M}
    (h : Seen rely Inv allow t w₀ (some s) l o w env) (hK : Stable rely K) (hn : s.now = now) (hl : H l)
    (hk : K w₀.rows) : Facts Inv allow t now H K w s env o :=
  ⟨h.moment hK hl hk, h.session, hn⟩

theorem Broken.open {w w' : World M} {l : List (Entry M)} {s : Session M} {o : Op M} {r : o.Reply}
    {T : M.Tbl → Prop} {E : M.Ext → Prop} (ho : o.Inside T E) (hv : w₀.view t = (some s, l)) (hn : s.now = now)
    (hl : H l) (hk : K w.rows) (h : Local rely Inv allow t w₀ o r w') (hb : Broken t w w' l) :
    Open t now H K Aborted w' := by
  obtain ⟨s₁, lands, ha⟩ := hb
  obtain ⟨_, _, _, _, _, _, he⟩ := h.eval hv
  obtain ⟨s₂, hs₂, hn₂, _⟩ := ho.stays he
  have : s₂ = s₁ := Option.some.inj (hs₂.symm.trans (congrArg Prod.fst lands.1))
  subst this
  exact lands.open (hn₂.trans hn) hl hk ha

/-- A call outside the database. -/
theorem holds_ext {α : Type} {e : M.Ext} {f : M.Answer e → Program M α} {post : α → World M → Prop}
    (hK : Stable rely K) (hpre : pre w₀ (.ext e)) (hw : Open t now H K Q w₀)
    (h : ∀ w s env w', Facts Inv allow t now H K w s env (.ext e) → Q s →
      Open t now (fun l => ∃ l₀, H l₀ ∧ l = l₀ ++ [.ext e (env.answer e)]) K Q w' →
      (f (env.answer e)).Holds (Local rely Inv allow t) pre post w') :
    (ext e >>= f).Holds (Local rely Inv allow t) pre post w₀ := by
  rw [Prog.holds_bind]
  obtain ⟨s, l, hv, hn, hl, hk, hq⟩ := hw
  refine ⟨hpre, fun r w' hs => ?_⟩
  obtain ⟨w, env, seen, rfl, hv', hr⟩ := hs.ext hv
  exact h w s env w' (seen.facts hK hn hl hk) hq
    ⟨s, _, hv', hn, ⟨l, hl, rfl⟩, by rw [hr]; exact hK _ _ seen.later hk, hq⟩

theorem holds_ext_idle {α : Type} {e : M.Ext} {f : M.Answer e → Program M α} {post : α → World M → Prop}
    (hK : Stable rely K) (hpre : pre w₀ (.ext e)) (hw : Idle t H K w₀)
    (h : ∀ w env w', Moment Inv allow t H K w env (.ext e) →
      Idle t (fun l => ∃ l₀, H l₀ ∧ l = l₀ ++ [.ext e (env.answer e)]) K w' →
      (f (env.answer e)).Holds (Local rely Inv allow t) pre post w') :
    (ext e >>= f).Holds (Local rely Inv allow t) pre post w₀ := by
  rw [Prog.holds_bind]
  obtain ⟨l, hv, hl, hk⟩ := hw
  refine ⟨hpre, fun r w' hs => ?_⟩
  obtain ⟨w, env, seen, rfl, hv', hr⟩ := hs.ext hv
  exact h w env w' (seen.moment hK hl hk) ⟨_, hv', ⟨l, hl, rfl⟩, by rw [hr]; exact hK _ _ seen.later hk⟩

theorem holds_halt {α : Type} {post : α → World M → Prop} (hpre : pre w₀ .halt) :
    (halt : Program M α).Holds (Local rely Inv allow t) pre post w₀ :=
  ⟨hpre, fun r => r.elim⟩

theorem tries_query {stmt : M.Stmt} {ok : Snapshot M → World M → Prop} {err : DbError → World M → Prop}
    (hK : Stable rely K) (hpre : pre w₀ (.snapshot stmt)) (hw : Open t now H K Q w₀)
    (herr : ∀ e w w' s env, Facts Inv allow t now H K w s env (.snapshot stmt) → s.aborted = true ∨ env.fault = true →
      Q s → Open t now H K Aborted w' → err e w')
    (hok : ∀ w w' s env, Facts Inv allow t now H K w s env (.snapshot stmt) → s.aborted = false → Q s →
      Open t now H (fun D => D = w.rows) (fun s' => s' = s) w' → ok ⟨now, s.visible w.rows, w.keys⟩ w') :
    Tries (Local rely Inv allow t) pre ok err (query stmt) w₀ := by
  obtain ⟨s, l, hv, hn, hl, hk, hq⟩ := hw
  refine ⟨hpre, fun r w' hs => ?_⟩
  obtain ⟨w, env, seen, ⟨⟨e, rfl⟩, hb, hc⟩ | ⟨ha, lands, rfl⟩⟩ := hs.snapshot hv
  · have facts := seen.facts hK hn hl hk
    exact herr e w w' s env facts hc hq 
      (hb.open (o := .snapshot stmt) (T := fun _ => False) (E := fun _ => False) trivial hv hn hl facts.known hs)
  · subst hn
    exact hok w w' s env (seen.facts hK rfl hl hk) ha hq
      (lands.open rfl hl rfl rfl)

theorem tries_update {stmt : M.Stmt} {tb : M.Tbl} {k : M.Key} {skip : Bool} {keep : Int → M.Row tb → Bool}
    {patch : Patch M tb} {ok : Option (M.Row tb) → World M → Prop} {err : DbError → World M → Prop}
    (hK : Stable rely K) (hpre : pre w₀ (.update stmt tb k skip keep patch)) (hw : Open t now H K Q w₀)
    (herr : ∀ e w w' s env, Facts Inv allow t now H K w s env (.update stmt tb k skip keep patch) →
      (s.aborted = true ∨ env.fault = true ∨ ∃ old, s.visible w.rows tb k = some old ∧ keep now old = true ∧
        (M.storable tb (patch.apply now old) = false ∨
          refsVisible (s.visible w.rows) tb k (patch.apply now old) = false)) →
      Q s → Open t now H K Aborted w' → err e w')
    (hmiss : ∀ w w' s env, Facts Inv allow t now H K w s env (.update stmt tb k skip keep patch) → s.aborted = false →
      Q s → (skip = true ∧ w.foreign t tb k = true) ∨ s.visible w.rows tb k = none →
      Open t now H (fun D => D = w.rows) (fun s' => s' = s) w' → ok none w')
    (hlock : ∀ w w' s env old, Facts Inv allow t now H K w s env (.update stmt tb k skip keep patch) →
      s.aborted = false → Q s → Finds w.rows s tb k (s.baseOf w.rows tb k) old → keep now old = false →
      Open t now H (fun D => D = w.rows) (fun s' => s' = s.write w.rows tb k (some old)) w' → ok none w')
    (hhit : ∀ w w' s env old, Facts Inv allow t now H K w s env (.update stmt tb k skip keep patch) →
      s.aborted = false → Q s → Finds w.rows s tb k (s.baseOf w.rows tb k) old → keep now old = true →
      M.storable tb (patch.apply now old) = true →
      Open t now (fun l => ∃ l₀, H l₀ ∧ l = l₀ ++ [.updated stmt tb k (s.baseOf w.rows tb k)]) (fun D => D = w.rows)
        (fun s' => s' = s.write w.rows tb k (some (patch.apply now old))) w' → ok (some (patch.apply now old)) w') :
    Tries (Local rely Inv allow t) pre ok err (update stmt tb k skip keep patch) w₀ := by
  obtain ⟨s, l, hv, hn, hl, hk, hq⟩ := hw
  refine ⟨hpre, fun r w' hs => ?_⟩
  obtain ⟨w, env, seen, ⟨⟨e, rfl⟩, hb, hc⟩ | ⟨ha, hcase⟩⟩ := hs.update hv
  · have facts := seen.facts hK hn hl hk
    subst hn
    exact herr e w w' s env facts hc hq
      (hb.open (o := .update stmt tb k skip keep patch) (T := fun _ => True) (E := fun _ => False) trivial hv rfl hl facts.known hs)
  · have facts := seen.facts hK hn hl hk
    subst hn
    obtain ⟨lands, rfl, hc⟩ | ⟨_, old, hvis, ⟨hkeep, rfl, lands⟩ | ⟨hkeep, hst, rfl, lands⟩⟩ := hcase
    · exact hmiss w w' s env facts ha hq hc (lands.open rfl hl rfl rfl)
    · exact hlock w w' s env old facts ha hq (seen.sound.finds seen.session hvis) hkeep
        (lands.open rfl hl rfl rfl)
    · exact hhit w w' s env old facts ha hq (seen.sound.finds seen.session hvis) hkeep hst
        (lands.open rfl ⟨l, hl, rfl⟩ rfl rfl)

theorem tries_insert {stmt : M.Stmt} {tb : M.Tbl} {orIgnore : Bool} {build : M.Fresh → Int → M.Key × M.Row tb}
    {ok : Option (M.Key × M.Row tb) → World M → Prop} {err : DbError → World M → Prop}
    (hK : Stable rely K) (hp : M.plain tb = false) (hpre : pre w₀ (.insert stmt tb orIgnore build))
    (hw : Open t now H K Q w₀)
    (herr : ∀ e w w' s env, Facts Inv allow t now H K w s env (.insert stmt tb orIgnore build) →
      (s.aborted = true ∨ env.fault = true ∨ M.storable tb (build env.fresh now).2 = false ∨
        (orIgnore = false ∧ clash w.rows w.keys s tb (build env.fresh now).1 (build env.fresh now).2 = true) ∨
        refsVisible (s.visible w.rows) tb (build env.fresh now).1 (build env.fresh now).2 = false) →
      Q s → Open t now H K Aborted w' → err e w')
    (hmiss : ∀ w w' s env, Facts Inv allow t now H K w s env (.insert stmt tb orIgnore build) → s.aborted = false →
      Q s → orIgnore = true → clash w.rows w.keys s tb (build env.fresh now).1 (build env.fresh now).2 = true →
      Open t now H (fun D => D = w.rows) (fun s' => s' = s) w' → ok none w')
    (hok : ∀ w w' s env, Facts Inv allow t now H K w s env (.insert stmt tb orIgnore build) → s.aborted = false →
      Q s → w.rows tb (build env.fresh now).1 = none → s.held tb (build env.fresh now).1 = none →
      clash w.rows w.keys s tb (build env.fresh now).1 (build env.fresh now).2 = false →
      Open t now H (fun D => D = w.rows)
        (fun s' => s' = s.write w.rows tb (build env.fresh now).1 (some (build env.fresh now).2)) w' →
      ok (some (build env.fresh now)) w') :
    Tries (Local rely Inv allow t) pre ok err (insert stmt tb orIgnore build) w₀ := by
  obtain ⟨s, l, hv, hn, hl, hk, hq⟩ := hw
  refine ⟨hpre, fun r w' hs => ?_⟩
  obtain ⟨w, env, seen, ⟨⟨e, rfl⟩, hb, hc⟩ | ⟨ha, _, _, hcase⟩⟩ := hs.insert hv
  · have facts := seen.facts hK hn hl hk
    subst hn
    refine herr e w w' s env facts ?_ hq
      (hb.open (o := .insert stmt tb orIgnore build) (T := fun _ => True) (E := fun _ => False) trivial hv rfl hl facts.known hs)
    simpa [hp] using hc
  · have facts := seen.facts hK hn hl hk
    subst hn
    obtain ⟨lands, rfl, hi, hc⟩ | ⟨hc, rfl, lands⟩ := hcase
    · exact hmiss w w' s env facts ha hq hi hc (lands.open rfl hl rfl rfl)
    · obtain ⟨hnone, hfree⟩ := seen.sound.insert_new seen.session hp hc
      exact hok w w' s env facts ha hq hnone hfree hc (lands.open rfl hl rfl rfl)

theorem tries_put {stmt : M.Stmt} {tb : M.Tbl} {k : M.Key} {row : M.Row tb} {ok : Unit → World M → Prop}
    {err : DbError → World M → Prop} (hK : Stable rely K) (hpre : pre w₀ (.put stmt tb k row))
    (hw : Open t now H K Q w₀)
    (herr : ∀ e w w' s env, Facts Inv allow t now H K w s env (.put stmt tb k row) →
      (s.aborted = true ∨ env.fault = true ∨ M.plain tb = false ∨ M.storable tb row = false) → Q s →
      Open t now H K Aborted w' → err e w')
    (hok : ∀ w w' s env, Facts Inv allow t now H K w s env (.put stmt tb k row) → s.aborted = false → Q s →
      Open t now H (fun D => D = w.rows) (fun s' => s' = s.write w.rows tb k (some row)) w' → ok () w') :
    Tries (Local rely Inv allow t) pre ok err (put stmt tb k row) w₀ := by
  obtain ⟨s, l, hv, hn, hl, hk, hq⟩ := hw
  refine ⟨hpre, fun r w' hs => ?_⟩
  obtain ⟨w, env, seen, ⟨⟨e, rfl⟩, hb, hc⟩ | ⟨ha, rfl, lands⟩⟩ := hs.put hv
  · have facts := seen.facts hK hn hl hk
    exact herr e w w' s env facts hc hq
      (hb.open (o := .put stmt tb k row) (T := fun _ => True) (E := fun _ => False) trivial hv hn hl facts.known hs)
  · exact hok w w' s env (seen.facts hK hn hl hk) ha hq (lands.open hn hl rfl rfl)

theorem tries_delete {stmt : M.Stmt} {tb : M.Tbl} {k : M.Key} {ok : Bool → World M → Prop}
    {err : DbError → World M → Prop} (hK : Stable rely K) (hpre : pre w₀ (.delete stmt tb k))
    (hw : Open t now H K Q w₀)
    (herr : ∀ e w w' s env, Facts Inv allow t now H K w s env (.delete stmt tb k) →
      (s.aborted = true ∨ env.fault = true ∨ M.plain tb = false) → Q s → Open t now H K Aborted w' → err e w')
    (hmiss : ∀ w w' s env, Facts Inv allow t now H K w s env (.delete stmt tb k) → s.aborted = false → Q s →
      s.visible w.rows tb k = none → Open t now H (fun D => D = w.rows) (fun s' => s' = s) w' → ok false w')
    (hok : ∀ w w' s env, Facts Inv allow t now H K w s env (.delete stmt tb k) → s.aborted = false → Q s →
      Open t now H (fun D => D = w.rows) (fun s' => s' = s.write w.rows tb k none) w' → ok true w') :
    Tries (Local rely Inv allow t) pre ok err (delete stmt tb k) w₀ := by
  obtain ⟨s, l, hv, hn, hl, hk, hq⟩ := hw
  refine ⟨hpre, fun r w' hs => ?_⟩
  obtain ⟨w, env, seen, ⟨⟨e, rfl⟩, hb, hc⟩ | ⟨ha, ⟨rfl, lands, hvis⟩ | ⟨rfl, lands⟩⟩⟩ := hs.delete hv
  · have facts := seen.facts hK hn hl hk
    exact herr e w w' s env facts hc hq
      (hb.open (o := .delete stmt tb k) (T := fun _ => True) (E := fun _ => False) trivial hv hn hl facts.known hs)
  · exact hmiss w w' s env (seen.facts hK hn hl hk) ha hq hvis (lands.open hn hl rfl rfl)
  · exact hok w w' s env (seen.facts hK hn hl hk) ha hq (lands.open hn hl rfl rfl)

theorem tries_begin {ok : Unit → World M → Prop} {err : DbError → World M → Prop} (hK : Stable rely K)
    (hpre : pre w₀ .begin) (hw : Idle t H K w₀)
    (herr : ∀ e w env w', Moment Inv allow t H K w env .begin → env.fault = true → Idle t H K w' → err e w')
    (hok : ∀ now w w' env, Moment Inv allow t H K w env .begin →
      Open t now (fun l => ∃ l₀, H l₀ ∧ l = l₀ ++ [.begin w.rows]) (fun D => D = w.rows) Started w' → ok () w') :
    Tries (Local rely Inv allow t) pre ok err (beginTx : Try M DbError Unit) w₀ := by
  obtain ⟨l, hv, hl, hk⟩ := hw
  refine ⟨hpre, fun r w' hs => ?_⟩
  obtain ⟨w, env, seen, hr, ⟨e, rfl, hf, hv'⟩ | ⟨rfl, hv'⟩⟩ := hs.begin hv
  · exact herr e w env w' (seen.moment hK hl hk) hf ⟨l, hv', hl, by rw [hr]; exact hK _ _ seen.later hk⟩
  · exact hok w.clock w w' env (seen.moment hK hl hk) ⟨_, _, hv', rfl, ⟨l, hl, rfl⟩, hr, ⟨rfl, fun _ _ => rfl⟩⟩

theorem holds_rollback {post : Unit → World M → Prop} (hK : Stable rely K) (hpre : pre w₀ .rollback)
    (hw : Open t now H K Q w₀)
    (h : ∀ w', Idle t (fun l => ∃ l₀, H l₀ ∧ l = l₀ ++ [.abort]) K w' → post () w') :
    (rollbackTx : Program M Unit).Holds (Local rely Inv allow t) pre post w₀ := by
  obtain ⟨s, l, hv, hn, hl, hk, hq⟩ := hw
  refine ⟨hpre, fun r w' hs => h w' ?_⟩
  obtain ⟨w, env, seen, hv', hr⟩ := hs.rollback hv
  exact ⟨_, hv', ⟨l, hl, rfl⟩, by rw [hr]; exact hK _ _ seen.later hk⟩

/-- The commit of an aborted transaction is a rollback that reports no error. -/
theorem tries_commit {ok : Unit → World M → Prop} {err : DbError → World M → Prop} (hK : Stable rely K)
    (hpre : pre w₀ .commit) (hw : Open t now H K Q w₀)
    (herr : ∀ e w w' s env, Facts Inv allow t now H K w s env .commit → env.fault = true → Q s →
      Idle t (fun l => ∃ l₀, H l₀ ∧ l = l₀ ++ [.abort]) K w' → err e w')
    (hdrop : ∀ w w' s env, Facts Inv allow t now H K w s env .commit → s.aborted = true → Q s →
      Idle t (fun l => ∃ l₀, H l₀ ∧ l = l₀ ++ [.abort]) K w' → ok () w')
    (hok : ∀ w w' s env, Facts Inv allow t now H K w s env .commit → s.aborted = false → Q s →
      Idle t (fun l => ∃ l₀, H l₀ ∧ l = l₀ ++ [.commit s]) (fun D => D = s.visible w.rows) w' → ok () w') :
    Tries (Local rely Inv allow t) pre ok err (commitTx : Try M DbError Unit) w₀ := by
  obtain ⟨s, l, hv, hn, hl, hk, hq⟩ := hw
  refine ⟨hpre, fun r w' hs => ?_⟩
  obtain ⟨w, env, seen, ⟨hv', hr, hc⟩ | ⟨ha, rfl, hv', hr⟩⟩ := hs.commit hv
  · have facts := seen.facts hK hn hl hk
    have idle : Idle t (fun l => ∃ l₀, H l₀ ∧ l = l₀ ++ [.abort]) K w' :=
      ⟨_, hv', ⟨l, hl, rfl⟩, by rw [hr]; exact facts.known⟩
    rcases hc with ⟨ha, rfl⟩ | ⟨hf, e, rfl⟩
    · exact hdrop w w' s env facts ha hq idle
    · exact herr e w w' s env facts hf hq idle
  · exact hok w w' s env (seen.facts hK hn hl hk) ha hq ⟨_, hv', ⟨l, hl, rfl⟩, hr⟩

end TxLib

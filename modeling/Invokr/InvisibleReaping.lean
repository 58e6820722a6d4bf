import Invokr.SweptTicks
import Invokr.Schedules

namespace Invokr

open TxLib

variable {env : Setup}

/-- A sweep of the schema in a transaction of its own, with nobody else about: its answer and the
world it leaves. -/
def Reaps (env : Setup) (schemaName : String) (r : Except DbError (List String)) (w w' : World Pg) : Prop :=
  ∃ t, w.sessions t = none ∧ (sweepSchema env.tablePrefix schemaName).run.Ends (World.Alone t) w r w'

/-- The action is one of a tick that begins after the state `p`, or time passes. -/
def TicksOnly (p : Pool (service env)) : Action (service env) → Prop
  | .start _ req => ∃ jobName, req = .tick jobName
  | .step t _ => p.threads t = none
  | .kill t => p.threads t = none
  | .tick _ => True

/-- The world a sweep or several of them may have left. -/
structure SweptFrom (w w' : World Pg) : Prop where
  sound : Sound w'
  clock : w'.clock = w.clock
  keys : w'.keys = w.keys
  sessions : ∀ u, w'.sessions u = w.sessions u
  tidy : Tidy w'.rows
  lapsed : Lapsed w.clock w.rows w'.rows

theorem Reaps.outcome {schemaName : String} {r : Except DbError (List String)} {w w' : World Pg}
    (h : Reaps env schemaName r w w') (sound : Sound w) :
    Sound w' ∧ w'.clock = w.clock ∧ w'.keys = w.keys ∧ (∀ u, w'.sessions u = w.sessions u) ∧
      (∀ ids, r = .ok ids → Sweep w.clock schemaName ids w.rows w'.rows) ∧ ∀ e, r = .error e → w'.rows = w.rows := by
  obtain ⟨t, idle, ends⟩ := h
  obtain ⟨beside, post⟩ := solo_ends (Beside.refl sound) (solo_sweepSchema idle) ends
  have same : w'.sessions t = none → ∀ u, w'.sessions u = w.sessions u := by
    intro gone u
    by_cases hu : u = t
    · rw [hu, gone, idle]
    · exact beside.others u hu
  cases r with
  | ok ids => exact ⟨beside.sound, beside.clock, beside.keys, same post.1, fun _ h => by cases h; exact post.2, nofun⟩
  | error e => exact ⟨beside.sound, beside.clock, beside.keys, same post.1, nofun, fun _ _ => post.2⟩

theorem Reaps.swept {schemaName : String} {r : Except DbError (List String)} {w₀ w w' : World Pg}
    (h : Reaps env schemaName r w w') (from₀ : SweptFrom w₀ w) : SweptFrom w₀ w' := by
  obtain ⟨sound, clock, keys, sessions, done, failed⟩ := h.outcome from₀.sound
  have rows : Tidy w'.rows ∧ Lapsed w₀.clock w.rows w'.rows := by
    cases r with
    | ok ids =>
      have sweep := done ids rfl
      rw [from₀.clock] at sweep
      exact ⟨sweep.tidy from₀.tidy, sweep.lapsed from₀.tidy⟩
    | error e =>
      rw [failed e rfl]
      exact ⟨from₀.tidy, Lapsed.refl _ _⟩
  exact ⟨sound, clock.trans from₀.clock, keys.trans from₀.keys, fun u => (sessions u).trans (from₀.sessions u), rows.1,
    from₀.lapsed.trans rows.2⟩

/-- Ticks see no difference between a deployment and the same deployment after sweeps. -/
theorem SweptFrom.twins {p : Pool (service env)} {w' : World Pg} (h : SweptFrom p.world w') (sound : Sound p.world)
    (idle : ∀ t, p.threads t = none → p.world.sessions t = none) :
    Twins (M := Pg) .executions p.world.clock p.world.rows w'.rows (fun t => ¬p.threads t = none) p ⟨w', p.threads⟩ where
  clock := h.clock
  late := le_refl _
  keys := h.keys
  locks := sound.locks_eq h.sound h.sessions
  rows := h.lapsed.others _ (fun h => nomatch h) (fun h => nomatch h)
  fixed _ _ := rfl
  fixed' _ _ := rfl
  sound := sound
  sound' := h.sound
  threads t := by
    refine .same (h.sessions t) fun young => ?_
    have hnone : p.threads t = none := not_not.mp young
    rw [idle t hnone]
    exact ⟨writesNone_none.only, fun _ => rfl, true, fun _ => writesNone_none, fun th hth => nomatch hnone.symm.trans hth⟩

theorem dispatch_reaper {t : Nat} {w₀ w : World Pg} {schemaName : String} {spec : Json} {db : DbContext}
    {ok : List String → World Pg → Prop} {err : DbError → World Pg → Prop} (hspec : Dispatcher.taskOf spec = some "reaper")
    (h : Solo t w₀ ok err (Reaper.reapSchema db schemaName) w) :
    (Dispatcher.internalDispatch env db schemaName spec).Holds (Local Eq (Beside t w₀) (fun _ _ _ _ => True) t)
      (fun _ o => o.insertsNothing)
      (fun out w' => (∃ ids, out = .success (Dispatcher.reaped schemaName ids) ∧ ok ids w') ∨
        ∃ e, out = .failure (errorValue "REAPER_SWEEP_FAILED" (env.dbErrorText e)) ∧ err e w') w := by
  unfold Dispatcher.internalDispatch
  rw [hspec]
  exact holds_run (h.mono (fun ids _ hok => Or.inl ⟨ids, rfl, hok⟩) fun e _ herr => Or.inr ⟨e, rfl, herr⟩)

/-- Run by a worker in its open transaction, a sweep retires just the expired CRON jobs that the
transaction sees and drops their entries, or it has aborted the transaction. A second sweep at the
same instant finds nothing. And ticks that begin afterwards, in whatever order their steps come,
make the same executions whether there were sweeps or not. -/
theorem reaping_invisible (before : List (Action (service env))) :
    (∀ t s schemaName spec out w', (after before).world.sessions t = some s → s.aborted = false →
        Dispatcher.taskOf spec = some "reaper" →
        (Dispatcher.internalDispatch env ⟨schemaName, env.tablePrefix, true⟩ schemaName spec).Ends (World.Alone t)
          (after before).world out w' →
        w'.rows = (after before).world.rows ∧ ∃ s', w'.sessions t = some s' ∧
          ((∃ ids, out = .success (Dispatcher.reaped schemaName ids) ∧ s'.aborted = false ∧
              Sweep s.now schemaName ids (s.visible (after before).world.rows) (s'.visible w'.rows)) ∨
            (∃ e, out = .failure (errorValue "REAPER_SWEEP_FAILED" (env.dbErrorText e))) ∧ s'.aborted = true)) ∧
      (∀ schemaName r w', Reaps env schemaName r (after before).world w' →
        (∀ e, r = .error e → w'.rows = (after before).world.rows) ∧
          ∀ ids, r = .ok ids → Sweep (after before).world.clock schemaName ids (after before).world.rows w'.rows ∧
            ∀ r' w'', Reaps env schemaName r' w' w'' → w''.rows = w'.rows ∧ ∀ ids', r' = .ok ids' → ids' = []) ∧
      ∀ w', Relation.ReflTransGen (fun w w' => ∃ schemaName r, Reaps env schemaName r w w') (after before).world w' →
        ∀ later, (∀ x ∈ later, TicksOnly (after before) x) →
          ((⟨w', (after before).threads⟩ : Pool (service env)).run later).world.rows .executions =
            ((after before).run later).world.rows .executions := by
  have keeps := keeps_all before
  have sound := keeps.sound
  refine ⟨fun t s schemaName spec out w' hs ha hspec ends => ?_, fun schemaName r w' h => ?_, fun w' h later young => ?_⟩
  · have sees : Sees t s.now (after before).world.rows (fun V => V = s.visible (after before).world.rows) (after before).world :=
      ⟨s, _, Prod.ext hs rfl, rfl, trivial, rfl, ha, rfl⟩
    have body := solo_reapSchema (after before).world schemaName env.tablePrefix sees
    obtain ⟨_, post⟩ := solo_ends (Beside.refl sound) (dispatch_reaper hspec body) ends
    obtain ⟨ids, rfl, s', l, hv, hn, _, hD, ha', hsweep⟩ | ⟨e, rfl, s', l, hv, hn, _, hD, ha'⟩ := post
    · refine ⟨hD, s', congrArg Prod.fst hv, Or.inl ⟨ids, rfl, ha', ?_⟩⟩
      have hD' : w'.rows = (after before).world.rows := hD
      rw [hD']
      exact hsweep
    · exact ⟨hD, s', congrArg Prod.fst hv, Or.inr ⟨⟨e, rfl⟩, ha'⟩⟩
  · obtain ⟨sound', clock, _, _, done, failed⟩ := h.outcome sound
    refine ⟨failed, fun ids hr => ⟨done ids hr, fun r' w'' h' => ?_⟩⟩
    obtain ⟨_, _, _, _, done', failed'⟩ := h'.outcome sound'
    cases r' with
    | error e => exact ⟨failed' e rfl, nofun⟩
    | ok ids' =>
      obtain ⟨hnil, hrows⟩ := (done ids hr).again (clock ▸ done' ids' rfl)
      exact ⟨hrows, fun _ h => by cases h; exact hnil⟩
  · have swept : SweptFrom (after before).world w' := by
      induction h with
      | refl => exact ⟨sound, rfl, rfl, fun _ => rfl, tidy_after before, Lapsed.refl _ _⟩
      | tail _ step ih =>
        obtain ⟨schemaName, r, hr⟩ := step
        exact hr.swept ih
    have twins := swept.twins sound fun t ht => congrArg Prod.fst (keeps.idle t ht)
    refine (twins.run swept.lapsed.targets fun x hx => ?_).rows
    have hy := young x hx
    cases x with
    | start t req =>
      obtain ⟨jobName, rfl⟩ := hy
      exact @alike_tick env _ _ _ swept.lapsed jobName
    | step t e => exact not_not.mpr hy
    | kill t => exact not_not.mpr hy
    | tick d => trivial

/-- A job whose window has passed, and a worker that has begun a transaction. -/
def expiredCron : List (Action (service sample)) :=
  serve 1 8 (.createEndpoint "acme" sampleEndpoint) (.response 200 "") ++
    serve 2 10 (.createJob "acme" { sampleCron with endsAt := some 60000000 }) (.response 200 "") ++
      .tick 120000000 :: serve 3 2 (.work "worker-1" ["acme"]) (.response 200 "")

def calmEnvs (n : Nat) : List (Env Pg) := (List.range n).map fun i => ⟨false, sampleUuid i, answers i (.response 200 "")⟩

def reaperSpec : Json := .object [("task", .str "reaper")]

theorem reaping_invisible_expired : ∃ w' w'' out id, ∃ s s' : Session Pg,
    Reaps sample "acme" (.ok [id]) (after expiredCron).world w' ∧
      Sweep (after expiredCron).world.clock "acme" [id] (after expiredCron).world.rows w'.rows ∧
      ((⟨w', (after expiredCron).threads⟩ : Pool (service sample)).run
          (serve 4 5 (.tick (Jobs.cronJobName "acme" id)) (.response 200 ""))).world.rows .executions =
        ((after expiredCron).run (serve 4 5 (.tick (Jobs.cronJobName "acme" id)) (.response 200 ""))).world.rows .executions ∧
      (Dispatcher.internalDispatch sample ⟨"acme", "", true⟩ "acme" reaperSpec).Ends (World.Alone 3) (after expiredCron).world out w'' ∧
      w''.sessions 3 = some s' ∧ (s'.aborted = true ∨ ∃ ids, Sweep s.now "acme" ids (s.visible (after expiredCron).world.rows)
        (s'.visible w''.rows)) := by
  have played : (World.play 9 (sweepSchema "" "acme").run (calmEnvs 8) (after expiredCron).world).any
      (fun x => x.2.toOption.any fun ids => ids.length = 1) = true := by decide +kernel
  have session : ((after expiredCron).world.sessions 3).any (fun s => !s.aborted) = true := by decide +kernel
  have ran : (World.play 3 (Dispatcher.internalDispatch sample ⟨"acme", "", true⟩ "acme" reaperSpec) (calmEnvs 8)
      (after expiredCron).world).isSome = true := by decide +kernel
  have idle : ((after expiredCron).world.sessions 9).isNone = true := by decide +kernel
  have free : ((after expiredCron).threads 4).isNone = true := by decide +kernel
  obtain ⟨⟨w', r⟩, hplay, hr⟩ := (Option.any_eq_true _ _).mp played
  obtain ⟨s, hs, ha⟩ := (Option.any_eq_true _ _).mp session
  obtain ⟨⟨w'', out⟩, hran⟩ := Option.isSome_iff_exists.mp ran
  obtain ⟨id, rfl⟩ : ∃ id, r = .ok [id] := by
    cases r with
    | error e => simp [Except.toOption] at hr
    | ok ids =>
      cases ids with
      | nil => simp [Except.toOption] at hr
      | cons id rest =>
        cases rest with
        | nil => exact ⟨id, rfl⟩
        | cons x xs => simp [Except.toOption] at hr
  have reaps : Reaps sample "acme" (.ok [id]) (after expiredCron).world w' :=
    ⟨9, Option.isNone_iff_eq_none.mp idle, World.play_ends hplay⟩
  obtain ⟨inside, alone, ticks⟩ := reaping_invisible expiredCron
  obtain ⟨_, s', hs', outcome⟩ := inside 3 s "acme" reaperSpec out w'' hs (by simpa using ha) (by decide) (World.play_ends hran)
  refine ⟨w', w'', out, id, s, s', reaps, ((alone "acme" _ w' reaps).2 [id] rfl).1, ?_, World.play_ends hran, hs', ?_⟩
  · refine ticks w' (.single ⟨"acme", _, reaps⟩) _ fun x hx => ?_
    simp only [serve, steps, List.mem_cons, List.mem_map] at hx
    rcases hx with rfl | ⟨i, _, rfl⟩
    · exact ⟨_, rfl⟩
    · exact Option.isNone_iff_eq_none.mp free
  · rcases outcome with ⟨ids, _, _, hsweep⟩ | ⟨_, haborted⟩
    · exact Or.inr ⟨ids, hsweep⟩
    · exact Or.inl haborted

end Invokr

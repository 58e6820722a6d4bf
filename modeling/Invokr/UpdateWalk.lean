import Invokr.CancelWalk

namespace Invokr

open TxLib

variable {env : Setup} {g : Guard (service env)} {t : Nat} {now : Int} {K : Rows Pg → Prop} {w₀ : World Pg}
  {schemaName jobId : String} {body : UpdateJob}

/-- What `retire_and_replace` finds: an ACTIVE base version, or one that is RETIRED already. -/
inductive Found where
  | live (b : Job)
  | gone

def Found.Known (ko : Key) (old : Job) : Found → Rows Pg → Prop
  | .live _, D => HasJob ko old D
  | .gone, D => ∃ j : Job, D .jobs ko = some j ∧ SameJob old j ∧ j.status = .retired

theorem lasting_known (ko : Key) (old : Job) (f : Found) : Lasting (f.Known ko old) := by
  cases f with
  | live b => exact lasting_hasJob ko old
  | gone => exact lasting_job fun _ _ same h => ⟨h.1.trans same, same.2 h.2⟩

/-- The base version is held as retired, if it was found ACTIVE; of the jobs only those in `S` change
beside it. -/
def Found.Held (g : Guard (service env)) (now : Int) (ko : Key) (S : Key → Prop) (s : Session Pg) : Found → Prop
  | .live b => b.status = .active ∧
      s.held .jobs ko = some ⟨some b, some ((Jobs.replacePatch ko.id).apply now b)⟩ ∧
      Each (M := Pg) .jobs (fun k _ _ => k = ko ∨ S k) s
  | .gone => ¬Exact g ∧ Each (M := Pg) .jobs (fun k _ _ => S k) s

theorem Found.Held.frame {f : Found} {ko : Key} {S : Key → Prop} {s s' : Session Pg} (h : f.Held g now ko S s)
    (hs : s'.held .jobs = s.held .jobs) : f.Held g now ko S s' := by
  cases f with
  | live b => exact ⟨h.1, by rw [hs]; exact h.2.1, h.2.2.frame hs⟩
  | gone => exact ⟨h.1, h.2.frame hs⟩

/-- The transaction has read or retired the base version. -/
structure Retiring (g : Guard (service env)) (now : Int) (ko : Key) (f : Found) (s : Session Pg) : Prop where
  live : s.aborted = false
  base : f.Held g now ko (fun _ => False) s
  executions : Quiet (M := Pg) .executions s
  attempts : Quiet (M := Pg) .attempts s
  entries : Quiet (M := Pg) .cronJob s

/-- It has inserted the new version too; `C` says what it has done to the entries. -/
structure Swapping (g : Guard (service env)) (now : Int) (ko kn : Key) (new : Job) (f : Found)
    (C : Session Pg → Prop) (s : Session Pg) : Prop where
  live : s.aborted = false
  new : s.held .jobs kn = some ⟨none, some new⟩
  base : f.Held g now ko (fun k => k = kn) s
  executions : Quiet (M := Pg) .executions s
  attempts : Quiet (M := Pg) .attempts s
  entries : C s

theorem Swapping.write {ko kn : Key} {new : Job} {f : Found} {C C' : Session Pg → Prop} {s : Session Pg} {D : Rows Pg}
    {k : Key} {v : Option CronEntry} (h : Swapping g now ko kn new f C s) (hC : C' (s.write D .cronJob k v)) :
    Swapping g now ko kn new f C' (s.write D .cronJob k v) where
  live := h.live
  new := by rw [Session.write_held_tbl s D _ (by decide)]; exact h.new
  base := h.base.frame (funext fun _ => Session.write_held_tbl s D _ (by decide))
  executions := h.executions.write_tbl (by decide)
  attempts := h.attempts.write_tbl (by decide)
  entries := hC

theorem Swapping.mono {ko kn : Key} {new : Job} {f : Found} {C C' : Session Pg → Prop} {s : Session Pg}
    (h : Swapping g now ko kn new f C s) (hC : C' s) : Swapping g now ko kn new f C' s :=
  ⟨h.live, h.new, h.base, h.executions, h.attempts, hC⟩

/-- The entry of the base version is deleted where there was one. -/
def EntryDropped (g : Guard (service env)) (ko : Key) (f : Found) (s : Session Pg) : Prop :=
  Each (M := Pg) .cronJob (fun k _ n => k = entryKey ko ∧ n = none) s ∧
    (Official g → ∀ b, f = .live b → ∃ c, s.held .cronJob (entryKey ko) = some ⟨c, none⟩)

/-- The new version has an entry as well. -/
def EntrySwapped (g : Guard (service env)) (ko kn : Key) (entry : CronEntry) (f : Found) (s : Session Pg) : Prop :=
  (∃ c, s.held .cronJob (entryKey kn) = some ⟨c, some entry⟩) ∧
    Each (M := Pg) .cronJob (fun k _ n => k = entryKey kn ∨ (k = entryKey ko ∧ n = none)) s ∧
    (Official g → ∀ b, f = .live b → ∃ c, s.held .cronJob (entryKey ko) = some ⟨c, none⟩)

theorem EntryDropped.write {ko kn : Key} {entry : CronEntry} {f : Found} {s : Session Pg} {D : Rows Pg}
    (h : EntryDropped g ko f s) (hne : entryKey ko ≠ entryKey kn) :
    EntrySwapped g ko kn entry f (s.write D .cronJob (entryKey kn) (some entry)) := by
  refine ⟨⟨_, Session.write_held_same s D _ _ _⟩, ?_, fun official b hf => ?_⟩
  · exact (h.1.mono fun _ _ _ h => Or.inr h).write (Or.inr (Or.inl rfl))
  · rw [Session.write_held_key s D _ hne]
    exact h.2 official b hf

section commit

variable {ko kn : Key} {new old : Job} {f : Found} {expression : String} {s : Session Pg} {w : World Pg}

theorem Found.Held.replaced (h : f.Held g now ko (fun k => k = kn) s) (sound : Sound w) (hs : w.sessions t = some s)
    (hn : s.held .jobs kn = some ⟨none, some new⟩) (known : f.Known ko old w.rows)
    (entry : Official g → ∀ b, f = .live b → s.visible w.rows .cronJob (entryKey ko) = none) :
    Replaced g w.rows (s.visible w.rows) ko kn new := by
  have visible : s.visible w.rows .jobs kn = some new := by simp [Session.visible, hn]
  cases f with
  | live b =>
    obtain ⟨active, hb, each⟩ := h
    have base : w.rows .jobs ko = some b := (sound.held t s .jobs ko _ hs hb).2
    have hv : s.visible w.rows .jobs ko = some ((Jobs.replacePatch ko.id).apply now b) := by
      simp [Session.visible, hb]
    refine Or.inl ⟨b, (Jobs.replacePatch ko.id).apply now b, base, active, ⟨rfl, fun _ => rfl⟩, rfl, ?_,
      fun official => entry official b rfl, rfl⟩
    funext k
    by_cases hk : k = kn
    · rw [hk, Function.update_self, visible]
    · rw [Function.update_of_ne hk]
      by_cases hk' : k = ko
      · rw [hk', Function.update_self, hv]
      · rw [Function.update_of_ne hk']
        exact (sound.visible_each hs each k).resolve_right (not_or.mpr ⟨hk', hk⟩)
  | gone =>
    obtain ⟨j, hj, _, hr⟩ := known
    refine Or.inr ⟨h.1, ⟨j, hj, hr⟩, ?_⟩
    funext k
    by_cases hk : k = kn
    · rw [hk, Function.update_self, visible]
    · rw [Function.update_of_ne hk]
      exact (sound.visible_each hs h.2 k).resolve_right hk

theorem Found.Known.hasJob {D : Rows Pg} (h : f.Known ko old D) : HasJob ko old D := by
  cases f with
  | live b => exact h
  | gone =>
    obtain ⟨j, hj, same, _⟩ := h
    exact ⟨j, hj, same⟩

/-- What the columns of the new version are. -/
structure Version (ko kn : Key) (old new : Job) (expression : String) : Prop where
  schema : kn.schema = ko.schema
  job : NewJob kn new (some ko.id)
  cron : new.triggerType = .cron
  expr : new.cronExpression = some expression
  key : new.idempotencyKey = none
  version : new.version = old.version + 1
  endpoint : new.endpoint = old.endpoint
  endpointType : new.endpointType = old.endpointType

theorem Swapping.commit (h : Swapping g now ko kn new f (EntrySwapped g ko kn (entryOf env kn expression) f) s)
    (sound : Sound w) (hs : w.sessions t = some s) (known : f.Known ko old w.rows) (v : Version ko kn old new expression)
    (cron : old.triggerType = .cron) (user : old.endpointType ≠ .internal) :
    Commit g (.updateJob schemaName jobId body) now w.rows (s.visible w.rows) := by
  obtain ⟨⟨c, hentry⟩, each, gone⟩ := h.entries
  have entry : Official g → ∀ b, f = .live b → s.visible w.rows .cronJob (entryKey ko) = none := by
    intro official b hf
    obtain ⟨c', hc⟩ := gone official b hf
    simp [Session.visible, hc]
  obtain ⟨b, hb, same⟩ := known.hasJob
  obtain ⟨_, hep, hty, htr, _⟩ := same.columns
  refine .replaced (sound.held t s .jobs kn _ hs h.new).2 ⟨v.key, by rw [v.endpointType]; exact user⟩ v.schema v.job v.cron v.expr
    (h.base.replaced sound hs h.new known entry) (by simp [Session.visible, hentry]) ?_ ?_ ?_
  · intro k hk
    exact (sound.visible_each hs each k).imp_right fun h => h.resolve_left hk
  · exact ⟨b, hb, by rw [htr]; exact cron, by rw [hty]; exact user, by rw [hep, v.endpoint], by rw [same.version, v.version]⟩
  · intro tb hm
    refine sound.visible_quiet hs ?_
    simp only [List.mem_cons, List.not_mem_nil, or_false] at hm
    rcases hm with rfl | rfl
    · exact h.executions
    · exact h.attempts

end commit

section statements

variable {ko : Key} {old new : Job} {cron : String}

/-- What is left to do after the statements of an update. -/
def UpdateEnds (g : Guard (service env)) (schemaName jobId : String) (body : UpdateJob) (t : Nat) (created : Job)
    (w : World Pg) : Prop :=
  Does g (.updateJob schemaName jobId body) t (fun _ w' => Updated schemaName jobId t w' created) (fun _ _ => True)
    (commitTx : Try Pg DbError Unit) w

def UpdateQuits (g : Guard (service env)) (schemaName jobId : String) (body : UpdateJob) (t : Nat) (w : World Pg) : Prop :=
  Runs g (.updateJob schemaName jobId body) t (fun _ _ => True) rollbackTx w

theorem update_quits {Q : Session Pg → Prop} {w : World Pg} (hK : Lasting K)
    (ho : Open t now (fun _ => True) K Q w) : UpdateQuits g schemaName jobId body t w :=
  runs_rollback hK rfl ho fun _ _ => trivial

/-- The base version is retired, or somebody else has retired it. -/
theorem does_retireBase {ok : Option (Table.Row .jobs) → World Pg → Prop} {err : DbError → World Pg → Prop}
    {p : Patch Pg .jobs} (hp : p = Jobs.replacePatch jobId)
    (hw : Open t now (fun _ => True) (HasJob ⟨schemaName, jobId⟩ old) Started w₀)
    (herr : ∀ x w', Open t now (fun _ => True) (HasJob ⟨schemaName, jobId⟩ old) Aborted w' → err x w')
    (hok : ∀ r f w', Open t now (fun _ => True) (Found.Known ⟨schemaName, jobId⟩ old f)
      (Retiring g now ⟨schemaName, jobId⟩ f) w' → ok r w') :
    Does g (.updateJob schemaName jobId body) t ok err
      (updateOne .retireJob .jobs ⟨schemaName, jobId⟩ Jobs.isActive p) w₀ := by
  subst hp
  have hK := lasting_hasJob ⟨schemaName, jobId⟩ old
  refine does_updateOne (Q := fun s => s.aborted = false ∧ ∀ tb, Quiet (M := Pg) tb s) hK
    (fun s s' hl h => ⟨hl.2.1.trans h.1, fun tb => (h.2 tb).locks hl⟩) ?_ (covers_of_not_work rfl)
    (hw.mono (fun _ h => h) (fun _ h => h) fun s _ h => ⟨h.1, fun tb => each_started h⟩)
    (fun x _ _ w' _ _ _ _ _ _ h => herr x w' h) ?_ ?_
  · decide
  · intro o w w' s e facts ho _ hs hmiss hopen
    obtain ⟨j, hj, same⟩ := facts.known
    have hv : s.visible w.rows .jobs ⟨schemaName, jobId⟩ = some j := by
      rw [facts.sound.quiet_visible facts.session (hs.2 .jobs)]
      exact hj
    have hnot : j.status ≠ .active := by simpa [Jobs.isActive] using hmiss j hv
    have hret : j.status = .retired := by
      cases hst : j.status with
      | active => exact (hnot hst).elim
      | retired => rfl
    have loose : ¬Exact g := by
      intro exact
      have hb : retiresBase o = true := by
        rcases ho with rfl | rfl
        · rfl
        · rfl
      obtain ⟨j', hj', active⟩ := exact schemaName jobId body w t e o facts.allowed hb
      obtain rfl : j = j' := Option.some.inj (hj.symm.trans hj')
      exact hnot active
    refine hok none .gone w' (hopen.mono (fun _ h => h) (fun _ h => h ▸ ⟨j, hj, same, hret⟩) fun s' _ h => ?_)
    exact ⟨h.1, ⟨loose, (h.2 .jobs).mono fun _ _ _ hf => hf⟩, h.2 .executions, h.2 .attempts, h.2 .cronJob⟩
  · intro w w' s e b facts ha hs finds hkeep hopen
    obtain ⟨hb, _⟩ := (hs.2 .jobs).found finds
    refine hok _ (.live b) w' (hopen.mono (fun _ _ => trivial) (fun _ h => h ▸ facts.known) fun s' _ h => ?_)
    subst h
    have only := (hs.2 .jobs).only (D := w.rows) (k := (⟨schemaName, jobId⟩ : Key))
      (v := some ((Jobs.replacePatch jobId).apply now b))
    rw [hb] at only
    refine ⟨ha, ⟨by simpa [Jobs.isActive] using hkeep, only.1, only.2.mono fun _ _ _ h => Or.inl h⟩, ?_, ?_, ?_⟩
    · exact (hs.2 .executions).write_tbl (by decide)
    · exact (hs.2 .attempts).write_tbl (by decide)
    · exact (hs.2 .cronJob).write_tbl (by decide)

theorem Retiring.insert {f : Found} {kn : Key} {s : Session Pg} {D : Rows Pg} (h : Retiring g now ko f s)
    (hn : D .jobs kn = none) (hh : s.held .jobs kn = none) :
    Swapping g now ko kn new f (fun s => Quiet (M := Pg) .cronJob s) (s.write D .jobs kn (some new)) := by
  have held : (s.write D .jobs kn (some new)).held .jobs kn = some ⟨none, some new⟩ := by
    rw [Session.write_held_same, baseOf_none hh hn]
  refine ⟨h.live, held, ?_, h.executions.write_tbl (by decide), h.attempts.write_tbl (by decide),
    h.entries.write_tbl (by decide)⟩
  cases f with
  | live b =>
    obtain ⟨active, hb, each⟩ := h.base
    have hne : ko ≠ kn := by
      rintro rfl
      rw [hh] at hb
      cases hb
    refine ⟨active, by rw [Session.write_held_key s D _ hne]; exact hb, ?_⟩
    exact (each.mono fun _ _ _ h => Or.inl (h.resolve_right id)).write (Or.inr (Or.inr rfl))
  | gone => exact ⟨h.base.1, (h.base.2.mono fun _ _ _ hf => hf.elim).write (Or.inr rfl)⟩

theorem does_dropEntry {kn : Key} {f : Found} {ok : Unit → World Pg → Prop} {err : DbError → World Pg → Prop}
    (cron : old.triggerType = .cron)
    (hw : Open t now (fun _ => True) (Found.Known ⟨schemaName, jobId⟩ old f)
      (Swapping g now ⟨schemaName, jobId⟩ kn new f (fun s => Quiet (M := Pg) .cronJob s)) w₀)
    (herr : ∀ x w', Open t now (fun _ => True) (Found.Known ⟨schemaName, jobId⟩ old f) Aborted w' → err x w')
    (hok : ∀ w', Open t now (fun _ => True) (Found.Known ⟨schemaName, jobId⟩ old f)
      (Swapping g now ⟨schemaName, jobId⟩ kn new f (EntryDropped g ⟨schemaName, jobId⟩ f)) w' → ok () w') :
    Does g (.updateJob schemaName jobId body) t ok err (Jobs.unregisterPgCronConn schemaName jobId) w₀ := by
  refine does_unregister (k := ⟨schemaName, jobId⟩) (lasting_known _ old f) (covers_of_not_work rfl) hw
    (fun x _ _ w' _ _ _ _ _ h => herr x w' h) ?_ ?_
  · intro o w w' s e facts _ hs hnone ho
    refine hok w' (ho.mono (fun _ h => h) (fun _ h => h) fun s' _ h => ?_)
    subst h
    refine hs.mono ⟨hs.entries.mono fun _ _ _ hf => hf.elim, fun official b hf => ?_⟩
    subst hf
    obtain ⟨active, hb, _⟩ := hs.base
    obtain ⟨j, hj, same⟩ := facts.known
    have hbase : w.rows .jobs ⟨schemaName, jobId⟩ = some b := (facts.sound.held t s' .jobs _ _ facts.session hb).2
    obtain rfl : b = j := Option.some.inj (hbase.symm.trans hj)
    have htr : b.triggerType = .cron := same.columns.2.2.2.1.trans cron
    exact (entry_visible (facts.inv.agree official) facts.sound facts.session hb active htr hs.entries hnone).elim
  · intro o w w' s e facts _ hs ho
    refine hok w' (ho.mono (fun _ h => h) (fun _ h => h) fun s' _ h => ?_)
    subst h
    refine hs.write ⟨?_, fun _ _ _ => ⟨_, Session.write_held_same s w.rows _ _ _⟩⟩
    exact (hs.entries.mono fun _ _ _ hf => hf.elim).write (Or.inr ⟨rfl, rfl⟩)

/-- The new version never takes the base version's place among the entries. -/
theorem entryKey_ne {f : Found} {kn : Key} {C : Session Pg → Prop} {s : Session Pg} {w : World Pg} (linked : Linked w.rows)
    (sound : Sound w) (hs : w.sessions t = some s) (h : Swapping g now ko kn new f C s) (known : f.Known ko old w.rows)
    (uuid : isUuid kn.id = true) : entryKey ko ≠ entryKey kn := by
  intro he
  obtain ⟨b, hb, _⟩ := known.hasJob
  obtain rfl := entryKey_inj (linked.job ko b hb).2 uuid he
  rw [(sound.held t s .jobs ko _ hs h.new).2] at hb
  cases hb

theorem does_swapEntry {kn : Key} {f : Found} {expression : String} {ok : Unit → World Pg → Prop}
    {err : DbError → World Pg → Prop} (v : Version ⟨schemaName, jobId⟩ kn old new expression)
    (hw : Open t now (fun _ => True) (Found.Known ⟨schemaName, jobId⟩ old f)
      (Swapping g now ⟨schemaName, jobId⟩ kn new f (EntryDropped g ⟨schemaName, jobId⟩ f)) w₀)
    (herr : ∀ x w', Open t now (fun _ => True) (Found.Known ⟨schemaName, jobId⟩ old f) Aborted w' → err x w')
    (hok : ∀ w', Open t now (fun _ => True) (Found.Known ⟨schemaName, jobId⟩ old f)
      (Swapping g now ⟨schemaName, jobId⟩ kn new f
        (EntrySwapped g ⟨schemaName, jobId⟩ kn (entryOf env kn expression) f)) w' → ok () w') :
    Does g (.updateJob schemaName jobId body) t ok err
      (Jobs.registerPgCronConn env.tablePrefix schemaName new.jobId expression) w₀ := by
  have hkn : kn = ⟨schemaName, new.jobId⟩ := by
    have hs : kn.schema = schemaName := v.schema
    rw [v.job.jobId, ← hs]
  have hK := lasting_known ⟨schemaName, jobId⟩ old f
  refine tries_put hK.stable (free_pre rfl trivial) hw ?_ ?_
  · intro x w w' s e facts _ _ ho
    exact herr x w' ho
  · intro w w' s e facts _ hs ho
    have hne := entryKey_ne facts.inv.linked facts.sound facts.session hs facts.known v.job.uuid
    refine hok w' (ho.mono (fun _ h => h) (fun _ h => h ▸ facts.known) fun s' _ h => ?_)
    have hkey : Jobs.cronKey (Jobs.cronJobName schemaName new.jobId) = entryKey kn := by
      rw [hkn]
      rfl
    have hentry : CronEntry.mk expression (Jobs.buildCronCommand env.tablePrefix schemaName new.jobId) =
        entryOf env kn expression := by
      rw [hkn]
      rfl
    rw [hkey, hentry] at h
    subst h
    exact hs.write (hs.entries.write hne)

/-- All statements of an update. -/
theorem does_replaceIn {new : Job} {w : World Pg} (hcron : old.triggerType = .cron) (user : old.endpointType ≠ .internal)
    (hexpr : new.cronExpression = some cron) (hver : new.version = old.version + 1)
    (hep : new.endpoint = old.endpoint) (hty : new.endpointType = old.endpointType) (hid : new.jobId = jobId)
    (ho : Open t now (fun _ => True) (HasJob ⟨schemaName, jobId⟩ old) Started w) :
    Does g (.updateJob schemaName jobId body) t (fun r w' => UpdateEnds g schemaName jobId body t r w')
      (fun _ w' => UpdateQuits g schemaName jobId body t w') (JobsApi.replaceIn env schemaName jobId new cron) w := by
  unfold JobsApi.replaceIn
  refine tries_bind (tries_adapt (tries_bind ?_))
  refine does_retireBase (by rw [hid]) ho (fun _ _ h => update_quits (lasting_hasJob _ _) h) ?_
  intro _ f w₁ ho₁
  have hK := lasting_known ⟨schemaName, jobId⟩ old f
  refine does_insertOne hK ?_ (covers_of_not_work rfl) ho₁ (fun _ _ _ _ _ _ _ _ h => update_quits hK h) ?_
  · decide
  intro w₂ w₃ s e facts _ hs hn hh ho₃
  have v : Version ⟨schemaName, jobId⟩ ⟨schemaName, e.fresh.val⟩ old (Jobs.nextVersion e.fresh now jobId new) cron :=
    ⟨rfl, ⟨rfl, e.fresh.property, rfl, rfl, rfl, fun h => by cases h⟩, rfl, hexpr, rfl, hver, hep, hty⟩
  have swapping : Open t now (fun _ => True) (Found.Known ⟨schemaName, jobId⟩ old f)
      (Swapping g now ⟨schemaName, jobId⟩ ⟨schemaName, e.fresh.val⟩ (Jobs.nextVersion e.fresh now jobId new) f
        fun s => Quiet (M := Pg) .cronJob s) w₃ :=
    ho₃.mono (fun _ h => h) (fun _ h => h ▸ facts.known) fun s' _ h => h ▸ hs.insert hn hh
  refine tries_bind (tries_adapt (does_dropEntry hcron swapping (fun _ _ h => update_quits hK h) fun w₄ ho₄ => ?_))
  refine tries_bind (tries_adapt (does_swapEntry v ho₄ (fun _ _ h => update_quits hK h) fun w₅ ho₅ => tries_pure ?_))
  exact does_commit hK rfl trivial ho₅ (fun s hs => hs.live)
    (fun w₆ s e facts hs => hs.commit facts.sound facts.session facts.known v hcron user)
    (fun _ _ _ _ _ _ _ => trivial) fun _ _ s _ _ hs hi => (by
      obtain ⟨l, hv, ⟨l₀, _, rfl⟩, _⟩ := hi
      exact ⟨l₀, s, congrArg Prod.snd hv, hs.new, rfl⟩)

/-- What an answer of an update says about its thread. -/
def UpdateReply (schemaName jobId : String) (t : Nat) (w : World Pg) : Reply → Prop
  | .jobUpdated j => Updated schemaName jobId t w j
  | _ => True

theorem does_updateJob (hw : Idle t (fun _ => True) (fun _ => True) w₀) :
    Does g (.updateJob schemaName jobId body) t (fun r w' => UpdateReply schemaName jobId t w' r) (fun _ _ => True)
      (JobsApi.update env schemaName jobId body) w₀ := by
  unfold JobsApi.update
  refine tries_bind (does_connect closed_true lasting_true rfl hw (fun _ _ _ _ _ _ _ => trivial) fun w₁ hi₁ => ?_)
  refine tries_bind (tries_adapt ?_)
  unfold Jobs.get
  rw [execute_alone rfl]
  refine does_read closed_true lasting_true rfl hi₁ (fun _ _ _ _ _ _ _ _ => trivial) fun w e now here => ?_
  cases hold : w.rows .jobs ⟨schemaName, jobId⟩ with
  | none =>
    refine ⟨_, lasting_true, trivial, fun w₂ hi₂ => ?_⟩
    simp only [DbContext.key, hold]
    exact tries_throw trivial
  | some old =>
    have hK := lasting_hasJob ⟨schemaName, jobId⟩ old
    refine ⟨_, hK, ⟨old, hold, sameJob_refl old⟩, fun w₂ hi₂ => ?_⟩
    simp only [DbContext.key, hold]
    have hid : old.jobId = jobId := (here.inv.linked.job _ old hold).1
    cases hchk : JobsApi.checkUpdatable old with
    | error x => exact tries_bind (tries_throw trivial)
    | ok u =>
      have hupd : old.triggerType = .cron ∧ old.endpointType ≠ .internal := by
        unfold JobsApi.checkUpdatable at hchk
        split at hchk
        next => cases hchk
        next h₁ =>
          split at hchk
          next => cases hchk
          next =>
            split at hchk
            next => cases hchk
            next h₃ => exact ⟨by simpa using h₁, h₃⟩
      refine tries_bind (tries_pure ?_)
      cases hc : JobsApi.cronOf env body old with
      | error x => exact tries_bind (tries_throw trivial)
      | ok cron =>
        refine tries_bind (tries_pure ?_)
        split
        next => exact tries_bind (tries_throw trivial)
        next =>
          refine tries_bind (does_ext_idle (x := .now) closed_true hK rfl trivial hi₂ fun w₃ e₃ w₄ _ hi₄ => ?_)
          split
          next => exact tries_throw trivial
          next nextRun _ =>
            refine tries_bind (does_scoped rfl (does_tx closed_true.begin hK rfl hi₄ (fun _ _ _ _ _ _ _ => trivial) ?_))
            intro now' w₅ ho₅
            have walk : Does g (.updateJob schemaName jobId body) t (fun r w' => UpdateEnds g schemaName jobId body t r w')
                (fun _ w' => UpdateQuits g schemaName jobId body t w') (JobsApi.replaceIn env schemaName jobId
                  (JobsApi.replacementFor old body cron (body.timezone.getD (old.cronTimezone.getD "UTC")) nextRun) cron) w₅ :=
              does_replaceIn hupd.1 hupd.2 rfl rfl rfl rfl hid ho₅
            refine walk.mono (fun r w₆ h => ?_) fun _ _ h => h
            exact Tries.mono h (fun _ _ updated => tries_pure updated) fun _ _ h => h

theorem runs_updateJob {w : World Pg} (h : w.view t = (none, [])) :
    Runs g (.updateJob schemaName jobId body) t ((base g).post (.updateJob schemaName jobId body) t)
      ((service env).program (.updateJob schemaName jobId body)) w := by
  refine holds_run (Tries.mono (does_updateJob ⟨[], h, trivial, trivial⟩) (fun r w' reply => ?_) fun x w' _ => ?_)
  · refine Prog.holds_pure.mpr ⟨trivial, ?_⟩
    cases r with
    | jobUpdated j => exact reply
    | _ => trivial
  · exact Prog.holds_pure.mpr ⟨trivial, trivial⟩

end statements

end Invokr

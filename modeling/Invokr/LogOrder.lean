import Invokr.LogTimes
import Invokr.JobPages

namespace Invokr

open TxLib

variable {env : Setup} {acts : List (Action (service env))} {schemaName executionId : String}
  {scan : List ExecutionLog → List ExecutionLog}

/-- The logs of an execution, as a request of its own lists them at a moment of the run. -/
def ReadsLogs (env : Setup) (scan : List ExecutionLog → List ExecutionLog) (schemaName executionId : String)
    (acts : List (Action (service env))) (ls : List ExecutionLog) : Prop :=
  ∃ t envs w', (after acts).world.sessions t = none ∧
    World.play t (ExecutionsApi.listLogs env scan schemaName executionId).run envs (after acts).world = some (w', .ok ls)

theorem reads_logs {ls : List ExecutionLog} (h : ReadsLogs env scan schemaName executionId acts ls) :
    ls = ExecutionLogs.listed scan (committed acts) schemaName executionId := by
  obtain ⟨t, envs, w', idle, play⟩ := h
  have body : Solo t (after acts).world
      (fun ls _ => ls = ExecutionLogs.listed scan (committed acts) schemaName executionId) (fun _ _ => True)
      (ExecutionsApi.listLogs env scan schemaName executionId) (after acts).world := by
    refine tries_bind ((solo_connect (between_start idle)).mono (fun _ w₁ hi => ?_) fun _ _ h => h)
    refine tries_bind (tries_adapt ((solo_read rfl hi).mono (fun found w₂ hr => ?_) fun _ _ h => h))
    split
    next => exact tries_throw trivial
    next =>
      refine tries_adapt ((solo_read rfl hr.1).mono (fun ls w₃ hr' => ?_) fun _ _ h => h)
      obtain ⟨_, now, rfl⟩ := hr'
      rfl
  have ends := World.play_ends play
  exact (solo_ends (Beside.refl (keeps_all acts).sound) body ends).2

/-- The committed logs of an execution. -/
def logsOf (schemaName executionId : String) (acts : List (Action (service env))) : List ExecutionLog :=
  rowsOf (committed acts) schemaName .executionLogs fun (l : ExecutionLog) => l.executionId = executionId

theorem mem_logsOf {l : ExecutionLog} : l ∈ logsOf schemaName executionId acts ↔
    (after acts).world.rows .executionLogs ⟨schemaName, l.logId⟩ = some l ∧ l.executionId = executionId := by
  constructor
  · intro h
    obtain ⟨k, _, rfl, hl, hid⟩ := mem_rowsOf.mp h
    have key : l.logId = k.id := (timed_run acts).line k l hl
    exact ⟨by rw [key]; exact hl, by simpa using hid⟩
  · rintro ⟨hl, hid⟩
    exact mem_rowsOf.mpr ⟨_, committed_keyed hl, rfl, hl, by simpa using hid⟩

theorem logsOf_distinct (acts : List (Action (service env))) :
    (logsOf schemaName executionId acts).Pairwise fun a b => a.logId ≠ b.logId :=
  rowsOf_distinct .executionLogs (fun l => l.executionId = executionId) ExecutionLog.logId (timed_run acts).line

theorem listed_perm (acts : List (Action (service env))) (schemaName executionId : String)
    (permutes : ∀ ls, (scan ls).Perm ls) :
    (ExecutionLogs.listed scan (committed acts) schemaName executionId).Perm (logsOf schemaName executionId acts) :=
  (List.perm_insertionSort _ _).trans (permutes _)

theorem listed_sorted : (ExecutionLogs.listed scan (committed acts) schemaName executionId).Pairwise
    fun a b => a.loggedAt ≤ b.loggedAt := by
  have total : ∀ a b : ExecutionLog, a.loggedAt ≤ b.loggedAt ∨ b.loggedAt ≤ a.loggedAt := fun a b => le_total _ _
  have trans : ∀ a b c : ExecutionLog, a.loggedAt ≤ b.loggedAt → b.loggedAt ≤ c.loggedAt → a.loggedAt ≤ c.loggedAt :=
    fun _ _ _ => le_trans
  have : Std.Total fun a b : ExecutionLog => a.loggedAt ≤ b.loggedAt := ⟨total⟩
  have : IsTrans ExecutionLog fun a b => a.loggedAt ≤ b.loggedAt := ⟨trans⟩
  exact List.pairwise_insertionSort _ _

/-- The moment at which the transaction of the run's `n`-th step began. -/
def began (acts : List (Action (service env))) (n : Nat) : Option Int :=
  match acts[n]? with
  | some (.step t _) => ((after (acts.take n)).world.sessions t).map Session.now
  | _ => none

theorem began_line {n : Nat} {k : Key} {l : ExecutionLog} (h : WrittenAt acts n k l) : began acts n = some l.loggedAt := by
  obtain ⟨t, e, s, s', y, hx, hs, hs', hnow, hy, hl⟩ := h.session rfl lines_keep
  have hlog := ((logging_handled hs' hy).gripped hy hl).2.1
  simp only [began, hx, hs, Option.map_some, hlog, hnow]

/-- The step of the run that wrote the committed line. -/
theorem written_exists {l : ExecutionLog} (h : l ∈ logsOf schemaName executionId acts) :
    ∃ n, WrittenAt acts n ⟨schemaName, l.logId⟩ l :=
  entered_exists (Or.inl (mem_logsOf.mp h).1)

/-- The lines stand in the order in which the run wrote them. -/
def InOrder (acts : List (Action (service env))) (schemaName : String) (ls : List ExecutionLog) : Prop :=
  ls.Pairwise fun a b => ∃ n n', n < n' ∧ WrittenAt acts n ⟨schemaName, a.logId⟩ a ∧ WrittenAt acts n' ⟨schemaName, b.logId⟩ b

/-- Lines that began at different times are listed in one way, in which they were written. -/
theorem listed_in_order (apart : ∀ a ∈ logsOf schemaName executionId acts, ∀ b ∈ logsOf schemaName executionId acts, a ≠ b →
      a.loggedAt ≠ b.loggedAt) (permutes : ∀ ls, (scan ls).Perm ls) :
    InOrder acts schemaName (ExecutionLogs.listed scan (committed acts) schemaName executionId) ∧
      ExecutionLogs.listed scan (committed acts) schemaName executionId =
        ExecutionLogs.listed id (committed acts) schemaName executionId := by
  have perm := listed_perm acts schemaName executionId permutes
  have perm₀ : (ExecutionLogs.listed id (committed acts) schemaName executionId).Perm _ :=
    listed_perm acts schemaName executionId List.Perm.refl
  constructor
  · have distinct : (ExecutionLogs.listed scan (committed acts) schemaName executionId).Pairwise fun a b => a.logId ≠ b.logId :=
      (perm.pairwise_iff fun {_ _} (h : _ ≠ _) => h.symm).mpr (logsOf_distinct acts)
    refine (listed_sorted.and distinct).imp_of_mem fun {a b} ha hb hab => ?_
    have ha' := perm.mem_iff.mp ha
    have hb' := perm.mem_iff.mp hb
    have hne : a ≠ b := fun h => hab.2 (congrArg ExecutionLog.logId h)
    obtain ⟨n, hn⟩ := written_exists ha'
    obtain ⟨n', hn'⟩ := written_exists hb'
    refine ⟨n, n', ?_, hn, hn'⟩
    rcases lt_trichotomy n n' with before | same | later
    · exact before
    · subst same
      exact absurd (hn.apart hn' rfl lines_keep).2 hne
    · have weak := lines_weakly_ordered hn' hn later rfl ((mem_logsOf.mp hb').2.trans (mem_logsOf.mp ha').2.symm)
      exact absurd (le_antisymm hab.1 weak) (apart a ha' b hb' hne)
  · refine (perm.trans perm₀.symm).eq_of_pairwise (fun a b ha hb hab hba => ?_) listed_sorted listed_sorted
    by_contra hne
    exact apart a (perm.mem_iff.mp ha) b (perm₀.mem_iff.mp hb) hne (le_antisymm hab hba)

/-- Two lines of the same time are listed as the database comes upon them. -/
theorem listed_tied {a b : ExecutionLog} (h : [a, b].Sublist (scan (logsOf schemaName executionId acts)))
    (tied : a.loggedAt = b.loggedAt) : [a, b].Sublist (ExecutionLogs.listed scan (committed acts) schemaName executionId) := by
  have trans : ∀ a b c : ExecutionLog, a.loggedAt ≤ b.loggedAt → b.loggedAt ≤ c.loggedAt → a.loggedAt ≤ c.loggedAt :=
    fun _ _ _ => le_trans
  have : IsTrans ExecutionLog fun a b => a.loggedAt ≤ b.loggedAt := ⟨trans⟩
  have : Std.Total fun a b : ExecutionLog => a.loggedAt ≤ b.loggedAt := ⟨fun a b => le_total _ _⟩
  exact List.pair_sublist_insertionSort (le_of_eq tied) h

theorem InOrder.before {ls : List ExecutionLog} {a b : ExecutionLog} (h : InOrder acts schemaName ls)
    (hab : [a, b].Sublist ls) : ∃ n n', n < n' ∧ WrittenAt acts n ⟨schemaName, a.logId⟩ a ∧
      WrittenAt acts n' ⟨schemaName, b.logId⟩ b := by
  have pair := h.sublist hab
  exact List.rel_of_pairwise_cons pair (List.mem_singleton.mpr rfl)

/-- A listing that is the same whatever the database comes upon first has no two lines of the same time. -/
theorem listed_apart {ls : List ExecutionLog} (inOrder : InOrder acts schemaName ls)
    (same : ∀ scan : List ExecutionLog → List ExecutionLog, (∀ ls, (scan ls).Perm ls) →
      ExecutionLogs.listed scan (committed acts) schemaName executionId = ls) {a b : ExecutionLog}
    (h : [a, b].Sublist (logsOf schemaName executionId acts)) : a.loggedAt ≠ b.loggedAt := by
  intro tied
  have turned : [b, a].Sublist (logsOf schemaName executionId acts).reverse := List.reverse_sublist.mpr h
  have one : [a, b].Sublist (ExecutionLogs.listed id (committed acts) schemaName executionId) := listed_tied h tied
  have other : [b, a].Sublist (ExecutionLogs.listed List.reverse (committed acts) schemaName executionId) :=
    listed_tied turned tied.symm
  rw [same id fun _ => List.Perm.refl _] at one
  rw [same List.reverse List.reverse_perm] at other
  obtain ⟨n, n', lt, hn, hn'⟩ := inOrder.before one
  obtain ⟨m', m, lt', hm', hm⟩ := inOrder.before other
  have := hn.unique hm
  have := hn'.unique hm'
  omega

/-- `GET /v1/executions/{id}/logs` lists the committed lines by time, in an order that is determined, and the one in
which they were written, if and only if no two of them come from transactions that began at the same time. -/
theorem logs_in_order (acts : List (Action (service env))) (schemaName executionId : String) :
    (∀ scan ls, ReadsLogs env scan schemaName executionId acts ls →
      ls = ExecutionLogs.listed scan (committed acts) schemaName executionId) ∧
    ((∃ ls, InOrder acts schemaName ls ∧ ∀ scan : List ExecutionLog → List ExecutionLog, (∀ ls, (scan ls).Perm ls) →
        ExecutionLogs.listed scan (committed acts) schemaName executionId = ls) ↔
      ∀ a ∈ logsOf schemaName executionId acts, ∀ b ∈ logsOf schemaName executionId acts, a ≠ b →
        ∀ n n', WrittenAt acts n ⟨schemaName, a.logId⟩ a → WrittenAt acts n' ⟨schemaName, b.logId⟩ b →
          began acts n ≠ began acts n') := by
  refine ⟨fun scan ls h => reads_logs h, fun ⟨ls, inOrder, same⟩ a ha b hb hne n n' hn hn' tied => ?_, fun apart => ?_⟩
  · rw [began_line hn, began_line hn'] at tied
    have times : (logsOf schemaName executionId acts).Pairwise fun a b => a.loggedAt ≠ b.loggedAt :=
      List.pairwise_iff_forall_sublist.mpr fun h => listed_apart inOrder same h
    have : Std.Symm fun a b : ExecutionLog => a.loggedAt ≠ b.loggedAt := ⟨fun _ _ h => h.symm⟩
    exact times.forall ha hb hne (Option.some.inj tied)
  · have times : ∀ a ∈ logsOf schemaName executionId acts, ∀ b ∈ logsOf schemaName executionId acts, a ≠ b →
        a.loggedAt ≠ b.loggedAt := by
      intro a ha b hb hne tied
      obtain ⟨n, hn⟩ := written_exists ha
      obtain ⟨n', hn'⟩ := written_exists hb
      refine apart a ha b hb hne n n' hn hn' ?_
      rw [began_line hn, began_line hn', tied]
    refine ⟨ExecutionLogs.listed id (committed acts) schemaName executionId, ?_, fun scan permutes => ?_⟩
    · exact (listed_in_order times List.Perm.refl).1
    · exact (listed_in_order times permutes).2

/-- The line that is listed first. -/
def firstListed (scan : List ExecutionLog → List ExecutionLog) : Option String :=
  (ExecutionLogs.listed scan (committed (oneAttempt (.response 200 ""))) "acme" (sampleId 209)).head?.map ExecutionLog.logId

theorem firstListed_differs : firstListed id ≠ firstListed List.reverse := by decide +kernel

/-- One attempt writes two lines, and its endpoint's answer can be listed before its start. -/
theorem logs_in_order_fails : ¬∀ (acts : List (Action (service sample))) (schemaName executionId : String),
    ∃ ls, InOrder acts schemaName ls ∧ ∀ scan : List ExecutionLog → List ExecutionLog, (∀ ls, (scan ls).Perm ls) →
      ExecutionLogs.listed scan (committed acts) schemaName executionId = ls := by
  intro h
  obtain ⟨ls, _, same⟩ := h (oneAttempt (.response 200 "")) "acme" (sampleId 209)
  have one := same id fun _ => List.Perm.refl _
  have other := same List.reverse List.reverse_perm
  refine firstListed_differs ?_
  unfold firstListed
  rw [one, other]

end Invokr

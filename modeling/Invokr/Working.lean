import Invokr.LibraryWalk
import Invokr.Texts

namespace Invokr

open TxLib

variable {env : Setup} {g : Guard (service env)} {workerId : String} {schemas : List String} {t : Nat} {now : Int}
  {K : Rows Pg → Prop} {Q : Session Pg → Prop} {w₀ : World Pg} {ke : Key} {b e : Execution}

/-- What the reaper does to jobs and entries: expired jobs are retired and lose their entries. The
entries of the jobs in `rest` are still to go. -/
structure Sweeps (g : Guard (service env)) (now : Int) (schemaName : String) (rest : List String) (s : Session Pg) :
    Prop where
  jobs : Each (M := Pg) .jobs (Reaped now schemaName) s
  entries : Each (M := Pg) .cronJob (fun k _ n => n = none ∧ ∃ kj h, k = entryKey kj ∧ s.held .jobs kj = some h ∧
    Reaped now schemaName kj h.base h.new) s
  gone : Official g → ∀ kj h, s.held .jobs kj = some h → Reaped now schemaName kj h.base h.new →
    kj.id ∈ rest ∨ ∃ c, s.held .cronJob (entryKey kj) = some ⟨c, none⟩
  listed : ∀ id ∈ rest, ∃ h, s.held .jobs ⟨schemaName, id⟩ = some h ∧
    Reaped now schemaName ⟨schemaName, id⟩ h.base h.new

def AttemptHeld : Option (Key × Attempt) → Session Pg → Prop
  | none, s => Quiet (M := Pg) .attempts s
  | some (ka, a), s => Only (M := Pg) .attempts ka none (some a) s

/-- The worker's open transaction: the claimed execution in its present version, the attempt once it
is recorded, and what the reaper has done. -/
structure Working (g : Guard (service env)) (now : Int) (ke : Key) (b e : Execution) (a : Option (Key × Attempt))
    (rest : List String) (s : Session Pg) : Prop where
  live : s.aborted = false
  execution : Only (M := Pg) .executions ke (some b) (some e) s
  attempt : AttemptHeld a s
  sweeps : Sweeps g now ke.schema rest s

theorem reaped_changes {now : Int} {schemaName : String} {k : Key} {x y : Option Job} (h : Reaped now schemaName k x y) :
    y ≠ x := by
  obtain ⟨_, j, rfl, _, hr, rfl⟩ := h
  intro he
  have := congrArg (Option.map Job.status) he
  rw [Option.map_some, Option.map_some, hr.1] at this
  cases this

theorem sweeps_quiet {s : Session Pg} (hj : Quiet (M := Pg) .jobs s) (hc : Quiet (M := Pg) .cronJob s) (schemaName : String) :
    Sweeps g now schemaName [] s where
  jobs := hj.mono fun _ _ _ hf => hf.elim
  entries := hc.mono fun _ _ _ hf => hf.elim
  gone _ kj h hh hr := (reaped_changes hr ((hj kj h hh).resolve_right id)).elim
  listed _ hm := by cases hm

theorem Sweeps.frame {schemaName : String} {rest : List String} {s s' : Session Pg} (h : Sweeps g now schemaName rest s)
    (hj : s'.held .jobs = s.held .jobs) (hc : s'.held .cronJob = s.held .cronJob) : Sweeps g now schemaName rest s' where
  jobs := h.jobs.frame hj
  entries := by
    rw [show Each (M := Pg) .cronJob _ s' ↔ _ from Iff.rfl, hj]
    exact h.entries.frame hc
  gone := by
    rw [hj, hc]
    exact h.gone
  listed := by
    rw [hj]
    exact h.listed

theorem Sweeps.write {schemaName : String} {rest : List String} {s : Session Pg} {D : Rows Pg} {tb : Table} {k : Key}
    {v : Option tb.Row} (h : Sweeps g now schemaName rest s) (hj : Table.jobs ≠ tb) (hc : Table.cronJob ≠ tb) :
    Sweeps g now schemaName rest (s.write D tb k v) :=
  h.frame (funext fun _ => Session.write_held_tbl s D v hj) (funext fun _ => Session.write_held_tbl s D v hc)

theorem AttemptHeld.write {a : Option (Key × Attempt)} {s : Session Pg} {D : Rows Pg} {tb : Table} {k : Key}
    {v : Option tb.Row} (h : AttemptHeld a s) (ht : Table.attempts ≠ tb) : AttemptHeld a (s.write D tb k v) := by
  cases a with
  | none =>
    have quiet : Quiet (M := Pg) .attempts s := h
    exact quiet.write_tbl ht
  | some x =>
    have only : Only (M := Pg) .attempts x.1 none (some x.2) s := h
    exact only.write_tbl ht

theorem Sweeps.locks {schemaName : String} {rest : List String} {s s' : Session Pg} (h : Sweeps g now schemaName rest s)
    (hl : Locks s s') : Sweeps g now schemaName rest s' where
  jobs := h.jobs.locks hl
  entries := by
    refine (h.entries.locks hl).mono fun k _ n hn => ?_
    obtain ⟨hn, kj, x, hk, hh, hr⟩ := hn
    exact ⟨hn, kj, x, hk, hl.held hh, hr⟩
  gone official kj x hh hr := by
    rcases hl.2.2 .jobs kj with he | ⟨_, y, hy⟩
    · exact (h.gone official kj x (he ▸ hh) hr).imp_right fun ⟨c, hc⟩ => ⟨c, hl.held hc⟩
    · rw [hy] at hh
      cases hh
      exact (reaped_changes hr rfl).elim
  listed id hm := by
    obtain ⟨x, hh, hr⟩ := h.listed id hm
    exact ⟨x, hl.held hh, hr⟩

theorem Working.locks {a : Option (Key × Attempt)} {rest : List String} {s s' : Session Pg}
    (h : Working g now ke b e a rest s) (hl : Locks s s') : Working g now ke b e a rest s' where
  live := hl.2.1.trans h.live
  execution := h.execution.locks hl
  attempt := by
    have ha := h.attempt
    cases a with
    | none =>
      have quiet : Quiet (M := Pg) .attempts s := ha
      exact quiet.locks hl
    | some x =>
      have only : Only (M := Pg) .attempts x.1 none (some x.2) s := ha
      exact only.locks hl
  sweeps := h.sweeps.locks hl

/-- The execution gets another version. -/
theorem Working.patch {a : Option (Key × Attempt)} {rest : List String} {s : Session Pg} {D : Rows Pg} {e' : Execution}
    (h : Working g now ke b e a rest s) : Working g now ke b e' a rest (s.write D .executions ke (some e')) where
  live := h.live
  execution := h.execution.write
  attempt := h.attempt.write (by decide)
  sweeps := h.sweeps.write (by decide) (by decide)

/-- A log line is written. -/
theorem Working.log {a : Option (Key × Attempt)} {rest : List String} {s : Session Pg} {D : Rows Pg} {k : Key}
    {v : Option ExecutionLog} (h : Working g now ke b e a rest s) :
    Working g now ke b e a rest (s.write D .executionLogs k v) where
  live := h.live
  execution := h.execution.write_tbl (by decide)
  attempt := h.attempt.write (by decide)
  sweeps := h.sweeps.write (by decide) (by decide)

/-- The attempt is recorded. -/
theorem Working.record {rest : List String} {s : Session Pg} {D : Rows Pg} {k : Key} {x : Attempt}
    (h : Working g now ke b e none rest s) (hh : s.held .attempts k = none) (hD : D .attempts k = none) :
    Working g now ke b e (some (k, x)) rest (s.write D .attempts k (some x)) where
  live := h.live
  execution := h.execution.write_tbl (by decide)
  attempt := by
    have quiet : Quiet (M := Pg) .attempts s := h.attempt
    have := quiet.only (D := D) (k := k) (v := some x)
    rwa [baseOf_none hh hD] at this
  sweeps := h.sweeps.write (by decide) (by decide)

section phases

variable {o : Option Dispatch} {a : Option (Key × Attempt)} {rest : List String}

/-- A worker that has dispatched does not lose its transaction. -/
def Lost (g : Guard (service env)) : Option Dispatch → Prop
  | none => True
  | some _ => ¬Counted g

/-- The worker's history since the claim: the claim, and the dispatch once it is made. -/
def Past (ke : Key) (b : Execution) (o : Option Dispatch) (l : List (Entry Pg)) : Prop :=
  handed l = o.toList ∧ Entry.updated (M := Pg) .claim .executions ke (some b) ∈ current l

theorem handed_snoc {l : List (Entry Pg)} {x : Entry Pg} (hx : x.inside = true) :
    handed (l ++ [x]) = handed l ++ (dispatchOf x).toList := by
  simp only [handed, current_inside hx, List.filterMap_append]
  cases h : dispatchOf x <;> simp [List.filterMap, h]

theorem extends_past : Extends (Past ke b o) := by
  rintro l x hx hd ⟨hh, hm⟩
  refine ⟨by rw [handed_snoc hx, hd, hh]; simp, ?_⟩
  rw [current_inside hx]
  exact List.mem_append_left _ hm

theorem covers_working (ho : ∀ d, o = some d → d.key = ke) (hc : e.attemptCount = b.attemptCount + 1) :
    Covers g (.work workerId schemas) t now (Past ke b o) K (Unless (Lost g o) (Working g now ke b e a rest)) := by
  rintro w op free ⟨s, l, hv, _, hl, _, hs⟩
  refine ⟨fun counted d hd => ?_, free_calls free⟩
  rw [hv] at hd ⊢
  have hh : handed l = o.toList := hl.1
  rw [hh] at hd ⊢
  cases o with
  | none => cases hd
  | some d' =>
    obtain rfl : d = d' := by simpa using hd
    rcases hs with ⟨_, lost⟩ | ⟨ha, working⟩
    · exact (lost counted).elim
    · exact ⟨rfl, s, rfl, ha, b, e, by rw [ho d rfl]; exact working.execution.1, hc⟩

/-- A rejected statement of a worker that has dispatched is a mishap. -/
theorem lost_of_unlucky {w : World Pg} {env₁ : Env Pg} {op : Op Pg}
    (here : Here g (.work workerId schemas) t (Past ke b o) K w env₁ op) (h : Unlucky w t env₁ op) : Lost g o := by
  cases o with
  | none => trivial
  | some d =>
    intro counted
    refine counted.1 workerId schemas w t env₁ op here.allowed (Or.inl ⟨h, Or.inl ?_⟩)
    rw [here.past.1]
    exact List.cons_ne_nil _ _

/-- Only a worker that has lost its transaction finds it aborted. -/
theorem lost_of_aborted {s : Session Pg} (h : Unless (Lost g o) Q s) (ha : s.aborted = true) : Lost g o := by
  rcases h with ⟨_, lost⟩ | ⟨hn, _⟩
  · exact lost
  · rw [ha] at hn
    cases hn

theorem open_lost {w : World Pg} {H : List (Entry Pg) → Prop} {Q' : Session Pg → Prop} (h : Open t now H K Aborted w)
    (lost : Lost g o) : Open t now H K (Unless (Lost g o) Q') w :=
  h.mono (fun _ h => h) (fun _ h => h) fun _ _ ha => Or.inl ⟨ha, lost⟩

theorem unless_live {s : Session Pg} (h : Unless (Lost g o) Q s) (ha : s.aborted = false) : Q s := by
  rcases h with ⟨hn, _⟩ | ⟨_, hq⟩
  · rw [ha] at hn
    cases hn
  · exact hq

end phases

end Invokr

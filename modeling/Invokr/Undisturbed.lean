import Invokr.Origins
import Invokr.Spared

namespace TxLib

variable {M : Model} {S : System M} {tb : M.Tbl}

/-- No other thread makes a step. -/
def Undisturbed (t : Nat) (own : List (Action S)) : Prop := ∀ x ∈ own, ∀ u e, x = .step u e → u = t

variable {before own q : List (Action S)} {t : Nat} {req : S.Req}

/-- The calls of a thread that is started in the run are those of its request. -/
theorem Pool.served (free : ((Pool.empty S).run before).threads t = none) (le : q <+: before ++ .start t req :: own)
    {req' : S.Req} {o : Op M} (h : ((Pool.empty S).run q).next t = some (req', o)) : before <+: q ∧ req' = req := by
  obtain ⟨th, _, hth, _, rfl, _⟩ := Pool.waits h
  have late : ¬q <+: before := by
    rintro ⟨rest, rfl⟩
    obtain ⟨_, there, _⟩ := Pool.run_req hth rest
    rw [← Pool.run_append, free] at there
    cases there
  have started : before ++ [.start t req] <+: before ++ .start t req :: own := ⟨own, by simp⟩
  rcases List.prefix_or_prefix_of_prefix le started with hq | hq
  · rcases List.prefix_concat_iff.mp hq with rfl | hq
    · refine ⟨List.prefix_append _ _, ?_⟩
      rw [Pool.run_append, Pool.run_cons, Pool.run_nil] at hth
      cases Pool.act_started free hth
      rfl
    · exact (late hq).elim
  · obtain ⟨rest, rfl⟩ := hq
    refine ⟨(List.prefix_append _ _).trans (List.prefix_append _ _), ?_⟩
    have first : ((Pool.empty S).run (before ++ [.start t req])).threads t = some ⟨req, S.program req, true⟩ := by
      simp [Pool.run_append, Pool.act, free]
    obtain ⟨th', hth', hreq⟩ := Pool.run_req first rest
    rw [← Pool.run_append, hth] at hth'
    cases hth'
    exact hreq

/-- Every step since the thread was started is its own. -/
theorem Undisturbed.own_step (alone : Undisturbed t own) (since : before <+: q) {u : Nat} {e : Env M}
    (le : q ++ [.step u e] <+: before ++ .start t req :: own) : u = t := by
  obtain ⟨more, rfl⟩ := since
  rw [List.append_assoc] at le
  have here : Action.step u e ∈ Action.start t req :: own :=
    ((List.prefix_append_right_inj before).mp le).subset (List.mem_append_right more (List.mem_singleton.mpr rfl))
  rcases List.mem_cons.mp here with hs | hs
  · cases hs
  · exact alone _ hs u e rfl

section rows

variable {P : S.Req → Memory M → Op M → Prop} {Q : S.Req → S.Resp → Memory M → Prop}

/-- A table that a request does not write stays as it is while the request is served undisturbed. -/
theorem Pool.undisturbed_rows (holds : ∀ req, (S.program req).Holds Recalls (P req) (Q req) (none, []))
    (spares : ∀ m o, P req m o → Spares tb o ∧ ¬Drops tb o)
    (free : ((Pool.empty S).run before).threads t = none) (alone : Undisturbed t own)
    (since : before <+: q) (le : q <+: before ++ .start t req :: own) :
    ((Pool.empty S).run q).world.rows tb = ((Pool.empty S).run before).world.rows tb := by
  obtain ⟨more, rfl⟩ := since
  induction more using List.reverseRecOn with
  | nil => rw [List.append_nil]
  | append_singleton more x ih =>
    rw [← List.append_assoc] at le ⊢
    have upTo := (List.prefix_append (before ++ more) [x]).trans le
    rw [← ih upTo, Pool.run_append (Pool.empty S) (before ++ more)]
    refine Pool.act_spared holds (fun req' => req' = req) (fun req' m o he ho => spares m o (he ▸ ho))
      fun u e req' o hx hn => ?_
    subst hx
    have hu : u = t := alone.own_step (List.prefix_append _ _) le
    subst hu
    exact (Pool.served free upTo hn).2

end rows

end TxLib

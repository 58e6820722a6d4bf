import Mathlib.Data.List.Induction
import Mathlib.Logic.Function.Basic

namespace TtlCache

variable {K V : Type}

/-- An access that changes what a map holds under a key. -/
inductive Access (K V : Type) where
  | set (k : K) (v : V)
  | remove (k : K)

def Access.key : Access K V → K
  | set k _ => k
  | remove k => k

/-- What a map holds under its keys, and since when. -/
abbrev Entries (K V : Type) := K → Option (V × Int)

def Entries.change [DecidableEq K] (m : Entries K V) (now : Int) : Option (Access K V) → Entries K V
  | some (.set k v) => Function.update m k (some (v, now))
  | some (.remove k) => Function.update m k none
  | none => m

/-- The map after the accesses, each at its place's time. -/
def entries [DecidableEq K] (clock : Nat → Int) (l : List (Option (Access K V))) : Entries K V :=
  l.zipIdx.foldl (fun m x => m.change (clock x.2) x.1) fun _ => none

/-- What a look-up finds that takes entries for expired once they are as old as `ttl`. -/
def live (ttl now : Int) : Option (V × Int) → Option V
  | some (v, since) => if now - since < ttl then some v else none
  | none => none

/-- The value was set at the place, and nothing has become of the key since then. -/
structure LastSet (l : List (Option (Access K V))) (n : Nat) (k : K) (v : V) : Prop where
  set : l[n]? = some (some (.set k v))
  last : ∀ m a, n < m → l[m]? = some (some a) → a.key ≠ k

variable {clock : Nat → Int} {l : List (Option (Access K V))} {k : K} {v : V} {a : Option (Access K V)}

theorem LastSet.snoc {n : Nat} (h : LastSet l n k v) (other : ∀ x, a = some x → x.key ≠ k) : LastSet (l ++ [a]) n k v where
  set := by
    have bound : n < l.length := (List.getElem?_eq_some_iff.mp h.set).1
    rw [List.getElem?_append_left bound]
    exact h.set
  last m x hm hx := by
    rcases Nat.lt_or_ge m l.length with inside | beyond
    · rw [List.getElem?_append_left inside] at hx
      exact h.last m x hm hx
    · rw [List.getElem?_append_right beyond] at hx
      have place : m - l.length = 0 := by
        have := (List.getElem?_eq_some_iff.mp hx).1
        simpa using this
      rw [place] at hx
      exact other x (Option.some.inj hx)

theorem lastSet_snoc (l : List (Option (Access K V))) (k : K) (v : V) : LastSet (l ++ [some (.set k v)]) l.length k v where
  set := by simp
  last m x hm hx := by
    have := (List.getElem?_eq_some_iff.mp hx).1
    simp only [List.length_append, List.length_singleton] at this
    omega

variable [DecidableEq K]

theorem entries_snoc (clock : Nat → Int) (l : List (Option (Access K V))) (a : Option (Access K V)) :
    entries clock (l ++ [a]) = (entries clock l).change (clock l.length) a := by
  simp [entries, List.zipIdx_append]

theorem change_other {m : Entries K V} {now : Int} {x : Access K V} (h : x.key ≠ k) : m.change now (some x) k = m k := by
  cases x <;> exact Function.update_of_ne (Ne.symm h) _ _

/-- What a map holds is what was set last, at the time it was set. -/
theorem entries_lastSet {since : Int} (h : entries clock l k = some (v, since)) :
    ∃ n, LastSet l n k v ∧ since = clock n := by
  induction l using List.reverseRecOn with
  | nil => cases h
  | append_singleton l a ih =>
    rw [entries_snoc] at h
    have kept : (∀ x, a = some x → x.key ≠ k) → entries clock l k = some (v, since) →
        ∃ n, LastSet (l ++ [a]) n k v ∧ since = clock n := by
      intro other before
      obtain ⟨n, last, hn⟩ := ih before
      exact ⟨n, last.snoc other, hn⟩
    cases a with
    | none => exact kept (fun x hx => by cases hx) h
    | some x =>
      by_cases same : x.key = k
      · subst same
        cases x with
        | set k' v' =>
          have held : (entries clock l).change (clock l.length) (some (.set k' v')) k' = some (v', clock l.length) :=
            Function.update_self ..
          obtain ⟨rfl, rfl⟩ := Prod.mk.inj (Option.some.inj (held.symm.trans h))
          exact ⟨_, lastSet_snoc l _ _, rfl⟩
        | remove k' =>
          have held : (entries clock l).change (clock l.length) (some (.remove k')) k' = none := Function.update_self ..
          cases held.symm.trans h
      · refine kept (fun y hy => ?_) ?_
        · cases hy
          exact same
        · rw [change_other same] at h
          exact h

/-- What a look-up finds was set less than `ttl` ago, and nothing has become of the key since. -/
theorem live_lastSet {ttl now : Int} (h : live ttl now (entries clock l k) = some v) :
    ∃ n, LastSet l n k v ∧ now - clock n < ttl := by
  unfold live at h
  split at h
  next w since held =>
    split at h
    next fresh =>
      cases h
      obtain ⟨n, last, rfl⟩ := entries_lastSet held
      exact ⟨n, last, fresh⟩
    next => cases h
  next => cases h

end TtlCache

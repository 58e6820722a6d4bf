import Invokr.SecretDeletion
import Invokr.TtlCache
import Invokr.WorkerIsolation

namespace Invokr

open TxLib TtlCache

variable {env : Setup} {c : CacheKind}

/-- What a look-up has found that is not expired. -/
def Cached.found {α : Type} : Cached α → Option α
  | .live a => some a
  | _ => none

namespace CacheKind

def get : CacheKind → String → External
  | config, name => .configCacheGet name
  | secret, name => .secretCacheGet name

def found (e : Env Pg) (name : String) : (c : CacheKind) → Option c.Value
  | config => Cached.found (e.answer (.configCacheGet name) : Cached Json)
  | secret => Cached.found (e.answer (.secretCacheGet name) : Cached String)

/-- The name that the call looks up in the cache. -/
def asked : CacheKind → External → Option String
  | config, .configCacheGet name => some name
  | secret, .secretCacheGet name => some name
  | _, _ => none

/-- What the call changes in the cache of its process. A look-up that has found no entry removes none. -/
def access (process : Nat) : (c : CacheKind) → External → Option (Access (Nat × String) c.Value)
  | config, .configCacheSet name values => some (.set (process, name) values)
  | config, .configCacheRemove name true => some (.remove (process, name))
  | secret, .secretCacheSet name value => some (.set (process, name) value)
  | secret, .secretCacheRemove name true => some (.remove (process, name))
  | _, _ => none

theorem asked_get (c : CacheKind) (name : String) : c.asked (c.get name) = some name := by
  cases c <;> rfl

theorem set_inj {c' : CacheKind} {name name' : String} {v : c.Value} {v' : c'.Value} (h : c.set name v = c'.set name' v') :
    c' = c ∧ name' = name ∧ HEq v' v := by
  cases c <;> cases c' <;> cases h <;> exact ⟨rfl, rfl, HEq.rfl⟩

theorem access_set {process : Nat} {x : External} {k : Nat × String} {v : c.Value} (h : c.access process x = some (.set k v)) :
    k.1 = process ∧ x = c.set k.2 v := by
  unfold access at h
  split at h <;> cases h <;> exact ⟨rfl, rfl⟩

theorem set_caches (name : String) (v : c.Value) : External.caches (c.set name v) = true := by
  cases c <;> rfl

end CacheKind

/-- Worker processes: where each thread runs, how long entries live and the time at each place of a run. -/
structure Fleet where
  home : Nat → Nat
  ttl : Int
  clock : Nat → Int

/-- A call to something outside the database. -/
structure OutsideCall where
  thread : Nat
  env : Env Pg
  call : External

/-- The call that a worker's thread makes in the action. -/
def outsideCall (p : Pool (service env)) : Action (service env) → Option OutsideCall
  | .step t e =>
    match p.next t with
    | some (.work _ _, .ext x) => some ⟨t, e, x⟩
    | _ => none
  | _ => none

namespace Fleet

variable (f : Fleet) (c : CacheKind)

def change (p : Pool (service env)) (a : Action (service env)) : Option (Access (Nat × String) c.Value) :=
  (outsideCall p a).bind fun x => c.access (f.home x.thread) x.call

def changes (p : Pool (service env)) : List (Action (service env)) → List (Option (Access (Nat × String) c.Value))
  | [] => []
  | a :: acts => f.change c p a :: changes (p.act a) acts

/-- A look-up finds what the map of its process holds after what has become of it so far. -/
def Answers (past : List (Option (Access (Nat × String) c.Value))) (p : Pool (service env)) (a : Action (service env)) : Prop :=
  ∀ x ∈ outsideCall p a, ∀ name ∈ c.asked x.call,
    c.found x.env name = live f.ttl (f.clock past.length) (entries f.clock past (f.home x.thread, name))

/-- The caches of the processes are such maps throughout the run. -/
def Caches : List (Option (Access (Nat × String) c.Value)) → Pool (service env) → List (Action (service env)) → Prop
  | _, _, [] => True
  | past, p, a :: acts => f.Answers c past p a ∧ Caches (past ++ [f.change c p a]) (p.act a) acts

instance [DecidableEq c.Value] (past : List (Option (Access (Nat × String) c.Value))) (p : Pool (service env))
    (a : Action (service env)) : Decidable (f.Answers c past p a) :=
  inferInstanceAs (Decidable (∀ x ∈ outsideCall p a, ∀ name ∈ c.asked x.call,
    c.found x.env name = live f.ttl (f.clock past.length) (entries f.clock past (f.home x.thread, name))))

instance decidableCaches [DecidableEq c.Value] : (past : List (Option (Access (Nat × String) c.Value))) →
    (p : Pool (service env)) → (acts : List (Action (service env))) → Decidable (f.Caches c past p acts)
  | _, _, [] => .isTrue trivial
  | past, p, a :: acts =>
    have := decidableCaches (past ++ [f.change c p a]) (p.act a) acts
    inferInstanceAs (Decidable (f.Answers c past p a ∧ f.Caches c (past ++ [f.change c p a]) (p.act a) acts))

variable {f c} {p : Pool (service env)} {acts acts' : List (Action (service env))}

theorem caches_append {past : List (Option (Access (Nat × String) c.Value))} : f.Caches c past p (acts ++ acts') ↔
    f.Caches c past p acts ∧ f.Caches c (past ++ f.changes c p acts) (p.run acts) acts' := by
  induction acts generalizing past p with
  | nil => simp [Caches, changes]
  | cons a acts ih => simp [Caches, changes, ih, and_assoc, List.append_assoc]

theorem changes_length : (f.changes c p acts).length = acts.length := by
  induction acts generalizing p with
  | nil => rfl
  | cons a acts ih => simp [changes, ih]

/-- What has become of a cache at a place of a run. -/
theorem changes_at {n : Nat} {x : Option (Access (Nat × String) c.Value)} (h : (f.changes c p acts)[n]? = some x) :
    ∃ before a, before ++ [a] <+: acts ∧ before.length = n ∧ x = f.change c (p.run before) a := by
  induction acts generalizing p n with
  | nil => cases h
  | cons b acts ih =>
    cases n with
    | zero => exact ⟨[], b, ⟨acts, rfl⟩, rfl, (Option.some.inj h).symm⟩
    | succ n =>
      obtain ⟨before, a, le, rfl, hx⟩ := ih h
      refine ⟨b :: before, a, ?_, rfl, hx⟩
      exact List.cons_prefix_cons.mpr ⟨rfl, le⟩

theorem changes_of_prefix {before : List (Action (service env))} {a : Action (service env)} (le : before ++ [a] <+: acts) :
    (f.changes c p acts)[before.length]? = some (f.change c (p.run before) a) := by
  induction before generalizing p acts with
  | nil =>
    obtain ⟨rest, rfl⟩ := le
    rfl
  | cons b before ih =>
    obtain ⟨rest, rfl⟩ := le
    have le : before ++ [a] <+: before ++ [a] ++ rest := List.prefix_append _ _
    exact ih le

theorem change_set {a : Action (service env)} {k : Nat × String} {v : c.Value} (h : f.change c p a = some (.set k v)) :
    ∃ u e workerId schemas, a = .step u e ∧ f.home u = k.1 ∧ p.next u = some (.work workerId schemas, .ext (c.set k.2 v)) := by
  obtain ⟨⟨u, e', x⟩, hcall, hset⟩ := Option.bind_eq_some_iff.mp h
  obtain ⟨same, rfl⟩ := CacheKind.access_set hset
  unfold outsideCall at hcall
  split at hcall
  next =>
    split at hcall
    next workerId schemas x hn =>
      cases hcall
      exact ⟨_, _, workerId, schemas, rfl, same.symm, hn⟩
    next => cases hcall
  next => cases hcall

/-- What a look-up finds is no older than the time to live, and nothing has become of it since. -/
theorem hit_lastSet {before : List (Action (service env))} {t : Nat} {e : Env Pg} {workerId name : String}
    {schemas : List String} {v : c.Value} (caches : f.Caches c [] (Pool.empty (service env)) (before ++ [.step t e]))
    (asks : (after before).next t = some (.work workerId schemas, .ext (c.get name))) (hit : c.found e name = some v) :
    ∃ n, LastSet (f.changes c (Pool.empty (service env)) before) n (f.home t, name) v ∧
      f.clock before.length - f.clock n < f.ttl := by
  have answers := (caches_append.mp caches).2.1
  have called : outsideCall (after before) (.step t e) = some ⟨t, e, c.get name⟩ := by
    simp only [outsideCall, asks]
  have held := answers _ called name (CacheKind.asked_get c name)
  rw [hit, List.nil_append, changes_length] at held
  exact live_lastSet held.symm

end Fleet

theorem stored_visible {schemaName : String} {s : Session Pg} (held : s.Confined (workRows schemaName)) {D : Rows Pg} {k : Key}
    {v : c.Value} (h : c.Stored env (s.visible D) k v) : c.Stored env D k v := by
  have free : ∀ tb : Table, tb ∉ [Table.executions, .attempts, .executionLogs, .jobs, .cronJob] → s.visible D tb k = D tb k := by
    intro tb ht
    cases hh : s.held tb k with
    | none => simp [Session.visible, hh]
    | some x => exact absurd (held tb k x hh).2 ht
  cases c with
  | config =>
    obtain ⟨r, hr, hv⟩ := h
    exact ⟨r, (free .configs (by decide)).symm.trans hr, hv⟩
  | secret =>
    obtain ⟨r, hr, hv⟩ := h
    exact ⟨r, (free .secrets (by decide)).symm.trans hr, hv⟩

/-- What a worker puts into a cache its thread has read in the call before, as a committed row of one of
its workspaces. -/
theorem filled_read {acts : List (Action (service env))} {u : Nat} {workerId name : String} {schemas : List String}
    {v : c.Value} (hn : (after acts).next u = some (.work workerId schemas, .ext (c.set name v))) :
    ∃ schemaName ∈ schemas, ∃ x stmt, (transcript acts u).getLast? = some x ∧ x.op = .snapshot stmt ∧
      c.Stored env x.rows ⟨schemaName, name⟩ v := by
  obtain ⟨schemaName, mem, keeps⟩ := Pool.resumed (S := service env) programs_keepsTo hn workerId schemas rfl
  refine ⟨schemaName, mem, ?_⟩
  rcases keeps.fills with quiet | ⟨c', name', v', same, x, last, stmt, e, snap, D, rfl, stored⟩
  · exact absurd (quiet _ rfl) (by simp [CacheKind.set_caches])
  · obtain ⟨rfl, rfl, heq⟩ := CacheKind.set_inj (Op.ext.inj same)
    cases heq
    refine ⟨_, stmt, last, rfl, ?_⟩
    obtain ⟨req, made⟩ := made_iff.mpr (List.mem_of_getLast? last)
    have own : req = .work workerId schemas := by
      obtain ⟨th, hth, rfl⟩ := made.thread
      obtain ⟨th', _, hth', _, hreq, _⟩ := Pool.waits hn
      rw [hth] at hth'
      cases hth'
      exact hreq
    obtain ⟨before, le, next, ⟨w, he⟩, rfl⟩ := made
    obtain ⟨other, _, reads⟩ := Pool.resumed (S := service env) programs_keepsTo next workerId schemas own
    obtain ⟨s, hs, rfl⟩ := snapshot_seen he
    exact stored_visible (reads.held s hs) stored

/-- A cached value that a worker's thread works with was put there by a thread of its process less than
the time to live ago, and nothing has become of the entry since. That thread had just read it in a
workspace of its own: the caches know names only, so it need not be the asking one's. -/
theorem cached_value_fresh (f : Fleet) {before : List (Action (service env))} {t : Nat} {e : Env Pg} {workerId name : String}
    {schemas : List String} {v : c.Value} (caches : f.Caches c [] (Pool.empty (service env)) (before ++ [.step t e]))
    (asks : (after before).next t = some (.work workerId schemas, .ext (c.get name))) (hit : c.found e name = some v) :
    ∃ filled u e' owner given, filled ++ [.step u e'] <+: before ∧ f.home u = f.home t ∧
      (after filled).next u = some (.work owner given, .ext (c.set name v)) ∧
      f.clock before.length - f.clock filled.length < f.ttl ∧
      (∀ later a x, filled.length < later.length → later ++ [a] <+: before → f.change c (after later) a = some x →
        x.key ≠ (f.home t, name)) ∧
      ∃ schemaName ∈ given, ∃ x stmt, (transcript filled u).getLast? = some x ∧ x.op = .snapshot stmt ∧
        c.Stored env x.rows ⟨schemaName, name⟩ v := by
  obtain ⟨n, lastSet, fresh⟩ := Fleet.hit_lastSet caches asks hit
  obtain ⟨filled, a, le, rfl, hset⟩ := Fleet.changes_at lastSet.set
  obtain ⟨u, e', owner, given, rfl, home, next⟩ := Fleet.change_set hset.symm
  refine ⟨filled, u, e', owner, given, le, home, next, fresh, fun later a x beyond le' hx => ?_, filled_read next⟩
  refine lastSet.last later.length x beyond ?_
  rw [Fleet.changes_of_prefix le', ← hx]

def opened : Setup :=
  { sample with decrypt := fun value _ => if value = [1] then .ok "acme-token" else .ok "globex-token" }

/-- A workspace with its own `api-key` and a worker that has taken `n` steps there. -/
def keyed (schemaName : String) (t : Nat) (value : List UInt8) (n : Nat) : List (Action (service opened)) :=
  serve t 8 (.createEndpoint schemaName withSecret) (.response 200 "") ++
    serve (t + 1) 8 (.createSecret schemaName "api-key" value) (.response 200 "") ++
      serve (t + 2) 14 (.createJob schemaName sampleJob) (.response 200 "") ++
        serve (t + 3) n (.work "worker-1" [schemaName]) (.response 200 "")

/-- The worker has run an execution of one workspace and looks up the secret for one of the other. -/
def sharedCache : List (Action (service opened)) := keyed "acme" 1 [1] 20 ++ keyed "globex" 5 [2] 6

def cachedAnswer : (x : External) → External.Answer x
  | .secretCacheGet _ => Cached.live "acme-token"
  | x => answers 806 (.response 200 "") x

def cachedLookup : Env Pg := ⟨false, sampleUuid 806, cachedAnswer⟩

def oneProcess : Fleet := ⟨fun _ => 0, 300, fun n => n⟩

def asksFor (name : String) : Option (Request opened × Op Pg) → Option (String × List String)
  | some (.work workerId schemas, .ext (.secretCacheGet asked)) => if asked = name then some (workerId, schemas) else none
  | _ => none

/-- The other workspace has a secret of its own under the name. -/
example : ((after sharedCache).world.rows .secrets ⟨"globex", "api-key"⟩).map Secret.encryptedValue = some [2] := by
  decide +kernel

theorem asksFor_get {name workerId : String} {schemas : List String} {call : Option (Request opened × Op Pg)}
    (h : asksFor name call = some (workerId, schemas)) :
    call = some (.work workerId schemas, .ext (CacheKind.get .secret name)) := by
  unfold asksFor at h
  split at h
  next w s asked =>
    split at h
    next same =>
      cases h
      rw [same]
      rfl
    next => cases h
  next => cases h

theorem cached_value_fresh_shared : ∃ filled : List (Action (service opened)), ∃ u owner given,
    (after filled).next u = some (.work owner given, .ext (.secretCacheSet "api-key" "acme-token")) ∧
      ∃ schemaName ∈ given, ∃ x stmt, (transcript filled u).getLast? = some x ∧ x.op = .snapshot stmt ∧
        CacheKind.secret.Stored opened x.rows ⟨schemaName, "api-key"⟩ "acme-token" := by
  have caches : oneProcess.Caches .secret [] (Pool.empty (service opened)) (sharedCache ++ [.step 8 cachedLookup]) := by
    decide +kernel
  have asks : asksFor "api-key" ((after sharedCache).next 8) = some ("worker-1", ["globex"]) := by decide +kernel
  obtain ⟨filled, u, _, owner, given, _, _, next, _, _, read⟩ :=
    cached_value_fresh oneProcess caches (asksFor_get asks) (rfl : CacheKind.found cachedLookup "api-key" .secret = some "acme-token")
  exact ⟨filled, u, owner, given, next, read⟩

end Invokr

import Bankie.Job
import Bankie.Transition

/-!
Clients of the outbox lock.
Any number of clients run `acquire_lock` and `release_lock` on one key, one Redis command at
a time, between expiries of the key and stops of clients. Where a client stands is the program
that it has left, and a step can be read off the point and the entry under the key.
-/
namespace Bankie

open Program Transition

/-- A client with the value that it drew, and what is left of its last call. -/
inductive Client where
  | acquire (value : Uuid) (p : Code (Option String))
  | release (value : Uuid) (p : Code Unit)

namespace Client

def value : Client → Uuid
  | .acquire value _ => value
  | .release value _ => value

def nextCall : Client → Option Call
  | .acquire _ p => p.nextCall
  | .release _ p => p.nextCall

/-- The next Redis command of the client. -/
def step (o : Oracle) (s : Store) : Client → Option (Client × Store)
  | .acquire value p => (p.step exec o s).map (fun r => (.acquire value r.1, r.2))
  | .release value p => (p.step exec o s).map (fun r => (.release value r.1, r.2))

/-- A client that got the lock calls `release_lock`, as often as it likes. -/
def callRelease (key : String) : Client → Option Client
  | .acquire value (.done (.ok (some lockValue))) =>
    some (.release value (releaseLock key lockValue))
  | .release value (.done (.ok _)) => some (.release value (releaseLock key value.toString))
  | _ => none

def stop : Client → Client
  | .acquire value _ => .acquire value (.done (.panic "stopped"))
  | .release value _ => .release value (.done (.panic "stopped"))

theorem step_acquire {value : Uuid} {p : Code (Option String)} {o : Oracle} {s s' : Store}
    {c : Client} (h : (acquire value p).step o s = some (c, s')) :
    ∃ p', c = .acquire value p' ∧ p.step exec o s = some (p', s') := by
  obtain ⟨r, hr, heq⟩ := Option.map_eq_some_iff.mp (show Option.map _ _ = _ from h)
  obtain ⟨rfl, rfl⟩ := Prod.mk.inj heq
  exact ⟨r.1, rfl, hr⟩

theorem step_release {value : Uuid} {p : Code Unit} {o : Oracle} {s s' : Store}
    {c : Client} (h : (release value p).step o s = some (c, s')) :
    ∃ p', c = .release value p' ∧ p.step exec o s = some (p', s') := by
  obtain ⟨r, hr, heq⟩ := Option.map_eq_some_iff.mp (show Option.map _ _ = _ from h)
  obtain ⟨rfl, rfl⟩ := Prod.mk.inj heq
  exact ⟨r.1, rfl, hr⟩

/-- The key that the next command deletes. -/
def deleting (c : Client) : Option String :=
  match c.nextCall with
  | some (.del key) => some key
  | _ => none

/-- The key whose expiry the next command sets. -/
def expiring (c : Client) : Option String :=
  match c.nextCall with
  | some (.expire key _) => some key
  | _ => none

/-- The key that the next command sets if it is free. -/
def setting (c : Client) : Option String :=
  match c.nextCall with
  | some (.setNx key _) => some key
  | _ => none

end Client

structure LockSystem where
  store : Store
  used : List Uuid
  clients : List Client

inductive LockAction where
  | acquire (value : Uuid)
  | release (i : ℕ)
  | call (i : ℕ) (o : Oracle)
  | stop (i : ℕ)
  | expireKey

namespace LockSystem

/-- The key is free, and no client has drawn a value. -/
def init (store : Store) : LockSystem := ⟨store, [], []⟩

variable (key : String) (timeout : ℕ)

def expireKey (st : LockSystem) : Option LockSystem :=
  match st.store.cache key with
  | some ⟨_, some _⟩ =>
    some { st with store := { st.store with cache := Function.update st.store.cache key none } }
  | _ => none

def step (st : LockSystem) : LockAction → Option LockSystem
  | .acquire value =>
    if value ∈ st.used then none
    else some { st with
      used := value :: st.used
      clients := st.clients ++ [.acquire value (acquireLock key value.toString timeout)] }
  | .release i => do
    let c ← st.clients[i]?
    let c' ← c.callRelease key
    return { st with clients := st.clients.set i c' }
  | .call i o => do
    let c ← st.clients[i]?
    let r ← c.step o st.store
    return { st with store := r.2, clients := st.clients.set i r.1 }
  | .stop i => do
    let c ← st.clients[i]?
    return { st with clients := st.clients.set i c.stop }
  | .expireKey => st.expireKey key

def machine : Machine LockSystem LockAction where
  Init st := ∃ store : Store, store.cache key = none ∧ st = init store
  Step st a st' := st.step key timeout a = some st'

end LockSystem

/-- The rest of `acquire_lock` once the key is set. -/
def expireThen (key : String) (timeout : ℕ) (lockValue : String) : Code (Option String) := do
  callUnwrap (.expire key timeout)
  return some lockValue

/-- Where a client stands, by the command that it sends next. -/
inductive LockPoint where
  | setNx
  | expire
  | held
  | refused
  | acquireFailed (message : String)
  | get
  | del
  | released
  | releaseFailed (message : String)

namespace LockPoint

def client (key : String) (timeout : ℕ) (value : Uuid) : LockPoint → Client
  | .setNx => .acquire value (acquireLock key value.toString timeout)
  | .expire => .acquire value (expireThen key timeout value.toString)
  | .held => .acquire value (.done (.ok (some value.toString)))
  | .refused => .acquire value (.done (.ok none))
  | .acquireFailed message => .acquire value (.done (.panic message))
  | .get => .release value (releaseLock key value.toString)
  | .del => .release value (callUnwrap (.del key))
  | .released => .release value (.done (.ok ()))
  | .releaseFailed message => .release value (.done (.panic message))

/-- What the next command of a client does, to the entry under the key and to its point. -/
inductive Calls (timeout : ℕ) (value : Uuid) (o : Oracle) :
    Option CacheEntry → LockPoint → Option CacheEntry → LockPoint → Prop where
  | sets (hok : o.fail = none) :
      Calls timeout value o none .setNx (some ⟨value.toString, none⟩) .expire
  | refused (entry : CacheEntry) (hok : o.fail = none) :
      Calls timeout value o (some entry) .setNx (some entry) .refused
  | expires (entry : Option CacheEntry) (hok : o.fail = none) :
      Calls timeout value o entry .expire
        (entry.map fun entry => { entry with timeout := some timeout }) .held
  | gone (message : String) (hok : o.fail = none) :
      Calls timeout value o none .get none (.releaseFailed message)
  | own (entry : CacheEntry) (hok : o.fail = none) (hown : entry.value = value.toString) :
      Calls timeout value o (some entry) .get (some entry) .del
  | foreign (entry : CacheEntry) (hok : o.fail = none) (hforeign : entry.value ≠ value.toString) :
      Calls timeout value o (some entry) .get (some entry) .released
  | deletes (entry : Option CacheEntry) (hok : o.fail = none) :
      Calls timeout value o entry .del none .released
  | setFails (entry : Option CacheEntry) (message : String) (hfail : o.fail ≠ none) :
      Calls timeout value o entry .setNx entry (.acquireFailed message)
  | expireFails (entry : Option CacheEntry) (message : String) (hfail : o.fail ≠ none) :
      Calls timeout value o entry .expire entry (.acquireFailed message)
  | getFails (entry : Option CacheEntry) (message : String) (hfail : o.fail ≠ none) :
      Calls timeout value o entry .get entry (.releaseFailed message)
  | delFails (entry : Option CacheEntry) (message : String) (hfail : o.fail ≠ none) :
      Calls timeout value o entry .del entry (.releaseFailed message)

variable {key : String} {timeout : ℕ} {value : Uuid} {o : Oracle} {s s' : Store}

theorem unwrap_step {α : Type} {p p' : Code α} {c : Call} {next : Reply c → Code α}
    (hp : p.Calls c next (fun e => .done (.panic e))) (h : p.step exec o s = some (p', s')) :
    (o.fail ≠ none ∧ s' = s ∧ ∃ e, p' = .done (.panic e)) ∨
      o.fail = none ∧ ((∃ a, execute c o.now s = (.ok a, s') ∧ p' = next a) ∨
        ∀ a, (execute c o.now s).1 ≠ .ok a) := by
  rcases hp.step h with ⟨a, hexec, hp'⟩ | ⟨e, hexec, hp'⟩ | ⟨e, hexec, hp'⟩
  · obtain ⟨hok, hexec⟩ := exec_ok hexec
    exact Or.inr ⟨hok, Or.inl ⟨a, hexec, hp'⟩⟩
  · rcases exec_cases hexec with ⟨hfail, -, hs'⟩ | ⟨hok, hexec⟩
    · exact Or.inl ⟨hfail, hs', e, hp'⟩
    · exact Or.inr ⟨hok, Or.inr fun a => by rw [hexec]; simp⟩
  · obtain ⟨hok, hexec⟩ := exec_panic hexec
    exact Or.inr ⟨hok, Or.inr fun a => by rw [hexec]; simp⟩

theorem calls_acquire (key lockValue : String) (timeout : ℕ) :
    (acquireLock key lockValue timeout).Calls (.setNx key lockValue)
      (fun set : Bool => if set then expireThen key timeout lockValue else .done (.ok none))
      (fun e => .done (.panic e)) :=
  ⟨_, rfl, fun set => by cases set <;> rfl, fun _ => rfl⟩

theorem calls_expireThen (key lockValue : String) (timeout : ℕ) :
    (expireThen key timeout lockValue).Calls (.expire key timeout)
      (fun _ => .done (.ok (some lockValue))) (fun e => .done (.panic e)) :=
  ⟨_, rfl, fun _ => rfl, fun _ => rfl⟩

theorem calls_release (key lockValue : String) :
    (releaseLock key lockValue).Calls (.get key)
      (fun current : Option String => match current with
        | none => .done (.panic "Response was of incompatible type")
        | some current => if current = lockValue then callUnwrap (.del key) else .done (.ok ()))
      (fun e => .done (.panic e)) :=
  ⟨_, rfl, fun current => by cases current <;> rfl, fun _ => rfl⟩

theorem calls_callUnwrap (c : Call) :
    (callUnwrap c).Calls c (fun a => .done (.ok a)) (fun e => .done (.panic e)) :=
  ⟨_, rfl, fun _ => rfl, fun _ => rfl⟩

theorem calls_of_step {p : LockPoint} {c : Client}
    (h : (p.client key timeout value).step o s = some (c, s')) :
    ∃ p', c = p'.client key timeout value ∧
      Calls timeout value o (s.cache key) p (s'.cache key) p' := by
  cases p with
  | setNx =>
    obtain ⟨p', rfl, hstep⟩ := Client.step_acquire h
    rcases unwrap_step (calls_acquire key value.toString timeout) hstep with
      ⟨hfail, rfl, e, rfl⟩ | ⟨hok, ⟨set, hexecute, rfl⟩ | hnot⟩
    · exact ⟨.acquireFailed e, rfl, Calls.setFails _ e hfail⟩
    · cases hentry : s.cache key with
      | none =>
        simp only [execute, hentry] at hexecute
        obtain ⟨hset, rfl⟩ := Prod.mk.inj hexecute
        obtain rfl := Outcome.ok.inj hset
        exact ⟨.expire, rfl, by simpa using Calls.sets hok⟩
      | some entry =>
        simp only [execute, hentry] at hexecute
        obtain ⟨hset, rfl⟩ := Prod.mk.inj hexecute
        obtain rfl := Outcome.ok.inj hset
        exact ⟨.refused, rfl, by simpa [hentry] using Calls.refused entry hok⟩
    · cases hentry : s.cache key <;> simp [execute, hentry] at hnot
  | expire =>
    obtain ⟨p', rfl, hstep⟩ := Client.step_acquire h
    rcases unwrap_step (calls_expireThen key value.toString timeout) hstep with
      ⟨hfail, rfl, e, rfl⟩ | ⟨hok, ⟨u, hexecute, rfl⟩ | hnot⟩
    · exact ⟨.acquireFailed e, rfl, Calls.expireFails _ e hfail⟩
    · obtain ⟨-, rfl⟩ := Prod.mk.inj hexecute
      exact ⟨.held, rfl, by simpa using Calls.expires (s.cache key) hok⟩
    · exact absurd rfl (hnot ())
  | held => cases h
  | refused => cases h
  | acquireFailed message => cases h
  | get =>
    obtain ⟨p', rfl, hstep⟩ := Client.step_release h
    rcases unwrap_step (calls_release key value.toString) hstep with
      ⟨hfail, rfl, e, rfl⟩ | ⟨hok, ⟨current, hexecute, rfl⟩ | hnot⟩
    · exact ⟨.releaseFailed e, rfl, Calls.getFails _ e hfail⟩
    · obtain ⟨hcurrent, rfl⟩ := Prod.mk.inj hexecute
      obtain rfl := Outcome.ok.inj hcurrent
      cases hentry : s.cache key with
      | none => exact ⟨_, rfl, Calls.gone _ hok⟩
      | some entry =>
        by_cases hown : entry.value = value.toString
        · refine ⟨.del, ?_, Calls.own entry hok hown⟩
          simp [hown, client]
        · refine ⟨.released, ?_, Calls.foreign entry hok hown⟩
          simp [hown, client]
    · exact absurd rfl (hnot _)
  | del =>
    obtain ⟨p', rfl, hstep⟩ := Client.step_release h
    rcases unwrap_step (calls_callUnwrap (.del key)) hstep with
      ⟨hfail, rfl, e, rfl⟩ | ⟨hok, ⟨u, hexecute, rfl⟩ | hnot⟩
    · exact ⟨.releaseFailed e, rfl, Calls.delFails _ e hfail⟩
    · obtain ⟨-, rfl⟩ := Prod.mk.inj hexecute
      exact ⟨.released, rfl, by simpa using Calls.deletes (s.cache key) hok⟩
    · exact absurd rfl (hnot ())
  | released => cases h
  | releaseFailed message => cases h

end LockPoint

namespace LockPoint

/-- A client that stops keeps nothing of its call. -/
def stop : LockPoint → LockPoint
  | .get => .releaseFailed "stopped"
  | .del => .releaseFailed "stopped"
  | .released => .releaseFailed "stopped"
  | .releaseFailed _ => .releaseFailed "stopped"
  | _ => .acquireFailed "stopped"

variable (key : String) (timeout : ℕ) (value : Uuid)

@[simp] theorem client_value (p : LockPoint) : (p.client key timeout value).value = value := by
  cases p <;> rfl

theorem client_stop (p : LockPoint) :
    (p.client key timeout value).stop = p.stop.client key timeout value := by
  cases p <;> rfl

theorem deleting_client (p : LockPoint) :
    (p.client key timeout value).deleting = some key ↔ p = .del := by
  cases p with
  | del => exact iff_of_true rfl rfl
  | _ => exact iff_of_false (fun h => by cases h) (fun h => by cases h)

theorem expiring_client (p : LockPoint) :
    (p.client key timeout value).expiring = some key ↔ p = .expire := by
  cases p with
  | expire => exact iff_of_true rfl rfl
  | _ => exact iff_of_false (fun h => by cases h) (fun h => by cases h)

theorem setting_client (p : LockPoint) :
    (p.client key timeout value).setting = some key ↔ p = .setNx := by
  cases p with
  | setNx => exact iff_of_true rfl rfl
  | _ => exact iff_of_false (fun h => by cases h) (fun h => by cases h)

theorem callRelease_client {p : LockPoint} {c : Client}
    (h : (p.client key timeout value).callRelease key = some c) :
    (p = .held ∨ p = .released) ∧ c = LockPoint.get.client key timeout value := by
  cases p with
  | held =>
    cases h
    exact ⟨Or.inl rfl, rfl⟩
  | released =>
    cases h
    exact ⟨Or.inr rfl, rfl⟩
  | _ => cases h

end LockPoint

/-- The entry under the key, and the clients by their values and points. -/
structure LockState where
  entry : Option CacheEntry
  used : List Uuid
  clients : List (Uuid × LockPoint)

namespace LockState

inductive Step (timeout : ℕ) : LockState → LockAction → LockState → Prop where
  | acquire {a : LockState} (value : Uuid) (hnew : value ∉ a.used) :
      Step timeout a (.acquire value) { a with
        used := value :: a.used
        clients := a.clients ++ [(value, .setNx)] }
  | release {a : LockState} (i : ℕ) (value : Uuid) (p : LockPoint)
      (hi : a.clients[i]? = some (value, p)) (hp : p = .held ∨ p = .released) :
      Step timeout a (.release i) { a with clients := a.clients.set i (value, .get) }
  | call {a : LockState} (i : ℕ) (o : Oracle) (value : Uuid) (p p' : LockPoint)
      (entry' : Option CacheEntry) (hi : a.clients[i]? = some (value, p))
      (hcall : LockPoint.Calls timeout value o a.entry p entry' p') :
      Step timeout a (.call i o)
        { a with entry := entry', clients := a.clients.set i (value, p') }
  | stop {a : LockState} (i : ℕ) (value : Uuid) (p : LockPoint)
      (hi : a.clients[i]? = some (value, p)) :
      Step timeout a (.stop i) { a with clients := a.clients.set i (value, p.stop) }
  | expireKey {a : LockState} (entry : CacheEntry) (hentry : a.entry = some entry)
      (htimeout : entry.timeout ≠ none) : Step timeout a .expireKey { a with entry := none }

def machine (timeout : ℕ) : Machine LockState LockAction where
  Init a := a = ⟨none, [], []⟩
  Step := Step timeout

end LockState

/-- The clients stand at these points. -/
structure LockSystem.Models (key : String) (timeout : ℕ) (st : LockSystem) (a : LockState) :
    Prop where
  entry : st.store.cache key = a.entry
  used : st.used = a.used
  clients : st.clients = a.clients.map fun x => x.2.client key timeout x.1

theorem LockSystem.Models.client {key : String} {timeout : ℕ} {st : LockSystem} {a : LockState}
    (h : st.Models key timeout a) {i : ℕ} {c : Client} (hc : st.clients[i]? = some c) :
    ∃ value p, a.clients[i]? = some (value, p) ∧ c = p.client key timeout value := by
  rw [h.clients, List.getElem?_map] at hc
  obtain ⟨⟨value, p⟩, hi, rfl⟩ := Option.map_eq_some_iff.mp hc
  exact ⟨value, p, hi, rfl⟩

/-- Every step of the clients is a step of their points. -/
theorem lock_refinement (key : String) (timeout : ℕ) :
    Machine.Simulation (LockSystem.machine key timeout) (LockState.machine timeout)
      (LockSystem.Models key timeout) where
  init st hst := by
    obtain ⟨store, hfree, rfl⟩ := hst
    exact ⟨_, rfl, hfree, rfl, rfl⟩
  step st a x st' h hstep := by
    cases x with
    | acquire value =>
      change (if value ∈ st.used then none else _) = _ at hstep
      split at hstep <;> cases hstep
      rename_i hnew
      refine ⟨_, LockState.Step.acquire value (h.used ▸ hnew), h.entry, congrArg _ h.used, ?_⟩
      simp [h.clients, LockPoint.client]
    | release i =>
      obtain ⟨c, hc, hrest⟩ := Option.bind_eq_some_iff.mp hstep
      obtain ⟨c', hcall, heq⟩ := Option.bind_eq_some_iff.mp hrest
      cases heq
      obtain ⟨value, p, hi, rfl⟩ := h.client hc
      obtain ⟨hp, rfl⟩ := p.callRelease_client key timeout value hcall
      refine ⟨_, LockState.Step.release i value p hi hp, h.entry, h.used, ?_⟩
      simp [h.clients, List.map_set]
    | call i o =>
      obtain ⟨c, hc, hrest⟩ := Option.bind_eq_some_iff.mp hstep
      obtain ⟨⟨c', s'⟩, hcall, heq⟩ := Option.bind_eq_some_iff.mp hrest
      cases heq
      obtain ⟨value, p, hi, rfl⟩ := h.client hc
      obtain ⟨p', rfl, hcalls⟩ := LockPoint.calls_of_step hcall
      rw [h.entry] at hcalls
      refine ⟨_, LockState.Step.call i o value p p' _ hi hcalls, rfl, h.used, ?_⟩
      simp [h.clients, List.map_set]
    | stop i =>
      obtain ⟨c, hc, heq⟩ := Option.bind_eq_some_iff.mp hstep
      cases heq
      obtain ⟨value, p, hi, rfl⟩ := h.client hc
      refine ⟨_, LockState.Step.stop i value p hi, h.entry, h.used, ?_⟩
      simp [h.clients, List.map_set, LockPoint.client_stop]
    | expireKey =>
      change st.expireKey key = _ at hstep
      unfold LockSystem.expireKey at hstep
      split at hstep <;> cases hstep
      rename_i value timeout' hentry
      refine ⟨_, LockState.Step.expireKey _ (h.entry.symm.trans hentry) (Option.some_ne_none _),
        ?_, h.used, h.clients⟩
      simp

end Bankie

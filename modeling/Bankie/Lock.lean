import Bankie.LockClients
import Bankie.Lists
import Bankie.System

/-!
Safety of the outbox lock.
Both functions are two commands where one step is needed. The lock is safe up to the first
step that gets in between: a client that sets the key while another is about to delete it, or
a client that stops or fails before it has set the expiry.
-/
namespace Bankie

open Program Transition

namespace LockSystem

/-- A client deletes only its own value, and a key without an expiry is about to get one. -/
structure Safe (key : String) (st : LockSystem) : Prop where
  deletes : ∀ c ∈ st.clients, c.deleting = some key →
    ∀ entry ∈ st.store.cache key, entry.value = c.value.toString
  expires : ∀ entry ∈ st.store.cache key, entry.timeout = none →
    ∃ c ∈ st.clients, c.expiring = some key ∧ entry.value = c.value.toString

/-- No client sets the key while another is between its GET and its DEL, and none stops or
fails between its SETNX and its EXPIRE. -/
def Careful (key : String) (st : LockSystem) : LockAction → Prop
  | .call i o => ∀ c ∈ st.clients[i]?,
      (c.setting = some key → o.fail = none → st.store.cache key = none →
        ∀ c' ∈ st.clients, c'.deleting ≠ some key) ∧
      (c.expiring = some key → o.fail = none)
  | .stop i => ∀ c ∈ st.clients[i]?, c.expiring ≠ some key
  | _ => True

instance (key : String) (st : LockSystem) (x : LockAction) : Decidable (st.Careful key x) :=
  match x with
  | .call i _ => inferInstanceAs (Decidable (∀ c ∈ st.clients[i]?, _))
  | .stop i => inferInstanceAs (Decidable (∀ c ∈ st.clients[i]?, _))
  | .acquire _ => .isTrue trivial
  | .release _ => .isTrue trivial
  | .expireKey => .isTrue trivial

end LockSystem

namespace LockState

structure Safe (a : LockState) : Prop where
  deletes : ∀ x ∈ a.clients, x.2 = .del → ∀ entry ∈ a.entry, entry.value = x.1.toString
  expires : ∀ entry ∈ a.entry, entry.timeout = none →
    ∃ x ∈ a.clients, x.2 = .expire ∧ entry.value = x.1.toString

def Careful (a : LockState) : LockAction → Prop
  | .call i o => ∀ x ∈ a.clients[i]?,
      (x.2 = .setNx → o.fail = none → a.entry = none → ∀ y ∈ a.clients, y.2 ≠ .del) ∧
      (x.2 = .expire → o.fail = none)
  | .stop i => ∀ x ∈ a.clients[i]?, x.2 ≠ .expire
  | _ => True

/-- Values are drawn once. -/
structure Keyed (a : LockState) : Prop where
  nodup : (a.clients.map Prod.fst).Nodup
  used : ∀ value ∈ a.clients.map Prod.fst, value ∈ a.used

/-- While a client is about to set the expiry, the key is its own and has none. -/
structure Locked (a : LockState) : Prop where
  keyed : a.Keyed
  safe : a.Safe
  expiring : ∀ x ∈ a.clients, x.2 = .expire → a.entry = some ⟨x.1.toString, none⟩

variable {a a' : LockState} {timeout i : ℕ} {value : Uuid} {p p' : LockPoint}

theorem safe_of_free (h : a.entry = none) : a.Safe where
  deletes _ _ _ _ hentry := by cases h.symm.trans hentry
  expires _ hentry := by cases h.symm.trans hentry

theorem Keyed.set (hm : a.Keyed) (hi : a.clients[i]? = some (value, p))
    (entry : Option CacheEntry) (p' : LockPoint) :
    Keyed { a with entry := entry, clients := a.clients.set i (value, p') } := by
  refine ⟨?_, ?_⟩
  · rw [map_fst_set hi]
    exact hm.nodup
  · rw [map_fst_set hi]
    exact hm.used

theorem Keyed.step (hm : a.Keyed) {x : LockAction} (h : Step timeout a x a') : a'.Keyed := by
  cases h with
  | acquire value hnew =>
    refine ⟨?_, ?_⟩
    · rw [List.map_append, List.nodup_append]
      refine ⟨hm.nodup, List.nodup_singleton _, ?_⟩
      rintro u hu v hv rfl
      rw [List.mem_singleton.mp hv] at hu
      exact hnew (hm.used _ hu)
    · intro u hu
      rw [List.map_append] at hu
      rcases List.mem_append.mp hu with hold | hlast
      · exact List.mem_cons_of_mem _ (hm.used u hold)
      · rw [List.mem_singleton.mp hlast]
        exact List.mem_cons_self
  | release i value p hi hp => exact hm.set hi a.entry .get
  | call i o value p p' entry' hi hcall => exact hm.set hi entry' p'
  | stop i value p hi => exact hm.set hi a.entry p.stop
  | expireKey => exact ⟨hm.nodup, hm.used⟩

theorem Keyed.point_eq (hm : a.Keyed) {p q : LockPoint} (hp : (value, p) ∈ a.clients)
    (hq : (value, q) ∈ a.clients) : p = q :=
  (Prod.mk.inj (List.inj_on_of_nodup_map hm.nodup hp hq rfl)).2

theorem Keyed.mem_set (hm : a.Keyed) (hi : a.clients[i]? = some (value, p)) {x : Uuid × LockPoint}
    (hx : x ∈ a.clients) (hne : x.2 ≠ p) (p' : LockPoint) :
    x ∈ a.clients.set i (value, p') := by
  refine (mem_set_iff_of_nodup hm.nodup hi).mpr (Or.inr ⟨hx, ?_⟩)
  rintro rfl
  exact hne (hm.point_eq hx (List.mem_of_getElem? hi))

/-- A client that is not about to set the expiry may move where it deletes nothing foreign. -/
theorem Locked.move (hm : a.Locked) (hi : a.clients[i]? = some (value, p)) (hp : p ≠ .expire)
    (hp' : p' ≠ .expire) (hdel : p' = .del → ∀ entry ∈ a.entry, entry.value = value.toString) :
    Locked { a with clients := a.clients.set i (value, p') } where
  keyed := hm.keyed.set hi a.entry p'
  safe := by
    refine ⟨fun x hx hxdel => ?_, fun entry hentry htimeout => ?_⟩
    · rcases (mem_set_iff_of_nodup hm.keyed.nodup hi).mp hx with rfl | ⟨hold, -⟩
      · exact hdel hxdel
      · exact hm.safe.deletes x hold hxdel
    · obtain ⟨x, hx, hxp, hvalue⟩ := hm.safe.expires entry hentry htimeout
      exact ⟨x, hm.keyed.mem_set hi hx (fun heq => hp (heq.symm.trans hxp)) p', hxp, hvalue⟩
  expiring x hx hxp := by
    rcases (mem_set_iff_of_nodup hm.keyed.nodup hi).mp hx with rfl | ⟨hold, -⟩
    · exact absurd hxp hp'
    · exact hm.expiring x hold hxp

theorem Locked.deletes (hm : a.Locked) (hi : a.clients[i]? = some (value, .del)) :
    Locked { a with entry := none, clients := a.clients.set i (value, .released) } where
  keyed := hm.keyed.set hi none .released
  safe := safe_of_free rfl
  expiring x hx hxp := by
    rcases (mem_set_iff_of_nodup hm.keyed.nodup hi).mp hx with rfl | ⟨hold, hne⟩
    · cases hxp
    · have hvalue := hm.safe.deletes _ (List.mem_of_getElem? hi) rfl _ (hm.expiring x hold hxp)
      exact absurd (Uuid.toString_inj.mp hvalue) hne

theorem Locked.sets (hm : a.Locked) (hi : a.clients[i]? = some (value, .setNx))
    (hfree : a.entry = none) (halone : ∀ y ∈ a.clients, y.2 ≠ .del) :
    Locked { a with
      entry := some ⟨value.toString, none⟩
      clients := a.clients.set i (value, .expire) } where
  keyed := hm.keyed.set hi _ .expire
  safe := by
    refine ⟨fun x hx hxdel => ?_, fun entry hentry _ => ?_⟩
    · rcases (mem_set_iff_of_nodup hm.keyed.nodup hi).mp hx with rfl | ⟨hold, -⟩
      · cases hxdel
      · exact absurd hxdel (halone x hold)
    · obtain rfl := Option.some.inj hentry
      exact ⟨(value, .expire),
        (mem_set_iff_of_nodup hm.keyed.nodup hi).mpr (Or.inl rfl), rfl, rfl⟩
  expiring x hx hxp := by
    rcases (mem_set_iff_of_nodup hm.keyed.nodup hi).mp hx with rfl | ⟨hold, -⟩
    · rfl
    · cases hfree.symm.trans (hm.expiring x hold hxp)

theorem Locked.expires (hm : a.Locked) (hi : a.clients[i]? = some (value, .expire)) :
    Locked { a with
      entry := a.entry.map fun entry => { entry with timeout := some timeout }
      clients := a.clients.set i (value, .held) } := by
  have hown := hm.expiring _ (List.mem_of_getElem? hi) rfl
  rw [hown]
  refine ⟨hm.keyed.set hi _ .held,
    ⟨fun x hx hxdel entry hentry => ?_, fun entry hentry hnone => ?_⟩,
    fun x hx hxp => ?_⟩
  · obtain rfl := Option.some.inj hentry
    rcases (mem_set_iff_of_nodup hm.keyed.nodup hi).mp hx with rfl | ⟨hold, -⟩
    · cases hxdel
    · exact hm.safe.deletes x hold hxdel ⟨value.toString, none⟩ hown
  · obtain rfl := Option.some.inj hentry
    cases hnone
  · rcases (mem_set_iff_of_nodup hm.keyed.nodup hi).mp hx with rfl | ⟨hold, hne⟩
    · cases hxp
    · have hentry := Option.some.inj (hown.symm.trans (hm.expiring x hold hxp))
      exact absurd (Uuid.toString_inj.mp (CacheEntry.mk.inj hentry).1).symm hne

/-- A careful command of a client keeps the lock safe. -/
theorem Locked.call (hm : a.Locked) {o : Oracle} {entry' : Option CacheEntry}
    (hi : a.clients[i]? = some (value, p)) (hcall : p.Calls timeout value o a.entry entry' p')
    (hcareful : a.Careful (.call i o)) :
    Locked { a with entry := entry', clients := a.clients.set i (value, p') } := by
  obtain ⟨hset, hexpire⟩ := hcareful _ hi
  have hmove : entry' = a.entry → p ≠ .expire → p' ≠ .expire →
      (p' = .del → ∀ entry ∈ a.entry, entry.value = value.toString) →
      Locked { a with entry := entry', clients := a.clients.set i (value, p') } := by
    rintro rfl hp hp' hdel
    exact hm.move hi hp hp' hdel
  generalize hentry : a.entry = entry at hcall hmove
  cases hcall with
  | sets hok => exact hm.sets hi hentry (hset rfl hok hentry)
  | refused entry hok => exact hmove rfl (by simp) (by simp) (by simp)
  | expires entry hok =>
    subst hentry
    exact hm.expires hi
  | gone message hok => exact hmove rfl (by simp) (by simp) (by simp)
  | own entry hok hown =>
    refine hmove rfl (by simp) (by simp) fun _ entry' hentry' => ?_
    obtain rfl := Option.some.inj hentry'
    exact hown
  | foreign entry hok hforeign => exact hmove rfl (by simp) (by simp) (by simp)
  | deletes entry hok => exact hm.deletes hi
  | setFails entry message hfail => exact hmove rfl (by simp) (by simp) (by simp)
  | expireFails entry message hfail => exact absurd (hexpire rfl) hfail
  | getFails entry message hfail => exact hmove rfl (by simp) (by simp) (by simp)
  | delFails entry message hfail => exact hmove rfl (by simp) (by simp) (by simp)

theorem Locked.step (hm : a.Locked) {x : LockAction} (h : Step timeout a x a')
    (hcareful : a.Careful x) : a'.Locked := by
  have hkeyed := hm.keyed.step h
  cases h with
  | acquire value hnew =>
    refine ⟨hkeyed, ⟨fun x hx hxdel => ?_, fun entry hentry hnone => ?_⟩, fun x hx hxp => ?_⟩
    · rcases List.mem_append.mp hx with hold | hlast
      · exact hm.safe.deletes x hold hxdel
      · rw [List.mem_singleton.mp hlast] at hxdel
        cases hxdel
    · obtain ⟨x, hx, hrest⟩ := hm.safe.expires entry hentry hnone
      exact ⟨x, List.mem_append_left _ hx, hrest⟩
    · rcases List.mem_append.mp hx with hold | hlast
      · exact hm.expiring x hold hxp
      · rw [List.mem_singleton.mp hlast] at hxp
        cases hxp
  | release i value p hi hp =>
    refine hm.move hi ?_ (by simp) (by simp)
    rcases hp with rfl | rfl <;> simp
  | call i o value p p' entry' hi hcall => exact hm.call hi hcall hcareful
  | stop i value p hi =>
    have hp : p ≠ .expire := hcareful _ hi
    refine hm.move hi hp ?_ ?_ <;> cases p <;> simp [LockPoint.stop]
  | expireKey entry hentry htimeout =>
    refine ⟨hkeyed, safe_of_free rfl, fun x hx hxp => ?_⟩
    obtain rfl := Option.some.inj (hentry.symm.trans (hm.expiring x hx hxp))
    exact absurd rfl htimeout

theorem Locked.not_safe_of_lost (hm : a.Locked) (hi : a.clients[i]? = some (value, .expire))
    (hp' : p' ≠ .expire) : ¬ Safe { a with clients := a.clients.set i (value, p') } := by
  intro hsafe
  have hown := hm.expiring _ (List.mem_of_getElem? hi) rfl
  obtain ⟨x, hx, hxp, hvalue⟩ := hsafe.expires _ hown rfl
  rcases (mem_set_iff_of_nodup hm.keyed.nodup hi).mp hx with rfl | ⟨-, hne⟩
  · exact hp' hxp
  · exact hne (Uuid.toString_inj.mp hvalue).symm

theorem Locked.not_safe_of_taken (hm : a.Locked) (hi : a.clients[i]? = some (value, .setNx))
    {y : Uuid × LockPoint} (hy : y ∈ a.clients) (hydel : y.2 = .del) :
    ¬ Safe { a with
      entry := some ⟨value.toString, none⟩
      clients := a.clients.set i (value, .expire) } := by
  intro hsafe
  have hkept := hm.keyed.mem_set hi hy (by simp [hydel]) .expire
  have hvalue := hsafe.deletes y hkept hydel _ rfl
  have hin := List.mem_of_getElem? hi
  obtain ⟨v, q⟩ := y
  obtain rfl := Uuid.toString_inj.mp hvalue
  cases (hm.keyed.point_eq hin hy).trans hydel

theorem careful_of (hi : a.clients[i]? = some (value, p)) {o : Oracle}
    (hset : p = .setNx → o.fail = none → a.entry = none → ∀ y ∈ a.clients, y.2 ≠ .del)
    (hexpire : p = .expire → o.fail = none) : a.Careful (.call i o) := by
  intro x hx
  obtain rfl := Option.some.inj (hi.symm.trans hx)
  exact ⟨hset, hexpire⟩

theorem Locked.not_safe_call (hm : a.Locked) {o : Oracle} {entry' : Option CacheEntry}
    (hi : a.clients[i]? = some (value, p)) (hcall : p.Calls timeout value o a.entry entry' p')
    (hcareless : ¬ a.Careful (.call i o)) :
    ¬ Safe { a with entry := entry', clients := a.clients.set i (value, p') } := by
  generalize hentry : a.entry = entry at hcall
  cases hcall with
  | sets hok =>
    obtain ⟨y, hy, hydel⟩ : ∃ y ∈ a.clients, y.2 = .del := by
      by_contra hno
      exact hcareless (careful_of hi (fun _ _ _ y hy hydel => hno ⟨y, hy, hydel⟩) (by simp))
    exact hm.not_safe_of_taken hi hy hydel
  | expireFails entry message hfail =>
    subst hentry
    exact hm.not_safe_of_lost hi (by simp)
  | refused entry hok =>
    exact absurd (careful_of hi (fun _ _ hfree => by cases hfree.symm.trans hentry) (by simp))
      hcareless
  | expires entry hok => exact absurd (careful_of hi (by simp) fun _ => hok) hcareless
  | setFails entry message hfail =>
    exact absurd (careful_of hi (fun _ hok => absurd hok hfail) (by simp)) hcareless
  | _ => exact absurd (careful_of hi (by simp) (by simp)) hcareless

/-- The first step that is not careful leads to a state that is not safe. -/
theorem Locked.not_safe (hm : a.Locked) {x : LockAction} (h : Step timeout a x a')
    (hcareless : ¬ a.Careful x) : ¬ a'.Safe := by
  cases h with
  | acquire => exact absurd trivial hcareless
  | release => exact absurd trivial hcareless
  | expireKey => exact absurd trivial hcareless
  | call i o value p p' entry' hi hcall => exact hm.not_safe_call hi hcall hcareless
  | stop i value p hi =>
    have hp : p = .expire := by
      by_contra hp
      refine hcareless fun x hx => ?_
      obtain rfl := Option.some.inj (hi.symm.trans hx)
      exact hp
    subst hp
    exact hm.not_safe_of_lost hi (by simp [LockPoint.stop])

theorem locked_invariant (timeout : ℕ) :
    ((machine timeout).restrict Careful).Invariant Locked where
  init a ha := by
    obtain rfl := ha
    exact ⟨⟨List.nodup_nil, fun _ hv => absurd hv List.not_mem_nil⟩, safe_of_free rfl,
      fun _ hx => absurd hx List.not_mem_nil⟩
  step _ _ _ hm h := hm.step h.2 h.1

end LockState

section Clients

variable {key : String} {timeout : ℕ} {st : LockSystem} {a : LockState}

theorem LockSystem.Models.safe_iff (h : st.Models key timeout a) : st.Safe key ↔ a.Safe := by
  have hcell := h.entry
  constructor
  · rintro ⟨hdeletes, hexpires⟩
    refine ⟨fun x hx hxdel entry hentry => ?_, fun entry hentry hnone => ?_⟩
    · have hin : x.2.client key timeout x.1 ∈ st.clients := by
        rw [h.clients]
        exact List.mem_map_of_mem hx
      have hvalue := hdeletes _ hin ((LockPoint.deleting_client ..).mpr hxdel) entry
        (hcell.trans hentry)
      rwa [LockPoint.client_value] at hvalue
    · obtain ⟨c, hc, hexpiring, hvalue⟩ := hexpires entry (hcell.trans hentry) hnone
      rw [h.clients] at hc
      obtain ⟨x, hx, rfl⟩ := List.mem_map.mp hc
      rw [LockPoint.client_value] at hvalue
      exact ⟨x, hx, (LockPoint.expiring_client ..).mp hexpiring, hvalue⟩
  · rintro ⟨hdeletes, hexpires⟩
    refine ⟨fun c hc hdel entry hentry => ?_, fun entry hentry hnone => ?_⟩
    · rw [h.clients] at hc
      obtain ⟨x, hx, rfl⟩ := List.mem_map.mp hc
      rw [LockPoint.client_value]
      exact hdeletes x hx ((LockPoint.deleting_client ..).mp hdel) entry (hcell.symm.trans hentry)
    · obtain ⟨x, hx, hxp, hvalue⟩ := hexpires entry (hcell.symm.trans hentry) hnone
      refine ⟨x.2.client key timeout x.1, ?_, (LockPoint.expiring_client ..).mpr hxp, ?_⟩
      · rw [h.clients]
        exact List.mem_map_of_mem hx
      · rw [LockPoint.client_value]
        exact hvalue

theorem LockSystem.Models.careful_iff (h : st.Models key timeout a) (x : LockAction) :
    st.Careful key x ↔ a.Careful x := by
  have halone : (∀ c ∈ st.clients, c.deleting ≠ some key) ↔ ∀ y ∈ a.clients, y.2 ≠ .del := by
    rw [h.clients, List.forall_mem_map]
    simp only [ne_eq, LockPoint.deleting_client]
  cases x with
  | call i o =>
    change (∀ c ∈ st.clients[i]?, _) ↔ ∀ x ∈ a.clients[i]?, _
    simp only [halone, h.entry]
    rw [h.clients, List.getElem?_map]
    simp only [Option.mem_def, Option.map_eq_some_iff, forall_exists_index, and_imp,
      forall_apply_eq_imp_iff₂, LockPoint.setting_client, LockPoint.expiring_client]
  | stop i =>
    change (∀ c ∈ st.clients[i]?, _) ↔ ∀ x ∈ a.clients[i]?, _
    rw [h.clients, List.getElem?_map]
    simp only [Option.mem_def, Option.map_eq_some_iff, forall_exists_index, and_imp,
      forall_apply_eq_imp_iff₂, ne_eq, LockPoint.expiring_client]
  | acquire => exact Iff.rfl
  | release => exact Iff.rfl
  | expireKey => exact Iff.rfl

end Clients

/-- As long as every step is careful every state is safe, and the first step that is not
careful leads to a state that is not. -/
theorem lock_safe_iff {key : String} {timeout : ℕ} {st st' : LockSystem} {x : LockAction}
    (h : ((LockSystem.machine key timeout).restrict (LockSystem.Careful key)).Reachable st)
    (hstep : (LockSystem.machine key timeout).Step st x st') :
    st.Safe key ∧ (st'.Safe key ↔ st.Careful key x) := by
  have hsim : Machine.Simulation
      ((LockSystem.machine key timeout).restrict (LockSystem.Careful key))
      ((LockState.machine timeout).restrict LockState.Careful)
      (LockSystem.Models key timeout) :=
    (lock_refinement key timeout).restrict fun _ _ x hmodels => (hmodels.careful_iff x).mp
  obtain ⟨a, hreach, hmodels⟩ := hsim.reachable h
  have hlocked := (LockState.locked_invariant timeout).reachable hreach
  obtain ⟨a', hstep', hmodels'⟩ := (lock_refinement key timeout).step _ _ _ _ hmodels hstep
  refine ⟨hmodels.safe_iff.mpr hlocked.safe, ?_⟩
  rw [hmodels'.safe_iff, hmodels.careful_iff]
  constructor
  · intro hsafe
    by_contra hcareless
    exact hlocked.not_safe hstep' hcareless hsafe
  · intro hcareful
    exact (hlocked.step hstep' hcareful).safe

namespace LockSystem

/-- A run of the clients of the job's lock, each step of it passing the guard. -/
def runWhile (guard : LockSystem → LockAction → Bool) (as : List LockAction) :
    Option LockSystem :=
  Machine.runWhile (fun st x => st.step lockKey lockTimeout x) guard (init (Store.init [])) as

theorem reachable_of_runWhile {guard : LockSystem → LockAction → Bool}
    {G : LockSystem → LockAction → Prop} (hG : ∀ st x, guard st x = true → G st x)
    {as : List LockAction} {st : LockSystem} (h : runWhile guard as = some st) :
    ((machine lockKey lockTimeout).restrict G).Reachable st :=
  ⟨init (Store.init []), as, ⟨_, rfl, rfl⟩,
    Machine.steps_of_runWhile (fun _ _ _ hstep => hstep) hG h⟩

theorem reachable_of_run {guard : LockSystem → LockAction → Bool} {as : List LockAction}
    {st : LockSystem} (h : runWhile guard as = some st) :
    (machine lockKey lockTimeout).Reachable st :=
  ⟨init (Store.init []), as, ⟨_, rfl, rfl⟩, Machine.steps_of_run (fun _ _ _ hstep => hstep) h⟩

end LockSystem

/-- A client that takes the lock, and comes to release it. -/
def Scenario.releasing : List LockAction :=
  [.acquire (uid 1), .call 0 up, .call 0 up, .release 0, .call 0 up]

/-- A second client meets the lock, and a third one takes it once it is released. -/
def Scenario.succeeding : List LockAction :=
  [.acquire (uid 1), .call 0 up, .acquire (uid 2), .call 1 up, .call 0 up, .release 0,
    .call 0 up, .call 0 up, .acquire (uid 3), .call 2 up]

/-- The third client sets the timeout of its key. -/
theorem lock_safe_iff_releasing : ∃ st st' : LockSystem,
    st.store.cache lockKey = some ⟨(Scenario.uid 3).toString, none⟩ ∧
      st'.store.cache lockKey = some ⟨(Scenario.uid 3).toString, some lockTimeout⟩ ∧
      st.clients.length = 3 ∧ st.Safe lockKey ∧ st'.Safe lockKey := by
  have hrun : (LockSystem.runWhile (fun st x => decide (st.Careful lockKey x))
      Scenario.succeeding).bind (fun st =>
        (st.step lockKey lockTimeout (.call 2 Scenario.up)).map fun st' =>
          (decide (st.Careful lockKey (.call 2 Scenario.up)), st.store.cache lockKey,
            st'.store.cache lockKey, st.clients.length)) =
      some (true, some ⟨(Scenario.uid 3).toString, none⟩,
        some ⟨(Scenario.uid 3).toString, some lockTimeout⟩, 3) := by decide +kernel
  obtain ⟨st, hst, hrest⟩ := Option.bind_eq_some_iff.mp hrun
  obtain ⟨st', hstep, hfacts⟩ := Option.map_eq_some_iff.mp hrest
  obtain ⟨hcareful, hset, hexpiring, hclients⟩ : _ ∧ _ ∧ _ ∧ _ := by
    simpa only [Prod.mk.injEq] using hfacts
  have hreach := LockSystem.reachable_of_runWhile (fun _ _ hg => of_decide_eq_true hg) hst
  obtain ⟨hsafe, hnext⟩ := lock_safe_iff hreach hstep
  exact ⟨st, st', hset, hexpiring, hclients, hsafe, hnext.mpr (of_decide_eq_true hcareful)⟩

/-- The key expires before the first client deletes it, and a second client takes it. -/
def Scenario.overtaken : List LockAction :=
  releasing ++ [.expireKey, .acquire (uid 2), .call 1 up]

/-- A client is lost between the two commands of `acquire_lock`. -/
def Scenario.lost : List LockAction := [.acquire (uid 1), .call 0 up, .stop 0]

/-- A client is about to delete a key that holds the value of another; and a key without an
expiry is left by a client that is gone. -/
theorem not_lock_safe :
    (∃ st, (LockSystem.machine lockKey lockTimeout).Reachable st ∧ ∃ c ∈ st.clients,
      c.deleting = some lockKey ∧
        ∃ entry ∈ st.store.cache lockKey, entry.value ≠ c.value.toString) ∧
    ∃ st, (LockSystem.machine lockKey lockTimeout).Reachable st ∧
      ∃ entry ∈ st.store.cache lockKey, entry.timeout = none ∧
        ∀ c ∈ st.clients, c.expiring ≠ some lockKey := by
  constructor
  · have hrun : (LockSystem.runWhile (fun _ _ => true) Scenario.overtaken).map (fun st =>
        decide (∃ c ∈ st.clients, c.deleting = some lockKey ∧
          ∃ entry ∈ st.store.cache lockKey, entry.value ≠ c.value.toString)) = some true := by
      decide +kernel
    obtain ⟨st, hst, hforeign⟩ := Option.map_eq_some_iff.mp hrun
    exact ⟨st, LockSystem.reachable_of_run hst, of_decide_eq_true hforeign⟩
  · have hrun : (LockSystem.runWhile (fun _ _ => true) Scenario.lost).map (fun st =>
        decide (∃ entry ∈ st.store.cache lockKey, entry.timeout = none ∧
          ∀ c ∈ st.clients, c.expiring ≠ some lockKey)) = some true := by
      decide +kernel
    obtain ⟨st, hst, hlost⟩ := Option.map_eq_some_iff.mp hrun
    exact ⟨st, LockSystem.reachable_of_run hst, of_decide_eq_true hlost⟩

end Bankie

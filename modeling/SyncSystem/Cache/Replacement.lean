/-
SyncSystem.Cache.Replacement — the cache table and its LRU list.

`cache` and `lru.access_order` are two dictionaries that every operation
updates by separate calls; `Mirrors` says that they have the same
addresses, no more than `max_size` of them, in the order of last use.
Each operation keeps that, and so

* `lru_mirrors_cache`: the two agree in every run, and nothing raises;
* `evicts_least_recent`: a write evicts only when it has to, and then
  the address used least recently.

A use of an address is a write, or a read that finds a line that is not
INVALID (`useOf`).
-/
import SyncSystem.Cache.Operations
import SyncSystem.Recency.LastUse

namespace SyncSystem.Cache

open SyncSystem.Python
open SyncSystem.Recency

variable {α δ : Type} [BEq α]

/-! ## Uses -/

/-- The address an operation uses. -/
def useOf (n : CacheNode α δ) : CacheOp α δ → Option α
  | .read address => if n.hits address then some address else none
  | .write address _ _ => some address
  | _ => none

/-- The addresses used so far, in order. -/
def uses (c : CacheNodeRun α δ) : List α := c.1.filterMap (fun e => useOf e.before e.action)

@[simp] theorem uses_push (c : CacheNodeRun α δ) (op : CacheOp α δ) (n' : CacheNode α δ)
    (out : List (CacheEvent α δ)) :
    uses (c.push op n' out) = uses c ++ (useOf c.2 op).toList := by
  cases h : useOf c.2 op <;> simp [uses, h]

/-! ## `touch` below capacity -/

namespace LRUReplacement

theorem touch_capacity (l : LRUReplacement α) (address : α) :
    (l.touch address).capacity = l.capacity := rfl

/-- There is room for one more address, or this one is there. -/
def HasRoom (l : LRUReplacement α) (address : α) : Prop :=
  l.accessOrder.contains address = true ∧ l.accessOrder.size ≤ l.capacity ∨
    l.accessOrder.size < l.capacity

variable [EquivBEq α]

theorem contains_del_self (l : LRUReplacement α) (address : α) :
    (l.accessOrder.del address).contains address = false := by
  simp [Dict.contains_del]

/-- The list does not trim itself: the address goes to the end. -/
theorem touch_order {l : LRUReplacement α} {address : α} (h : l.HasRoom address) :
    (l.touch address).accessOrder = (l.accessOrder.del address).set address () := by
  have hsize : ((l.accessOrder.del address).set address ()).size ≤ l.capacity := by
    rw [Dict.size_set, l.contains_del_self]
    rcases h with ⟨hin, hle⟩ | hlt
    · have := Dict.size_del hin
      simp
      omega
    · have hdel : (l.accessOrder.del address).size ≤ l.accessOrder.size :=
        List.length_filter_le _ _
      simp
      omega
  have hfits : ¬ ((l.accessOrder.del address).set address ()).size > l.capacity := by omega
  simp only [touch, hfits, if_false]

theorem touch_keys {l : LRUReplacement α} {address : α} (h : l.HasRoom address) :
    (l.touch address).accessOrder.keys =
      l.accessOrder.keys.filter (fun a => !(a == address)) ++ [address] := by
  rw [touch_order h, Dict.keys_set_new (l.contains_del_self address), Dict.keys_del]

theorem contains_touch {l : LRUReplacement α} {address : α} (h : l.HasRoom address) (a : α) :
    (l.touch address).accessOrder.contains a = (address == a || l.accessOrder.contains a) := by
  rw [touch_order h, Dict.contains_set, Dict.contains_del]
  cases address == a <;> simp

theorem size_touch {l : LRUReplacement α} {address : α} (h : l.HasRoom address) :
    (l.touch address).accessOrder.size =
      if l.accessOrder.contains address then l.accessOrder.size else l.accessOrder.size + 1 := by
  rw [touch_order h, Dict.size_set, l.contains_del_self]
  cases hin : l.accessOrder.contains address with
  | true =>
    have := Dict.size_del hin
    simpa using this
  | false =>
    have hnone : l.accessOrder.get? address = none := by
      simpa [Dict.contains] using hin
    simp [Dict.del_of_get?_eq_none hnone]

end LRUReplacement

/-! ## The table and the list -/

/-- `lru.access_order` has the addresses of `cache`, at most `maxSize` of
them, in the order of last use. -/
structure Mirrors (maxSize : Nat) (n : CacheNode α δ) (us : List α) : Prop where
  limit : n.maxSize = maxSize
  capacity : n.lru.capacity = maxSize
  same : ∀ a, n.lru.accessOrder.contains a = n.cache.contains a
  size : n.lru.accessOrder.size = n.cache.size
  bounded : n.cache.size ≤ maxSize
  order : ByLastUse us n.lru.accessOrder.keys

namespace Mirrors

variable {maxSize : Nat} {n n' : CacheNode α δ} {us : List α}

theorem init (nodeId : String) (peers : List String) (maxSize : Nat) (ttl : Rat) :
    Mirrors maxSize (CacheNode.init nodeId peers maxSize ttl : CacheNode α δ) [] where
  limit := rfl
  capacity := rfl
  same := fun _ => rfl
  size := rfl
  bounded := Nat.zero_le _
  order := .nil

/-- Lines have changed, but no address. -/
theorem keep (h : Mirrors maxSize n us) (hlru : n'.lru = n.lru) (hmax : n'.maxSize = n.maxSize)
    (hkeys : n'.cache.contains = n.cache.contains) (hsize : n'.cache.size = n.cache.size) :
    Mirrors maxSize n' us where
  limit := by rw [hmax, h.limit]
  capacity := by rw [hlru, h.capacity]
  same := by rw [hlru, hkeys]; exact h.same
  size := by rw [hlru, hsize, h.size]
  bounded := by rw [hsize]; exact h.bounded
  order := by rw [hlru]; exact h.order

variable [EquivBEq α]

/-- A line is assigned to an address that is there. -/
theorem assign (h : Mirrors maxSize n us) {address : α} (hin : n.cache.contains address = true)
    {line : CacheLine α δ} (hlru : n'.lru = n.lru) (hmax : n'.maxSize = n.maxSize)
    (hcache : n'.cache = n.cache.set address line) : Mirrors maxSize n' us := by
  refine h.keep hlru hmax ?_ ?_
  · funext a
    rw [hcache, Dict.contains_set]
    cases ha : address == a with
    | false => rfl
    | true => simp [← n.cache.contains_congr ha, hin]
  · rw [hcache, Dict.size_set, if_pos hin]

/-- A line is assigned, and the address touched, where there is room. -/
theorem put (h : Mirrors maxSize n us) {address : α} {line : CacheLine α δ}
    (hroom : n.cache.contains address = true ∨ n.cache.size < n.maxSize)
    (hlru : n'.lru = n.lru.touch address) (hmax : n'.maxSize = n.maxSize)
    (hcache : n'.cache = n.cache.set address line) : Mirrors maxSize n' (us ++ [address]) := by
  have hr : n.lru.HasRoom address := by
    rcases hroom with hin | hlt
    · left
      rw [h.same, h.size, h.capacity]
      exact ⟨hin, h.bounded⟩
    · right
      rw [h.size, h.capacity, ← h.limit]
      exact hlt
  have hsize : n'.cache.size = if n.cache.contains address then n.cache.size
      else n.cache.size + 1 := by rw [hcache, Dict.size_set]
  constructor
  · rw [hmax, h.limit]
  · rw [hlru, LRUReplacement.touch_capacity, h.capacity]
  · intro a
    rw [hlru, LRUReplacement.contains_touch hr, hcache, Dict.contains_set, h.same]
  · rw [hlru, LRUReplacement.size_touch hr, hsize, h.same, h.size]
  · rw [hsize]
    split
    · exact h.bounded
    · next habsent =>
      have hlt := hroom.resolve_left habsent
      rw [h.limit] at hlt
      exact hlt
  · rw [hlru, LRUReplacement.touch_keys hr]
    exact h.order.use address

/-- A hit: only the list changes. -/
theorem touch (h : Mirrors maxSize n us) {address : α} (hin : n.cache.contains address = true)
    (hlru : n'.lru = n.lru.touch address) (hmax : n'.maxSize = n.maxSize)
    (hcache : n'.cache = n.cache) : Mirrors maxSize n' (us ++ [address]) := by
  obtain ⟨line, _⟩ := Dict.contains_eq_true.mp hin
  -- as if the line had been assigned to itself
  have hput : Mirrors maxSize { n' with cache := n.cache.set address line } (us ++ [address]) :=
    h.put (Or.inl hin) hlru hmax rfl
  refine hput.keep rfl rfl ?_ ?_
  · funext a
    rw [hcache, Dict.contains_set]
    cases ha : address == a with
    | false => rfl
    | true => simp [← n.cache.contains_congr ha, hin]
  · rw [hcache, Dict.size_set, if_pos hin]

theorem evict (h : Mirrors maxSize n us) {a : α} (hin : n.cache.contains a = true) :
    Mirrors maxSize (n.evict a) us where
  limit := h.limit
  capacity := h.capacity
  same := by
    intro b
    rw [CacheNode.evict_cache, Dict.contains_del, ← h.same]
    exact Dict.contains_del _ _ _
  size := by
    have hcache := Dict.size_del hin
    have hlru := Dict.size_del ((h.same a).trans hin)
    have := h.size
    show (n.lru.accessOrder.del a).size = (n.cache.del a).size
    omega
  bounded := by
    have hcache := Dict.size_del hin
    have := h.bounded
    show (n.cache.del a).size ≤ maxSize
    omega
  order := by
    show ByLastUse us (n.lru.accessOrder.del a).keys
    rw [Dict.keys_del]
    exact h.order.sublist List.filter_sublist

end Mirrors

/-! ## What a write does -/

namespace CacheNode

variable {n : CacheNode α δ} {address : α}

/-- The address is held, or there is room: nothing is evicted. -/
theorem write_put (h : n.cache.contains address = true ∨ n.cache.size < n.maxSize) (data : δ)
    (now : Rat) :
    (n.write address data now).2 = .ok true ∧
      (n.write address data now).1.lru = n.lru.touch address ∧
      (n.write address data now).1.maxSize = n.maxSize ∧
      ∃ line, (n.write address data now).1.cache = n.cache.set address line := by
  have hnew : n.writeNew address data now =
      ((n.broadcastUpgrade address).install address data now, .ok true) := by
    have hkept : (!n.cache.contains address && decide (n.cache.size ≥ n.maxSize)) = false := by
      rcases h with hin | hlt
      · simp [hin]
      · simp [hlt]
    simp [writeNew, hkept]
  have hput : (n.writeNew address data now).2 = .ok true ∧
      (n.writeNew address data now).1.lru = n.lru.touch address ∧
      (n.writeNew address data now).1.maxSize = n.maxSize ∧
      ∃ line, (n.writeNew address data now).1.cache = n.cache.set address line := by
    rw [hnew]
    exact ⟨rfl, rfl, rfl, _, rfl⟩
  unfold write
  split
  · exact hput
  · split
    · exact ⟨rfl, rfl, rfl, _, rfl⟩
    · exact hput

/-- The address is new and the cache full: `victim` makes room. -/
theorem write_full (habsent : n.cache.contains address = false) (hfull : n.maxSize ≤ n.cache.size)
    {victim : α} (hvictim : n.lru.evict = some victim) (hin : n.cache.contains victim = true)
    (data : δ) (now : Rat) :
    (n.write address data now).2 = .ok true ∧
      (n.write address data now).1.lru = (n.evict victim).lru.touch address ∧
      (n.write address data now).1.maxSize = n.maxSize ∧
      ∃ line, (n.write address data now).1.cache = (n.evict victim).cache.set address line := by
  have hnone : n.cache.get? address = none := by
    simpa [Dict.contains] using habsent
  have hwrite : n.write address data now =
      (((n.broadcastUpgrade address).evict victim).install address data now, .ok true) := by
    simp [write, hnone, writeNew, habsent, hfull, hvictim, hin]
  rw [hwrite]
  exact ⟨rfl, rfl, rfl, _, rfl⟩

end CacheNode

/-! ## Every operation keeps the mirror -/

namespace Mirrors

variable [EquivBEq α] {maxSize : Nat} {n : CacheNode α δ} {us : List α}

/-- A full cache has a victim, the head of the list, which is in the cache. -/
theorem victim (h : Mirrors maxSize n us) (hmax : 1 ≤ maxSize) (hfull : n.maxSize ≤ n.cache.size) :
    ∃ v rest, n.lru.accessOrder.keys = v :: rest ∧ n.lru.evict = some v ∧
      n.cache.contains v = true := by
  cases hkeys : n.lru.accessOrder.keys with
  | nil =>
    have hlen := n.lru.accessOrder.length_keys
    have hsize := h.size
    have hlimit := h.limit
    simp [hkeys] at hlen
    omega
  | cons v rest =>
    refine ⟨v, rest, rfl, by simp [LRUReplacement.evict, hkeys], ?_⟩
    rw [← h.same]
    exact Dict.contains_iff_keys.mpr ⟨v, by simp [hkeys], BEq.rfl⟩

theorem read (h : Mirrors maxSize n us) (address : α) :
    Mirrors maxSize (n.read address).1 (us ++ (useOf n (.read address)).toList) := by
  cases hhit : n.hits address with
  | true =>
    obtain ⟨hlru, hmax⟩ := CacheNode.read_hit hhit
    obtain ⟨line, hget, _⟩ := CacheNode.hits_iff.mp hhit
    simp only [useOf, hhit, if_true, Option.toList_some]
    exact h.touch (Dict.contains_eq_true.mpr ⟨line, hget⟩) hlru hmax (n.read_cache address)
  | false =>
    obtain ⟨hlru, hmax⟩ := CacheNode.read_miss hhit
    simp only [useOf, hhit, Bool.false_eq_true, if_false, Option.toList_none, List.append_nil]
    exact h.keep hlru hmax (by rw [n.read_cache]) (by rw [n.read_cache])

theorem write (h : Mirrors maxSize n us) (hmax : 1 ≤ maxSize) (address : α) (data : δ) (now : Rat) :
    Mirrors maxSize (n.write address data now).1 (us ++ [address]) ∧
      (n.write address data now).2 = .ok true := by
  by_cases hroom : n.cache.contains address = true ∨ n.cache.size < n.maxSize
  · obtain ⟨hok, hlru, hkept, line, hcache⟩ := CacheNode.write_put hroom data now
    exact ⟨h.put hroom hlru hkept hcache, hok⟩
  · simp only [not_or, Bool.not_eq_true, not_lt] at hroom
    obtain ⟨habsent, hfull⟩ := hroom
    obtain ⟨v, rest, _, hv, hin⟩ := h.victim hmax hfull
    obtain ⟨hok, hlru, hkept, line, hcache⟩ := CacheNode.write_full habsent hfull hv hin data now
    have hevicted := h.evict hin
    have hless : (n.evict v).cache.size < (n.evict v).maxSize := by
      have hdel := Dict.size_del hin
      have hle := h.bounded
      have hlimit := h.limit
      show (n.cache.del v).size < n.maxSize
      omega
    exact ⟨hevicted.put (Or.inr hless) hlru hkept hcache, hok⟩

theorem restates {n' : CacheNode α δ} {address : α} (h : Mirrors maxSize n us)
    (hr : CacheNode.Restates n n' address) : Mirrors maxSize n' us := by
  rcases hr.cache with hcache | ⟨line, state, hget, hcache⟩
  · exact h.keep hr.lru hr.maxSize (by rw [hcache]) (by rw [hcache])
  · exact h.assign (Dict.contains_eq_true.mpr ⟨line, hget⟩) hr.lru hr.maxSize hcache

theorem cleanup (h : Mirrors maxSize n us) (now : Rat) : Mirrors maxSize (n.cleanup now) us := by
  have hfold : ∀ (addrs : List α) (m : CacheNode α δ), Mirrors maxSize m us →
      (∀ a ∈ addrs, m.cache.contains a = true) →
      addrs.Pairwise (fun a b => (a == b) = false) → Mirrors maxSize (addrs.foldl CacheNode.evict m) us := by
    intro addrs
    induction addrs with
    | nil => exact fun _ hm _ _ => hm
    | cons a rest ih =>
      intro m hm hin hne
      obtain ⟨hfirst, hrest⟩ := List.pairwise_cons.mp hne
      refine ih (m.evict a) (hm.evict (hin a List.mem_cons_self)) ?_ hrest
      intro b hb
      rw [CacheNode.evict_cache, Dict.contains_del, hfirst b hb]
      simpa using hin b (List.mem_cons_of_mem _ hb)
  exact hfold _ n h (n.contains_expired now) (n.expired_distinct now)

/-- One operation: the mirror is kept, and nothing is raised. -/
theorem apply (h : Mirrors maxSize n us) (hmax : 1 ≤ maxSize) (op : CacheOp α δ) :
    Mirrors maxSize (n.apply op).1 (us ++ (useOf n op).toList) ∧
      ∀ e, CacheEvent.raised e ∉ (n.apply op).2 := by
  cases op with
  | read address => exact ⟨h.read address, by simp [CacheNode.apply]⟩
  | write address data now =>
    obtain ⟨hkept, hok⟩ := h.write hmax address data now
    exact ⟨hkept, by simp [CacheNode.apply, hok]⟩
  | invalidate address =>
    simp only [useOf, Option.toList_none, List.append_nil]
    exact ⟨h.restates (n.restates_invalidate address), by simp [CacheNode.apply]⟩
  | handleSnoop address operation =>
    simp only [useOf, Option.toList_none, List.append_nil]
    refine ⟨h.restates (n.restates_handleSnoop address operation), ?_⟩
    intro e
    simp only [CacheNode.apply]
    split <;> simp
  | cleanup now =>
    simp only [useOf, Option.toList_none, List.append_nil, CacheNode.apply,
      CacheNode.cacheCleanup_eq]
    exact ⟨h.cleanup now, by simp⟩

end Mirrors

/-! ## Runs -/

variable [EquivBEq α]

variable {nodeId : String} {peers : List String} {maxSize : Nat} {ttl : Rat} {c : CacheNodeRun α δ}

theorem mirrors_of_leads (hmax : 1 ≤ maxSize)
    (h : CacheNode.machine.Leads Machine.always ([], .init nodeId peers maxSize ttl) c) :
    Mirrors maxSize c.2 (uses c) := by
  refine h.invariant (I := fun c => Mirrors maxSize c.2 (uses c)) (Mirrors.init ..) ?_
  intro c op n' out _ ih _ hs
  have hkept := (ih.apply hmax op).1
  rw [CacheNode.machine_step.mp hs] at hkept
  rwa [uses_push]

/-- **The cache and its LRU list agree**: in every run they have the same
addresses, each once and `max_size` at most, and no operation raises. -/
theorem lru_mirrors_cache (hmax : 1 ≤ maxSize)
    (h : CacheNode.machine.Leads Machine.always ([], .init nodeId peers maxSize ttl) c) :
    ((∀ a, c.2.lru.accessOrder.contains a = c.2.cache.contains a) ∧
      c.2.cache.keys.Pairwise (fun a b => (a == b) = false) ∧
      c.2.lru.accessOrder.keys.Pairwise (fun a b => (a == b) = false) ∧
      c.2.cache.size ≤ maxSize ∧ c.2.lru.accessOrder.size ≤ maxSize) ∧
      EveryStep (fun _ _ out => ∀ e, CacheEvent.raised e ∉ out) c.1 := by
  have hm := mirrors_of_leads hmax h
  have hle : c.2.lru.accessOrder.size ≤ maxSize := by
    rw [hm.size]
    exact hm.bounded
  refine ⟨⟨hm.same, c.2.cache.distinct_keys, c.2.lru.accessOrder.distinct_keys, hm.bounded, hle⟩, ?_⟩
  refine h.everyStep ?_
  intro d op n' out hreach _ hs
  have hnone := ((mirrors_of_leads hmax hreach).apply hmax op).2
  rwa [CacheNode.machine_step.mp hs] at hnone

/-- Room for two; the first is read again before the third comes. -/
def fullRun : List (CacheOp Int String) :=
  [.write 1 "a" 0, .write 2 "b" 1, .read 1]

theorem lru_mirrors_cache_fullRun :
    ∃ c : CacheNodeRun Int String,
      CacheNode.machine.Leads Machine.always ([], .init "n1" [] 2 300) c ∧ c.2.cache.size = 2 ∧
      (∀ a, c.2.lru.accessOrder.contains a = c.2.cache.contains a) ∧
      EveryStep (fun _ _ out => ∀ e, CacheEvent.raised e ∉ out) c.1 := by
  obtain ⟨c, hc, hp⟩ := Machine.exists_leads_of_exec CacheNode.machine Machine.always
    ([], .init "n1" [] 2 300) fullRun (fun c => decide (c.2.cache.size = 2)) (by decide +kernel)
  have hmirror := lru_mirrors_cache (by decide) hc
  exact ⟨c, hc, of_decide_eq_true hp, hmirror.1.1, hmirror.2⟩

/-- **Evictions follow least recent use.** A write to a new address finds
the cache full and takes out one address, the one of all that was used
least recently; any other write takes out none. -/
theorem evicts_least_recent (hmax : 1 ≤ maxSize)
    (h : CacheNode.machine.Leads Machine.always ([], .init nodeId peers maxSize ttl) c)
    (address : α) (data : δ) (now : Rat) :
    let n' := (c.2.write address data now).1
    (c.2.cache.contains address = false ∧ c.2.cache.size = maxSize →
      ∃ victim, c.2.cache.contains victim = true ∧ 0 < lastUse (uses c) victim ∧
        (∀ b, c.2.cache.contains b = true → (victim == b) = false →
          lastUse (uses c) victim < lastUse (uses c) b) ∧
        ∀ b, (address == b) = false →
          n'.cache.contains b = (!(victim == b) && c.2.cache.contains b)) ∧
      (¬ (c.2.cache.contains address = false ∧ c.2.cache.size = maxSize) →
        ∀ b, (address == b) = false → n'.cache.contains b = c.2.cache.contains b) := by
  intro n'
  have hm := mirrors_of_leads hmax h
  constructor
  · rintro ⟨habsent, hfull⟩
    have hle : c.2.maxSize ≤ c.2.cache.size := by rw [hm.limit, hfull]
    obtain ⟨v, rest, hkeys, hv, hin⟩ := hm.victim hmax hle
    obtain ⟨_, _, _, line, hcache⟩ := CacheNode.write_full habsent hle hv hin data now
    have hused := hm.order.used v (by simp [hkeys])
    refine ⟨v, hin, hused, ?_, ?_⟩
    · intro b hb hne
      rw [← hm.same, Dict.contains_iff_keys] at hb
      obtain ⟨k, hk, hkb⟩ := hb
      rw [hkeys] at hk
      rcases List.mem_cons.mp hk with rfl | hk
      · rw [hkb] at hne
        cases hne
      · have horder := hm.order
        rw [hkeys] at horder
        rw [← lastUse_congr _ hkb]
        exact horder.head_lt k hk
    · intro b hne
      rw [hcache, Dict.contains_set, hne, CacheNode.evict_cache, Dict.contains_del]
      rfl
  · intro hroom b hne
    have hplace : c.2.cache.contains address = true ∨ c.2.cache.size < c.2.maxSize := by
      have hle := hm.bounded
      have hlimit := hm.limit
      cases hin : c.2.cache.contains address with
      | true => exact Or.inl rfl
      | false =>
        have : c.2.cache.size ≠ maxSize := fun hfull => hroom ⟨hin, hfull⟩
        omega
    obtain ⟨_, _, _, line, hcache⟩ := CacheNode.write_put hplace data now
    rw [hcache, Dict.contains_set, hne]
    rfl

theorem evicts_least_recent_fullRun :
    ∃ c : CacheNodeRun Int String,
      CacheNode.machine.Leads Machine.always ([], .init "n1" [] 2 300) c ∧ uses c = [1, 2, 1] ∧
      ∃ victim, c.2.cache.contains victim = true ∧
        (∀ b, c.2.cache.contains b = true → (victim == b) = false →
          lastUse (uses c) victim < lastUse (uses c) b) ∧
        (c.2.write 3 "c" 2).1.cache.contains 1 = (!(victim == 1) && c.2.cache.contains 1) := by
  obtain ⟨c, hc, hp⟩ := Machine.exists_leads_of_exec CacheNode.machine Machine.always
    ([], .init "n1" [] 2 300) fullRun
    (fun c => decide (uses c = [1, 2, 1] ∧ c.2.cache.contains 3 = false ∧ c.2.cache.size = 2))
    (by decide +kernel)
  obtain ⟨huses, habsent, hfull⟩ := of_decide_eq_true hp
  obtain ⟨victim, hin, _, hleast, hout⟩ :=
    (evicts_least_recent (by decide) hc 3 "c" 2).1 ⟨habsent, hfull⟩
  exact ⟨c, hc, huses, victim, hin, hleast, hout 1 (by decide)⟩

end SyncSystem.Cache

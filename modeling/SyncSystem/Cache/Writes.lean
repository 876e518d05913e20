/-
SyncSystem.Cache.Writes — a write never raises, whatever the capacity.

The one lookup of a write that can fail is that of the address `evict`
names. It does not fail as long as every address of the LRU list is in
the table (`Listed`), which every operation keeps: with a capacity of 0
the list stays empty, nothing is ever evicted, and that is all that
differs from `Mirrors`.
-/
import SyncSystem.Cache.Replacement

namespace SyncSystem.Cache

open SyncSystem.Python

variable {α δ : Type} [BEq α]

/-- Every address of the LRU list has a line. -/
def Listed (n : CacheNode α δ) : Prop :=
  ∀ a, n.lru.accessOrder.contains a = true → n.cache.contains a = true

theorem listed_init (nodeId : String) (peers : List String) (maxSize : Nat) (ttl : Rat) :
    Listed (CacheNode.init nodeId peers maxSize ttl : CacheNode α δ) := by
  intro a h
  cases h

variable [EquivBEq α]

/-- A touch lists no other address. -/
theorem LRUReplacement.contains_of_touch {l : LRUReplacement α} {address a : α}
    (h : (l.touch address).accessOrder.contains a = true) :
    (address == a) = true ∨ l.accessOrder.contains a = true := by
  have hset : ((l.accessOrder.del address).set address ()).contains a = true := by
    simp only [touch] at h
    split at h
    · obtain ⟨k, hk, hka⟩ := Dict.contains_iff_keys.mp h
      refine Dict.contains_iff_keys.mpr ⟨k, ?_, hka⟩
      have htail : k ∈ ((l.accessOrder.del address).set address ()).keys.tail := by
        simpa [Dict.popFirst, Dict.keys, List.map_tail] using hk
      exact List.mem_of_mem_tail htail
    · exact h
  rw [Dict.contains_set, Bool.or_eq_true] at hset
  exact hset.imp_right Dict.contains_of_contains_del

theorem LRUReplacement.contains_of_evict {l : LRUReplacement α} {v : α} (h : l.evict = some v) :
    l.accessOrder.contains v = true :=
  Dict.contains_iff_keys.mpr ⟨v, List.mem_of_mem_head? h, BEq.rfl⟩

namespace Listed

variable {n n' : CacheNode α δ}

/-- A line is put in and its address touched. -/
theorem put (h : Listed n) {address : α} {line : CacheLine α δ}
    (hlru : n'.lru = n.lru.touch address) (hcache : n'.cache = n.cache.set address line) :
    Listed n' := by
  intro a ha
  rw [hlru] at ha
  rw [hcache, Dict.contains_set, Bool.or_eq_true]
  exact (LRUReplacement.contains_of_touch ha).imp_right (h a)

theorem evict (h : Listed n) (v : α) : Listed (n.evict v) := by
  intro a ha
  have hlisted : (n.lru.accessOrder.del v).contains a = true := ha
  rw [Dict.contains_del, Bool.and_eq_true] at hlisted
  rw [CacheNode.evict_cache, Dict.contains_del, hlisted.1, h a hlisted.2]
  rfl

/-- What a write does: the line is put in, where the address is new after
an eviction at most. -/
theorem write_eq (h : Listed n) (address : α) (data : δ) (now : Rat) :
    (n.write address data now).2 = .ok true ∧
      ∃ m line, (m = n ∨ n.cache.contains address = false ∧ ∃ v, m = n.evict v) ∧
        (n.write address data now).1.lru = m.lru.touch address ∧
        (n.write address data now).1.cache = m.cache.set address line := by
  by_cases hroom : n.cache.contains address = true ∨ n.cache.size < n.maxSize
  · obtain ⟨hok, hlru, _, line, hcache⟩ := CacheNode.write_put hroom data now
    exact ⟨hok, n, line, Or.inl rfl, hlru, hcache⟩
  · simp only [not_or, Bool.not_eq_true, not_lt] at hroom
    obtain ⟨habsent, hfull⟩ := hroom
    cases hv : n.lru.evict with
    | some v =>
      have hin := h v (LRUReplacement.contains_of_evict hv)
      obtain ⟨hok, hlru, _, line, hcache⟩ := CacheNode.write_full habsent hfull hv hin data now
      exact ⟨hok, n.evict v, line, Or.inr ⟨habsent, v, rfl⟩, hlru, hcache⟩
    | none =>
      -- nothing is listed, so nothing can be evicted
      have hnone : n.cache.get? address = none := by
        simpa [Dict.contains] using habsent
      have hwrite : n.write address data now =
          ((n.broadcastUpgrade address).install address data now, .ok true) := by
        simp [CacheNode.write, hnone, CacheNode.writeNew, habsent, hfull, hv]
      rw [hwrite]
      exact ⟨rfl, n, _, Or.inl rfl, rfl, rfl⟩

theorem write (h : Listed n) (address : α) (data : δ) (now : Rat) :
    Listed (n.write address data now).1 := by
  obtain ⟨_, m, line, hm, hlru, hcache⟩ := h.write_eq address data now
  rcases hm with rfl | ⟨_, v, rfl⟩
  · exact h.put hlru hcache
  · exact (h.evict v).put hlru hcache

theorem read (h : Listed n) (address : α) : Listed (n.read address).1 := by
  intro a ha
  rw [n.read_cache]
  cases hhit : n.hits address with
  | false =>
    rw [(CacheNode.read_miss hhit).1] at ha
    exact h a ha
  | true =>
    rw [(CacheNode.read_hit hhit).1] at ha
    rcases LRUReplacement.contains_of_touch ha with heq | hold
    · obtain ⟨line, hget, _⟩ := CacheNode.hits_iff.mp hhit
      rw [← n.cache.contains_congr heq]
      exact Dict.contains_eq_true.mpr ⟨line, hget⟩
    · exact h a hold

theorem restates {address : α} (h : Listed n) (hr : CacheNode.Restates n n' address) :
    Listed n' := by
  intro a ha
  rw [hr.lru] at ha
  exact hr.contains (h a ha)

theorem apply (h : Listed n) (op : CacheOp α δ) : Listed (n.apply op).1 := by
  cases op with
  | read address => exact h.read address
  | write address data now => exact h.write address data now
  | invalidate address => exact h.restates (n.restates_invalidate address)
  | handleSnoop address operation => exact h.restates (n.restates_handleSnoop address operation)
  | cleanup now =>
    simp only [CacheNode.apply, CacheNode.cacheCleanup_eq]
    exact CacheNode.cleanup_keeps (fun m a hm => hm.evict a) h now

/-- A write to a listed cache leaves the data in a MODIFIED line. -/
theorem get?_write (h : Listed n) (address : α) (data : δ) (now : Rat) :
    ∃ line, (n.write address data now).1.cache.get? address = some line ∧
      line.state = .modified ∧ line.data = some data := by
  have hok := (h.write_eq address data now).1
  rcases n.write_cases address data now with
    ⟨⟨e, he⟩, _⟩ | ⟨_, line, hstate, hdata, hcache⟩
  · rw [hok] at he
    cases he
  · refine ⟨line, ?_, hstate, hdata⟩
    rcases hcache with hcache | ⟨v, hcache⟩
    · simp [hcache, Dict.get?_set]
    · simp [hcache, Dict.get?_set]

end Listed

/-- A write to another address leaves a line alone, unless it is evicted. -/
theorem CacheNode.get?_write_other {n : CacheNode α δ} {address a : α} {data : δ} {now : Rat}
    (hne : (address == a) = false)
    (hkept : (n.write address data now).1.cache.contains a = true) :
    (n.write address data now).1.cache.get? a = n.cache.get? a := by
  rcases n.write_cases address data now with
    ⟨_, heq⟩ | ⟨_, line, _, _, heq | ⟨v, heq⟩⟩
  · rw [heq]
  · simp [heq, Dict.get?_set, hne]
  · rw [heq, Dict.contains_set, hne, Bool.false_or, Dict.contains_del, Bool.and_eq_true,
      Bool.not_eq_true'] at hkept
    simp [heq, Dict.get?_set, Dict.get?_del, hne, hkept.1]

end SyncSystem.Cache

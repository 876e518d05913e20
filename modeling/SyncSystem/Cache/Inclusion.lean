/-
SyncSystem.Cache.Inclusion — a larger cache under the same operations.

Two nodes that differ in `max_size` only are given the same operations.
The smaller one evicts earlier, yet everything it holds the larger one
holds too, in lines that differ in their version at most (`Includes`): the
LRU list of the smaller is a sublist of the other's, and it never has more
room left. So no run has fewer hits in the larger cache, whatever is
invalidated, snooped or expires in between (`larger_cache_includes`).

`max_size` is at least 1: a cache of size 0 has nothing to evict when it
is full and grows instead.
-/
import SyncSystem.Cache.Lines
import SyncSystem.Cache.Replacement
import SyncSystem.Recency.Inclusion
import Mathlib.Data.Bool.Basic

namespace SyncSystem.Cache

open SyncSystem.Python
open SyncSystem.Recency

variable {α δ : Type}

/-- The lines differ in address spelling and version at most. -/
structure CacheLine.Agrees (line line' : CacheLine α δ) : Prop where
  state : line.state = line'.state
  data : line.data = line'.data
  lastUpdated : line.lastUpdated = line'.lastUpdated

theorem CacheLine.Agrees.snooped {line line' : CacheLine α δ} (h : line.Agrees line')
    (operation : String) : (line.snooped operation).Agrees (line'.snooped operation) := by
  simp only [CacheLine.snooped, h.state]
  split
  · split
    · exact ⟨rfl, h.data, h.lastUpdated⟩
    · exact h
  · split
    · exact ⟨rfl, h.data, h.lastUpdated⟩
    · exact h

variable [BEq α]

/-- An operation makes lines that agree of lines that agree. -/
theorem CacheOp.onLine_agrees {held held' : Option (CacheLine α δ)}
    (hagree : ∀ line line', held = some line → held' = some line' → line.Agrees line')
    (op : CacheOp α δ) {a : α} {line line' : CacheLine α δ}
    (h : op.onLine a held = some line) (h' : op.onLine a held' = some line') :
    line.Agrees line' := by
  have hassigned : ∀ (address : α) (f : CacheLine α δ → CacheLine α δ),
      (∀ l l', l.Agrees l' → (f l).Agrees (f l')) →
      (if address == a then held.map f else held) = some line →
      (if address == a then held'.map f else held') = some line' → line.Agrees line' := by
    intro address f hf hmap hmap'
    cases heq : address == a with
    | false =>
      simp only [heq, Bool.false_eq_true, if_false] at hmap hmap'
      exact hagree line line' hmap hmap'
    | true =>
      simp only [heq, if_true] at hmap hmap'
      obtain ⟨l, hl, rfl⟩ := Option.map_eq_some_iff.mp hmap
      obtain ⟨l', hl', rfl⟩ := Option.map_eq_some_iff.mp hmap'
      exact hf l l' (hagree l l' hl hl')
  cases op with
  | read address => exact hagree line line' h h'
  | write address data now =>
    simp only [CacheOp.onLine] at h h'
    split at h
    · next heq =>
      rw [if_pos heq] at h'
      cases h
      cases h'
      exact ⟨by simp, by simp, by simp⟩
    · next hne =>
      rw [if_neg hne] at h'
      exact hagree line line' h h'
  | invalidate address =>
    exact hassigned address (fun l => { l with state := .invalid })
      (fun l l' hl => ⟨rfl, hl.data, hl.lastUpdated⟩) h h'
  | handleSnoop address operation =>
    exact hassigned address (·.snooped operation) (fun l l' hl => hl.snooped operation) h h'
  | cleanup now => exact hagree line line' h h'

/-! ## What the operations do to the list -/

namespace Mirrors

variable {k : Nat} {n : CacheNode α δ} {us : List α}

theorem listed (h : Mirrors k n us) : Listed n := by
  intro a ha
  rwa [← h.same]

theorem length_keys (h : Mirrors k n us) : n.lru.accessOrder.keys.length = n.cache.size := by
  rw [Dict.length_keys, h.size]

/-- What is listed is held. -/
theorem mem_cache [ReflBEq α] (h : Mirrors k n us) {a : α} (ha : a ∈ n.lru.accessOrder.keys) :
    n.cache.contains a = true := by
  rw [← h.same]
  exact Dict.contains_iff_keys.mpr ⟨a, ha, BEq.rfl⟩

theorem hasRoom (h : Mirrors k n us) {address : α}
    (hroom : n.cache.contains address = true ∨ n.cache.size < n.maxSize) :
    n.lru.HasRoom address := by
  rcases hroom with hin | hlt
  · left
    rw [h.same, h.size, h.capacity]
    exact ⟨hin, h.bounded⟩
  · right
    rw [h.size, h.capacity, ← h.limit]
    exact hlt

/-- What a sweep takes out of the list. -/
theorem keys_cleanup (now : Rat) :
    (n.cleanup now).lru.accessOrder.keys =
      n.lru.accessOrder.keys.filter (fun a => !((n.expired now).any (a == ·))) := by
  have hfold : ∀ (evicted : List α) (m : CacheNode α δ),
      (evicted.foldl CacheNode.evict m).lru.accessOrder.keys =
        m.lru.accessOrder.keys.filter (fun a => !(evicted.any (a == ·))) := by
    intro evicted
    induction evicted with
    | nil => intro m; simp
    | cons e rest ih =>
      intro m
      have hdel : (m.evict e).lru.accessOrder.keys =
          m.lru.accessOrder.keys.filter (fun a => !(a == e)) := Dict.keys_del _ _
      rw [List.foldl_cons, ih, hdel, List.filter_filter]
      simp [Bool.and_comm]
  exact hfold (n.expired now) n

variable [EquivBEq α]

/-- A write to an address that is held, or that there is room for. -/
theorem write_fits (h : Mirrors k n us) {address : α}
    (hroom : n.cache.contains address = true ∨ n.cache.size < k) (data : δ) (now : Rat) :
    (n.write address data now).1.lru.accessOrder.keys =
        n.lru.accessOrder.keys.filter (fun a => !(a == address)) ++ [address] ∧
      (n.write address data now).1.cache.size =
        if n.cache.contains address then n.cache.size else n.cache.size + 1 := by
  rw [← h.limit] at hroom
  obtain ⟨_, hlru, _, line, hcache⟩ := CacheNode.write_put hroom data now
  rw [hlru, LRUReplacement.touch_keys (h.hasRoom hroom), hcache, Dict.size_set]
  exact ⟨rfl, rfl⟩

/-- A write to a new address when the cache is full. -/
theorem write_evicts (h : Mirrors k n us) (hk : 1 ≤ k) {address : α}
    (habsent : n.cache.contains address = false) (hfull : n.cache.size = k) (data : δ)
    (now : Rat) :
    (n.write address data now).1.lru.accessOrder.keys =
        n.lru.accessOrder.keys.tail.filter (fun a => !(a == address)) ++ [address] ∧
      (n.write address data now).1.cache.size = k := by
  have hle : n.maxSize ≤ n.cache.size := by rw [h.limit, hfull]
  obtain ⟨v, rest, hkeys, hv, hin⟩ := h.victim hk hle
  obtain ⟨_, hlru, _, line, hcache⟩ := CacheNode.write_full habsent hle hv hin data now
  have hevicted := h.evict hin
  have hdel : (n.cache.del v).size + 1 = n.cache.size := Dict.size_del hin
  have hroom : (n.evict v).cache.size < (n.evict v).maxSize := by
    show (n.cache.del v).size < n.maxSize
    have hlimit := h.limit
    omega
  have hrest : (n.evict v).lru.accessOrder.keys = rest := by
    show (n.lru.accessOrder.del v).keys = rest
    have hdistinct := n.lru.accessOrder.distinct_keys
    rw [hkeys, List.pairwise_cons] at hdistinct
    rw [Dict.keys_del, hkeys, List.filter_cons, BEq.rfl]
    exact List.filter_eq_self.mpr (fun b hb => by rw [BEq.comm, hdistinct.1 b hb]; rfl)
  refine ⟨?_, ?_⟩
  · rw [hlru, LRUReplacement.touch_keys (hevicted.hasRoom (Or.inr hroom)), hrest, hkeys,
      List.tail_cons]
  · rw [hcache, Dict.size_set]
    have hout : (n.evict v).cache.contains address = false := by
      rw [CacheNode.evict_cache, Dict.contains_del, habsent, Bool.and_false]
    rw [hout]
    show (n.cache.del v).size + 1 = k
    omega

end Mirrors

/-- Whether a line expires depends on its time. -/
theorem CacheNode.any_expired [EquivBEq α] {n : CacheNode α δ} {a : α} {line : CacheLine α δ}
    (hget : n.cache.get? a = some line) (now : Rat) :
    (n.expired now).any (a == ·) = decide (now - line.lastUpdated > n.ttl) := by
  rw [Bool.eq_iff_iff, decide_eq_true_iff, List.any_eq_true]
  constructor
  · rintro ⟨b, hb, hab⟩
    obtain ⟨e, he, rfl⟩ := List.mem_map.mp hb
    obtain ⟨hmem, hold⟩ := List.mem_filter.mp he
    have hline := Dict.get?_of_mem (d := n.cache) (k := e.1) (v := e.2) hmem
    rw [← n.cache.get?_congr hab, hget] at hline
    cases hline
    exact of_decide_eq_true hold
  · intro hold
    obtain ⟨e, he, rfl⟩ := Option.map_eq_some_iff.mp hget
    have hkey : (e.1 == a) = true := by simpa using List.find?_some he
    refine ⟨e.1, List.mem_map_of_mem (List.mem_filter.mpr ⟨List.mem_of_find?_eq_some he, ?_⟩),
      BEq.symm hkey⟩
    exact decide_eq_true hold

/-! ## The smaller cache in the larger one -/

/-- Everything in `small`, of size `k`, is in `big`, of size `k'`, and in
the same order of use; `big` has at least as much room left. -/
structure Includes (k k' : Nat) (small big : CacheNode α δ) : Prop where
  ttl : small.ttl = big.ttl
  order : small.lru.accessOrder.keys.Sublist big.lru.accessOrder.keys
  lines : ∀ a line line', small.cache.get? a = some line → big.cache.get? a = some line' →
    line.Agrees line'
  room : big.cache.size + k ≤ small.cache.size + k'

namespace CacheNode

theorem writeNew_ttl (n : CacheNode α δ) (address : α) (data : δ) (now : Rat) :
    (n.writeNew address data now).1.ttl = n.ttl := by
  simp only [writeNew]
  split
  · split
    · rfl
    · split <;> rfl
  · rfl

variable [EquivBEq α]

theorem apply_ttl (n : CacheNode α δ) (op : CacheOp α δ) : (n.apply op).1.ttl = n.ttl := by
  cases op with
  | read address =>
    simp only [apply, read]
    split
    · rfl
    · split <;> rfl
  | write address data now =>
    simp only [apply, write]
    split
    · exact n.writeNew_ttl address data now
    · split
      · rfl
      · exact n.writeNew_ttl address data now
  | invalidate address =>
    simp only [apply, invalidate]
    split <;> rfl
  | handleSnoop address operation =>
    simp only [apply, handleSnoop]
    split
    · rfl
    · split
      · split <;> rfl
      · split <;> rfl
  | cleanup now =>
    simp only [apply, cacheCleanup_eq]
    exact cleanup_keeps (P := fun m => m.ttl = n.ttl) (fun _ _ h => h) rfl now

end CacheNode

namespace Includes

variable {k k' : Nat} {small big : CacheNode α δ} {us us' : List α}

theorem contains (h : Includes k k' small big) (hs : Mirrors k small us) (hb : Mirrors k' big us')
    {a : α} (ha : small.cache.contains a = true) : big.cache.contains a = true := by
  rw [← hs.same, Dict.contains_iff_keys] at ha
  obtain ⟨b, hb', hba⟩ := ha
  rw [← hb.same]
  exact Dict.contains_iff_keys.mpr ⟨b, h.order.subset hb', hba⟩

/-- A line of the smaller cache and its counterpart. -/
theorem line (h : Includes k k' small big) (hs : Mirrors k small us) (hb : Mirrors k' big us')
    {a : α} {line : CacheLine α δ} (hget : small.cache.get? a = some line) :
    ∃ line', big.cache.get? a = some line' ∧ line.Agrees line' := by
  have hin := h.contains hs hb (Dict.contains_eq_true.mpr ⟨line, hget⟩)
  obtain ⟨line', hget'⟩ := Dict.contains_eq_true.mp hin
  exact ⟨line', hget', h.lines a line line' hget hget'⟩

/-- A hit in the smaller cache is one in the larger. -/
theorem hits (h : Includes k k' small big) (hs : Mirrors k small us) (hb : Mirrors k' big us')
    {a : α} (hhit : small.hits a = true) : big.hits a = true := by
  obtain ⟨line, hget, hvalid⟩ := CacheNode.hits_iff.mp hhit
  obtain ⟨line', hget', hagree⟩ := h.line hs hb hget
  exact CacheNode.hits_iff.mpr ⟨line', hget', by rwa [← hagree.state]⟩

variable [EquivBEq α]

/-- A hit in the larger cache alone: the address is not in the smaller. -/
theorem absent_of_miss (h : Includes k k' small big) (hs : Mirrors k small us)
    (hb : Mirrors k' big us') {a : α} (hmiss : small.hits a = false) (hhit : big.hits a = true) :
    ∀ b ∈ small.lru.accessOrder.keys, (b == a) = false := by
  intro b hmem
  by_contra heq
  rw [Bool.not_eq_false] at heq
  obtain ⟨line, hget⟩ := Dict.contains_eq_true.mp (hs.mem_cache hmem)
  rw [small.cache.get?_congr heq] at hget
  obtain ⟨line', hget', hagree⟩ := h.line hs hb hget
  obtain ⟨line'', hget'', hvalid⟩ := CacheNode.hits_iff.mp hhit
  rw [hget'] at hget''
  cases hget''
  have hsmall : small.hits a = true :=
    CacheNode.hits_iff.mpr ⟨line, hget, by rwa [hagree.state]⟩
  rw [hmiss] at hsmall
  cases hsmall

theorem order_read (h : Includes k k' small big) (hs : Mirrors k small us)
    (hb : Mirrors k' big us') (address : α) :
    (small.read address).1.lru.accessOrder.keys.Sublist
      (big.read address).1.lru.accessOrder.keys := by
  have htouch : ∀ {k : Nat} {n : CacheNode α δ} {us : List α}, Mirrors k n us →
      n.hits address = true → (n.read address).1.lru.accessOrder.keys =
        n.lru.accessOrder.keys.filter (fun a => !(a == address)) ++ [address] := by
    intro k n us hm hhit
    obtain ⟨line, hget, _⟩ := CacheNode.hits_iff.mp hhit
    rw [(CacheNode.read_hit hhit).1, LRUReplacement.touch_keys
      (hm.hasRoom (Or.inl (Dict.contains_eq_true.mpr ⟨line, hget⟩)))]
  cases hhit : small.hits address with
  | true =>
    rw [htouch hs hhit, htouch hb (h.hits hs hb hhit)]
    exact use_both h.order address
  | false =>
    rw [(CacheNode.read_miss hhit).1]
    cases hhit' : big.hits address with
    | true =>
      rw [htouch hb hhit']
      exact use_longer h.order (h.absent_of_miss hs hb hhit hhit')
    | false =>
      rw [(CacheNode.read_miss hhit').1]
      exact h.order

/-- A write: the smaller cache is full whenever the larger one is. -/
theorem write (h : Includes k k' small big) (hs : Mirrors k small us) (hb : Mirrors k' big us')
    (hk : 1 ≤ k) (hkk : k ≤ k') (address : α) (data : δ) (now : Rat) :
    (small.write address data now).1.lru.accessOrder.keys.Sublist
        (big.write address data now).1.lru.accessOrder.keys ∧
      (big.write address data now).1.cache.size + k ≤
        (small.write address data now).1.cache.size + k' := by
  have hroom := h.room
  have hsmall := hs.bounded
  have hbig := hb.bounded
  by_cases hfits' : big.cache.contains address = true ∨ big.cache.size < k'
  · obtain ⟨hkeys', hsize'⟩ := hb.write_fits hfits' data now
    rw [hkeys', hsize']
    by_cases hfits : small.cache.contains address = true ∨ small.cache.size < k
    · obtain ⟨hkeys, hsize⟩ := hs.write_fits hfits data now
      rw [hkeys, hsize]
      refine ⟨use_both h.order address, ?_⟩
      cases hin : small.cache.contains address with
      | true =>
        rw [h.contains hs hb hin]
        exact hroom
      | false => cases big.cache.contains address <;> simp <;> omega
    · simp only [not_or, Bool.not_eq_true, not_lt] at hfits
      have hfull : small.cache.size = k := by omega
      obtain ⟨hkeys, hsize⟩ := hs.write_evicts hk hfits.1 hfull data now
      rw [hkeys, hsize]
      refine ⟨use_both ((List.tail_sublist _).trans h.order) address, ?_⟩
      rcases hfits' with hin | hlt
      · simp [hin]
        omega
      · cases big.cache.contains address <;> simp <;> omega
  · simp only [not_or, Bool.not_eq_true, not_lt] at hfits'
    have hfull' : big.cache.size = k' := by omega
    have habsent : small.cache.contains address = false := by
      by_contra hin
      rw [Bool.not_eq_false] at hin
      rw [h.contains hs hb hin] at hfits'
      cases hfits'.1
    obtain ⟨hkeys', hsize'⟩ := hb.write_evicts (by omega) hfits'.1 hfull' data now
    obtain ⟨hkeys, hsize⟩ := hs.write_evicts hk habsent (by omega) data now
    rw [hkeys, hkeys', hsize, hsize']
    exact ⟨use_both h.order.tail address, by omega⟩

/-- A sweep: what expires in the smaller cache expires in the larger. -/
theorem cleanup (h : Includes k k' small big) (hs : Mirrors k small us) (hb : Mirrors k' big us')
    (now : Rat) :
    (small.cleanup now).lru.accessOrder.keys.Sublist (big.cleanup now).lru.accessOrder.keys ∧
      (big.cleanup now).cache.size + k ≤ (small.cleanup now).cache.size + k' := by
  have hsame : ∀ a ∈ small.lru.accessOrder.keys,
      (!((small.expired now).any (a == ·))) = !((big.expired now).any (a == ·)) := by
    intro a ha
    obtain ⟨line, hget⟩ := Dict.contains_eq_true.mp (hs.mem_cache ha)
    obtain ⟨line', hget', hagree⟩ := h.line hs hb hget
    rw [CacheNode.any_expired hget, CacheNode.any_expired hget', hagree.lastUpdated, h.ttl]
  have hlost := length_filter_both h.order hsame
  have hroom := h.room
  refine ⟨?_, ?_⟩
  · rw [Mirrors.keys_cleanup, Mirrors.keys_cleanup]
    exact filter_both h.order hsame
  · rw [← (hs.cleanup now).length_keys, ← (hb.cleanup now).length_keys, Mirrors.keys_cleanup,
      Mirrors.keys_cleanup]
    rw [hs.length_keys, hb.length_keys] at hlost
    omega

/-- **Every operation keeps the inclusion.** -/
theorem apply (h : Includes k k' small big) (hs : Mirrors k small us) (hb : Mirrors k' big us')
    (hk : 1 ≤ k) (hkk : k ≤ k') (op : CacheOp α δ) :
    Includes k k' (small.apply op).1 (big.apply op).1 := by
  have hlines : ∀ a line line', (small.apply op).1.cache.get? a = some line →
      (big.apply op).1.cache.get? a = some line' → line.Agrees line' := by
    intro a line line' hget hget'
    have hline := hs.listed.get?_apply op a (Dict.contains_eq_true.mpr ⟨line, hget⟩)
    have hline' := hb.listed.get?_apply op a (Dict.contains_eq_true.mpr ⟨line', hget'⟩)
    exact op.onLine_agrees (h.lines a) (hline.symm.trans hget) (hline'.symm.trans hget')
  have hrest :
      (small.apply op).1.lru.accessOrder.keys.Sublist (big.apply op).1.lru.accessOrder.keys ∧
      (big.apply op).1.cache.size + k ≤ (small.apply op).1.cache.size + k' := by
    cases op with
    | read address =>
      refine ⟨h.order_read hs hb address, ?_⟩
      simp only [CacheNode.apply, CacheNode.read_cache]
      exact h.room
    | write address data now => exact h.write hs hb hk hkk address data now
    | invalidate address =>
      have hr := small.restates_invalidate address
      have hr' := big.restates_invalidate address
      simp only [CacheNode.apply]
      rw [hr.lru, hr'.lru, ← Dict.length_keys, ← Dict.length_keys, hr.keys, hr'.keys,
        Dict.length_keys, Dict.length_keys]
      exact ⟨h.order, h.room⟩
    | handleSnoop address operation =>
      have hr := small.restates_handleSnoop address operation
      have hr' := big.restates_handleSnoop address operation
      simp only [CacheNode.apply]
      rw [hr.lru, hr'.lru, ← Dict.length_keys, ← Dict.length_keys, hr.keys, hr'.keys,
        Dict.length_keys, Dict.length_keys]
      exact ⟨h.order, h.room⟩
    | cleanup now =>
      simp only [CacheNode.apply, CacheNode.cacheCleanup_eq]
      exact h.cleanup hs hb now
  exact ⟨by rw [CacheNode.apply_ttl, CacheNode.apply_ttl, h.ttl], hrest.1, hlines, hrest.2⟩

end Includes

/-! ## Hits and misses -/

namespace CacheNode

/-- The operation is a read that hits. -/
def readHits (n : CacheNode α δ) : CacheOp α δ → Bool
  | .read address => n.hits address
  | _ => false

/-- The operation is a read that misses. -/
def readMisses (n : CacheNode α δ) : CacheOp α δ → Bool
  | .read address => !n.hits address
  | _ => false

theorem counts_read (n : CacheNode α δ) (address : α) :
    (n.read address).1.hitCount = n.hitCount + (n.hits address).toNat ∧
      (n.read address).1.missCount = n.missCount + (!n.hits address).toNat := by
  simp only [read, hits]
  split
  · next hget => simp [hget, requestFromPeer, sendToPeers]
  · next line hget =>
    split
    · next hvalid => simp [hget, hvalid, sendSnoop, sendToPeers]
    · next hvalid =>
      have hinvalid : line.state = .invalid := by simpa using hvalid
      simp [hget, hinvalid, requestFromPeer, sendToPeers]

theorem counts_writeNew (n : CacheNode α δ) (address : α) (data : δ) (now : Rat) :
    (n.writeNew address data now).1.hitCount = n.hitCount ∧
      (n.writeNew address data now).1.missCount = n.missCount := by
  simp only [writeNew]
  split
  · split
    · exact ⟨rfl, rfl⟩
    · split <;> exact ⟨rfl, rfl⟩
  · exact ⟨rfl, rfl⟩

/-- Reads count, and nothing else does. -/
theorem counts_apply [EquivBEq α] (n : CacheNode α δ) (op : CacheOp α δ) :
    (n.apply op).1.hitCount = n.hitCount + (n.readHits op).toNat ∧
      (n.apply op).1.missCount = n.missCount + (n.readMisses op).toNat := by
  cases op with
  | read address => exact n.counts_read address
  | write address data now =>
    simp only [apply, write]
    split
    · exact n.counts_writeNew address data now
    · split
      · exact ⟨rfl, rfl⟩
      · exact n.counts_writeNew address data now
  | invalidate address =>
    simp only [apply, invalidate]
    split <;> exact ⟨rfl, rfl⟩
  | handleSnoop address operation =>
    simp only [apply, handleSnoop]
    split
    · exact ⟨rfl, rfl⟩
    · split
      · split <;> exact ⟨rfl, rfl⟩
      · split <;> exact ⟨rfl, rfl⟩
  | cleanup now =>
    simp only [apply, cacheCleanup_eq]
    exact cleanup_keeps
      (P := fun m => m.hitCount = n.hitCount ∧ m.missCount = n.missCount) (fun _ _ h => h)
      ⟨rfl, rfl⟩ now

/-- After these operations. -/
def after (n : CacheNode α δ) (ops : List (CacheOp α δ)) : CacheNode α δ :=
  ops.foldl (fun m op => (m.apply op).1) n

@[simp] theorem after_append (n : CacheNode α δ) (ops : List (CacheOp α δ)) (op : CacheOp α δ) :
    n.after (ops ++ [op]) = ((n.after ops).apply op).1 := by
  simp [after]

end CacheNode

/-! ## Runs of both -/

variable [EquivBEq α] (nodeId : String) (peers : List String) (ttl : Rat) {k k' : Nat}

/-- A new node with this `max_size` after these operations. -/
def ranWith (nodeId : String) (peers : List String) (ttl : Rat) (ops : List (CacheOp α δ))
    (maxSize : Nat) : CacheNode α δ :=
  (CacheNode.init nodeId peers maxSize ttl).after ops

theorem mirrors_ranWith (hk : 1 ≤ k) (ops : List (CacheOp α δ)) :
    ∃ us, Mirrors k (ranWith nodeId peers ttl ops k) us := by
  induction ops using List.reverseRecOn with
  | nil => exact ⟨[], Mirrors.init nodeId peers k ttl⟩
  | append_singleton ops op ih =>
    obtain ⟨us, hm⟩ := ih
    have hkept := (hm.apply hk op).1
    rw [ranWith, ← CacheNode.after_append] at hkept
    exact ⟨_, hkept⟩

theorem includes_ranWith (hk : 1 ≤ k) (hkk : k ≤ k') (ops : List (CacheOp α δ)) :
    Includes k k' (ranWith nodeId peers ttl ops k) (ranWith nodeId peers ttl ops k') ∧
      (ranWith nodeId peers ttl ops k).hitCount ≤ (ranWith nodeId peers ttl ops k').hitCount ∧
      (ranWith nodeId peers ttl ops k').missCount ≤ (ranWith nodeId peers ttl ops k).missCount := by
  induction ops using List.reverseRecOn with
  | nil =>
    refine ⟨⟨rfl, List.Sublist.refl _, ?_, ?_⟩, Nat.le_refl _, Nat.le_refl _⟩
    · intro a line line' hget
      cases hget
    · show 0 + k ≤ 0 + k'
      omega
  | append_singleton ops op ih =>
    obtain ⟨hincludes, hhits, hmisses⟩ := ih
    obtain ⟨us, hs⟩ := mirrors_ranWith nodeId peers ttl hk ops
    obtain ⟨us', hb⟩ := mirrors_ranWith nodeId peers ttl (Nat.le_trans hk hkk) ops
    simp only [ranWith, CacheNode.after_append] at hincludes hhits hmisses hs hb ⊢
    have hcounts := CacheNode.counts_apply ((CacheNode.init nodeId peers k ttl).after ops) op
    have hcounts' := CacheNode.counts_apply ((CacheNode.init nodeId peers k' ttl).after ops) op
    have hmore : ∀ a, ((CacheNode.init nodeId peers k ttl).after ops).hits a = true →
        ((CacheNode.init nodeId peers k' ttl).after ops).hits a = true :=
      fun a => hincludes.hits hs hb
    refine ⟨hincludes.apply hs hb hk hkk op, ?_, ?_⟩
    · rw [hcounts.1, hcounts'.1]
      refine Nat.add_le_add hhits ?_
      cases op with
      | read address => exact Bool.toNat_le_toNat (Bool.le_iff_imp.mpr (hmore address))
      | _ => exact Nat.le_refl _
    · rw [hcounts.2, hcounts'.2]
      refine Nat.add_le_add hmisses ?_
      cases op with
      | read address =>
        refine Bool.toNat_le_toNat (Bool.le_iff_imp.mpr ?_)
        simpa [CacheNode.readMisses] using mt (hmore address)
      | _ => exact Nat.le_refl _

/-- **A larger cache never does worse.** After the same operations it
holds every line the smaller one holds, answers every read that the
smaller one answers with the same data, and has had at least as many hits
and at most as many misses. -/
theorem larger_cache_includes (hk : 1 ≤ k) (hkk : k ≤ k') (ops : List (CacheOp α δ)) :
    (∀ a line, (ranWith nodeId peers ttl ops k).cache.get? a = some line →
      ∃ line', (ranWith nodeId peers ttl ops k').cache.get? a = some line' ∧
        line.Agrees line') ∧
      (∀ a data, ((ranWith nodeId peers ttl ops k).read a).2 = some data →
        ((ranWith nodeId peers ttl ops k').read a).2 = some data) ∧
      (ranWith nodeId peers ttl ops k).hitCount ≤ (ranWith nodeId peers ttl ops k').hitCount ∧
      (ranWith nodeId peers ttl ops k').missCount ≤ (ranWith nodeId peers ttl ops k).missCount := by
  obtain ⟨hincludes, hhits, hmisses⟩ :=
    includes_ranWith nodeId peers ttl hk hkk ops
  obtain ⟨us, hs⟩ := mirrors_ranWith nodeId peers ttl hk ops
  obtain ⟨us', hb⟩ := mirrors_ranWith nodeId peers ttl (Nat.le_trans hk hkk) ops
  refine ⟨fun a line hget => hincludes.line hs hb hget, ?_, hhits, hmisses⟩
  intro a data hread
  rw [CacheNode.read_answer, Option.bind_eq_some_iff] at hread
  obtain ⟨line, hget, hdata⟩ := hread
  obtain ⟨line', hget', hagree⟩ := hincludes.line hs hb hget
  rw [CacheNode.read_answer, hget', Option.bind_some, ← hagree.data, hdata]

/-- Room for one against room for two: 1 is read when 2 has come. -/
theorem larger_cache_includes_one_two :
    (ranWith "n1" [] 300 [.write (1 : Int) "a" 0, .write 2 "b" 1, .read 1] 1).hitCount ≤
      (ranWith "n1" [] 300 [.write (1 : Int) "a" 0, .write 2 "b" 1, .read 1] 2).hitCount ∧
      (ranWith "n1" [] 300 [.write (1 : Int) "a" 0, .write 2 "b" 1, .read 1] 1).hitCount = 0 :=
  ⟨(larger_cache_includes "n1" [] 300 (by decide) (by decide)
    [.write (1 : Int) "a" 0, .write 2 "b" 1, .read 1]).2.2.1, by decide +kernel⟩

end SyncSystem.Cache

/-
SyncSystem.Cache.Flushes — whether dirty lines are flushed before they
leave the cache.

A MODIFIED or OWNED line holds data that memory does not have. The sweep
calls `_flush_to_memory` for an expired line that is MODIFIED, and only
then; a write that has to make room deletes its victim in whatever state
it is. `memoryLog` lists these calls and the deletions as an operation
makes them. A dirty line that goes has been flushed in every operation
of a run exactly if no victim is dirty and no expired line is OWNED
(`flushesDirty_iff`).
-/
import SyncSystem.Cache.Operations

namespace SyncSystem.Cache

open SyncSystem.Python

variable {α δ : Type} [BEq α]

/-- The line has data that memory does not have. -/
def CacheState.dirty : CacheState → Bool
  | .modified => true
  | .owned => true
  | _ => false

inductive MemoryEvent (α : Type) where
  /-- `_flush_to_memory` is called. -/
  | flushed (address : α)
  /-- `del self.cache[address]`, where the line is in this state. -/
  | removed (address : α) (state : CacheState)
  deriving DecidableEq

namespace CacheNode

/-- The address that `write` evicts. -/
def victim (n : CacheNode α δ) (address : α) : Option α :=
  if !n.cache.contains address && decide (n.cache.size ≥ n.maxSize) then n.lru.evict else none

/-- The eviction in `write`. -/
def writeLog (n : CacheNode α δ) (address : α) : List (MemoryEvent α) :=
  match n.victim address with
  | none => []
  | some evicted =>
      match n.cache.get? evicted with
      | none => []
      | some line => [.removed evicted line.state]

/-- The calls for one line of the sweep. -/
def sweepLine (addr : α) (state : CacheState) : List (MemoryEvent α) :=
  (if state = .modified then [.flushed addr] else []) ++ [.removed addr state]

/-- The loop of the sweep over the expired addresses. -/
def sweepLog (n : CacheNode α δ) : List α → List (MemoryEvent α)
  | [] => []
  | addr :: rest =>
      match n.cache.get? addr with
      | none => []
      | some line => sweepLine addr line.state ++ (n.evict addr).sweepLog rest

/-- The flushes and deletions of one operation. -/
def memoryLog (n : CacheNode α δ) : CacheOp α δ → List (MemoryEvent α)
  | .write address _ _ => n.writeLog address
  | .cleanup now => n.sweepLog (n.expired now)
  | _ => []

/-- A dirty line that the operation takes out of the cache is deleted
after a flush of its address. -/
def FlushesDirty (n : CacheNode α δ) (op : CacheOp α δ) : Prop :=
  ∀ a line, n.cache.get? a = some line → line.state.dirty = true →
    (n.apply op).1.cache.contains a = false →
    ∃ k before after, n.memoryLog op = before ++ .removed k line.state :: after ∧
      (k == a) = true ∧ .flushed k ∈ before

/-- No victim is dirty, and no expired line is OWNED. -/
def removesClean (n : CacheNode α δ) : CacheOp α δ → Bool
  | .write address _ _ =>
      ((n.victim address).bind n.cache.get?).all fun line => !line.state.dirty
  | .cleanup now => (n.expiredLines now).all fun e => e.2.state ≠ .owned
  | _ => true

/-! ## What is gone after an operation -/

variable {n : CacheNode α δ} {address a : α}

theorem writeNew_of_no_victim (h : n.victim address = none) (data : δ) (now : Rat) :
    n.writeNew address data now = ((n.broadcastUpgrade address).install address data now, .ok true) := by
  unfold victim at h
  simp only [writeNew]
  split
  · next hfull =>
    rw [if_pos hfull] at h
    rw [h]
  · rfl

/-- A victim is looked for when the address is new. -/
theorem absent_of_victim {evicted : α} (h : n.victim address = some evicted) :
    n.cache.contains address = false ∧ n.cache.size ≥ n.maxSize ∧ n.lru.evict = some evicted := by
  unfold victim at h
  split at h
  · next hfull =>
    simp only [Bool.and_eq_true, Bool.not_eq_true', decide_eq_true_eq] at hfull
    exact ⟨hfull.1, hfull.2, h⟩
  · cases h

theorem write_no_victim (h : n.victim address = none) (data : δ) (now : Rat) :
    ∃ line, (n.write address data now).1.cache = n.cache.set address line := by
  unfold write
  split
  · rw [writeNew_of_no_victim h]
    exact ⟨_, rfl⟩
  · split
    · exact ⟨_, rfl⟩
    · rw [writeNew_of_no_victim h]
      exact ⟨_, rfl⟩

theorem write_victim {evicted : α} (h : n.victim address = some evicted) (data : δ) (now : Rat) :
    (n.cache.contains evicted = false ∧ (n.write address data now).1.cache = n.cache) ∨
    (n.cache.contains evicted = true ∧
      ∃ line, (n.write address data now).1.cache = (n.cache.del evicted).set address line) := by
  obtain ⟨habsent, hfull, hevict⟩ := absent_of_victim h
  have hget : n.cache.get? address = none := by simpa [Dict.contains] using habsent
  cases hin : n.cache.contains evicted with
  | false =>
    left
    refine ⟨rfl, ?_⟩
    simp [write, hget, writeNew, habsent, hfull, hevict, hin, broadcastUpgrade]
  | true =>
    right
    refine ⟨rfl, ⟨address, .modified, some data, now, 1⟩, ?_⟩
    simp [write, hget, writeNew, habsent, hfull, hevict, hin, broadcastUpgrade]

variable [EquivBEq α]

/-- A write takes out its victim and nothing else. -/
theorem gone_write (ha : n.cache.contains a = true) (data : δ) (now : Rat) :
    (n.write address data now).1.cache.contains a = false ↔
      ∃ evicted, n.victim address = some evicted ∧ (evicted == a) = true := by
  cases hvictim : n.victim address with
  | none =>
    obtain ⟨line, hcache⟩ := write_no_victim hvictim data now
    rw [hcache, Dict.contains_set, ha]
    simp
  | some evicted =>
    have hne : (address == a) = false := by
      by_contra hc
      have hin := n.cache.contains_congr (by simpa using hc : (address == a) = true)
      rw [(absent_of_victim hvictim).1, ha] at hin
      cases hin
    rcases write_victim hvictim data now with ⟨hout, hcache⟩ | ⟨_, line, hcache⟩
    · -- the lookup of the victim raises
      rw [hcache, ha]
      simp only [Bool.true_eq_false, Option.some.injEq, exists_eq_left', false_iff]
      intro heq
      rw [n.cache.contains_congr heq, ha] at hout
      cases hout
    · rw [hcache, Dict.contains_set, hne, Dict.contains_del, ha]
      simp

/-- The sweep takes out the expired addresses. -/
theorem gone_cleanup (ha : n.cache.contains a = true) (now : Rat) :
    (n.cleanup now).cache.contains a = false ↔ ∃ k ∈ n.expired now, (k == a) = true := by
  show ((n.expired now).foldl evict n).cache.contains a = false ↔ _
  rw [contains_foldl_evict, ha, Bool.and_true, Bool.not_eq_false', List.any_eq_true]

/-! ## The log of the sweep -/

/-- The sweep handles the expired lines one by one: no deletion changes
what the next lookup finds. -/
theorem sweepLog_eq {n : CacheNode α δ} {es : List (α × CacheLine α δ)}
    (hget : ∀ e ∈ es, n.cache.get? e.1 = some e.2)
    (hne : es.Pairwise (fun e e' => (e.1 == e'.1) = false)) :
    n.sweepLog (es.map (·.1)) = es.flatMap fun e => sweepLine e.1 e.2.state := by
  induction es generalizing n with
  | nil => rfl
  | cons e rest ih =>
    obtain ⟨hfirst, hrest⟩ := List.pairwise_cons.mp hne
    simp only [List.map_cons, sweepLog, hget e List.mem_cons_self, List.flatMap_cons]
    congr 1
    refine ih ?_ hrest
    intro e' he'
    rw [evict_cache, Dict.get?_del, hfirst e' he']
    simpa using hget e' (List.mem_cons_of_mem _ he')

theorem get?_expiredLines {now : Rat} {e : α × CacheLine α δ} (he : e ∈ n.expiredLines now) :
    n.cache.get? e.1 = some e.2 :=
  Dict.get?_of_mem (List.mem_of_mem_filter he)

theorem memoryLog_cleanup (n : CacheNode α δ) (now : Rat) :
    n.memoryLog (.cleanup now) = (n.expiredLines now).flatMap fun e => sweepLine e.1 e.2.state :=
  sweepLog_eq (fun _ he => get?_expiredLines he) (n.cache.distinct.sublist List.filter_sublist)

/-- Only a MODIFIED line is flushed. -/
theorem flushed_mem_sweepLine {α : Type} {k addr : α} {state : CacheState} :
    MemoryEvent.flushed k ∈ sweepLine addr state ↔ k = addr ∧ state = .modified := by
  unfold sweepLine
  split <;> simp [*]

/-! ## When dirty lines are flushed -/

theorem flushesDirty_write (n : CacheNode α δ) (address : α) (data : δ) (now : Rat) :
    n.FlushesDirty (.write address data now) ↔ n.removesClean (.write address data now) = true := by
  constructor
  · intro h
    cases hvictim : n.victim address with
    | none => simp [removesClean, hvictim]
    | some evicted =>
      cases hget : n.cache.get? evicted with
      | none => simp [removesClean, hvictim, hget]
      | some line =>
        have hlog : n.memoryLog (.write address data now) = [.removed evicted line.state] := by
          simp [memoryLog, writeLog, hvictim, hget]
        cases hdirty : line.state.dirty with
        | false => simp [removesClean, hvictim, hget, hdirty]
        | true =>
          have hgone := (gone_write (Dict.contains_eq_true.mpr ⟨line, hget⟩) data now).mpr
            ⟨evicted, hvictim, BEq.rfl⟩
          obtain ⟨k, before, after, heq, _, hflushed⟩ := h evicted line hget hdirty hgone
          -- the deletion is all that happens
          rw [hlog] at heq
          cases before with
          | nil => cases hflushed
          | cons e rest => simp at heq
  · intro hclean a line hget hdirty hgone
    obtain ⟨evicted, hvictim, heq⟩ :=
      (gone_write (Dict.contains_eq_true.mpr ⟨line, hget⟩) data now).mp hgone
    rw [← n.cache.get?_congr heq] at hget
    simp [removesClean, hvictim, hget, hdirty] at hclean

theorem flushesDirty_cleanup (n : CacheNode α δ) (now : Rat) :
    n.FlushesDirty (.cleanup now) ↔ n.removesClean (.cleanup now) = true := by
  have hgone : ∀ a, n.cache.contains a = true →
      ((n.apply (.cleanup now)).1.cache.contains a = false ↔
        ∃ k ∈ n.expired now, (k == a) = true) := by
    intro a ha
    rw [← gone_cleanup ha now]
    simp [apply, cacheCleanup_eq]
  simp only [removesClean, List.all_eq_true, decide_eq_true_eq]
  constructor
  · intro h e he howned
    have hget := get?_expiredLines he
    have hin : n.cache.contains e.1 = true := Dict.contains_eq_true.mpr ⟨_, hget⟩
    obtain ⟨k, before, after, heq, hk, hflushed⟩ := h e.1 e.2 hget (by simp [howned, CacheState.dirty])
      ((hgone e.1 hin).mpr ⟨e.1, List.mem_map_of_mem he, BEq.rfl⟩)
    have hmem : .flushed k ∈ n.memoryLog (.cleanup now) := by
      rw [heq]
      exact List.mem_append_left _ hflushed
    rw [memoryLog_cleanup] at hmem
    obtain ⟨e', he', hline⟩ := List.mem_flatMap.mp hmem
    obtain ⟨rfl, hmodified⟩ := flushed_mem_sweepLine.mp hline
    -- the flushed line is the OWNED one
    have hget' := get?_expiredLines he'
    rw [n.cache.get?_congr hk, hget] at hget'
    rw [← Option.some.inj hget', howned] at hmodified
    cases hmodified
  · intro hclean a line hget hdirty hout
    obtain ⟨k, hk, heq⟩ := (hgone a (Dict.contains_eq_true.mpr ⟨line, hget⟩)).mp hout
    obtain ⟨e, he, rfl⟩ := List.mem_map.mp hk
    have hline : e.2 = line := by
      have hget' := get?_expiredLines he
      rw [n.cache.get?_congr heq, hget] at hget'
      exact (Option.some.inj hget').symm
    subst hline
    have hmodified : e.2.state = .modified := by
      have hnot := hclean e he
      cases hstate : e.2.state <;> simp_all [CacheState.dirty]
    obtain ⟨es₁, es₂, hsplit⟩ := List.append_of_mem he
    refine ⟨e.1, (es₁.flatMap fun e => sweepLine e.1 e.2.state) ++ [.flushed e.1],
      es₂.flatMap fun e => sweepLine e.1 e.2.state, ?_, heq, by simp⟩
    rw [memoryLog_cleanup, hsplit]
    simp [sweepLine, hmodified]

/-- One operation flushes the dirty lines it takes out exactly if it takes
out clean ones, or expired ones that are MODIFIED. -/
theorem flushesDirty_iff (n : CacheNode α δ) (op : CacheOp α δ) :
    n.FlushesDirty op ↔ n.removesClean op = true := by
  have hkept : (∀ a, n.cache.contains a = true → (n.apply op).1.cache.contains a = true) →
      n.FlushesDirty op := by
    intro h a line hget _ hgone
    rw [h a (Dict.contains_eq_true.mpr ⟨line, hget⟩)] at hgone
    cases hgone
  cases op with
  | read address => exact iff_of_true (hkept fun a ha => by simpa [apply] using ha) rfl
  | write address data now => exact flushesDirty_write n address data now
  | invalidate address => exact iff_of_true (hkept fun a ha => (n.restates_invalidate address).contains ha) rfl
  | handleSnoop address operation =>
    exact iff_of_true (hkept fun a ha => (n.restates_handleSnoop address operation).contains ha) rfl
  | cleanup now => exact flushesDirty_cleanup n now

end CacheNode

/-! ## Runs -/

variable [EquivBEq α] {nodeId : String} {peers : List String} {maxSize : Nat} {ttl : Rat}
  {c : CacheNodeRun α δ}

/-- **Dirty lines are flushed before they go**, in every operation of a
run, exactly if no operation of the run evicts a dirty line or finds an
OWNED line expired. -/
theorem dirty_flushed_iff
    (h : CacheNode.machine.Leads Machine.always ([], .init nodeId peers maxSize ttl) c) :
    EveryStep (fun d op _ => d.2.FlushesDirty op) c.1 ↔
      EveryStep (fun d op _ => d.2.removesClean op = true) c.1 :=
  h.everyStep_congr (fun d op _ _ _ _ _ => d.2.flushesDirty_iff op)

/-- A line is written and expires, another is demoted and then invalidated
before the sweep. -/
def sweptRun : List (CacheOp Int String) :=
  [.write 1 "a" 0, .write 2 "b" 1, .handleSnoop 2 "read_shared", .invalidate 2, .cleanup 400]

theorem dirty_flushed_iff_sweptRun :
    ∃ c : CacheNodeRun Int String,
      CacheNode.machine.Leads Machine.always ([], .init "n1" [] 2 300) c ∧
      c.2.cache.size = 0 ∧ EveryStep (fun d op _ => d.2.FlushesDirty op) c.1 := by
  obtain ⟨c, hc, hp⟩ := Machine.exists_leads_of_exec CacheNode.machine Machine.always
    ([], .init "n1" [] 2 300) sweptRun
    (fun c => decide (c.2.cache.size = 0 ∧
      EveryStep (fun (d : CacheNodeRun Int String) op _ => d.2.removesClean op = true) c.1))
    (by decide +kernel)
  obtain ⟨hsize, hclean⟩ := of_decide_eq_true hp
  exact ⟨c, hc, hsize, (dirty_flushed_iff hc).mpr hclean⟩

/-- Room for one line: the second write evicts the first, and the second
line is demoted and expires. -/
def unflushedRun : List (CacheOp Int String) :=
  [.write 1 "a" 0, .write 2 "b" 1, .handleSnoop 2 "read_shared", .cleanup 400]

theorem dirty_lines_unflushed :
    ∃ c : CacheNodeRun Int String,
      CacheNode.machine.Leads Machine.always ([], .init "n1" [] 1 300) c ∧
      c.1.flatMap (fun e => e.before.memoryLog e.action) =
        [.removed 1 .modified, .removed 2 .owned] ∧
      ¬ EveryStep (fun d op _ => d.2.FlushesDirty op) c.1 := by
  obtain ⟨c, hc, hp⟩ := Machine.exists_leads_of_exec CacheNode.machine Machine.always
    ([], .init "n1" [] 1 300) unflushedRun
    (fun c => decide (c.1.flatMap (fun e => e.before.memoryLog e.action) =
        [.removed 1 .modified, .removed 2 .owned] ∧
      c.1.getLast?.any (fun e => !e.before.removesClean e.action) = true)) (by decide +kernel)
  obtain ⟨hlog, hlast⟩ := of_decide_eq_true hp
  refine ⟨c, hc, hlog, ?_⟩
  intro hall
  rw [Option.any_eq_true] at hlast
  obtain ⟨e, he, hdirty⟩ := hlast
  have hclean := (e.before.flushesDirty_iff e.action).mp (hall.last he)
  rw [hclean] at hdirty
  cases hdirty

end SyncSystem.Cache

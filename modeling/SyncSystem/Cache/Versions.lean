/-
SyncSystem.Cache.Versions — the version of a line from write to write.

A write counts the version of a line up where the line is MODIFIED. Any
other line it replaces by a new one, whose version is 1 whatever the old
one was. Lines start at version 1 (`versions_of_leads`), so a write to an
address that is held raises its version exactly if it finds the line
MODIFIED (`versionGrows_iff`); a snoop or an invalidation since the last
write is enough to lose count.
-/
import SyncSystem.Cache.Operations

namespace SyncSystem.Cache

open SyncSystem.Python

variable {α δ : Type} [BEq α]

namespace CacheNode

/-- The version a write gives to an address that holds `line`. -/
def nextVersion (line : CacheLine α δ) : Nat :=
  if line.state = .modified then line.version + 1 else 1

/-- A write to an address that is held leaves it with a greater version. -/
def VersionGrows (n : CacheNode α δ) : CacheOp α δ → Prop
  | .write address data now => ∀ line, n.cache.get? address = some line →
      ∃ line', (n.write address data now).1.cache.get? address = some line' ∧
        line.version < line'.version
  | _ => True

/-- A write finds the line MODIFIED, if it finds one. -/
def writesModified (n : CacheNode α δ) : CacheOp α δ → Bool
  | .write address _ _ => (n.cache.get? address).all fun line => line.state = .modified
  | _ => true

/-- Every line has been counted from 1. -/
def VersionsPositive (n : CacheNode α δ) : Prop :=
  ∀ a line, n.cache.get? a = some line → 1 ≤ line.version

variable {n : CacheNode α δ}

/-! ## Versions are positive -/

section

variable [PartialEquivBEq α]

/-- Assigning a line with a version keeps the versions positive. -/
theorem VersionsPositive.set (h : n.VersionsPositive) {n' : CacheNode α δ}
    {address : α} {line : CacheLine α δ} (hcache : n'.cache = n.cache.set address line)
    (hline : 1 ≤ line.version) : n'.VersionsPositive := by
  intro a line' hget
  rw [hcache, Dict.get?_set] at hget
  split at hget
  · cases hget
    exact hline
  · exact h a line' hget

theorem VersionsPositive.evict (h : n.VersionsPositive) (evicted : α) :
    (n.evict evicted).VersionsPositive := by
  intro a line hget
  rw [evict_cache, Dict.get?_del] at hget
  split at hget
  · cases hget
  · exact h a line hget

theorem VersionsPositive.writeNew (h : n.VersionsPositive) (address : α) (data : δ) (now : Rat) :
    (n.writeNew address data now).1.VersionsPositive := by
  have hupgraded : (n.broadcastUpgrade address).VersionsPositive := h
  simp only [CacheNode.writeNew]
  split
  · split
    · exact hupgraded.set rfl (Nat.le_refl 1)
    · next evicted _ =>
      split
      · exact (hupgraded.evict evicted).set rfl (Nat.le_refl 1)
      · exact hupgraded
  · exact hupgraded.set rfl (Nat.le_refl 1)

theorem VersionsPositive.write (h : n.VersionsPositive) (address : α) (data : δ) (now : Rat) :
    (n.write address data now).1.VersionsPositive := by
  unfold CacheNode.write
  split
  · exact h.writeNew address data now
  · split
    · exact h.set rfl (Nat.le_add_left 1 _)
    · exact h.writeNew address data now

theorem VersionsPositive.restates {n' : CacheNode α δ} {address : α} (h : n.VersionsPositive)
    (hr : Restates n n' address) : n'.VersionsPositive := by
  rcases hr.cache with hcache | ⟨line, state, hget, hcache⟩
  · rw [VersionsPositive, hcache]
    exact h
  · exact h.set hcache (h address line hget)

theorem VersionsPositive.cleanup (h : n.VersionsPositive) (now : Rat) :
    (n.cleanup now).VersionsPositive :=
  cleanup_keeps (fun _ a hm => hm.evict a) h now

end

theorem VersionsPositive.apply [EquivBEq α] (h : n.VersionsPositive) (op : CacheOp α δ) :
    (n.apply op).1.VersionsPositive := by
  cases op with
  | read address =>
    intro a line hget
    exact h a line (by simpa [CacheNode.apply] using hget)
  | write address data now => exact h.write address data now
  | invalidate address => exact h.restates (n.restates_invalidate address)
  | handleSnoop address operation => exact h.restates (n.restates_handleSnoop address operation)
  | cleanup now =>
    rw [CacheNode.apply, cacheCleanup_eq]
    exact h.cleanup now

/-! ## What a write does to the version -/

/-- A write to an address that is held replaces its line. -/
theorem write_held {address : α} {line : CacheLine α δ} (hget : n.cache.get? address = some line)
    (data : δ) (now : Rat) :
    ∃ line', (n.write address data now).1.cache = n.cache.set address line' ∧
      line'.version = nextVersion line := by
  have hin : n.cache.contains address = true := Dict.contains_eq_true.mpr ⟨line, hget⟩
  by_cases hmodified : line.state = .modified
  · refine ⟨{ line with data := some data, lastUpdated := now, version := line.version + 1 }, ?_, ?_⟩
    · simp [write, hget, hmodified, broadcastInvalidation]
    · simp [nextVersion, hmodified]
  · refine ⟨⟨address, .modified, some data, now, 1⟩, ?_, ?_⟩
    · simp [write, hget, hmodified, writeNew, hin, broadcastUpgrade]
    · simp [nextVersion, hmodified]

/-- A write raises the version exactly if it finds the line MODIFIED. -/
theorem versionGrows_iff [EquivBEq α] (h : n.VersionsPositive) (op : CacheOp α δ) :
    n.VersionGrows op ↔ n.writesModified op = true := by
  cases op with
  | write address data now =>
    cases hget : n.cache.get? address with
    | none => simp [VersionGrows, writesModified, hget]
    | some line =>
      obtain ⟨line', hcache, hversion⟩ := write_held hget data now
      have hline' : (n.write address data now).1.cache.get? address = some line' := by
        simp [hcache, Dict.get?_set]
      have hpos := h address line hget
      simp only [VersionGrows, writesModified, hget, hline', hversion, nextVersion, Option.some.injEq,
        forall_eq', exists_eq_left', Option.all_some, decide_eq_true_eq]
      split
      · next hmodified => simp [hmodified]
      · next hother =>
        simp only [hother, iff_false]
        omega
  | read address => exact iff_of_true trivial rfl
  | invalidate address => exact iff_of_true trivial rfl
  | handleSnoop address operation => exact iff_of_true trivial rfl
  | cleanup now => exact iff_of_true trivial rfl

end CacheNode

/-! ## Runs -/

variable [EquivBEq α] {nodeId : String} {peers : List String} {maxSize : Nat} {ttl : Rat}
  {c : CacheNodeRun α δ}

theorem versions_of_leads
    (h : CacheNode.machine.Leads Machine.always ([], .init nodeId peers maxSize ttl) c) :
    c.2.VersionsPositive := by
  refine h.invariant (I := fun c => c.2.VersionsPositive) (by intro a line hget; cases hget) ?_
  intro c op n' out _ ih _ hs
  have hkept := ih.apply op
  rwa [CacheNode.machine_step.mp hs] at hkept

/-- **Versions increase** with every write of a run to an address that is
held exactly if every such write finds the line MODIFIED. -/
theorem versions_increase_iff
    (h : CacheNode.machine.Leads Machine.always ([], .init nodeId peers maxSize ttl) c) :
    EveryStep (fun d op _ => d.2.VersionGrows op) c.1 ↔
      EveryStep (fun d op _ => d.2.writesModified op = true) c.1 :=
  h.everyStep_congr (fun _ op _ _ hreach _ _ =>
    CacheNode.versionGrows_iff (versions_of_leads hreach) op)

/-- Three writes to one address, with reads and a snoop of no effect
between them. -/
def countedRun : List (CacheOp Int String) :=
  [.write 1 "a" 0, .read 1, .write 1 "b" 1, .handleSnoop 1 "evict", .write 1 "c" 2]

theorem versions_increase_iff_countedRun :
    ∃ c : CacheNodeRun Int String,
      CacheNode.machine.Leads Machine.always ([], .init "n1" [] 2 300) c ∧
      (c.2.cache.get? 1).map CacheLine.version = some 3 ∧
      EveryStep (fun d op _ => d.2.VersionGrows op) c.1 := by
  obtain ⟨c, hc, hp⟩ := Machine.exists_leads_of_exec CacheNode.machine Machine.always
    ([], .init "n1" [] 2 300) countedRun
    (fun c => decide ((c.2.cache.get? 1).map CacheLine.version = some 3 ∧
      EveryStep (fun (d : CacheNodeRun Int String) op _ => d.2.writesModified op = true) c.1))
    (by decide +kernel)
  obtain ⟨hversion, hmodified⟩ := of_decide_eq_true hp
  exact ⟨c, hc, hversion, (versions_increase_iff hc).mpr hmodified⟩

/-- Another node reads the address before the third write. -/
def snoopedRun : List (CacheOp Int String) :=
  [.write 1 "a" 0, .write 1 "b" 1, .handleSnoop 1 "read_shared", .write 1 "c" 2]

theorem version_starts_again :
    ∃ c : CacheNodeRun Int String,
      CacheNode.machine.Leads Machine.always ([], .init "n1" [] 2 300) c ∧
      c.visited.map (fun n => (n.cache.get? 1).map CacheLine.version) =
        [none, some 1, some 2, some 2, some 1] ∧
      ¬ EveryStep (fun d op _ => d.2.VersionGrows op) c.1 := by
  obtain ⟨c, hc, hp⟩ := Machine.exists_leads_of_exec CacheNode.machine Machine.always
    ([], .init "n1" [] 2 300) snoopedRun
    (fun c => decide (c.visited.map (fun n => (n.cache.get? 1).map CacheLine.version) =
        [none, some 1, some 2, some 2, some 1] ∧
      c.1.getLast?.any (fun e => !e.before.writesModified e.action) = true)) (by decide +kernel)
  obtain ⟨hversions, hlast⟩ := of_decide_eq_true hp
  refine ⟨c, hc, hversions, ?_⟩
  intro hall
  rw [Option.any_eq_true] at hlast
  obtain ⟨e, he, hother⟩ := hlast
  have hpositive : EveryStep (fun d _ _ => d.2.VersionsPositive) c.1 :=
    hc.everyStep (fun _ _ _ _ hreach _ _ => versions_of_leads hreach)
  have hmodified := (CacheNode.versionGrows_iff (hpositive.last he) e.action).mp (hall.last he)
  rw [hmodified] at hother
  cases hother

end SyncSystem.Cache

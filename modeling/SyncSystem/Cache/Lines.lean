/-
SyncSystem.Cache.Lines — the line at one address, operation by operation.

Whatever an operation does to the rest of the table, what is at an
address afterwards is a function of what was there (`CacheOp.onLine`),
unless the address has been taken out (`Listed.get?_apply`). So a line is
told by the operations on its address since its last write
(`line_of_history`): it has the data and the time of that write and is
INVALID, OWNED or MODIFIED, whichever of an invalidation and a shared
snoop has come since. EXCLUSIVE and SHARED are never used.
-/
import SyncSystem.Cache.Reads
import SyncSystem.Cache.Writes

namespace SyncSystem.Cache

open SyncSystem.Python

variable {α δ : Type}

/-! ## One line -/

namespace CacheLine

/-- `handle_snoop` on a line. -/
def snooped (line : CacheLine α δ) (operation : String) : CacheLine α δ :=
  if operation = "read_shared" then
    if line.state = .modified then { line with state := .owned } else line
  else if operation = "invalidate" then { line with state := .invalid }
  else line

/-- `write` on what its address holds. -/
def rewritten (address : α) (data : δ) (now : Rat) : Option (CacheLine α δ) → CacheLine α δ
  | none => ⟨address, .modified, some data, now, 1⟩
  | some line =>
      if line.state = .modified then
        { line with data := some data, lastUpdated := now, version := line.version + 1 }
      else ⟨address, .modified, some data, now, 1⟩

@[simp] theorem rewritten_state (address : α) (data : δ) (now : Rat)
    (held : Option (CacheLine α δ)) : (rewritten address data now held).state = .modified := by
  cases held with
  | none => rfl
  | some line =>
    simp only [rewritten]
    split
    · assumption
    · rfl

@[simp] theorem rewritten_data (address : α) (data : δ) (now : Rat)
    (held : Option (CacheLine α δ)) : (rewritten address data now held).data = some data := by
  cases held with
  | none => rfl
  | some line =>
    simp only [rewritten]
    split <;> rfl

@[simp] theorem rewritten_lastUpdated (address : α) (data : δ) (now : Rat)
    (held : Option (CacheLine α δ)) : (rewritten address data now held).lastUpdated = now := by
  cases held with
  | none => rfl
  | some line =>
    simp only [rewritten]
    split <;> rfl

end CacheLine

variable [BEq α]

/-- What the operation makes of the line at `a`. -/
def CacheOp.onLine (a : α) (held : Option (CacheLine α δ)) :
    CacheOp α δ → Option (CacheLine α δ)
  | .read _ => held
  | .write address data now =>
      if address == a then some (.rewritten address data now held) else held
  | .invalidate address =>
      if address == a then held.map (fun line => { line with state := .invalid }) else held
  | .handleSnoop address operation =>
      if address == a then held.map (·.snooped operation) else held
  | .cleanup _ => held

variable [EquivBEq α]

namespace CacheNode

variable {n : CacheNode α δ} {address a : α}

/-- One line is assigned. -/
theorem get?_invalidate (n : CacheNode α δ) (address a : α) :
    (n.invalidate address).1.cache.get? a =
      (CacheOp.invalidate address).onLine a (n.cache.get? a) := by
  unfold invalidate
  cases heq : address == a with
  | false => split <;> simp [CacheOp.onLine, Dict.get?_set, heq]
  | true =>
    split
    · next hget => simp [CacheOp.onLine, heq, ← n.cache.get?_congr heq, hget]
    · next line hget =>
      simp [CacheOp.onLine, Dict.get?_set, heq, ← n.cache.get?_congr heq, hget]

omit [EquivBEq α] in
theorem handleSnoop_eq {line : CacheLine α δ} (hget : n.cache.get? address = some line)
    (operation : String) : (n.handleSnoop address operation).cache = n.cache ∧
        line.snooped operation = line ∨
      (n.handleSnoop address operation).cache =
        n.cache.set address (line.snooped operation) := by
  simp only [handleSnoop, hget, CacheLine.snooped]
  split
  · split
    · exact Or.inr rfl
    · exact Or.inl ⟨rfl, rfl⟩
  · split
    · exact Or.inr rfl
    · exact Or.inl ⟨rfl, rfl⟩

theorem get?_handleSnoop (n : CacheNode α δ) (address a : α) (operation : String) :
    (n.handleSnoop address operation).cache.get? a =
      (CacheOp.handleSnoop address operation).onLine a (n.cache.get? a) := by
  cases hget : n.cache.get? address with
  | none =>
    have hsame : n.handleSnoop address operation = n := by simp [handleSnoop, hget]
    rw [hsame]
    simp only [CacheOp.onLine]
    split
    · next heq => rw [← n.cache.get?_congr heq, hget]; rfl
    · rfl
  | some line =>
    rcases handleSnoop_eq hget operation with ⟨hcache, hsame⟩ | hcache
    · rw [hcache]
      simp only [CacheOp.onLine]
      split
      · next heq => rw [← n.cache.get?_congr heq, hget, Option.map_some, hsame]
      · rfl
    · rw [hcache, Dict.get?_set]
      simp only [CacheOp.onLine]
      split
      · next heq => rw [← n.cache.get?_congr heq, hget]; rfl
      · rfl

/-- A write that does not raise: what its address holds then. -/
theorem writeNew_self {data : δ} {now : Rat} (hok : (n.writeNew address data now).2 = .ok true) :
    (n.writeNew address data now).1.cache.get? address =
      some ⟨address, .modified, some data, now, 1⟩ := by
  revert hok
  simp only [writeNew]
  split
  · split
    · intro _; simp [Dict.get?_set]
    · split
      · intro _; simp [Dict.get?_set]
      · intro hok; cases hok
  · intro _; simp [Dict.get?_set]

theorem write_self {data : δ} {now : Rat} (hok : (n.write address data now).2 = .ok true) :
    (n.write address data now).1.cache.get? address =
      some (.rewritten address data now (n.cache.get? address)) := by
  revert hok
  unfold write
  split
  · next hget => intro hok; simp [hget, CacheLine.rewritten, writeNew_self hok]
  · next line hget =>
    split
    · next hmodified =>
      intro _
      simp [hget, CacheLine.rewritten, hmodified, broadcastInvalidation, sendToPeers, Dict.get?_set]
    · next hother => intro hok; simp [hget, CacheLine.rewritten, hother, writeNew_self hok]

end CacheNode

/-- **One line, one operation**: an address that is held afterwards has
the line that the operation makes of what was there. -/
theorem Listed.get?_apply {n : CacheNode α δ} (h : Listed n) (op : CacheOp α δ) (a : α)
    (hkept : (n.apply op).1.cache.contains a = true) :
    (n.apply op).1.cache.get? a = op.onLine a (n.cache.get? a) := by
  cases op with
  | read address => simp [CacheNode.apply, CacheOp.onLine]
  | write address data now =>
    simp only [CacheNode.apply, CacheOp.onLine] at hkept ⊢
    cases heq : address == a with
    | true =>
      have hself := CacheNode.write_self (h.write_eq address data now).1
      rw [← n.cache.get?_congr heq, ← Dict.get?_congr _ heq, hself]
      rfl
    | false => exact CacheNode.get?_write_other heq hkept
  | invalidate address => exact n.get?_invalidate address a
  | handleSnoop address operation => exact n.get?_handleSnoop address a operation
  | cleanup now =>
    simp only [CacheNode.apply, CacheNode.cacheCleanup_eq, CacheOp.onLine] at hkept ⊢
    rcases n.get?_cleanup now a with hsame | hgone
    · exact hsame
    · rw [Dict.contains, hgone] at hkept
      cases hkept

/-! ## Since the last write -/

namespace CacheOp

/-- A write to `a`. -/
def writesTo (a : α) : CacheOp α δ → Bool
  | .write address _ _ => address == a
  | _ => false

/-- An invalidation of `a`, or a snoop that is one. -/
def invalidates (a : α) : CacheOp α δ → Bool
  | .invalidate address => address == a
  | .handleSnoop address operation => address == a && operation == "invalidate"
  | _ => false

/-- A snoop for a read of `a` elsewhere. -/
def shares (a : α) : CacheOp α δ → Bool
  | .handleSnoop address operation => address == a && operation == "read_shared"
  | _ => false

end CacheOp

/-- The state of a line written just before these operations. -/
def stateSince (a : α) (ops : List (CacheOp α δ)) : CacheState :=
  if ops.any (·.invalidates a) then .invalid
  else if ops.any (·.shares a) then .owned
  else .modified

/-- The last write to `a`, and what has come after it, tell `line`. -/
def ToldBy (a : α) (line : CacheLine α δ)
    (history : List (Event (CacheNode α δ) (CacheOp α δ) (List (CacheEvent α δ)))) : Prop :=
  ∃ before e after address data now,
    history = before ++ e :: after ∧ e.action = .write address data now ∧ (address == a) = true ∧
      (∀ e' ∈ after, e'.action.writesTo a = false) ∧
      line.data = some data ∧ line.lastUpdated = now ∧
      line.state = stateSince a (after.map Event.action)

section

variable {op : CacheOp α δ} {a : α} {line line' : CacheLine α δ}

omit [EquivBEq α] in
theorem stateSince_append (ops : List (CacheOp α δ)) :
    stateSince a (ops ++ [op]) =
      if op.invalidates a then .invalid
      else if op.shares a = true ∧ stateSince a ops = .modified then .owned
      else stateSince a ops := by
  simp only [stateSince, List.any_append, List.any_cons, List.any_nil, Bool.or_false]
  by_cases hinvalid : ops.any (·.invalidates a) = true
  · simp [hinvalid]
  · by_cases hshared : ops.any (·.shares a) = true
    · simp [hinvalid, hshared]
    · simp [hinvalid, hshared]

omit [EquivBEq α] in
/-- Other operations leave data and time, and demote the state. -/
theorem CacheOp.onLine_of_not_writes (hw : op.writesTo a = false)
    (h : op.onLine a (some line) = some line') :
    line'.data = line.data ∧ line'.lastUpdated = line.lastUpdated ∧
      line'.state = if op.invalidates a then .invalid
        else if op.shares a = true ∧ line.state = .modified then .owned else line.state := by
  cases op with
  | read address =>
    cases h
    simp [CacheOp.invalidates, CacheOp.shares]
  | write address data now =>
    have hne : (address == a) = false := hw
    simp only [CacheOp.onLine, hne, Bool.false_eq_true, if_false, Option.some.injEq] at h
    subst h
    simp [CacheOp.invalidates, CacheOp.shares]
  | invalidate address =>
    cases heq : address == a <;>
      simp only [CacheOp.onLine, heq, Bool.false_eq_true, if_false, if_true, Option.map_some,
        Option.some.injEq] at h <;> subst h <;>
      simp [CacheOp.invalidates, CacheOp.shares, heq]
  | handleSnoop address operation =>
    cases heq : address == a with
    | false =>
      simp only [CacheOp.onLine, heq, Bool.false_eq_true, if_false, Option.some.injEq] at h
      subst h
      simp [CacheOp.invalidates, CacheOp.shares, heq]
    | true =>
      simp only [CacheOp.onLine, heq, if_true, Option.map_some, Option.some.injEq] at h
      subst h
      simp only [CacheLine.snooped, CacheOp.invalidates, CacheOp.shares, heq, Bool.true_and,
        beq_iff_eq]
      split
      · next hshared =>
        subst hshared
        split <;> simp_all
      · next hother => split <;> simp_all
  | cleanup now =>
    cases h
    simp [CacheOp.invalidates, CacheOp.shares]

end

variable {nodeId : String} {peers : List String} {maxSize : Nat} {ttl : Rat} {c : CacheNodeRun α δ}

theorem listed_of_leads
    (h : CacheNode.machine.Leads Machine.always ([], .init nodeId peers maxSize ttl) c) :
    Listed c.2 := by
  refine h.invariant (I := fun c => Listed c.2) (listed_init nodeId peers maxSize ttl) ?_
  intro c op n' out _ ih _ hs
  have hkept := ih.apply op
  rwa [CacheNode.machine_step.mp hs] at hkept

/-- **A line is told by the operations since its last write**, in every
run: its data and its time are those of the write, and its state is
INVALID if there has been an invalidation since, else OWNED if there has
been a shared snoop, else MODIFIED. -/
theorem line_of_history
    (h : CacheNode.machine.Leads Machine.always ([], .init nodeId peers maxSize ttl) c) :
    ∀ a line, c.2.cache.get? a = some line → ToldBy a line c.1 := by
  refine h.invariant (I := fun c => ∀ a line, c.2.cache.get? a = some line → ToldBy a line c.1)
    (by intro a line hget; cases hget) ?_
  intro c op n' out hreach ih _ hs a line hget
  have happly := CacheNode.machine_step.mp hs
  have hline := (listed_of_leads hreach).get?_apply op a
    (by rw [happly]; exact Dict.contains_eq_true.mpr ⟨line, hget⟩)
  rw [happly] at hline
  rw [Config.push_state, hline] at hget
  cases hw : op.writesTo a with
  | true =>
    -- the run ends in the write
    cases op with
    | write address data now =>
      have heq : (address == a) = true := hw
      simp only [CacheOp.onLine, heq, if_true, Option.some.injEq] at hget
      subst hget
      exact ⟨c.1, _, [], address, data, now, rfl, rfl, heq, by simp, by simp, by simp,
        by simp [stateSince]⟩
    | _ => cases hw
  | false =>
    cases hheld : c.2.cache.get? a with
    | none =>
      rw [hheld] at hget
      cases op with
      | write address data now =>
        have hne : (address == a) = false := hw
        simp [CacheOp.onLine, hne] at hget
      | _ => simp [CacheOp.onLine] at hget
    | some old =>
      rw [hheld] at hget
      obtain ⟨hdata, htime, hstate⟩ := CacheOp.onLine_of_not_writes hw hget
      obtain ⟨before, e, after, address, data, now, hhistory, hwrite, heq, hquiet, holddata,
        holdtime, holdstate⟩ := ih a old hheld
      refine ⟨before, e, after ++ [⟨c.2, op, out⟩], address, data, now, ?_, hwrite, heq, ?_,
        hdata.trans holddata, htime.trans holdtime, ?_⟩
      · simp [hhistory]
      · intro e' he'
        rcases List.mem_append.mp he' with he' | he'
        · exact hquiet e' he'
        · rw [List.mem_singleton.mp he']
          exact hw
      · rw [hstate, holdstate, List.map_append, List.map_singleton, stateSince_append]

/-- Written, snooped for a read elsewhere, and another address after it. -/
def sharedRun : List (CacheOp Int String) :=
  [.write 1 "a" 0, .write 1 "b" 1, .handleSnoop 1 "read_shared", .write 2 "c" 2]

theorem line_of_history_sharedRun :
    ∃ c : CacheNodeRun Int String,
      CacheNode.machine.Leads Machine.always ([], .init "n1" [] 2 300) c ∧
      (c.2.cache.get? 1).map CacheLine.state = some .owned ∧
      ∀ a line, c.2.cache.get? a = some line → ToldBy a line c.1 := by
  obtain ⟨c, hc, hp⟩ := Machine.exists_leads_of_exec CacheNode.machine Machine.always
    ([], .init "n1" [] 2 300) sharedRun
    (fun c => decide ((c.2.cache.get? 1).map CacheLine.state = some .owned)) (by decide +kernel)
  exact ⟨c, hc, of_decide_eq_true hp, line_of_history hc⟩

end SyncSystem.Cache

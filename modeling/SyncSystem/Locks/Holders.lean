/-
SyncSystem.Locks.Holders — whether whoever holds a resource can release it.

§1 says how a step changes the holdings. §2: `release_lock` looks at the
recorded holder, so a client can release what it holds as long as the
record is its own, and a reader that joins another one's lock cannot
(`joined_reader_stuck`). A release by the recorded reader frees the
resource under the others; so `can_release_iff` has one condition, that
readers do not join.
-/
import SyncSystem.Locks.Effects
import SyncSystem.Locks.MutualExclusion

namespace SyncSystem.Locks

open SyncSystem.Python

variable {ρ κ : Type} [DecidableEq ρ] [DecidableEq κ]

/-! ## §1 Holdings, step by step -/

/-- What a request holds when it has been answered. -/
def Request.holding (q : Request ρ κ) : Holding ρ κ := ⟨q.resourceId, q.lockType, q.clientId⟩

/-- Where no call is answered, holdings only end. -/
theorem mem_foldl_holdStep {events : List (LockEvent ρ κ)}
    (hquiet : ∀ q, LockEvent.answered q true ∉ events) {holdings : List (Holding ρ κ)}
    {x : Holding ρ κ} : x ∈ events.foldl holdStep holdings ↔
      x ∈ holdings ∧ ∀ result, LockEvent.releaseCalled x.resource x.client result ∉ events := by
  induction events generalizing holdings with
  | nil => simp
  | cons e rest ih =>
    have hrest : ∀ q, LockEvent.answered q true ∉ rest :=
      fun q hq => hquiet q (List.mem_cons_of_mem _ hq)
    rw [List.foldl_cons, ih hrest]
    cases e with
    | answered q success =>
      cases success with
      | false => simp [holdStep]
      | true => exact absurd List.mem_cons_self (hquiet q)
    | releaseCalled r c result =>
      simp only [holdStep, List.mem_filter, decide_eq_true_eq, List.mem_cons, not_or,
        LockEvent.releaseCalled.injEq]
      constructor
      · rintro ⟨⟨hx, hne⟩, hrel⟩
        exact ⟨hx, fun result => ⟨fun heq => hne ⟨heq.1, heq.2.1⟩, hrel result⟩⟩
      · rintro ⟨hx, hrel⟩
        exact ⟨⟨hx, fun heq => (hrel result).1 ⟨heq.1, heq.2, rfl⟩⟩, fun result => (hrel result).2⟩
    | _ => simp [holdStep]

/-- A holding begins with an answer and ends with the client's release. -/
theorem mem_holdings {s s' : LockSystem ρ κ} {a : LockAction ρ κ} {out : List (LockEvent ρ κ)}
    (heff : LockSystem.Effect s a s' out) {holdings : List (Holding ρ κ)} {x : Holding ρ κ} :
    x ∈ out.foldl holdStep holdings ↔ (∃ q, LockEvent.answered q true ∈ out ∧ x = q.holding) ∨
      x ∈ holdings ∧ ¬ ∃ now, a = .release x.resource x.client now := by
  cases heff with
  | tookAway a s' now out htakes htook hreports _ _ =>
    have hquiet : ∀ q, LockEvent.answered q true ∉ out := by
      intro q hq
      cases LockSystem.isTaking_of_mem htook hq
    have hreleased : (∃ result, LockEvent.releaseCalled x.resource x.client result ∈ out) ↔
        ∃ now, a = .release x.resource x.client now := by
      constructor
      · rintro ⟨result, hmem⟩
        rcases htook.events _ hmem with ⟨_, _, _, _, heq⟩ | hreport
        · cases heq
        · cases a with
          | release r c now =>
            obtain ⟨_, heq⟩ := hreport
            cases heq
            exact ⟨now, rfl⟩
          | _ => simp [LockSystem.Reports] at hreport
      · rintro ⟨now, heq⟩
        exact hreports _ _ now heq
    rw [mem_foldl_holdStep hquiet, ← hreleased, not_exists]
    simp [hquiet]
  | _ => simp [holdStep, Request.holding]

/-! ## §2 Releases -/

/-- No lock expires or is taken away. -/
abbrev NothingTaken (_ : LockRun ρ κ) : LockAction ρ κ → Prop
  | .sweep _ => False
  | .resolveDeadlock _ _ => False
  | _ => True

instance (c : LockRun ρ κ) (a : LockAction ρ κ) : Decidable (NothingTaken c a) :=
  LockAction.decidable a

/-- Whoever holds a resource can release it, and when another client
holds it SHARED, it is locked SHARED for such a client afterwards. -/
def HoldersCanRelease (c : LockRun ρ κ) : Prop :=
  ∀ r mode a, Holds c r mode a → ∀ now,
    LockEvent.releaseCalled r a .success ∈ (c.2.manager.releaseLock r a now).2 ∧
    ((∃ b, b ≠ a ∧ Holds c r .shared b) →
      ∃ lock, (c.2.manager.releaseLock r a now).1.locks.get? r = some lock ∧
        lock.lockType = .shared ∧ lock.holderId ≠ a ∧ Holds c r .shared lock.holderId)

/-- A reader does not join a lock that is recorded for another one. -/
abbrev JoinsOwnLock (c : LockRun ρ κ) : LockAction ρ κ → Prop
  | .acquire r lockType a _ _ =>
      lockType = .shared → ∀ lock ∈ c.2.manager.locks.get? r, lock.lockType = .shared →
        lock.holderId = a
  | _ => True

instance (c : LockRun ρ κ) (a : LockAction ρ κ) : Decidable (JoinsOwnLock c a) :=
  LockAction.decidable a

/-- Whoever holds a resource is the recorded holder. -/
def HoldersRecorded (m : LockManager ρ κ) (holdings : List (Holding ρ κ)) : Prop :=
  ∀ x ∈ holdings, m.holder x.resource = some x.client

/-- Only the recorded holder is told success. -/
theorem success_iff {m : LockManager ρ κ} {r : ρ} {a : κ} {now : Rat} :
    LockEvent.releaseCalled r a .success ∈ (m.releaseLock r a now).2 ↔ m.holder r = some a := by
  unfold LockManager.releaseLock
  split
  · next hnone => simp [LockManager.holder, hnone]
  · next lock hsome =>
    rw [LockManager.holder_of_get? hsome]
    split
    · next hne => simpa using hne
    · next heq => simpa using heq

/-- The recorded holder keeps the record until it releases it. -/
theorem holders_step {c : LockRun ρ κ} {s' : LockSystem ρ κ} {a : LockAction ρ κ}
    {out : List (LockEvent ρ κ)} (h : HoldersRecorded c.2.manager (c.track holdStep []))
    (hdom : NothingTaken c a) (hok : JoinsOwnLock c a) (hs : c.2.step a = some (s', out)) :
    HoldersRecorded s'.manager (out.foldl holdStep (c.track holdStep [])) := by
  have heff := LockSystem.step_effect hs
  intro x hx
  rcases (mem_holdings heff).mp hx with ⟨q, hq, rfl⟩ | ⟨hx, hkept⟩
  · rcases heff.answered hq with hholder | ⟨hmade, hshared, lock, hl, htype⟩
    · exact hholder
    · -- the request joins the lock, and that is the client's own
      cases a with
      | acquire r ty b timeout now =>
        cases hmade
        have hget : c.2.manager.locks.get? r = some lock := hl
        have hown : c.2.manager.holder r = some b := by
          rw [LockManager.holder_of_get? hget, hok hshared lock hget htype]
        exact heff.holder_kept hown (by simp [LockSystem.takenBy])
      | _ => cases hmade
  · have hholder := h x hx
    refine heff.holder_kept hholder ?_
    intro htaken
    cases a with
    | release r b now =>
      simp only [LockSystem.takenBy] at htaken
      split at htaken
      · next hb =>
        obtain rfl := List.mem_singleton.mp htaken
        rw [hholder] at hb
        cases hb
        exact hkept ⟨now, rfl⟩
      · cases htaken
    | sweep => exact hdom
    | resolveDeadlock => exact hdom
    | _ => cases htaken

theorem holders_of_leads {c : LockRun ρ κ}
    (h : LockSystem.machine.Leads (fun c a => NothingTaken c a ∧ JoinsOwnLock c a)
      ([], LockSystem.init) c) : HoldersRecorded c.2.manager (c.track holdStep []) := by
  refine h.track_invariant (I := fun s holdings => HoldersRecorded s.manager holdings) ?_ ?_
  · intro x hx
    cases hx
  · intro c a s' out _ ih hok hs
    exact holders_step ih hok.1 hok.2 hs

theorem canRelease_of_recorded {c : LockRun ρ κ}
    (h : HoldersRecorded c.2.manager (c.track holdStep [])) : HoldersCanRelease c := by
  intro r mode a ha now
  have hholder : c.2.manager.holder r = some a := h _ ha
  refine ⟨success_iff.mpr hholder, ?_⟩
  rintro ⟨b, hne, hb⟩
  have hother : c.2.manager.holder r = some b := h _ hb
  rw [hholder] at hother
  exact absurd (Option.some.inj hother).symm hne

/-- A reader that joins another one's lock cannot release it. -/
theorem joined_cannot_release {c : LockRun ρ κ} {s' : LockSystem ρ κ} {a : LockAction ρ κ}
    {out : List (LockEvent ρ κ)} (hok : ¬ JoinsOwnLock c a) (hs : c.2.step a = some (s', out)) :
    ¬ HoldersCanRelease (c.push a s' out) := by
  intro h
  have heff := LockSystem.step_effect hs
  cases a with
  | acquire r ty b timeout now =>
    simp only [JoinsOwnLock, not_forall] at hok
    obtain ⟨hshared, lock, hl, htype, hother⟩ := hok
    have hanswered : LockEvent.answered (c.2.request r ty b timeout) true ∈ out := by
      cases heff with
      | joined _ _ _ _ q _ hq _ _ => simp [hq]
      | taken _ _ _ _ _ q hq hfree =>
        rw [Option.mem_def.mp hl] at hfree
        cases hfree
      | upgraded => cases hshared
      | waits _ _ _ _ _ q existing deadline hq hsome hwriter _ _
      | raises _ _ _ _ _ q existing e hq hsome hwriter _ _ =>
        obtain rfl : lock = existing := Option.some.inj ((Option.mem_def.mp hl).symm.trans hsome)
        rw [hwriter hshared] at htype
        cases htype
      | tookAway _ _ _ _ htakes => cases htakes
    have hheld : Holds (c.push (.acquire r ty b timeout now) s' out) r ty b := by
      rw [Holds, Config.track_push, mem_holdings heff]
      exact Or.inl ⟨_, hanswered, rfl⟩
    -- the record is still that of the other reader
    have hkept := heff.holder_kept (LockManager.holder_of_get? hl) (by simp [LockSystem.takenBy])
    have hsuccess := success_iff.mp (h r ty b hheld now).1
    rw [Config.push_state, hkept] at hsuccess
    exact hother (Option.some.inj hsuccess)
  | _ => exact hok trivial

/-- **Whoever holds can release.** Among the runs in which no lock
expires or is taken away, a client can release what it holds, and leaves
it to the other readers, in every state of a run exactly when no reader
joins a lock that is recorded for another one. -/
theorem can_release_iff {c : LockRun ρ κ}
    (h : LockSystem.machine.Leads NothingTaken ([], LockSystem.init) c) :
    Throughout HoldersCanRelease c ↔ EveryStep (fun before a _ => JoinsOwnLock before a) c.1 :=
  h.throughout_iff_under (fun _ hreach => canRelease_of_recorded (holders_of_leads hreach))
    (fun _ _ _ _ _ _ hok hs => joined_cannot_release hok hs)

/-- A reader that asks twice, a writer that is handed the lock, asks for
it SHARED and gets that too. -/
def ownLockRun : List (LockAction String String) :=
  [.acquire "r" .shared "c1" (.int 30) 0, .acquire "r" .shared "c1" (.int 30) 1,
   .acquire "r" .exclusive "c2" (.int 30) 1, .test 0 1, .release "r" "c1" 2, .poll 0 2,
   .acquire "r" .shared "c2" (.int 30) 3, .test 0 3, .poll 0 4]

theorem can_release_iff_ownLockRun :
    ∃ c : LockRun String String,
      LockSystem.machine.Leads NothingTaken ([], LockSystem.init) c ∧
      Holds c "r" .exclusive "c2" ∧ Holds c "r" .shared "c2" ∧ Throughout HoldersCanRelease c := by
  obtain ⟨c, hc, hp⟩ := Machine.exists_leads_of_exec LockSystem.machine NothingTaken
    ([], LockSystem.init) ownLockRun
    (fun c => decide (Holds c "r" .exclusive "c2") && decide (Holds c "r" .shared "c2") &&
      decide (EveryStep (fun before a _ => JoinsOwnLock before a) c.1)) (by decide +kernel)
  simp only [Bool.and_eq_true, decide_eq_true_eq] at hp
  exact ⟨c, hc, hp.1.1, hp.1.2, (can_release_iff hc).mpr hp.2⟩

/-- Two readers; the second wants to leave first. -/
def secondReaderRun : List (LockAction String String) :=
  [.acquire "r" .shared "c1" (.int 30) 0, .acquire "r" .shared "c2" (.int 30) 1]

/-- The second reader is told that it is not the holder, and when the
first one leaves the resource is free. -/
theorem joined_reader_stuck :
    ∃ c : LockRun String String,
      LockSystem.machine.Leads NothingTaken ([], LockSystem.init) c ∧
      Holds c "r" .shared "c1" ∧ Holds c "r" .shared "c2" ∧
      LockEvent.releaseCalled "r" "c2" .success ∉ (c.2.manager.releaseLock "r" "c2" 2).2 ∧
      (c.2.manager.releaseLock "r" "c1" 2).1.locks.get? "r" = none ∧ ¬ HoldersCanRelease c := by
  obtain ⟨c, hc, hp⟩ := Machine.exists_leads_of_exec LockSystem.machine NothingTaken
    ([], LockSystem.init) secondReaderRun
    (fun c => decide (Holds c "r" .shared "c1") && decide (Holds c "r" .shared "c2") &&
      decide (c.2.manager.holder "r" ≠ some "c2") &&
      ((c.2.manager.releaseLock "r" "c1" 2).1.locks.get? "r").isNone) (by decide +kernel)
  simp only [Bool.and_eq_true, decide_eq_true_eq, Option.isNone_iff_eq_none] at hp
  obtain ⟨⟨⟨hfirst, hsecond⟩, hholder⟩, hfree⟩ := hp
  have hstuck : LockEvent.releaseCalled "r" "c2" .success ∉
      (c.2.manager.releaseLock "r" "c2" 2).2 := fun hmem => hholder (success_iff.mp hmem)
  exact ⟨c, hc, hfirst, hsecond, hstuck, hfree, fun h => hstuck (h _ _ _ hsecond 2).1⟩

end SyncSystem.Locks

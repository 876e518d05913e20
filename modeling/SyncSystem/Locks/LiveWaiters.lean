/-
SyncSystem.Locks.LiveWaiters — whether a waiter is still there when its
turn comes.

A call that is over should not be in a waiting queue any more. The poll
that finds the resource free and the timeout take the entry out; a poll
that is answered by a lock of its own client, and a deadline that cannot
be computed, leave it behind, and the lock is later handed to a call
that has returned (`ghost_waiter`). `LeavesQueue` is that neither
happens, and it is exact (`waiters_live`).
-/
import SyncSystem.Locks.Steps

namespace SyncSystem.Locks

open SyncSystem.Python

variable {ρ κ : Type} [DecidableEq ρ] [DecidableEq κ]

/-! ## Live waiters -/

/-- An `acquire_lock` call for `r` with this request id is in progress. -/
def InProgress (s : LockSystem ρ κ) (r : ρ) (requestId : Nat) : Prop :=
  ∃ call ∈ s.calls, call.request.resourceId = r ∧ call.request.requestId = requestId

/-- Every entry of a waiting queue belongs to a call in progress. -/
def WaitersLive (s : LockSystem ρ κ) : Prop :=
  ∀ r, ∀ w ∈ s.manager.waiters r, InProgress s r w.requestId

instance (s : LockSystem ρ κ) (r : ρ) (requestId : Nat) : Decidable (InProgress s r requestId) :=
  inferInstanceAs (Decidable (∃ call ∈ s.calls,
    call.request.resourceId = r ∧ call.request.requestId = requestId))

/-- A lock that is recorded is for the call that is made in the step, or
for one that is in progress. -/
abbrev RecordLive (before : LockRun ρ κ) : LockEvent ρ κ → Prop
  | .recorded lock => lock.requestId = before.2.nextRequest ∨
      InProgress before.2 lock.resourceId lock.requestId
  | _ => True

instance (before : LockRun ρ κ) (e : LockEvent ρ κ) : Decidable (RecordLive before e) :=
  match e with
  | .recorded _ => inferInstance
  | .queued _ => inferInstance
  | .answered .. => inferInstance
  | .raised .. => inferInstance
  | .releaseCalled .. => inferInstance
  | .expired _ => inferInstance
  | .resolved _ => inferInstance

/-- No step of the run records a lock for a call that is over. -/
def RecordsLive (c : LockRun ρ κ) : Prop :=
  EveryStep (fun before _ out => ∀ e ∈ out, RecordLive before e) c.1

instance (c : LockRun ρ κ) : Decidable (RecordsLive c) :=
  inferInstanceAs (Decidable (EveryStep (fun before _ out => ∀ e ∈ out, RecordLive before e) c.1))

/-- `acquire_lock` has to wait. -/
def LockManager.mustWait (m : LockManager ρ κ) (r : ρ) (lockType : LockType) (c : κ) : Bool :=
  (m.locks.get? r).any fun lock =>
    !(lockType = .shared ∧ lock.lockType = .shared) &&
      !(lock.holderId = c ∧ lockType = .exclusive)

/-- The deadline of a request that has to wait can be computed, and a
poll is not answered by a lock of its own client while its entry is
still in the queue. -/
abbrev LeavesQueue (c : LockRun ρ κ) : LockAction ρ κ → Prop
  | .acquire r lockType a timeout now =>
      c.2.manager.mustWait r lockType a = true → (timeout.addTo now).isOk = true
  | .poll k _ =>
      ∀ call ∈ c.2.calls[k]?,
        c.2.manager.holder call.request.resourceId = some call.request.clientId →
          ∀ w ∈ c.2.manager.waiters call.request.resourceId,
            w.requestId ≠ call.request.requestId
  | _ => True

instance (c : LockRun ρ κ) (a : LockAction ρ κ) : Decidable (LeavesQueue c a) :=
  LockAction.decidable a

/-- The locks that are recorded go to waiters. -/
def HandsToWaiters (m : LockManager ρ κ) (events : List (LockEvent ρ κ)) : Prop :=
  ∀ lock, LockEvent.recorded lock ∈ events →
    ∃ w ∈ m.waiters lock.resourceId, w.requestId = lock.requestId

theorem handsToWaiters_of_takenAway {s : LockSystem ρ κ} {a : LockAction ρ κ}
    {m' : LockManager ρ κ} {rids : List ρ} {now : Rat} {out : List (LockEvent ρ κ)}
    (htook : TakenAway s.manager m' rids now (s.Reports a) out) :
    HandsToWaiters s.manager out := by
  intro lock hlock
  rcases htook.events _ hlock with ⟨r, _, w, hw, heq⟩ | hreport
  · cases heq
    exact ⟨w, List.mem_of_mem_head? hw, rfl⟩
  · cases a <;> simp [LockSystem.Reports] at hreport

/-- The entries belong to the requests of the calls in progress, whose
ids are different and have been given out. -/
structure Queueing (m : LockManager ρ κ) (requests : List (Request ρ κ)) (next : Nat) : Prop where
  live : ∀ r, ∀ w ∈ m.waiters r, ∃ q ∈ requests, q.resourceId = r ∧ q.requestId = w.requestId
  issued : ∀ q ∈ requests, q.requestId < next
  distinct : (requests.map Request.requestId).Nodup

namespace Queueing

variable {m m' : LockManager ρ κ} {requests : List (Request ρ κ)} {next : Nat}

theorem init : Queueing (LockManager.init : LockManager ρ κ) [] 0 where
  live := by intro r w hw; cases hw
  issued := by simp
  distinct := by simp

/-- Entries have gone, ids have been given out. -/
theorem keep (h : Queueing m requests next) (hw : ∀ r, m'.waiters r ⊆ m.waiters r) {next' : Nat}
    (hnext : next ≤ next') : Queueing m' requests next' where
  live := fun r w hmem => h.live r w (hw r hmem)
  issued := fun q hq => lt_of_lt_of_le (h.issued q hq) hnext
  distinct := h.distinct

/-- A call starts to wait. -/
theorem enqueue (h : Queueing m requests next) {q : Request ρ κ} (hq : q.requestId = next) :
    Queueing (m.enqueue q) (requests ++ [q]) (next + 1) where
  live := by
    intro r w hw
    rw [LockManager.waiters_enqueue] at hw
    have hold : w ∈ m.waiters r → ∃ q' ∈ requests ++ [q], q'.resourceId = r ∧
        q'.requestId = w.requestId := by
      intro hmem
      obtain ⟨q', hq', heq⟩ := h.live r w hmem
      exact ⟨q', List.mem_append_left _ hq', heq⟩
    split at hw
    · next heq =>
      rcases List.mem_append.mp hw with hw | hw
      · exact hold hw
      · rw [List.mem_singleton.mp hw]
        exact ⟨q, by simp, heq, rfl⟩
    · exact hold hw
  issued := by
    intro q' hq'
    rcases List.mem_append.mp hq' with hq' | hq'
    · exact Nat.lt_succ_of_lt (h.issued q' hq')
    · rw [List.mem_singleton.mp hq', hq]
      exact Nat.lt_succ_self _
  distinct := by
    rw [List.map_append]
    refine List.nodup_append.mpr ⟨h.distinct, by simp, ?_⟩
    intro id hid id' hid' heq
    obtain ⟨q', hq', rfl⟩ := List.mem_map.mp hid
    have hlt := h.issued q' hq'
    rw [List.map_singleton, List.mem_singleton] at hid'
    omega

/-- A call is over and its entry has gone. -/
theorem leave (h : Queueing m requests next) (hw : ∀ r, m'.waiters r ⊆ m.waiters r) {k : Nat}
    {q : Request ρ κ} (hk : requests[k]? = some q)
    (hgone : ∀ w ∈ m'.waiters q.resourceId, w.requestId ≠ q.requestId) :
    Queueing m' (requests.eraseIdx k) next where
  live := by
    intro r w hmem
    obtain ⟨q', hq', hr, hid⟩ := h.live r w (hw r hmem)
    rcases LockSystem.mem_eraseIdx_or_eq hk hq' with hq' | rfl
    · exact ⟨q', hq', hr, hid⟩
    · subst hr
      exact absurd hid.symm (hgone w hmem)
  issued := fun q' hq' => h.issued q' (List.mem_of_mem_eraseIdx hq')
  distinct := h.distinct.sublist ((List.eraseIdx_sublist _ _).map _)

theorem id_not_mem_eraseIdx (h : Queueing m requests next) {k : Nat} {q q' : Request ρ κ}
    (hk : requests[k]? = some q) (hq' : q' ∈ requests.eraseIdx k) :
    q'.requestId ≠ q.requestId :=
  LockSystem.key_ne_of_mem_eraseIdx h.distinct hk hq'

end Queueing

namespace LockSystem

theorem inProgress_iff {s : LockSystem ρ κ} {r : ρ} {id : Nat} :
    InProgress s r id ↔ ∃ q ∈ s.requests, q.resourceId = r ∧ q.requestId = id := by
  simp [InProgress, requests]

end LockSystem

/-- Which requests have to wait for a lock. -/
theorem mustWait_iff {m : LockManager ρ κ} {r : ρ} {ty : LockType} {b : κ} {lock : Lock ρ κ}
    (hl : m.locks.get? r = some lock) : m.mustWait r ty b = true ↔
      (ty = .shared → lock.lockType = .exclusive) ∧ (ty = .exclusive → lock.holderId ≠ b) := by
  cases ty <;> cases htype : lock.lockType <;> simp [LockManager.mustWait, hl, htype]

/-- The `k`-th call is over. -/
theorem queueing_over {s : LockSystem ρ κ} (h : Queueing s.manager s.requests s.nextRequest)
    {k : Nat} {call : Call ρ κ} (hk : s.calls[k]? = some call) {m : LockManager ρ κ}
    (hw : ∀ r, m.waiters r ⊆ s.manager.waiters r)
    (hgone : ∀ w ∈ m.waiters call.request.resourceId, w.requestId ≠ call.request.requestId) :
    Queueing m (s.after m (s.calls.eraseIdx k)).requests s.nextRequest := by
  rw [LockSystem.requests_eraseIdx]
  exact h.leave hw (LockSystem.requests_get? hk) hgone

/-- Every step that lets entries go with their calls keeps them live. -/
theorem queueing_step {c : LockRun ρ κ} {a : LockAction ρ κ} {s' : LockSystem ρ κ}
    {out : List (LockEvent ρ κ)} (h : Queueing c.2.manager c.2.requests c.2.nextRequest)
    (hok : LeavesQueue c a) (hs : c.2.step a = some (s', out)) :
    Queueing s'.manager s'.requests s'.nextRequest := by
  cases LockSystem.step_effect hs with
  | taken | joined | upgraded =>
    refine h.keep ?_ (Nat.le_succ _)
    exact fun r => List.Subset.refl (c.2.manager.waiters r)
  | waits r ty b timeout now q lock deadline hq _ _ _ _ =>
    have hcalls : (c.2.calls ++ [(⟨q, deadline, .test⟩ : Call ρ κ)]).map Call.request =
        c.2.requests ++ [q] := by simp [LockSystem.requests]
    have hqueued := h.enqueue (show q.requestId = c.2.nextRequest by rw [hq]; rfl)
    rw [← hcalls] at hqueued
    exact hqueued
  | raises r ty b timeout now q lock e hq hsome hwriter hother hadd =>
    have hdeadline := hok ((mustWait_iff hsome).mpr ⟨hwriter, hother⟩)
    simp [hadd, Except.isOk, Except.toBool] at hdeadline
  | tested k now q deadline phase hk _ | pollsOn k now q deadline lock hk _ _ =>
    rw [LockSystem.requests_set hk]
    exact h
  | pollTakes k now q deadline hk _ =>
    exact queueing_over h hk
      (LockManager.waiters_dropWaiter_subset (c.2.manager.record (q.lock now)) q)
      (fun _ => LockManager.ne_of_mem_dropWaiter)
  | pollFinds k now q deadline lock hk hsome hholder =>
    have hheld : c.2.manager.holder q.resourceId = some q.clientId := by
      rw [LockManager.holder_of_get? hsome, hholder]
    exact queueing_over h hk (fun _ => List.Subset.refl _) (hok _ hk hheld)
  | gaveUp k q deadline hk =>
    exact queueing_over h hk (LockManager.waiters_dropWaiter_subset _ q)
      (fun _ => LockManager.ne_of_mem_dropWaiter)
  | tookAway a s' now out _ htook _ hcalls hnext =>
    rw [LockSystem.requests, hcalls, hnext]
    exact h.keep htook.waiters_subset le_rfl

/-- Any other step leaves an entry behind. -/
theorem ghost_step {c : LockRun ρ κ} {a : LockAction ρ κ} {s' : LockSystem ρ κ}
    {out : List (LockEvent ρ κ)} (h : Queueing c.2.manager c.2.requests c.2.nextRequest)
    (hok : ¬ LeavesQueue c a) (hs : c.2.step a = some (s', out)) : ¬ WaitersLive s' := by
  intro hlive
  cases LockSystem.step_effect hs with
  | taken r ty b timeout now q _ hfree =>
    simp [LeavesQueue, LockManager.mustWait, hfree] at hok
  | joined r b timeout now q lock _ hsome hshared =>
    apply hok
    intro hwait
    have hexclusive := ((mustWait_iff hsome).mp hwait).1 rfl
    rw [hshared] at hexclusive
    cases hexclusive
  | upgraded r b timeout now q lock _ hsome hholder =>
    exact hok (fun hwait => absurd hholder (((mustWait_iff hsome).mp hwait).2 rfl))
  | waits r ty b timeout now q lock deadline _ _ _ _ hadd =>
    exact hok (fun _ => by simp [hadd, Except.isOk, Except.toBool])
  | raises r ty b timeout now q lock e hq _ _ _ _ =>
    -- the entry that was just added has no call
    subst hq
    obtain ⟨call, hcall, _, hid⟩ := hlive r ⟨b, ty, c.2.nextRequest⟩
      (by simp [Request.waiter, LockSystem.request])
    have hlt := h.issued _ (List.mem_map_of_mem hcall)
    exact absurd hid hlt.ne
  | pollFinds k now q deadline lock hk hsome hholder =>
    simp only [LeavesQueue, not_forall, not_not] at hok
    obtain ⟨call, hcall, _, w, hw, hid⟩ := hok
    obtain rfl : (⟨q, deadline, .asleep⟩ : Call ρ κ) = call := Option.some.inj (hk.symm.trans hcall)
    -- the entry of the call that is over would need a second call with its id
    obtain ⟨other, hother, _, hid'⟩ := hlive q.resourceId w hw
    have hmem : other.request ∈ c.2.requests.eraseIdx k := by
      rw [← c.2.requests_eraseIdx c.2.manager k]
      exact List.mem_map_of_mem hother
    exact h.id_not_mem_eraseIdx (LockSystem.requests_get? hk) hmem (hid'.trans hid)
  | pollTakes k now q deadline hk hfree =>
    simp only [LeavesQueue, not_forall, not_not] at hok
    obtain ⟨call, hcall, hholder, _⟩ := hok
    obtain rfl : (⟨q, deadline, .asleep⟩ : Call ρ κ) = call := Option.some.inj (hk.symm.trans hcall)
    simp [LockManager.holder, hfree] at hholder
  | pollsOn k now q deadline lock hk hsome hother =>
    simp only [LeavesQueue, not_forall, not_not] at hok
    obtain ⟨call, hcall, hholder, _⟩ := hok
    obtain rfl : (⟨q, deadline, .asleep⟩ : Call ρ κ) = call := Option.some.inj (hk.symm.trans hcall)
    rw [LockManager.holder_of_get? hsome] at hholder
    exact hother (Option.some.inj hholder)
  | tested | gaveUp => exact hok trivial
  | tookAway a s' now out htakes _ _ _ _ => cases a <;> first | exact hok trivial | cases htakes

/-- Where the entries are live, so are the requests that get a lock. -/
theorem recordsLive_step {c : LockRun ρ κ} {a : LockAction ρ κ} {s' : LockSystem ρ κ}
    {out : List (LockEvent ρ κ)} (h : Queueing c.2.manager c.2.requests c.2.nextRequest)
    (hs : c.2.step a = some (s', out)) : ∀ e ∈ out, RecordLive c e := by
  intro e he
  cases e with
  | recorded lock =>
    cases LockSystem.step_effect hs with
    | taken r ty b timeout now q hq _ | upgraded r b timeout now q _ hq _ _ =>
      obtain rfl : lock = q.lock now := by simpa using he
      rw [hq]
      exact Or.inl rfl
    | pollTakes k now q deadline hk _ =>
      obtain rfl : lock = q.lock now := by simpa using he
      exact Or.inr ⟨_, List.mem_of_getElem? hk, rfl, rfl⟩
    | tookAway a s' now out _ htook _ _ _ =>
      obtain ⟨w, hw, hid⟩ := handsToWaiters_of_takenAway htook lock he
      refine Or.inr (LockSystem.inProgress_iff.mpr ?_)
      rw [← hid]
      exact h.live _ w hw
    | _ => simp at he
  | _ => trivial

theorem queueing_of_leads {c : LockRun ρ κ}
    (h : LockSystem.machine.Leads LeavesQueue ([], LockSystem.init) c) :
    Queueing c.2.manager c.2.requests c.2.nextRequest :=
  h.invariant (I := fun c => Queueing c.2.manager c.2.requests c.2.nextRequest) Queueing.init
    (fun _ _ _ _ _ ih hok hs => queueing_step ih hok hs)

/-- **Waiting entries are live.** The entries of the waiting queues
belong to calls in progress, all along a run, and no lock is recorded for
a call that is over, exactly when every call takes its entry with it. -/
theorem waiters_live {c : LockRun ρ κ}
    (h : LockSystem.machine.Leads Machine.always ([], LockSystem.init) c) :
    ((∀ s ∈ c.visited, WaitersLive s) ∧ RecordsLive c) ↔
      EveryStep (fun before a _ => LeavesQueue before a) c.1 := by
  have hexact : (∀ s ∈ c.visited, WaitersLive s) ↔
      EveryStep (fun before a _ => LeavesQueue before a) c.1 := by
    refine h.visited_iff ?_ ?_
    · intro c hreach r w hw
      exact LockSystem.inProgress_iff.mpr ((queueing_of_leads hreach).live r w hw)
    · intro c a s' out hreach hok hs
      exact ghost_step (queueing_of_leads hreach) hok hs
  refine ⟨fun hall => hexact.mp hall.1, fun hok => ⟨hexact.mpr hok, ?_⟩⟩
  exact (h.of_everyStep hok).everyStep (fun _ _ _ _ hreach _ hs =>
    recordsLive_step (queueing_of_leads hreach) hs)

/-- Three clients; the second is handed the lock and finds it when it
polls, the third is still waiting. -/
def turnRun : List (LockAction String String) :=
  [.acquire "r" .exclusive "c1" (.int 30) 0, .acquire "r" .exclusive "c2" (.int 30) 1,
   .acquire "r" .exclusive "c3" (.int 30) 1, .test 0 1, .release "r" "c1" 2, .poll 0 2]

theorem waiters_live_turnRun :
    ∃ c : LockRun String String,
      LockSystem.machine.Leads Machine.always ([], LockSystem.init) c ∧
      c.2.manager.holder "r" = some "c2" ∧ c.2.manager.waiters "r" ≠ [] ∧
      WaitersLive c.2 ∧ RecordsLive c := by
  obtain ⟨c, hc, hp⟩ := Machine.exists_leads_of_exec LockSystem.machine Machine.always
    ([], LockSystem.init) turnRun
    (fun c => decide (c.2.manager.holder "r" = some "c2") && !(c.2.manager.waiters "r").isEmpty &&
      decide (EveryStep (fun before a _ => LeavesQueue before a) c.1)) (by decide +kernel)
  simp only [Bool.and_eq_true, decide_eq_true_eq, Bool.not_eq_true', List.isEmpty_eq_false_iff] at hp
  obtain ⟨hlive, hrecords⟩ := (waiters_live hc).mpr hp.2
  exact ⟨c, hc, hp.1.1, hp.1.2, hlive c.2 c.current_mem_visited, hrecords⟩

/-- `c2` asks three times. Its first request is handed the lock, its
other two calls are answered by that lock and leave their entries; when
`c2` releases, the first of these is given the lock. -/
def ghostRun : List (LockAction String String) :=
  [.acquire "r" .exclusive "c1" (.int 30) 0, .acquire "r" .exclusive "c2" (.int 30) 1,
   .acquire "r" .exclusive "c2" (.int 30) 1, .acquire "r" .exclusive "c2" (.int 30) 1,
   .test 0 1, .test 1 1, .test 2 1, .release "r" "c1" 2, .poll 0 2, .poll 0 2, .poll 0 2,
   .release "r" "c2" 3]

theorem ghost_waiter :
    ∃ c : LockRun String String,
      LockSystem.machine.Leads Machine.always ([], LockSystem.init) c ∧
      ¬ WaitersLive c.2 ∧ ¬ RecordsLive c := by
  obtain ⟨c, hc, hp⟩ := Machine.exists_leads_of_exec LockSystem.machine Machine.always
    ([], LockSystem.init) ghostRun
    (fun c => (c.2.manager.waiters "r").any (fun w => decide (¬ InProgress c.2 "r" w.requestId)) &&
      decide (¬ RecordsLive c)) (by decide +kernel)
  simp only [Bool.and_eq_true, List.any_eq_true, decide_eq_true_eq] at hp
  obtain ⟨⟨w, hw, hover⟩, hrecords⟩ := hp
  exact ⟨c, hc, fun hlive => hover (hlive "r" w hw), hrecords⟩

end SyncSystem.Locks

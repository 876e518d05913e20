/-
SyncSystem.Communication.Replies — what `send_and_wait` returns.

Calls of `send_and_wait` for one message type overwrite each other's entry
in `pending_messages`. No reply gets mixed up by this: a call resolves the
future it has made itself, and nothing reads the entries. A call returns
the reply of its own `send_message`, or raises with it; a reply that is
true in Python's sense is returned at once, any other only after
`wait_for` has timed out. The entries are never removed (`waits_told`).
-/
import SyncSystem.Communication.History

namespace SyncSystem.Communication

open SyncSystem.Python

namespace MessageNode

/-- The `send_and_wait` an event is about. -/
def wait? : MessageEvent → Option Nat
  | .handling _ => none
  | .asked k _ => some k
  | .replied k _ => some k
  | .answered k _ => some k
  | .invalid k => some k
  | .failed k => some k

def asked? : MessageEvent → Option String
  | .asked _ msgType => some msgType
  | _ => none

def registered? : MessageAction → Option String
  | .register msgType _ => some msgType
  | _ => none

def events (c : MessageRun) : List MessageEvent := c.1.flatMap Event.output

/-- The future after the reply. -/
def settledBy (v : Json) : FutureState := if v.truthy then .done v else .pending

/-- The state of the future of a call, and what has happened to it. -/
inductive Going (futures : List FutureState) (k : Nat) :
    Option Json → List MessageEvent → Prop where
  | sending (msgType : String) : futures[k]? = some .pending →
      Going futures k none [.asked k msgType]
  | replied (msgType : String) (v : Json) : futures[k]? = some (settledBy v) →
      Going futures k (some v) [.asked k msgType, .replied k v]

/-- A call that has not begun, one that has its answer, or one that has
raised. -/
def Settled (k : Nat) (own : List MessageEvent) : Prop :=
  own = [] ∨ (∃ msgType v, own = [.asked k msgType, .replied k v, .answered k v]) ∨
    ∃ msgType, own = [.asked k msgType, .failed k]

/-- What holds of the calls of `send_and_wait` after any run. -/
structure WaitsTold (c : MessageRun) : Prop where
  own : ∀ k, ∃ msgType v,
    concerning wait? k (events c) <+: [.asked k msgType, .replied k v, .answered k v] ∨
      concerning wait? k (events c) = [.asked k msgType, .failed k]
  ended : ∀ k msgType, .asked k msgType ∈ events c → k ∉ c.2.waiting.map Prod.fst →
    (∃ v, .answered k v ∈ events c) ∨ .failed k ∈ events c
  prompt : ∀ i k v, c.2.waiting[i]? = some (k, some v) →
    (c.2.step (.wake i)).isSome = v.truthy ∧ (c.2.step (.timeOut i)).isSome = !v.truthy
  stats : c.2.getStats =
    [("node_id", .str c.2.node.nodeId), ("peers", .int c.2.node.peers.length),
     ("pending", .int (((events c).filterMap asked?).foldl addOnce []).length),
     ("history_size", .int (returned (handlings c)).length),
     ("handlers", .arr (((c.1.map Event.action).filterMap registered?).foldl addOnce [] |>.map
       .str))]

/-! ## The calls -/

structure Waits (s : MessageNode) (events : List MessageEvent) : Prop where
  tracks : Tracks wait? (Going s.futures) Settled s.waiting events
  issued : ∀ e ∈ events, ∀ k, wait? e = some k → k < s.futures.length

theorem Going.isSome {futures : List FutureState} {k : Nat} {r : Option Json}
    {own : List MessageEvent} (h : Going futures k r own) : k < futures.length := by
  cases h with
  | sending _ hget | replied _ _ hget => exact (List.getElem?_eq_some_iff.mp hget).1

/-- A call depends on its own future. -/
theorem Going.congr {futures futures' : List FutureState} {k : Nat} {r : Option Json}
    {own : List MessageEvent} (h : Going futures k r own) (hsame : futures'[k]? = futures[k]?) :
    Going futures' k r own := by
  cases h with
  | sending msgType hget => exact .sending msgType (hsame.trans hget)
  | replied msgType v hget => exact .replied msgType v (hsame.trans hget)

namespace Waits

variable {s : MessageNode} {events : List MessageEvent}

theorem ask (h : Waits s events) (msgType : String) :
    Waits { s with
        futures := s.futures ++ [.pending]
        pending := s.pending.set msgType s.futures.length
        waiting := s.waiting ++ [(s.futures.length, none)] }
      (events ++ [.asked s.futures.length msgType]) := by
  have hfresh : concerning wait? s.futures.length events = [] := by
    refine concerning_other ?_
    intro e he heq
    exact Nat.lt_irrefl _ (h.issued e he _ heq)
  have hnew : s.futures.length ∉ s.waiting.map Prod.fst := by
    intro hmem
    obtain ⟨⟨k, r⟩, hk, heq⟩ := List.mem_map.mp hmem
    exact Nat.ne_of_lt (h.tracks.going k r hk).isSome heq
  have hbegun : Tracks wait? (Going (s.futures ++ [.pending])) Settled
      ((s.futures.length, none) :: s.waiting) (events ++ [.asked s.futures.length msgType]) := by
    refine h.tracks.begin hnew (by simp [wait?]) ?_ ?_
    · rw [hfresh]
      exact .sending msgType (by simp)
    · intro j r own _ hgoing
      exact hgoing.congr (List.getElem?_append_left hgoing.isSome)
  refine ⟨hbegun.perm (List.perm_append_singleton _ _).symm, ?_⟩
  intro e he k hk
  rw [List.length_append]
  rcases List.mem_append.mp he with he | he
  · have hlt := h.issued e he k hk
    omega
  · rw [List.mem_singleton.mp he] at hk
    cases hk
    simp

/-- The events of a step are about calls that have begun. -/
theorem issued_append (h : Waits s events) {es : List MessageEvent} {k : Nat}
    (hk : k < s.futures.length) (hes : ∀ e ∈ es, wait? e = some k) :
    ∀ e ∈ events ++ es, ∀ j, wait? e = some j → j < s.futures.length := by
  intro e he j hj
  rcases List.mem_append.mp he with he | he
  · exact h.issued e he j hj
  · rw [hes e he] at hj
    cases hj
    exact hk

/-- A call has its reply. -/
theorem reply (h : Waits s events) {i k : Nat} {v : Json} {futures : List FutureState}
    (hi : s.waiting[i]? = some (k, none)) (hlength : futures.length = s.futures.length)
    (hfuture : s.futures[k]? = some .pending → futures[k]? = some (settledBy v))
    (hrest : ∀ j, j ≠ k → futures[j]? = s.futures[j]?) :
    Waits { s with waiting := s.waiting.set i (k, some v), futures := futures }
      (events ++ [.replied k v]) := by
  have hgoing := h.tracks.going k none (List.mem_of_getElem? hi)
  have hk := hgoing.isSome
  obtain ⟨hlt, _⟩ := List.getElem?_eq_some_iff.mp hi
  generalize hown : concerning wait? k events = own at hgoing
  cases hgoing with
  | sending msgType hget =>
    refine ⟨(Tracks.advance (h.tracks.perm (perm_at hi)) (by simp [wait?]) ?_ ?_).perm
      (List.set_perm_cons_eraseIdx hlt _).symm, ?_⟩
    · rw [hown]
      exact .replied msgType v (hfuture hget)
    · intro j r own hj hother
      exact hother.congr (hrest j hj)
    · simp only [hlength]
      exact h.issued_append hk (by simp [wait?])

/-- A call returns the reply it has. -/
theorem answer (h : Waits s events) {i k : Nat} {v : Json} {futures : List FutureState}
    (hi : s.waiting[i]? = some (k, some v)) (hlength : futures.length = s.futures.length)
    (hrest : ∀ j, j ≠ k → futures[j]? = s.futures[j]?) :
    Waits { s with futures := futures, waiting := s.waiting.eraseIdx i }
      (events ++ [.answered k v]) := by
  have hgoing := h.tracks.going k (some v) (List.mem_of_getElem? hi)
  have hk := hgoing.isSome
  generalize hown : concerning wait? k events = own at hgoing
  cases hgoing with
  | replied msgType _ hget =>
    refine ⟨Tracks.finish (h.tracks.perm (perm_at hi)) (by simp [wait?]) ?_ ?_, ?_⟩
    · rw [hown]
      exact .inr (.inl ⟨msgType, v, rfl⟩)
    · intro j r own hj hother
      exact hother.congr (hrest j hj)
    · simp only [hlength]
      exact h.issued_append hk (by simp [wait?])

/-- A call raises without a reply. -/
theorem fail (h : Waits s events) {i k : Nat} (hi : s.waiting[i]? = some (k, none)) :
    Waits { s with waiting := s.waiting.eraseIdx i } (events ++ [.failed k]) := by
  have hgoing := h.tracks.going k none (List.mem_of_getElem? hi)
  have hk := hgoing.isSome
  generalize hown : concerning wait? k events = own at hgoing
  cases hgoing with
  | sending msgType hget =>
    refine ⟨Tracks.finish (h.tracks.perm (perm_at hi)) (by simp [wait?]) ?_
      (fun _ _ _ _ hother => hother), h.issued_append hk (by simp [wait?])⟩
    rw [hown]
    exact .inr (.inr ⟨msgType, rfl⟩)

/-- The future of a call that has its reply. -/
theorem settled_future (h : Waits s events) {i k : Nat} {v : Json}
    (hi : s.waiting[i]? = some (k, some v)) : s.futures[k]? = some (settledBy v) := by
  have hgoing := h.tracks.going k (some v) (List.mem_of_getElem? hi)
  generalize concerning wait? k events = own at hgoing
  cases hgoing with
  | replied _ _ hget => exact hget

/-- The future of a call that waits for its reply. -/
theorem pending_future (h : Waits s events) {i k : Nat}
    (hi : s.waiting[i]? = some (k, none)) : s.futures[k]? = some .pending := by
  have hgoing := h.tracks.going k none (List.mem_of_getElem? hi)
  generalize concerning wait? k events = own at hgoing
  cases hgoing with
  | sending _ hget => exact hget

theorem effect (h : Waits s events) {a : MessageAction} {s' : MessageNode}
    {out : List MessageEvent} (hs : Effect s a s' out) : Waits s' (events ++ out) := by
  -- a step of another function
  have hother : s'.futures = s.futures → s'.waiting = s.waiting →
      (∀ e ∈ out, wait? e = none) → Waits s' (events ++ out) := by
    intro hfutures hwaiting hnone
    refine ⟨?_, ?_⟩
    · rw [hfutures, hwaiting]
      exact h.tracks.silent hnone
    · intro e he k hk
      rw [hfutures]
      rcases List.mem_append.mp he with he | he
      · exact h.issued e he k hk
      · rw [hnone e he] at hk
        cases hk
  have hset : ∀ (k : Nat) (f : FutureState) (j : Nat), j ≠ k →
      (s.futures.set k f)[j]? = s.futures[j]? :=
    fun k f j hj => List.getElem?_set_ne (Ne.symm hj)
  cases hs with
  | registered | begun => exact hother rfl rfl (by simp [wait?])
  | handledAtOnce msg _ _ _ ends uuid now _ e _ hs =>
    cases ends <;> cases hs <;> exact hother rfl rfl (by simp [wait?])
  | resumed i k msg left succeeds uuid now _ e _ hs =>
    cases succeeds <;> cases hs <;> exact hother rfl rfl (by simp [wait?])
  | sendFailed i k hi => exact h.fail hi
  | asked msgType => exact h.ask msgType
  | resolved i k v hi htrue hpending =>
    refine h.reply hi List.length_set (fun _ => ?_) (hset k _)
    have hlt := (List.getElem?_eq_some_iff.mp hpending).1
    simp [settledBy, htrue, hlt]
  | unresolved i k v hi hfalse =>
    refine h.reply hi rfl (fun hget => ?_) (fun _ _ => rfl)
    simpa [settledBy, hfalse] using hget
  | invalid i k v hi hnot => exact absurd (h.pending_future hi) hnot
  | woken i k v value hi hdone =>
    -- the value of the future is the reply
    have hfuture := h.settled_future hi
    rw [hdone, settledBy] at hfuture
    split at hfuture
    · cases hfuture
      exact h.answer hi rfl (fun _ _ => rfl)
    · cases hfuture
  | cancelled i k v hi hcancelled =>
    have hfuture := h.settled_future hi
    rw [hcancelled, settledBy] at hfuture
    split at hfuture <;> cases hfuture
  | timedOut i k v hi _ => exact h.answer hi List.length_set (hset k _)

end Waits

/-! ## The figures -/

/-- The keys of the two dicts. -/
structure Listed (s : MessageNode) (asked registered : List String) : Prop where
  pending : s.pending.keys = asked.foldl addOnce []
  handlers : s.handlers.keys = registered.foldl addOnce []

theorem Listed.effect {s s' : MessageNode} {asked registered : List String} {a : MessageAction}
    {out : List MessageEvent} (h : Listed s asked registered) (hs : Effect s a s' out) :
    Listed s' (asked ++ out.filterMap asked?) (registered ++ [a].filterMap registered?) := by
  have hother : s'.pending = s.pending → s'.handlers = s.handlers → out.filterMap asked? = [] →
      [a].filterMap registered? = [] →
      Listed s' (asked ++ out.filterMap asked?) (registered ++ [a].filterMap registered?) := by
    intro hpending hhandlers hasked hregistered
    rw [hasked, hregistered, List.append_nil, List.append_nil]
    exact ⟨hpending ▸ h.pending, hhandlers ▸ h.handlers⟩
  cases hs with
  | registered msgType handler =>
    refine ⟨by simpa using h.pending, ?_⟩
    simp [registered?, Dict.keys_set, h.handlers]
  | asked msgType =>
    refine ⟨?_, by simpa [List.filterMap_cons, registered?] using h.handlers⟩
    simp [asked?, Dict.keys_set, h.pending]
  | handledAtOnce msg _ _ _ ends uuid now _ e _ hs =>
    cases ends <;> cases hs <;> exact hother rfl rfl rfl rfl
  | resumed i k msg left succeeds uuid now _ e _ hs =>
    cases succeeds <;> cases hs <;> exact hother rfl rfl rfl rfl
  | _ => exact hother rfl rfl rfl rfl

variable {nodeId : String} {peers : List String} {c : MessageRun}

theorem waits_of_leads (h : machine.Leads Machine.always ([], .init nodeId peers) c) :
    Waits c.2 (events c) := by
  refine h.invariant (I := fun c => Waits c.2 (events c)) ?_ ?_
  · refine ⟨⟨List.nodup_nil, ?_, ?_⟩, ?_⟩
    · intro k r hk
      cases hk
    · intro k _
      exact .inl rfl
    · intro e he
      cases he
  · intro c a s' out _ ih _ hs
    have hevents : events (c.push a s' out) = events c ++ out := by simp [events]
    rw [hevents]
    exact ih.effect (step_effect hs)

theorem listed_of_leads (h : machine.Leads Machine.always ([], .init nodeId peers) c) :
    Listed c.2 ((events c).filterMap asked?) ((c.1.map Event.action).filterMap registered?) := by
  refine h.invariant (I := fun c => Listed c.2 ((events c).filterMap asked?)
    ((c.1.map Event.action).filterMap registered?)) ⟨rfl, rfl⟩ ?_
  intro c a s' out _ ih _ hs
  have hnext := ih.effect (step_effect hs)
  simpa [events, List.filterMap_append] using hnext

/-- **No replies are mixed up.** In every run, however the calls of
`send_and_wait` overlap, what happens to one of them is an initial part of
this: it asks, its `send_message` returns, and it returns the same; or it
asks, and raises because its `send_message` does. It is over when it has
returned or raised, a true reply needs no time-out to be returned and any
other does; and the figures of `get_stats` are the numbers of types asked
for at any time and of messages handled, and the types with a handler in
the order in which they got one. -/
theorem waits_told {nodeId : String} {peers : List String} {c : MessageRun}
    (h : machine.Leads Machine.always ([], .init nodeId peers) c) : WaitsTold c := by
  have hw := waits_of_leads h
  have hl := listed_of_leads h
  refine ⟨?_, ?_, ?_, ?_⟩
  · intro k
    rcases hw.tracks.cases k with ⟨r, _, hgoing⟩ | ⟨_, hown | ⟨msgType, v, hown⟩ | ⟨msgType, hown⟩⟩
    · generalize concerning wait? k (events c) = own at hgoing
      cases hgoing with
      | sending msgType _ => exact ⟨msgType, .null, .inl (by simp)⟩
      | replied msgType v _ => exact ⟨msgType, v, .inl (by simp)⟩
    · exact ⟨"", .null, .inl (by simp [hown])⟩
    · exact ⟨msgType, v, .inl (by simp [hown])⟩
    · exact ⟨msgType, .null, .inr hown⟩
  · intro k msgType hasked hended
    have hmem : MessageEvent.asked k msgType ∈ concerning wait? k (events c) :=
      (mem_concerning wait? rfl).mpr hasked
    rcases hw.tracks.settled k hended with hown | ⟨msgType', v, hown⟩ | ⟨msgType', hown⟩
    · simp [hown] at hmem
    · have hanswered : MessageEvent.answered k v ∈ concerning wait? k (events c) := by simp [hown]
      exact .inl ⟨v, (mem_concerning wait? rfl).mp hanswered⟩
    · have hfailed : MessageEvent.failed k ∈ concerning wait? k (events c) := by simp [hown]
      exact .inr ((mem_concerning wait? rfl).mp hfailed)
  · intro i k v hi
    have hfuture := hw.settled_future hi
    cases htrue : v.truthy <;> simp [MessageNode.step, hi, hfuture, settledBy, htrue]
  · have hhistory := (handled_of_leads h).recorded.length_eq
    simp only [getStats, ← Dict.length_keys, hl.pending, hl.handlers, hhistory]

/-- Three calls ask for the same type; the second gets its reply first,
the first gets an empty one, and the third fails. -/
def sharedTypeRun : List MessageAction :=
  [.sendAndWait "ping", .sendAndWait "ping", .sendAndWait "ping",
   .reply 1 (.obj [("ok", .bool true)]), .sendFails 2, .reply 0 (.obj []), .wake 1]

theorem waits_told_sharedTypeRun :
    ∃ c, machine.Leads Machine.always ([], .init "n" ["p"]) c ∧
      (c.2.step (.wake 0)).isSome = false ∧ (c.2.step (.timeOut 0)).isSome = true ∧
      c.2.getStats = [("node_id", .str "n"), ("peers", .int 1), ("pending", .int 1),
        ("history_size", .int 0), ("handlers", .arr [])] := by
  obtain ⟨c, hc, hp⟩ := Machine.exists_leads_of_exec machine Machine.always ([], .init "n" ["p"])
    sharedTypeRun (fun (c : MessageRun) =>
      ((c.2.waiting[0]?).any fun w => w.2.any fun v => !v.truthy) &&
      decide (c.2.node.nodeId = "n" ∧ c.2.node.peers.length = 1 ∧
        (((events c).filterMap asked?).foldl addOnce []).length = 1 ∧
        (returned (handlings c)).length = 0 ∧
        (c.1.map Event.action).filterMap registered? = [])) (by decide +kernel)
  obtain ⟨hwaits, hfigures⟩ := Bool.and_eq_true_iff.mp hp
  obtain ⟨hnode, hpeers, hpending, hhistory, hhandlers⟩ := of_decide_eq_true hfigures
  obtain ⟨⟨k, reply⟩, hfirst, hreply⟩ := (Option.any_eq_true _ _).mp hwaits
  obtain ⟨v, hv, hfalse⟩ := (Option.any_eq_true _ _).mp hreply
  have hfalse : v.truthy = false := by simpa using hfalse
  have htold := waits_told hc
  obtain ⟨hwake, htimeout⟩ := htold.prompt 0 k v (hv ▸ hfirst)
  have hstats := htold.stats
  rw [hnode, hpeers, hpending, hhistory, hhandlers] at hstats
  exact ⟨c, hc, hwake.trans hfalse, htimeout.trans (by rw [hfalse]; rfl), hstats⟩

end MessageNode

end SyncSystem.Communication

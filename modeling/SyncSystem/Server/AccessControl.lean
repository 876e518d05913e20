/-
SyncSystem.Server.AccessControl — what a request without the right token
can do.

The check and the dispatcher are two pieces of code that read the request
separately: the check is skipped for internal message types and falsy
actions, and goes by prefixes; the dispatcher goes by equality. They fit
together because every action that calls a component is a non-empty
string, and none of them is a longer string with the prefix of another
role. So a request that is not `Permitted` calls no component at all
(`silent_of_not_permitted`), and then neither changes nor learns
anything, whatever the components are (`access_control`).
-/
import SyncSystem.Server.Request

namespace SyncSystem.Server

open SyncSystem.Python
open SyncSystem.Raft (RaftNode)

/-- The token is the admin key, or the key of a role that has this very
action. -/
def Permitted (keys : Keys) (request : Obj) : Prop :=
  let action := Obj.get request "action" (.str "")
  let token := Obj.get request "token" (.str "")
  token = .str keys.admin ∨
    (action = .str "queue_enqueue" ∧ token = .str keys.producer) ∨
    (action = .str "queue_dequeue" ∧ token = .str keys.consumer) ∨
    (action = .str "cache_read" ∧ (token = .str keys.producer ∨ token = .str keys.consumer))

/-- The actions that call a component. -/
def componentActions : List String :=
  ["lock_acquire", "lock_release", "lock_status", "get_all_locks", "queue_enqueue",
   "queue_dequeue", "queue_ack", "queue_stats", "cache_read", "cache_write", "cache_stats",
   "get_status"]

/-- The dispatcher calls a component for these actions only. -/
theorem performAction_silent {s : NodeServer} {request : Obj}
    (h : ∀ a ∈ componentActions, Obj.get request "action" .null ≠ .str a) :
    (performAction s request).Silent := by
  have hne : ∀ a ∈ componentActions,
      ¬ ((Obj.get request "action" .null).pyEq (.str a) = true) := by
    intro a ha heq
    exact h a ha (pyEq_str_right.mp heq)
  simp only [componentActions, List.forall_mem_cons] at hne
  obtain ⟨h₁, h₂, h₃, h₄, h₅, h₆, h₇, h₈, h₉, h₁₀, h₁₁, h₁₂, _⟩ := hne
  unfold performAction
  rw [if_neg h₁, if_neg h₂, if_neg h₃, if_neg h₄, if_neg h₅, if_neg h₆, if_neg h₇, if_neg h₈,
    if_neg h₉, if_neg h₁₀, if_neg h₁₁, if_neg h₁₂]
  split <;> exact Program.silent_done _

/-! ## The check and the dispatcher agree -/

/-- Among the actions of the dispatcher, a prefix of the check is the
whole action. -/
theorem eq_of_startsWith : ∀ a ∈ componentActions,
    (startsWith a "queue_enqueue" = true → a = "queue_enqueue") ∧
    (startsWith a "queue_dequeue" = true → a = "queue_dequeue") ∧
    (startsWith a "cache_read" = true → a = "cache_read") := by
  decide +kernel

theorem truthy_of_mem_componentActions : ∀ a ∈ componentActions, (Json.str a).truthy = true := by
  decide +kernel

theorem isIn_pair {token : Json} {k l : String} (h : token.isIn [.str k, .str l] = true) :
    token = .str k ∨ token = .str l := by
  simpa [Json.isIn, pyEq_str_left] using h

/-- The action is one the dispatcher knows, the request is not internal,
and it passes the check: then it is permitted. -/
theorem permitted_of_authorize {keys : Keys} {request : Obj} {a : String}
    (ha : a ∈ componentActions) (haction : Obj.get request "action" (.str "") = .str a)
    (hext : isInternalType (Obj.get request "type" (.str "")) = false)
    (h : authorize keys (Obj.get request "type" (.str "")) (Obj.get request "action" (.str ""))
      (Obj.get request "token" (.str "")) = .ok true) : Permitted keys request := by
  obtain ⟨henq, hdeq, hread⟩ := eq_of_startsWith a ha
  unfold authorize at h
  rw [haction, hext, truthy_of_mem_componentActions a ha] at h
  simp only [Bool.not_true, Bool.or_self, Bool.false_eq_true, if_false] at h
  unfold Permitted
  simp only [haction, Json.str.injEq]
  split at h
  · next hadmin => exact Or.inl (pyEq_str_right.mp hadmin)
  · simp only [Except.ok.injEq, Bool.or_eq_true, Bool.and_eq_true] at h
    rcases h with (⟨hpre, htok⟩ | ⟨hpre, htok⟩) | ⟨hpre, htok⟩
    · exact Or.inr (Or.inl ⟨henq hpre, pyEq_str_right.mp htok⟩)
    · exact Or.inr (Or.inr (Or.inl ⟨hdeq hpre, pyEq_str_right.mp htok⟩))
    · exact Or.inr (Or.inr (Or.inr ⟨hread hpre, isIn_pair htok⟩))

/-- The two defaults of `action` agree on strings that are not empty. -/
theorem get_action_of_null {request : Obj} {a : String}
    (h : Obj.get request "action" .null = .str a) :
    Obj.get request "action" (.str "") = .str a := by
  unfold Obj.get at h ⊢
  cases hl : request.lookup "action" with
  | none => simp [hl] at h
  | some v => simpa [hl] using h

/-! ## Which requests reach the dispatcher -/

theorem internal_iff {v : Json} :
    isInternalType v = (isRaftType v || v.pyEq (.str "fd_heartbeat")) := by
  cases v with
  | str s =>
    simp only [isInternalType, isRaftType, Json.isIn, List.any_cons, List.any_nil, pyEq_str_str,
      Bool.or_false, Bool.or_assoc]
    rw [show (("fd_heartbeat" : String) == s) = (s == "fd_heartbeat") from BEq.comm]
  | _ => simp [isInternalType, isRaftType, Json.isIn, Json.pyEq, Json.num?]

/-- A reply that does not say `success`. -/
def NoSuccess (reply : Option Obj) : Prop :=
  reply.any (fun r => (Obj.get r "success" (.bool false)).truthy) = false

theorem noSuccess_serveRaft (s : NodeServer) (request : Obj) {reply : RaftNode → Obj}
    (h : ∀ n, (Obj.get (reply n) "success" (.bool false)).truthy = false) :
    NoSuccess (serveRaft s request reply).reply := by
  simp only [NoSuccess, serveRaft]
  split
  · simp [h]
  · rfl

/-- A request that goes on to the dispatcher has passed the check and is
not internal; any other calls no component. -/
theorem handleRequest_cases (keys : Keys) (s : NodeServer) (now : Rat) (request : Obj) :
    (∃ served, handleRequest keys s now request = .done served ∧ NoSuccess served.reply) ∨
    (authorize keys (Obj.get request "type" (.str "")) (Obj.get request "action" (.str ""))
        (Obj.get request "token" (.str "")) = .ok true ∧
      isInternalType (Obj.get request "type" (.str "")) = false ∧
      handleRequest keys s now request =
        (performAction s request).map fun response => ⟨s, [], response.toOption⟩) := by
  simp only [handleRequest]
  cases hauth : authorize keys (Obj.get request "type" (.str ""))
      (Obj.get request "action" (.str "")) (Obj.get request "token" (.str "")) with
  | error e => exact Or.inl ⟨_, rfl, rfl⟩
  | ok allowed =>
    cases allowed with
    | false => exact Or.inl ⟨_, rfl, rfl⟩
    | true =>
      simp only
      split
      · exact Or.inl ⟨_, rfl, noSuccess_serveRaft s request (fun _ => rfl)⟩
      · next hr =>
        split
        · split
          · exact Or.inl ⟨_, rfl, rfl⟩
          · exact Or.inl ⟨_, rfl, rfl⟩
        · next hfd =>
          unfold processRequest
          split
          · exact Or.inl ⟨_, rfl, noSuccess_serveRaft s request (fun _ => rfl)⟩
          · refine Or.inr ⟨trivial, ?_, rfl⟩
            rw [internal_iff, Bool.or_eq_false_iff]
            exact ⟨by simpa using hr, by simpa using hfd⟩

/-- A Raft or failure-detector message calls no component. -/
theorem silent_of_internal {keys : Keys} {s : NodeServer} {now : Rat} {request : Obj}
    (h : isInternalType (Obj.get request "type" (.str "")) = true) :
    (handleRequest keys s now request).Silent := by
  rcases handleRequest_cases keys s now request with ⟨served, heq, _⟩ | ⟨_, hext, _⟩
  · exact ⟨served, heq⟩
  · rw [h] at hext
    cases hext

/-- A request that is not permitted calls no component. -/
theorem silent_of_not_permitted {keys : Keys} {s : NodeServer} {now : Rat} {request : Obj}
    (h : ¬ Permitted keys request) : (handleRequest keys s now request).Silent := by
  rcases handleRequest_cases keys s now request with ⟨served, heq, _⟩ | ⟨hauth, hext, heq⟩
  · exact ⟨served, heq⟩
  · rw [heq]
    refine (performAction_silent ?_).map _
    intro a ha haction
    exact h (permitted_of_authorize ha (get_action_of_null haction) hext hauth)

/-! ## Access control -/

/-- **Access control cannot be bypassed.** A request that is not
permitted, or is an internal message, has one outcome for all
implementations and states of the lock manager, the queue and the cache,
and leaves them as they are. -/
theorem access_control {keys : Keys} {s : NodeServer} {now : Rat} {request : Obj}
    (h : ¬ Permitted keys request ∨
      isInternalType (Obj.get request "type" (.str "")) = true) :
    ∃ served, ∀ (χ : Type) (H : Handler components χ) (state : χ),
      (handleRequest keys s now request).run H state = (served, state) := by
  rcases h with h | h
  · exact (silent_of_not_permitted h).run_eq
  · exact (silent_of_internal h).run_eq

def demoKeys : Keys := ⟨"admin-secret-key-change-this", "producer-key", "consumer-key"⟩

def demoServer : NodeServer where
  nodeId := "node_1"
  nodeType := "lock_manager"
  raft := .init "node_1" [] 8001
  failureDetector := .init "node_1" [] 30 0

/-- A consumer that tries an action whose name only begins like its own. -/
theorem access_control_prefix :
    ∃ served, ∀ (χ : Type) (H : Handler components χ) (state : χ),
      (handleRequest demoKeys demoServer 0
        [("action", .str "queue_dequeue_all"), ("token", .str "consumer-key")]).run H state =
          (served, state) := by
  refine access_control (Or.inl ?_)
  rintro (h | ⟨h, _⟩ | ⟨h, _⟩ | ⟨h, _⟩) <;> exact absurd (Json.str.inj h) (by decide)

end SyncSystem.Server

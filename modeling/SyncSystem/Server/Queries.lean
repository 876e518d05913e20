/-
SyncSystem.Server.Queries — the reply to a request for one action.

A request that is no Raft message is answered by the branch of
`process_request` for its action. A branch that returns has got through
all of its calls, so what it returns is what its last part builds.
-/
import SyncSystem.Server.CacheRequests

namespace SyncSystem.Server

open SyncSystem.Python

/-- The request is for this action. -/
def isFor (action : String) (request : Obj) : Bool :=
  !isRaftRequest request && (Obj.get request "action" .null).pyEq (.str action)

/-- The reply is that of the branch for the action. -/
theorem reply_of_isFor (s : NodeServer) {action : String} {request : Obj}
    (h : isFor action request = true) {χ : Type} (H : Handler components χ) (state : χ) :
    ((processRequest s request).run H state).1.reply =
        ((performAction s request).run H state).1.toOption ∧
      Obj.get request "action" .null = .str action := by
  obtain ⟨hraft, haction⟩ := Bool.and_eq_true_iff.mp h
  rw [Bool.not_eq_true', isRaftRequest] at hraft
  refine ⟨?_, pyEq_str_right.mp haction⟩
  simp only [processRequest, hraft, Bool.false_eq_true, if_false, Program.run_map]

/-- A part of a request that returns has gone on after its call. -/
theorem exists_of_invoke {χ : Type} {H : Handler components χ} (call : ServerCall)
    {k : call.Result → Action} {state : χ} {answer : Obj}
    (h : ((invoke call k).run H state).1 = .ok answer) :
    ∃ r state', ((k r).run H state').1 = .ok answer := by
  rw [run_invoke] at h
  split at h
  · cases h
  · exact ⟨_, _, h⟩

end SyncSystem.Server

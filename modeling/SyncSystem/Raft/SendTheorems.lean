/-
SyncSystem.Raft.SendTheorems — whether a node's announcements of its
role are true.

`_request_vote` and `_send_heartbeat` are started by a candidate and a
leader, but they read `current_term` when their connection is open. What
is true in every run is that the node has had the role in the term in
which it decided to send (`pending_role`). The message carries the term
of the moment it is built, so it is truthful when the two terms agree
(`announcements_truthful`); `lateRun` shows a node that announces itself
in a term in which it had neither role.
-/
import SyncSystem.Raft.Process

namespace SyncSystem.Raft

open SyncSystem.Python

/-! ## Roles had and roles announced -/

/-- The node has been in `role` with term `T`. -/
def HasBeen (role : RaftState) (T : Rat) (visited : List RaftProcess) : Prop :=
  ∃ p ∈ visited, p.node.state = role ∧ p.node.currentTerm = T

instance (role : RaftState) (T : Rat) (visited : List RaftProcess) :
    Decidable (HasBeen role T visited) :=
  inferInstanceAs (Decidable (∃ p ∈ visited, p.node.state = role ∧ p.node.currentTerm = T))

theorem HasBeen.mono {role : RaftState} {T : Rat} {v w : List RaftProcess}
    (h : HasBeen role T v) (hsub : v ⊆ w) : HasBeen role T w := by
  obtain ⟨p, hp, hr⟩ := h
  exact ⟨p, hsub hp, hr⟩

/-- The packet is a message of this type with term `T`. -/
def Announces (pkt : Packet) (type : String) (T : Rat) : Prop :=
  Obj.get pkt.msg "type" (.str "") = .str type ∧
    (Obj.get pkt.msg "term" (.int 0)).num? = some T

/-- A heartbeat comes from a node that has been leader in its term, a
vote request from one that has been candidate in it. -/
def Truthful (visited : List RaftProcess) (pkt : Packet) : Prop :=
  (∀ T, Announces pkt "heartbeat" T → HasBeen .leader T visited) ∧
    (∀ T, Announces pkt "request_vote" T → HasBeen .candidate T visited)

/-- Every packet the node has written so far was truthful when it was. -/
def SentTruthfully (c : NodeConfig) : Prop :=
  EveryStep (fun before _ out => ∀ pkt ∈ out, Truthful before.visited pkt) c.1

/-! ## The invariant of the pending tasks -/

/-- The node has had the task's role in the term the task was decided in. -/
def Pending.Founded (visited : List RaftProcess) (t : Pending) : Prop :=
  ∀ role, t.task.role = some role → HasBeen role t.born visited

theorem Pending.Founded.mono {v w : List RaftProcess} {t : Pending} (h : t.Founded v)
    (hsub : v ⊆ w) : t.Founded w :=
  fun role hr => (h role hr).mono hsub

/-- A task that a step starts is founded in the states before and after it. -/
theorem founded_started {c : NodeConfig} {a : NodeAction} {p' : RaftProcess} {out : List Packet}
    {t : Pending} (ih : ∀ t ∈ c.2.pending, t.Founded c.visited)
    (h : c.2.step a = some (p', out)) (ht : RaftProcess.Started c.2 a t) :
    t.Founded (c.visited ++ [p']) := by
  have hafter : p' ∈ c.visited ++ [p'] := by simp
  have hbefore : c.2 ∈ c.visited ++ [p'] := List.mem_append_left _ c.current_mem_visited
  cases ht with
  | elected peer =>
    rintro role hr
    cases hr
    cases h
    exact ⟨_, hafter, rfl, rfl⟩
  | ticked peer hl =>
    rintro role hr
    cases hr
    exact ⟨c.2, hbefore, hl, rfl⟩
  | answered msg k hk =>
    intro role hr
    obtain ⟨rfl, hl⟩ := (handleMessage_effect c.2.node msg).role_task hk hr
    cases h
    exact ⟨_, hafter, hl, rfl⟩
  | fanned k peer born hk =>
    -- `_send_heartbeats` hands its own role on
    have hfan := (ih _ (List.mem_of_getElem? hk)).mono (List.subset_append_left _ [p'])
    exact fun role hr => hfan role hr

theorem founded_step {c : NodeConfig} {a : NodeAction} {p' : RaftProcess} {out : List Packet}
    (ih : ∀ t ∈ c.2.pending, t.Founded c.visited) (h : c.2.step a = some (p', out)) :
    ∀ t ∈ p'.pending, t.Founded (c.visited ++ [p']) := by
  intro t ht
  rcases RaftProcess.pending_step h ht with hold | hnew
  · exact (ih t hold).mono (List.subset_append_left _ _)
  · exact founded_started ih h hnew

/-- In every run, each pending task was decided on in a term in which
the node has had the role the task is about to announce. -/
theorem pending_role {ok : NodeConfig → NodeAction → Prop} {p₀ : RaftProcess} {c : NodeConfig}
    (h₀ : p₀.pending = []) (h : RaftProcess.machine.Leads ok ([], p₀) c) :
    ∀ t ∈ c.2.pending, t.Founded c.visited := by
  refine h.invariant (I := fun c => ∀ t ∈ c.2.pending, t.Founded c.visited) ?_ ?_
  · intro t ht
    rw [h₀] at ht
    cases ht
  · intro d a s' b _ ih _ hs
    rw [Config.visited_push]
    exact founded_step ih hs

/-! ## Messages built in the term of the decision -/

/-- The tasks that write a message announcing a role; `_send_heartbeats`
only starts others. -/
def SendTask.announces : SendTask → Bool
  | .requestVote _ _ _ => true
  | .heartbeat _ => true
  | .heartbeats => false
  | .voteResponse _ _ => false

/-- A vote request or heartbeat is built only while the node is still in
the term in which it decided to send it. -/
abbrev BuildsInOwnTerm (c : NodeConfig) : NodeAction → Prop
  | .resume k => (c.2.pending[k]?.all fun t =>
      !t.task.announces || t.born == c.2.node.currentTerm) = true
  | _ => True

instance (c : NodeConfig) (a : NodeAction) : Decidable (BuildsInOwnTerm c a) :=
  NodeAction.decidable a

/-- What a task writes announces its own role, in the node's term. -/
theorem SendTask.announced {n : RaftNode} {k : SendTask} {pkt : Packet} {T : Rat}
    (h : pkt ∈ (k.resume n).1) :
    (Announces pkt "heartbeat" T →
      k.announces = true ∧ k.role = some .leader ∧ T = n.currentTerm) ∧
    (Announces pkt "request_vote" T →
      k.announces = true ∧ k.role = some .candidate ∧ T = n.currentTerm) := by
  cases SendTask.writes h with
  | requestVote peer i t port => simp [Announces, announces, role, eq_comm]
  | heartbeat peer port => simp [Announces, announces, role, eq_comm]
  | voteResponse receiver granted port _ => simp [Announces]

/-- **Role messages built in the term of their decision are truthful.** -/
theorem announcements_truthful {nodeId : String} {peers : List String} {port : Nat}
    {c : NodeConfig} (h : RaftProcess.machine.Leads BuildsInOwnTerm
      ([], RaftProcess.init nodeId peers port) c) : SentTruthfully c := by
  refine h.everyStep ?_
  intro d a s' out hreach hok hs pkt hpkt
  have hfounded := pending_role rfl hreach
  obtain ⟨k, t, rfl, ht, hmem⟩ := RaftProcess.output_step hs hpkt
  have hown : t.task.announces = true → t.born = d.2.node.currentTerm := by
    intro hann
    have hok' : (!t.task.announces || t.born == d.2.node.currentTerm) = true := by
      simpa [BuildsInOwnTerm, ht] using hok
    simpa [hann] using hok'
  have key : ∀ role T, t.task.announces = true ∧ t.task.role = some role ∧
      T = d.2.node.currentTerm → HasBeen role T d.visited := by
    rintro role T ⟨hann, hrole, rfl⟩
    rw [← hown hann]
    exact hfounded t (List.mem_of_getElem? ht) role hrole
  exact ⟨fun T hT => key .leader T ((SendTask.announced hmem).1 hT),
    fun T hT => key .candidate T ((SendTask.announced hmem).2 hT)⟩

/-- Some packet of this type and term has been written. -/
def hasSent (c : NodeConfig) (type : String) (T : Rat) : Bool :=
  c.1.any fun e => e.output.any fun pkt =>
    (Obj.get pkt.msg "type" (.str "")).pyEq (.str type) &&
      (Obj.get pkt.msg "term" (.int 0)).num? == some T

theorem exists_of_hasSent {c : NodeConfig} {type : String} {T : Rat}
    (h : hasSent c type T = true) : ∃ e ∈ c.1, ∃ pkt ∈ e.output, Announces pkt type T := by
  simp only [hasSent, List.any_eq_true, Bool.and_eq_true, beq_iff_eq] at h
  obtain ⟨e, he, pkt, hpkt, hty, ht⟩ := h
  exact ⟨e, he, pkt, hpkt, pyEq_str_right.mp hty, ht⟩

/-- A leader of term 1 whose messages are all built in time. -/
def timelyRun : List NodeAction :=
  [.electionTimeout, .resume 0,
   .receive [("type", .str "vote_response"), ("term", .int 1), ("sender_id", .str "n2"),
     ("granted", .bool true)],
   .resume 0, .resume 0]

theorem announcements_truthful_timelyRun :
    ∃ c, RaftProcess.machine.Leads BuildsInOwnTerm
        ([], RaftProcess.init "n1" ["127.0.0.1:8002"] 8001) c ∧
      hasSent c "request_vote" 1 = true ∧ hasSent c "heartbeat" 1 = true ∧
      SentTruthfully c := by
  obtain ⟨c, hc, hp⟩ := Machine.exists_leads_of_exec RaftProcess.machine BuildsInOwnTerm
    ([], RaftProcess.init "n1" ["127.0.0.1:8002"] 8001) timelyRun
    (fun c => hasSent c "request_vote" 1 && hasSent c "heartbeat" 1) (by decide +kernel)
  rw [Bool.and_eq_true] at hp
  exact ⟨c, hc, hp.1, hp.2, announcements_truthful hc⟩

/-! ## Messages built after the term has moved on -/

/-- What was written truthfully is true of the whole run. -/
theorem SentTruthfully.truthful {c : NodeConfig} (h : SentTruthfully c)
    {e : Event RaftProcess NodeAction (List Packet)} (he : e ∈ c.1) {pkt : Packet}
    (hpkt : pkt ∈ e.output) : Truthful c.visited pkt := by
  obtain ⟨h₁, h₂, heq⟩ := List.append_of_mem he
  have hsub : Config.visited (h₁, e.before) ⊆ c.visited := by
    simp only [Config.visited, heq, List.map_append, List.map_cons]
    intro p hp
    simp only [List.mem_append, List.mem_cons] at hp ⊢
    tauto
  obtain ⟨hl, hc⟩ := h h₁ e h₂ heq pkt hpkt
  exact ⟨fun T hT => (hl T hT).mono hsub, fun T hT => (hc T hT).mono hsub⟩

/-- A leader of term 1 learns of term 5 while a vote request and a
heartbeat are still waiting for their connections. -/
def lateRun : List NodeAction :=
  [.electionTimeout,
   .receive [("type", .str "vote_response"), ("term", .int 1), ("sender_id", .str "n2"),
     ("granted", .bool true)],
   .heartbeatTick,
   .receive [("type", .str "heartbeat"), ("term", .int 5), ("sender_id", .str "n2")],
   .resume 0, .resume 1]

/-- The deposed leader sends a vote request and a heartbeat of term 5,
in which it has been neither candidate nor leader. -/
theorem late_announcements :
    ∃ c, RaftProcess.machine.Leads Machine.always
        ([], RaftProcess.init "n1" ["127.0.0.1:8002"] 8001) c ∧
      (hasSent c "request_vote" 5 = true ∧ ¬ HasBeen .candidate 5 c.visited) ∧
      (hasSent c "heartbeat" 5 = true ∧ ¬ HasBeen .leader 5 c.visited) ∧
      ¬ SentTruthfully c := by
  obtain ⟨c, hc, hp⟩ := Machine.exists_leads_of_exec RaftProcess.machine Machine.always
    ([], RaftProcess.init "n1" ["127.0.0.1:8002"] 8001) lateRun
    (fun c => (hasSent c "request_vote" 5 && !decide (HasBeen .candidate 5 c.visited)) &&
      (hasSent c "heartbeat" 5 && !decide (HasBeen .leader 5 c.visited))) (by decide +kernel)
  simp only [Bool.and_eq_true, Bool.not_eq_true', decide_eq_false_iff_not] at hp
  refine ⟨c, hc, hp.1, hp.2, ?_⟩
  intro htruth
  obtain ⟨e, he, pkt, hpkt, hann⟩ := exists_of_hasSent hp.2.1
  exact hp.2.2 ((htruth.truthful he hpkt).1 5 hann)

end SyncSystem.Raft

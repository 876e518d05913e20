/-
SyncSystem.Raft.VoteResponses — whether the granted votes a node sends
in one term go to one candidate.

The vote is decided under the mutex and is one per term. The response is
built later, in a task of its own, with the term the node has then: two
votes of different terms can leave with the same term
(`two_grants_of_one_term`). In a run whose grants are built in the term
they were given in, a term's grants go to the candidate of that term
(`grants_to_one_candidate`), if terms are whole: an election of a node
whose term is a float from 2 ** 53 on may leave it in the same term, with
its vote given anew.

A response does not name the candidate it is for. It is the one to whom
the vote was given in the step that started the response: with the task's
term and an answer to the task's port (`grantedTo`).
-/
import SyncSystem.Raft.TermTheorems

namespace SyncSystem.Raft

open SyncSystem.Python
open SyncSystem.Consensus

abbrev NodeEvent := Event RaftProcess NodeAction (List Packet)

/-- The task is a granted vote for an answer at `port`. -/
def SendTask.grantsAt (port : Nat) : SendTask → Bool
  | .voteResponse receiver granted => granted && receiverPort receiver == some port
  | _ => false

/-- The candidate to whom a step gives its vote in term `T`, to be
answered at `port`. -/
def grantedTo (T : Rat) (port : Nat) (e : NodeEvent) : Option String :=
  match e.action with
  | .receive msg =>
      let r := e.before.node.handleMessage msg
      if r.node.currentTerm = T ∧ r.spawned.any (SendTask.grantsAt port) = true then
        match candidateId msg with
        | .ok (.str s) => some s
        | _ => none
      else none
  | _ => none

/-- The candidates to whom the vote has been given in term `T`, to be
answered at `port`. -/
def candidates (c : NodeConfig) (T : Rat) (port : Nat) : List String :=
  c.1.filterMap (grantedTo T port)

/-- A `vote_response` with `granted = True`. -/
def Packet.isGrant (pkt : Packet) : Bool :=
  (Obj.get pkt.msg "type" (.str "")).pyEq (.str "vote_response") &&
    (Obj.get pkt.msg "granted" (.bool false)).pyEq (.bool true)

def Packet.term (pkt : Packet) : Option Rat := (Obj.get pkt.msg "term" (.int 0)).num?

/-- A granted vote that has been sent, with the term of its task. -/
structure SentGrant where
  packet : Packet
  born : Rat

/-- The granted votes that a step sends. -/
def grantsOf (e : NodeEvent) : List SentGrant :=
  match e.action with
  | .resume k =>
      match e.before.pending[k]? with
      | some t => (e.output.filter Packet.isGrant).map (⟨·, t.born⟩)
      | none => []
  | _ => []

/-- The granted votes the node has sent so far. -/
def sentGrants (c : NodeConfig) : List SentGrant := c.1.flatMap grantsOf

/-- The candidates a granted vote is for. -/
def SentGrant.candidates (c : NodeConfig) (g : SentGrant) : List String :=
  Raft.candidates c g.born g.packet.port

/-- Any two granted votes of one term are for one candidate, and for
nobody else. -/
def GrantsToOneCandidate (c : NodeConfig) : Prop :=
  ∀ g ∈ sentGrants c, ∀ g' ∈ sentGrants c, g.packet.term = g'.packet.term →
    ∃ s ∈ g.candidates c, s ∈ g'.candidates c ∧ ∀ s' ∈ g.candidates c ++ g'.candidates c, s' = s

instance (c : NodeConfig) : Decidable (GrantsToOneCandidate c) :=
  inferInstanceAs (Decidable (∀ g ∈ sentGrants c, ∀ g' ∈ sentGrants c,
    g.packet.term = g'.packet.term → ∃ s ∈ g.candidates c, s ∈ g'.candidates c ∧
      ∀ s' ∈ g.candidates c ++ g'.candidates c, s' = s))

def SendTask.isGrant : SendTask → Bool
  | .voteResponse _ granted => granted
  | _ => false

/-- A granted vote is built in the term in which it was given; terms are
integers, and candidates are named by strings. -/
abbrev GrantsInOwnTerm (c : NodeConfig) : NodeAction → Prop
  | .receive msg => integerTerm msg = true ∧ stringCandidate msg = true
  | .resume k => ∀ t ∈ c.2.pending[k]?, t.task.isGrant = true → t.born = c.2.node.currentTerm
  | _ => True

instance (c : NodeConfig) (a : NodeAction) : Decidable (GrantsInOwnTerm c a) :=
  NodeAction.decidable a

/-! ## Votes and grants -/

/-- The node has had `s` as its vote in term `T`. -/
def VotedFor (c : NodeConfig) (s : String) (T : Rat) : Prop :=
  ∃ p ∈ c.visited, p.node.votedFor = .str s ∧ p.node.currentTerm = T

theorem VotedFor.push {c : NodeConfig} {s : String} {T : Rat} (h : VotedFor c s T)
    (a : NodeAction) (p' : RaftProcess) (out : List Packet) : VotedFor (c.push a p' out) s T := by
  obtain ⟨p, hp, hv⟩ := h
  exact ⟨p, by rw [Config.visited_push]; exact List.mem_append_left _ hp, hv⟩

theorem candidates_push (c : NodeConfig) (a : NodeAction) (p' : RaftProcess) (out : List Packet)
    (T : Rat) (port : Nat) : candidates (c.push a p' out) T port =
      candidates c T port ++ (grantedTo T port ⟨c.2, a, out⟩).toList := by
  simp only [candidates, Config.push_history, List.filterMap_append]
  cases h : grantedTo T port ⟨c.2, a, out⟩ <;> simp [h]

theorem sentGrants_push (c : NodeConfig) (a : NodeAction) (p' : RaftProcess) (out : List Packet) :
    sentGrants (c.push a p' out) = sentGrants c ++ grantsOf ⟨c.2, a, out⟩ := by
  simp [sentGrants]

/-- The candidate a step grants its vote has the vote in that term. -/
theorem votedFor_of_grantedTo {p : RaftProcess} {a : NodeAction} {out : List Packet} {T : Rat}
    {port : Nat} {s : String} (h : grantedTo T port ⟨p, a, out⟩ = some s) :
    ∃ msg, a = .receive msg ∧ (p.node.handleMessage msg).node.votedFor = .str s ∧
      (p.node.handleMessage msg).node.currentTerm = T := by
  unfold grantedTo at h
  cases a with
  | receive msg =>
    simp only at h
    split at h
    · next hgrants =>
      obtain ⟨k, hk, hat⟩ := List.any_eq_true.mp hgrants.2
      cases k with
      | voteResponse receiver granted =>
        obtain ⟨hgranted, _⟩ := Bool.and_eq_true_iff.mp hat
        have hg := grants_of_spawned (hgranted ▸ hk)
        rw [hg.candidate] at h
        refine ⟨msg, rfl, ?_, hgrants.1⟩
        split at h
        · next s' hs =>
          cases h
          exact Except.ok.inj hs
        · cases h
      | _ => cases hat
    · cases h
  | _ => cases h

/-- `candidate` is one to whom the vote was given in term `T`, to be
answered at `port`. -/
def Answers (c : NodeConfig) (candidate : String) (T : Rat) (port : Option Nat) : Prop :=
  ∀ p ∈ port, candidate ∈ candidates c T p

theorem Answers.push {c : NodeConfig} {s : String} {T : Rat} {port : Option Nat}
    (h : Answers c s T port) (a : NodeAction) (p' : RaftProcess) (out : List Packet) :
    Answers (c.push a p' out) s T port := by
  intro p hp
  rw [candidates_push]
  exact List.mem_append_left _ (h p hp)

/-- Pending grants answer a candidate of the term they were given in, sent
grants one of the term they carry, and all of these have had the vote. -/
structure GrantsAnswer (c : NodeConfig) : Prop where
  pending : ∀ t ∈ c.2.pending, ∀ receiver, t.task = .voteResponse receiver true →
    ∃ s, Answers c s t.born (receiverPort receiver)
  sent : ∀ g ∈ sentGrants c, g.packet.term = some g.born ∧ ∃ s, s ∈ g.candidates c
  voted : ∀ T port, ∀ s ∈ candidates c T port, VotedFor c s T

/-- A task that is started as a granted vote answers its candidate. -/
theorem answers_started {c : NodeConfig} {a : NodeAction} {p' : RaftProcess} {out : List Packet}
    {t : Pending} {receiver : Json} (hok : GrantsInOwnTerm c a)
    (ht : RaftProcess.Started c.2 a t) (htask : t.task = .voteResponse receiver true) :
    ∃ s, Answers (c.push a p' out) s t.born (receiverPort receiver) := by
  cases ht with
  | elected => cases htask
  | ticked => cases htask
  | fanned => cases htask
  | answered msg k hk =>
    simp only at htask
    subst htask
    have hg := grants_of_spawned hk
    obtain ⟨s, hs⟩ := exists_str_of_stringCandidate hok.2 hg.candidate
    refine ⟨s, ?_⟩
    intro port hport
    have hany : (c.2.node.handleMessage msg).spawned.any (SendTask.grantsAt port) = true :=
      List.any_eq_true.mpr ⟨_, hk, by simpa [SendTask.grantsAt] using hport⟩
    rw [candidates_push]
    simp [grantedTo, hany, hg.candidate, hs]

/-- A grant that is written comes from a pending one. -/
theorem grant_of_output {c : NodeConfig} {a : NodeAction} {p' : RaftProcess} {out : List Packet}
    (hok : GrantsInOwnTerm c a) (h : c.2.step a = some (p', out)) {g : SentGrant}
    (hg : g ∈ grantsOf ⟨c.2, a, out⟩) :
    ∃ t ∈ c.2.pending, ∃ receiver, t.task = .voteResponse receiver true ∧
      receiverPort receiver = some g.packet.port ∧ t.born = g.born ∧
      g.packet.term = some g.born := by
  cases a with
  | resume k =>
    simp only [grantsOf] at hg
    split at hg
    · next t hk =>
      obtain ⟨pkt, hpkt, rfl⟩ := List.mem_map.mp hg
      obtain ⟨hout, hgrant⟩ := List.mem_filter.mp hpkt
      obtain ⟨k', t', heq, hk', hmem⟩ := RaftProcess.output_step h hout
      cases heq
      obtain rfl : t = t' := Option.some.inj (hk.symm.trans hk')
      obtain ⟨task, born⟩ := t
      cases SendTask.writes hmem with
      | requestVote peer i lt port => simp [Packet.isGrant] at hgrant
      | heartbeat peer port => simp [Packet.isGrant] at hgrant
      | voteResponse receiver granted port hport =>
        obtain rfl : granted = true := by simpa [Packet.isGrant] using hgrant
        refine ⟨_, List.mem_of_getElem? hk, receiver, rfl, hport, rfl, ?_⟩
        have hborn : born = c.2.node.currentTerm := hok _ hk rfl
        simp [Packet.term, hborn]
    · cases hg
  | _ => cases hg

theorem grantsAnswer_step {c : NodeConfig} {a : NodeAction} {p' : RaftProcess}
    {out : List Packet} (hc : GrantsAnswer c) (hok : GrantsInOwnTerm c a)
    (h : c.2.step a = some (p', out)) : GrantsAnswer (c.push a p' out) := by
  refine ⟨?_, ?_, ?_⟩
  · intro t ht receiver htask
    rcases RaftProcess.pending_step h ht with hold | hnew
    · obtain ⟨s, hs⟩ := hc.pending t hold receiver htask
      exact ⟨s, hs.push a p' out⟩
    · exact answers_started hok hnew htask
  · intro g hg
    rw [sentGrants_push] at hg
    rcases List.mem_append.mp hg with hold | hnew
    · obtain ⟨hterm, s, hs⟩ := hc.sent g hold
      refine ⟨hterm, s, ?_⟩
      rw [SentGrant.candidates, candidates_push]
      exact List.mem_append_left _ hs
    · obtain ⟨t, ht, receiver, htask, hport, hborn, hterm⟩ := grant_of_output hok h hnew
      obtain ⟨s, hs⟩ := hc.pending t ht receiver htask
      rw [hport, hborn] at hs
      exact ⟨hterm, s, hs.push a p' out _ rfl⟩
  · intro T port s hs
    rw [candidates_push] at hs
    rcases List.mem_append.mp hs with hold | hnew
    · exact (hc.voted T port s hold).push a p' out
    · obtain ⟨msg, rfl, hvote, hterm⟩ := votedFor_of_grantedTo (Option.mem_toList.mp hnew)
      have hp' : p'.node = (c.2.node.handleMessage msg).node := by cases h; rfl
      exact ⟨p', by simp, by rw [hp']; exact hvote, by rw [hp']; exact hterm⟩

/-! ## Runs -/

theorem grantsAnswer_of_leads {nodeId : String} {peers : List String} {port : Nat}
    {c : NodeConfig}
    (h : RaftProcess.machine.Leads GrantsInOwnTerm ([], RaftProcess.init nodeId peers port) c) :
    GrantsAnswer c := by
  refine h.invariant (I := GrantsAnswer) ⟨?_, ?_, ?_⟩ ?_
  · intro t ht
    cases ht
  · intro g hg
    cases hg
  · intro T port s hs
    cases hs
  · exact fun _ _ _ _ _ ih hok hs => grantsAnswer_step ih hok hs

theorem votedFor_unique {p₀ : RaftProcess} {c : NodeConfig}
    (h : RaftProcess.machine.Leads GrantsInOwnTerm ([], p₀) c) {s s' : String} {T : Rat}
    (hs : VotedFor c s T) (hs' : VotedFor c s' T) : s = s' := by
  obtain ⟨p, hp, hvote, hterm⟩ := hs
  obtain ⟨p', hp', hvote', hterm'⟩ := hs'
  have hord := h.visited_ordered (fun p => p.node.ballot) (fun c a p' out _ hok hstep =>
    ballot_step (by rintro msg rfl; exact hok.2) hstep) p hp p' hp'
  exact vote_unique_of_ordered hord (hterm.trans hterm'.symm) hvote hvote'

/-- **The granted votes of one term go to one candidate** in a run whose
grants are built in the term they were given in. -/
theorem grants_to_one_candidate {nodeId : String} {peers : List String} {port : Nat}
    {c : NodeConfig}
    (h : RaftProcess.machine.Leads GrantsInOwnTerm ([], RaftProcess.init nodeId peers port) c) :
    GrantsToOneCandidate c := by
  intro g hg g' hg' hterm
  have hc := grantsAnswer_of_leads h
  obtain ⟨hT, s, hs⟩ := hc.sent g hg
  obtain ⟨hT', s', hs'⟩ := hc.sent g' hg'
  have hborn : g'.born = g.born := Option.some.inj (hT'.symm.trans (hterm.symm.trans hT))
  have hvoted := hc.voted _ _ s hs
  have hsame : ∀ x ∈ g.candidates c ++ g'.candidates c, x = s := by
    intro x hx
    refine votedFor_unique h ?_ hvoted
    rcases List.mem_append.mp hx with hx | hx
    · exact hc.voted _ _ x hx
    · exact hborn ▸ hc.voted _ _ x hx
  obtain rfl := hsame s' (List.mem_append_right _ hs')
  exact ⟨s', hs, hs', hsame⟩

/-- The request of a candidate at this port, with an empty log. -/
def requestOf (candidate : String) (port : Nat) (term : Rat) : Obj :=
  RaftNode.requestVoteMsg { RaftNode.init candidate [] port with currentTerm := term } 0 0

/-- Two terms, a vote in each, and each sent in its term. -/
def promptGrantsRun : List NodeAction :=
  [.receive (requestOf "n2" 8002 1), .resume 0, .receive (requestOf "n3" 8003 2), .resume 0]

theorem grants_to_one_candidate_promptGrantsRun :
    ∃ c, RaftProcess.machine.Leads GrantsInOwnTerm ([], RaftProcess.init "n1" [] 8001) c ∧
      (sentGrants c).map (fun g => g.packet.port) = [8002, 8003] ∧ GrantsToOneCandidate c := by
  obtain ⟨c, hc, hp⟩ := Machine.exists_leads_of_exec RaftProcess.machine GrantsInOwnTerm
    ([], RaftProcess.init "n1" [] 8001) promptGrantsRun
    (fun c => decide ((sentGrants c).map (fun g => g.packet.port) = [8002, 8003]))
    (by decide +kernel)
  exact ⟨c, hc, of_decide_eq_true hp, grants_to_one_candidate hc⟩

/-- The response to `n2` is still waiting for its connection when `n3`
gets the vote of the next term. -/
def lateGrantRun : List NodeAction :=
  [.receive (requestOf "n2" 8002 1), .receive (requestOf "n3" 8003 2), .resume 0, .resume 0]

theorem two_grants_of_one_term :
    ∃ c, RaftProcess.machine.Leads Machine.always ([], RaftProcess.init "n1" [] 8001) c ∧
      ¬ GrantsToOneCandidate c := by
  obtain ⟨c, hc, hp⟩ := Machine.exists_leads_of_exec RaftProcess.machine Machine.always
    ([], RaftProcess.init "n1" [] 8001) lateGrantRun
    (fun c => decide (¬ GrantsToOneCandidate c)) (by decide +kernel)
  exact ⟨c, hc, of_decide_eq_true hp⟩

end SyncSystem.Raft

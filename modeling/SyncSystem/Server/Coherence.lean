/-
SyncSystem.Server.Coherence — cache coherence in a cluster of servers.

The sender's messages say what they are in `type`; the dispatcher of the
receiver looks for cache operations in `action`. So a message of a cache
is an unknown action at its peer (`silent_of_message`), and what keeps
the caches coherent is not the protocol but the clients: as long as an
address is written only where no other node has it (`WritesAlone`), a
copy is the only one and the newest one (`coherent`). Two writes of one
address at two nodes break both (`two_modified_copies`).
-/
import SyncSystem.Server.AccessControl
import SyncSystem.Server.CacheCluster
import SyncSystem.Server.CacheRequests

namespace SyncSystem.Server

open SyncSystem.Python
open SyncSystem.Cache

variable {N : Nat} {ω : Type}

abbrev CacheRun (N : Nat) (ω : Type) :=
  Config (CacheCluster N ω) (CacheAction N) (List (Fin N × Key))

/-! ## Coherence -/

/-- The writes done so far, the latest first. -/
def writesDone (c : CacheRun N ω) : List (Fin N × Key) := c.track (fun ws w => w :: ws) []

/-- Another node has done a write of `a` since node `i`'s last one. -/
def Stale (writes : List (Fin N × Key)) (i : Fin N) (a : Key) : Prop :=
  ∃ w ∈ writes.takeWhile (fun w => !(decide (w.1 = i) && w.2 == a)), (w.2 == a) = true

instance (writes : List (Fin N × Key)) (i : Fin N) (a : Key) : Decidable (Stale writes i a) :=
  inferInstanceAs (Decidable
    (∃ w ∈ writes.takeWhile (fun w => !(decide (w.1 = i) && w.2 == a)), (w.2 == a) = true))

/-- Node `i` holds `a` in a state that satisfies `P`. -/
def Holds (s : CacheCluster N ω) (i : Fin N) (a : Key) (P : CacheState → Prop) : Prop :=
  ∃ line, (s.table i).get? a = some line ∧ P line.state

/-- One MODIFIED copy at most, and no copy older than another node's
latest write that is not INVALID. -/
structure Coherent (c : CacheRun N ω) : Prop where
  oneModified : ∀ a i j, Holds c.2 i a (· = .modified) → Holds c.2 j a (· = .modified) → i = j
  noneStale : ∀ a i, Holds c.2 i a (· ≠ .invalid) → ¬ Stale (writesDone c) i a

/-- The request passes the check, and the dispatcher takes it for a write
of a string. -/
def servesWrite (keys : Keys) (request : Obj) : Bool :=
  let msgType := Obj.get request "type" (.str "")
  let action := Obj.get request "action" (.str "")
  (authorize keys msgType action (Obj.get request "token" (.str "")) matches .ok true) &&
    !isInternalType msgType && action.pyEq (.str "cache_write") &&
    (Obj.get request "data" (.str "") matches .str _)

/-- No write of an address is served while another node has the address
in its cache. -/
abbrev WritesAlone (C : ClusterSetup N ω) (c : CacheRun N ω) : CacheAction N → Prop
  | .request i _ request => servesWrite C.keys request = true →
      ∀ a ∈ (requestKey request).toOption, ∀ j, j ≠ i → (c.2.table j).contains a = false
  | _ => True

instance (C : ClusterSetup N ω) (c : CacheRun N ω) (a : CacheAction N) :
    Decidable (WritesAlone C c a) :=
  match a with
  | .request .. => inferInstance
  | .deliver .. => inferInstance
  | .cleanup .. => inferInstance

/-! ## What a request does to the cache -/

/-- A request without an action of the dispatcher calls no component. -/
theorem silent_of_action {keys : Keys} {s : NodeServer} {now : Rat} {request : Obj}
    (h : ∀ a ∈ componentActions, Obj.get request "action" .null ≠ .str a) :
    (handleRequest keys s now request).Silent := by
  rcases handleRequest_cases keys s now request with ⟨served, heq, _⟩ | ⟨_, _, heq⟩
  · exact ⟨served, heq⟩
  · rw [heq]
    exact (performAction_silent h).map _

/-- A message of a cache has no `action`. -/
theorem silent_of_message (keys : Keys) (s : NodeServer) (now : Rat) (m : CacheMessage Key) :
    (handleRequest keys s now m.body).Silent := by
  have hnone : Obj.get m.body "action" .null = .null := by cases m <;> rfl
  refine silent_of_action ?_
  intro a _
  rw [hnone]
  simp

theorem get_null_of_get_action {request : Obj} {a : String} (ha : a ≠ "")
    (h : Obj.get request "action" (.str "") = .str a) :
    Obj.get request "action" .null = .str a := by
  unfold Obj.get at h ⊢
  cases hl : request.lookup "action" with
  | none => simp [hl, Ne.symm ha] at h
  | some v => simpa [hl] using h

/-- A read leaves the table as it is. -/
theorem cacheRead_table (other : Handler components ω) (now : Rat) (request : Obj)
    (comp : Components ω) :
    ((cacheRead request).run (cacheHandler other now) comp).2.cache.cache = comp.cache.cache := by
  simp only [cacheRead, run_invoke, cacheHandler]
  cases hk : (Obj.get request "address" (.int 0)).key with
  | error e => rfl
  | ok a =>
    simp only
    split <;> exact CacheNode.read_cache _ _

/-- A write that is not answered with success leaves the table as it is;
one that is has written. -/
theorem cacheWrite_table (other : Handler components ω) (now : Rat) (request : Obj)
    (comp : Components ω) :
    (NoSuccess ((cacheWrite request).run (cacheHandler other now) comp).1.toOption ∧
      ((cacheWrite request).run (cacheHandler other now) comp).2.cache.cache =
        comp.cache.cache) ∨
    ∃ s a, Obj.get request "data" (.str "") = .str s ∧ requestKey request = .ok a ∧
      ((cacheWrite request).run (cacheHandler other now) comp).1 =
        .ok [("success", .bool true), ("address", Obj.get request "address" (.int 0))] ∧
      ((cacheWrite request).run (cacheHandler other now) comp).2.cache =
        (comp.cache.write a s.toUTF8 now).1 := by
  unfold cacheWrite requestKey
  cases hd : Obj.get request "data" (.str "") with
  | str s =>
    simp only [run_invoke, cacheHandler]
    cases hk : (Obj.get request "address" (.int 0)).key with
    | error e => exact Or.inl ⟨rfl, rfl⟩
    | ok a =>
      simp only
      rcases comp.cache.write_cases a s.toUTF8 now with ⟨⟨e, he⟩, hcache⟩ | ⟨hok, _⟩
      · simp only [he]
        exact Or.inl ⟨rfl, hcache⟩
      · simp only [hok]
        exact Or.inr ⟨s, a, rfl, rfl, rfl, rfl⟩
  | _ => exact Or.inl ⟨rfl, rfl⟩

/-- A cache request leaves the table as it is and is not a write that has
been done, or it is a served write that has been done. -/
theorem handle_cache (C : ClusterSetup N ω) (s : CacheCluster N ω) (i : Fin N) (now : Rat)
    {request : Obj} (hreq : isCacheRequest request = true) :
    (writeDone request (s.handle C i now request).1 = false ∧
      (s.handle C i now request).2.cache.cache = s.table i) ∨
    ∃ a data, servesWrite C.keys request = true ∧ requestKey request = .ok a ∧
      writeDone request (s.handle C i now request).1 = true ∧
      (s.handle C i now request).2.cache = ((s.comps i).cache.write a data now).1 := by
  have hquiet : ∀ served : Served, NoSuccess served.reply → writeDone request served = false := by
    intro served h
    rw [NoSuccess] at h
    simp [writeDone, h]
  unfold CacheCluster.handle
  rcases handleRequest_cases C.keys (s.servers i) now request with
    ⟨served, heq, hno⟩ | ⟨hauth, hext, heq⟩
  · rw [heq]
    exact Or.inl ⟨hquiet served hno, rfl⟩
  · rw [heq, Program.run_map]
    rcases isIn_pair hreq with haction | haction
    · rw [performAction_read (get_null_of_get_action (by decide) haction)]
      refine Or.inl ⟨?_, cacheRead_table _ _ _ _⟩
      simp [writeDone, haction]
    · rw [performAction_write (get_null_of_get_action (by decide) haction)]
      rcases cacheWrite_table C.other now request (s.comps i) with
        ⟨hno, htable⟩ | ⟨str, a, hdata, hkey, hresponse, hcache⟩
      · exact Or.inl ⟨hquiet _ hno, htable⟩
      · refine Or.inr ⟨a, str.toUTF8, ?_, hkey, ?_, hcache⟩
        · rw [haction] at hauth
          simp [servesWrite, hauth, hext, haction, hdata]
        · have hsuccess : ∀ address, (Obj.get [("success", .bool true), ("address", address)]
              "success" (.bool false)).truthy = true := fun _ => rfl
          rw [hresponse]
          simp [writeDone, haction, Except.toOption, hsuccess]

/-! ## The invariant of writes that are alone -/

theorem not_stale_self {writes : List (Fin N × Key)} {i : Fin N} {a b : Key}
    (h : (a == b) = true) : ¬ Stale ((i, a) :: writes) i b := by
  simp [Stale, h]

theorem stale_of_cons {writes : List (Fin N × Key)} {i j : Fin N} {a b : Key}
    (hne : (a == b) = false) (h : Stale ((j, a) :: writes) i b) : Stale writes i b := by
  obtain ⟨w, hw, heq⟩ := h
  rw [List.takeWhile_cons_of_pos (by simp [hne])] at hw
  rcases List.mem_cons.mp hw with rfl | hw
  · rw [hne] at heq
    cases heq
  · exact ⟨w, hw, heq⟩

/-- An address is in one cache, whose copy is of the latest write; the
messages in flight are messages of caches. -/
structure Sole (s : CacheCluster N ω) (writes : List (Fin N × Key)) : Prop where
  alone : ∀ i j a, (s.table i).contains a = true → (s.table j).contains a = true → i = j
  fresh : ∀ i a, (s.table i).contains a = true → ¬ Stale writes i a
  messages : ∀ pkt ∈ s.net, ∃ m : CacheMessage Key, pkt.msg = m.body

theorem sole_init (C : ClusterSetup N ω) (now : Rat) : Sole (.init C now) [] where
  alone := by
    intro i j a h
    cases h
  fresh := by simp [Stale]
  messages := by
    intro pkt h
    cases h

theorem messages_update {s : CacheCluster N ω} {i : Fin N} {server : NodeServer}
    {comp : Components ω} (h : ∀ pkt ∈ s.net, ∃ m : CacheMessage Key, pkt.msg = m.body) :
    ∀ pkt ∈ (s.update i server comp).net, ∃ m : CacheMessage Key, pkt.msg = m.body := by
  intro pkt hpkt
  rcases List.mem_append.mp hpkt with hpkt | hpkt
  · exact h pkt hpkt
  · obtain ⟨e, _, he⟩ := List.mem_filterMap.mp hpkt
    obtain ⟨port, _, rfl⟩ := Option.map_eq_some_iff.mp he
    exact ⟨e.2, rfl⟩

theorem table_update (s : CacheCluster N ω) (i : Fin N) (server : NodeServer)
    (comp : Components ω) (j : Fin N) :
    (s.update i server comp).table j = if j = i then comp.cache.cache else s.table j := by
  by_cases h : j = i
  · subst h
    simp [CacheCluster.table, CacheCluster.update]
  · simp [CacheCluster.table, CacheCluster.update, h]

/-- A step that adds no address to the table of its node. -/
theorem Sole.keep {s : CacheCluster N ω} {writes : List (Fin N × Key)} (h : Sole s writes)
    {i : Fin N} (server : NodeServer) {comp : Components ω}
    (hsub : ∀ a, comp.cache.cache.contains a = true → (s.table i).contains a = true) :
    Sole (s.update i server comp) writes := by
  have hback : ∀ j a, ((s.update i server comp).table j).contains a = true →
      (s.table j).contains a = true := by
    intro j a hj
    rw [table_update] at hj
    split at hj
    · next hji => exact hji ▸ hsub a hj
    · exact hj
  exact ⟨fun j k a hj hk => h.alone j k a (hback j a hj) (hback k a hk),
    fun j a hj => h.fresh j a (hback j a hj), messages_update h.messages⟩

/-- A write of an address that no other node has. -/
theorem Sole.write {s : CacheCluster N ω} {writes : List (Fin N × Key)} (h : Sole s writes)
    {i : Fin N} (server : NodeServer) {comp : Components ω} {a : Key} {data : ByteArray}
    {now : Rat} (hcomp : comp.cache = ((s.comps i).cache.write a data now).1)
    (halone : ∀ j, j ≠ i → (s.table j).contains a = false) :
    Sole (s.update i server comp) ((i, a) :: writes) := by
  have hadd : ∀ b, comp.cache.cache.contains b = true →
      (a == b) = true ∨ (s.table i).contains b = true := by
    intro b hb
    rw [hcomp] at hb
    exact CacheNode.contains_write hb
  -- another node has the written address neither before nor after
  have hother : ∀ j b, j ≠ i → (a == b) = true → (s.table j).contains b = false := by
    intro j b hj hab
    rw [← Dict.contains_congr _ hab]
    exact halone j hj
  refine ⟨?_, ?_, messages_update h.messages⟩
  · intro j k b hj hk
    rw [table_update] at hj hk
    split at hj <;> split at hk
    · next hji hki => exact hji.trans hki.symm
    · next hji hki =>
      rcases hadd b hj with hab | hb
      · rw [hother k b hki hab] at hk
        cases hk
      · exact hji.trans (h.alone i k b hb hk)
    · next hji hki =>
      rcases hadd b hk with hab | hb
      · rw [hother j b hji hab] at hj
        cases hj
      · exact (h.alone j i b hj hb).trans hki.symm
    · exact h.alone j k b hj hk
  · intro j b hj hstale
    rw [table_update] at hj
    split at hj
    · next hji =>
      subst hji
      by_cases hab : (a == b) = true
      · exact not_stale_self hab hstale
      · rcases hadd b hj with hab' | hb
        · exact hab hab'
        · exact h.fresh j b hb (stale_of_cons (by simpa using hab) hstale)
    · next hji =>
      by_cases hab : (a == b) = true
      · rw [hother j b hji hab] at hj
        cases hj
      · exact h.fresh j b hj (stale_of_cons (by simpa using hab) hstale)

/-! ## Runs -/

theorem sole_step {C : ClusterSetup N ω} {c : CacheRun N ω} {a : CacheAction N}
    {s' : CacheCluster N ω} {out : List (Fin N × Key)} (h : Sole c.2 (writesDone c))
    (hok : WritesAlone C c a) (hs : (CacheCluster.machine C).step c.2 a = some (s', out)) :
    Sole s' (out.foldl (fun ws w => w :: ws) (writesDone c)) := by
  cases a with
  | request i now request =>
    simp only [CacheCluster.machine, CacheCluster.step] at hs
    split at hs
    · next hreq =>
      rcases handle_cache C c.2 i now hreq with
        ⟨hdone, htable⟩ | ⟨b, data, hserves, hkey, hdone, hcache⟩
      · simp only [hdone, Bool.false_eq_true, if_false] at hs
        cases hs
        exact h.keep _ (fun a ha => by rw [htable] at ha; exact ha)
      · simp only [hdone, if_true, hkey] at hs
        cases hs
        refine h.write _ hcache ?_
        exact hok hserves b (by rw [hkey]; rfl)
    · cases hs
  | deliver i k now =>
    simp only [CacheCluster.machine, CacheCluster.step] at hs
    split at hs
    · cases hs
    · next pkt hk =>
      split at hs
      · obtain ⟨m, hm⟩ := h.messages pkt (List.mem_of_getElem? hk)
        obtain ⟨served, hserved⟩ := silent_of_message C.keys (c.2.servers i) now m
        simp only [CacheCluster.handle, hm, hserved, Program.run_done] at hs
        cases hs
        have herase : Sole { c.2 with net := c.2.net.eraseIdx k } (writesDone c) :=
          ⟨h.alone, h.fresh, fun pkt hpkt => h.messages pkt (List.mem_of_mem_eraseIdx hpkt)⟩
        exact herase.keep _ (fun _ ha => ha)
      · cases hs
  | cleanup i now =>
    cases hs
    exact h.keep _ (fun a ha => CacheNode.contains_cleanup ha)

theorem sole_of_leads {C : ClusterSetup N ω} {now : Rat} {c : CacheRun N ω}
    (h : (CacheCluster.machine C).Leads (WritesAlone C) ([], .init C now) c) :
    Sole c.2 (writesDone c) := by
  refine h.track_invariant (I := Sole) (sole_init C now) ?_
  intro c a s' out _ ih hok hs
  exact sole_step ih hok hs

theorem Holds.contains {s : CacheCluster N ω} {i : Fin N} {a : Key} {P : CacheState → Prop}
    (h : Holds s i a P) : (s.table i).contains a = true := by
  obtain ⟨line, hget, _⟩ := h
  exact Dict.contains_eq_true.mpr ⟨line, hget⟩

/-- **Cache coherence**, in flight or not, in a run that writes an
address only where no other node has it. -/
theorem coherent {C : ClusterSetup N ω} {now : Rat} {c : CacheRun N ω}
    (h : (CacheCluster.machine C).Leads (WritesAlone C) ([], .init C now) c) : Coherent c := by
  have hsole := sole_of_leads h
  exact ⟨fun a i j hi hj => hsole.alone i j a hi.contains hj.contains,
    fun a i hi => hsole.fresh i a hi.contains⟩

/-- Two nodes; there is neither a lock manager nor a queue behind them. -/
def twoCaches : ClusterSetup 2 Unit where
  nodeId i := "node_" ++ (i.val + 1).repr
  port i := 8001 + i.val
  peers i := ((List.finRange 2).filter (· ≠ i)).map (fun j => Raft.address (8001 + j.val))
  nodeId_injective := by decide +kernel
  port_injective := by decide +kernel
  peers_others := by decide +kernel
  keys := demoKeys
  nodeType := "cache"
  maxSize := 1000
  ttl := 300
  other _ s := (.error .attributeError, s)
  rest := ()

/-- `cache_write` as the admin. -/
def writeRequest (address : Int) (data : String) : Obj :=
  [("action", .str "cache_write"), ("token", .str demoKeys.admin), ("address", .int address),
   ("data", .str data), ("writer_id", .str "w")]

/-- Each node writes an address of its own, and the messages arrive. -/
def apartRun : List (CacheAction 2) :=
  [.request 0 1 (writeRequest 1 "one"), .request 1 2 (writeRequest 2 "two"),
   .deliver 1 0 3, .deliver 1 0 3, .deliver 0 0 4, .deliver 0 0 4]

theorem coherent_apartRun :
    ∃ c, (CacheCluster.machine twoCaches).Leads (WritesAlone twoCaches)
        ([], .init twoCaches 0) c ∧
      c.2.net = [] ∧ (writesDone c).length = 2 ∧ Coherent c := by
  obtain ⟨c, hc, hp⟩ := Machine.exists_leads_of_exec (CacheCluster.machine twoCaches)
    (WritesAlone twoCaches) ([], .init twoCaches 0) apartRun
    (fun c => c.2.net.isEmpty && decide ((writesDone c).length = 2)) (by decide +kernel)
  simp only [Bool.and_eq_true, List.isEmpty_iff, decide_eq_true_eq] at hp
  exact ⟨c, hc, hp.1, hp.2, coherent hc⟩

/-- Both nodes write address 5, and every message arrives. -/
def sharedRun : List (CacheAction 2) :=
  [.request 0 1 (writeRequest 5 "one"), .request 1 2 (writeRequest 5 "two"),
   .deliver 1 0 3, .deliver 1 0 3, .deliver 0 0 4, .deliver 0 0 4]

def addressFive : Key := ⟨.int 5, rfl⟩

def modifiedAt (c : CacheRun N ω) (i : Fin N) (a : Key) : Bool :=
  ((c.2.table i).get? a).any (fun line => line.state = .modified)

theorem holds_of_modifiedAt {c : CacheRun N ω} {i : Fin N} {a : Key}
    (h : modifiedAt c i a = true) : Holds c.2 i a (· = .modified) := by
  unfold modifiedAt at h
  cases hget : (c.2.table i).get? a with
  | none => simp [hget] at h
  | some line => exact ⟨line, hget, by simpa [hget] using h⟩

theorem two_modified_copies :
    ∃ c, (CacheCluster.machine twoCaches).Leads Machine.always ([], .init twoCaches 0) c ∧
      c.2.net = [] ∧
      Holds c.2 0 addressFive (· = .modified) ∧ Holds c.2 1 addressFive (· = .modified) ∧
      Stale (writesDone c) 0 addressFive := by
  obtain ⟨c, hc, hp⟩ := Machine.exists_leads_of_exec (CacheCluster.machine twoCaches)
    Machine.always ([], .init twoCaches 0) sharedRun
    (fun c => c.2.net.isEmpty && (modifiedAt c 0 addressFive && modifiedAt c 1 addressFive) &&
      decide (Stale (writesDone c) 0 addressFive)) (by decide +kernel)
  simp only [Bool.and_eq_true, List.isEmpty_iff, decide_eq_true_eq] at hp
  obtain ⟨⟨hnet, h0, h1⟩, hstale⟩ := hp
  exact ⟨c, hc, hnet, holds_of_modifiedAt h0, holds_of_modifiedAt h1, hstale⟩

end SyncSystem.Server

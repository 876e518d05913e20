/-
SyncSystem.Cache.Reads — what a read answers, against the history of its
address.

The last thing that happened to an address, of writes, invalidations,
evictions and expiries, decides what a read should answer: the data of a
write, and nothing after anything else (`ReadsLatest`). The table is in
step with that history (`Reflects`), but `read` looks at the state of a
line on its first return path only; after a miss it answers with the data
of an INVALID line as well (`invalid_read`). Where the line is not
INVALID it answers as it should, and only there (`reads_latest_iff`).
-/
import SyncSystem.Cache.Operations

namespace SyncSystem.Cache

open SyncSystem.Python

variable {α δ : Type} [BEq α]

/-! ## The last event on an address -/

/-- The event is a write, an invalidation, an eviction or an expiry of `a`. -/
def CacheEvent.concerns (a : α) : CacheEvent α δ → Bool
  | .written b _ => b == a
  | .invalidated b => b == a
  | .evicted b => b == a
  | .expired b => b == a
  | .answered .. => false
  | .raised _ => false

/-- The last event on `a` in the run. -/
def lastEvent (c : CacheNodeRun α δ) (a : α) : Option (CacheEvent α δ) :=
  ((c.1.flatMap Event.output).filter (·.concerns a)).getLast?

/-- The last event on `a` is a write of `data`. -/
def WrittenLast (c : CacheNodeRun α δ) (a : α) (data : δ) : Prop :=
  ∃ b, lastEvent c a = some (.written b data)

/-- A read of `a` returns data if and only if that was written last. -/
def ReadsLatest (c : CacheNodeRun α δ) (a : α) : Prop :=
  ∀ data, (c.2.read a).2 = some data ↔ WrittenLast c a data

section

variable {c : CacheNodeRun α δ} {op : CacheOp α δ} {n' : CacheNode α δ}
  {out : List (CacheEvent α δ)} {a : α} {data : δ}

theorem lastEvent_push : lastEvent (c.push op n' out) a =
    (out.filter (·.concerns a)).getLast?.or (lastEvent c a) := by
  simp [lastEvent, List.getLast?_append]

/-- Nothing happens to `a`. -/
theorem writtenLast_push_of_nil (h : out.filter (·.concerns a) = []) :
    WrittenLast (c.push op n' out) a data ↔ WrittenLast c a data := by
  simp [WrittenLast, lastEvent_push, h]

/-- What happens to `a` in the step is the last event. -/
theorem writtenLast_push_of_some {e : CacheEvent α δ}
    (h : (out.filter (·.concerns a)).getLast? = some e) :
    WrittenLast (c.push op n' out) a data ↔ ∃ b, e = .written b data := by
  simp [WrittenLast, lastEvent_push, h]

end

/-! ## The table and the history -/

/-- Every line has data: the data written last, unless it is INVALID. An
address that is not there has not been written last. -/
structure Reflects (c : CacheNodeRun α δ) (a : α) : Prop where
  absent : c.2.cache.get? a = none → ∀ data, ¬ WrittenLast c a data
  filled : ∀ line, c.2.cache.get? a = some line → ∃ data, line.data = some data
  valid : ∀ line, c.2.cache.get? a = some line → line.state ≠ .invalid →
    ∃ data, line.data = some data ∧ WrittenLast c a data
  invalid : ∀ line, c.2.cache.get? a = some line → line.state = .invalid →
    ∀ data, ¬ WrittenLast c a data

/-- What an operation can mean for the address `a`. -/
inductive AddressStep (n n' : CacheNode α δ) (a : α) (out : List (CacheEvent α δ)) : Prop where
  | same : n'.cache.get? a = n.cache.get? a → out.filter (·.concerns a) = [] →
      AddressStep n n' a out
  | demoted (line : CacheLine α δ) : n.cache.get? a = some line → line.state = .modified →
      n'.cache.get? a = some { line with state := .owned } → out.filter (·.concerns a) = [] →
      AddressStep n n' a out
  | written (line : CacheLine α δ) (b : α) (data : δ) : n'.cache.get? a = some line →
      line.state = .modified → line.data = some data →
      (out.filter (·.concerns a)).getLast? = some (.written b data) → AddressStep n n' a out
  | invalidated (b : α) :
      n'.cache.get? a = (n.cache.get? a).map (fun line => { line with state := .invalid }) →
      (out.filter (·.concerns a)).getLast? = some (.invalidated b) → AddressStep n n' a out
  | lost (e : CacheEvent α δ) : n'.cache.get? a = none → (∀ b data, e ≠ .written b data) →
      (out.filter (·.concerns a)).getLast? = some e → AddressStep n n' a out

variable [EquivBEq α]

namespace CacheNode

/-- An address that is still there, or has not been there, is not gone. -/
theorem filter_gone_eq_nil {n n' : CacheNode α δ} {a : α}
    (h : n.cache.contains a = true → n'.cache.contains a = true) :
    (n.gone n').filter (· == a) = [] := by
  rw [List.filter_eq_nil_iff]
  intro k hk heq
  obtain ⟨hkey, hout⟩ := List.mem_filter.mp hk
  have hin : n.cache.contains a = true := Dict.contains_iff_keys.mpr ⟨k, hkey, heq⟩
  rw [n'.cache.contains_congr heq, h hin] at hout
  cases hout

theorem filter_gone_ne_nil {n n' : CacheNode α δ} {a : α} (h : n.cache.contains a = true)
    (h' : n'.cache.contains a = false) : (n.gone n').filter (· == a) ≠ [] := by
  obtain ⟨k, hk, heq⟩ := Dict.contains_iff_keys.mp h
  have hmem : k ∈ (n.gone n').filter (· == a) := by
    simp only [gone, List.mem_filter]
    exact ⟨⟨hk, by rw [n'.cache.contains_congr heq, h']; rfl⟩, heq⟩
  exact List.ne_nil_of_mem hmem

/-- A line that is there after the cleanup is the line before it. -/
theorem get?_cleanup (n : CacheNode α δ) (now : Rat) (a : α) :
    (n.cleanup now).cache.get? a = n.cache.get? a ∨ (n.cleanup now).cache.get? a = none := by
  refine cleanup_keeps
    (P := fun m => m.cache.get? a = n.cache.get? a ∨ m.cache.get? a = none) ?_ (Or.inl rfl) now
  intro m b h
  rw [evict_cache, Dict.get?_del]
  split
  · exact Or.inr rfl
  · exact h

end CacheNode

namespace AddressStep

variable {n n' : CacheNode α δ} {a : α}

/-- Addresses are only lost: `event` says how. -/
theorem of_gone {event : α → CacheEvent α δ} (hconcerns : ∀ k, (event k).concerns a = (k == a))
    (hwrite : ∀ k b data, event k ≠ .written b data) {rest : List (CacheEvent α δ)}
    (hrest : rest.filter (·.concerns a) = [])
    (h : n'.cache.get? a = n.cache.get? a ∨ n'.cache.get? a = none) :
    AddressStep n n' a ((n.gone n').map event ++ rest) := by
  have hfilter : ((n.gone n').map event ++ rest).filter (·.concerns a) =
      ((n.gone n').filter (· == a)).map event := by
    rw [List.filter_append, hrest, List.append_nil, List.filter_map]
    congr 1
    exact List.filter_congr (fun k _ => hconcerns k)
  by_cases hlost : n.cache.contains a = true ∧ n'.cache.contains a = false
  · have hnone : n'.cache.get? a = none := by simpa [Dict.contains] using hlost.2
    have hne := CacheNode.filter_gone_ne_nil hlost.1 hlost.2
    refine .lost (event (((n.gone n').filter (· == a)).getLast hne)) hnone (hwrite _) ?_
    rw [hfilter, List.getLast?_map, List.getLast?_eq_some_getLast hne, Option.map_some]
  · have hsame : n'.cache.get? a = n.cache.get? a := by
      rcases h with h | h
      · exact h
      · have hout : n'.cache.contains a = false := by simp [Dict.contains, h]
        have hin : n.cache.contains a = false := by
          by_contra hc
          exact hlost ⟨by simpa using hc, hout⟩
        have hnone : n.cache.get? a = none := by simpa [Dict.contains] using hin
        rw [h, hnone]
    refine .same hsame ?_
    rw [hfilter, CacheNode.filter_gone_eq_nil, List.map_nil]
    intro hin
    by_contra hc
    exact hlost ⟨hin, by simpa using hc⟩

theorem write (n : CacheNode α δ) (address : α) (data : δ) (now : Rat) (a : α) :
    AddressStep n (n.apply (.write address data now)).1 a (n.apply (.write address data now)).2 := by
  have hevicted : ∀ k : α, (CacheEvent.evicted k : CacheEvent α δ).concerns a = (k == a) :=
    fun _ => rfl
  simp only [CacheNode.apply]
  rcases n.write_cases address data now with
    ⟨⟨e, he⟩, hcache⟩ | ⟨hok, line, hmodified, hdata, hcache⟩
  · rw [he]
    exact of_gone hevicted (by simp) rfl (Or.inl (by rw [hcache]))
  · rw [hok]
    cases ha : address == a with
    | true =>
      have hget : (n.write address data now).1.cache.get? a = some line := by
        rcases hcache with hcache | ⟨evicted, hcache⟩
        · rw [hcache, Dict.get?_set, if_pos ha]
        · rw [hcache, Dict.get?_set, if_pos ha]
      refine .written line address data hget hmodified hdata ?_
      simp [CacheEvent.concerns, ha]
    | false =>
      refine of_gone hevicted (by simp) (by simp [CacheEvent.concerns, ha]) ?_
      rcases hcache with hcache | ⟨evicted, hcache⟩
      · rw [hcache, Dict.get?_set, if_neg (by simp [ha])]
        exact Or.inl rfl
      · rw [hcache, Dict.get?_set, if_neg (by simp [ha]), Dict.get?_del]
        split
        · exact Or.inr rfl
        · exact Or.inl rfl

theorem cleanup (n : CacheNode α δ) (now : Rat) (a : α) :
    AddressStep n (n.apply (.cleanup now)).1 a (n.apply (.cleanup now)).2 := by
  simp only [CacheNode.apply, CacheNode.cacheCleanup_eq]
  exact of_gone (fun _ => rfl) (by simp) rfl (n.get?_cleanup now a)

/-- The line at `address` becomes INVALID, if there is one. -/
theorem of_invalidated {address : α} {line : CacheLine α δ}
    (hget : n.cache.get? address = some line)
    (hcache : n'.cache = n.cache.set address { line with state := .invalid }) :
    AddressStep n n' a [.invalidated address] := by
  cases ha : address == a with
  | true =>
    refine .invalidated address ?_ (by simp [CacheEvent.concerns, ha])
    rw [hcache, Dict.get?_set, if_pos ha, ← n.cache.get?_congr ha, hget]
    rfl
  | false =>
    refine .same ?_ (by simp [CacheEvent.concerns, ha])
    rw [hcache, Dict.get?_set, if_neg (by simp [ha])]

/-- There is no line to invalidate. -/
theorem of_absent {address : α} (hget : n.cache.get? address = none) :
    AddressStep n n a [.invalidated address] := by
  cases ha : address == a with
  | true =>
    refine .invalidated address ?_ (by simp [CacheEvent.concerns, ha])
    rw [← n.cache.get?_congr ha, hget]
    rfl
  | false => exact .same rfl (by simp [CacheEvent.concerns, ha])

theorem invalidate (n : CacheNode α δ) (address a : α) :
    AddressStep n (n.apply (.invalidate address)).1 a (n.apply (.invalidate address)).2 := by
  simp only [CacheNode.apply, CacheNode.invalidate]
  split
  · next hget => exact of_absent hget
  · next line hget => exact of_invalidated hget rfl

theorem handleSnoop (n : CacheNode α δ) (address : α) (operation : String) (a : α) :
    AddressStep n (n.apply (.handleSnoop address operation)).1 a
      (n.apply (.handleSnoop address operation)).2 := by
  by_cases hread : operation = "read_shared"
  · subst hread
    have hne : ("read_shared" : String) ≠ "invalidate" := by decide
    simp only [CacheNode.apply, CacheNode.handleSnoop, if_true, hne, if_false]
    split
    · exact .same rfl rfl
    · next line hget =>
      split
      · next hmodified =>
        cases ha : address == a with
        | true =>
          refine .demoted line (by rw [← n.cache.get?_congr ha, hget]) hmodified ?_ rfl
          rw [Dict.get?_set, if_pos ha]
        | false =>
          refine .same ?_ rfl
          rw [Dict.get?_set, if_neg (by simp [ha])]
      · exact .same rfl rfl
  · by_cases hinv : operation = "invalidate"
    · subst hinv
      simp only [CacheNode.apply, CacheNode.handleSnoop, hread, if_true, if_false]
      split
      · next hget => exact of_absent hget
      · next line hget => exact of_invalidated hget rfl
    · simp only [CacheNode.apply, CacheNode.handleSnoop, hread, hinv, if_false]
      split <;> exact .same rfl rfl

theorem apply (n : CacheNode α δ) (op : CacheOp α δ) (a : α) :
    AddressStep n (n.apply op).1 a (n.apply op).2 := by
  cases op with
  | read address => exact .same (by simp [CacheNode.apply]) rfl
  | write address data now => exact write n address data now a
  | invalidate address => exact invalidate n address a
  | handleSnoop address operation => exact handleSnoop n address operation a
  | cleanup now => exact cleanup n now a

end AddressStep

/-! ## Runs -/

omit [EquivBEq α] in
/-- One step for one address. -/
theorem Reflects.push {c : CacheNodeRun α δ} {op : CacheOp α δ} {n' : CacheNode α δ}
    {out : List (CacheEvent α δ)} {a : α} (h : Reflects c a) (hstep : AddressStep c.2 n' a out) :
    Reflects (c.push op n' out) a := by
  cases hstep with
  | same hget hnone =>
    have hlast : ∀ data, WrittenLast (c.push op n' out) a data ↔ WrittenLast c a data :=
      fun _ => writtenLast_push_of_nil hnone
    constructor <;> simp only [Config.push_state, hget, hlast]
    · exact h.absent
    · exact h.filled
    · exact h.valid
    · exact h.invalid
  | demoted line hget hmodified hget' hnone =>
    have hlast : ∀ data, WrittenLast (c.push op n' out) a data ↔ WrittenLast c a data :=
      fun _ => writtenLast_push_of_nil hnone
    have hdata := h.valid line hget (by simp [hmodified])
    constructor <;> simp only [Config.push_state, hget', hlast]
    · simp
    · rintro _ ⟨rfl⟩
      exact h.filled line hget
    · rintro _ ⟨rfl⟩ _
      exact hdata
    · rintro _ ⟨rfl⟩ hc
      cases hc
  | written line b data hget hmodified hdata hwritten =>
    have hlast : ∀ data', WrittenLast (c.push op n' out) a data' ↔ data = data' := by
      intro data'
      simp [writtenLast_push_of_some hwritten]
    constructor <;> simp only [Config.push_state, hget, hlast]
    · simp
    · rintro _ ⟨rfl⟩
      exact ⟨data, hdata⟩
    · rintro _ ⟨rfl⟩ _
      exact ⟨data, hdata, rfl⟩
    · rintro _ ⟨rfl⟩ hc
      rw [hmodified] at hc
      cases hc
  | invalidated b hget hinv =>
    have hlast : ∀ data, ¬ WrittenLast (c.push op n' out) a data := by
      intro data
      simp [writtenLast_push_of_some hinv]
    constructor <;> simp only [Config.push_state, hget, Option.map_eq_some_iff]
    · exact fun _ => hlast
    · rintro _ ⟨line, hline, rfl⟩
      exact h.filled line hline
    · rintro _ ⟨line, _, rfl⟩ hc
      exact absurd rfl hc
    · exact fun _ _ _ => hlast
  | lost e hget hwrite hlost =>
    have hlast : ∀ data, ¬ WrittenLast (c.push op n' out) a data := by
      intro data
      rw [writtenLast_push_of_some hlost]
      rintro ⟨b, he⟩
      exact hwrite b data he
    constructor <;> simp only [Config.push_state, hget]
    · exact fun _ => hlast
    · simp
    · simp
    · simp

variable {nodeId : String} {peers : List String} {maxSize : Nat} {ttl : Rat} {c : CacheNodeRun α δ}

theorem reflects_of_leads
    (h : CacheNode.machine.Leads Machine.always ([], .init nodeId peers maxSize ttl) c) (a : α) :
    Reflects c a := by
  refine h.invariant (I := fun c => Reflects c a) ?_ ?_
  · have hnone : ∀ data, ¬ WrittenLast (([], .init nodeId peers maxSize ttl) : CacheNodeRun α δ)
        a data := by
      rintro data ⟨b, hb⟩
      simp [lastEvent] at hb
    exact ⟨fun _ => hnone, by simp [CacheNode.init], by simp [CacheNode.init],
      by simp [CacheNode.init]⟩
  · intro c op n' out _ ih _ hs
    have hstep := AddressStep.apply c.2 op a
    rw [CacheNode.machine_step.mp hs] at hstep
    exact ih.push hstep

/-- **Reads follow the latest event**, exactly where the line is not
INVALID: there a read returns data if and only if that was written last. -/
theorem reads_latest_iff
    (h : CacheNode.machine.Leads Machine.always ([], .init nodeId peers maxSize ttl) c) (a : α) :
    ReadsLatest c a ↔ c.2.heldInvalid a = false := by
  have hreflects := reflects_of_leads h a
  have hfalse : c.2.heldInvalid a = false ↔
      ∀ line, c.2.cache.get? a = some line → line.state ≠ .invalid := by
    simp [← Bool.not_eq_true, CacheNode.heldInvalid_iff]
  rw [hfalse]
  simp only [ReadsLatest, CacheNode.read_answer]
  constructor
  · intro hreads line hget hinvalid
    obtain ⟨data, hdata⟩ := hreflects.filled line hget
    refine hreflects.invalid line hget hinvalid data ((hreads data).mp ?_)
    simp [hget, hdata]
  · intro hvalid data
    cases hget : c.2.cache.get? a with
    | none => simpa using hreflects.absent hget data
    | some line =>
      obtain ⟨data', hdata, b, hlast⟩ := hreflects.valid line hget (hvalid line hget)
      rw [Option.bind_some, hdata, Option.some.injEq]
      constructor
      · rintro rfl
        exact ⟨b, hlast⟩
      · rintro ⟨b', hlast'⟩
        rw [hlast, Option.some.injEq, CacheEvent.written.injEq] at hlast'
        exact hlast'.2

/-- Written, invalidated and written again. -/
def rewriteRun : List (CacheOp Int String) :=
  [.write 1 "a" 0, .invalidate 1, .write 1 "b" 1]

theorem reads_latest_iff_rewriteRun :
    ∃ c : CacheNodeRun Int String,
      CacheNode.machine.Leads Machine.always ([], .init "n1" [] 2 300) c ∧
      (c.2.read 1).2 = some "b" ∧ ReadsLatest c 1 := by
  obtain ⟨c, hc, hp⟩ := Machine.exists_leads_of_exec CacheNode.machine Machine.always
    ([], .init "n1" [] 2 300) rewriteRun
    (fun c => decide ((c.2.read 1).2 = some "b" ∧ c.2.heldInvalid 1 = false)) (by decide +kernel)
  obtain ⟨hread, hvalid⟩ := of_decide_eq_true hp
  exact ⟨c, hc, hread, (reads_latest_iff hc 1).mpr hvalid⟩

/-- Written, then invalidated: the read after it misses, and answers. -/
def invalidRun : List (CacheOp Int String) := [.write 1 "a" 0, .invalidate 1]

theorem invalid_read :
    ∃ c : CacheNodeRun Int String,
      CacheNode.machine.Leads Machine.always ([], .init "n1" [] 2 300) c ∧
      (c.2.read 1).2 = some "a" ∧ lastEvent c 1 = some (.invalidated 1) ∧ ¬ ReadsLatest c 1 := by
  obtain ⟨c, hc, hp⟩ := Machine.exists_leads_of_exec CacheNode.machine Machine.always
    ([], .init "n1" [] 2 300) invalidRun
    (fun c => decide ((c.2.read 1).2 = some "a") &&
      (lastEvent c 1 matches some (.invalidated 1))) (by decide +kernel)
  simp only [Bool.and_eq_true, decide_eq_true_eq] at hp
  obtain ⟨hread, hevent⟩ := hp
  have hlast : lastEvent c 1 = some (.invalidated 1) := by
    split at hevent
    · assumption
    · cases hevent
  refine ⟨c, hc, hread, hlast, ?_⟩
  intro hreads
  obtain ⟨b, hb⟩ := (hreads "a").mp hread
  rw [hlast] at hb
  cases hb

end SyncSystem.Cache

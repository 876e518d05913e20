/-
SyncSystem.Cache.TouchOrder — what an `LRUReplacement` lists after any
number of touches.

A touch takes the address out, appends it and drops the head if the list
has become too long: `trim` of a use. So the list is the end of the list
of all addresses by their last touch, whatever has been pushed out and
touched again on the way (`touch_order_contents`).
-/
import SyncSystem.Cache.Replacement

namespace SyncSystem.Cache

open SyncSystem.Python
open SyncSystem.Recency

variable {α : Type} [BEq α]

namespace LRUReplacement

/-- A fresh `LRUReplacement(capacity)` after some touches. -/
def touches (capacity : Nat) (us : List α) : LRUReplacement α :=
  us.foldl touch ⟨capacity, .empty⟩

@[simp] theorem touches_append (capacity : Nat) (us : List α) (a : α) :
    touches capacity (us ++ [a]) = (touches capacity us).touch a := by
  simp [touches]

theorem touches_capacity (capacity : Nat) (us : List α) :
    (touches capacity us).capacity = capacity := by
  induction us using List.reverseRecOn with
  | nil => rfl
  | append_singleton us a ih => rw [touches_append, touch_capacity, ih]

variable [EquivBEq α]

/-- With room or without: the address goes to the end of the list, and the
head goes if there is one too many. -/
theorem keys_touch (l : LRUReplacement α) (address : α) :
    (l.touch address).accessOrder.keys =
      trim l.capacity (l.accessOrder.keys.filter (fun a => !(a == address)) ++ [address]) := by
  have hkeys : ((l.accessOrder.del address).set address ()).keys =
      l.accessOrder.keys.filter (fun a => !(a == address)) ++ [address] := by
    rw [Dict.keys_set_new (l.contains_del_self address), Dict.keys_del]
  rw [← hkeys, trim, Dict.length_keys]
  simp only [touch]
  split
  · simp [Dict.popFirst, Dict.keys, List.map_tail]
  · rfl

theorem keys_touches (capacity : Nat) (us : List α) :
    (touches capacity us).accessOrder.keys = (distinctUses us).rtake capacity := by
  induction us using List.reverseRecOn with
  | nil => exact (List.rtake_nil capacity).symm
  | append_singleton us a ih =>
    rw [touches_append, keys_touch, touches_capacity]
    exact trim_use ih a

end LRUReplacement

variable [EquivBEq α]

/-- **The contents of the LRU list.** After any touches it has the
addresses touched most recently, as many as there is capacity for, each
once and ordered by last touch; `evict` gives the oldest of them. -/
theorem touch_order_contents (capacity : Nat) (us : List α) :
    MostRecent capacity us (LRUReplacement.touches capacity us).accessOrder.keys ∧
      (LRUReplacement.touches capacity us).accessOrder.keys = (distinctUses us).rtake capacity ∧
      (LRUReplacement.touches capacity us).evict = ((distinctUses us).rtake capacity).head? := by
  have hkeys := LRUReplacement.keys_touches capacity us
  refine ⟨?_, hkeys, ?_⟩
  · rw [hkeys]
    exact mostRecent_rtake capacity us
  · rw [← hkeys]
    rfl

/-- 2 is pushed out and comes back; 1 is the oldest of the three touched
last. -/
theorem touch_order_contents_returning :
    (LRUReplacement.touches 3 [1, 2, 3, 1, 4, 2, 4]).accessOrder.keys = ([1, 2, 4] : List Int) ∧
      (LRUReplacement.touches 3 [1, 2, 3, 1, 4, 2, 4]).evict = some (1 : Int) ∧
      MostRecent 3 [1, 2, 3, 1, 4, 2, 4] ([1, 2, 4] : List Int) := by
  obtain ⟨hrecent, hkeys, hevict⟩ := touch_order_contents 3 ([1, 2, 3, 1, 4, 2, 4] : List Int)
  have hlist : (distinctUses ([1, 2, 3, 1, 4, 2, 4] : List Int)).rtake 3 = [1, 2, 4] := by decide
  rw [hlist] at hkeys hevict
  rw [hkeys] at hrecent
  exact ⟨hkeys, hevict, hrecent⟩

end SyncSystem.Cache

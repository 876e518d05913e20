/-
SyncSystem.Server.Segments — how a request comes out of a connection.

Translated from the beginning of `_handle_request` in
`src/nodes/__main__.py`. A sender writes `json.dumps(request).encode()`
and nothing that says how long it is; the server reads once, at most
8192 bytes, and takes what it gets for the request. A read returns what
has arrived so far, so this is the request only if all of it has
(`request_received_iff`), and never for a longer one
(`not_received_of_size_lt`). What has been cut short is no JSON text, and
the connection is closed without an answer (`handleConnection_cut`).

`json.loads` is a parameter. Of it is known that it reads back the
request that was sent and that it takes no text with an unclosed bracket.
-/
import SyncSystem.Python.JsonText
import SyncSystem.Server.AccessControl
import SyncSystem.Text.Utf8

namespace SyncSystem.Server

open SyncSystem.Python
open SyncSystem.Text

/-! ## Sending and reading -/

/-- `json.dumps(request).encode()`. -/
def encode (floatRepr : Rat → String) (request : Obj) : ByteArray :=
  (dumps floatRepr (.obj request)).toUTF8

/-- What `reader.read(k)` can return when these bytes have not been read:
one or more of them, and at most `k`. -/
structure IsRead (k : Nat) (unread data : ByteArray) : Prop where
  nonempty : 0 < data.size
  size_le : data.size ≤ k
  isPrefix : ∃ rest, data ++ rest = unread

/-- `json.loads(data.decode())`, which has to be a dict: `request.get` is
used on it. -/
def receive (loads : String → Except PyError Json) (data : ByteArray) : Except PyError Obj :=
  match String.fromUTF8? data with
  | none => .error .valueError
  | some text =>
      match loads text with
      | .error e => .error e
      | .ok (.obj request) => .ok request
      | .ok _ => .error .attributeError

/-- `_handle_request`, from what the read returned on. -/
def handleConnection (loads : String → Except PyError Json) (keys : Keys) (s : NodeServer)
    (now : Rat) (data : ByteArray) : Program components Served :=
  if data.isEmpty then .done ⟨s, [], none⟩
  else
    match receive loads data with
    | .error _ => .done ⟨s, [], none⟩
    | .ok request => handleRequest keys s now request

/-- The server parses this very request and processes it. -/
structure Handles (loads : String → Except PyError Json) (data : ByteArray) (request : Obj) :
    Prop where
  parses : receive loads data = .ok request
  processes : ∀ keys s now,
    handleConnection loads keys s now data = handleRequest keys s now request

/-! ## One read -/

theorem handles_of_receive {loads : String → Except PyError Json} {data : ByteArray}
    {request : Obj} (hdata : 0 < data.size) (h : receive loads data = .ok request) :
    Handles loads data request := by
  refine ⟨h, fun keys s now => ?_⟩
  have hne : ¬ data.isEmpty = true := by
    simp only [ByteArray.isEmpty, beq_iff_eq]
    omega
  simp only [handleConnection, if_neg hne, h]

section

variable {loads : String → Except PyError Json} {floatRepr : Rat → String} {request : Obj}
  {data : ByteArray}

/-- All bytes of a request are read back. -/
theorem receive_encode (hloads : loads (dumps floatRepr (.obj request)) = .ok (.obj request)) :
    receive loads (encode floatRepr request) = .ok request := by
  simp only [receive, encode, fromUTF8?_toUTF8, hloads]

/-- Some of the bytes, but not all, are no JSON text. -/
theorem receive_cut (hfloat : FloatText floatRepr)
    (hclosed : ∀ text v, loads text = .ok v → Balanced text.toList)
    (hread : IsRead 8192 (encode floatRepr request) data) (hcut : data ≠ encode floatRepr request) :
    ∃ e, receive loads data = .error e := by
  unfold receive
  cases htext : String.fromUTF8? data with
  | none => exact ⟨_, rfl⟩
  | some text =>
    have hbytes : text.toUTF8 = data := toUTF8_of_fromUTF8? htext
    obtain ⟨rest, hrest⟩ := hread.isPrefix
    have hprefix : text.toList <+: (dumps floatRepr (.obj request)).toList :=
      prefix_of_toUTF8_append (by rw [hbytes]; exact hrest)
    have hne : text ≠ "" := by
      rintro rfl
      have := hread.nonempty
      rw [← hbytes] at this
      exact absurd this (by decide)
    have hshort : text ≠ dumps floatRepr (.obj request) := by
      rintro rfl
      exact hcut hbytes.symm
    have hopen : ¬ Balanced text.toList := not_balanced_of_prefix_dumps hfloat hprefix hne hshort
    cases hv : loads text with
    | error e => exact ⟨e, by simp only [hv]⟩
    | ok v => exact absurd (hclosed text v hv) hopen

/-- A request that has been cut short is dropped without an answer. -/
theorem handleConnection_cut (hfloat : FloatText floatRepr)
    (hclosed : ∀ text v, loads text = .ok v → Balanced text.toList)
    (hread : IsRead 8192 (encode floatRepr request) data) (hcut : data ≠ encode floatRepr request)
    (keys : Keys) (s : NodeServer) (now : Rat) :
    handleConnection loads keys s now data = .done ⟨s, [], none⟩ := by
  obtain ⟨e, he⟩ := receive_cut hfloat hclosed hread hcut
  simp only [handleConnection, he, ite_self]

/-- A request of more than 8192 bytes is never received. -/
theorem not_received_of_size_lt (hfloat : FloatText floatRepr)
    (hclosed : ∀ text v, loads text = .ok v → Balanced text.toList)
    (hread : IsRead 8192 (encode floatRepr request) data)
    (hlong : 8192 < (encode floatRepr request).size) : ∃ e, receive loads data = .error e := by
  apply receive_cut hfloat hclosed hread
  rintro rfl
  have := hread.size_le
  omega

/-- The server handles the request that was sent exactly when its one
read returns all of it. -/
theorem request_received_iff (hfloat : FloatText floatRepr)
    (hclosed : ∀ text v, loads text = .ok v → Balanced text.toList)
    (hloads : loads (dumps floatRepr (.obj request)) = .ok (.obj request))
    (hread : IsRead 8192 (encode floatRepr request) data) :
    Handles loads data request ↔ data = encode floatRepr request := by
  constructor
  · intro h
    by_contra hcut
    obtain ⟨e, he⟩ := receive_cut hfloat hclosed hread hcut
    rw [h.parses] at he
    cases he
  · rintro rfl
    exact handles_of_receive hread.nonempty (receive_encode hloads)

end

/-! ## A request in two segments -/

def heartbeatRequest : Obj := [("action", .str "heartbeat")]

def plainRepr (_ : Rat) : String := "0.0"

/-- `json.loads` on the texts of this request. -/
def loadsHeartbeat (text : String) : Except PyError Json :=
  if text = dumps plainRepr (.obj heartbeatRequest) then .ok (.obj heartbeatRequest)
  else .error .valueError

theorem floatText_plainRepr : FloatText plainRepr := by
  intro q c hc
  have hall : "0.0".toList.all (fun c => c.isDigit ∨ c ∈ ['+', '-', '.', 'e']) = true := by decide
  exact of_decide_eq_true (List.all_eq_true.mp hall c hc)

theorem loadsHeartbeat_dumps :
    loadsHeartbeat (dumps plainRepr (.obj heartbeatRequest)) = .ok (.obj heartbeatRequest) :=
  if_pos rfl

theorem balanced_of_loadsHeartbeat (text : String) (v : Json) (h : loadsHeartbeat text = .ok v) :
    Balanced text.toList := by
  unfold loadsHeartbeat at h
  split at h
  · next htext =>
    rw [htext]
    decide
  · cases h

/-- In one segment, the request is handled. -/
theorem request_received_iff_heartbeat :
    Handles loadsHeartbeat (encode plainRepr heartbeatRequest) heartbeatRequest :=
  (request_received_iff floatText_plainRepr balanced_of_loadsHeartbeat loadsHeartbeat_dumps
    ⟨by decide, by decide, .empty, ByteArray.append_empty⟩).mpr rfl

/-- The part of it that arrives first. -/
def firstSegment : ByteArray := "\x7b\x22action\x22:".toUTF8

/-- The server reads between the two segments. -/
theorem heartbeat_in_two_segments :
    loadsHeartbeat (dumps plainRepr (.obj heartbeatRequest)) = .ok (.obj heartbeatRequest) ∧
    IsRead 8192 (encode plainRepr heartbeatRequest) firstSegment ∧
    ¬ Handles loadsHeartbeat firstSegment heartbeatRequest := by
  have hread : IsRead 8192 (encode plainRepr heartbeatRequest) firstSegment := by
    refine ⟨by decide, by decide, " \x22heartbeat\x22\x7d".toUTF8, ?_⟩
    rw [firstSegment, encode, String.toUTF8_eq_toByteArray, String.toUTF8_eq_toByteArray,
      String.toUTF8_eq_toByteArray, ← String.toByteArray_append]
    congr 1
  refine ⟨loadsHeartbeat_dumps, hread, fun h => ?_⟩
  obtain ⟨e, he⟩ := receive_cut floatText_plainRepr balanced_of_loadsHeartbeat hread (by decide)
  rw [h.parses] at he
  cases he

end SyncSystem.Server

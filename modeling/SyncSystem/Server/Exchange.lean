/-
SyncSystem.Server.Exchange — a cache behind a connection.

Translated from `_handle_request` in `src/nodes/__main__.py`, from the
bytes that come in to the bytes that go out. A client sends a request as
JSON text, the server decodes what its one read has returned, stores or
looks up, and writes its response as JSON text; what the client decodes
is the response. So a string of any characters (a lone surrogate is none:
`encode` raises on it) goes through two texts, the UTF-8 of both and the
UTF-8 of the line, and comes back as it was (`cache_over_connections`),
if the request fits into the read; if it does not, nothing happens and
nothing is answered. The address has at most 4300 digits, as otherwise
the client's decoder raises on the response.
-/
import SyncSystem.Server.CacheRoundTrip
import SyncSystem.Server.Isolation

namespace SyncSystem.Server

open SyncSystem.Python
open SyncSystem.Cache

variable {ω : Type}

/-! ## A connection -/

variable (J : Codec) (keys : Keys) (other : Handler components ω)

/-- `_handle_request`: the server afterwards, and the bytes it writes. -/
def CacheServer.connect (s : CacheServer ω) (data : ByteArray) (now : Rat) :
    CacheServer ω × Option ByteArray :=
  let (served, comps) :=
    (handleConnection J.loads keys s.server now data).run (cacheHandler other now) s.comps
  (⟨served.server, comps⟩, served.reply.map (encode J.floatRepr))

/-- A client sends `request`, of which `arrived` bytes have come in when
the server reads, and decodes what it is answered. -/
def CacheServer.exchange (s : CacheServer ω) (request : Obj) (arrived : Nat) (now : Rat) :
    CacheServer ω × Option (Except PyError Obj) :=
  let (s', answer) :=
    s.connect J keys other ((encode J.floatRepr request).extract 0 (min arrived 8192)) now
  (s', answer.map (receive J.loads))

variable {J keys other} {s : CacheServer ω} {request : Obj} {arrived : Nat}

/-- A request that has not arrived whole changes nothing and has no answer. -/
theorem exchange_part (hjson : J.Lawful)
    (hrequest : (Json.obj request).Readable J.floatRepr J.floatOf)
    (h : ¬ ReadWhole J request arrived) (now : Rat) :
    s.exchange J keys other request arrived now = (s, none) := by
  simp only [CacheServer.exchange, CacheServer.connect, handleConnection_eq,
    requestIn_read hjson hrequest, if_neg h]
  rfl

/-- One that has is served, and its response read back. -/
theorem exchange_whole (hjson : J.Lawful)
    (hrequest : (Json.obj request).Readable J.floatRepr J.floatOf)
    (h : ReadWhole J request arrived) (hasks : Asks keys request) (now : Rat) :
    s.exchange J keys other request arrived now =
      ((s.serve other request now).1,
        (s.serve other request now).2.map fun response =>
          receive J.loads (encode J.floatRepr response)) := by
  have hext := hasks.external
  rw [internal_iff, Bool.or_eq_false_iff] at hext
  simp only [CacheServer.exchange, CacheServer.connect, handleConnection_eq,
    requestIn_read hjson hrequest, if_pos h, Option.elim_some, handleRequest_of_asks hasks,
    CacheServer.serve, processRequest_eq hext.1, Option.map_map]
  rfl

/-! ## Writing and reading -/

/-- The response to a write. -/
theorem serve_write (hs : Listed s.cache) {n : Int} {v : String} (h : Writes n v request)
    (now : Rat) :
    (s.serve other request now).2 = some [("success", .bool true), ("address", .int n)] := by
  have hok : (s.comps.cache.write (intKey n) v.toUTF8 now).2 = .ok true :=
    (hs.write_eq (intKey n) v.toUTF8 now).1
  rw [CacheServer.serve_response h.external, performAction_write h.action]
  simp only [cacheWrite, h.data, run_invoke, cacheHandler, h.address, key_int, hok]
  rfl

/-- A request with a token for its action, whose text is read back. -/
structure Sendable (J : Codec) (keys : Keys) (request : Obj) : Prop extends Asks keys request where
  readable : (Json.obj request).Readable J.floatRepr J.floatOf

theorem readable_writeResponse (J : Codec) (n : Int) :
    (Json.obj [("success", .bool true), ("address", .int n)]).Readable J.floatRepr J.floatOf := by
  simp [Json.Readable, Json.FieldsReadable]

theorem readable_readResponse (J : Codec) (n : Int) (v : String) :
    (Json.obj [("address", .int n), ("data", if v = "" then .null else .str v)]).Readable
      J.floatRepr J.floatOf := by
  split <;> simp [Json.Readable, Json.FieldsReadable]

/-- The client reads back what is answered. -/
theorem receive_response (hjson : J.Lawful) {response : Obj}
    (hreadable : (Json.obj response).Readable J.floatRepr J.floatOf)
    (hwithin : (Json.obj response).Within 100) :
    receive J.loads (encode J.floatRepr response) = .ok response :=
  receive_encode (hjson.loads_dumps hreadable (hjson.accepts _ hreadable hwithin))

/-- **The cache over connections.** In every state of a server: a write
that arrives whole is acknowledged, and once it is, a read that arrives
whole, at any time while the line is left alone, brings back the string
that was sent, whatever its characters, and `null` for the empty one. A
write that does not fit into the read leaves the server as it is, without
an answer. -/
theorem cache_over_connections (hjson : J.Lawful) {server : NodeServer} {peers : List String}
    {maxSize : Nat} {ttl : Rat} {rest : ω} {c : ServerRun ω}
    (h : (CacheServer.machine other).Leads Machine.always
      ([], .init server peers maxSize ttl rest) c) {n : Int} (hn : n.natAbs.repr.length ≤ 4300)
    {v : String} {write : Obj} (hwrite : Writes n v write) (hsend : Sendable J keys write)
    (arrived : Nat) (now : Rat) :
    (ReadWhole J write arrived →
      (c.2.exchange J keys other write arrived now).2 =
        some (.ok [("success", .bool true), ("address", .int n)]) ∧
      ∀ c', (CacheServer.machine other).Leads (LeavesAlone other (intKey n))
          ([], (c.2.exchange J keys other write arrived now).1) c' →
        ∀ read, AsksFor "cache_read" n read → Sendable J keys read →
          ∀ arrived' now', ReadWhole J read arrived' →
            (c'.2.exchange J keys other read arrived' now').2 =
              some (.ok [("address", .int n), ("data", if v = "" then .null else .str v)])) ∧
    (¬ ReadWhole J write arrived →
      c.2.exchange J keys other write arrived now = (c.2, none)) := by
  have hlisted := listed_of_leads h
  refine ⟨?_, fun hpart => exchange_part hjson hsend.readable hpart now⟩
  intro hwhole
  rw [exchange_whole hjson hsend.readable hwhole hsend.toAsks, serve_write hlisted hwrite]
  refine ⟨?_, ?_⟩
  · rw [Option.map_some, receive_response hjson (readable_writeResponse J n)]
    simp [Json.Within, Json.FieldsWithin, hn]
  · intro c' hbetween read hread hsend' arrived' now' hwhole'
    have hstores := line_kept hbetween (stores_serve hlisted hwrite now)
    rw [exchange_whole hjson hsend'.readable hwhole' hsend'.toAsks, serve_read hstores hread,
      Option.map_some, receive_response hjson (readable_readResponse J n v)]
    split <;> simp [Json.Within, Json.FieldsWithin, hn]

/-- A request of a client with the admin key. -/
def clientRequest (action : String) (address : Int) (data : String) : Obj :=
  ("token", .str "admin-secret-key-change-this") :: cacheRequest action address data

def plainCodec : Codec := .unlimited plainRepr fun _ => 0

theorem sendable_clientRequest (address : Int) (data : String) :
    Sendable plainCodec demoKeys (clientRequest "cache_write" address data) ∧
      Sendable plainCodec demoKeys (clientRequest "cache_read" address data) := by
  have hasks : ∀ action ∈ componentActions,
      Asks demoKeys (clientRequest action address data) := fun action haction =>
    ⟨(by decide : isInternalType (.str "") = false), ⟨action, haction, rfl⟩, Or.inl rfl⟩
  have hreadable : ∀ action, (Json.obj (clientRequest action address data)).Readable
      plainCodec.floatRepr plainCodec.floatOf := by
    intro action
    simp [clientRequest, cacheRequest, Json.Readable, Json.FieldsReadable]
  exact ⟨⟨hasks _ (by decide), hreadable _⟩, ⟨hasks _ (by decide), hreadable _⟩⟩

/-- A string with a quote, a line end and a letter that is no ASCII. -/
def quotedText : String := "\"ä\n"

theorem cache_over_connections_quotedText :
    ∃ c' : ServerRun Unit, (CacheServer.machine deafHandler).Leads
        (LeavesAlone deafHandler (intKey 5)) ([], (smallServer.exchange plainCodec demoKeys
          deafHandler (clientRequest "cache_write" 5 quotedText) 8192 0).1) c' ∧
      (c'.2.exchange plainCodec demoKeys deafHandler (clientRequest "cache_read" 5 "") 8192 1).2 =
        some (.ok [("address", .int 5), ("data", .str quotedText)]) := by
  have hstart : (CacheServer.machine deafHandler).Leads Machine.always
      ([], .init soleServer [] 2 300 ()) ([], smallServer) := .refl
  have hwhole : ReadWhole plainCodec (clientRequest "cache_write" 5 quotedText) 8192 := by
    decide +kernel
  have hwhole' : ReadWhole plainCodec (clientRequest "cache_read" 5 "") 8192 := by
    decide +kernel
  have hread := ((cache_over_connections (J := plainCodec)
    (Codec.lawful_unlimited floatText_plainRepr _) hstart (n := 5) (by decide) (v := quotedText)
    ⟨⟨rfl, rfl, rfl⟩, rfl⟩ (sendable_clientRequest 5 quotedText).1 8192 0).1 hwhole).2 _ .refl
    (clientRequest "cache_read" 5 "") ⟨rfl, rfl, rfl⟩ (sendable_clientRequest 5 "").2 8192 1 hwhole'
  rw [if_neg (by decide)] at hread
  exact ⟨_, .refl, hread⟩

end SyncSystem.Server

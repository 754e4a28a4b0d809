import Wssocks.Lib.Base64
import Wssocks.Lib.Json
import Wssocks.Wss.Message

/-!
# Messages as bytes (wss/ws_datatypes.go)

A message on a websocket is a JSON text: a `WebSocketMessage` with the id, the type and
the data of the message. Bytes are written in Base64. The reader takes the data as a
`json.RawMessage` first, looks at the id and the type, and reads the data according to the
type. A raw message stays the JSON value here that its text was read as.

The libraries that write ids and that carry messages are no part of the repository. What the
code uses of them is a parameter (`KsuidLib`, `WebsocketLib`), with what it relies on.

`Incoming` is what `dispatchDataMessage` has read of a frame when it comes to the hubs.

Results:

* `readMessage_sayID`, `readMessage_establish`, `readMessage_writeProxyMessage`,
  `readMessage_tellClose`, `readMessage_heartBeats`: the server reads the messages that the client writes.
* `readMessage_establish` also tells that an address reaches the server cleaned.
-/

namespace Wssocks.Wss

open Wssocks.Lib

/-! ## The libraries -/

/-- What the code uses of `github.com/segmentio/ksuid`: an id that was written is read back, and its text is a short
    one of ASCII. -/
structure KsuidLib (KSUID : Type) where
  /-- `KSUID.String`. -/
  string : KSUID → List UInt8
  /-- `ksuid.Parse`. -/
  parse : List UInt8 → Option KSUID
  /-- `KSUID.MarshalText`, by which `encoding/json` writes an id. -/
  marshalText : KSUID → List UInt8
  /-- `KSUID.UnmarshalText`. -/
  unmarshalText : List UInt8 → Option KSUID
  parse_string : ∀ id, parse (string id) = some id
  unmarshalText_marshalText : ∀ id, unmarshalText (marshalText id) = some id
  string_ascii : ∀ id, ∀ b ∈ string id, b.toNat < 128
  marshalText_ascii : ∀ id, ∀ b ∈ marshalText id, b.toNat < 128
  length_string : ∀ id, (string id).length ≤ 27
  length_marshalText : ∀ id, (marshalText id).length ≤ 27

/-- A message as `WsConn.Read` returns it: whether its type is `MessageText`, and its bytes. -/
structure Frame where
  isText : Bool
  data : List UInt8
  deriving DecidableEq, Repr

/-- What the code uses of `nhooyr.io/websocket`: a value is sent as a text message with its JSON, which white space may
    follow, and the read limit does not keep out what is within it. -/
structure WebsocketLib where
  /-- `wsjson.Write` of a value with the text `t`. -/
  write (t : List UInt8) : Frame
  /-- After `SetReadLimit(limit)`, `Read` fails on the message. -/
  refuses (limit : ℕ) (f : Frame) : Bool
  isText_write : ∀ t, (write t).isText = true
  data_write : ∀ t, ∃ s, (write t).data = t ++ s ∧ Json.skip s = [] ∧ s.length ≤ 1
  limit_lt : ∀ limit f, refuses limit f = true → limit < f.data.length

/-! ## Writing -/

section Code

variable {KSUID : Type} [Inhabited KSUID] (K : KsuidLib KSUID) (L : WebsocketLib)

/-- The text of a `WebSocketMessage` (wss/ws_datatypes.go:55-59), with that of its data. -/
def webSocketMessage (id : KSUID) (type data : List UInt8) : List UInt8 :=
  Json.objectText [(text "id", Json.quote (K.string id)), (text "type", Json.quote type), (text "data", data)]

/-- The number of a tag (wss/proxy_client.go:13-20). -/
def Tag.toInt : Tag → ℤ
  | .data => 0
  | .estOk => 1
  | .estErr => 2
  | .noMore => 3
  | .handshake => 4
  | .eof => 5

/-- `WriteProxyMessage` (wss/concurrent_websocket.go:31-39). -/
def writeProxyMessage (id : KSUID) (tag : ℤ) (data : List UInt8) : Frame :=
  L.write (webSocketMessage K id (text "data")
    (Json.objectText [(text "tag", Json.intText tag), (text "base64", Json.quote (base64Encode data))]))

/-- `SayID` (wss/proxy_client.go:38-50). -/
def sayID (id masterID : KSUID) : Frame :=
  L.write (webSocketMessage K id (text "sayhi") (Json.quote (K.marshalText masterID)))

/-- A `[]ksuid.KSUID`; the empty list of `transData` is the nil slice. -/
def sortedText (sorted : List KSUID) : List UInt8 :=
  if sorted = [] then text "null" else Json.arrayText (sorted.map fun id => Json.quote (K.marshalText id))

/-- `Establish` (wss/proxy_client.go:54-75). -/
def establish (id : KSUID) (firstSendData : Option (List UInt8)) (addr : List UInt8) (sorted : List KSUID) : Frame :=
  L.write (webSocketMessage K id (text "est") (Json.objectText [
    (text "addr", Json.quote addr),
    (text "sorted", sortedText K sorted),
    (text "with_data", if firstSendData.isSome then text "true" else text "false"),
    (text "base64", Json.quote ((firstSendData.map base64Encode).getD []))]))

/-- `TellClose` of the client and `tellClosed` of the server (wss/websocket_client.go:71-84, wss/hub.go:82-95). -/
def tellClose (id : KSUID) : Frame := L.write (webSocketMessage K id (text "finish") (text "null"))

/-- The heart beat (wss/heart_beat.go:42-46), with the zero id. -/
def heartBeats : Frame := L.write (webSocketMessage K default (text "heart_beat") (text "null"))

/-! ## Reading -/

/-- A `WebSocketMessage` that is read: `Data` points to a `json.RawMessage` at first, and no longer once a `null`
    was read for it. -/
structure WebSocketMessage where
  id : List UInt8 := []
  type : List UInt8 := []
  pointer : Bool := true
  data : Option Json := none

/-- The fields of a `WebSocketMessage`. -/
def webSocketMessageFields : List (List UInt8 × (WebSocketMessage → Json → Option WebSocketMessage)) := [
  (text "id", fun x v => (Json.decodeString x.id v).map fun s => { x with id := s }),
  (text "type", fun x v => (Json.decodeString x.type v).map fun s => { x with type := s }),
  (text "data", fun x v =>
    match v with
    | .null => some { x with pointer := false }
    | v => some (if x.pointer then { x with data := some v } else x))]

/-- A KSUID, by its `UnmarshalText`. -/
def decodeKsuid (old : KSUID) : Json → Option KSUID
  | .str s => K.unmarshalText s
  | .null => some old
  | _ => none

/-- A `[]ksuid.KSUID`. -/
def decodeSorted : Json.Slice KSUID → Json → Option (Json.Slice KSUID) := Json.decodeSlice (decodeKsuid K)

/-- `ProxyData` (wss/ws_datatypes.go:62-65). -/
structure ProxyData where
  tag : ℤ := 0
  dataBase64 : List UInt8 := []

def proxyDataFields : List (List UInt8 × (ProxyData → Json → Option ProxyData)) := [
  (text "tag", fun x v => (Json.decodeInt x.tag v).map fun i => { x with tag := i }),
  (text "base64", fun x v => (Json.decodeString x.dataBase64 v).map fun s => { x with dataBase64 := s })]

/-- `ProxyEstMessage` (wss/ws_datatypes.go:71-76). -/
structure ProxyEstMessage (KSUID : Type) where
  addr : List UInt8 := []
  sorted : Json.Slice KSUID := {}
  withData : Bool := false
  dataBase64 : List UInt8 := []

def proxyEstMessageFields : List (List UInt8 × (ProxyEstMessage KSUID → Json → Option (ProxyEstMessage KSUID))) := [
  (text "addr", fun x v => (Json.decodeString x.addr v).map fun s => { x with addr := s }),
  (text "sorted", fun x v => (decodeSorted K x.sorted v).map fun ids => { x with sorted := ids }),
  (text "with_data", fun x v => (Json.decodeBool x.withData v).map fun b => { x with withData := b }),
  (text "base64", fun x v => (Json.decodeString x.dataBase64 v).map fun s => { x with dataBase64 := s })]

/-- Why a frame is given up. -/
inductive WireErr where
  | json | ksuid | base64
  deriving DecidableEq, Repr

/-- The id, the type and the raw data of a frame (wss/proxy_server.go:53-67, wss/websocket_client.go:120-130). -/
def readEnvelope (data : List UInt8) : Except WireErr (KSUID × List UInt8 × Option Json) := do
  let stream ← ((Json.parse data).bind (Json.decodeStruct webSocketMessageFields {})).elim (.error .json) .ok
  let id ← (K.parse stream.id).elim (.error .ksuid) .ok
  return (id, stream.type, stream.data)

/-- `json.Unmarshal(socketData, …)`; there is no JSON in the raw message of a `null`. -/
def unmarshalData {α : Type} (raw : Option Json) (decode : Json → Option α) : Except WireErr α :=
  (raw.bind decode).elim (.error .json) .ok

/-- What `dispatchDataMessage` knows of a message when it comes to the hubs. The bytes of a `data` message are still
    in Base64. -/
inductive Incoming (KSUID : Type) where
  | beats
  | finish (id : KSUID)
  | sayhi (id masterID : KSUID)
  | est (id : KSUID) (addr : List UInt8) (sorted : List KSUID) (data : Option (List UInt8))
  | data (id : KSUID) (tag : ℤ) (dataBase64 : List UInt8)
  /-- A type that the server does not know. -/
  | other
  deriving DecidableEq, Repr

/-- The types of messages that the server knows (wss/ws_datatypes.go:11-18). -/
inductive WsTp where
  | beats | close | data | est | hi
  /-- Any other text; nothing reads the type `version`. -/
  | unknown
  deriving DecidableEq, Repr

def wsTp (type : List UInt8) : WsTp :=
  if type = text "heart_beat" then .beats
  else if type = text "finish" then .close
  else if type = text "data" then .data
  else if type = text "est" then .est
  else if type = text "sayhi" then .hi
  else .unknown

/-- The data that `est` brings along for the destination. -/
def ProxyEstMessage.estData (msg : ProxyEstMessage KSUID) : Except WireErr (Option (List UInt8)) :=
  if msg.withData then (base64Decode msg.dataBase64).elim (.error .base64) (.ok ∘ some) else .ok none

/-- What `dispatchDataMessage` reads from a frame (wss/proxy_server.go:53-137). -/
def readMessage (data : List UInt8) : Except WireErr (Incoming KSUID) :=
  (readEnvelope K data).bind fun (id, type, raw) =>
    match wsTp type with
    | .beats => .ok .beats
    | .close => .ok (.finish id)
    | .hi => (unmarshalData raw (decodeKsuid K default)).map (.sayhi id)
    | .est => (unmarshalData raw (Json.decodeStruct (proxyEstMessageFields K) {})).bind fun msg =>
        msg.estData.map (.est id msg.addr msg.sorted.elems)
    | .data => (unmarshalData raw (Json.decodeStruct proxyDataFields {})).map fun msg =>
        .data id msg.tag msg.dataBase64
    | .unknown => .ok .other

end Code

/-! ## Round trips -/

section RoundTrip

variable {KSUID : Type} [Inhabited KSUID] {K : KsuidLib KSUID} {L : WebsocketLib} {id : KSUID}
  {type t : List UInt8} {v : Json} {k : ℕ}

theorem clean_text (s : String) : clean (text s) = text s := clean_utf8 _

omit [Inhabited KSUID] in
theorem clean_string (id : KSUID) : clean (K.string id) = K.string id := clean_of_lt (K.string_ascii id)

omit [Inhabited KSUID] in
/-- The text of an id in JSON. -/
theorem reads_marshalText (id : KSUID) : Json.Reads 0 (Json.quote (K.marshalText id)) (.str (K.marshalText id)) := by
  have h := Json.reads_quote (K.marshalText id)
  rwa [clean_of_lt (K.marshalText_ascii id)] at h

/-- What `wsjson.Write` sends is read as what it was given. -/
theorem parse_write (h : Json.Reads k t v) (hk : k ≤ Json.maxNestingDepth) : Json.parse (L.write t).data = some v := by
  obtain ⟨s, hdata, hs, -⟩ := L.data_write t
  rw [hdata]
  exact h.parse hk hs

/-- What a `json.RawMessage` holds after a value was read for it. -/
def rawMessage : Json → Option Json
  | .null => none
  | v => some v

omit [Inhabited KSUID] in
/-- The frame of a message is read as its id, type and data. -/
theorem readEnvelope_write (h : Json.Reads k t v) (hk : k < Json.maxNestingDepth) (htype : clean type = type) :
    readEnvelope K (L.write (webSocketMessage K id type t)).data = .ok (id, type, rawMessage v) := by
  have hparse : Json.parse (L.write (webSocketMessage K id type t)).data =
      some (.obj [(text "id", .str (K.string id)), (text "type", .str type), (text "data", v)]) := by
    have hread := Json.reads_object [(text "id", Json.quote (K.string id)), (text "type", Json.quote type),
      (text "data", t)] (.cons ((Json.reads_quote _).mono k.zero_le)
        (.cons ((Json.reads_quote _).mono k.zero_le) (.cons h .nil)))
    have := parse_write (L := L) hread hk
    simpa only [webSocketMessage, List.map_cons, List.map_nil, List.zip_cons_cons, List.zip_nil_right,
      clean_text, clean_string, htype] using this
  have hdecode : Json.decodeStruct webSocketMessageFields {}
      (.obj [(text "id", .str (K.string id)), (text "type", .str type), (text "data", v)]) =
      some { id := K.string id, type := type, pointer := (rawMessage v).isSome, data := rawMessage v } := by
    rw [Json.decodeStruct_cons (i := 0) (by decide) rfl]
    simp only [Json.decodeString, Option.map_some, Option.bind_some]
    rw [Json.decodeStruct_cons (i := 1) (by decide) rfl]
    simp only [Json.decodeString, Option.map_some, Option.bind_some]
    rw [Json.decodeStruct_cons (i := 2) (by decide) rfl]
    cases v <;> simp only [Option.bind_some, Json.decodeStruct_nil, if_true, rawMessage, Option.isSome_none,
      Option.isSome_some]
  simp only [readEnvelope, hparse, Option.bind_some, hdecode, Option.elim_some, bind, Except.bind, K.parse_string]
  rfl

theorem readMessage_heartBeats : readMessage K (heartBeats K L).data = .ok .beats := by
  have htype : wsTp (text "heart_beat") = .beats := rfl
  rw [readMessage, heartBeats, readEnvelope_write Json.reads_null (by decide) (clean_text _)]
  simp only [Except.bind, htype]

theorem readMessage_tellClose (id : KSUID) : readMessage K (tellClose K L id).data = .ok (.finish id) := by
  have htype : wsTp (text "finish") = .close := rfl
  rw [readMessage, tellClose, readEnvelope_write Json.reads_null (by decide) (clean_text _)]
  simp only [Except.bind, htype]

theorem readMessage_sayID (id masterID : KSUID) :
    readMessage K (sayID K L id masterID).data = .ok (.sayhi id masterID) := by
  have htype : wsTp (text "sayhi") = .hi := rfl
  rw [readMessage, sayID, readEnvelope_write (reads_marshalText masterID) (by decide) (clean_text _)]
  simp only [Except.bind, htype, rawMessage, unmarshalData, Option.bind_some, decodeKsuid,
    K.unmarshalText_marshalText, Option.elim_some, Except.map]

/-- A text of Base64 is UTF-8. -/
theorem clean_base64Encode (s : List UInt8) : clean (base64Encode s) = base64Encode s :=
  clean_of_lt (base64Encode_lt s)

theorem readMessage_writeProxyMessage {tag : ℤ} (hlo : -2 ^ 63 ≤ tag) (hhi : tag < 2 ^ 63) (id : KSUID)
    (data : List UInt8) :
    readMessage K (writeProxyMessage K L id tag data).data = .ok (.data id tag (base64Encode data)) := by
  have htype : wsTp (text "data") = .data := rfl
  have hread := Json.reads_object [(text "tag", Json.intText tag),
    (text "base64", Json.quote (base64Encode data))] (.cons (Json.reads_int tag) (.cons (Json.reads_quote _) .nil))
  simp only [List.map_cons, List.map_nil, List.zip_cons_cons, List.zip_nil_right, clean_text, clean_base64Encode]
    at hread
  have hdecode : Json.decodeStruct proxyDataFields {} (.obj [(text "tag", .num (Json.intText tag)),
      (text "base64", .str (base64Encode data))]) = some ⟨tag, base64Encode data⟩ := by
    rw [Json.decodeStruct_cons (i := 0) (by decide) rfl]
    simp only [Json.decodeInt, Json.parseInt_intText hlo hhi, Option.map_some, Option.bind_some]
    rw [Json.decodeStruct_cons (i := 1) (by decide) rfl]
    simp only [Json.decodeString, Option.map_some, Option.bind_some, Json.decodeStruct_nil]
  rw [readMessage, writeProxyMessage, readEnvelope_write hread (by decide) (clean_text _)]
  simp only [Except.bind, htype, rawMessage, unmarshalData, Option.bind_some, hdecode, Option.elim_some, Except.map]

theorem reads_sortedText (sorted : List KSUID) :
    ∃ v, Json.Reads 1 (sortedText K sorted) v ∧ decodeSorted K {} v = some ⟨sorted, []⟩ := by
  unfold sortedText
  split_ifs with h
  · exact ⟨_, Json.reads_null.mono (by decide), by rw [h]; rfl⟩
  · refine ⟨_, Json.reads_array (sorted.map fun id => .str (K.marshalText id)) ?_, ?_⟩
    · refine List.forall₂_map_left_iff.mpr (List.forall₂_map_right_iff.mpr (List.forall₂_same.mpr fun id _ => ?_))
      exact reads_marshalText id
    · have helems := Json.decodeElems_map (f := decodeKsuid K) (g := fun id => .str (K.marshalText id))
        (fun _ id => K.unmarshalText_marshalText id) sorted []
      cases sorted with
      | nil => exact absurd rfl h
      | cons id sorted =>
        rw [List.map_cons] at helems ⊢
        show (Json.decodeElems (decodeKsuid K) [] _).map _ = _
        rw [helems]
        rfl

/-- The server gets the address cleaned, and everything else as it was. -/
theorem readMessage_establish (id : KSUID) (firstSendData : Option (List UInt8)) (addr : List UInt8)
    (sorted : List KSUID) :
    readMessage K (establish K L id firstSendData addr sorted).data = .ok (.est id (clean addr) sorted firstSendData) := by
  have htype : wsTp (text "est") = .est := rfl
  obtain ⟨v, hsorted, hv⟩ := reads_sortedText (K := K) sorted
  have hdata : clean ((firstSendData.map base64Encode).getD []) = (firstSendData.map base64Encode).getD [] := by
    cases firstSendData with
    | none => exact clean_utf8 []
    | some data => exact clean_base64Encode data
  have hread := Json.reads_object [(text "addr", Json.quote addr), (text "sorted", sortedText K sorted),
    (text "with_data", if firstSendData.isSome then text "true" else text "false"),
    (text "base64", Json.quote ((firstSendData.map base64Encode).getD []))]
    (.cons ((Json.reads_quote _).mono (by decide)) (.cons hsorted (.cons ((Json.reads_bool _).mono (by decide))
      (.cons ((Json.reads_quote _).mono (by decide)) .nil))))
  simp only [List.map_cons, List.map_nil, List.zip_cons_cons, List.zip_nil_right, clean_text, hdata] at hread
  have hkeys : (proxyEstMessageFields K).map (fun f => Json.foldKey f.1) =
      [text "addr", text "sorted", text "with_data", text "base64"].map Json.foldKey := rfl
  have hdecode : Json.decodeStruct (proxyEstMessageFields K) {} (.obj [(text "addr", .str (clean addr)),
      (text "sorted", v), (text "with_data", .bool firstSendData.isSome),
      (text "base64", .str ((firstSendData.map base64Encode).getD []))]) =
      some ⟨clean addr, ⟨sorted, []⟩, firstSendData.isSome, (firstSendData.map base64Encode).getD []⟩ := by
    rw [Json.decodeStruct_cons (i := 0) (by rw [hkeys]; decide) rfl]
    simp only [Json.decodeString, Option.map_some, Option.bind_some]
    rw [Json.decodeStruct_cons (i := 1) (by rw [hkeys]; decide) rfl]
    simp only [hv, Option.map_some, Option.bind_some]
    rw [Json.decodeStruct_cons (i := 2) (by rw [hkeys]; decide) rfl]
    simp only [Json.decodeBool, Option.map_some, Option.bind_some]
    rw [Json.decodeStruct_cons (i := 3) (by rw [hkeys]; decide) rfl]
    simp only [Json.decodeString, Option.map_some, Option.bind_some, Json.decodeStruct_nil]
  rw [readMessage, establish, readEnvelope_write hread (by decide) (clean_text _)]
  simp only [Except.bind, htype, rawMessage, unmarshalData, Option.bind_some, hdecode, Option.elim_some]
  cases firstSendData with
  | none => rfl
  | some data =>
    simp only [ProxyEstMessage.estData, Option.isSome_some, if_true, Option.map_some, Option.getD_some,
      base64Decode_encode, Option.elim_some, Function.comp_apply, Except.map]

end RoundTrip

/-! ## An instance of the libraries -/

/-- Ids of one digit. -/
def KsuidLib.digit : KsuidLib (Fin 10) where
  string id := [digitByte id]
  parse s := (List.finRange 10).find? fun id => s = [digitByte id]
  marshalText id := [digitByte id]
  unmarshalText s := (List.finRange 10).find? fun id => s = [digitByte id]
  parse_string := by decide
  unmarshalText_marshalText := by decide
  string_ascii := by decide +kernel
  marshalText_ascii := by decide +kernel
  length_string := by decide
  length_marshalText := by decide

/-- A newline ends every message. -/
def WebsocketLib.newline : WebsocketLib where
  write t := ⟨true, t ++ [0x0A]⟩
  refuses limit f := decide (limit < f.data.length)
  isText_write := fun _ => rfl
  data_write := fun _ => ⟨[0x0A], rfl, rfl, le_rfl⟩
  limit_lt := fun _ _ h => of_decide_eq_true h

end Wssocks.Wss

import Wssocks.Wss.Client
import Wssocks.Wss.Server
import Wssocks.Wss.Wire

/-!
# Frames

What the two readers do with the bytes of a message: `dispatchMessage` of the server and
the loop of `ListenIncomeMsg` of the client. Neither gives up on a message that it cannot
read, both go on with the next one. `serverReads` and `clientReads` are the messages that
a frame stands for; to a frame that is given up corresponds one that has no effect.

Results:

* `Server.dispatchMessage_fst`, `Client.listenIncomeMsg_eq`: handling a frame is handling this message.
* `serverReads_frame`, `clientReads_frame`: each side reads what the other one wrote.
* `length_frame_le`: no message of a session exceeds the read limit of the server.
-/

namespace Wssocks.Wss

open Wssocks.Lib Wssocks.Pipe

/-- The tag with a number; `noMore`, which nothing tests for, stands for the numbers that are no tag. -/
def Tag.ofInt (i : ℤ) : Tag :=
  if i = 0 then .data
  else if i = 1 then .estOk
  else if i = 2 then .estErr
  else if i = 4 then .handshake
  else if i = 5 then .eof
  else .noMore

theorem Tag.ofInt_toInt (tag : Tag) : Tag.ofInt tag.toInt = tag := by cases tag <;> rfl

theorem Tag.ofInt_eq_eof_iff {i : ℤ} : Tag.ofInt i = .eof ↔ i = 5 := by
  unfold Tag.ofInt
  split_ifs <;> simp_all

theorem Tag.ofInt_eq_data_iff {i : ℤ} : Tag.ofInt i = .data ↔ i = 0 := by
  unfold Tag.ofInt
  split_ifs <;> simp_all

/-! ## The server -/

section Server

variable {W KSUID : Type} [DecidableEq W] [DecidableEq KSUID] [Inhabited KSUID] (K : KsuidLib KSUID)

/-- `dispatchDataMessage` from the `switch` on (wss/proxy_server.go:76-137), up to its first access to shared state. -/
def Server.receive (s : Server W KSUID) (w : W) : Incoming KSUID → Server W KSUID × Option WireErr
  | .beats | .other => (s, none)
  | .finish id => (s.dispatch w (.finish id), none)
  | .sayhi id masterID => (s.dispatch w (.sayhi id masterID), none)
  | .est id _ sorted _ => (s.dispatch w (.est id sorted), none)
  | .data id tag dataBase64 =>
    match s.links.hub.ref? id with
    | none => (s, none)
    | some q =>
      if tag = Tag.eof.toInt then (s.goReader w (.check q ⟨true, []⟩), none)
      else match base64Decode dataBase64 with
        | none => (s, some .base64)
        | some bytes => (s.goReader w (.check q ⟨false, bytes⟩), none)

/-- `dispatchDataMessage` (wss/proxy_server.go:53-138), with the error it returns. -/
def Server.dispatchDataMessage (s : Server W KSUID) (w : W) (data : List UInt8) : Server W KSUID × Option WireErr :=
  match readMessage K data with
  | .error e => (s, some e)
  | .ok x => s.receive w x

/-- `dispatchMessage` (wss/proxy_server.go:46-51). -/
def Server.dispatchMessage (s : Server W KSUID) (w : W) (f : Frame) : Server W KSUID × Option WireErr :=
  if f.isText then s.dispatchDataMessage K w f.data else (s, none)

/-- What the server has read, as a message: a chunk that is not Base64 has no effect. -/
def Incoming.msg : Incoming KSUID → Msg KSUID
  | .beats | .other => .beats
  | .finish id => .finish id
  | .sayhi id masterID => .sayhi id masterID
  | .est id _ sorted _ => .est id sorted
  | .data id tag dataBase64 =>
    if tag = Tag.eof.toInt then .data id .eof []
    else (base64Decode dataBase64).elim .beats (.data id (Tag.ofInt tag))

/-- The message that a frame is to the server. -/
def serverReads (f : Frame) : Msg KSUID :=
  if f.isText then
    match readMessage K f.data with
    | .error _ => .beats
    | .ok x => x.msg
  else .beats

variable {K} {s : Server W KSUID} {w : W}

omit [Inhabited KSUID] in
theorem Server.receive_fst (x : Incoming KSUID) : (s.receive w x).1 = s.dispatch w x.msg := by
  cases x with
  | beats | other | finish | sayhi | est => rfl
  | data id tag dataBase64 =>
    simp only [Server.receive, Incoming.msg]
    cases hq : s.links.hub.ref? id with
    | none =>
      split_ifs
      · simp only [Server.dispatch, hq]
      · cases base64Decode dataBase64 <;> simp only [Option.elim_none, Option.elim_some, Server.dispatch, hq]
    | some q =>
      split_ifs with htag
      · simp only [Server.dispatch, hq, if_true]
      · have hne : Tag.ofInt tag ≠ .eof := fun h => htag (Tag.ofInt_eq_eof_iff.mp h)
        cases base64Decode dataBase64 <;>
          simp only [Option.elim_none, Option.elim_some, Server.dispatch, hq, if_neg hne]

/-- The server handles a frame as the message that it stands for. -/
theorem Server.dispatchMessage_fst (f : Frame) : (s.dispatchMessage K w f).1 = s.dispatch w (serverReads K f) := by
  simp only [Server.dispatchMessage, Server.dispatchDataMessage, serverReads]
  split_ifs
  · cases readMessage K f.data with
    | error e => rfl
    | ok x => exact Server.receive_fst x
  · rfl

end Server

/-! ## The client -/

section Client

variable {KSUID : Type} [DecidableEq KSUID] [Inhabited KSUID] (K : KsuidLib KSUID)

/-- One turn of the loop of `ListenIncomeMsg` on websocket `i` after the read, with the callbacks of `transData`
    (wss/websocket_client.go:116-150, wss/wssocks_client.go:213-231), up to the first access to shared state. -/
def Client.listenIncomeMsg (ids : List KSUID) (s : Client KSUID) (i : ℕ) (data : List UInt8) : Client KSUID :=
  match readEnvelope K data with
  | .error _ => s
  | .ok (id, type, raw) =>
    -- `GetProxyById`
    if s.registered i ∧ ids[i]? = some id then
      match wsTp type with
      | .close => s.goReader i (.remove id .test)
      | .data =>
        match unmarshalData raw (Json.decodeStruct proxyDataFields {}) with
        | .error _ => s
        | .ok proxyData =>
          match base64Decode proxyData.dataBase64 with
          | none => s
          | some bytes =>
            match s.links.hub.ref? id with
            | none => s
            | some q =>
              if proxyData.tag = Tag.data.toInt then s.goReader i (.check q ⟨false, bytes⟩)
              else if proxyData.tag = Tag.eof.toInt then s.goReader i (.check q ⟨true, []⟩)
              else s
      | _ => s
    else s

/-- The message that a frame is to the client, which knows two types. -/
def clientReads (data : List UInt8) : Msg KSUID :=
  match readMessage K data with
  | .ok (.finish id) => .finish id
  | .ok (.data id tag dataBase64) => (base64Decode dataBase64).elim .beats (.data id (Tag.ofInt tag))
  | _ => .beats

variable {K} {ids : List KSUID} {s : Client KSUID} {i : ℕ}

omit [Inhabited KSUID] in
/-- The callback for data, as `dispatch` has it. -/
theorem Client.dispatch_data (id : KSUID) (tag : ℤ) (bytes : List UInt8) :
    s.dispatch ids i (.data id (Tag.ofInt tag) bytes) =
      if s.registered i ∧ ids[i]? = some id then
        match s.links.hub.ref? id with
        | none => s
        | some q =>
          if tag = Tag.data.toInt then s.goReader i (.check q ⟨false, bytes⟩)
          else if tag = Tag.eof.toInt then s.goReader i (.check q ⟨true, []⟩)
          else s
      else s := by
  simp only [Client.dispatch]
  congr 1
  cases s.links.hub.ref? id with
  | none => rfl
  | some q =>
    by_cases hdata : tag = 0
    · subst hdata
      rfl
    by_cases heof : tag = 5
    · subst heof
      rfl
    have hnd : Tag.ofInt tag ≠ .data := fun h => hdata (Tag.ofInt_eq_data_iff.mp h)
    have hne : Tag.ofInt tag ≠ .eof := fun h => heof (Tag.ofInt_eq_eof_iff.mp h)
    have h0 : tag ≠ Tag.data.toInt := hdata
    have h5 : tag ≠ Tag.eof.toInt := heof
    simp only [if_neg h0, if_neg h5]
    cases htag : Tag.ofInt tag with
    | data => exact absurd htag hnd
    | eof => exact absurd htag hne
    | estOk | estErr | noMore | handshake => rfl

/-- The client handles a frame as the message that it stands for. -/
theorem Client.listenIncomeMsg_eq (data : List UInt8) :
    s.listenIncomeMsg K ids i data = s.dispatch ids i (clientReads K data) := by
  unfold Client.listenIncomeMsg clientReads readMessage
  cases readEnvelope K data with
  | error e => rfl
  | ok r =>
    obtain ⟨id, type, raw⟩ := r
    simp only [Except.bind]
    cases wsTp type with
    | beats | unknown => simp only [Client.dispatch, ite_self]
    | close => rfl
    | hi => cases unmarshalData raw (decodeKsuid K default) <;> simp only [Except.map, Client.dispatch, ite_self]
    | est =>
      cases unmarshalData raw (Json.decodeStruct (proxyEstMessageFields K) {}) with
      | error e => simp only [Client.dispatch, ite_self]
      | ok msg => cases hd : msg.estData <;> simp only [hd, Except.map, Client.dispatch, ite_self]
    | data =>
      cases unmarshalData raw (Json.decodeStruct proxyDataFields {}) with
      | error e => simp only [Except.map, Client.dispatch, ite_self]
      | ok msg =>
        simp only [Except.map]
        cases hb : base64Decode msg.dataBase64 with
        | none => simp only [Option.elim_none, Client.dispatch, ite_self]
        | some bytes => simp only [Option.elim_some, Client.dispatch_data]

end Client

/-! ## The frames of a session -/

section Frame

variable {KSUID : Type} [Inhabited KSUID] (K : KsuidLib KSUID) (L : WebsocketLib)

/-- The frame of a message; `addr` is the address in the `est` message. `WriteEOF` sends no bytes
    (wss/concurrent_websocket.go:82-92), and SOCKS5 has no data to establish a connection with
    (wss/proxy_client_socks5.go:23-25). -/
def Msg.frame (addr : List UInt8) : Msg KSUID → Frame
  | .beats => heartBeats K L
  | .finish id => tellClose K L id
  | .sayhi id masterID => sayID K L id masterID
  | .est id sorted => establish K L id none addr sorted
  | .data id tag bytes => writeProxyMessage K L id tag.toInt (if tag = .eof then [] else bytes)

/-- The size of the buffer of `CopyBuffer` (pipe/func.go:68). -/
abbrev copySize : ℕ := 4 * 1024

/-- The read limits of the server and of the client (wss/wssocks_server.go:56, client/client.go:204). -/
abbrev serverLimit : ℕ := 2 ^ 23

@[inherit_doc serverLimit]
abbrev clientLimit : ℕ := 2 ^ 29

/-- A message that a session over `n` lanes sends: `CopyBuffer` reads no more than its buffer holds, and an end of
    stream has no data. -/
def Msg.Small (n : ℕ) : Msg KSUID → Prop
  | .est _ sorted => sorted.length ≤ n
  | .data _ tag bytes => bytes.length ≤ copySize ∧ (tag = .eof → bytes = [])
  | _ => True

/-- The messages that the server sends. -/
def Msg.isReply : Msg KSUID → Bool
  | .finish _ | .data _ _ _ => true
  | _ => false

variable {K L} {addr : List UInt8} {n : ℕ} {m : Msg KSUID}

theorem Tag.toInt_mem (tag : Tag) : -2 ^ 63 ≤ tag.toInt ∧ tag.toInt < 2 ^ 63 := by cases tag <;> decide

theorem readMessage_data (id : KSUID) (tag : Tag) (bytes : List UInt8) :
    readMessage K (writeProxyMessage K L id tag.toInt bytes).data = .ok (.data id tag.toInt (base64Encode bytes)) :=
  readMessage_writeProxyMessage tag.toInt_mem.1 tag.toInt_mem.2 id bytes

theorem isText_frame : (m.frame K L addr).isText = true := by cases m <;> exact L.isText_write _

/-- The server reads the message that was sent. -/
theorem serverReads_frame (h : m.Small n) : serverReads K (m.frame K L addr) = m := by
  rw [serverReads, if_pos isText_frame]
  cases m with
  | beats => simp only [Msg.frame, readMessage_heartBeats, Incoming.msg]
  | finish id => simp only [Msg.frame, readMessage_tellClose, Incoming.msg]
  | sayhi id masterID => simp only [Msg.frame, readMessage_sayID, Incoming.msg]
  | est id sorted => simp only [Msg.frame, readMessage_establish, Incoming.msg]
  | data id tag bytes =>
    simp only [Msg.frame, readMessage_data, Incoming.msg, base64Decode_encode, Option.elim_some, Tag.ofInt_toInt]
    by_cases htag : tag = .eof
    · subst htag
      rw [if_pos rfl, h.2 rfl]
    · have hne : tag.toInt ≠ Tag.eof.toInt := fun he => htag (by rw [← Tag.ofInt_toInt tag, he]; rfl)
      rw [if_neg hne, if_neg htag]

/-- The client reads what the server sends. -/
theorem clientReads_frame (h : m.Small n) (hr : m.isReply = true) : clientReads K (m.frame K L addr).data = m := by
  cases m with
  | beats | sayhi | est => cases hr
  | finish id => simp only [Msg.frame, clientReads, readMessage_tellClose]
  | data id tag bytes =>
    simp only [Msg.frame, clientReads, readMessage_data, base64Decode_encode, Option.elim_some, Tag.ofInt_toInt]
    split_ifs with htag
    · rw [h.2 htag]
    · rfl

theorem length_quote_text (s : String) : (Json.quote (text s)).length ≤ 6 * (text s).length + 2 :=
  Json.length_quote_le _

omit [Inhabited KSUID] in
theorem length_quote_marshalText (id : KSUID) : (Json.quote (K.marshalText id)).length ≤ 164 := by
  have h := Json.length_quote_le (K.marshalText id)
  have := K.length_marshalText id
  omega

omit [Inhabited KSUID] in
/-- The envelope adds less than 400 bytes to the data. -/
theorem length_webSocketMessage_le (id : KSUID) (type data : List UInt8) (htype : type.length ≤ 10) :
    (L.write (webSocketMessage K id type data)).data.length ≤ data.length + 400 := by
  obtain ⟨s, hdata, -, hs⟩ := L.data_write (webSocketMessage K id type data)
  have h1 := length_quote_text "id"
  have h2 := length_quote_text "type"
  have h3 := length_quote_text "data"
  have h4 := Json.length_quote_le (K.string id)
  have h6 := K.length_string id
  have h5 := Json.length_quote_le type
  have ht1 : (text "id").length = 2 := rfl
  have ht2 : (text "type").length = 4 := rfl
  have ht3 : (text "data").length = 4 := rfl
  rw [hdata]
  simp only [webSocketMessage, Json.objectText, Json.membersText, Json.memberText, List.length_append,
    List.length_cons, List.length_nil]
  omega

omit [Inhabited KSUID] in
theorem length_sortedText_le (sorted : List KSUID) : (sortedText K sorted).length ≤ 165 * sorted.length + 4 := by
  unfold sortedText
  split_ifs with h
  · have : (text "null").length = 4 := rfl
    omega
  · have hall : ∀ t ∈ sorted.map fun id => Json.quote (K.marshalText id), t.length ≤ 164 := by
      intro t ht
      obtain ⟨id, -, rfl⟩ := List.mem_map.mp ht
      exact length_quote_marshalText id
    have := Json.length_arrayText_le hall
    rw [List.length_map] at this
    omega

omit [Inhabited KSUID] in
theorem length_establish_le (id : KSUID) (sorted : List KSUID) :
    (establish K L id none addr sorted).data.length ≤ 6 * addr.length + 165 * sorted.length + 600 := by
  refine (length_webSocketMessage_le _ _ _ (by decide)).trans ?_
  have h1 := length_quote_text "addr"
  have h2 := length_quote_text "sorted"
  have h3 := length_quote_text "with_data"
  have h4 := length_quote_text "base64"
  have h5 := Json.length_quote_le addr
  have h6 := length_sortedText_le (K := K) sorted
  have h7 : (Json.quote []).length ≤ 2 := Json.length_quote_le []
  have ht1 : (text "addr").length = 4 := rfl
  have ht2 : (text "sorted").length = 6 := rfl
  have ht3 : (text "with_data").length = 9 := rfl
  have ht4 : (text "base64").length = 6 := rfl
  have ht5 : (text "false").length = 5 := rfl
  simp only [Json.objectText, Json.membersText, Json.memberText, List.length_append, List.length_cons,
    List.length_nil, Option.isSome_none, Bool.false_eq_true, if_false, Option.map_none, Option.getD_none]
  omega

omit [Inhabited KSUID] in
theorem length_writeProxyMessage_le (id : KSUID) (tag : Tag) (bytes : List UInt8) :
    (writeProxyMessage K L id tag.toInt bytes).data.length ≤ 8 * bytes.length + 600 := by
  refine (length_webSocketMessage_le _ _ _ (by decide)).trans ?_
  have h1 := length_quote_text "tag"
  have h2 := length_quote_text "base64"
  have h3 := Json.length_quote_le (base64Encode bytes)
  have h4 : (Json.intText tag.toInt).length = 1 := by cases tag <;> decide
  have ht1 : (text "tag").length = 3 := rfl
  have ht2 : (text "base64").length = 6 := rfl
  rw [length_base64Encode] at h3
  simp only [Json.objectText, Json.membersText, Json.memberText, List.length_append, List.length_cons, List.length_nil]
  omega

/-- No message of a session exceeds the read limit of the server. -/
theorem length_frame_le (haddr : addr.length ≤ 1024) (hn : n ≤ 2 ^ 15) (h : m.Small n) :
    (m.frame K L addr).data.length ≤ serverLimit := by
  unfold serverLimit
  cases m with
  | beats =>
    have hnull : (text "null").length = 4 := rfl
    have := length_webSocketMessage_le (K := K) (L := L) default (text "heart_beat") (text "null") (by decide)
    exact this.trans (by omega)
  | finish id =>
    have hnull : (text "null").length = 4 := rfl
    have := length_webSocketMessage_le (K := K) (L := L) id (text "finish") (text "null") (by decide)
    exact this.trans (by omega)
  | sayhi id masterID =>
    have hid := length_quote_marshalText (K := K) masterID
    have := length_webSocketMessage_le (K := K) (L := L) id (text "sayhi") (Json.quote (K.marshalText masterID))
      (by decide)
    exact this.trans (by omega)
  | est id sorted =>
    have hsorted : sorted.length ≤ n := h
    exact (length_establish_le id sorted).trans (by omega)
  | data id tag bytes =>
    have hbytes : bytes.length ≤ 4 * 1024 := h.1
    refine (length_writeProxyMessage_le id tag _).trans ?_
    split_ifs
    · exact (by decide : 8 * 0 + 600 ≤ 2 ^ 23)
    · omega

end Frame

end Wssocks.Wss

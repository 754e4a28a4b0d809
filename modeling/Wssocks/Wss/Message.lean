import Wssocks.Pipe.Basic

/-!
# Websocket messages (wss/ws_datatypes.go, wss/proxy_client.go)

The JSON and base64 layers are left out: a message is its decoded content. Of an
`est` message the address and the initial data are left out; what the address
check and the dial make of the address is a choice of the environment, and
`establish` does not use the data.
-/

namespace Wssocks.Wss

open Wssocks.Pipe

/-- `TagData` … `TagEOF` (wss/proxy_client.go:13-20). -/
inductive Tag where
  | data | estOk | estErr | noMore | handshake | eof
  deriving DecidableEq, Repr

/-- `WebSocketMessage` by its `Type` (wss/ws_datatypes.go:11-18): `heart_beat`,
    `finish`, `sayhi`, `est` and `data`. -/
inductive Msg (KSUID : Type) where
  | beats
  | finish (id : KSUID)
  | sayhi (id masterID : KSUID)
  | est (id : KSUID) (sorted : List KSUID)
  | data (id : KSUID) (tag : Tag) (bytes : List UInt8)
  deriving DecidableEq, Repr

/-- `webSocketWriter` (wss/concurrent_websocket.go:41-47): the websocket it writes to
    and the id it puts on its messages. -/
structure WsWriter (W KSUID : Type) where
  ws : W
  id : KSUID
  deriving DecidableEq, Repr

/-- The message `webSocketWriter.Write` or `WriteEOF` sends for a chunk
    (wss/concurrent_websocket.go:65-92). -/
def WsWriter.msg {W KSUID : Type} (w : WsWriter W KSUID) (b : Buffer) : W × Msg KSUID :=
  (w.ws, .data w.id (if b.eof then .eof else .data) b.data)

end Wssocks.Wss

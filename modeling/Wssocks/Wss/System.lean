import Wssocks.Lib.Lts
import Wssocks.Wss.Client
import Wssocks.Wss.Server

/-!
# One session: a `transData` call, its lanes, and the server

The client and the server joined by the websockets: each websocket carries two
independent FIFOs, and a message sent by one side is appended to the inbox of the
other side's reader for that websocket.
-/

namespace Wssocks.Wss

open Wssocks.Lib Wssocks.Pipe

variable {KSUID : Type} [DecidableEq KSUID] [Inhabited KSUID]

/-- A session: the client's side and the server's. -/
structure System (KSUID : Type) [DecidableEq KSUID] where
  client : Client KSUID
  server : Server ℕ KSUID

/-- A step of the session is a step of one side. -/
inductive SysLabel (KSUID : Type) where
  | client (l : ClientLabel)
  | server (l : ServerLabel ℕ KSUID)
  deriving DecidableEq, Repr

namespace System

/-- The start of `transData` with a server that has seen nothing of the session. -/
def init : System KSUID := ⟨Client.init, Server.init⟩

/-- One step, with the delivery of the message it sends. -/
def step (ids : List KSUID) (s : System KSUID) : SysLabel KSUID → Option (System KSUID)
  | .client l => (s.client.step ids l).map fun r =>
      ⟨r.1, r.2.elim s.server fun m => s.server.arrive m.1 m.2⟩
  | .server l => (s.server.step l).map fun r =>
      ⟨r.2.elim s.client fun m => s.client.arrive m.1 m.2, r.1⟩

end System

end Wssocks.Wss

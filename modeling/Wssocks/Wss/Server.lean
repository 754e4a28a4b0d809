import Wssocks.Pipe.Link
import Wssocks.Pipe.CopyBuffer
import Wssocks.Wss.Message

/-!
# The server (wss/proxy_server.go, wss/hub.go, wss/wssocks_server.go)

The state of a server process: the two global hubs, one reader goroutine for
each websocket, the connection pool of each websocket's `Hub`, and the `establish`
goroutines with the goroutines they start. `W` names the websockets. `inbox w` are
the messages that arrived on websocket `w` and were not read yet, in order.

A step is one access to shared state by one goroutine, or an arrival. The labels
carry the scheduler's choice and everything the environment decides: the outcome
of the address check and of the dial, what is read from the destination, whether
a timer fires first, whether a write succeeds.
-/

namespace Wssocks.Wss

open Wssocks.Lib Wssocks.Pipe

/-- How far a call of `DefaultProxyEst.Close` is (wss/proxy_server.go:159-168). -/
inductive CloseAt where
  /-- Before the test of `e.status`. -/
  | test
  /-- Before `serverLinkHub.RemoveAll`. -/
  | links
  /-- Before `serverQueueHub.Remove`. -/
  | queue
  deriving DecidableEq, Repr

/-- Where the reader goroutine of a websocket is (`ServeHTTP`,
    wss/wssocks_server.go:57-69, and `dispatchDataMessage`). -/
inductive Reader (KSUID : Type) where
  /-- In `wc.Read`. -/
  | idle
  /-- `sayhi`, after `serverQueueHub.Add`. -/
  | hi (id masterID : KSUID)
  /-- `est`, after `serverQueueHub.SetSort`. -/
  | est (id : KSUID) (sorted : List KSUID)
  /-- `data`, in `link.writeBuf` before the test of `status`. -/
  | check (q : ℕ) (b : Buffer)
  /-- `data`, in `link.writeBuf` at the `select`. -/
  | select (q : ℕ) (b : Buffer)
  /-- `finish`, in the `Close` of instance `e`. -/
  | close (e : ℕ) (id : KSUID) (at' : CloseAt)
  /-- In the deferred `hub.Close`, holding `h.mu`, between two entries. -/
  | hubClose
  /-- In the deferred `hub.Close`, holding `h.mu`, in the `Close` of instance `e`. -/
  | hubCloseAt (e : ℕ) (id : KSUID) (at' : CloseAt)
  | stopped
  deriving DecidableEq, Repr

/-- The reader holds the lock `h.mu` of its hub. -/
def Reader.locked {KSUID : Type} : Reader KSUID → Bool
  | .hubClose | .hubCloseAt _ _ _ => true
  | _ => false

/-- Where an `establishProxy` goroutine is (wss/proxy_server.go:142-152, 171-242). -/
inductive EstPc where
  /-- In `checkAddrPrivite` and `net.DialTimeout`. -/
  | dial
  | linkTrySend
  | addProxy
  | queueTrySend
  /-- Before `serverQueueHub.Get`. -/
  | get
  /-- At `writer.Wait()`. -/
  | wait
  /-- The deferred `hub.RemoveProxy`. -/
  | removeProxy
  /-- The deferred `conn.Close`. -/
  | connClose
  /-- The deferred `e.Close`. -/
  | close (at' : CloseAt)
  /-- Before `hub.tellClosed`. -/
  | tell
  | returned
  deriving DecidableEq, Repr

/-- The goroutine that waits for the end of the request (wss/proxy_server.go:201-211). -/
inductive WaiterPc where
  | idle
  /-- Before `serverLinkHub.Get`. -/
  | get
  /-- At `link.Wait()`. -/
  | wait (q : ℕ)
  | done
  deriving DecidableEq, Repr

/-- An `establish` call: its websocket and id, the `DefaultProxyEst` instance's
    status (`closed`), and the goroutines it started. Its destination connection
    has the number of the instance. -/
structure Est (W KSUID : Type) where
  ws : W
  id : KSUID
  pc : EstPc
  closed : Bool
  writer : Option ℕ
  waiter : WaiterPc
  copy : Copy

/-- The start of `go establishProxy(hub, …)`. -/
def newEst {W KSUID : Type} (w : W) (id : KSUID) : Est W KSUID where
  ws := w
  id := id
  pc := .dial
  closed := false
  writer := none
  waiter := .idle
  copy := {}

/-- What `checkAddrPrivite` and the dial make of the address. -/
inductive Dial where
  | privite | error | connected
  deriving DecidableEq, Repr

section Model

variable {W KSUID : Type} [DecidableEq W] [DecidableEq KSUID] [Inhabited W] [Inhabited KSUID]

instance : Inhabited (Est W KSUID) := ⟨newEst default default⟩

/-- The server process. `pool w` is the `connPool` of the hub of websocket `w`; it
    maps an id to its instance. `crashed` is set by a nil dereference in
    `establish`. -/
structure Server (W KSUID : Type) [DecidableEq KSUID] where
  queues : Queues KSUID (WsWriter W KSUID)
  links : Links KSUID
  inbox : W → List (Msg KSUID)
  reader : W → Reader KSUID
  pool : W → AList (fun _ : KSUID => ℕ)
  ests : ℕ → Est W KSUID
  nextEst : ℕ
  crashed : Bool

/-- The labels of the server's steps. -/
inductive ServerLabel (W KSUID : Type) where
  /-- The reader of `w` takes the next message and starts to dispatch it. -/
  | recv (w : W)
  /-- The next operation of the dispatch on `w`. -/
  | reader (w : W)
  /-- The timer of `link.writeBuf` fires. -/
  | writeTimeout (w : W)
  /-- `wc.Read` fails. -/
  | disconnect (w : W)
  /-- `hub.Close` takes the next entry, or ends. -/
  | hubClose (w : W) (id : Option KSUID)
  | dial (e : ℕ) (o : Dial)
  | est (e : ℕ)
  /-- `hub.tellClosed`, with its success. -/
  | tell (e : ℕ) (ok : Bool)
  | waiter (e : ℕ)
  | copyRead (e : ℕ) (data : List UInt8) (er : ReadEnd)
  | copy (e : ℕ)
  | copyTimeout (e : ℕ)
  | linkSend (q i : ℕ) (o : Outcome)
  | queueSend (q i : ℕ) (o : Outcome)
  /-- `link.Wait()` of instance `e` receives from goroutine `i` of link `q`. -/
  | linkDone (q i e : ℕ)
  /-- `writer.Wait()` of instance `e` receives from goroutine `i` of queue `q`. -/
  | queueDone (q i e : ℕ)
  deriving DecidableEq, Repr

namespace Server

/-- The server before the first message. -/
def init : Server W KSUID where
  queues := Queues.init
  links := Links.init
  inbox := fun _ => []
  reader := fun _ => .idle
  pool := fun _ => ∅
  ests := fun _ => default
  nextEst := 0
  crashed := false

variable (s : Server W KSUID)

/-- A message arrives on websocket `w`. -/
def arrive (w : W) (m : Msg KSUID) : Server W KSUID :=
  { s with inbox := Function.update s.inbox w (s.inbox w ++ [m]) }

/-- The reader of `w` moves to `pc`. -/
def goReader (w : W) (pc : Reader KSUID) : Server W KSUID :=
  { s with reader := Function.update s.reader w pc }

/-- A change of instance `e`. -/
def setEst (e : ℕ) (f : Est W KSUID → Est W KSUID) : Server W KSUID :=
  { s with ests := Function.update s.ests e (f (s.ests e)) }

/-- `go establishProxy(hub, …)`. -/
def spawn (w : W) (id : KSUID) : Server W KSUID :=
  { s with ests := Function.update s.ests s.nextEst (newEst w id), nextEst := s.nextEst + 1 }

/-- The next operation of `Close(id)` on instance `e` (wss/proxy_server.go:159-168),
    with where the call is then, `none` when it returned. -/
def closeStep (e : ℕ) (id : KSUID) : CloseAt → Server W KSUID × Option CloseAt
  | .test =>
    if (s.ests e).closed then (s, none)
    else (s.setEst e fun x => { x with closed := true }, some .links)
  | .links => ({ s with links := s.links.removeAll id }, some .queue)
  | .queue => ({ s with queues := s.queues.remove id }, none)

/-- The start of `dispatchDataMessage` (wss/proxy_server.go:74-138) up to its first
    access to shared state; `s` has the message already taken from the inbox. -/
def dispatch (w : W) : Msg KSUID → Server W KSUID
  | .beats => s
  | .finish id =>
    match (s.pool w).lookup id with
    | some e => s.goReader w (.close e id .test)
    | none => s
  | .sayhi id masterID =>
    { s with queues := s.queues.add masterID id ⟨w, id⟩ }.goReader w (.hi id masterID)
  | .est id sorted =>
    { s with queues := s.queues.setSort id sorted }.goReader w (.est id sorted)
  | .data id tag bytes =>
    match s.links.hub.ref? id with
    | some q => s.goReader w (.check q (if tag = .eof then ⟨true, []⟩ else ⟨false, bytes⟩))
    | none => s

/-- The next operation of the reader of `w`. -/
def readerStep (w : W) : Option (Server W KSUID) :=
  match s.reader w with
  | .hi id masterID => some ({ s with links := s.links.add id masterID }.goReader w .idle)
  | .est id sorted =>
    some (({ s with links := s.links.setSort id sorted }.goReader w .idle).spawn w id)
  | .check q b =>
    if (s.links.hub.obj q).status = .done then some (s.goReader w .idle)
    else some (s.goReader w (.select q b))
  | .select q b => (s.links.push q b).map fun r => { s with links := r.1 }.goReader w .idle
  | .close e id a =>
    let r := s.closeStep e id a
    some (r.1.goReader w (r.2.elim .idle (.close e id)))
  | .hubCloseAt e id a =>
    let r := s.closeStep e id a
    match r.2 with
    | some a' => some (r.1.goReader w (.hubCloseAt e id a'))
    | none => some ({ r.1 with pool := Function.update s.pool w ((s.pool w).erase id) }.goReader w
        .hubClose)
  | _ => none

/-- The next operation of `establish` on instance `e` (wss/proxy_server.go:193-242),
    after the dial and before `tellClosed`. -/
def estStep (e : ℕ) : Option (Server W KSUID) :=
  let x := s.ests e
  match x.pc with
  | .linkTrySend =>
    some ({ s with links := s.links.trySend x.id e }.setEst e fun x =>
      { x with pc := .addProxy, waiter := .get })
  | .addProxy =>
    if (s.reader x.ws).locked then none
    else some ({ s with pool := Function.update s.pool x.ws ((s.pool x.ws).insert x.id e) }.setEst e
      fun x => { x with pc := .queueTrySend })
  | .queueTrySend =>
    some ({ s with queues := s.queues.trySend x.id }.setEst e fun x => { x with pc := .get })
  | .get =>
    let w := s.queues.hub.ref? x.id
    some (s.setEst e fun x => { x with
      pc := .wait, writer := w, copy := if w.isSome then { pc := .read } else {} })
  | .wait =>
    match x.writer with
    -- `<-q.done` with `q == nil`
    | none => some { s with crashed := true }
    | some q =>
      if (s.queues.hub.obj q).done then some (s.setEst e fun x => { x with pc := .removeProxy })
      else none
  | .removeProxy =>
    if (s.reader x.ws).locked then none
    else some ({ s with pool := Function.update s.pool x.ws ((s.pool x.ws).erase x.id) }.setEst e
      fun x => { x with pc := .connClose })
  | .connClose =>
    some ({ s with links := s.links.closeConn e }.setEst e fun x => { x with pc := .close .test })
  | .close a =>
    let r := s.closeStep e x.id a
    some (r.1.setEst e fun x => { x with pc := r.2.elim .tell .close })
  | _ => none

/-- The next operation of the goroutine that waits for the end of the request. -/
def waiterStep (e : ℕ) : Option (Server W KSUID) :=
  match (s.ests e).waiter with
  | .get =>
    some (s.setEst e fun x =>
      { x with waiter := (s.links.hub.ref? x.id).elim .done .wait })
  | .wait q =>
    if (s.links.hub.obj q).done then some (s.setEst e fun x => { x with waiter := .done }) else none
  | _ => none

/-- One step of the server, with the message it sends, if any. -/
def step : ServerLabel W KSUID → Option (Server W KSUID × Option (W × Msg KSUID))
  | l =>
    if s.crashed || s.queues.crashed || s.links.crashed then none
    else match l with
    | .recv w =>
      match s.reader w, s.inbox w with
      | .idle, m :: ms =>
        some ({ s with inbox := Function.update s.inbox w ms }.dispatch w m, none)
      | _, _ => none
    | .reader w => s.readerStep w |>.map (·, none)
    | .writeTimeout w =>
      match s.reader w with
      | .select q _ =>
        if (s.links.hub.obj q).buffer.closed = false ∧ (s.links.hub.obj q).buffer.full = true then
          some (s.goReader w .idle, none)
        else none
      | _ => none
    | .disconnect w => if s.reader w = .idle then some (s.goReader w .hubClose, none) else none
    | .hubClose w id =>
      if s.reader w = .hubClose then
        match id with
        | some id => ((s.pool w).lookup id).map fun e => (s.goReader w (.hubCloseAt e id .test), none)
        | none => if (s.pool w).entries = [] then some (s.goReader w .stopped, none) else none
      else none
    | .dial e o =>
      if e < s.nextEst ∧ (s.ests e).pc = .dial then
        some (s.setEst e fun x =>
          { x with pc := if o = .connected then .linkTrySend else .tell }, none)
      else none
    | .est e => if e < s.nextEst then (s.estStep e).map (·, none) else none
    | .tell e ok =>
      if e < s.nextEst ∧ (s.ests e).pc = .tell then
        some (s.setEst e fun x => { x with pc := .returned },
          if ok then some ((s.ests e).ws, .finish (s.ests e).id) else none)
      else none
    | .waiter e => if e < s.nextEst then (s.waiterStep e).map (·, none) else none
    | .copyRead e data er =>
      if e < s.nextEst then
        ((s.ests e).copy.read data er).map fun c => (s.setEst e fun x => { x with copy := c }, none)
      else none
    | .copy e =>
      if e < s.nextEst then
        (s.ests e).writer.bind fun q => ((s.ests e).copy.step s.queues q).map fun r =>
          ({ s with queues := r.2 }.setEst e fun x => { x with copy := r.1 }, none)
      else none
    | .copyTimeout e =>
      if e < s.nextEst then
        (s.ests e).writer.bind fun q => ((s.ests e).copy.timeout s.queues q).map fun c =>
          (s.setEst e fun x => { x with copy := c }, none)
      else none
    | .linkSend q i o => (s.links.send q i o).map fun l => ({ s with links := l }, none)
    | .queueSend q i o =>
      (s.queues.send q i o).map fun r =>
        ({ s with queues := r.1 }, r.2.map fun wb => WsWriter.msg wb.1 wb.2)
    | .linkDone q i e =>
      if e < s.nextEst ∧ (s.ests e).waiter = .wait q then
        (s.links.handoff q i).map fun l =>
          ({ s with links := l }.setEst e fun x => { x with waiter := .done }, none)
      else none
    | .queueDone q i e =>
      if e < s.nextEst ∧ (s.ests e).pc = .wait ∧ (s.ests e).writer = some q then
        (s.queues.handoff q i).map fun r =>
          ({ s with queues := r }.setEst e fun x => { x with pc := .removeProxy }, none)
      else none

end Server

end Model

end Wssocks.Wss

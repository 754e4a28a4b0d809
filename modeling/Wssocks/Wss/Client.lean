import Wssocks.Pipe.Link
import Wssocks.Pipe.CopyBuffer
import Wssocks.Wss.Message

/-!
# The client's `transData` (wss/wssocks_client.go:182-312)

One call of `transData` with the goroutines it starts, and the goroutines that
read the websockets (`ListenIncomeMsg`, wss/websocket_client.go:98-152). `ids` are
the ids `ksuid.New` gives to the lanes, in the order of the websockets, so lane `i`
is websocket `i`, `ids.length` is the number of lanes and the first id is the
master. The application's connection has number 0. `inbox i` are the messages that
arrived on websocket `i` and were not read yet.

The call has hubs of its own here; `SharedHubs` is about the hubs that all calls share.
`firstSendData` is empty for socks5 and is left out, as is the debug output.
-/

namespace Wssocks.Wss

open Wssocks.Lib Wssocks.Pipe

/-- How far a call of the closure `remove` is (wss/wssocks_client.go:193-200). -/
inductive RemoveAt where
  /-- Before the test of `status`. -/
  | test
  /-- Before `clientQueueHub.Remove`. -/
  | queue
  /-- Before `clientLinkHub.RemoveAll`. -/
  | links
  deriving DecidableEq, Repr

/-- Where the goroutine of `transData` is. -/
inductive TransPc where
  | newProxy (i : ℕ)
  | sayID (i : ℕ)
  | queueAdd (i : ℕ)
  | linkAdd (i : ℕ)
  | establish
  /-- Before `clientQueueHub.Get`. -/
  | getQueue
  | setQueueSort (qq : ℕ)
  /-- Before `go func() { qq.Send() … }`. -/
  | goSend (qq : ℕ)
  /-- Before `go func() { pipe.CopyBuffer(qq, …) … }`. -/
  | goCopy (qq : ℕ)
  /-- Before `clientLinkHub.Get`. -/
  | getLink
  | setConn (oo : ℕ)
  | setLinkSort (oo : ℕ)
  /-- Before `go func() { oo.Send(clientLinkHub) … }`. -/
  | goLinkSend (oo : ℕ)
  /-- At `oo.Wait()`. -/
  | wait (oo : ℕ)
  /-- The deferred `remove(masterID)`. -/
  | remove (at' : RemoveAt)
  /-- The deferred `writer.CloseWsWriter(cancel)` of the lanes below `i`, last lane first. -/
  | cancel (i : ℕ)
  /-- The deferred `w.RemoveProxy(p.Id)` of lane `i`. -/
  | rmProxy (i : ℕ)
  | returned
  deriving DecidableEq, Repr

/-- The errors `transData` returns. -/
inductive TransErr where
  | establish | queueNotFound | linkNotFound
  deriving DecidableEq, Repr

/-- Where the goroutine reading a websocket is. -/
inductive ClientReader (KSUID : Type) where
  | idle
  /-- `onData`, in `link.writeBuf` before the test of `status`. -/
  | check (q : ℕ) (b : Buffer)
  /-- `onData`, in `link.writeBuf` at the `select`. -/
  | select (q : ℕ) (b : Buffer)
  /-- `onClosed`, in `remove(id)`. -/
  | remove (id : KSUID) (at' : RemoveAt)
  deriving DecidableEq, Repr

/-- The labels of the client's steps. -/
inductive ClientLabel where
  /-- The next operation of `transData`; a websocket write succeeds. -/
  | trans
  /-- The next operation of `transData` is a websocket write, and it fails. -/
  | transFail
  | recv (i : ℕ)
  | reader (i : ℕ)
  /-- The timer of `link.writeBuf` fires. -/
  | writeTimeout (i : ℕ)
  | copyRead (data : List UInt8) (er : ReadEnd)
  | copy
  | copyTimeout
  /-- `masterWsc.TellClose(masterID)` after `CopyBuffer` failed, with its success. -/
  | tellClose (ok : Bool)
  | queueSend (q i : ℕ) (o : Outcome)
  | linkSend (q i : ℕ) (o : Outcome)
  /-- `oo.Wait()` receives from goroutine `i` of link `q`. -/
  | linkDone (q i : ℕ)
  deriving DecidableEq, Repr

section Model

variable {KSUID : Type} [DecidableEq KSUID] [Inhabited KSUID]

/-- A call of `transData`. `removed` is the local `status`, `registered i` tells that
    lane `i` is in `proxies` of its websocket, `cancelled i` that the context of its
    writer is cancelled, `qq` is the queue `CopyBuffer` writes to, `told` that the
    goroutine of `CopyBuffer` has ended. -/
structure Client (KSUID : Type) [DecidableEq KSUID] where
  pc : TransPc
  err : Option TransErr
  removed : Bool
  queues : Queues KSUID (WsWriter ℕ KSUID)
  links : Links KSUID
  inbox : ℕ → List (Msg KSUID)
  reader : ℕ → ClientReader KSUID
  registered : ℕ → Bool
  cancelled : ℕ → Bool
  copy : Copy
  qq : ℕ
  told : Bool

namespace Client

/-- The start of `transData`. -/
def init : Client KSUID where
  pc := .newProxy 0
  err := none
  removed := false
  queues := Queues.init
  links := Links.init
  inbox := fun _ => []
  reader := fun _ => .idle
  registered := fun _ => false
  cancelled := fun _ => false
  copy := {}
  qq := 0
  told := false

variable (ids : List KSUID) (s : Client KSUID)

/-- `masterID`, the id of the first lane. -/
def masterID (ids : List KSUID) : KSUID := ids.headD default

/-- A message arrives on websocket `i`. -/
def arrive (i : ℕ) (m : Msg KSUID) : Client KSUID :=
  { s with inbox := Function.update s.inbox i (s.inbox i ++ [m]) }

/-- The reader of websocket `i` moves to `pc`. -/
def goReader (i : ℕ) (pc : ClientReader KSUID) : Client KSUID :=
  { s with reader := Function.update s.reader i pc }

/-- The next operation of `remove(id)`, with where the call is then, `none` when it
    returned (wss/wssocks_client.go:193-200). -/
def removeStep (id : KSUID) : RemoveAt → Client KSUID × Option RemoveAt
  | .test => if s.removed then (s, none) else ({ s with removed := true }, some .queue)
  | .queue => ({ s with queues := s.queues.remove id }, some .links)
  | .links => ({ s with links := s.links.removeAll id }, none)

/-- The next operation of `transData`, with the message it sends, if any. -/
def transStep : Option (Client KSUID × Option (ℕ × Msg KSUID)) :=
  match s.pc with
  | .newProxy i =>
    if i < ids.length then
      some ({ s with registered := Function.update s.registered i true, pc := .sayID i }, none)
    else some ({ s with pc := .establish }, none)
  | .sayID i =>
    some ({ s with pc := .queueAdd i }, some (i, .sayhi (ids.getD i default) (masterID ids)))
  | .queueAdd i =>
    some ({ s with
      queues := s.queues.add (masterID ids) (ids.getD i default) ⟨i, ids.getD i default⟩,
      pc := .linkAdd i }, none)
  | .linkAdd i =>
    some ({ s with
      links := s.links.add (ids.getD i default) (masterID ids), pc := .newProxy (i + 1) }, none)
  | .establish => some ({ s with pc := .getQueue }, some (0, .est (masterID ids) ids))
  | .getQueue =>
    match s.queues.hub.ref? (masterID ids) with
    | some q => some ({ s with pc := .setQueueSort q }, none)
    | none => some ({ s with pc := .remove .test, err := some .queueNotFound }, none)
  | .setQueueSort q =>
    some ({ s with
      queues := s.queues.modify q fun x => { x with sorted := ids }, pc := .goSend q }, none)
  | .goSend q => some ({ s with queues := s.queues.launch (some q), pc := .goCopy q }, none)
  | .goCopy q => some ({ s with copy := { pc := .read }, qq := q, pc := .getLink }, none)
  | .getLink =>
    match s.links.hub.ref? (masterID ids) with
    | some o => some ({ s with pc := .setConn o }, none)
    | none => some ({ s with pc := .remove .test, err := some .linkNotFound }, none)
  | .setConn o =>
    some ({ s with
      links := s.links.modify o fun x => { x with conn := some 0 }, pc := .setLinkSort o }, none)
  | .setLinkSort o =>
    some ({ s with
      links := s.links.modify o fun x => { x with sorted := ids }, pc := .goLinkSend o }, none)
  | .goLinkSend o => some ({ s with links := s.links.launch (some o), pc := .wait o }, none)
  | .wait o =>
    if (s.links.hub.obj o).done then some ({ s with pc := .remove .test }, none) else none
  | .remove a =>
    let r := s.removeStep (masterID ids) a
    some ({ r.1 with pc := r.2.elim (.cancel ids.length) .remove }, none)
  | .cancel (i + 1) =>
    some ({ s with cancelled := Function.update s.cancelled i true, pc := .rmProxy i }, none)
  | .cancel 0 => some ({ s with pc := .returned }, none)
  | .rmProxy i =>
    some ({ s with registered := Function.update s.registered i false, pc := .cancel i }, none)
  | .returned => none

/-- A failed websocket write of `transData`: `SayID` logs it, `Establish` returns it. -/
def transFail : Option (Client KSUID) :=
  match s.pc with
  | .sayID i => some { s with pc := .queueAdd i }
  | .establish => some { s with pc := .remove .test, err := some .establish }
  | _ => none

/-- The callbacks of a message on websocket `i`, up to their first access to a hub;
    `s` has the message already taken from the inbox. -/
def dispatch (i : ℕ) : Msg KSUID → Client KSUID
  | .data id tag bytes =>
    if s.registered i ∧ ids[i]? = some id then
      match s.links.hub.ref? id, tag with
      | some q, .data => s.goReader i (.check q ⟨false, bytes⟩)
      | some q, .eof => s.goReader i (.check q ⟨true, []⟩)
      | _, _ => s
    else s
  | .finish id =>
    if s.registered i ∧ ids[i]? = some id then s.goReader i (.remove id .test) else s
  | _ => s

/-- The next operation of the reader of websocket `i`. -/
def readerStep (i : ℕ) : Option (Client KSUID) :=
  match s.reader i with
  | .idle => none
  | .check q b =>
    if (s.links.hub.obj q).status = .done then some (s.goReader i .idle)
    else some (s.goReader i (.select q b))
  | .select q b => (s.links.push q b).map fun r => { s with links := r.1 }.goReader i .idle
  | .remove id a =>
    let r := s.removeStep id a
    some (r.1.goReader i (r.2.elim .idle (.remove id)))

/-- One step of the client, with the message it sends, if any. -/
def step (l : ClientLabel) : Option (Client KSUID × Option (ℕ × Msg KSUID)) :=
  if s.queues.crashed || s.links.crashed then none
  else match l with
  | .trans => s.transStep ids
  | .transFail => s.transFail.map (·, none)
  | .recv i =>
    match s.reader i, s.inbox i with
    | .idle, m :: ms =>
      some ({ s with inbox := Function.update s.inbox i ms }.dispatch ids i m, none)
    | _, _ => none
  | .reader i => (s.readerStep i).map (·, none)
  | .writeTimeout i =>
    match s.reader i with
    | .select q _ =>
      if (s.links.hub.obj q).buffer.closed = false ∧ (s.links.hub.obj q).buffer.full = true then
        some (s.goReader i .idle, none)
      else none
    | _ => none
  | .copyRead data er => (s.copy.read data er).map fun c => ({ s with copy := c }, none)
  | .copy =>
    (s.copy.step s.queues s.qq).map fun r => ({ s with copy := r.1, queues := r.2 }, none)
  | .copyTimeout => (s.copy.timeout s.queues s.qq).map fun c => ({ s with copy := c }, none)
  | .tellClose ok =>
    if s.copy.pc = .done ∧ s.told = false then
      some ({ s with told := true },
        if ok ∧ s.copy.err.isSome then some (0, .finish (masterID ids)) else none)
    else none
  | .queueSend q i o =>
    (s.queues.send q i o).bind fun r =>
      match r.2 with
      -- a writer whose context is cancelled writes nothing
      | some (w, b) =>
        if s.cancelled w.ws then none else some ({ s with queues := r.1 }, some (w.msg b))
      | none => some ({ s with queues := r.1 }, none)
  | .linkSend q i o => (s.links.send q i o).map fun l => ({ s with links := l }, none)
  | .linkDone q i =>
    if s.pc = .wait q then
      (s.links.handoff q i).map fun l => ({ s with links := l, pc := .remove .test }, none)
    else none

end Client

end Model

end Wssocks.Wss

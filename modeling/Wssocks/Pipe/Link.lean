import Wssocks.Lib.Registry
import Wssocks.Pipe.Basic

/-!
# `link` and `LinkHub` (pipe/link.go)

A `link` buffers what one lane delivers; the link of the master id also carries
the order of the lanes, the destination connection and the count of lanes seen
so far. `Send`, run on the master's link, drains the buffers of the lanes in
turn and writes them to the connection.

`Links` is a `LinkHub` together with the goroutines that run `Send` on its links
and the connections they write to. Each method of the hub holds the hub's lock
from start to end and is one step; `Send` takes one step for each access to
shared state.

The field `ctime` is left out: only `TimeoutClose` reads it.
-/

namespace Wssocks.Pipe

open Wssocks.Lib

section Model

variable {KSUID : Type} [DecidableEq KSUID] [Inhabited KSUID]

/-- `link` (pipe/link.go:15-24). `done` tells whether the channel `done` has been
    closed; the channel itself is unbuffered. -/
structure Link (KSUID : Type) where
  master : KSUID
  buffer : BufChan
  status : Status
  done : Bool
  sorted : List KSUID
  conn : Option ℕ
  counter : ℕ
  deriving Inhabited

/-- `NewLink` (pipe/link.go:26-35). -/
def newLink (masterID : KSUID) : Link KSUID where
  master := masterID
  buffer := Chan.empty
  status := .wait
  done := false
  sorted := []
  conn := none
  counter := 0

/-- `link.close` (pipe/link.go:133-145). -/
def Link.close (q : Link KSUID) : Link KSUID :=
  if q.status = .close then q else { q with status := .close, buffer := q.buffer.close }

/-- `LinkHub` (pipe/link.go:147-150). -/
abbrev LinkHub (KSUID : Type) [DecidableEq KSUID] := Registry KSUID (Link KSUID)

/-- `LinkHub.trySend` (pipe/link.go:224-237): the new hub and the link on which
    `go q.Send(h)` was executed, if any. -/
def LinkHub.trySend (h : LinkHub KSUID) (masterID : KSUID) (conn : Option ℕ) :
    LinkHub KSUID × Option ℕ :=
  match h.ref? masterID with
  | none => (h, none)
  | some q =>
    let h := match conn with
      | some c => h.modify q fun l => { l with conn := some c }
      | none => h
    if (h.obj q).conn.isSome ∧ (h.obj q).counter = (h.obj q).sorted.length then (h, some q)
    else (h, none)

/-- `LinkHub.Add` (pipe/link.go:161-178). -/
def LinkHub.add (h : LinkHub KSUID) (id masterID : KSUID) : LinkHub KSUID × Option ℕ :=
  let h := h.ensure masterID (newLink masterID)
  let h := h.ensure id (newLink masterID)
  let h := match h.ref? masterID with
    | some m => h.modify m fun l => { l with counter := l.counter + 1 }
    | none => h
  LinkHub.trySend h masterID none

/-- `c.close(id); delete(h.links, id)`, when `h.links[id]` exists. -/
def LinkHub.drop (h : LinkHub KSUID) (id : KSUID) : LinkHub KSUID :=
  match h.ref? id with
  | some c => (h.modify c Link.close).erase id
  | none => h

/-- `LinkHub.RemoveAll` (pipe/link.go:181-199). -/
def LinkHub.removeAll (h : LinkHub KSUID) (masterID : KSUID) : LinkHub KSUID :=
  match h.ref? masterID with
  | none => h
  | some q =>
    let h := (h.obj q).sorted.foldl
      (fun h id => if id = masterID then h else LinkHub.drop h id) h
    LinkHub.drop h masterID

/-- `LinkHub.SetSort` (pipe/link.go:212-221). -/
def LinkHub.setSort (h : LinkHub KSUID) (masterID : KSUID) (sort : List KSUID) : LinkHub KSUID :=
  match h.ref? masterID with
  | some q => h.modify q fun l => { l with sorted := sort }
  | none => h.create masterID { newLink masterID with sorted := sort }

/-- Where a goroutine running `link.Send` is. -/
abbrev LinkSend (KSUID : Type) := SendPc KSUID ℕ

/-- A `LinkHub`, the goroutines running `Send` on each of its links, and the
    connections. `crashed` is set when one of these goroutines panics. -/
structure Links (KSUID : Type) [DecidableEq KSUID] where
  hub : LinkHub KSUID
  sends : ℕ → List (LinkSend KSUID)
  socks : ℕ → Sock
  crashed : Bool

namespace Links

/-- No link, no goroutine, nothing written. -/
def init : Links KSUID where
  hub := Registry.empty
  sends := fun _ => []
  socks := fun _ => {}
  crashed := false

variable (s : Links KSUID)

/-- `go q.Send(h)`. -/
def launch : Option ℕ → Links KSUID
  | none => s
  | some q => { s with sends := Function.update s.sends q (s.sends q ++ [.entry]) }

/-- `LinkHub.Add` with the launch it may cause. -/
def add (id masterID : KSUID) : Links KSUID :=
  let r := LinkHub.add s.hub id masterID
  launch { s with hub := r.1 } r.2

/-- `LinkHub.TrySend` (pipe/link.go:240-245). -/
def trySend (masterID : KSUID) (conn : ℕ) : Links KSUID :=
  let r := LinkHub.trySend s.hub masterID (some conn)
  launch { s with hub := r.1 } r.2

/-- `LinkHub.SetSort`. -/
def setSort (masterID : KSUID) (sort : List KSUID) : Links KSUID :=
  { s with hub := LinkHub.setSort s.hub masterID sort }

/-- `LinkHub.RemoveAll`. -/
def removeAll (masterID : KSUID) : Links KSUID :=
  { s with hub := LinkHub.removeAll s.hub masterID }

/-- A change of one link through its pointer. -/
def modify (q : ℕ) (f : Link KSUID → Link KSUID) : Links KSUID :=
  { s with hub := s.hub.modify q f }

/-- `conn.Close()`. -/
def closeConn (c : ℕ) : Links KSUID :=
  { s with socks := Function.update s.socks c { s.socks c with closed := true } }

/-- The `select` of `link.writeBuf` on link `q` (pipe/link.go:119-123): the second
    component is false when the chunk was lost to a closed channel. -/
def push (q : ℕ) (b : Buffer) : Option (Links KSUID × Bool) :=
  (selectSend (s.hub.obj q).buffer b).map fun
    | some c => (s.modify q fun l => { l with buffer := c }, true)
    | none => (s, false)

/-- Goroutine `i` of link `q` moves to `pc`. -/
def goto (q i : ℕ) (pc : LinkSend KSUID) : Links KSUID :=
  { s with sends := Function.update s.sends q ((s.sends q).set i pc) }

/-- One step of goroutine `i` running `Send` on link `q` (pipe/link.go:48-92). -/
def send (q i : ℕ) (o : Outcome) : Option (Links KSUID) :=
  match (s.sends q)[i]? with
  | none => none
  | some .entry =>
    if (s.hub.obj q).status = .send ∨ (s.hub.obj q).status = .done then some (s.goto q i .refused)
    else some ((s.modify q fun l => { l with status := .send }).goto q i .loop)
  | some .loop =>
    if (s.hub.obj q).status = .close then some (s.goto q i (.ret (some .closedPipe)))
    else some (s.goto q i (.pass (s.hub.obj q).sorted))
  | some (.pass []) => some (s.goto q i .loop)
  | some (.pass (id :: rest)) =>
    match s.hub.ref? id with
    | some l => some (s.goto q i (.read l rest))
    | none => some (s.goto q i (.ret (some .notFound)))
  | some (.read l rest) =>
    match o with
    | .ok => ((s.hub.obj l).buffer.recv?).map fun r =>
        (s.modify l fun x => { x with buffer := r.2 }).goto q i (.write l r.1 rest)
    | .timeout => some (s.goto q i (.ret (some .timeout)))
    | .fail _ => none
  | some (.write _ b rest) =>
    match (s.hub.obj q).conn with
    | none => some (s.goto q i (.ret (some .connClosed)))
    | some c => (safeWrite (s.socks c) b o).map fun r =>
        { s with socks := Function.update s.socks c r.1 }.goto q i
          (if !r.2 then .ret (some .write) else if b.eof then .ret none else .pass rest)
  | some (.ret e) => some ((s.modify q fun l => { l with status := .done }).goto q i (.handoff e))
  -- A send on the closed `done` panics; on the open one it waits for a receiver.
  | some (.handoff _) => if (s.hub.obj q).done then some { s with crashed := true } else none
  | some (.closeDone e) =>
    if (s.hub.obj q).done then some { s with crashed := true }
    else some ((s.modify q fun l => { l with done := true }).goto q i (.exit e))
  | some (.exit _) | some .refused => none

/-- The rendezvous of goroutine `i` at `q.done <- struct{}{}` with a receiver. -/
def handoff (q i : ℕ) : Option (Links KSUID) :=
  match (s.sends q)[i]? with
  | some (.handoff e) => if (s.hub.obj q).done then none else some (s.goto q i (.closeDone e))
  | _ => none

end Links

end Model

end Wssocks.Pipe

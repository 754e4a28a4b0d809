import Wssocks.Lib.Registry
import Wssocks.Pipe.Basic

/-!
# `queue` and `QueueHub` (pipe/queue.go)

A `queue` buffers what is read from one connection; `Send` takes the chunks out
and writes them to the lanes in turn, in the order `sorted`.

`Queues` is a `QueueHub` together with the goroutines that run `Send` on its
queues. `W` is the type of the `PipeWriter`s; a step of `Send` that calls one
returns the call.

The field `ctime` is left out: only `TimeoutClose` reads it.
-/

namespace Wssocks.Pipe

open Wssocks.Lib

section Model

variable {KSUID W : Type} [DecidableEq KSUID] [Inhabited KSUID]

/-- `queue` (pipe/queue.go:14-22). `done` tells whether the channel `done` has been
    closed. -/
structure Queue (KSUID W : Type) [DecidableEq KSUID] where
  masterID : KSUID
  buffer : BufChan
  writers : AList (fun _ : KSUID => W)
  sorted : List KSUID
  status : Status
  done : Bool

/-- `NewQueue` (pipe/queue.go:24-33). -/
def newQueue (masterID : KSUID) : Queue KSUID W where
  masterID := masterID
  buffer := Chan.empty
  writers := ∅
  sorted := []
  status := .wait
  done := false

instance : Inhabited (Queue KSUID W) := ⟨newQueue default⟩

/-- `queue.close` (pipe/queue.go:121-129). -/
def Queue.close (q : Queue KSUID W) : Queue KSUID W :=
  if q.status = .close then q else { q with status := .close, buffer := q.buffer.close }

/-- `QueueHub` (pipe/queue.go:131-134). -/
abbrev QueueHub (KSUID W : Type) [DecidableEq KSUID] := Registry KSUID (Queue KSUID W)

/-- `QueueHub.trySend` (pipe/queue.go:193-202): the queue on which `go q.Send()` was
    executed, if any. -/
def QueueHub.trySend (h : QueueHub KSUID W) (masterID : KSUID) : Option ℕ :=
  match h.ref? masterID with
  | none => none
  | some q =>
    if (h.obj q).writers.entries.length = (h.obj q).sorted.length then some q else none

/-- `QueueHub.Add` without its launch (pipe/queue.go:145-156). -/
def QueueHub.add (h : QueueHub KSUID W) (masterID id : KSUID) (w : W) : QueueHub KSUID W :=
  let h := h.ensure masterID (newQueue masterID)
  match h.ref? masterID with
  | some q => h.modify q fun x => { x with writers := x.writers.insert id w }
  | none => h

/-- `QueueHub.Remove` (pipe/queue.go:159-168). -/
def QueueHub.remove (h : QueueHub KSUID W) (masterID : KSUID) : QueueHub KSUID W :=
  match h.ref? masterID with
  | some q => (h.modify q Queue.close).erase masterID
  | none => h

/-- `QueueHub.SetSort` (pipe/queue.go:181-190). -/
def QueueHub.setSort (h : QueueHub KSUID W) (masterID : KSUID) (sort : List KSUID) :
    QueueHub KSUID W :=
  match h.ref? masterID with
  | some q => h.modify q fun x => { x with sorted := sort }
  | none => h.create masterID { newQueue masterID with sorted := sort }

/-- Where a goroutine running `queue.Send` is; `q.writers[id]` is `none` when the
    map has no entry for `id`. -/
abbrev QueueSend (KSUID W : Type) := SendPc KSUID (Option W)

/-- A `QueueHub` and the goroutines running `Send` on each of its queues.
    `crashed` is set when one of these goroutines panics. -/
structure Queues (KSUID W : Type) [DecidableEq KSUID] where
  hub : QueueHub KSUID W
  sends : ℕ → List (QueueSend KSUID W)
  crashed : Bool

namespace Queues

/-- No queue and no goroutine. -/
def init : Queues KSUID W where
  hub := Registry.empty
  sends := fun _ => []
  crashed := false

variable (s : Queues KSUID W)

/-- `go q.Send()`. -/
def launch : Option ℕ → Queues KSUID W
  | none => s
  | some q => { s with sends := Function.update s.sends q (s.sends q ++ [.entry]) }

/-- `QueueHub.TrySend` (pipe/queue.go:205-210). -/
def trySend (masterID : KSUID) : Queues KSUID W :=
  launch s (QueueHub.trySend s.hub masterID)

/-- `QueueHub.Add` with the launch it may cause. -/
def add (masterID id : KSUID) (w : W) : Queues KSUID W :=
  trySend { s with hub := QueueHub.add s.hub masterID id w } masterID

/-- `QueueHub.SetSort`. -/
def setSort (masterID : KSUID) (sort : List KSUID) : Queues KSUID W :=
  { s with hub := QueueHub.setSort s.hub masterID sort }

/-- `QueueHub.Remove`. -/
def remove (masterID : KSUID) : Queues KSUID W :=
  { s with hub := QueueHub.remove s.hub masterID }

/-- A change of one queue through its pointer. -/
def modify (q : ℕ) (f : Queue KSUID W → Queue KSUID W) : Queues KSUID W :=
  { s with hub := s.hub.modify q f }

/-- The `select` of `queue.writeBuf` on queue `q` (pipe/queue.go:65-69): the second
    component is false when the chunk was lost to a closed channel. -/
def push (q : ℕ) (b : Buffer) : Option (Queues KSUID W × Bool) :=
  (selectSend (s.hub.obj q).buffer b).map fun
    | some c => (s.modify q fun x => { x with buffer := c }, true)
    | none => (s, false)

/-- Goroutine `i` of queue `q` moves to `pc`. -/
def goto (q i : ℕ) (pc : QueueSend KSUID W) : Queues KSUID W :=
  { s with sends := Function.update s.sends q ((s.sends q).set i pc) }

/-- One step of goroutine `i` running `Send` on queue `q` (pipe/queue.go:74-113),
    with the write it made, if any. A method call on a missing writer panics. -/
def send (q i : ℕ) (o : Outcome) : Option (Queues KSUID W × Option (W × Buffer)) :=
  match (s.sends q)[i]? with
  | none => none
  | some .entry =>
    if (s.hub.obj q).status = .send ∨ (s.hub.obj q).status = .done then
      some (s.goto q i .refused, none)
    else some ((s.modify q fun x => { x with status := .send }).goto q i .loop, none)
  | some .loop =>
    if (s.hub.obj q).status = .close then some (s.goto q i (.ret (some .closedPipe)), none)
    else some (s.goto q i (.pass (s.hub.obj q).sorted), none)
  | some (.pass []) => some (s.goto q i .loop, none)
  | some (.pass (id :: rest)) =>
    some (s.goto q i (.read ((s.hub.obj q).writers.lookup id) rest), none)
  | some (.read w rest) =>
    match o with
    | .ok => ((s.hub.obj q).buffer.recv?).map fun r =>
        ((s.modify q fun x => { x with buffer := r.2 }).goto q i (.write w r.1 rest), none)
    | .timeout => some (s.goto q i (.ret (some .timeout)), none)
    | .fail _ => none
  | some (.write none _ _) => some ({ s with crashed := true }, none)
  | some (.write (some w) b rest) =>
    match o with
    -- `w.WriteEOF()` reports no error, so `Send` returns nil either way.
    | .ok => some (s.goto q i (if b.eof then .ret none else .pass rest), some (w, b))
    | .fail _ => some (s.goto q i (.ret (if b.eof then none else some .write)), none)
    | .timeout => none
  | some (.ret e) =>
    some ((s.modify q fun x => { x with status := .done }).goto q i (.handoff e), none)
  -- A send on the closed `done` panics; on the open one it waits for a receiver.
  | some (.handoff _) => if (s.hub.obj q).done then some ({ s with crashed := true }, none) else none
  | some (.closeDone e) =>
    if (s.hub.obj q).done then some ({ s with crashed := true }, none)
    else some ((s.modify q fun x => { x with done := true }).goto q i (.exit e), none)
  | some (.exit _) | some .refused => none

/-- The rendezvous of goroutine `i` at `q.done <- struct{}{}` with a receiver. -/
def handoff (q i : ℕ) : Option (Queues KSUID W) :=
  match (s.sends q)[i]? with
  | some (.handoff e) => if (s.hub.obj q).done then none else some (s.goto q i (.closeDone e))
  | _ => none

end Queues

end Model

end Wssocks.Pipe

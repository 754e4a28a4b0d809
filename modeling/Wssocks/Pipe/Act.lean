import Wssocks.Pipe.Link
import Wssocks.Pipe.Queue

/-!
# The actions on the hubs

Everything the program does to a `QueueHub` or a `LinkHub`, its pipes and the goroutines that
run `Send` on them, as the labels of two transition systems. Client and server are both
views of these systems: a step of theirs is at most one action on each hub.
-/

namespace Wssocks.Pipe

open Wssocks.Lib

section Queues

variable {KSUID V : Type} [DecidableEq KSUID] [Inhabited KSUID]

/-- What the program does to a `QueueHub`, its queues and their goroutines: the methods of the
    hub, `go q.Send()` and the assignment of `sorted` through a pointer (`transData`), a step
    of `Send`, `Wait`, and the `select` of `writeBuf`. -/
inductive QueueAct (KSUID V : Type) where
  | add (masterID id : KSUID) (w : V)
  | setSort (masterID : KSUID) (sort : List KSUID)
  | trySend (masterID : KSUID)
  | remove (masterID : KSUID)
  | launch (q : ℕ)
  | sort (q : ℕ) (ids : List KSUID)
  | send (q i : ℕ) (o : Outcome)
  | wait (q i : ℕ)
  | write (q : ℕ) (b : Buffer)

/-- One action; a goroutine is launched on a queue the hub gave out. -/
def Queues.act (s : Queues KSUID V) (a : QueueAct KSUID V) : Option (Queues KSUID V) :=
  if s.crashed then none
  else match a with
  | .add m id w => some (s.add m id w)
  | .setSort m sort => some (s.setSort m sort)
  | .trySend m => some (s.trySend m)
  | .remove m => some (s.remove m)
  | .launch q => if q < s.hub.next then some (s.launch (some q)) else none
  | .sort q ids => some (s.modify q fun x => { x with sorted := ids })
  | .send q i o => (s.send q i o).map Prod.fst
  | .wait q i => s.handoff q i
  | .write q b => (s.push q b).map Prod.fst

end Queues

section Links

variable {KSUID : Type} [DecidableEq KSUID] [Inhabited KSUID]

/-- What the program does to a `LinkHub`, its links and their goroutines. -/
inductive LinkAct (KSUID : Type) where
  | add (id masterID : KSUID)
  | setSort (masterID : KSUID) (sort : List KSUID)
  | trySend (masterID : KSUID) (conn : ℕ)
  | removeAll (masterID : KSUID)
  | launch (q : ℕ)
  | sort (q : ℕ) (ids : List KSUID)
  | conn (q c : ℕ)
  | send (q i : ℕ) (o : Outcome)
  | wait (q i : ℕ)
  | write (q : ℕ) (b : Buffer)
  | closeConn (c : ℕ)

/-- One action; a goroutine is launched on a link the hub gave out. -/
def Links.act (s : Links KSUID) (a : LinkAct KSUID) : Option (Links KSUID) :=
  if s.crashed then none
  else match a with
  | .add id m => some (s.add id m)
  | .setSort m sort => some (s.setSort m sort)
  | .trySend m c => some (s.trySend m c)
  | .removeAll m => some (s.removeAll m)
  | .launch q => if q < s.hub.next then some (s.launch (some q)) else none
  | .sort q ids => some (s.modify q fun x => { x with sorted := ids })
  | .conn q c => some (s.modify q fun x => { x with conn := some c })
  | .send q i o => s.send q i o
  | .wait q i => s.handoff q i
  | .write q b => (s.push q b).map Prod.fst
  | .closeConn c => some (s.closeConn c)

end Links

end Wssocks.Pipe

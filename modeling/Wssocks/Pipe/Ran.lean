import Wssocks.Lib.Lts
import Wssocks.Pipe.Act
import Wssocks.Pipe.CopyBuffer
import Wssocks.Pipe.LinkLemmas
import Wssocks.Pipe.QueueLemmas

/-!
# The actions that are no operation of a hub

A step of `Send`, of `Wait`, of `writeBuf` or `conn.Close`: the map and the number of goroutines
stay, and one pipe at most is touched.

Results:

* `Queues.Ran.of_act`, `Links.Ran.of_act`: which actions these are.
* `Queues.Ran.touched`, `Queues.Ran.length_sends` and the same for links: what they leave alone.
-/

namespace Wssocks.Pipe

variable {KSUID V : Type} [DecidableEq KSUID]

/-- A step of the goroutines of a `QueueHub` that is no operation of the hub. -/
inductive Queues.Ran (s : Queues KSUID V) : Queues KSUID V → Prop
  | same : Queues.Ran s s
  | send {q i : ℕ} {o : Outcome} {s' : Queues KSUID V} {msg : Option (V × Buffer)}
      (h : s.send q i o = some (s', msg)) : Queues.Ran s s'
  | handoff {q i : ℕ} {s' : Queues KSUID V} (h : s.handoff q i = some s') : Queues.Ran s s'
  | push {q : ℕ} {b : Buffer} {s' : Queues KSUID V} {ok : Bool} (h : s.push q b = some (s', ok)) :
      Queues.Ran s s'

/-- A step of the goroutines of a `LinkHub` that is no operation of the hub. -/
inductive Links.Ran (s : Links KSUID) : Links KSUID → Prop
  | same : Links.Ran s s
  | send {q i : ℕ} {o : Outcome} {s' : Links KSUID} (h : s.send q i o = some s') : Links.Ran s s'
  | handoff {q i : ℕ} {s' : Links KSUID} (h : s.handoff q i = some s') : Links.Ran s s'
  | push {q : ℕ} {b : Buffer} {s' : Links KSUID} {ok : Bool} (h : s.push q b = some (s', ok)) :
      Links.Ran s s'
  | closeConn {c : ℕ} : Links.Ran s (s.closeConn c)

/-- It touches one queue, and starts no goroutine. -/
theorem Queues.Ran.touched {s s' : Queues KSUID V} (h : Queues.Ran s s') :
    ∃ q, QueueHub.Touched s.hub s'.hub q := by
  cases h with
  | same => exact ⟨0, .refl⟩
  | send h => exact ⟨_, (Queues.send_moved h).hub⟩
  | handoff h => exact ⟨_, (Queues.handoff_moved h).hub⟩
  | push h => exact ⟨_, (Queues.push_touched h).1⟩

theorem Queues.Ran.ref? {s s' : Queues KSUID V} (h : Queues.Ran s s') (k : KSUID) :
    s'.hub.ref? k = s.hub.ref? k := by
  obtain ⟨_, ht⟩ := h.touched
  exact ht.ref? k

theorem length_update_set {α : Type} {f : ℕ → List α} {q i r : ℕ} {x : α} :
    (Function.update f q ((f q).set i x) r).length = (f r).length := by
  by_cases hr : r = q
  · subst hr; simp
  · rw [Function.update_of_ne hr]

theorem Queues.Ran.length_sends {s s' : Queues KSUID V} (h : Queues.Ran s s') (r : ℕ) :
    (s'.sends r).length = (s.sends r).length := by
  cases h with
  | same => rfl
  | send h =>
    obtain ⟨pc, h1⟩ := (Queues.send_moved h).sends
    rw [h1, length_update_set]
  | handoff h =>
    obtain ⟨pc, h1⟩ := (Queues.handoff_moved h).sends
    rw [h1, length_update_set]
  | push h => rw [(Queues.push_touched h).2]

/-- The same for links. -/
theorem Links.Ran.touched {s s' : Links KSUID} (h : Links.Ran s s') : ∃ r, Links.Touched s.hub s'.hub r := by
  cases h with
  | same | closeConn => exact ⟨0, .refl⟩
  | send h => exact (Links.send_moved h).hub
  | handoff h => rw [(Links.handoff_moved h).1]; exact ⟨0, .refl⟩
  | push h =>
    rcases Links.push_cases h with ⟨-, hcl, ch, -, hcl', rfl⟩ | ⟨-, -, rfl⟩
    · exact ⟨_, fun x => { x with buffer := ch }, rfl, hcl'.trans hcl.symm, fun h1 => h1, rfl, rfl, rfl⟩
    · exact ⟨0, .refl⟩

theorem Links.Ran.ref? {s s' : Links KSUID} (h : Links.Ran s s') (k : KSUID) : s'.hub.ref? k = s.hub.ref? k := by
  obtain ⟨_, u, hu, -⟩ := h.touched
  rw [hu, Lib.Registry.ref?_modify]

theorem Links.Ran.sorted {s s' : Links KSUID} (h : Links.Ran s s') (r : ℕ) :
    (s'.hub.obj r).sorted = (s.hub.obj r).sorted := by
  obtain ⟨q, u, hu, -, -, hsort, -⟩ := h.touched
  rw [hu, Lib.Registry.obj_modify]
  split_ifs with h1
  · rw [h1, hsort]
  · rfl

theorem Links.Ran.length_sends {s s' : Links KSUID} (h : Links.Ran s s') (r : ℕ) :
    (s'.sends r).length = (s.sends r).length := by
  cases h with
  | same | closeConn => rfl
  | send h =>
    obtain ⟨pc, h1⟩ := (Links.send_moved h).sends
    rw [h1, length_update_set]
  | handoff h =>
    unfold Links.handoff at h
    split at h
    · split_ifs at h
      cases h
      exact length_update_set
    · cases h
  | push h => rcases Links.push_cases h with ⟨-, -, ch, -, -, rfl⟩ | ⟨-, -, rfl⟩ <;> rfl

/-- The chunk `CopyBuffer` puts into its queue next. -/
def Copy.chunk? (c : Copy) : Option Buffer :=
  match c.pc with
  | .select data _ => some ⟨false, data⟩
  | .eofSelect _ => some ⟨true, []⟩
  | _ => none

/-- The actions that are no operation of the hub. -/
def QueueAct.runs : QueueAct KSUID V → Bool
  | .send _ _ _ | .wait _ _ | .write _ _ => true
  | _ => false

def LinkAct.runs : LinkAct KSUID → Bool
  | .send _ _ _ | .wait _ _ | .write _ _ | .closeConn _ => true
  | _ => false

theorem Queues.Ran.of_act {s s' : Queues KSUID V} {a : QueueAct KSUID V}
    (h : s.act a = some s') (ha : a.runs = true) : Queues.Ran s s' := by
  unfold Queues.act at h
  split_ifs at h
  cases a with
  | add | setSort | trySend | remove | launch | sort => cases ha
  | send q i o =>
    simp only [Option.map_eq_some_iff] at h
    obtain ⟨⟨s1, msg⟩, h1, rfl⟩ := h
    exact .send h1
  | wait q i => exact .handoff h
  | write q b =>
    simp only [Option.map_eq_some_iff] at h
    obtain ⟨⟨s1, ok⟩, h1, rfl⟩ := h
    exact .push h1

theorem Links.Ran.of_act {s s' : Links KSUID} {a : LinkAct KSUID}
    (h : s.act a = some s') (ha : a.runs = true) : Links.Ran s s' := by
  unfold Links.act at h
  split_ifs at h
  cases a with
  | add | setSort | trySend | removeAll | launch | sort | conn => cases ha
  | send q i o => exact .send h
  | wait q i => exact .handoff h
  | write q b =>
    simp only [Option.map_eq_some_iff] at h
    obtain ⟨⟨s1, ok⟩, h1, rfl⟩ := h
    exact .push h1
  | closeConn c => cases h; exact .closeConn

end Wssocks.Pipe

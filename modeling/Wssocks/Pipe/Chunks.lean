import Wssocks.Lib.Lts
import Wssocks.Pipe.Act
import Wssocks.Pipe.CopyBuffer
import Wssocks.Pipe.QueueLemmas

/-!
# The chunks in the queues

A queue passes chunks on and makes none up, but for the zero value that a receive from a
closed buffer gives. So what holds of this value and of every chunk that is written holds
of every chunk in the queues, and of every chunk that `Send` writes to a writer.

Results:

* `Queues.Chunks.act`, `Copy.Chunks.step`: each action on the queues and each step of
  `CopyBuffer` keeps such a property.
* `Queues.Chunks.sent`: the chunk that a step of `Send` writes has it.
-/

namespace Wssocks.Pipe

open Wssocks.Lib

variable {KSUID W : Type} [DecidableEq KSUID] {P : Buffer → Prop}
  {s s' : Queues KSUID W} {q i : ℕ}

/-- Every chunk in a buffer, and every chunk in the hands of `Send`, satisfies `P`. -/
structure Queues.Chunks (P : Buffer → Prop) (s : Queues KSUID W) : Prop where
  buffer : ∀ q, ∀ b ∈ (s.hub.obj q).buffer.items, P b
  hand : ∀ {q w b rest}, .write w b rest ∈ s.sends q → P b

namespace Queues.Chunks

theorem init [Inhabited KSUID] : (Queues.init : Queues KSUID W).Chunks P where
  buffer := by
    intro q b hb
    cases hb
  hand := by
    intro q w b rest hb
    cases hb

/-- A change of the hub that adds no chunk. -/
theorem hub {h : QueueHub KSUID W} (hs : s.Chunks P)
    (hsub : ∀ q, ∀ b ∈ (h.obj q).buffer.items, b ∈ (s.hub.obj q).buffer.items) :
    ({ s with hub := h } : Queues KSUID W).Chunks P :=
  ⟨fun q b hb => hs.buffer q b (hsub q b hb), hs.hand⟩

theorem modify {f : Queue KSUID W → Queue KSUID W} (hs : s.Chunks P)
    (hf : ∀ b ∈ (f (s.hub.obj q)).buffer.items, P b) : (s.modify q f).Chunks P where
  buffer := by
    intro r b hb
    replace hb : b ∈ ((s.hub.modify q f).obj r).buffer.items := hb
    rw [Registry.obj_modify] at hb
    split_ifs at hb
    · exact hf b hb
    · exact hs.buffer r b hb
  hand := hs.hand

theorem launch {o : Option ℕ} (hs : s.Chunks P) : (s.launch o).Chunks P := by
  cases o with
  | none => exact hs
  | some q =>
    refine ⟨hs.buffer, fun {r w b rest} hb => ?_⟩
    replace hb : .write w b rest ∈ Function.update s.sends q (s.sends q ++ [.entry]) r := hb
    rw [Function.update_apply] at hb
    split_ifs at hb with hr
    · rw [List.mem_append, List.mem_singleton] at hb
      exact hs.hand (hb.resolve_right fun h => (by cases h))
    · exact hs.hand hb

theorem goto {pc : QueueSend KSUID W} (hs : s.Chunks P) (hpc : ∀ w b rest, pc = .write w b rest → P b) :
    (s.goto q i pc).Chunks P := by
  refine ⟨hs.buffer, fun {r w b rest} hb => ?_⟩
  replace hb : .write w b rest ∈ Function.update s.sends q ((s.sends q).set i pc) r := hb
  rw [Function.update_apply] at hb
  split_ifs at hb with hr
  · rcases List.mem_or_eq_of_mem_set hb with hb | hb
    · exact hs.hand hb
    · exact hpc w b rest hb.symm
  · exact hs.hand hb

theorem add {m id : KSUID} {w : W} (hs : s.Chunks P) : (s.add m id w).Chunks P := by
  refine launch (hs.hub fun r b hb => ?_)
  rw [QueueHub.obj_add] at hb
  split_ifs at hb
  · cases hb
  · exact hb
  · exact hb

theorem setSort {m : KSUID} {sort : List KSUID} (hs : s.Chunks P) : (s.setSort m sort).Chunks P := by
  refine hs.hub fun r b hb => ?_
  unfold QueueHub.setSort at hb
  split at hb
  · rw [Registry.obj_modify] at hb
    split_ifs at hb with hr
    · rw [hr]
      exact hb
    · exact hb
  · rw [Registry.obj_create] at hb
    split_ifs at hb
    · cases hb
    · exact hb

theorem remove {m : KSUID} (hs : s.Chunks P) : (s.remove m).Chunks P := by
  refine hs.hub fun r b hb => ?_
  rw [QueueHub.obj_remove] at hb
  split_ifs at hb
  · unfold Queue.close at hb
    split_ifs at hb <;> exact hb
  · exact hb

theorem push {b : Buffer} {ok : Bool} (hs : s.Chunks P) (hb : P b) (h : s.push q b = some (s', ok)) : s'.Chunks P := by
  rcases Queues.push_cases h with ⟨-, -, ch, hitems, -, rfl⟩ | ⟨-, -, rfl⟩
  · refine hs.modify fun x hx => ?_
    replace hx : x ∈ ch.items := hx
    rw [hitems, List.mem_append, List.mem_singleton] at hx
    rcases hx with hx | rfl
    · exact hs.buffer q x hx
    · exact hb
  · exact hs

/-- A receive gives a chunk of the buffer, or the zero value. -/
theorem recv {b : Buffer} {ch : BufChan} (hs : s.Chunks P) (h0 : P default)
    (h : (s.hub.obj q).buffer.recv? = some (b, ch)) : P b ∧ ∀ x ∈ ch.items, P x := by
  have hall := hs.buffer q
  rcases Chan.recv?_eq_some h with ⟨hitems, -⟩ | ⟨-, -, rfl, rfl⟩
  · rw [hitems] at hall
    exact ⟨hall b List.mem_cons_self, fun x hx => hall x (List.mem_cons_of_mem _ hx)⟩
  · exact ⟨h0, hall⟩

theorem send {o : Outcome} {msg : Option (W × Buffer)} (hs : s.Chunks P) (h0 : P default)
    (h : s.send q i o = some (s', msg)) : s'.Chunks P := by
  cases Queues.sendStep_of_send h with
  | refuse | closed | round | again | next | timeout | fail => exact hs.goto fun _ _ _ h => (by cases h)
  | enter | ret | closeDone => exact (hs.modify (hs.buffer q)).goto fun _ _ _ h => (by cases h)
  | read _ hx =>
    obtain ⟨hb, hch⟩ := hs.recv h0 hx
    refine (hs.modify hch).goto fun _ _ _ h => ?_
    cases h
    exact hb
  | write =>
    refine hs.goto fun _ _ _ h => ?_
    split_ifs at h
  | noWriter | panic => exact ⟨hs.buffer, hs.hand⟩

/-- What `Send` writes was in its hands. -/
theorem sent {o : Outcome} {w : W} {b : Buffer} (hs : s.Chunks P) (h : s.send q i o = some (s', some (w, b))) : P b := by
  cases Queues.sendStep_of_send h with
  | write hi => exact hs.hand (List.mem_of_getElem? hi)

theorem wait (hs : s.Chunks P) (h : s.handoff q i = some s') : s'.Chunks P := by
  unfold Queues.handoff at h
  split at h
  · split_ifs at h
    cases h
    exact hs.goto fun _ _ _ h => (by cases h)
  · cases h

/-- One action on the queues; what is written satisfies `P`. -/
theorem act {a : QueueAct KSUID W} (hs : s.Chunks P) (h0 : P default) (hw : ∀ q b, a = .write q b → P b)
    (h : s.act a = some s') : s'.Chunks P := by
  unfold Queues.act at h
  split_ifs at h
  cases a with
  | add m id w => cases h; exact hs.add
  | setSort m sort => cases h; exact hs.setSort
  | trySend m => cases h; exact hs.launch
  | remove m => cases h; exact hs.remove
  | launch q =>
    simp only at h
    split_ifs at h
    cases h
    exact hs.launch
  | sort q ids => cases h; exact hs.modify (hs.buffer q)
  | send q i o =>
    obtain ⟨⟨s1, msg⟩, h1, rfl⟩ := Option.map_eq_some_iff.mp h
    exact hs.send h0 h1
  | wait q i => exact hs.wait h
  | write q b =>
    obtain ⟨⟨s1, ok⟩, h1, rfl⟩ := Option.map_eq_some_iff.mp h
    exact hs.push (hw q b rfl) h1

theorem acts {a : Option (QueueAct KSUID W)} (hs : s.Chunks P) (h0 : P default)
    (hw : ∀ q b, a = some (.write q b) → P b) (h : Acts Queues.act s s' a) : s'.Chunks P := by
  cases a with
  | none =>
    have he : s' = s := h
    rwa [he]
  | some a => exact hs.act h0 (fun q b he => hw q b (by rw [he])) h

end Queues.Chunks

/-- The chunk that `CopyBuffer` has in its hands satisfies `P`. -/
def Copy.Chunks (P : Buffer → Prop) (c : Copy) : Prop :=
  ∀ data er, c.pc = .check data er ∨ c.pc = .select data er → P ⟨false, data⟩

namespace Copy.Chunks

variable {c c' : Copy}

theorem of_pc (h : ∀ data er, c.pc ≠ .check data er ∧ c.pc ≠ .select data er) : c.Chunks P :=
  fun data er hpc => hpc.elim (fun hc => absurd hc (h data er).1) fun hs => absurd hs (h data er).2

theorem afterWrite (er : ReadEnd) : (c.afterWrite er).Chunks P := by
  refine of_pc fun data er' => ?_
  cases er <;> exact ⟨fun h => (by cases h), fun h => (by cases h)⟩

theorem finish (er : ReadEnd) : (c.finish er).Chunks P :=
  of_pc fun _ _ => ⟨fun h => (by cases h), fun h => (by cases h)⟩

theorem abort (e : CopyErr) : (c.abort e).Chunks P :=
  of_pc fun _ _ => ⟨fun h => (by cases h), fun h => (by cases h)⟩

theorem read {data : List UInt8} {er : ReadEnd} (hd : P ⟨false, data⟩) (h : c.read data er = some c') : c'.Chunks P := by
  unfold Copy.read at h
  split_ifs at h <;> cases h
  · exact afterWrite er
  · intro data' er' hpc
    rcases hpc with hpc | hpc <;> cases hpc
    exact hd

theorem step (hc : c.Chunks P) (h : c.step s q = some (c', s')) : c'.Chunks P := by
  unfold Copy.step at h
  cases hpc : c.pc with
  | check data er =>
    simp only [hpc] at h
    split_ifs at h <;> cases h
    · exact abort _
    · intro data' er' hpc'
      rcases hpc' with hpc' | hpc' <;> cases hpc'
      exact hc data er (.inl hpc)
  | select data er =>
    simp only [hpc, Option.map_eq_some_iff] at h
    obtain ⟨r, -, he⟩ := h
    split_ifs at he <;> cases he
    · exact afterWrite er
    · exact abort _
  | eofCheck er =>
    simp only [hpc] at h
    split_ifs at h <;> cases h
    · exact finish er
    · exact of_pc fun _ _ => ⟨fun h => (by cases h), fun h => (by cases h)⟩
  | eofSelect er =>
    simp only [hpc, Option.map_eq_some_iff] at h
    obtain ⟨r, -, he⟩ := h
    cases he
    exact finish er
  | idle | read | done => simp [hpc] at h

theorem timeout (h : c.timeout s q = some c') : c'.Chunks P := by
  unfold Copy.timeout at h
  split_ifs at h
  split at h <;> cases h
  · exact abort _
  · exact finish _

end Copy.Chunks

end Wssocks.Pipe

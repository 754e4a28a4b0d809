import Wssocks.Lib.Tally
import Wssocks.Pipe.Queue

/-!
# The queue of one session

What the operations of a `QueueHub` do to its map and its queues, and the queue of
one session: a list `ids` of distinct lane ids, the first one the master. A
`QueueMap` remembers the first queue of the master, which lanes have given it a
writer, and whether it knows their order. `Holds` ties it to a hub:

* the first queue is open exactly as long as it is registered;
* a later queue of the master never learns an order, so `trySend` never launches it.
-/

namespace Wssocks.Pipe

open Wssocks.Lib

section Close

variable {KSUID W : Type} [DecidableEq KSUID]

namespace Queue

@[simp] theorem items_close (q : Queue KSUID W) : q.close.buffer.items = q.buffer.items := by
  unfold close; split_ifs <;> rfl

@[simp] theorem sorted_close (q : Queue KSUID W) : q.close.sorted = q.sorted := by
  unfold close; split_ifs <;> rfl

@[simp] theorem writers_close (q : Queue KSUID W) : q.close.writers = q.writers := by
  unfold close; split_ifs <;> rfl

@[simp] theorem status_close (q : Queue KSUID W) : q.close.status = .close := by
  unfold close
  split_ifs with h
  · exact h
  · rfl

theorem closed_close {q : Queue KSUID W} (h : q.status = .close → q.buffer.closed = true) :
    q.close.buffer.closed = true := by
  unfold close
  split_ifs with hs
  · exact h hs
  · rfl

end Queue

namespace QueueHub

variable {h : QueueHub KSUID W} {m k id : KSUID} {q r : ℕ} {w : W} {sort : List KSUID}

/-- The queue of `m`, or the place of its next one. -/
def masterRef (h : QueueHub KSUID W) (m : KSUID) : ℕ := (h.ref? m).getD h.next

theorem add_eq : add h m id w = (h.ensure m (newQueue m)).modify (masterRef h m)
    fun x => { x with writers := x.writers.insert id w } := by
  unfold add masterRef
  have hm : (h.ensure m (newQueue m)).ref? m = some ((h.ref? m).getD h.next) := by
    rw [Registry.ref?_ensure, if_pos rfl]
  simp only [hm]

theorem ref?_add : (add h m id w).ref? k = if k = m then some (masterRef h m) else h.ref? k := by
  rw [add_eq, Registry.ref?_modify, Registry.ref?_ensure]
  rfl

/-- `Add` puts a writer into the queue of `m`. -/
theorem obj_add : (add h m id w).obj r =
    if r = masterRef h m then
      { (if h.ref? m = none then newQueue m else h.obj r) with
        writers := (if h.ref? m = none then (newQueue m : Queue KSUID W) else h.obj r).writers.insert id w }
    else h.obj r := by
  rw [add_eq, Registry.obj_modify]
  have hobj : (h.ensure m (newQueue m)).obj (masterRef h m) =
      if h.ref? m = none then newQueue m else h.obj (masterRef h m) := by
    rw [Registry.obj_ensure]
    unfold masterRef
    cases hm : h.ref? m <;> simp
  by_cases hr : r = masterRef h m
  · subst hr; rw [if_pos rfl, if_pos rfl, hobj]
  · rw [if_neg hr, if_neg hr, Registry.obj_ensure, if_neg]
    rintro ⟨h1, h2⟩
    exact hr (by simp [masterRef, h1, h2])

theorem ref?_remove : (remove h m).ref? k = if k = m then none else h.ref? k := by
  unfold remove
  cases hm : h.ref? m with
  | none =>
    simp only
    split_ifs with hk
    · rw [hk, hm]
    · rfl
  | some q => simp only [Registry.ref?_erase, Registry.ref?_modify]

@[simp] theorem next_remove : (remove h m).next = h.next := by
  unfold remove; cases h.ref? m <;> rfl

theorem obj_remove : (remove h m).obj r = if h.ref? m = some r then (h.obj r).close else h.obj r := by
  unfold remove
  cases hm : h.ref? m with
  | none => simp
  | some c =>
    simp only [Registry.obj_erase, Registry.obj_modify, Option.some.injEq]
    by_cases hr : r = c
    · rw [if_pos hr, if_pos hr.symm, hr]
    · rw [if_neg hr, if_neg fun h1 => hr h1.symm]

theorem ref?_setSort : (setSort h m sort).ref? k = if k = m then some (masterRef h m) else h.ref? k := by
  unfold setSort masterRef
  cases hm : h.ref? m with
  | none => simp [Registry.ref?_create]
  | some q =>
    simp only [Registry.ref?_modify, Option.getD_some]
    split_ifs with hk
    · rw [hk, hm]
    · rfl

theorem setSort_eq (hm : h.ref? m = some q) :
    setSort h m sort = h.modify q fun x => { x with sorted := sort } := by
  unfold setSort; rw [hm]

theorem trySend_eq (hm : h.ref? m = some q) : trySend h m =
    if (h.obj q).writers.entries.length = (h.obj q).sorted.length then some q else none := by
  unfold trySend; rw [hm]

theorem trySend_missing (hm : h.ref? m = none) : trySend h m = none := by
  unfold trySend; rw [hm]

end QueueHub

namespace Queues

variable {s : Queues KSUID W} {m id : KSUID} {w : W} {o : Option ℕ}

@[simp] theorem hub_launch : (s.launch o).hub = s.hub := by cases o <;> rfl

@[simp] theorem hub_trySend : (s.trySend m).hub = s.hub := hub_launch

@[simp] theorem hub_add : (s.add m id w).hub = QueueHub.add s.hub m id w := hub_trySend

@[simp] theorem crashed_launch : (s.launch o).crashed = s.crashed := by cases o <;> rfl

@[simp] theorem crashed_trySend : (s.trySend m).crashed = s.crashed := crashed_launch

@[simp] theorem crashed_add : (s.add m id w).crashed = s.crashed := crashed_trySend

theorem setSort_eq {q : ℕ} {sort : List KSUID} (h : s.hub.ref? m = some q) :
    s.setSort m sort = s.modify q fun x => { x with sorted := sort } := by
  unfold setSort modify
  rw [QueueHub.setSort_eq h]

/-- A launch concerns the goroutines of one queue. -/
theorem sends_launch_ne {q : ℕ} (h : o ≠ some q) : (s.launch o).sends q = s.sends q := by
  cases o with
  | none => rfl
  | some r =>
    show Function.update s.sends r _ q = _
    rw [Function.update_of_ne]
    rintro rfl
    exact h rfl

end Queues

/-- A `select` on the buffer of a queue appends the chunk, or loses it to the closed
    channel. -/
theorem Queues.push_cases {s s' : Queues KSUID W} {q : ℕ} {b : Buffer} {ok : Bool}
    (h : s.push q b = some (s', ok)) :
    (ok = true ∧ (s.hub.obj q).buffer.closed = false ∧ ∃ ch : BufChan,
      ch.items = (s.hub.obj q).buffer.items ++ [b] ∧ ch.closed = false ∧
      s' = s.modify q fun x => { x with buffer := ch }) ∨
    (ok = false ∧ (s.hub.obj q).buffer.closed = true ∧ s' = s) := by
  unfold push at h
  obtain ⟨a, ha, he⟩ := Option.map_eq_some_iff.mp h
  cases a with
  | some ch =>
    cases he
    obtain ⟨h1, h2, h3⟩ := selectSend_some ha
    exact .inl ⟨rfl, h1, ch, h2, h3, rfl⟩
  | none =>
    cases he
    exact .inr ⟨rfl, selectSend_none ha, rfl⟩

/-- A step through the pointer to queue `q` that neither closes it nor changes its
    writers and its order. -/
def QueueHub.Touched (h h' : QueueHub KSUID W) (q : ℕ) : Prop :=
  ∃ u : Queue KSUID W → Queue KSUID W, h' = h.modify q u ∧
    (u (h.obj q)).buffer.closed = (h.obj q).buffer.closed ∧
    ((u (h.obj q)).status = .close → (h.obj q).status = .close) ∧
    (u (h.obj q)).writers = (h.obj q).writers ∧ (u (h.obj q)).sorted = (h.obj q).sorted

section Touched

variable {h h' : QueueHub KSUID W} {s s' : Queues KSUID W} {q i : ℕ}

theorem QueueHub.Touched.refl : QueueHub.Touched h h q :=
  ⟨fun x => x, Registry.modify_id.symm, rfl, fun h1 => h1, rfl, rfl⟩

theorem QueueHub.Touched.ref? (t : QueueHub.Touched h h' q) (k : KSUID) : h'.ref? k = h.ref? k := by
  obtain ⟨u, rfl, -⟩ := t
  rfl

theorem QueueHub.Touched.next (t : QueueHub.Touched h h' q) : h'.next = h.next := by
  obtain ⟨u, rfl, -⟩ := t
  rfl

theorem Queues.push_touched {b : Buffer} {ok : Bool} (h : s.push q b = some (s', ok)) :
    QueueHub.Touched s.hub s'.hub q ∧ s'.sends = s.sends := by
  rcases Queues.push_cases h with ⟨-, h1, ch, -, h2, rfl⟩ | ⟨-, -, rfl⟩
  · exact ⟨⟨fun x => { x with buffer := ch }, rfl, h2.trans h1.symm, fun h3 => h3, rfl, rfl⟩, rfl⟩
  · exact ⟨.refl, rfl⟩

/-- What a step of goroutine `i` of queue `q` may change. -/
structure Queues.Moved (s s' : Queues KSUID W) (q i : ℕ) : Prop where
  hub : QueueHub.Touched s.hub s'.hub q
  sends : ∃ pc, s'.sends = Function.update s.sends q ((s.sends q).set i pc)

theorem Queues.moved_goto {pc : QueueSend KSUID W} : Queues.Moved s (s.goto q i pc) q i :=
  ⟨.refl, pc, rfl⟩

/-- What a step of goroutine `i` of `Send` on queue `q` can be, with the write it makes. -/
inductive Queues.SendStep (s : Queues KSUID W) (q i : ℕ) :
    Outcome → Queues KSUID W → Option (W × Buffer) → Prop
  | refuse {o : Outcome} (hi : (s.sends q)[i]? = some .entry)
      (hst : (s.hub.obj q).status = .send ∨ (s.hub.obj q).status = .done) :
      SendStep s q i o (s.goto q i .refused) none
  | enter {o : Outcome} (hi : (s.sends q)[i]? = some .entry)
      (hst : ¬ ((s.hub.obj q).status = .send ∨ (s.hub.obj q).status = .done)) :
      SendStep s q i o ((s.modify q fun x => { x with status := .send }).goto q i .loop) none
  | closed {o : Outcome} (hi : (s.sends q)[i]? = some .loop) (hst : (s.hub.obj q).status = .close) :
      SendStep s q i o (s.goto q i (.ret (some .closedPipe))) none
  | round {o : Outcome} (hi : (s.sends q)[i]? = some .loop) (hst : (s.hub.obj q).status ≠ .close) :
      SendStep s q i o (s.goto q i (.pass (s.hub.obj q).sorted)) none
  | again {o : Outcome} (hi : (s.sends q)[i]? = some (.pass [])) : SendStep s q i o (s.goto q i .loop) none
  | next {o : Outcome} {id : KSUID} {rest : List KSUID} (hi : (s.sends q)[i]? = some (.pass (id :: rest))) :
      SendStep s q i o (s.goto q i (.read ((s.hub.obj q).writers.lookup id) rest)) none
  | read {w : Option W} {rest : List KSUID} {x : Buffer × BufChan} (hi : (s.sends q)[i]? = some (.read w rest))
      (hx : (s.hub.obj q).buffer.recv? = some x) :
      SendStep s q i .ok ((s.modify q fun y => { y with buffer := x.2 }).goto q i (.write w x.1 rest)) none
  | timeout {w : Option W} {rest : List KSUID} (hi : (s.sends q)[i]? = some (.read w rest)) :
      SendStep s q i .timeout (s.goto q i (.ret (some .timeout))) none
  | write {w : W} {b : Buffer} {rest : List KSUID} (hi : (s.sends q)[i]? = some (.write (some w) b rest)) :
      SendStep s q i .ok (s.goto q i (if b.eof then .ret none else .pass rest)) (some (w, b))
  | fail {n : ℕ} {w : W} {b : Buffer} {rest : List KSUID} (hi : (s.sends q)[i]? = some (.write (some w) b rest)) :
      SendStep s q i (.fail n) (s.goto q i (.ret (if b.eof then none else some .write))) none
  /-- The writer is missing. -/
  | noWriter {o : Outcome} {b : Buffer} {rest : List KSUID} (hi : (s.sends q)[i]? = some (.write none b rest)) :
      SendStep s q i o { s with crashed := true } none
  | ret {o : Outcome} {e : Option SendErr} (hi : (s.sends q)[i]? = some (.ret e)) :
      SendStep s q i o ((s.modify q fun x => { x with status := .done }).goto q i (.handoff e)) none
  | panic {o : Outcome} {e : Option SendErr}
      (hi : (s.sends q)[i]? = some (.handoff e) ∨ (s.sends q)[i]? = some (.closeDone e))
      (hd : (s.hub.obj q).done = true) : SendStep s q i o { s with crashed := true } none
  | closeDone {o : Outcome} {e : Option SendErr} (hi : (s.sends q)[i]? = some (.closeDone e))
      (hd : (s.hub.obj q).done = false) :
      SendStep s q i o ((s.modify q fun x => { x with done := true }).goto q i (.exit e)) none

theorem Queues.sendStep_of_send {o : Outcome} {msg : Option (W × Buffer)}
    (h : s.send q i o = some (s', msg)) : Queues.SendStep s q i o s' msg := by
  cases hi : (s.sends q)[i]? with
  | none => simp [Queues.send, hi] at h
  | some pc =>
    cases pc with
    | entry =>
      simp only [Queues.send, hi] at h
      split_ifs at h with hst <;> cases h
      · exact .refuse hi hst
      · exact .enter hi hst
    | loop =>
      simp only [Queues.send, hi] at h
      split_ifs at h with hst <;> cases h
      · exact .closed hi hst
      · exact .round hi hst
    | pass rest =>
      cases rest with
      | nil =>
        simp only [Queues.send, hi] at h
        cases h
        exact .again hi
      | cons id rest =>
        simp only [Queues.send, hi] at h
        cases h
        exact .next hi
    | read w rest =>
      cases o with
      | ok =>
        simp only [Queues.send, hi, Option.map_eq_some_iff] at h
        obtain ⟨x, hx, he⟩ := h
        cases he
        exact .read hi hx
      | timeout =>
        simp only [Queues.send, hi] at h
        cases h
        exact .timeout hi
      | fail n => simp [Queues.send, hi] at h
    | write w b rest =>
      cases w with
      | none =>
        simp only [Queues.send, hi] at h
        cases h
        exact .noWriter hi
      | some w =>
        cases o with
        | ok =>
          simp only [Queues.send, hi] at h
          cases h
          exact .write hi
        | fail n =>
          simp only [Queues.send, hi] at h
          cases h
          exact .fail hi
        | timeout => simp [Queues.send, hi] at h
    | ret e =>
      simp only [Queues.send, hi] at h
      cases h
      exact .ret hi
    | handoff e =>
      simp only [Queues.send, hi] at h
      split_ifs at h with hd
      cases h
      exact .panic (.inl hi) hd
    | closeDone e =>
      simp only [Queues.send, hi] at h
      split_ifs at h with hd <;> cases h
      · exact .panic (.inr hi) hd
      · exact .closeDone hi (by simpa using hd)
    | exit e | refused => simp [Queues.send, hi] at h

/-- And each of them is a step. -/
theorem Queues.SendStep.send {o : Outcome} {msg : Option (W × Buffer)} (h : Queues.SendStep s q i o s' msg) :
    s.send q i o = some (s', msg) := by
  cases h with
  | refuse hi hst | enter hi hst | closed hi hst | round hi hst => simp [Queues.send, hi, hst]
  | again hi | next hi | timeout hi | write hi | fail hi | noWriter hi | ret hi => simp [Queues.send, hi]
  | read hi hx => simp [Queues.send, hi, hx]
  | panic hi hd =>
    rcases hi with hi | hi
    · simp [Queues.send, hi, hd]
    · simp [Queues.send, hi, hd]
  | closeDone hi hd => simp [Queues.send, hi, hd]

/-- Only a goroutine that was launched takes a step. -/
theorem Queues.sends_ne_nil {o : Outcome} {msg : Option (W × Buffer)} (h : s.send q i o = some (s', msg)) :
    s.sends q ≠ [] := by
  intro hnil
  simp [Queues.send, hnil] at h

/-- A step of `Send` leaves the map and the other goroutines. -/
theorem Queues.send_moved {o : Outcome} {msg : Option (W × Buffer)}
    (h : s.send q i o = some (s', msg)) : Queues.Moved s s' q i := by
  have stay : ∀ {pc}, (s.sends q)[i]? = some pc →
      s.sends = Function.update s.sends q ((s.sends q).set i pc) := by
    intro pc hi
    obtain ⟨hlt, rfl⟩ := List.getElem?_eq_some_iff.mp hi
    rw [List.set_getElem_self, Function.update_eq_self]
  cases Queues.sendStep_of_send h with
  | refuse | closed | round | again | next | timeout | write | fail => exact moved_goto
  | enter => exact ⟨⟨fun x => { x with status := .send }, rfl, rfl, fun h1 => (by cases h1), rfl, rfl⟩, _, rfl⟩
  | read _ hx =>
    exact ⟨⟨fun x => { x with buffer := _ }, rfl, Chan.closed_recv? hx, fun h1 => h1, rfl, rfl⟩, _, rfl⟩
  | noWriter hi => exact ⟨.refl, _, stay hi⟩
  | panic hi =>
    rcases hi with hi | hi
    · exact ⟨.refl, _, stay hi⟩
    · exact ⟨.refl, _, stay hi⟩
  | ret => exact ⟨⟨fun x => { x with status := .done }, rfl, rfl, fun h1 => (by cases h1), rfl, rfl⟩, _, rfl⟩
  | closeDone => exact ⟨⟨fun x => { x with done := true }, rfl, rfl, fun h1 => h1, rfl, rfl⟩, _, rfl⟩

theorem Queues.handoff_moved (h : s.handoff q i = some s') : Queues.Moved s s' q i := by
  unfold Queues.handoff at h
  split at h
  · split_ifs at h
    cases h
    exact moved_goto
  · cases h

theorem Queues.Moved.sends_ne (t : Queues.Moved s s' q i) {r : ℕ} (hr : r ≠ q) :
    s'.sends r = s.sends r := by
  obtain ⟨pc, h1⟩ := t.sends
  rw [h1, Function.update_of_ne hr]

/-- No queue was closed. -/
def Queues.Unclosed (s : Queues KSUID W) : Prop := ∀ q, (s.hub.obj q).status ≠ .close

theorem Queues.Unclosed.touched (hu : s.Unclosed) (t : QueueHub.Touched s.hub s'.hub q) : s'.Unclosed := by
  obtain ⟨u, h1, -, h2, -⟩ := t
  intro r
  rw [h1, Registry.obj_modify]
  split_ifs with hr
  · exact fun h3 => hu q (h2 h3)
  · exact hu r

theorem Queues.Unclosed.add {m id : KSUID} {w : W} (hu : s.Unclosed) : (s.add m id w).Unclosed := by
  intro r
  rw [Queues.hub_add, QueueHub.obj_add]
  split_ifs <;> first | exact hu r | simp [newQueue]

theorem Queues.Unclosed.setSort {m : KSUID} {sort : List KSUID} (hu : s.Unclosed) :
    (s.setSort m sort).Unclosed := by
  intro r
  show ((QueueHub.setSort s.hub m sort).obj r).status ≠ .close
  unfold QueueHub.setSort
  split
  · rw [Registry.obj_modify]
    split_ifs with hr
    · subst hr; exact hu r
    · exact hu r
  · rw [Registry.obj_create]
    split_ifs
    · simp [newQueue]
    · exact hu r

theorem Queues.Unclosed.trySend {m : KSUID} (hu : s.Unclosed) : (s.trySend m).Unclosed := by
  unfold Queues.Unclosed
  rw [Queues.hub_trySend]
  exact hu

end Touched

end Close

/-! ## The queue of a session -/

/-- What the queue of a session has been told so far. -/
structure QueueMap where
  /-- The first queue of the master. -/
  queue : Option ℕ
  /-- The lanes that gave it a writer. -/
  written : ℕ → Bool
  /-- Its `sorted` has been set. -/
  sorted : Bool

/-- Nothing is there yet. -/
def QueueMap.init : QueueMap := ⟨none, fun _ => false, false⟩

section Session

variable {KSUID W : Type} [DecidableEq KSUID]

/-- The hub holds the queue of the session as `g` says; `wr k` is the writer of
    lane `k`. -/
structure Holds (ids : List KSUID) (m : KSUID) (wr : ℕ → W) (g : QueueMap) (h : QueueHub KSUID W) :
    Prop where
  queue_lt : ∀ {q}, g.queue = some q → q < h.next
  unborn : g.queue = none → h.ref? m = none ∧ g.sorted = false ∧ ∀ k, g.written k = false
  open_iff : ∀ {q}, g.queue = some q → ((h.obj q).buffer.closed = false ↔ h.ref? m = some q)
  status_close : ∀ {q}, g.queue = some q → (h.obj q).status = .close → (h.obj q).buffer.closed = true
  /-- A later queue has writers and no order. -/
  second : ∀ {q}, h.ref? m = some q → g.queue ≠ some q →
    (h.obj q).sorted = [] ∧ (h.obj q).writers.entries ≠ []
  sorted : ∀ {q}, g.queue = some q → (h.obj q).sorted = if g.sorted then ids else []
  writers : ∀ {q k id}, g.queue = some q → ids[k]? = some id →
    (h.obj q).writers.lookup id = if g.written k then some (wr k) else none
  count : ∀ {q}, g.queue = some q → (h.obj q).writers.entries.length = tally g.written ids.length
  nonempty : ∀ {q}, g.queue = some q → (h.obj q).writers.entries ≠ []

namespace Holds

variable {ids : List KSUID} {m : KSUID} {wr : ℕ → W} {g : QueueMap} {h : QueueHub KSUID W} {q : ℕ}

theorem init [Inhabited KSUID] : Holds ids m wr QueueMap.init (Registry.empty : QueueHub KSUID W) where
  queue_lt := by simp [QueueMap.init]
  unborn := by simp [QueueMap.init]
  open_iff := by simp [QueueMap.init]
  status_close := by simp [QueueMap.init]
  second := by simp
  sorted := by simp [QueueMap.init]
  writers := by simp [QueueMap.init]
  count := by simp [QueueMap.init]
  nonempty := by simp [QueueMap.init]

/-- A change of one queue that leaves its writers and its channel as open as it
    was, and what the first queue was told then. -/
theorem modify (t : Holds ids m wr g h) (q : ℕ) (f : Queue KSUID W → Queue KSUID W) (st : Bool)
    (hcl : (f (h.obj q)).buffer.closed = (h.obj q).buffer.closed)
    (hst : (f (h.obj q)).status = .close → (h.obj q).status = .close)
    (hw : (f (h.obj q)).writers = (h.obj q).writers)
    (hself : g.queue = some q → (f (h.obj q)).sorted = if st then ids else [])
    (hother : g.queue ≠ some q → st = g.sorted ∧ (f (h.obj q)).sorted = (h.obj q).sorted) :
    Holds ids m wr { g with sorted := st } (h.modify q f) := by
  have hwr : ∀ r, ((h.modify q f).obj r).writers = (h.obj r).writers := by
    intro r
    by_cases hr : r = q
    · rw [hr, Registry.obj_modify_self, hw]
    · rw [Registry.obj_modify_ne hr]
  have hbuf : ∀ r, ((h.modify q f).obj r).buffer.closed = (h.obj r).buffer.closed := by
    intro r
    by_cases hr : r = q
    · rw [hr, Registry.obj_modify_self, hcl]
    · rw [Registry.obj_modify_ne hr]
  constructor
  case queue_lt => exact t.queue_lt
  case unborn =>
    intro h0
    obtain ⟨h1, h2, h3⟩ := t.unborn h0
    exact ⟨h1, (hother (by rw [h0]; simp)).1.trans h2, h3⟩
  case open_iff => intro r hr; rw [hbuf]; exact t.open_iff hr
  case status_close =>
    intro r hr
    rw [hbuf]
    by_cases hq : r = q
    · subst hq
      rw [Registry.obj_modify_self]
      exact fun h1 => t.status_close hr (hst h1)
    · rw [Registry.obj_modify_ne hq]
      exact t.status_close hr
  case second =>
    intro r hr hne
    obtain ⟨h1, h2⟩ := t.second hr hne
    rw [hwr]
    refine ⟨?_, h2⟩
    by_cases hq : r = q
    · subst hq; rw [Registry.obj_modify_self, (hother hne).2, h1]
    · rw [Registry.obj_modify_ne hq, h1]
  case sorted =>
    intro r hr
    by_cases hq : r = q
    · subst hq
      rw [Registry.obj_modify_self]
      exact hself hr
    · rw [Registry.obj_modify_ne hq, t.sorted hr,
        (hother fun h0 => hq (Option.some.inj (hr.symm.trans h0))).1]
  case writers => intro r k id hr; rw [hwr]; exact t.writers hr
  case count => intro r hr; rw [hwr]; exact t.count hr
  case nonempty => intro r hr; rw [hwr]; exact t.nonempty hr

/-- A change that concerns only the buffered items, `status` and `done`. -/
theorem modify_same (t : Holds ids m wr g h) (q : ℕ) (f : Queue KSUID W → Queue KSUID W)
    (hcl : (f (h.obj q)).buffer.closed = (h.obj q).buffer.closed)
    (hst : (f (h.obj q)).status = .close → (h.obj q).status = .close)
    (hw : (f (h.obj q)).writers = (h.obj q).writers)
    (hs : (f (h.obj q)).sorted = (h.obj q).sorted) : Holds ids m wr g (h.modify q f) :=
  t.modify q f g.sorted hcl hst hw (fun h0 => by rw [hs, t.sorted h0]) (fun _ => ⟨rfl, hs⟩)

theorem touched {h' : QueueHub KSUID W} (t : Holds ids m wr g h) (ht : QueueHub.Touched h h' q) :
    Holds ids m wr g h' := by
  obtain ⟨u, rfl, h1, h2, h3, h4⟩ := ht
  exact t.modify_same q u h1 h2 h3 h4

/-- `SetSort` on the first queue. -/
theorem setSort (t : Holds ids m wr g h) (hq : g.queue = some q) (hr : h.ref? m = some q) :
    Holds ids m wr { g with sorted := true } (QueueHub.setSort h m ids) := by
  rw [QueueHub.setSort_eq hr]
  exact t.modify q _ true rfl (fun h1 => h1) rfl (fun _ => by simp) (fun h1 => absurd hq h1)

/-- `Remove` of the master. -/
theorem remove (t : Holds ids m wr g h) : Holds ids m wr g (QueueHub.remove h m) := by
  have hnone : (QueueHub.remove h m).ref? m = none := by rw [QueueHub.ref?_remove, if_pos rfl]
  have hmeta : ∀ r, ((QueueHub.remove h m).obj r).sorted = (h.obj r).sorted ∧
      ((QueueHub.remove h m).obj r).writers = (h.obj r).writers := by
    intro r
    rw [QueueHub.obj_remove]
    split_ifs <;> simp
  constructor
  case queue_lt => intro q hq; rw [QueueHub.next_remove]; exact t.queue_lt hq
  case unborn => intro h0; exact ⟨hnone, (t.unborn h0).2⟩
  case open_iff =>
    intro q hq
    rw [hnone, QueueHub.obj_remove]
    split_ifs with hr
    · rw [Queue.closed_close (t.status_close hq)]; simp
    · rw [t.open_iff hq]; simp [hr]
  case status_close =>
    intro q hq
    rw [QueueHub.obj_remove]
    split_ifs
    · intro _; exact Queue.closed_close (t.status_close hq)
    · exact t.status_close hq
  case second => intro q hq; rw [hnone] at hq; cases hq
  case sorted => intro q hq; rw [(hmeta q).1]; exact t.sorted hq
  case writers => intro q k id hq; rw [(hmeta q).2]; exact t.writers hq
  case count => intro q hq; rw [(hmeta q).2]; exact t.count hq
  case nonempty => intro q hq; rw [(hmeta q).2]; exact t.nonempty hq

/-! ### `Add` and the launches -/

section Add

variable {k : ℕ} {id : KSUID}

/-- The map of the session after `Add` for lane `k`. -/
def added (g : QueueMap) (h : QueueHub KSUID W) (m : KSUID) (k : ℕ) : QueueMap :=
  { g with
    queue := some (g.queue.getD (h.masterRef m))
    written := if h.ref? m = g.queue then Function.update g.written k true else g.written }

/-- What the hub holds of a session whose first queue is `a`. -/
theorem of_queue {a : ℕ} (hq : g.queue = some a) (hlt : a < h.next)
    (hopen : (h.obj a).buffer.closed = false ↔ h.ref? m = some a)
    (hclose : (h.obj a).status = .close → (h.obj a).buffer.closed = true)
    (hsecond : ∀ {q}, h.ref? m = some q → q ≠ a → (h.obj q).sorted = [] ∧ (h.obj q).writers.entries ≠ [])
    (hsorted : (h.obj a).sorted = if g.sorted then ids else [])
    (hwriters : ∀ {k id}, ids[k]? = some id →
      (h.obj a).writers.lookup id = if g.written k then some (wr k) else none)
    (hcount : (h.obj a).writers.entries.length = tally g.written ids.length)
    (hne : (h.obj a).writers.entries ≠ []) : Holds ids m wr g h := by
  have hself : ∀ {q}, g.queue = some q → a = q := fun h0 => Option.some.inj (hq.symm.trans h0)
  constructor
  case queue_lt => intro q h0; exact hself h0 ▸ hlt
  case unborn => intro h0; rw [hq] at h0; cases h0
  case open_iff => intro q h0; exact hself h0 ▸ hopen
  case status_close => intro q h0; exact hself h0 ▸ hclose
  case second => intro q hr h0; exact hsecond hr fun h1 => h0 (h1 ▸ hq)
  case sorted => intro q h0; exact hself h0 ▸ hsorted
  case writers => intro q k id h0; exact hself h0 ▸ hwriters
  case count => intro q h0; exact hself h0 ▸ hcount
  case nonempty => intro q h0; exact hself h0 ▸ hne

/-- The writers of the lanes, with that of lane `k`. -/
theorem lookup_insert {x : AList fun _ : KSUID => W} {written : ℕ → Bool} (hnd : ids.Nodup) (hid : ids[k]? = some id)
    (hx : ∀ {j y}, ids[j]? = some y → x.lookup y = if written j then some (wr j) else none)
    {j : ℕ} {y : KSUID} (hj : ids[j]? = some y) :
    (x.insert id (wr k)).lookup y = if Function.update written k true j then some (wr j) else none := by
  by_cases hjk : j = k
  · subst hjk
    rw [hj] at hid
    cases hid
    simp
  · have hne : y ≠ id := fun h1 => hjk ((index_inj hnd hj hid).mp h1)
    rw [AList.lookup_insert_ne hne, Function.update_of_ne hjk]
    exact hx hj

/-- A lane that had no writer is one more. -/
theorem length_insert {x : AList fun _ : KSUID => W} {written : ℕ → Bool} (hid : ids[k]? = some id)
    (hk : written k = false) (hnot : x.lookup id = none) (hx : x.entries.length = tally written ids.length) :
    (x.insert id (wr k)).entries.length = tally (Function.update written k true) ids.length := by
  rw [tally_update (List.getElem?_eq_some_iff.mp hid).1 hk, ← hx,
    AList.entries_insert_of_notMem (AList.lookup_eq_none.mp hnot)]
  rfl

theorem entries_insert_ne_nil (x : AList fun _ : KSUID => W) (w : W) : (x.insert id w).entries ≠ [] := by
  rw [AList.entries_insert]
  simp

/-- `Add` creates the first queue of the session. -/
theorem add_first (t : Holds ids m wr g h) (hnd : ids.Nodup) (hid : ids[k]? = some id) (hg : g.queue = none) :
    Holds ids m wr (added g h m k) (QueueHub.add h m id (wr k)) := by
  obtain ⟨hr, hs, hw⟩ := t.unborn hg
  have hmr : h.masterRef m = h.next := by simp [QueueHub.masterRef, hr]
  have href : (QueueHub.add h m id (wr k)).ref? m = some h.next := by
    rw [QueueHub.ref?_add, if_pos rfl, hmr]
  have hobj : (QueueHub.add h m id (wr k)).obj h.next =
      { (newQueue m : Queue KSUID W) with
        writers := (newQueue m : Queue KSUID W).writers.insert id (wr k) } := by
    rw [QueueHub.obj_add, if_pos hmr.symm]; simp only [hr, if_true]
  have hwr : (added g h m k).written = Function.update g.written k true := by simp [added, hg, hr]
  refine of_queue (a := h.next) (by simp [added, hg, hmr]) (Registry.ref?_lt href) ?_ ?_ ?_ ?_ ?_ ?_ ?_
  · rw [hobj, href]; simp [newQueue]
  · rw [hobj]; simp [newQueue]
  · intro q hq hne
    exact absurd (Option.some.inj (hq.symm.trans href)) hne
  · rw [hobj]; simp [added, hs, newQueue]
  · intro j y hj
    rw [hobj, hwr]
    exact lookup_insert hnd hid (fun _ => by rw [hw]; rfl) hj
  · rw [hobj, hwr]
    exact length_insert hid (hw k) rfl (tally_eq_zero hw).symm
  · rw [hobj]; exact entries_insert_ne_nil _ _

/-- `Add` gives the first queue, which is registered, a writer. -/
theorem add_live {a : ℕ} (t : Holds ids m wr g h) (hnd : ids.Nodup) (hid : ids[k]? = some id)
    (hk : g.written k = false) (hg : g.queue = some a) (hlive : h.ref? m = some a) :
    Holds ids m wr (added g h m k) (QueueHub.add h m id (wr k)) := by
  have hmr : h.masterRef m = a := by simp [QueueHub.masterRef, hlive]
  have href : (QueueHub.add h m id (wr k)).ref? m = some a := by
    rw [QueueHub.ref?_add, if_pos rfl, hmr]
  have hobj : (QueueHub.add h m id (wr k)).obj a =
      { h.obj a with writers := (h.obj a).writers.insert id (wr k) } := by
    rw [QueueHub.obj_add, if_pos hmr.symm]; simp [hlive]
  have hwr : (added g h m k).written = Function.update g.written k true := by simp [added, hg, hlive]
  refine of_queue (a := a) (by simp [added, hg]) (Registry.ref?_lt href) ?_ ?_ ?_ ?_ ?_ ?_ ?_
  · rw [hobj, href, t.open_iff hg, hlive]
  · rw [hobj]; exact t.status_close hg
  · intro q hq hne
    exact absurd (Option.some.inj (hq.symm.trans href)) hne
  · rw [hobj]; exact t.sorted hg
  · intro j y hj
    rw [hobj, hwr]
    exact lookup_insert hnd hid (t.writers hg) hj
  · rw [hobj, hwr]
    exact length_insert hid hk (by rw [t.writers hg hid, hk]; rfl) (t.count hg)
  · rw [hobj]; exact entries_insert_ne_nil _ _

/-- The first queue is gone, and `Add` gives another one a writer. -/
theorem add_second {a : ℕ} (t : Holds ids m wr g h) (hg : g.queue = some a) (hgone : h.ref? m ≠ some a) :
    Holds ids m wr (added g h m k) (QueueHub.add h m id (wr k)) := by
  have hne : a ≠ h.masterRef m := by
    have ha := t.queue_lt hg
    unfold QueueHub.masterRef
    cases hr : h.ref? m with
    | none => simp; omega
    | some y => simp only [Option.getD_some]; rintro rfl; exact hgone hr
  have href : (QueueHub.add h m id (wr k)).ref? m = some (h.masterRef m) := by
    rw [QueueHub.ref?_add, if_pos rfl]
  have hobj : (QueueHub.add h m id (wr k)).obj a = h.obj a := by rw [QueueHub.obj_add, if_neg hne]
  have hwr : (added g h m k).written = g.written := by simp [added, hg, hgone]
  have hlt : a < (QueueHub.add h m id (wr k)).next := by
    refine lt_of_lt_of_le (t.queue_lt hg) ?_
    rw [QueueHub.add_eq, Registry.next_modify]
    exact Registry.next_le_ensure
  refine of_queue (a := a) (by simp [added, hg]) hlt ?_ ?_ ?_ ?_ ?_ ?_ ?_
  · rw [hobj, href, t.open_iff hg]
    simp only [hgone, Option.some.injEq, false_iff]
    exact fun h1 => hne h1.symm
  · rw [hobj]; exact t.status_close hg
  · intro q hq _
    obtain rfl : h.masterRef m = q := Option.some.inj (href.symm.trans hq)
    rw [QueueHub.obj_add, if_pos rfl]
    refine ⟨?_, entries_insert_ne_nil _ _⟩
    cases hr : h.ref? m with
    | none => simp [newQueue]
    | some y =>
      simp only [reduceCtorEq, if_false, QueueHub.masterRef, hr, Option.getD_some]
      refine (t.second hr fun h2 => hgone ?_).1
      rw [hr, ← h2, hg]
  · rw [hobj]; exact t.sorted hg
  · intro j y hj
    rw [hobj, hwr]
    exact t.writers hg hj
  · rw [hobj, hwr]; exact t.count hg
  · rw [hobj]; exact t.nonempty hg

/-- `Add` for a lane that was not added before. -/
theorem add (t : Holds ids m wr g h) (hnd : ids.Nodup) (hid : ids[k]? = some id)
    (hk : g.written k = false) : Holds ids m wr (added g h m k) (QueueHub.add h m id (wr k)) := by
  cases hg : g.queue with
  | none => exact t.add_first hnd hid hg
  | some a =>
    by_cases hlive : h.ref? m = some a
    · exact t.add_live hnd hid hk hg hlive
    · exact t.add_second hg hlive

/-- `trySend` launches `Send` exactly when the first queue is registered, knows the
    order and has the writers of all lanes. -/
theorem trySend (t : Holds ids m wr g h) : QueueHub.trySend h m =
    if h.ref? m = g.queue ∧ g.sorted = true ∧ tally g.written ids.length = ids.length
      then g.queue else none := by
  cases hr : h.ref? m with
  | none =>
    rw [QueueHub.trySend_missing hr]
    split_ifs with h1
    · exact h1.1
    · rfl
  | some q =>
    rw [QueueHub.trySend_eq hr]
    by_cases hq : g.queue = some q
    · rw [t.count hq, t.sorted hq, hq]
      have h1 : tally g.written ids.length ≠ 0 := by
        rw [← t.count hq]; exact fun h2 => t.nonempty hq (List.length_eq_zero_iff.mp h2)
      cases g.sorted <;> simp [h1]
    · obtain ⟨h1, h2⟩ := t.second hr hq
      rw [if_neg, if_neg]
      · rintro ⟨h3, -⟩; exact hq h3.symm
      · rw [h1]; simpa using h2

end Add

end Holds

end Session

end Wssocks.Pipe

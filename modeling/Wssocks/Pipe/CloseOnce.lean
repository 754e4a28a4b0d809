import Wssocks.Lib.Ledger
import Wssocks.Lib.Lts
import Wssocks.Pipe.Act
import Wssocks.Pipe.LinkLemmas
import Wssocks.Pipe.QueueLemmas

/-!
# Each buffer is closed once

`close` of a queue or a link returns if the status is `StaClose` and else closes the buffer, which panics if it is
closed already. `Send` overwrites the status, so the test alone does not prevent a second close. What does is that
whoever calls `close` has found the object in the map of its hub and deletes the entry before it gives up the lock.

Here `close` can panic, and `TimeoutClose` is part of the program: it closes and deletes up to 101 entries that
are older than an hour, in the order in which `range` visits the map. Which ones these are is left to the
environment.

Results:

* `buffers_closed_once`: an object is in the map of its hub, under one key, exactly as long as its buffer is open;
  no buffer is closed twice, and `close` does not panic.
-/

namespace Wssocks.Pipe

open Wssocks.Lib

/-! ## A system in which something can be closed twice -/

section Watch

variable {S L : Type}

/-- A state, and whether the program has panicked in a `close`. -/
structure Watch (S : Type) where
  state : S
  panicked : Bool

/-- One step of a program that panics (`some none`) or goes on and has closed the objects of a list. -/
def Watch.step (op : S → L → Option (Option (S × List ℕ))) (w : Watch S) (l : L) : Option (Watch S) :=
  if w.panicked then none
  else (op w.state l).map fun x => x.elim ⟨w.state, true⟩ fun r => ⟨r.1, false⟩

/-- The objects whose buffers a step closes. -/
def Watch.closes (op : S → L → Option (Option (S × List ℕ))) (w : Watch S) (l : L) : List ℕ :=
  (op w.state l).elim [] fun x => x.elim [] Prod.snd

/-- The objects whose buffers a run closes. -/
def closeLog (op : S → L → Option (Option (S × List ℕ))) (s : S) (ls : List L) : List ℕ :=
  history (Watch.step op) (Watch.closes op) ⟨s, false⟩ ls

/-- An object is in the map under one key, exactly as long as it is open; none was closed twice. -/
structure ClosedOnce {K α : Type} [DecidableEq K] (isClosed : α → Bool) (g : Registry K α) (log : List ℕ)
    (panicked : Bool) : Prop where
  present : ∀ r, (∃ k, g.ref? k = some r) ↔ r < g.next ∧ isClosed (g.obj r) = false
  key : ∀ r, (∃ k, g.ref? k = some r) → ∃! k, g.ref? k = some r
  once : log.Nodup
  safe : panicked = false

variable {K α : Type} [DecidableEq K] [Inhabited α] {live : α → Prop} {isClosed : α → Bool}
  {op : S → L → Option (Option (S × List ℕ))}

/-- It is enough that every step settles the hub. -/
theorem ClosedOnce.of_settles (hub : S → Registry K α) {s : S} {ls : List L} {w : Watch S}
    (hinit : hub s = Registry.empty) (hlive : ∀ x, live x → isClosed x ≠ true)
    (hop : ∀ s l x, Ledger live (fun x => isClosed x = true) (hub s) → op s l = some x →
      ∃ s' rs, x = some (s', rs) ∧ Settles live (fun x => isClosed x = true) (hub s) (hub s') rs)
    (h : Run (Watch.step op) anyStep ⟨s, false⟩ ls w) :
    ClosedOnce isClosed (hub w.state) (closeLog op s ls) w.panicked := by
  have hinv : w.panicked = false ∧
      Settles live (fun x => isClosed x = true) Registry.empty (hub w.state) (closeLog op s ls) := by
    refine h.history_invariant (I := fun log w => w.panicked = false ∧
      Settles live (fun x => isClosed x = true) Registry.empty (hub w.state) log) ⟨rfl, ?_⟩ ?_
    · dsimp only
      rw [hinit]
      exact .refl ledger_empty
    · rintro log a l b ⟨ha, hset⟩ - hstep
      rw [Watch.step, ha, if_neg Bool.false_ne_true] at hstep
      obtain ⟨x, hx, rfl⟩ := Option.map_eq_some_iff.mp hstep
      obtain ⟨s', rs, rfl, hrs⟩ := hop a.state l x hset.ledger hx
      refine ⟨rfl, ?_⟩
      have hcloses : Watch.closes op a l = rs := by simp [Watch.closes, hx]
      rw [hcloses]
      exact hset.trans hrs
  obtain ⟨hsafe, hset⟩ := hinv
  exact {
    present := fun r => by simpa using hset.ledger.registered_iff (r := r) hlive
    key := fun r ⟨k, hk⟩ => ⟨k, hk, fun k' hk' => Registry.ref?_inj hk' hk⟩
    once := hset.once
    safe := hsafe }

end Watch

/-! ## Queues -/

section Queues

variable {KSUID W : Type} [DecidableEq KSUID]

/-- `queue.close` (pipe/queue.go:121-129), where `close(q.buffer)` panics on a closed channel; the flag tells whether
    it was executed. -/
def Queue.close? (q : Queue KSUID W) : Option (Queue KSUID W × Bool) :=
  if q.status = .close then some (q, false)
  else if q.buffer.closed then none
  else some (q.close, true)

/-- `QueueHub.Remove` (pipe/queue.go:159-168), with the queue it closes. -/
def QueueHub.remove? (h : QueueHub KSUID W) (masterID : KSUID) : Option (QueueHub KSUID W × List ℕ) :=
  match h.ref? masterID with
  | some q => release Queue.close? h q masterID
  | none => some (h, [])

/-- What the program does to a `QueueHub`, with `TimeoutClose` (pipe/queue.go:213-231), which collects `tmp`. -/
inductive QueueOp (KSUID W : Type) where
  | act (a : QueueAct KSUID W)
  | timeoutClose (tmp : List KSUID)

/-- One of these operations. -/
def Queues.op (s : Queues KSUID W) : QueueOp KSUID W → Option (Option (Queues KSUID W × List ℕ))
  | .act (.remove m) =>
    if s.crashed then none
    else some ((QueueHub.remove? s.hub m).map fun r => ({ s with hub := r.1 }, r.2))
  | .act a => (s.act a).map fun s' => some (s', [])
  | .timeoutClose tmp =>
    if s.crashed then none
    else if tmp.Nodup ∧ (∀ id ∈ tmp, (s.hub.ref? id).isSome) ∧ tmp.length ≤ 101 then
      some ((releaseAll Queue.close? s.hub tmp).map fun r => ({ s with hub := r.1 }, r.2))
    else none

/-- A queue that was not closed. -/
def Queue.Live (q : Queue KSUID W) : Prop := q.buffer.closed = false ∧ q.status ≠ .close

/-- A queue that was closed. -/
def Queue.Dead (q : Queue KSUID W) : Prop := q.buffer.closed = true

theorem Queue.Live.not_dead {q : Queue KSUID W} (h : q.Live) : ¬ q.Dead := by
  simp [Queue.Dead, h.1]

theorem Queue.Live.close {q : Queue KSUID W} (h : q.Live) : q.close? = some (q.close, true) ∧ q.close.Dead := by
  rw [Queue.close?, if_neg h.2, if_neg (by simp [h.1])]
  exact ⟨rfl, Queue.closed_close fun hst => absurd hst h.2⟩

variable {s s' : Queues KSUID W} {h h' : QueueHub KSUID W} {m : KSUID} {q : ℕ}

theorem QueueHub.Touched.settles (t : QueueHub.Touched h h' q) (hl : Ledger Queue.Live Queue.Dead h) :
    Settles Queue.Live Queue.Dead h h' [] := by
  obtain ⟨u, rfl, hcl, hst, -, -⟩ := t
  refine settles_modify hl (fun hlive => ⟨hcl.trans hlive.1, fun hc => hlive.2 (hst hc)⟩) fun hd => ?_
  exact hcl.trans hd

theorem settles_queue_add {k : KSUID} {w : W} (hl : Ledger Queue.Live Queue.Dead h) :
    Settles Queue.Live Queue.Dead h (QueueHub.add h m k w) [] := by
  rw [QueueHub.add_eq]
  have hens : Settles Queue.Live Queue.Dead h (h.ensure m (newQueue m)) [] :=
    settles_ensure hl ⟨rfl, by simp [newQueue]⟩
  exact hens.trans (settles_modify hens.ledger id id)

theorem settles_queue_setSort {sort : List KSUID} (hl : Ledger Queue.Live Queue.Dead h) :
    Settles Queue.Live Queue.Dead h (QueueHub.setSort h m sort) [] := by
  unfold QueueHub.setSort
  split
  · exact settles_modify hl id id
  · rename_i hm
    exact settles_create hl hm ⟨rfl, by simp [newQueue]⟩

/-- `Remove` does not panic, and does what the model without panics says. -/
theorem settles_queue_remove (hl : Ledger Queue.Live Queue.Dead h) :
    ∃ rs, QueueHub.remove? h m = some (QueueHub.remove h m, rs) ∧
      Settles Queue.Live Queue.Dead h (QueueHub.remove h m) rs := by
  unfold QueueHub.remove? QueueHub.remove
  cases hq : h.ref? m with
  | some q =>
    obtain ⟨hclose, hdead⟩ := (hl.held hq).close
    exact ⟨[q], hl.release (fun _ hx => hx.not_dead) hq hclose hdead⟩
  | none => exact ⟨[], rfl, .refl hl⟩

theorem settles_queue_act {a : QueueAct KSUID W} (ha : ∀ m, a ≠ .remove m) (hl : Ledger Queue.Live Queue.Dead s.hub)
    (hact : s.act a = some s') : Settles Queue.Live Queue.Dead s.hub s'.hub [] := by
  unfold Queues.act at hact
  obtain ⟨-, hact⟩ := Option.ite_none_left_eq_some.mp hact
  cases a with
  | add m k w =>
    cases hact
    rw [Queues.hub_add]
    exact settles_queue_add hl
  | setSort m sort =>
    cases hact
    exact settles_queue_setSort hl
  | trySend m =>
    cases hact
    rw [Queues.hub_trySend]
    exact .refl hl
  | remove m => exact absurd rfl (ha m)
  | launch q =>
    obtain ⟨-, hact⟩ := Option.ite_none_right_eq_some.mp hact
    cases hact
    exact .refl hl
  | sort q ids =>
    cases hact
    simp only [Queues.modify]
    refine settles_modify hl ?_ ?_
    · exact fun hlive => hlive
    · exact fun hdead => hdead
  | send q i o =>
    obtain ⟨⟨t, msg⟩, ht, rfl⟩ := Option.map_eq_some_iff.mp hact
    exact (Queues.send_moved ht).hub.settles hl
  | wait q i => exact (Queues.handoff_moved hact).hub.settles hl
  | write q b =>
    obtain ⟨⟨t, ok⟩, ht, rfl⟩ := Option.map_eq_some_iff.mp hact
    exact (Queues.push_touched ht).1.settles hl

theorem settles_queue_op {l : QueueOp KSUID W} {x : Option (Queues KSUID W × List ℕ)}
    (hl : Ledger Queue.Live Queue.Dead s.hub) (hop : s.op l = some x) :
    ∃ s' rs, x = some (s', rs) ∧ Settles Queue.Live Queue.Dead s.hub s'.hub rs := by
  unfold Queues.op at hop
  split at hop
  · rename_i m
    obtain ⟨-, hop⟩ := Option.ite_none_left_eq_some.mp hop
    obtain ⟨rs, hrem, hset⟩ := settles_queue_remove (m := m) hl
    cases hop
    exact ⟨_, rs, by rw [hrem]; rfl, hset⟩
  · rename_i a ha
    obtain ⟨s', hact, rfl⟩ := Option.map_eq_some_iff.mp hop
    exact ⟨s', [], rfl, settles_queue_act (fun m hm => ha m hm) hl hact⟩
  · rename_i tmp
    obtain ⟨-, hop⟩ := Option.ite_none_left_eq_some.mp hop
    obtain ⟨⟨hnd, hreg, -⟩, hop⟩ := Option.ite_none_right_eq_some.mp hop
    obtain ⟨g', rs, hall, hset⟩ := hl.releaseAll (fun _ hx => hx.not_dead)
      (fun _ hx => ⟨_, hx.close⟩) hnd hreg
    cases hop
    exact ⟨_, rs, by rw [hall]; rfl, hset⟩

end Queues

/-! ## Links -/

section Links

variable {KSUID : Type} [DecidableEq KSUID]

/-- `link.close` (pipe/link.go:133-145), where `close(q.buffer)` panics on a closed channel. -/
def Link.close? (q : Link KSUID) : Option (Link KSUID × Bool) :=
  if q.status = .close then some (q, false)
  else if q.buffer.closed then none
  else some (q.close, true)

/-- The loop of `RemoveAll` over the `sorted` of the master's link. -/
def LinkHub.dropSorted? (masterID : KSUID) (h : LinkHub KSUID) : List KSUID → Option (LinkHub KSUID × List ℕ)
  | [] => some (h, [])
  | id :: ids =>
    if id = masterID then LinkHub.dropSorted? masterID h ids
    else match h.ref? id with
      | some c => (release Link.close? h c id).bind fun x =>
          (LinkHub.dropSorted? masterID x.1 ids).map fun y => (y.1, x.2 ++ y.2)
      | none => LinkHub.dropSorted? masterID h ids

/-- `LinkHub.RemoveAll` (pipe/link.go:181-199), with the links it closes. -/
def LinkHub.removeAll? (h : LinkHub KSUID) (masterID : KSUID) : Option (LinkHub KSUID × List ℕ) :=
  match h.ref? masterID with
  | some q => (LinkHub.dropSorted? masterID h (h.obj q).sorted).bind fun x =>
      (release Link.close? x.1 q masterID).map fun y => (y.1, x.2 ++ y.2)
  | none => some (h, [])

/-- What the program does to a `LinkHub`, with `TimeoutClose` (pipe/link.go:248-266), which collects `tmp`. -/
inductive LinkOp (KSUID : Type) where
  | act (a : LinkAct KSUID)
  | timeoutClose (tmp : List KSUID)

/-- One of these operations. -/
def Links.op (s : Links KSUID) : LinkOp KSUID → Option (Option (Links KSUID × List ℕ))
  | .act (.removeAll m) =>
    if s.crashed then none
    else some ((LinkHub.removeAll? s.hub m).map fun r => ({ s with hub := r.1 }, r.2))
  | .act a => (s.act a).map fun s' => some (s', [])
  | .timeoutClose tmp =>
    if s.crashed then none
    else if tmp.Nodup ∧ (∀ id ∈ tmp, (s.hub.ref? id).isSome) ∧ tmp.length ≤ 101 then
      some ((releaseAll Link.close? s.hub tmp).map fun r => ({ s with hub := r.1 }, r.2))
    else none

/-- A link that was not closed. -/
def Link.Live (q : Link KSUID) : Prop := q.buffer.closed = false ∧ q.status ≠ .close

/-- A link that was closed. -/
def Link.Dead (q : Link KSUID) : Prop := q.buffer.closed = true

omit [DecidableEq KSUID] in
theorem Link.Live.not_dead {q : Link KSUID} (h : q.Live) : ¬ q.Dead := by
  simp [Link.Dead, h.1]

omit [DecidableEq KSUID] in
theorem Link.Live.close {q : Link KSUID} (h : q.Live) : q.close? = some (q.close, true) ∧ q.close.Dead := by
  rw [Link.close?, if_neg h.2, if_neg (by simp [h.1])]
  exact ⟨rfl, Link.closed_close fun hst => absurd hst h.2⟩

variable {s s' : Links KSUID} {h h' : LinkHub KSUID} {m : KSUID} {q : ℕ}

theorem Links.Touched.settles (t : Links.Touched h h' q) (hl : Ledger Link.Live Link.Dead h) :
    Settles Link.Live Link.Dead h h' [] := by
  obtain ⟨u, rfl, hcl, hst, -, -, -⟩ := t
  refine settles_modify hl (fun hlive => ⟨hcl.trans hlive.1, fun hc => hlive.2 (hst hc)⟩) fun hd => ?_
  exact hcl.trans hd

theorem settles_link_add {k : KSUID} (hl : Ledger Link.Live Link.Dead h) :
    Settles Link.Live Link.Dead h (LinkHub.add h k m).1 [] := by
  rw [LinkHub.add_hub, LinkHub.ensured]
  have hnew : (newLink m : Link KSUID).Live := ⟨rfl, by simp [newLink]⟩
  have hmaster : Settles Link.Live Link.Dead h (h.ensure m (newLink m)) [] := settles_ensure hl hnew
  have hlane := settles_ensure (k := k) hmaster.ledger hnew
  exact (hmaster.trans hlane).trans (settles_modify hlane.ledger id id)

theorem settles_link_setSort {sort : List KSUID} (hl : Ledger Link.Live Link.Dead h) :
    Settles Link.Live Link.Dead h (LinkHub.setSort h m sort) [] := by
  unfold LinkHub.setSort
  split
  · exact settles_modify hl id id
  · rename_i hm
    exact settles_create hl hm ⟨rfl, by simp [newLink]⟩

theorem settles_link_trySend {conn : Option ℕ} (hl : Ledger Link.Live Link.Dead h) :
    Settles Link.Live Link.Dead h (LinkHub.trySend h m conn).1 [] := by
  cases hm : h.ref? m with
  | none =>
    rw [LinkHub.trySend_missing hm]
    exact .refl hl
  | some q =>
    cases conn with
    | none =>
      rw [LinkHub.trySend_none_hub]
      exact .refl hl
    | some c =>
      rw [LinkHub.trySend_some_hub hm]
      exact settles_modify hl id id

/-- One entry of the loop of `RemoveAll`. -/
theorem settles_link_drop {k : KSUID} {c : ℕ} (hl : Ledger Link.Live Link.Dead h) (hc : h.ref? k = some c) :
    release Link.close? h c k = some (LinkHub.drop h k, [c]) ∧
      Settles Link.Live Link.Dead h (LinkHub.drop h k) [c] := by
  obtain ⟨hclose, hdead⟩ := (hl.held hc).close
  have hdrop : LinkHub.drop h k = (h.modify c Link.close).erase k := by simp only [LinkHub.drop, hc]
  rw [hdrop]
  exact hl.release (fun _ hx => hx.not_dead) hc hclose hdead

/-- The loop of `RemoveAll`, over any list: an id that comes again is missing by then. -/
theorem settles_link_dropSorted (ids : List KSUID) (hl : Ledger Link.Live Link.Dead h) :
    ∃ rs, LinkHub.dropSorted? m h ids = some (LinkHub.dropList h m ids, rs) ∧
      Settles Link.Live Link.Dead h (LinkHub.dropList h m ids) rs := by
  induction ids generalizing h with
  | nil => exact ⟨[], rfl, .refl hl⟩
  | cons k ids ih =>
    have hlist : LinkHub.dropList h m (k :: ids) =
        LinkHub.dropList (if k = m then h else LinkHub.drop h k) m ids := rfl
    rw [hlist, LinkHub.dropSorted?]
    by_cases hk : k = m
    · rw [if_pos hk, if_pos hk]
      exact ih hl
    · rw [if_neg hk, if_neg hk]
      cases hc : h.ref? k with
      | none =>
        have hdrop : LinkHub.drop h k = h := by simp only [LinkHub.drop, hc]
        rw [hdrop]
        exact ih hl
      | some c =>
        obtain ⟨hrel, hset⟩ := settles_link_drop hl hc
        obtain ⟨rs, hrest, hsets⟩ := ih hset.ledger
        exact ⟨c :: rs, by simp [hrel, hrest], hset.trans hsets⟩

/-- `RemoveAll` does not panic, and does what the model without panics says. -/
theorem settles_link_removeAll (hl : Ledger Link.Live Link.Dead h) :
    ∃ rs, LinkHub.removeAll? h m = some (LinkHub.removeAll h m, rs) ∧
      Settles Link.Live Link.Dead h (LinkHub.removeAll h m) rs := by
  cases hq : h.ref? m with
  | none =>
    rw [LinkHub.removeAll_missing hq]
    exact ⟨[], by simp only [LinkHub.removeAll?, hq], .refl hl⟩
  | some q =>
    obtain ⟨rs, hloop, hsets⟩ := settles_link_dropSorted (m := m) (h.obj q).sorted hl
    -- the loop leaves the master's own entry alone
    have hq' : (LinkHub.dropList h m (h.obj q).sorted).ref? m = some q := by
      rw [LinkHub.ref?_dropList, if_neg (fun hm => hm.2 rfl), hq]
    obtain ⟨hrel, hset⟩ := settles_link_drop hsets.ledger hq'
    rw [LinkHub.removeAll_eq hq]
    exact ⟨rs ++ [q], by simp only [LinkHub.removeAll?, hq, hloop, Option.bind_some, hrel, Option.map_some],
      hsets.trans hset⟩

theorem settles_link_act {a : LinkAct KSUID} (ha : ∀ m, a ≠ .removeAll m) (hl : Ledger Link.Live Link.Dead s.hub)
    (hact : s.act a = some s') : Settles Link.Live Link.Dead s.hub s'.hub [] := by
  unfold Links.act at hact
  obtain ⟨-, hact⟩ := Option.ite_none_left_eq_some.mp hact
  cases a with
  | add k m =>
    cases hact
    have hset : Settles Link.Live Link.Dead s.hub (LinkHub.add s.hub k m).1 [] := settles_link_add hl
    show Settles _ _ _ ({ s with hub := (LinkHub.add s.hub k m).1 }.launch (LinkHub.add s.hub k m).2).hub []
    rwa [Links.hub_launch]
  | setSort m sort =>
    cases hact
    exact settles_link_setSort hl
  | trySend m c =>
    cases hact
    have hset : Settles Link.Live Link.Dead s.hub (LinkHub.trySend s.hub m (some c)).1 [] := settles_link_trySend hl
    show Settles _ _ _ ({ s with hub := (LinkHub.trySend s.hub m (some c)).1 }.launch _).hub []
    rwa [Links.hub_launch]
  | removeAll m => exact absurd rfl (ha m)
  | launch q =>
    obtain ⟨-, hact⟩ := Option.ite_none_right_eq_some.mp hact
    cases hact
    exact .refl hl
  | sort q ids | conn q c =>
    cases hact
    rw [Links.hub_modify]
    refine settles_modify hl ?_ ?_
    · exact fun hlive => hlive
    · exact fun hdead => hdead
  | send q i o =>
    obtain ⟨r, ht⟩ := (Links.send_moved hact).hub
    exact Links.Touched.settles ht hl
  | wait q i =>
    rw [(Links.handoff_moved hact).1]
    exact .refl hl
  | write q b =>
    obtain ⟨⟨t, ok⟩, ht, rfl⟩ := Option.map_eq_some_iff.mp hact
    rcases Links.push_cases ht with ⟨-, hopen, ch, -, hch, rfl⟩ | ⟨-, -, rfl⟩
    · rw [Links.hub_modify]
      refine settles_modify hl ?_ ?_
      · exact fun hlive => ⟨hch, hlive.2⟩
      · intro hdead
        rw [Link.Dead, hopen] at hdead
        cases hdead
    · exact .refl hl
  | closeConn c =>
    cases hact
    exact .refl hl

theorem settles_link_op {l : LinkOp KSUID} {x : Option (Links KSUID × List ℕ)}
    (hl : Ledger Link.Live Link.Dead s.hub) (hop : s.op l = some x) :
    ∃ s' rs, x = some (s', rs) ∧ Settles Link.Live Link.Dead s.hub s'.hub rs := by
  unfold Links.op at hop
  split at hop
  · rename_i m
    obtain ⟨-, hop⟩ := Option.ite_none_left_eq_some.mp hop
    obtain ⟨rs, hrem, hset⟩ := settles_link_removeAll (m := m) hl
    cases hop
    exact ⟨_, rs, by rw [hrem]; rfl, hset⟩
  · rename_i a ha
    obtain ⟨s', hact, rfl⟩ := Option.map_eq_some_iff.mp hop
    exact ⟨s', [], rfl, settles_link_act (fun m hm => ha m hm) hl hact⟩
  · rename_i tmp
    obtain ⟨-, hop⟩ := Option.ite_none_left_eq_some.mp hop
    obtain ⟨⟨hnd, hreg, -⟩, hop⟩ := Option.ite_none_right_eq_some.mp hop
    obtain ⟨g', rs, hall, hset⟩ := hl.releaseAll (fun _ hx => hx.not_dead)
      (fun _ hx => ⟨_, hx.close⟩) hnd hreg
    cases hop
    exact ⟨_, rs, by rw [hall]; rfl, hset⟩

end Links

/-! ## Both hubs -/

section Both

variable {KSUID W : Type} [DecidableEq KSUID]

/-- In every run of either hub an object is in the map, under one key, exactly if it was created and its buffer is
    open; each buffer is closed at most once, and no `close` panics. -/
theorem buffers_closed_once [Inhabited KSUID] :
    (∀ (ls : List (QueueOp KSUID W)) (w : Watch (Queues KSUID W)),
      Run (Watch.step Queues.op) anyStep ⟨Queues.init, false⟩ ls w →
        ClosedOnce (fun q => q.buffer.closed) w.state.hub (closeLog Queues.op Queues.init ls) w.panicked) ∧
    ∀ (ls : List (LinkOp KSUID)) (w : Watch (Links KSUID)),
      Run (Watch.step Links.op) anyStep ⟨Links.init, false⟩ ls w →
        ClosedOnce (fun q => q.buffer.closed) w.state.hub (closeLog Links.op Links.init ls) w.panicked := by
  refine ⟨fun ls w hrun => ?_, fun ls w hrun => ?_⟩
  · exact .of_settles Queues.hub rfl (fun _ hx => hx.not_dead) (fun _ _ _ => settles_queue_op) hrun
  · exact .of_settles Links.hub rfl (fun _ hx => hx.not_dead) (fun _ _ _ => settles_link_op) hrun

/-- A session whose `sorted` repeats an id and has one that is missing; its master expires before. -/
def repeatedIds : List (LinkOp ℕ) :=
  [.act (.add 7 7), .act (.add 8 7), .act (.setSort 7 [8, 9, 8, 7]), .timeoutClose [7], .act (.add 7 7),
    .act (.setSort 7 [8, 9, 8, 7]), .act (.removeAll 7)]

theorem buffers_closed_once_repeated : ∃ w, Run (Watch.step Links.op) anyStep ⟨Links.init, false⟩ repeatedIds w ∧
    closeLog Links.op Links.init repeatedIds = [0, 1, 2] ∧
    ClosedOnce (fun q => q.buffer.closed) w.state.hub (closeLog Links.op Links.init repeatedIds) w.panicked := by
  have hexec : (exec (Watch.step Links.op) (fun _ _ => true) ⟨Links.init, false⟩ repeatedIds).map
      (fun w => w.panicked) = some false := by decide +kernel
  obtain ⟨w, hrun, -⟩ := exists_run_of_exec hexec
  have hrun' : Run (Watch.step Links.op) anyStep ⟨Links.init, false⟩ repeatedIds w := hrun.mono fun _ _ _ => trivial
  exact ⟨w, hrun', by decide +kernel, (@buffers_closed_once ℕ ℕ _ _).2 repeatedIds w hrun'⟩

end Both

end Wssocks.Pipe

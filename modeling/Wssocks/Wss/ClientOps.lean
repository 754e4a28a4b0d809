import Wssocks.Wss.Client
import Wssocks.Wss.Ops

/-!
# What a step of the client does

`Client.serve` is one call of `transData` under arbitrary traffic: any message may arrive on any of
its websockets at any time.

Results:

* `Client.acts_of_step`: a step is at most one action on each hub.
* `Client.valid_of_step`: the pointers `transData` holds stay valid.
* `Client.moves_of_step`: a step moves `transData` and the readers in one of the listed ways.
-/

namespace Wssocks.Pipe

open Wssocks.Lib

variable {KSUID V : Type} [DecidableEq KSUID] [Inhabited KSUID]

/-! ## Actions that leave the maps alone -/

/-- The action changes no entry of the map. -/
def QueueAct.keeps : QueueAct KSUID V → Bool
  | .add _ _ _ | .setSort _ _ | .remove _ => false
  | _ => true

@[inherit_doc QueueAct.keeps]
def LinkAct.keeps : LinkAct KSUID → Bool
  | .add _ _ | .setSort _ _ | .removeAll _ => false
  | _ => true

omit [Inhabited KSUID] in
theorem Queues.act_keeps {s s' : Queues KSUID V} {a : QueueAct KSUID V} (h : s.act a = some s')
    (ha : a.keeps = true) : s'.hub.next = s.hub.next ∧ ∀ k, s'.hub.ref? k = s.hub.ref? k := by
  by_cases hr : a.runs = true
  · obtain ⟨_, ht⟩ := (Queues.Ran.of_act h hr).touched
    exact ⟨ht.next, ht.ref?⟩
  · unfold Queues.act at h
    split_ifs at h
    cases a with
    | add | setSort | remove => cases ha
    | send | wait | write => exact absurd rfl hr
    | trySend m => cases h; rw [Queues.hub_trySend]; exact ⟨rfl, fun _ => rfl⟩
    | launch q =>
      simp only at h
      split_ifs at h
      cases h
      exact ⟨rfl, fun _ => rfl⟩
    | sort q ids => cases h; exact ⟨rfl, fun _ => rfl⟩

omit [Inhabited KSUID] in
theorem Links.act_keeps {s s' : Links KSUID} {a : LinkAct KSUID} (h : s.act a = some s')
    (ha : a.keeps = true) : s'.hub.next = s.hub.next ∧ ∀ k, s'.hub.ref? k = s.hub.ref? k := by
  by_cases hr : a.runs = true
  · obtain ⟨_, u, hu, -⟩ := (Links.Ran.of_act h hr).touched
    rw [hu]
    exact ⟨rfl, fun _ => rfl⟩
  · unfold Links.act at h
    split_ifs at h
    cases a with
    | add | setSort | removeAll => cases ha
    | send | wait | write | closeConn => exact absurd rfl hr
    | trySend m c =>
      cases h
      rw [Links.trySend, Links.hub_launch]
      exact ⟨LinkHub.next_trySend _, fun _ => LinkHub.ref?_trySend _⟩
    | launch q =>
      simp only at h
      split_ifs at h
      cases h
      exact ⟨rfl, fun _ => rfl⟩
    | sort q ids => cases h; exact ⟨rfl, fun _ => rfl⟩
    | conn q c => cases h; exact ⟨rfl, fun _ => rfl⟩

end Wssocks.Pipe

namespace Wssocks.Wss

open Wssocks.Lib Wssocks.Pipe

variable {KSUID : Type} [DecidableEq KSUID] [Inhabited KSUID]

/-- A message arrives, or the client takes a step. -/
inductive Call (KSUID : Type) where
  | arrive (i : ℕ) (x : Msg KSUID)
  | act (l : ClientLabel)
  deriving DecidableEq, Repr

/-- One step of the client and the other side; what the client sends is dropped. -/
def Client.serve (ids : List KSUID) (s : Client KSUID) : Call KSUID → Option (Client KSUID)
  | .arrive i x => some (s.arrive i x)
  | .act l => (s.step ids l).map Prod.fst

variable {ids : List KSUID} {s s' : Client KSUID} {l : ClientLabel} {out : Option (ℕ × Msg KSUID)}

theorem Client.serve_act (h : s.serve ids (.act l) = some s') : ∃ out, s.step ids l = some (s', out) := by
  obtain ⟨⟨s1, out⟩, h1, rfl⟩ := Option.map_eq_some_iff.mp h
  exact ⟨out, h1⟩

/-! ## The hubs -/

/-- The operation of a call of `remove(id)` on the queues. -/
def RemoveAt.queueAct (id : KSUID) : RemoveAt → Option (QueueAct KSUID (WsWriter ℕ KSUID))
  | .queue => some (.remove id)
  | _ => none

/-- The operation of a call of `remove(id)` on the links. -/
def RemoveAt.linkAct (id : KSUID) : RemoveAt → Option (LinkAct KSUID)
  | .links => some (.removeAll id)
  | _ => none

/-- What a step does to the queues. -/
def Client.queueAct (ids : List KSUID) (s : Client KSUID) :
    ClientLabel → Option (QueueAct KSUID (WsWriter ℕ KSUID))
  | .trans =>
    match s.pc with
    | .queueAdd i => some (.add (masterID ids) (ids.getD i default) ⟨i, ids.getD i default⟩)
    | .setQueueSort q => some (.sort q ids)
    | .goSend q => some (.launch q)
    | .remove a => a.queueAct (masterID ids)
    | _ => none
  | .reader i =>
    match s.reader i with
    | .remove id a => a.queueAct id
    | _ => none
  | .copy => s.copy.chunk?.map (.write s.qq)
  | .queueSend q i o => some (.send q i o)
  | _ => none

/-- What a step does to the links. -/
def Client.linkAct (ids : List KSUID) (s : Client KSUID) : ClientLabel → Option (LinkAct KSUID)
  | .trans =>
    match s.pc with
    | .linkAdd i => some (.add (ids.getD i default) (masterID ids))
    | .setConn o => some (.conn o 0)
    | .setLinkSort o => some (.sort o ids)
    | .goLinkSend o => some (.launch o)
    | .remove a => a.linkAct (masterID ids)
    | _ => none
  | .reader i =>
    match s.reader i with
    | .select q b => some (.write q b)
    | .remove id a => a.linkAct id
    | _ => none
  | .linkSend q i o => some (.send q i o)
  | .linkDone q i => some (.wait q i)
  | _ => none

/-- The pointers `transData` holds were given out by the hubs. -/
def TransPc.Valid (s : Client KSUID) : TransPc → Prop
  | .setQueueSort q | .goSend q => q < s.queues.hub.next
  | .setConn o | .setLinkSort o | .goLinkSend o => o < s.links.hub.next
  | _ => True

omit [Inhabited KSUID] in
theorem acts_removeStep (hq : s.queues.crashed = false) (hl : s.links.crashed = false) (id : KSUID)
    (a : RemoveAt) : Acts Queues.act s.queues (s.removeStep id a).1.queues (a.queueAct id) ∧
      Acts Links.act s.links (s.removeStep id a).1.links (a.linkAct id) := by
  cases a with
  | test =>
    simp only [Client.removeStep]
    split_ifs <;> exact ⟨rfl, rfl⟩
  | queue =>
    refine ⟨?_, rfl⟩
    show Queues.act s.queues (.remove id) = _
    simp [Queues.act, hq, Client.removeStep]
  | links =>
    refine ⟨rfl, ?_⟩
    show Links.act s.links (.removeAll id) = _
    simp [Links.act, hl, Client.removeStep]

theorem acts_transStep (hq : s.queues.crashed = false) (hl : s.links.crashed = false) (hv : s.pc.Valid s)
    (h : s.transStep ids = some (s', out)) :
    Acts Queues.act s.queues s'.queues (s.queueAct ids .trans) ∧
      Acts Links.act s.links s'.links (s.linkAct ids .trans) := by
  simp only [Client.queueAct, Client.linkAct]
  unfold Client.transStep at h
  cases hpc : s.pc with
  | newProxy i =>
    simp only [hpc] at h
    split_ifs at h <;> cases h <;> exact ⟨rfl, rfl⟩
  | sayID i | establish | goCopy q => simp only [hpc] at h; cases h; exact ⟨rfl, rfl⟩
  | queueAdd i | setQueueSort q =>
    simp only [hpc] at h; cases h
    simp [Acts, Queues.act, hq]
  | goSend q =>
    rw [hpc] at hv
    simp only [hpc] at h; cases h
    have hlt : q < s.queues.hub.next := hv
    simp [Acts, Queues.act, hq, hlt]
  | linkAdd i | setConn o | setLinkSort o =>
    simp only [hpc] at h; cases h
    simp [Acts, Links.act, hl]
  | goLinkSend o =>
    rw [hpc] at hv
    simp only [hpc] at h; cases h
    have hlt : o < s.links.hub.next := hv
    simp [Acts, Links.act, hl, hlt]
  | getQueue | getLink => simp only [hpc] at h; split at h <;> cases h <;> exact ⟨rfl, rfl⟩
  | wait o => simp only [hpc] at h; split_ifs at h; cases h; exact ⟨rfl, rfl⟩
  | remove a =>
    simp only [hpc] at h; cases h
    exact acts_removeStep hq hl _ a
  | cancel i => cases i <;> (simp only [hpc] at h; cases h; exact ⟨rfl, rfl⟩)
  | rmProxy i => simp only [hpc] at h; cases h; exact ⟨rfl, rfl⟩
  | returned => simp only [hpc] at h; cases h

/-- What a step does to the hubs. -/
theorem Client.acts_of_step (hv : s.pc.Valid s) (h : s.step ids l = some (s', out)) :
    Acts Queues.act s.queues s'.queues (s.queueAct ids l) ∧
      Acts Links.act s.links s'.links (s.linkAct ids l) := by
  unfold Client.step at h
  by_cases hcr : (s.queues.crashed || s.links.crashed) = true
  · rw [if_pos hcr] at h; cases h
  rw [if_neg hcr] at h
  have hq : s.queues.crashed = false := by
    by_contra h1; exact hcr (by simp at h1; simp [h1])
  have hl : s.links.crashed = false := by
    by_contra h1; exact hcr (by simp at h1; simp [h1])
  cases l with
  | trans => exact acts_transStep hq hl hv h
  | transFail =>
    simp only [Option.map_eq_some_iff, Client.transFail] at h
    obtain ⟨s1, h1, h2⟩ := h
    split at h1 <;> cases h1 <;> cases h2 <;> exact ⟨rfl, rfl⟩
  | recv i =>
    simp only at h
    split at h
    · rename_i x xs hr hin
      cases h
      cases x with
      | data id tag b =>
        simp only [Client.dispatch]
        split_ifs
        · split <;> exact ⟨rfl, rfl⟩
        · exact ⟨rfl, rfl⟩
      | finish id =>
        simp only [Client.dispatch]
        split_ifs <;> exact ⟨rfl, rfl⟩
      | _ => exact ⟨rfl, rfl⟩
    · cases h
  | reader i =>
    simp only [Option.map_eq_some_iff, Client.readerStep] at h
    obtain ⟨s1, h1, h2⟩ := h
    simp only [Client.queueAct, Client.linkAct]
    cases hr : s.reader i with
    | idle => simp [hr] at h1
    | check q b =>
      simp only [hr] at h1
      split_ifs at h1 <;> cases h1 <;> cases h2 <;> exact ⟨rfl, rfl⟩
    | select q b =>
      simp only [hr, Option.map_eq_some_iff] at h1
      obtain ⟨⟨ks, ok⟩, h3, rfl⟩ := h1
      cases h2
      simp [Acts, Links.act, hl, h3, Client.goReader]
    | remove id a =>
      simp only [hr] at h1
      cases h1
      cases h2
      exact acts_removeStep hq hl id a
  | writeTimeout i =>
    simp only at h
    split at h <;> (try split_ifs at h) <;> cases h
    exact ⟨rfl, rfl⟩
  | copyRead data er =>
    simp only [Option.map_eq_some_iff, Prod.mk.injEq] at h
    obtain ⟨_, -, rfl, -⟩ := h
    exact ⟨rfl, rfl⟩
  | copy =>
    simp only [Option.map_eq_some_iff, Prod.mk.injEq] at h
    obtain ⟨⟨c, qs⟩, h1, rfl, -⟩ := h
    exact ⟨acts_copy hq h1, rfl⟩
  | copyTimeout =>
    simp only [Option.map_eq_some_iff, Prod.mk.injEq] at h
    obtain ⟨_, -, rfl, -⟩ := h
    exact ⟨rfl, rfl⟩
  | tellClose ok =>
    simp only at h
    split_ifs at h <;> cases h <;> exact ⟨rfl, rfl⟩
  | queueSend q i o =>
    simp only [Option.bind_eq_some_iff] at h
    obtain ⟨⟨qs, msg⟩, h1, h2⟩ := h
    have hs' : s' = { s with queues := qs } := by
      split at h2
      · split_ifs at h2; cases h2; rfl
      · cases h2; rfl
    subst hs'
    refine ⟨?_, rfl⟩
    simp [Client.queueAct, Acts, Queues.act, hq, h1]
  | linkSend q i o =>
    simp only [Option.map_eq_some_iff, Prod.mk.injEq] at h
    obtain ⟨ks, h1, rfl, -⟩ := h
    refine ⟨rfl, ?_⟩
    simp [Client.linkAct, Acts, Links.act, hl, h1]
  | linkDone q i =>
    simp only at h
    split_ifs at h
    simp only [Option.map_eq_some_iff, Prod.mk.injEq] at h
    obtain ⟨ks, h1, rfl, -⟩ := h
    refine ⟨rfl, ?_⟩
    simp [Client.linkAct, Acts, Links.act, hl, h1]

/-! ## The goroutines -/

/-- Where `transData` finds that it has to return the error. -/
def TransErr.place : TransErr → TransPc
  | .establish => .establish
  | .queueNotFound => .getQueue
  | .linkNotFound => .getLink

/-- Where `transData` is after a step with label `l`, and the error it returns. -/
inductive TransMove (ids : List KSUID) (s : Client KSUID) (l : ClientLabel) : TransPc → Option TransErr → Prop
  | same (hl : l ≠ .trans) (hd : ∀ q i, l ≠ .linkDone q i) : TransMove ids s l s.pc s.err
  | newProxy {i : ℕ} (hpc : s.pc = .newProxy i) (hi : i < ids.length) : TransMove ids s l (.sayID i) s.err
  | lanesDone {i : ℕ} (hpc : s.pc = .newProxy i) (hi : ids.length ≤ i) : TransMove ids s l .establish s.err
  | sayID {i : ℕ} (hpc : s.pc = .sayID i) : TransMove ids s l (.queueAdd i) s.err
  | queueAdd {i : ℕ} (hl : l = .trans) (hpc : s.pc = .queueAdd i) : TransMove ids s l (.linkAdd i) s.err
  | linkAdd {i : ℕ} (hl : l = .trans) (hpc : s.pc = .linkAdd i) : TransMove ids s l (.newProxy (i + 1)) s.err
  | establish (hpc : s.pc = .establish) : TransMove ids s l .getQueue s.err
  | gotQueue {q : ℕ} (hpc : s.pc = .getQueue) (hq : s.queues.hub.ref? (Client.masterID ids) = some q) :
      TransMove ids s l (.setQueueSort q) s.err
  | setQueueSort {q : ℕ} (hl : l = .trans) (hpc : s.pc = .setQueueSort q) : TransMove ids s l (.goSend q) s.err
  | goSend {q : ℕ} (hl : l = .trans) (hpc : s.pc = .goSend q) : TransMove ids s l (.goCopy q) s.err
  | goCopy {q : ℕ} (hpc : s.pc = .goCopy q) : TransMove ids s l .getLink s.err
  | gotLink {o : ℕ} (hpc : s.pc = .getLink) (ho : s.links.hub.ref? (Client.masterID ids) = some o) :
      TransMove ids s l (.setConn o) s.err
  | setConn {o : ℕ} (hpc : s.pc = .setConn o) : TransMove ids s l (.setLinkSort o) s.err
  | setLinkSort {o : ℕ} (hl : l = .trans) (hpc : s.pc = .setLinkSort o) : TransMove ids s l (.goLinkSend o) s.err
  | goLinkSend {o : ℕ} (hl : l = .trans) (hpc : s.pc = .goLinkSend o) : TransMove ids s l (.wait o) s.err
  /-- `Wait` returns: it receives from goroutine `i`, or `done` is closed. -/
  | waited {o : ℕ} (hpc : s.pc = .wait o)
      (hd : (l = .trans ∧ (s.links.hub.obj o).done = true) ∨ ∃ i, l = .linkDone o i) :
      TransMove ids s l (.remove .test) s.err
  /-- `transData` returns an error. -/
  | failed {e : TransErr} (hpc : s.pc = e.place) : TransMove ids s l (.remove .test) (some e)
  | removeTest (hl : l = .trans) (hpc : s.pc = .remove .test) (hr : s.removed = false) :
      TransMove ids s l (.remove .queue) s.err
  | removeSkip (hl : l = .trans) (hpc : s.pc = .remove .test) (hr : s.removed = true) :
      TransMove ids s l (.cancel ids.length) s.err
  | removeQueue (hl : l = .trans) (hpc : s.pc = .remove .queue) : TransMove ids s l (.remove .links) s.err
  | removeLinks (hl : l = .trans) (hpc : s.pc = .remove .links) : TransMove ids s l (.cancel ids.length) s.err
  | cancel {i : ℕ} (hpc : s.pc = .cancel (i + 1)) : TransMove ids s l (.rmProxy i) s.err
  | rmProxy {i : ℕ} (hpc : s.pc = .rmProxy i) : TransMove ids s l (.cancel i) s.err
  | leave (hpc : s.pc = .cancel 0) : TransMove ids s l .returned s.err

/-- Where a reader is after it took the message `x`. -/
def Client.takes (ids : List KSUID) (s : Client KSUID) (i : ℕ) : Msg KSUID → ClientReader KSUID
  | .data id tag bytes =>
    if s.registered i ∧ ids[i]? = some id then
      match s.links.hub.ref? id, tag with
      | some q, .data => .check q ⟨false, bytes⟩
      | some q, .eof => .check q ⟨true, []⟩
      | _, _ => .idle
    else .idle
  | .finish id => if s.registered i ∧ ids[i]? = some id then .remove id .test else .idle
  | _ => .idle

/-- Where a call of `remove` is after its next operation. -/
def Client.removeNext (s : Client KSUID) : RemoveAt → Option RemoveAt
  | .test => if s.removed then none else some .queue
  | .queue => some .links
  | .links => none

/-- Where the reader of websocket `i` is after a step with label `l`. -/
inductive ClientReaderMove (ids : List KSUID) (s : Client KSUID) (l : ClientLabel) (i : ℕ) :
    ClientReader KSUID → Prop
  | same (hl : l ≠ .reader i) : ClientReaderMove ids s l i (s.reader i)
  | take {x : Msg KSUID} (hr : s.reader i = .idle) (hin : x ∈ s.inbox i) :
      ClientReaderMove ids s l i (s.takes ids i x)
  | test {q : ℕ} {b : Buffer} (hr : s.reader i = .check q b) : ClientReaderMove ids s l i (.select q b)
  /-- The chunk was put into its link, or given up. -/
  | write {q : ℕ} {b : Buffer} (hr : s.reader i = .check q b ∨ s.reader i = .select q b) :
      ClientReaderMove ids s l i .idle
  | remove {id : KSUID} {a : RemoveAt} (hl : l = .reader i) (hr : s.reader i = .remove id a) :
      ClientReaderMove ids s l i ((s.removeNext a).elim .idle (.remove id))

/-- What a step with label `l` does to the goroutines. -/
structure ClientMoves (ids : List KSUID) (s : Client KSUID) (l : ClientLabel) (s' : Client KSUID) : Prop where
  trans : TransMove ids s l s'.pc s'.err
  reader : ∀ i, ClientReaderMove ids s l i (s'.reader i)
  inbox : ∀ {i x}, x ∈ s'.inbox i → x ∈ s.inbox i
  removed : s'.removed = true ↔ s.removed = true ∨ (l = .trans ∧ s.pc = .remove .test) ∨
    ∃ i id, l = .reader i ∧ s.reader i = .remove id .test

/-- A step of `transData` itself. -/
theorem ClientMoves.of_trans (hpc : TransMove ids s .trans s'.pc s'.err) (hr : s'.reader = s.reader)
    (hi : s'.inbox = s.inbox)
    (hrm : s'.removed = true ↔ s.removed = true ∨ s.pc = .remove .test) : ClientMoves ids s .trans s' where
  trans := hpc
  reader := fun i => by rw [hr]; exact .same (by simp)
  inbox := fun h => hi ▸ h
  removed := by simpa using hrm

theorem moves_transStep (h : s.transStep ids = some (s', out)) : ClientMoves ids s .trans s' := by
  unfold Client.transStep at h
  cases hpc : s.pc with
  | newProxy i =>
    simp only [hpc] at h
    split_ifs at h with hi <;> cases h
    · exact .of_trans (.newProxy hpc hi) rfl rfl (by simp [hpc])
    · exact .of_trans (.lanesDone hpc (by omega)) rfl rfl (by simp [hpc])
  | sayID i => simp only [hpc] at h; cases h; exact .of_trans (.sayID hpc) rfl rfl (by simp [hpc])
  | queueAdd i => simp only [hpc] at h; cases h; exact .of_trans (.queueAdd rfl hpc) rfl rfl (by simp [hpc])
  | linkAdd i => simp only [hpc] at h; cases h; exact .of_trans (.linkAdd rfl hpc) rfl rfl (by simp [hpc])
  | establish => simp only [hpc] at h; cases h; exact .of_trans (.establish hpc) rfl rfl (by simp [hpc])
  | getQueue =>
    simp only [hpc] at h
    split at h <;> cases h
    · rename_i q hq
      exact .of_trans (.gotQueue hpc hq) rfl rfl (by simp [hpc])
    · exact .of_trans (.failed (e := .queueNotFound) hpc) rfl rfl (by simp [hpc])
  | setQueueSort q => simp only [hpc] at h; cases h; exact .of_trans (.setQueueSort rfl hpc) rfl rfl (by simp [hpc])
  | goSend q => simp only [hpc] at h; cases h; exact .of_trans (.goSend rfl hpc) rfl rfl (by simp [hpc])
  | goCopy q => simp only [hpc] at h; cases h; exact .of_trans (.goCopy hpc) rfl rfl (by simp [hpc])
  | getLink =>
    simp only [hpc] at h
    split at h <;> cases h
    · rename_i o ho
      exact .of_trans (.gotLink hpc ho) rfl rfl (by simp [hpc])
    · exact .of_trans (.failed (e := .linkNotFound) hpc) rfl rfl (by simp [hpc])
  | setConn o => simp only [hpc] at h; cases h; exact .of_trans (.setConn hpc) rfl rfl (by simp [hpc])
  | setLinkSort o => simp only [hpc] at h; cases h; exact .of_trans (.setLinkSort rfl hpc) rfl rfl (by simp [hpc])
  | goLinkSend o => simp only [hpc] at h; cases h; exact .of_trans (.goLinkSend rfl hpc) rfl rfl (by simp [hpc])
  | wait o =>
    simp only [hpc] at h
    split_ifs at h with hd
    cases h
    exact .of_trans (.waited hpc (.inl ⟨rfl, hd⟩)) rfl rfl (by simp [hpc])
  | remove a =>
    simp only [hpc] at h
    cases h
    cases a with
    | test =>
      by_cases hr : s.removed = true
      · refine .of_trans ?_ ?_ ?_ ?_ <;> simp only [Client.removeStep, hr, if_true]
        · exact .removeSkip rfl hpc hr
        · simp
      · refine .of_trans ?_ ?_ ?_ ?_ <;> simp only [Client.removeStep, if_neg hr]
        · exact .removeTest rfl hpc (by simpa using hr)
        · simp [hpc]
    | queue => exact .of_trans (.removeQueue rfl hpc) rfl rfl (by simp [hpc, Client.removeStep])
    | links => exact .of_trans (.removeLinks rfl hpc) rfl rfl (by simp [hpc, Client.removeStep])
  | cancel i =>
    cases i with
    | zero => simp only [hpc] at h; cases h; exact .of_trans (.leave hpc) rfl rfl (by simp [hpc])
    | succ i => simp only [hpc] at h; cases h; exact .of_trans (.cancel hpc) rfl rfl (by simp [hpc])
  | rmProxy i => simp only [hpc] at h; cases h; exact .of_trans (.rmProxy hpc) rfl rfl (by simp [hpc])
  | returned => simp only [hpc] at h; cases h

/-- A step of the reader of websocket `i`. -/
theorem ClientMoves.goReader {t : Client KSUID} {i : ℕ} {r : ClientReader KSUID} (hl : l ≠ .trans)
    (hd : ∀ q i, l ≠ .linkDone q i)
    (hlr : ∀ j, l = .reader j → j = i) (hpc : t.pc = s.pc) (herr : t.err = s.err) (hrd : t.reader = s.reader)
    (hin : ∀ {j x}, x ∈ t.inbox j → x ∈ s.inbox j)
    (hrm : t.removed = true ↔ s.removed = true ∨ ∃ j id, l = .reader j ∧ s.reader j = .remove id .test)
    (h : ClientReaderMove ids s l i r) : ClientMoves ids s l (t.goReader i r) where
  trans := by show TransMove ids s l t.pc t.err; rw [hpc, herr]; exact .same hl hd
  reader := by
    intro j
    show ClientReaderMove ids s l j (Function.update t.reader i r j)
    by_cases hj : j = i
    · subst hj; rw [Function.update_self]; exact h
    · rw [Function.update_of_ne hj, hrd]; exact .same fun h1 => hj (hlr j h1)
  inbox := hin
  removed := by
    have h1 : ¬ (l = .trans ∧ s.pc = .remove .test) := fun h => hl h.1
    simpa [h1, Client.goReader] using hrm

/-- A step that moves none of them. -/
theorem ClientMoves.same (hl : l ≠ .trans) (hlr : ∀ i, l ≠ .reader i) (hpc : TransMove ids s l s'.pc s'.err)
    (hr : s'.reader = s.reader) (hi : ∀ {j x}, x ∈ s'.inbox j → x ∈ s.inbox j)
    (hrm : s'.removed = s.removed) : ClientMoves ids s l s' where
  trans := hpc
  reader := fun i => by rw [hr]; exact .same (hlr i)
  inbox := hi
  removed := by
    rw [hrm]
    refine ⟨.inl, fun h => ?_⟩
    rcases h with h | ⟨h, -⟩ | ⟨i, -, h, -⟩
    · exact h
    · exact absurd h hl
    · exact absurd h (hlr i)

theorem moves_dispatch {x : Msg KSUID} {xs : List (Msg KSUID)} {i : ℕ} (hr : s.reader i = .idle)
    (hin : s.inbox i = x :: xs) :
    ClientMoves ids s (.recv i) ({ s with inbox := Function.update s.inbox i xs }.dispatch ids i x) := by
  have htake : ClientReaderMove ids s (.recv i) i (s.takes ids i x) := .take hr (by rw [hin]; simp)
  have hinbox : ∀ {j y}, y ∈ Function.update s.inbox i xs j → y ∈ s.inbox j := by
    intro j y hy
    by_cases hj : j = i
    · subst hj; rw [Function.update_self] at hy; rw [hin]; exact List.mem_cons_of_mem _ hy
    · rwa [Function.update_of_ne hj] at hy
  have hsame : ClientMoves ids s (.recv i) { s with inbox := Function.update s.inbox i xs } :=
    .same (by simp) (by simp) (.same (by simp) (by simp)) rfl hinbox rfl
  have hgo : ∀ {r}, ClientReaderMove ids s (.recv i) i r →
      ClientMoves ids s (.recv i) ({ s with inbox := Function.update s.inbox i xs }.goReader i r) := fun h =>
    .goReader (by simp) (by simp) (by simp) rfl rfl rfl hinbox (by simp) h
  cases x with
  | data id tag b =>
    simp only [Client.takes] at htake
    simp only [Client.dispatch]
    split_ifs at htake ⊢
    · split
      · rename_i hq; rw [show s.links.hub.ref? id = some _ from hq] at htake; exact hgo htake
      · rename_i hq; rw [show s.links.hub.ref? id = some _ from hq] at htake; exact hgo htake
      · exact hsame
    · exact hsame
  | finish id =>
    simp only [Client.takes] at htake
    simp only [Client.dispatch]
    split_ifs at htake ⊢
    · exact hgo htake
    · exact hsame
  | _ => exact hsame

theorem moves_readerStep_client {i : ℕ} (h : s.readerStep i = some s') : ClientMoves ids s (.reader i) s' := by
  unfold Client.readerStep at h
  have hnot : ∀ {x}, s.reader i = x → (∀ id, x ≠ .remove id .test) →
      (s.removed = true ↔ s.removed = true ∨
        ∃ j id, ClientLabel.reader i = .reader j ∧ s.reader j = .remove id .test) := by
    intro x hx hne
    refine ⟨.inl, fun h => ?_⟩
    rcases h with h | ⟨j, id, hj, hrj⟩
    · exact h
    · cases hj; exact absurd (hx.symm.trans hrj) (hne id)
  have hgo : ∀ {t : Client KSUID} {r}, t.pc = s.pc → t.err = s.err → t.reader = s.reader → t.inbox = s.inbox →
      (t.removed = true ↔ s.removed = true ∨
        ∃ j id, ClientLabel.reader i = .reader j ∧ s.reader j = .remove id .test) →
      ClientReaderMove ids s (.reader i) i r → ClientMoves ids s (.reader i) (t.goReader i r) :=
    fun h1 h2 h3 h4 h5 h6 => .goReader (by simp) (by simp) (by simp) h1 h2 h3 (fun h => h4 ▸ h) h5 h6
  cases hr : s.reader i with
  | idle => simp [hr] at h
  | check q b =>
    simp only [hr] at h
    split_ifs at h <;> cases h
    · exact hgo rfl rfl rfl rfl (hnot hr (by simp)) (.write (.inl hr))
    · exact hgo rfl rfl rfl rfl (hnot hr (by simp)) (.test hr)
  | select q b =>
    simp only [hr, Option.map_eq_some_iff] at h
    obtain ⟨⟨ks, ok⟩, -, rfl⟩ := h
    exact hgo rfl rfl rfl rfl (hnot hr (by simp)) (.write (.inr hr))
  | remove id a =>
    simp only [hr] at h
    cases h
    have hmove : ClientReaderMove ids s (.reader i) i ((s.removeNext a).elim .idle (.remove id)) :=
      .remove rfl hr
    cases a with
    | test =>
      have htrue : ∃ j id, ClientLabel.reader i = .reader j ∧ s.reader j = .remove id .test := ⟨i, id, rfl, hr⟩
      by_cases hrm : s.removed = true
      · simp only [Client.removeNext, hrm, if_true] at hmove
        simp only [Client.removeStep, hrm, if_true]
        exact hgo rfl rfl rfl rfl (by simp [hrm]) hmove
      · simp only [Client.removeNext, if_neg hrm] at hmove
        simp only [Client.removeStep, if_neg hrm]
        exact hgo rfl rfl rfl rfl ⟨fun _ => .inr htrue, fun _ => rfl⟩ hmove
    | queue | links => exact hgo rfl rfl rfl rfl (hnot hr (by simp)) hmove

/-- Every step moves the goroutines in one of these ways. -/
theorem Client.moves_of_step (h : s.step ids l = some (s', out)) : ClientMoves ids s l s' := by
  unfold Client.step at h
  by_cases hcr : (s.queues.crashed || s.links.crashed) = true
  · rw [if_pos hcr] at h; cases h
  rw [if_neg hcr] at h
  cases l with
  | trans => exact moves_transStep h
  | transFail =>
    simp only [Option.map_eq_some_iff, Client.transFail] at h
    obtain ⟨s1, h1, h2⟩ := h
    cases hpc : s.pc with
    | sayID i =>
      simp only [hpc] at h1; cases h1; cases h2
      exact .same (by simp) (by simp) (.sayID hpc) rfl (fun h => h) rfl
    | establish =>
      simp only [hpc] at h1; cases h1; cases h2
      exact .same (by simp) (by simp) (.failed (e := .establish) hpc) rfl (fun h => h) rfl
    | _ => simp only [hpc] at h1; cases h1
  | recv i =>
    simp only at h
    split at h
    · rename_i x xs hr hin
      cases h
      exact moves_dispatch hr hin
    · cases h
  | reader i =>
    simp only [Option.map_eq_some_iff] at h
    obtain ⟨s1, h1, h2⟩ := h
    cases h2
    exact moves_readerStep_client h1
  | writeTimeout i =>
    simp only at h
    split at h
    · rename_i hr
      split_ifs at h
      cases h
      exact .goReader (by simp) (by simp) (by simp) rfl rfl rfl (fun h => h) (by simp) (.write (.inr hr))
    · cases h
  | copyRead data er =>
    simp only [Option.map_eq_some_iff, Prod.mk.injEq] at h
    obtain ⟨_, -, rfl, -⟩ := h
    exact .same (by simp) (by simp) (.same (by simp) (by simp)) rfl (fun h => h) rfl
  | copy =>
    simp only [Option.map_eq_some_iff, Prod.mk.injEq] at h
    obtain ⟨⟨c, qs⟩, -, rfl, -⟩ := h
    exact .same (by simp) (by simp) (.same (by simp) (by simp)) rfl (fun h => h) rfl
  | copyTimeout =>
    simp only [Option.map_eq_some_iff, Prod.mk.injEq] at h
    obtain ⟨_, -, rfl, -⟩ := h
    exact .same (by simp) (by simp) (.same (by simp) (by simp)) rfl (fun h => h) rfl
  | tellClose ok =>
    simp only at h
    split_ifs at h <;> cases h <;>
      exact .same (by simp) (by simp) (.same (by simp) (by simp)) rfl (fun h => h) rfl
  | queueSend q i o =>
    simp only [Option.bind_eq_some_iff] at h
    obtain ⟨⟨qs, msg⟩, -, h2⟩ := h
    have hs' : s' = { s with queues := qs } := by
      split at h2
      · split_ifs at h2; cases h2; rfl
      · cases h2; rfl
    subst hs'
    exact .same (by simp) (by simp) (.same (by simp) (by simp)) rfl (fun h => h) rfl
  | linkSend q i o =>
    simp only [Option.map_eq_some_iff, Prod.mk.injEq] at h
    obtain ⟨ks, -, rfl, -⟩ := h
    exact .same (by simp) (by simp) (.same (by simp) (by simp)) rfl (fun h => h) rfl
  | linkDone q i =>
    simp only at h
    split_ifs at h with hpc
    simp only [Option.map_eq_some_iff, Prod.mk.injEq] at h
    obtain ⟨ks, -, rfl, -⟩ := h
    exact .same (by simp) (by simp) (.waited hpc (.inr ⟨i, rfl⟩)) rfl (fun h => h) rfl

/-! ## The entries of the maps -/

/-- The step executes the operation `a` of `remove(id)`. -/
def Client.Removes (ids : List KSUID) (s : Client KSUID) (l : ClientLabel) (id : KSUID) (a : RemoveAt) : Prop :=
  (l = .trans ∧ s.pc = .remove a ∧ id = Client.masterID ids) ∨ ∃ i, l = .reader i ∧ s.reader i = .remove id a

omit [DecidableEq KSUID] [Inhabited KSUID] in
theorem RemoveAt.of_queueAct {id : KSUID} {at' : RemoveAt} {a : QueueAct KSUID (WsWriter ℕ KSUID)}
    (h : at'.queueAct id = some a) : at' = .queue ∧ a = .remove id := by
  cases at' with
  | queue => cases h; exact ⟨rfl, rfl⟩
  | test | links => cases h

omit [DecidableEq KSUID] [Inhabited KSUID] in
theorem RemoveAt.of_linkAct {id : KSUID} {at' : RemoveAt} {a : LinkAct KSUID}
    (h : at'.linkAct id = some a) : at' = .links ∧ a = .removeAll id := by
  cases at' with
  | links => cases h; exact ⟨rfl, rfl⟩
  | test | queue => cases h

/-- The actions of the steps on the queues, with where they come from. -/
inductive Client.QueueOp (ids : List KSUID) (s : Client KSUID) :
    ClientLabel → QueueAct KSUID (WsWriter ℕ KSUID) → Prop
  | add {i : ℕ} (hpc : s.pc = .queueAdd i) :
      QueueOp ids s .trans (.add (Client.masterID ids) (ids.getD i default) ⟨i, ids.getD i default⟩)
  | sort {q : ℕ} (hpc : s.pc = .setQueueSort q) : QueueOp ids s .trans (.sort q ids)
  | launch {q : ℕ} (hpc : s.pc = .goSend q) : QueueOp ids s .trans (.launch q)
  | remove {l : ClientLabel} {id : KSUID} (h : s.Removes ids l id .queue) : QueueOp ids s l (.remove id)
  | write {b : Buffer} : QueueOp ids s .copy (.write s.qq b)
  | send {q i : ℕ} {o : Outcome} : QueueOp ids s (.queueSend q i o) (.send q i o)

theorem Client.queueOp_of_queueAct {a : QueueAct KSUID (WsWriter ℕ KSUID)} (h : s.queueAct ids l = some a) :
    Client.QueueOp ids s l a := by
  cases l with
  | trans =>
    simp only [Client.queueAct] at h
    cases hpc : s.pc with
    | queueAdd i => rw [hpc] at h; cases h; exact .add hpc
    | setQueueSort q => rw [hpc] at h; cases h; exact .sort hpc
    | goSend q => rw [hpc] at h; cases h; exact .launch hpc
    | remove at' =>
      rw [hpc] at h
      obtain ⟨rfl, rfl⟩ := RemoveAt.of_queueAct h
      exact .remove (.inl ⟨rfl, hpc, rfl⟩)
    | _ => rw [hpc] at h; cases h
  | reader i =>
    simp only [Client.queueAct] at h
    cases hr : s.reader i with
    | remove id at' =>
      rw [hr] at h
      obtain ⟨rfl, rfl⟩ := RemoveAt.of_queueAct h
      exact .remove (.inr ⟨i, rfl, hr⟩)
    | _ => rw [hr] at h; cases h
  | copy =>
    simp only [Client.queueAct, Option.map_eq_some_iff] at h
    obtain ⟨b, -, rfl⟩ := h
    exact .write
  | queueSend q i o => cases h; exact .send
  | _ => cases h

/-- The actions of the steps on the links, with where they come from. -/
inductive Client.LinkOp (ids : List KSUID) (s : Client KSUID) : ClientLabel → LinkAct KSUID → Prop
  | add {i : ℕ} (hpc : s.pc = .linkAdd i) : LinkOp ids s .trans (.add (ids.getD i default) (Client.masterID ids))
  | conn {o : ℕ} (hpc : s.pc = .setConn o) : LinkOp ids s .trans (.conn o 0)
  | sort {o : ℕ} (hpc : s.pc = .setLinkSort o) : LinkOp ids s .trans (.sort o ids)
  | launch {o : ℕ} (hpc : s.pc = .goLinkSend o) : LinkOp ids s .trans (.launch o)
  | remove {l : ClientLabel} {id : KSUID} (h : s.Removes ids l id .links) : LinkOp ids s l (.removeAll id)
  | write {i q : ℕ} {b : Buffer} : LinkOp ids s (.reader i) (.write q b)
  | send {q i : ℕ} {o : Outcome} : LinkOp ids s (.linkSend q i o) (.send q i o)
  | wait {q i : ℕ} : LinkOp ids s (.linkDone q i) (.wait q i)

theorem Client.linkOp_of_linkAct {a : LinkAct KSUID} (h : s.linkAct ids l = some a) : Client.LinkOp ids s l a := by
  cases l with
  | trans =>
    simp only [Client.linkAct] at h
    cases hpc : s.pc with
    | linkAdd i => rw [hpc] at h; cases h; exact .add hpc
    | setConn o => rw [hpc] at h; cases h; exact .conn hpc
    | setLinkSort o => rw [hpc] at h; cases h; exact .sort hpc
    | goLinkSend o => rw [hpc] at h; cases h; exact .launch hpc
    | remove at' =>
      rw [hpc] at h
      obtain ⟨rfl, rfl⟩ := RemoveAt.of_linkAct h
      exact .remove (.inl ⟨rfl, hpc, rfl⟩)
    | _ => rw [hpc] at h; cases h
  | reader i =>
    simp only [Client.linkAct] at h
    cases hr : s.reader i with
    | select q b => rw [hr] at h; cases h; exact .write
    | remove id at' =>
      rw [hr] at h
      obtain ⟨rfl, rfl⟩ := RemoveAt.of_linkAct h
      exact .remove (.inr ⟨i, rfl, hr⟩)
    | _ => rw [hr] at h; cases h
  | linkSend q i o => cases h; exact .send
  | linkDone q i => cases h; exact .wait
  | _ => cases h

/-- The queues after a step. -/
theorem Client.queues_of_step (hv : s.pc.Valid s) (h : s.step ids l = some (s', out)) :
    (s'.queues.hub.next = s.queues.hub.next ∧ ∀ k, s'.queues.hub.ref? k = s.queues.hub.ref? k) ∨
      (∃ i, l = .trans ∧ s.pc = .queueAdd i ∧ s'.queues =
        s.queues.add (Client.masterID ids) (ids.getD i default) ⟨i, ids.getD i default⟩) ∨
      ∃ id, s.Removes ids l id .queue ∧ s'.queues = s.queues.remove id := by
  have hact := (Client.acts_of_step hv h).1
  cases hx : s.queueAct ids l with
  | none =>
    rw [hx] at hact
    rw [show s'.queues = s.queues from hact]
    exact .inl ⟨rfl, fun _ => rfl⟩
  | some a =>
    rw [hx] at hact
    cases Client.queueOp_of_queueAct hx with
    | sort | launch | write | send => exact .inl (Queues.act_keeps hact rfl)
    | @add i hpc =>
      simp only [Acts, Queues.act] at hact
      split_ifs at hact
      exact .inr (.inl ⟨i, rfl, hpc, (Option.some.inj hact).symm⟩)
    | @remove _ id hrm =>
      simp only [Acts, Queues.act] at hact
      split_ifs at hact
      exact .inr (.inr ⟨id, hrm, (Option.some.inj hact).symm⟩)

/-- The links after a step. -/
theorem Client.links_of_step (hv : s.pc.Valid s) (h : s.step ids l = some (s', out)) :
    (s'.links.hub.next = s.links.hub.next ∧ ∀ k, s'.links.hub.ref? k = s.links.hub.ref? k) ∨
      (∃ i, l = .trans ∧ s.pc = .linkAdd i ∧ s'.links =
        s.links.add (ids.getD i default) (Client.masterID ids)) ∨
      ∃ id, s.Removes ids l id .links ∧ s'.links = s.links.removeAll id := by
  have hact := (Client.acts_of_step hv h).2
  cases hx : s.linkAct ids l with
  | none =>
    rw [hx] at hact
    rw [show s'.links = s.links from hact]
    exact .inl ⟨rfl, fun _ => rfl⟩
  | some a =>
    rw [hx] at hact
    cases Client.linkOp_of_linkAct hx with
    | conn | sort | launch | write | send | wait => exact .inl (Links.act_keeps hact rfl)
    | @add i hpc =>
      simp only [Acts, Links.act] at hact
      split_ifs at hact
      exact .inr (.inl ⟨i, rfl, hpc, (Option.some.inj hact).symm⟩)
    | @remove _ id hrm =>
      simp only [Acts, Links.act] at hact
      split_ifs at hact
      exact .inr (.inr ⟨id, hrm, (Option.some.inj hact).symm⟩)

/-- Pointers stay valid. -/
theorem Client.valid_of_step (hv : s.pc.Valid s) (h : s.step ids l = some (s', out)) : s'.pc.Valid s' := by
  have hq : s.queues.hub.next ≤ s'.queues.hub.next := by
    rcases Client.queues_of_step hv h with h1 | ⟨i, -, -, h1⟩ | ⟨id, -, h1⟩
    · exact h1.1.ge
    · rw [h1, Queues.hub_add, QueueHub.add_eq]; exact Registry.next_le_ensure
    · rw [h1, Queues.remove, QueueHub.next_remove]
  have hl : s.links.hub.next ≤ s'.links.hub.next := by
    rcases Client.links_of_step hv h with h1 | ⟨i, -, -, h1⟩ | ⟨id, -, h1⟩
    · exact h1.1.ge
    · rw [h1, Links.add, Links.hub_launch]; exact LinkHub.next_le_add
    · rw [h1, Links.removeAll, LinkHub.next_removeAll]
  have hmono : ∀ {p : TransPc}, p.Valid s → p.Valid s' := by
    intro p hp
    cases p with
    | setQueueSort q | goSend q => exact lt_of_lt_of_le hp hq
    | setConn o | setLinkSort o | goLinkSend o => exact lt_of_lt_of_le hp hl
    | _ => trivial
  have hm := (Client.moves_of_step h).trans
  generalize s'.pc = pc at hm
  generalize s'.err = e at hm
  apply hmono
  cases hm with
  | same => exact hv
  | gotQueue _ hr => exact Registry.ref?_lt hr
  | gotLink _ hr => exact Registry.ref?_lt hr
  | setQueueSort _ hpc | setLinkSort _ hpc => rw [hpc] at hv; exact hv
  | setConn hpc => rw [hpc] at hv; exact hv
  | _ => trivial

theorem Client.queues_of_removes {id : KSUID} (hv : s.pc.Valid s) (h : s.step ids l = some (s', out))
    (hr : s.Removes ids l id .queue) : s'.queues = s.queues.remove id := by
  have hx : s.queueAct ids l = some (.remove id) := by
    rcases hr with ⟨rfl, hpc, rfl⟩ | ⟨i, rfl, hr⟩
    · simp [Client.queueAct, hpc, RemoveAt.queueAct]
    · simp [Client.queueAct, hr, RemoveAt.queueAct]
  have hact := (Client.acts_of_step hv h).1
  rw [hx] at hact
  simp only [Acts, Queues.act] at hact
  split_ifs at hact
  exact (Option.some.inj hact).symm

theorem Client.links_of_removes {id : KSUID} (hv : s.pc.Valid s) (h : s.step ids l = some (s', out))
    (hr : s.Removes ids l id .links) : s'.links = s.links.removeAll id := by
  have hx : s.linkAct ids l = some (.removeAll id) := by
    rcases hr with ⟨rfl, hpc, rfl⟩ | ⟨i, rfl, hr⟩
    · simp [Client.linkAct, hpc, RemoveAt.linkAct]
    · simp [Client.linkAct, hr, RemoveAt.linkAct]
  have hact := (Client.acts_of_step hv h).2
  rw [hx] at hact
  simp only [Acts, Links.act] at hact
  split_ifs at hact
  exact (Option.some.inj hact).symm

end Wssocks.Wss

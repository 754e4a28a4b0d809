import Wssocks.Lib.Potential
import Wssocks.Pipe.Handoff
import Wssocks.Wss.ClientOps

/-!
# Who waits for the senders of the client

`Send` ends with a hand-off on the unbuffered channel `done`, which only a call of `Wait` takes.
`transData` calls `Wait` on its link, and on its queue nobody does.

Results:

* `queue_sender_stuck`: a call that is over, with `queue.Send` at its hand-off.
* `senders_not_stuck`: `link.Send` is never stuck. A call that returns before `go qq.Send()`, because
  `Establish` failed or its queue was not found, leaves no sender stuck; after every launch a state with
  `queue.Send` stuck can follow, unless `queue.Send` panics on a missing writer.
-/

namespace Wssocks.Wss

open Wssocks.Lib Wssocks.Pipe

variable {KSUID : Type} [DecidableEq KSUID] [Inhabited KSUID]

variable {ids : List KSUID} {s s' : Client KSUID} {l : ClientLabel} {c : Call KSUID}
  {ls : List (Call KSUID)} {out : Option (ℕ × Msg KSUID)}

/-! ## `link.Send` -/

/-- The goroutines running `link.Send` when `transData` is at `pc`: none before it is launched, one while
    `transData` waits, and none that was not waited for afterwards. -/
def SendersAt (ids : List KSUID) (k : Links KSUID) : TransPc → Prop
  | .setLinkSort _ => ∀ r, k.sends r = []
  | .goLinkSend o => (∀ r, k.sends r = []) ∧ (k.hub.obj o).sorted = ids
  | .wait o => (∀ r, r ≠ o → k.sends r = []) ∧ (k.hub.obj o).sorted = ids ∧ ∃ p, k.sends o = [p] ∧ p.served = false
  | .remove _ | .cancel _ | .rmProxy _ | .returned =>
    ∀ r, (k.sends r).length ≤ 1 ∧ ∀ p ∈ k.sends r, p.served = true
  | _ => (∀ r, k.sends r = []) ∧ k.Unwired

/-- The links of the client and where `transData` is. -/
structure Waiting (ids : List KSUID) (s : Client KSUID) : Prop where
  valid : s.pc.Valid s
  unborn : ∀ r, s.links.hub.next ≤ r → s.links.sends r = []
  done : s.links.DoneOk
  alive : s.links.crashed = false
  admits : ∀ r < s.links.hub.next, Admits (s.links.hub.obj r).mark (s.links.sends r)
  senders : SendersAt ids s.links s.pc

theorem Waiting.init : Waiting ids (Client.init : Client KSUID) :=
  ⟨trivial, fun _ _ => rfl, Links.doneOk_init, rfl, fun _ h => absurd h (Nat.not_lt_zero _), fun _ => rfl, fun _ => rfl⟩

omit [Inhabited KSUID] in
theorem Waiting.length_le (h : Waiting ids s) (r : ℕ) : (s.links.sends r).length ≤ 1 := by
  have hsend := h.senders
  have hnil : s.links.sends r = [] → (s.links.sends r).length ≤ 1 := fun h1 => by rw [h1]; exact Nat.zero_le _
  cases hpc : s.pc with
  | setLinkSort o => rw [hpc] at hsend; exact hnil (hsend r)
  | wait o =>
    rw [hpc] at hsend
    obtain ⟨hother, -, p, hp, -⟩ := hsend
    by_cases hr : r = o
    · rw [hr, hp]; rfl
    · exact hnil (hother r hr)
  | remove | cancel | rmProxy | returned => rw [hpc] at hsend; exact (hsend r).1
  | _ => rw [hpc] at hsend; exact hnil (hsend.1 r)

section
variable (h : Waiting ids s) (hs : s.step ids l = some (s', out))
include h hs

theorem Waiting.unwired_step (hu : s.links.Unwired) (hpc : l = .trans → ∀ o, s.pc ≠ .setConn o) :
    s'.links.Unwired := by
  have hact := (Client.acts_of_step h.valid hs).2
  cases hx : s.linkAct ids l with
  | none => rw [hx] at hact; rw [show s'.links = s.links from hact]; exact hu
  | some a =>
    rw [hx] at hact
    cases Client.linkOp_of_linkAct hx with
    | conn h1 => exact absurd h1 (hpc rfl _)
    | _ => exact hu.act hact (by simp) (by simp)

/-- A goroutine is launched only by `transData`, before `Wait`. -/
theorem Waiting.length_step (hpc : l = .trans → ∀ o, s.pc ≠ .goLinkSend o) (r : ℕ) :
    (s'.links.sends r).length = (s.links.sends r).length := by
  have hact := (Client.acts_of_step h.valid hs).2
  cases hx : s.linkAct ids l with
  | none => rw [hx] at hact; rw [show s'.links = s.links from hact]
  | some a =>
    rw [hx] at hact
    cases Client.linkOp_of_linkAct hx with
    | launch h1 => exact absurd h1 (hpc rfl _)
    | add h1 =>
      have hsend := h.senders
      rw [h1] at hsend
      simp only [Acts, Links.act] at hact
      split_ifs at hact
      rw [← Option.some.inj hact, Links.Unwired.sends_add hsend.2]
    | _ => exact Links.length_sends_act hact rfl r

theorem Waiting.nil_step (hpc : l = .trans → ∀ o, s.pc ≠ .goLinkSend o) {r : ℕ} (hr : s.links.sends r = []) :
    s'.links.sends r = [] := by
  refine List.eq_nil_of_length_eq_zero ?_
  rw [h.length_step hs hpc r, hr, List.length_nil]

/-- A link is given its order only by `transData`. -/
theorem Waiting.sorted_step (hpc : l = .trans → ∀ o, s.pc ≠ .setLinkSort o) {r : ℕ} (hr : r < s.links.hub.next) :
    (s'.links.hub.obj r).sorted = (s.links.hub.obj r).sorted := by
  have hact := (Client.acts_of_step h.valid hs).2
  cases hx : s.linkAct ids l with
  | none => rw [hx] at hact; rw [show s'.links = s.links from hact]
  | some a =>
    rw [hx] at hact
    cases Client.linkOp_of_linkAct hx with
    | sort h1 => exact absurd h1 (hpc rfl _)
    | _ => exact Links.sorted_act hact rfl hr

theorem Waiting.hubStep :
    ∃ bad, HubStep bad Link.mark s.links.hub s'.links.hub s.links.sends s'.links.sends := by
  have hact := (Client.acts_of_step h.valid hs).2
  cases hx : s.linkAct ids l with
  | none => rw [hx] at hact; rw [show s'.links = s.links from hact]; exact ⟨False, HubStep.same⟩
  | some a =>
    rw [hx] at hact
    exact ⟨_, Links.hubStep_act h.unborn hact⟩

theorem Waiting.served_step (hpc : l = .trans → ∀ o, s.pc ≠ .goLinkSend o)
    (hserved : ∀ r, ∀ p ∈ s.links.sends r, p.served = true) : ∀ r, ∀ p ∈ s'.links.sends r, p.served = true := by
  intro r
  have hlen := h.length_step hs hpc r
  obtain ⟨bad, hhub⟩ := h.hubStep hs
  by_cases hr : r < s.links.hub.next
  · exact (hhub.old r hr).served hlen (hserved r)
  · rw [h.unborn r (not_lt.mp hr), List.length_nil] at hlen
    rw [List.eq_nil_of_length_eq_zero hlen]
    exact fun _ h1 => (by cases h1)

/-- `transData` goes on waiting: the goroutine is before its hand-off, or at it. -/
theorem Waiting.wait_step {o : ℕ} (hpc : s.pc = .wait o) (hl : l ≠ .trans) (hd : ∀ q i, l ≠ .linkDone q i) :
    SendersAt ids s'.links (.wait o) := by
  have hsend := h.senders
  rw [hpc] at hsend
  obtain ⟨hother, hsort, p, hp, hserved⟩ := hsend
  have hlt : o < s.links.hub.next := by
    by_contra hge
    rw [h.unborn o (not_lt.mp hge)] at hp
    cases hp
  refine ⟨fun r hr => h.nil_step hs (fun h1 => absurd h1 hl) (hother r hr),
    (h.sorted_step hs (fun h1 => absurd h1 hl) hlt).trans hsort, ?_⟩
  have hlen := h.length_step hs (fun h1 => absurd h1 hl) o
  rw [hp] at hlen
  obtain ⟨p', hp'⟩ := List.length_eq_one_iff.mp hlen
  refine ⟨p', hp', ?_⟩
  have hone : ∀ pc ∈ s.links.sends o, pc.served = false := by
    intro pc hm
    rw [hp, List.mem_singleton] at hm
    rw [hm, hserved]
  have hact := (Client.acts_of_step h.valid hs).2
  suffices hall : ∀ pc ∈ s'.links.sends o, pc.served = false from hall p' (by rw [hp']; exact List.mem_singleton_self p')
  cases hx : s.linkAct ids l with
  | none => rw [hx] at hact; rw [show s'.links = s.links from hact]; exact hone
  | some a =>
    rw [hx] at hact
    cases Client.linkOp_of_linkAct hx with
    | wait => exact absurd rfl (hd _ _)
    | add | conn | sort | launch => exact absurd rfl hl
    | _ => exact Links.unserved_act hact (by simp) rfl hone

/-- `Wait` has received from the only goroutine, or found `done` closed by it. -/
theorem Waiting.waited {o : ℕ} (hpc : s.pc = .wait o)
    (hd : (l = .trans ∧ (s.links.hub.obj o).done = true) ∨ ∃ i, l = .linkDone o i) :
    ∀ r, ∀ p ∈ s'.links.sends r, p.served = true := by
  have hsend := h.senders
  rw [hpc] at hsend
  obtain ⟨hother, -, p0, hp0, hserved⟩ := hsend
  have hact := (Client.acts_of_step h.valid hs).2
  intro r p hp
  rcases hd with ⟨rfl, hdone⟩ | ⟨i, rfl⟩
  · -- the goroutine that closed `done` would be served
    obtain ⟨e, he⟩ := h.done o hdone
    rw [hp0, List.mem_singleton] at he
    rw [← he] at hserved
    cases hserved
  · simp only [Client.linkAct, Acts, Links.act] at hact
    split_ifs at hact
    unfold Links.handoff at hact
    split at hact
    · rename_i e hi
      split_ifs at hact
      rw [← Option.some.inj hact] at hp
      obtain rfl : i = 0 := by
        have hlt := (List.getElem?_eq_some_iff.mp hi).1
        rw [hp0, List.length_singleton] at hlt
        omega
      by_cases hr : r = o
      · subst hr
        rw [Links.sends_goto_self, hp0, List.set_cons_zero, List.mem_singleton] at hp
        rw [hp]
        rfl
      · have hp' : p ∈ Function.update s.links.sends o _ r := hp
        rw [Function.update_of_ne hr, hother r hr] at hp'
        cases hp'
    · cases hact

/-- `oo.SetSort(sorted)`. -/
theorem Waiting.sorted {o : ℕ} (hl : l = .trans) (hpc : s.pc = .setLinkSort o) : (s'.links.hub.obj o).sorted = ids := by
  have hact := (Client.acts_of_step h.valid hs).2
  subst hl
  simp only [Client.linkAct, hpc, Acts, Links.act] at hact
  split_ifs at hact
  rw [← Option.some.inj hact, Links.hub_modify, Registry.obj_modify_self]

/-- `go func() { oo.Send(clientLinkHub) … }`. -/
theorem Waiting.launched {o : ℕ} (hl : l = .trans) (hpc : s.pc = .goLinkSend o) : SendersAt ids s'.links (.wait o) := by
  have hsend := h.senders
  rw [hpc] at hsend
  have hact := (Client.acts_of_step h.valid hs).2
  subst hl
  simp only [Client.linkAct, hpc, Acts, Links.act] at hact
  split_ifs at hact
  rw [← Option.some.inj hact]
  refine ⟨fun r hr => ?_, hsend.2, .entry, ?_, rfl⟩
  · rw [Links.sends_launch, if_neg (by simpa using Ne.symm hr), hsend.1 r]
  · rw [Links.sends_launch, if_pos rfl, hsend.1 o]
    rfl

theorem Waiting.senders_step : SendersAt ids s'.links s'.pc := by
  have hmove := (Client.moves_of_step hs).trans
  have hsend := h.senders
  have hblank : (l = .trans → ∀ o, s.pc ≠ .goLinkSend o) → (l = .trans → ∀ o, s.pc ≠ .setConn o) →
      (∀ r, s.links.sends r = []) ∧ s.links.Unwired → (∀ r, s'.links.sends r = []) ∧ s'.links.Unwired :=
    fun h1 h2 h3 => ⟨fun r => h.nil_step hs h1 (h3.1 r), h.unwired_step hs h3.2 h2⟩
  have hover : (l = .trans → ∀ o, s.pc ≠ .goLinkSend o) →
      (∀ r, (s.links.sends r).length ≤ 1 ∧ ∀ p ∈ s.links.sends r, p.served = true) →
      ∀ r, (s'.links.sends r).length ≤ 1 ∧ ∀ p ∈ s'.links.sends r, p.served = true := fun h1 h2 r =>
    ⟨by rw [h.length_step hs h1]; exact (h2 r).1, h.served_step hs h1 (fun r => (h2 r).2) r⟩
  generalize s'.pc = pc at hmove
  generalize s'.err = e at hmove
  cases hmove with
  | same hl hd =>
    cases hpc : s.pc with
    | setLinkSort o => rw [hpc] at hsend; exact fun r => h.nil_step hs (fun h2 => absurd h2 hl) (hsend r)
    | goLinkSend o =>
      rw [hpc] at hsend
      have hv := h.valid
      rw [hpc] at hv
      exact ⟨fun r => h.nil_step hs (fun h2 => absurd h2 hl) (hsend.1 r),
        (h.sorted_step hs (fun h2 => absurd h2 hl) hv).trans hsend.2⟩
    | wait o => exact h.wait_step hs hpc hl hd
    | remove | cancel | rmProxy | returned => rw [hpc] at hsend; exact hover (fun h2 => absurd h2 hl) hsend
    | _ => rw [hpc] at hsend; exact hblank (fun h2 => absurd h2 hl) (fun h2 => absurd h2 hl) hsend
  | newProxy hpc | lanesDone hpc | sayID hpc | establish hpc | gotQueue hpc | goCopy hpc | gotLink hpc =>
    rw [hpc] at hsend
    exact hblank (by simp [hpc]) (by simp [hpc]) hsend
  | queueAdd _ hpc | linkAdd _ hpc | setQueueSort _ hpc | goSend _ hpc =>
    rw [hpc] at hsend
    exact hblank (by simp [hpc]) (by simp [hpc]) hsend
  | setConn hpc => rw [hpc] at hsend; exact fun r => h.nil_step hs (by simp [hpc]) (hsend.1 r)
  | setLinkSort hl hpc =>
    rw [hpc] at hsend
    exact ⟨fun r => h.nil_step hs (by simp [hpc]) (hsend r), h.sorted hs hl hpc⟩
  | goLinkSend hl hpc => exact h.launched hs hl hpc
  | @waited o hpc hd =>
    have hserved := h.waited hs hpc hd
    refine fun r => ⟨?_, hserved r⟩
    rw [h.length_step hs (by simp [hpc])]
    exact h.length_le r
  | @failed e hpc =>
    have hne : ∀ o, s.pc ≠ .goLinkSend o := by rw [hpc]; cases e <;> simp [TransErr.place]
    have hnil : ∀ r, s.links.sends r = [] := by
      rw [hpc] at hsend
      cases e <;> exact hsend.1
    intro r
    rw [h.nil_step hs (fun _ => hne) (hnil r)]
    exact ⟨Nat.zero_le _, fun _ h1 => (by cases h1)⟩
  | removeTest _ hpc | removeSkip _ hpc | removeQueue _ hpc | removeLinks _ hpc =>
    rw [hpc] at hsend
    exact hover (by simp [hpc]) hsend
  | cancel hpc | rmProxy hpc | leave hpc =>
    rw [hpc] at hsend
    exact hover (by simp [hpc]) hsend

theorem Waiting.step : Waiting ids s' := by
  obtain ⟨bad, hhub⟩ := h.hubStep hs
  have hact := (Client.acts_of_step h.valid hs).2
  refine ⟨Client.valid_of_step h.valid hs, fun r hr => ?_, ?_, ?_, hhub.admits h.unborn h.admits, h.senders_step hs⟩
  · rw [hhub.unborn r hr, h.unborn r (hhub.le.trans hr)]
  · cases hx : s.linkAct ids l with
    | none => rw [hx] at hact; rw [show s'.links = s.links from hact]; exact h.done
    | some a => rw [hx] at hact; exact Links.doneOk_act h.done hact
  · cases hx : s.linkAct ids l with
    | none => rw [hx] at hact; rw [show s'.links = s.links from hact]; exact h.alive
    | some a => rw [hx] at hact; exact Links.crashed_act hact h.done h.length_le

end

/-! ## `queue.Send` -/

/-- One goroutine of `queue.Send` was launched, on queue `q`. -/
structure QueueSender (ids : List KSUID) (k : Queues KSUID (WsWriter ℕ KSUID)) (q : ℕ) : Prop where
  lanes : ids ≠ []
  sorted : (k.hub.obj q).sorted = ids
  one : ∃ pc, k.sends q = [pc]
  others : ∀ r, r ≠ q → k.sends r = []

/-- The goroutines running `queue.Send` when `transData` is at `pc` and returns the error `e`: none before
    the launch and none in a call that returns before it, one in every other call. -/
def QueueSendersAt (ids : List KSUID) (k : Queues KSUID (WsWriter ℕ KSUID)) (e : Option TransErr) : TransPc → Prop
  | .newProxy _ | .establish | .getQueue =>
    e = none ∧ (∀ r, k.sends r = []) ∧ (∀ r, (k.hub.obj r).sorted = []) ∧ (0 < k.hub.next → ids ≠ [])
  | .sayID _ | .queueAdd _ | .linkAdd _ =>
    e = none ∧ (∀ r, k.sends r = []) ∧ (∀ r, (k.hub.obj r).sorted = []) ∧ ids ≠ []
  | .setQueueSort _ => e = none ∧ (∀ r, k.sends r = []) ∧ ids ≠ []
  | .goSend q => e = none ∧ (∀ r, k.sends r = []) ∧ ids ≠ [] ∧ (k.hub.obj q).sorted = ids
  | .goCopy _ | .getLink | .setConn _ | .setLinkSort _ | .goLinkSend _ | .wait _ => e = none ∧ ∃ q, QueueSender ids k q
  | .remove _ | .cancel _ | .rmProxy _ | .returned =>
    ((e = some .establish ∨ e = some .queueNotFound) ∧ ∀ r, k.sends r = []) ∨
      (¬ (e = some .establish ∨ e = some .queueNotFound) ∧ ∃ q, QueueSender ids k q)

/-- The queues of the client and where `transData` is. -/
structure Launching (ids : List KSUID) (s : Client KSUID) : Prop where
  unborn : ∀ r, s.queues.hub.next ≤ r → s.queues.sends r = []
  admits : ∀ r < s.queues.hub.next, Admits (s.queues.hub.obj r).mark (s.queues.sends r)
  unwaited : s.queues.Unwaited
  senders : QueueSendersAt ids s.queues s.err s.pc

theorem Launching.init : Launching ids (Client.init : Client KSUID) :=
  ⟨fun _ _ => rfl, fun _ h => absurd h (Nat.not_lt_zero _), Queues.Unwaited.init, rfl, fun _ => rfl, fun _ => rfl,
    fun h => absurd h (Nat.not_lt_zero _)⟩

section Quiet
variable {k k' : Queues KSUID (WsWriter ℕ KSUID)} {e : Option TransErr} {q : ℕ}

omit [Inhabited KSUID] in
theorem QueueSender.quiet (h : QueueSender ids k q) (hq : Queues.Quiet k k') : QueueSender ids k' q where
  lanes := h.lanes
  sorted := (hq.sorted q).trans h.sorted
  one := by
    obtain ⟨pc, hpc⟩ := h.one
    have hlen := hq.length q
    rw [hpc] at hlen
    exact List.length_eq_one_iff.mp hlen
  others := fun r hr => List.eq_nil_of_length_eq_zero (by rw [hq.length, h.others r hr, List.length_nil])

omit [Inhabited KSUID] in
theorem QueueSendersAt.quiet {pc : TransPc} (h : QueueSendersAt ids k e pc) (hq : Queues.Quiet k k') :
    QueueSendersAt ids k' e pc := by
  have hnil : (∀ r, k.sends r = []) → ∀ r, k'.sends r = [] := fun h1 r =>
    List.eq_nil_of_length_eq_zero (by rw [hq.length, h1 r, List.length_nil])
  have hsort : (∀ r, (k.hub.obj r).sorted = []) → ∀ r, (k'.hub.obj r).sorted = [] := fun h1 r => (hq.sorted r).trans (h1 r)
  cases pc with
  | newProxy | establish | getQueue =>
    obtain ⟨h1, h2, h3, h4⟩ := h
    exact ⟨h1, hnil h2, hsort h3, hq.next ▸ h4⟩
  | sayID | queueAdd | linkAdd =>
    obtain ⟨h1, h2, h3, h4⟩ := h
    exact ⟨h1, hnil h2, hsort h3, h4⟩
  | setQueueSort => exact ⟨h.1, hnil h.2.1, h.2.2⟩
  | goSend q => exact ⟨h.1, hnil h.2.1, h.2.2.1, (hq.sorted q).trans h.2.2.2⟩
  | goCopy | getLink | setConn | setLinkSort | goLinkSend | wait =>
    obtain ⟨h1, q, h2⟩ := h
    exact ⟨h1, q, h2.quiet hq⟩
  | remove | cancel | rmProxy | returned =>
    rcases h with ⟨h1, h2⟩ | ⟨h1, q, h2⟩
    · exact .inl ⟨h1, hnil h2⟩
    · exact .inr ⟨h1, q, h2.quiet hq⟩

end Quiet

/-- The steps of `transData` before and at the launch apart, a step launches nothing. -/
theorem Client.quiet_of_step (hv : s.pc.Valid s) (hs : s.step ids l = some (s', out))
    (hpc : l = .trans → (∀ i, s.pc ≠ .queueAdd i) ∧ (∀ q, s.pc ≠ .setQueueSort q) ∧
    ∀ q, s.pc ≠ .goSend q) : Queues.Quiet s.queues s'.queues := by
  have hact := (Client.acts_of_step hv hs).1
  cases hx : s.queueAct ids l with
  | none => rw [hx] at hact; rw [show s'.queues = s.queues from hact]; exact .refl
  | some a =>
    rw [hx] at hact
    cases Client.queueOp_of_queueAct hx with
    | add h1 => exact absurd h1 ((hpc rfl).1 _)
    | sort h1 => exact absurd h1 ((hpc rfl).2.1 _)
    | launch h1 => exact absurd h1 ((hpc rfl).2.2 _)
    | remove =>
      simp only [Acts, Queues.act] at hact
      split_ifs at hact
      rw [← Option.some.inj hact]
      exact .remove
    | write | send => exact .ran (Queues.Ran.of_act hact rfl)

section
variable (h : Launching ids s) (hv : s.pc.Valid s) (hs : s.step ids l = some (s', out))
include h hv hs

theorem Launching.senders_step : QueueSendersAt ids s'.queues s'.err s'.pc := by
  have hmove := (Client.moves_of_step hs).trans
  have hact := (Client.acts_of_step hv hs).1
  have hsend := h.senders
  -- the same for a step to another place
  have hquiet : ∀ {pc}, s.pc = pc → (∀ i, pc ≠ .queueAdd i) ∧ (∀ q, pc ≠ .setQueueSort q) ∧ (∀ q, pc ≠ .goSend q) →
      QueueSendersAt ids s'.queues s.err pc := by
    rintro pc rfl hpc
    exact hsend.quiet (Client.quiet_of_step hv hs fun _ => hpc)
  generalize s'.pc = pc at hmove
  generalize s'.err = e at hmove
  cases hmove with
  | same hl => exact hsend.quiet (Client.quiet_of_step hv hs fun h1 => absurd h1 hl)
  | newProxy hpc hi =>
    obtain ⟨h1, h2, h3, -⟩ := hquiet hpc (by simp)
    exact ⟨h1, h2, h3, List.ne_nil_of_length_pos (by omega)⟩
  | lanesDone hpc | sayID hpc | establish hpc | goCopy hpc | gotLink hpc | setConn hpc | cancel hpc | rmProxy hpc
    | leave hpc =>
    have hat := hquiet hpc (by simp)
    exact hat
  | setLinkSort _ hpc | goLinkSend _ hpc | removeTest _ hpc | removeSkip _ hpc | removeQueue _ hpc
    | removeLinks _ hpc =>
    have hat := hquiet hpc (by simp)
    exact hat
  | queueAdd hl hpc =>
    subst hl
    rw [hpc] at hsend
    obtain ⟨h1, h2, h3, h4⟩ := hsend
    simp only [Client.queueAct, hpc, Acts, Queues.act] at hact
    split_ifs at hact
    rw [← Option.some.inj hact]
    obtain ⟨h5, h6⟩ := Queues.sends_add_unsorted h3
    exact ⟨h1, fun r => by rw [h5, h2 r], h6, h4⟩
  | linkAdd _ hpc =>
    obtain ⟨h1, h2, h3, h4⟩ := hquiet hpc (by simp)
    exact ⟨h1, h2, h3, fun _ => h4⟩
  | gotQueue hpc hq =>
    have hnext := (Client.quiet_of_step hv hs fun _ => by simp [hpc]).next
    obtain ⟨h1, h2, -, h4⟩ := hquiet hpc (by simp)
    exact ⟨h1, h2, h4 (hnext ▸ Nat.zero_lt_of_lt (Registry.ref?_lt hq))⟩
  | setQueueSort hl hpc =>
    subst hl
    rw [hpc] at hsend
    simp only [Client.queueAct, hpc, Acts, Queues.act] at hact
    split_ifs at hact
    rw [← Option.some.inj hact]
    exact ⟨hsend.1, hsend.2.1, hsend.2.2, by simp [Queues.modify]⟩
  | @goSend q hl hpc =>
    subst hl
    rw [hpc] at hsend
    obtain ⟨h1, h2, h3, h4⟩ := hsend
    simp only [Client.queueAct, hpc, Acts, Queues.act] at hact
    split_ifs at hact
    rw [← Option.some.inj hact]
    refine ⟨h1, q, h3, by rw [Queues.hub_launch]; exact h4, ⟨.entry, ?_⟩, fun r hr => ?_⟩
    · rw [Queues.sends_launch, if_pos rfl, h2 q]
      rfl
    · rw [Queues.sends_launch, if_neg (by simpa using Ne.symm hr), h2 r]
  | waited hpc =>
    obtain ⟨h1, h2⟩ := hquiet hpc (by simp)
    exact .inr ⟨by simp [h1], h2⟩
  | @failed e hpc =>
    cases e with
    | establish => exact .inl ⟨.inl rfl, (hquiet (show s.pc = .establish from hpc) (by simp)).2.1⟩
    | queueNotFound => exact .inl ⟨.inr rfl, (hquiet (show s.pc = .getQueue from hpc) (by simp)).2.1⟩
    | linkNotFound => exact .inr ⟨by simp, (hquiet (show s.pc = .getLink from hpc) (by simp)).2⟩

theorem Launching.step : Launching ids s' := by
  have hact := (Client.acts_of_step hv hs).1
  cases hx : s.queueAct ids l with
  | none =>
    rw [hx] at hact
    have hq : s'.queues = s.queues := hact
    exact ⟨hq ▸ h.unborn, hq ▸ h.admits, hq ▸ h.unwaited, h.senders_step hv hs⟩
  | some a =>
    rw [hx] at hact
    have hhub := Queues.hubStep_act h.unborn hact
    refine ⟨fun r hr => ?_, hhub.admits h.unborn h.admits, h.unwaited.act hact fun q i ha => ?_, h.senders_step hv hs⟩
    · rw [hhub.unborn r hr, h.unborn r (hhub.le.trans hr)]
    · -- nobody calls `Wait` on a queue of the client
      subst ha
      cases Client.queueOp_of_queueAct hx

end

/-- The senders of the client. -/
structure Sending (ids : List KSUID) (s : Client KSUID) : Prop where
  links : Waiting ids s
  queues : Launching ids s

theorem Sending.init : Sending ids (Client.init : Client KSUID) := ⟨Waiting.init, Launching.init⟩

theorem Sending.step (h : Sending ids s) (hs : s.serve ids c = some s') : Sending ids s' := by
  cases c with
  | arrive i x =>
    cases hs
    have hv := h.links.valid
    refine ⟨⟨?_, h.links.unborn, h.links.done, h.links.alive, h.links.admits, h.links.senders⟩, ⟨h.queues.unborn,
      h.queues.admits, h.queues.unwaited, h.queues.senders⟩⟩
    show TransPc.Valid (s.arrive i x) s.pc
    cases hpc : s.pc <;> rw [hpc] at hv <;> exact hv
  | act l =>
    obtain ⟨out, h1⟩ := Client.serve_act hs
    exact ⟨h.links.step h1, h.queues.step h.links.valid h1⟩

/-! ## Calls that leave a sender stuck -/

/-- The call is over and a sender it launched is at its hand-off, which only a call of `Wait` in `transData`
    could take. -/
def Client.Stuck (s : Client KSUID) : Prop :=
  s.pc = .returned ∧ ((∃ q e, .handoff e ∈ s.queues.sends q) ∨ ∃ q e, .handoff e ∈ s.links.sends q)

/-- `queue.Send` holds a chunk for a lane whose writer its queue does not have: it is about to panic, or has
    panicked. -/
def Client.Panics (s : Client KSUID) : Prop := ∃ q b rest, .write none b rest ∈ s.queues.sends q

/-- `transData` is past `go qq.Send()`, or returns without having come to it. -/
def TransPc.decided : TransPc → Bool
  | .goCopy _ | .getLink | .setConn _ | .setLinkSort _ | .goLinkSend _ | .wait _ => true
  | .remove _ | .cancel _ | .rmProxy _ | .returned => true
  | _ => false

omit [Inhabited KSUID] in
theorem Sending.link_not_stuck (h : Sending ids s) (hpc : s.pc = .returned) (o : ℕ) (e : Option SendErr) :
    .handoff e ∉ s.links.sends o := by
  intro hm
  have hserved := h.links.senders
  rw [hpc] at hserved
  have := (hserved o).2 _ hm
  cases this

omit [Inhabited KSUID] in
/-- A queue has one goroutine at most. -/
theorem Sending.one {q : ℕ} {x : QueueSend KSUID (WsWriter ℕ KSUID)} (h : Sending ids s) (hm : x ∈ s.queues.sends q) :
    ∃ pc, s.queues.sends q = [pc] := by
  have hsend := h.queues.senders
  have hnil : (∀ r, s.queues.sends r = []) → ∃ pc, s.queues.sends q = [pc] := fun h1 => by
    rw [h1 q] at hm
    cases hm
  have hone : ∀ {r}, QueueSender ids s.queues r → ∃ pc, s.queues.sends q = [pc] := by
    intro r hr
    by_cases hq : q = r
    · subst hq; exact hr.one
    · rw [hr.others q hq] at hm; cases hm
  cases hpc : s.pc with
  | newProxy | establish | getQueue | sayID | queueAdd | linkAdd | setQueueSort | goSend =>
    rw [hpc] at hsend
    exact hnil hsend.2.1
  | goCopy | getLink | setConn | setLinkSort | goLinkSend | wait =>
    rw [hpc] at hsend
    obtain ⟨-, r, hr⟩ := hsend
    exact hone hr
  | remove | cancel | rmProxy | returned =>
    rw [hpc] at hsend
    rcases hsend with ⟨-, h1⟩ | ⟨-, r, hr⟩
    · exact hnil h1
    · exact hone hr

omit [Inhabited KSUID] in
/-- The only goroutine is stuck, if any is. -/
theorem Sending.queue_stuck (h : Sending ids s) (hs : s.Stuck) :
    ¬ (s.err = some .establish ∨ s.err = some .queueNotFound) ∧ ∃ q e, s.queues.sends q = [.handoff e] ∧
      ∀ r, r ≠ q → s.queues.sends r = [] := by
  obtain ⟨hpc, ⟨r, e, hm⟩ | ⟨r, e, hm⟩⟩ := hs
  · have hsend := h.queues.senders
    rw [hpc] at hsend
    rcases hsend with ⟨-, hnil⟩ | ⟨herr, q, hq⟩
    · rw [hnil r] at hm; cases hm
    · refine ⟨herr, q, e, ?_, hq.others⟩
      obtain ⟨pc, hone⟩ := hq.one
      by_cases hr : r = q
      · rw [hr, hone, List.mem_singleton] at hm
        rw [hone, hm]
      · rw [hq.others r hr] at hm; cases hm
  · exact absurd hm (h.link_not_stuck hpc r e)

/-- The error stays. -/
theorem Sending.err_step {e : TransErr} (h : Sending ids s) (he : s.err = some e) (hs : s.serve ids c = some s') :
    s'.err = some e := by
  cases c with
  | arrive => cases hs; exact he
  | act l =>
    obtain ⟨out, h1⟩ := Client.serve_act hs
    have hmove := (Client.moves_of_step h1).trans
    have hsend := h.queues.senders
    generalize s'.pc = pc at hmove
    generalize s'.err = e' at hmove
    cases hmove with
    | @failed e' hpc =>
      -- there is no error yet where one is found
      rw [hpc, he] at hsend
      cases e' <;> cases hsend.1
    | _ => exact he

/-- So does the panic. -/
theorem Sending.panics_step (h : Sending ids s) (hp : s.Panics) (hs : s.serve ids c = some s') : s'.Panics := by
  cases c with
  | arrive => cases hs; exact hp
  | act l =>
    obtain ⟨out, h1⟩ := Client.serve_act hs
    obtain ⟨q, b, rest, hm⟩ := hp
    suffices hsame : s'.queues.sends q = s.queues.sends q from ⟨q, b, rest, hsame ▸ hm⟩
    have hsend := h.queues.senders
    have hact := (Client.acts_of_step h.links.valid h1).1
    cases hx : s.queueAct ids l with
    | none => rw [hx] at hact; rw [show s'.queues = s.queues from hact]
    | some a =>
      rw [hx] at hact
      cases Client.queueOp_of_queueAct hx with
      | add hpc | sort hpc | launch hpc =>
        rw [hpc] at hsend
        rw [hsend.2.1 q] at hm
        cases hm
      | remove =>
        simp only [Acts, Queues.act] at hact
        split_ifs at hact
        rw [← Option.some.inj hact]
        rfl
      | write =>
        simp only [Acts, Queues.act] at hact
        split_ifs at hact
        obtain ⟨⟨k, ok⟩, h2, rfl⟩ := Option.map_eq_some_iff.mp hact
        rw [(Queues.push_touched h2).2]
      | @send r i o =>
        simp only [Acts, Queues.act] at hact
        split_ifs at hact
        obtain ⟨⟨k, msg⟩, h2, hk⟩ := Option.map_eq_some_iff.mp hact
        rw [← hk]
        by_cases hr : q = r
        · subst hr
          -- the only goroutine is this one, and its step is the panic
          obtain ⟨pc, hpc⟩ := h.one hm
          rw [hpc, List.mem_singleton] at hm
          rw [← hm] at hpc
          have hi : ∀ {pc'}, (s.queues.sends q)[i]? = some pc' → pc' = .write none b rest := by
            intro pc' h3
            have h4 := List.mem_of_getElem? h3
            rwa [hpc, List.mem_singleton] at h4
          cases Queues.sendStep_of_send h2 with
          | noWriter | panic => rfl
          | refuse h3 | enter h3 | closed h3 | round h3 | again h3 | next h3 | read h3 | timeout h3 | write h3 | fail h3
            | ret h3 | closeDone h3 => cases hi h3
        · exact (Queues.send_moved h2).sends_ne hr

omit [Inhabited KSUID] in
/-- A goroutine of `queue.Send` is the one of the call. -/
theorem Sending.sender {q : ℕ} {x : QueueSend KSUID (WsWriter ℕ KSUID)} (h : Sending ids s) (hd : s.pc.decided = true)
    (hm : x ∈ s.queues.sends q) : QueueSender ids s.queues q := by
  have hsend := h.queues.senders
  have hone : ∀ {r}, QueueSender ids s.queues r → QueueSender ids s.queues q := by
    intro r hr
    by_cases hq : q = r
    · subst hq; exact hr
    · rw [hr.others q hq] at hm; cases hm
  cases hpc : s.pc with
  | newProxy | establish | getQueue | sayID | queueAdd | linkAdd | setQueueSort | goSend => rw [hpc] at hd; cases hd
  | goCopy | getLink | setConn | setLinkSort | goLinkSend | wait =>
    rw [hpc] at hsend
    obtain ⟨-, r, hr⟩ := hsend
    exact hone hr
  | remove | cancel | rmProxy | returned =>
    rw [hpc] at hsend
    rcases hsend with ⟨-, h1⟩ | ⟨-, r, hr⟩
    · rw [h1 q] at hm; cases hm
    · exact hone hr

omit [Inhabited KSUID] in
/-- `queue.Send` was launched in a call that has passed it. -/
theorem Sending.exists_sender (h : Sending ids s) (hd : s.pc.decided = true)
    (he : ¬ (s.err = some .establish ∨ s.err = some .queueNotFound)) : ∃ q, QueueSender ids s.queues q := by
  have hsend := h.queues.senders
  cases hpc : s.pc with
  | newProxy | establish | getQueue | sayID | queueAdd | linkAdd | setQueueSort | goSend => rw [hpc] at hd; cases hd
  | goCopy | getLink | setConn | setLinkSort | goLinkSend | wait => rw [hpc] at hsend; exact hsend.2
  | remove | cancel | rmProxy | returned =>
    rw [hpc] at hsend
    rcases hsend with ⟨h1, -⟩ | ⟨-, h1⟩
    · exact absurd h1 he
    · exact h1

/-- How many steps `transData` needs at most to return from a call with `n` lanes, if `link.Send` returns as
    soon as it can. -/
def TransPc.remaining (n : ℕ) (k : Links KSUID) : TransPc → ℕ
  | .goCopy _ => 2 * n + 20
  | .getLink => 2 * n + 19
  | .setConn _ => 2 * n + 18
  | .setLinkSort _ => 2 * n + 17
  | .goLinkSend _ => 2 * n + 16
  | .wait o => 2 * n + 6 + ((k.sends o).map SendPc.way).sum
  | .remove .test => 2 * n + 4
  | .remove .queue => 2 * n + 3
  | .remove .links => 2 * n + 2
  | .rmProxy i => 2 * i + 2
  | .cancel i => 2 * i + 1
  | _ => 0

/-- `link.Send` comes closer to its hand-off, or `Wait` takes it. -/
theorem Sending.exists_wait {o : ℕ} (h : Sending ids s) (halive : s.queues.crashed = false) (hids : ids ≠ [])
    (hpc : s.pc = .wait o) : ∃ l s', s.step ids l = some (s', none) ∧ s'.queues = s.queues ∧ s'.pc.decided = true ∧
      s'.pc.remaining ids.length s'.links < s.pc.remaining ids.length s.links := by
  have hl := h.links.alive
  have hsend := h.links.senders
  rw [hpc] at hsend
  obtain ⟨-, hsort, p, hp, hserved⟩ := hsend
  have hi : (s.links.sends o)[0]? = some p := by rw [hp]; rfl
  have hlt : o < s.links.hub.next := lt_of_unborn h.links.unborn hi
  have hadm := h.links.admits o hlt
  rw [hp] at hadm
  by_cases hway : 0 < p.way
  · obtain ⟨out, k, p', hk, hks, hlt'⟩ := Links.exists_send hi (by rw [hsort]; exact hids) (fun h1 => by
      refine hadm.fresh fun x hx => ?_
      rw [List.mem_singleton.mp hx, h1]
      rfl) hway
    refine ⟨.linkSend o 0 out, { s with links := k }, ?_, rfl, by show s.pc.decided = true; rw [hpc]; rfl, ?_⟩
    · simp [Client.step, halive, hl, hk]
    · show s.pc.remaining _ k < _
      rw [hpc]
      simp only [TransPc.remaining, hks, hp, Function.update_self, List.set_cons_zero, List.map_cons, List.map_nil,
        List.sum_cons, List.sum_nil]
      omega
  · -- it is at the hand-off
    obtain ⟨e, rfl⟩ : ∃ e, p = .handoff e := by
      cases p with
      | handoff e => exact ⟨e, rfl⟩
      | refused => exact absurd rfl hadm.single
      | closeDone | exit => cases hserved
      | pass rest => cases rest <;> simp [SendPc.way] at hway
      | _ => simp [SendPc.way] at hway
    have hdone : (s.links.hub.obj o).done = false := by
      by_contra hd
      obtain ⟨e', he'⟩ := h.links.done o (by simpa using hd)
      rw [hp] at he'
      simp at he'
    refine ⟨.linkDone o 0, { s with links := s.links.goto o 0 (.closeDone e), pc := .remove .test }, ?_, rfl, rfl, ?_⟩
    · simp [Client.step, halive, hl, hpc, Links.handoff, hp, hdone]
    · rw [hpc]
      simp only [TransPc.remaining]
      omega

/-- `transData` comes closer to its return. -/
theorem Sending.exists_trans (h : Sending ids s) (halive : s.queues.crashed = false) (hids : ids ≠ [])
    (hd : s.pc.decided = true) (hne : s.pc ≠ .returned) : ∃ l s', s.step ids l = some (s', none) ∧
      s'.queues.sends = s.queues.sends ∧ s'.pc.decided = true ∧
      s'.pc.remaining ids.length s'.links < s.pc.remaining ids.length s.links := by
  have hl := h.links.alive
  have htrans : ∀ {s'}, s.transStep ids = some (s', none) → s.step ids .trans = some (s', none) := fun h1 => by
    simp [Client.step, halive, hl, h1]
  cases hpc : s.pc with
  | newProxy | establish | getQueue | sayID | queueAdd | linkAdd | setQueueSort | goSend => rw [hpc] at hd; cases hd
  | returned => exact absurd hpc hne
  | wait o =>
    obtain ⟨l, s', h1, h2, h3, h4⟩ := h.exists_wait halive hids hpc
    exact ⟨l, s', h1, by rw [h2], h3, hpc ▸ h4⟩
  | goCopy q =>
    refine ⟨.trans, { s with copy := { pc := .read }, qq := q, pc := .getLink }, htrans ?_, rfl, rfl, ?_⟩
    · simp only [Client.transStep, hpc]
    · simp [TransPc.remaining]
  | getLink =>
    cases hr : s.links.hub.ref? (Client.masterID ids) with
    | some o =>
      refine ⟨.trans, { s with pc := .setConn o }, htrans ?_, rfl, rfl, ?_⟩
      · simp only [Client.transStep, hpc, hr]
      · simp [TransPc.remaining]
    | none =>
      refine ⟨.trans, { s with pc := .remove .test, err := some .linkNotFound }, htrans ?_, rfl, rfl, ?_⟩
      · simp only [Client.transStep, hpc, hr]
      · simp [TransPc.remaining]
  | setConn o =>
    refine ⟨.trans, { s with links := s.links.modify o fun x => { x with conn := some 0 }, pc := .setLinkSort o },
      htrans ?_, rfl, rfl, ?_⟩
    · simp only [Client.transStep, hpc]
    · simp [TransPc.remaining]
  | setLinkSort o =>
    refine ⟨.trans, { s with links := s.links.modify o fun x => { x with sorted := ids }, pc := .goLinkSend o },
      htrans ?_, rfl, rfl, ?_⟩
    · simp only [Client.transStep, hpc]
    · simp [TransPc.remaining]
  | goLinkSend o =>
    refine ⟨.trans, { s with links := s.links.launch (some o), pc := .wait o }, htrans ?_, rfl, rfl, ?_⟩
    · simp only [Client.transStep, hpc]
    · have hsend := h.links.senders
      rw [hpc] at hsend
      simp [TransPc.remaining, Links.sends_launch, hsend.1 o, SendPc.way]
  | remove a =>
    cases a with
    | test =>
      by_cases hr : s.removed = true
      · refine ⟨.trans, { s with pc := .cancel ids.length }, htrans ?_, rfl, rfl, ?_⟩
        · simp [Client.transStep, hpc, Client.removeStep, hr]
        · simp [TransPc.remaining]
      · refine ⟨.trans, { s with removed := true, pc := .remove .queue }, htrans ?_, rfl, rfl, ?_⟩
        · simp [Client.transStep, hpc, Client.removeStep, hr]
        · simp [TransPc.remaining]
    | queue =>
      refine ⟨.trans, { s with queues := s.queues.remove (Client.masterID ids), pc := .remove .links }, htrans ?_, rfl, rfl,
        ?_⟩
      · simp [Client.transStep, hpc, Client.removeStep]
      · simp [TransPc.remaining]
    | links =>
      refine ⟨.trans, { s with links := s.links.removeAll (Client.masterID ids), pc := .cancel ids.length }, htrans ?_, rfl,
        rfl, ?_⟩
      · simp [Client.transStep, hpc, Client.removeStep]
      · simp [TransPc.remaining]
  | cancel i =>
    cases i with
    | zero =>
      refine ⟨.trans, { s with pc := .returned }, htrans ?_, rfl, rfl, ?_⟩
      · simp only [Client.transStep, hpc]
      · simp [TransPc.remaining]
    | succ i =>
      refine ⟨.trans, { s with cancelled := Function.update s.cancelled i true, pc := .rmProxy i }, htrans ?_, rfl, rfl, ?_⟩
      · simp only [Client.transStep, hpc]
      · simp only [TransPc.remaining]; omega
  | rmProxy i =>
    refine ⟨.trans, { s with registered := Function.update s.registered i false, pc := .cancel i }, htrans ?_, rfl, rfl, ?_⟩
    · simp only [Client.transStep, hpc]
    · simp [TransPc.remaining]

/-- `queue.Send` comes closer to its hand-off. -/
theorem Sending.exists_queueSend {q : ℕ} {pc : QueueSend KSUID (WsWriter ℕ KSUID)} (h : Sending ids s)
    (halive : s.queues.crashed = false) (hq : QueueSender ids s.queues q) (hpc : s.queues.sends q = [pc])
    (hp : ∀ b rest, pc ≠ .write none b rest) (hway : 0 < pc.way) :
    ∃ l s' pc', s.step ids l = some (s', none) ∧ s'.queues.sends q = [pc'] ∧ s'.pc = s.pc ∧ s'.links = s.links ∧
      pc'.way < pc.way ∧ ∀ b rest, pc' ≠ .write none b rest := by
  have hi : (s.queues.sends q)[0]? = some pc := by rw [hpc]; rfl
  have hadm := h.queues.admits q (lt_of_unborn h.queues.unborn hi)
  rw [hpc] at hadm
  obtain ⟨o, k, pc', hk, hks, hlt, hne⟩ := Queues.exists_send hi (by rw [hq.sorted]; exact hq.lanes) (fun h1 => by
    refine hadm.fresh fun x hx => ?_
    rw [List.mem_singleton.mp hx, h1]
    rfl) hp hway
  refine ⟨.queueSend q 0 o, { s with queues := k }, pc', ?_, ?_, rfl, rfl, hlt, hne⟩
  · simp [Client.step, halive, h.links.alive, hk]
  · show k.sends q = [pc']
    rw [hks, Function.update_self, hpc, List.set_cons_zero]

/-- After the launch a stuck state can follow: `queue.Send` times out, and `transData` returns. -/
theorem Sending.exists_stuck (h : Sending ids s) (hd : s.pc.decided = true)
    (he : ¬ (s.err = some .establish ∨ s.err = some .queueNotFound)) (hp : ¬ s.Panics) :
    ∃ ls s', Run (Client.serve ids) anyStep s ls s' ∧ s'.Stuck := by
  obtain ⟨q, hq⟩ := h.exists_sender hd he
  refine exists_run_to (Client.serve ids) anyStep
    (fun s => ((s.queues.sends q).map SendPc.way).sum + s.pc.remaining ids.length s.links)
    (I := fun s => Sending ids s ∧ s.pc.decided = true ∧ ¬ s.Panics ∧ QueueSender ids s.queues q) ⟨h, hd, hp, hq⟩ ?_
  rintro a ⟨ha, hda, hpa, hqa⟩ hgoal
  obtain ⟨pc, hpc⟩ := hqa.one
  have hmem : pc ∈ a.queues.sends q := by rw [hpc]; exact List.mem_singleton_self pc
  have halive : a.queues.crashed = false := by
    by_contra hc
    exact hpa (ha.queues.unwaited.crashed (by simpa using hc))
  -- a step that leaves the goroutine at `pc'` keeps what is assumed
  have hkeep : ∀ {l b pc'}, a.step ids l = some (b, none) → b.queues.sends q = [pc'] → b.pc.decided = true →
      (∀ x rest, pc' ≠ .write none x rest) →
      Sending ids b ∧ b.pc.decided = true ∧ ¬ b.Panics ∧ QueueSender ids b.queues q := by
    intro l b pc' hb hone hdb hne
    have hsb : Sending ids b := ha.step (c := .act l) (by simp [Client.serve, hb])
    have hqb : QueueSender ids b.queues q := hsb.sender hdb (x := pc') (by rw [hone]; exact List.mem_singleton_self pc')
    refine ⟨hsb, hdb, ?_, hqb⟩
    rintro ⟨r, x, rest, hm⟩
    by_cases hr : r = q
    · rw [hr, hone, List.mem_singleton] at hm
      exact hne x rest hm.symm
    · rw [hqb.others r hr] at hm; cases hm
  have hwrite : ∀ x rest, pc ≠ .write none x rest := fun x rest h1 => hpa ⟨q, x, rest, h1 ▸ hmem⟩
  by_cases hway : 0 < pc.way
  · obtain ⟨l, b, pc', hb, hone, hbpc, hbl, hlt, hne⟩ := ha.exists_queueSend halive hqa hpc hwrite hway
    refine ⟨.act l, b, trivial, by simp [Client.serve, hb], hkeep hb hone (by rw [hbpc]; exact hda) hne, ?_⟩
    simp only [hone, hpc, hbpc, hbl, List.map_cons, List.map_nil, List.sum_cons, List.sum_nil]
    omega
  · obtain ⟨e, rfl⟩ : ∃ e, pc = .handoff e := by
      have hserved := ha.queues.unwaited.unserved q pc hmem
      have hadm := ha.queues.admits q (lt_of_unborn ha.queues.unborn (i := 0) (by rw [hpc]; rfl))
      rw [hpc] at hadm
      cases pc with
      | handoff e => exact ⟨e, rfl⟩
      | refused => exact absurd rfl hadm.single
      | closeDone | exit => cases hserved
      | pass rest => cases rest <;> simp [SendPc.way] at hway
      | _ => simp [SendPc.way] at hway
    have hne : a.pc ≠ .returned := fun h1 => hgoal ⟨h1, .inl ⟨q, e, hmem⟩⟩
    obtain ⟨l, b, hb, hsends, hdb, hlt⟩ := ha.exists_trans halive hqa.lanes hda hne
    refine ⟨.act l, b, trivial, by simp [Client.serve, hb], hkeep hb (by rw [hsends, hpc]) hdb (by simp), ?_⟩
    simp only [hsends, hpc]
    omega

/-- In every run of `transData`: when the call is over `link.Send` is not at its hand-off; and once
    `transData` is past `go qq.Send()` or returns without having come to it, no state with a stuck sender
    can follow exactly if it returns before the launch, because `Establish` failed or the queue was not
    found, or if `queue.Send` panics on a missing writer. -/
theorem senders_not_stuck (h : Run (Client.serve ids) anyStep Client.init ls s) :
    (s.pc = .returned → ∀ o e, .handoff e ∉ s.links.sends o) ∧
      (s.pc.decided = true →
        ((∀ ls' s', Run (Client.serve ids) anyStep s ls' s' → ¬ s'.Stuck) ↔
          (s.err = some .establish ∨ s.err = some .queueNotFound) ∨ s.Panics)) := by
  have hsend : Sending ids s := h.invariant Sending.init fun _ _ _ h1 _ hs => h1.step hs
  refine ⟨hsend.link_not_stuck, fun hd => ⟨fun hno => ?_, fun hend ls' s' hrun hstuck => ?_⟩⟩
  · by_contra hnot
    push Not at hnot
    obtain ⟨ls', s', hrun, hstuck⟩ := hsend.exists_stuck hd (by simpa using hnot.1) hnot.2
    exact hno ls' s' hrun hstuck
  · rcases hend with he | hp
    · -- the error stays, and without a launch there is no goroutine
      have hkeep : Sending ids s' ∧ (s'.err = some .establish ∨ s'.err = some .queueNotFound) :=
        hrun.invariant (I := fun x => Sending ids x ∧ (x.err = some .establish ∨ x.err = some .queueNotFound))
          ⟨hsend, he⟩ fun _ _ _ h1 _ hs => ⟨h1.1.step hs, h1.2.imp (h1.1.err_step · hs) (h1.1.err_step · hs)⟩
      exact (hkeep.1.queue_stuck hstuck).1 hkeep.2
    · have hkeep : Sending ids s' ∧ s'.Panics :=
        hrun.invariant (I := fun x => Sending ids x ∧ x.Panics) ⟨hsend, hp⟩
          fun _ _ _ h1 _ hs => ⟨h1.1.step hs, h1.1.panics_step h1.2 hs⟩
      obtain ⟨-, q, e, hone, hother⟩ := hkeep.1.queue_stuck hstuck
      obtain ⟨r, b, rest, hm⟩ := hkeep.2
      by_cases hr : r = q
      · rw [hr, hone] at hm; simp at hm
      · rw [hother r hr] at hm; cases hm

/-- A call of one lane up to `oo.Wait()`. -/
def oneCall : List (Call ℕ) := List.replicate 14 (.act .trans)

/-- Its end after `link.Send` has timed out. -/
def oneCallOver : List (Call ℕ) :=
  List.replicate 3 (Call.act (.linkSend 0 0 .ok)) ++ [Call.act (.linkSend 0 0 .timeout), .act (.linkSend 0 0 .ok),
    .act (.linkDone 0 0)] ++ List.replicate 6 (Call.act .trans)

set_option maxRecDepth 100000 in
/-- `queue.Send` times out as well; nobody takes its hand-off. -/
theorem queue_sender_stuck : ∃ s, Run (Client.serve [7]) anyStep Client.init
      (oneCall ++ List.replicate 3 (.act (.queueSend 0 0 .ok)) ++
        [.act (.queueSend 0 0 .timeout), .act (.queueSend 0 0 .ok)] ++ oneCallOver) s ∧ s.Stuck := by
  have hexec : (exec (Client.serve [7]) (fun _ _ => true) Client.init
      (oneCall ++ List.replicate 3 (.act (.queueSend 0 0 .ok)) ++
        [.act (.queueSend 0 0 .timeout), .act (.queueSend 0 0 .ok)] ++ oneCallOver)).map
      (fun s => decide (s.pc = .returned ∧ .handoff (some .timeout) ∈ s.queues.sends 0)) = some true := by
    decide +kernel
  obtain ⟨s, hrun, hobs⟩ := exists_run_of_exec hexec
  obtain ⟨hpc, hm⟩ := of_decide_eq_true hobs
  exact ⟨s, hrun.mono fun _ _ _ => trivial, hpc, .inl ⟨0, _, hm⟩⟩

/-- A call of one lane whose `Establish` fails, to its end. -/
def failedCall : List (Call ℕ) :=
  List.replicate 5 (Call.act .trans) ++ [Call.act .transFail] ++ List.replicate 6 (Call.act .trans)

set_option maxRecDepth 100000 in
/-- A call whose `Establish` fails returns, and no sender is ever stuck; in a call that has launched its senders,
    `queue.Send` has begun to read when a stuck state is still to come. -/
theorem senders_not_stuck_one_lane :
    (∃ s, Run (Client.serve [7]) anyStep Client.init failedCall s ∧ s.pc = .returned ∧
      ∀ ls' s', Run (Client.serve [7]) anyStep s ls' s' → ¬ s'.Stuck) ∧
    ∃ s, Run (Client.serve [7]) anyStep Client.init (oneCall ++ List.replicate 3 (.act (.queueSend 0 0 .ok))) s ∧
      ¬ ∀ ls' s', Run (Client.serve [7]) anyStep s ls' s' → ¬ s'.Stuck := by
  have hfail : (exec (Client.serve [7]) (fun _ _ => true) Client.init failedCall).map
      (fun s => decide (s.pc = .returned ∧ s.err = some .establish)) = some true := by decide +kernel
  have hcall : (exec (Client.serve [7]) (fun _ _ => true) Client.init
      (oneCall ++ List.replicate 3 (.act (.queueSend 0 0 .ok)))).map
      (fun s => decide (s.pc = .wait 0 ∧ s.err = none ∧ s.queues.sends 0 = [.read (some ⟨0, 7⟩) []])) = some true := by
    decide +kernel
  obtain ⟨s, hs, hobs⟩ := exists_run_of_exec hfail
  obtain ⟨t, ht, hobt⟩ := exists_run_of_exec hcall
  obtain ⟨hpc, herr⟩ := of_decide_eq_true hobs
  obtain ⟨hpt, hert, hsend⟩ := of_decide_eq_true hobt
  have hs' : Run (Client.serve [7]) anyStep Client.init _ s := hs.mono fun _ _ _ => trivial
  have ht' : Run (Client.serve [7]) anyStep Client.init _ t := ht.mono fun _ _ _ => trivial
  refine ⟨⟨s, hs', hpc, ((senders_not_stuck hs').2 (by rw [hpc]; rfl)).mpr (.inl (.inl herr))⟩, t, ht', ?_⟩
  rw [(senders_not_stuck ht').2 (by rw [hpt]; rfl), hert]
  rintro (h | ⟨q, b, rest, hm⟩)
  · simp at h
  · have hsending : Sending [7] t := ht'.invariant Sending.init fun _ _ _ h1 _ h2 => h1.step h2
    have hsender : QueueSender [7] t.queues 0 := hsending.sender (by rw [hpt]; rfl) (by rw [hsend]; exact List.mem_cons_self)
    by_cases hq : q = 0
    · rw [hq, hsend] at hm; simp at hm
    · rw [hsender.others q hq] at hm; cases hm

end Wssocks.Wss

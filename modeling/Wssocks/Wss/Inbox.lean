import Wssocks.Wss.Client
import Wssocks.Wss.ServerSteps

/-!
# Inboxes

Only `recv` looks at the messages that wait on a websocket, and it looks at the first one
on its own. Every other step does the same whatever waits there.

Results:

* `Server.step_withInbox`, `Client.step_withInbox`: a step other than `recv` with other messages in the inboxes.
* `Server.dispatch_withInbox`, `Client.dispatch_withInbox`: so does the handling of a message, once it is taken.
-/

namespace Wssocks.Wss

open Wssocks.Lib Wssocks.Pipe

/-! ## The server -/

section Server

variable {W KSUID : Type} [DecidableEq W] [DecidableEq KSUID]

/-- The server with other messages in its inboxes. -/
def Server.withInbox (s : Server W KSUID) (inbox : W → List (Msg KSUID)) : Server W KSUID := { s with inbox := inbox }

variable {s s' : Server W KSUID} {l : ServerLabel W KSUID} {inbox : W → List (Msg KSUID)} {w : W} {e : ℕ}
  {out : Option (W × Msg KSUID)}

omit [DecidableEq W] in
theorem Server.closeStep_withInbox {id : KSUID} {a : CloseAt} :
    (s.withInbox inbox).closeStep e id a = ((s.closeStep e id a).1.withInbox inbox, (s.closeStep e id a).2) := by
  cases a with
  | test =>
    show (if (s.ests e).closed then _ else _) = _
    unfold Server.closeStep
    split_ifs <;> rfl
  | links => rfl
  | queue => rfl

omit [DecidableEq W] in
theorem Server.closeNext_withInbox {a : CloseAt} : (s.withInbox inbox).closeNext e a = s.closeNext e a := by
  cases a <;> rfl

theorem ReaderStep.withInbox (h : ReaderStep s w s') : ReaderStep (s.withInbox inbox) w (s'.withInbox inbox) := by
  cases h with
  | hi hr => exact .hi hr
  | est hr => exact .est hr
  | refuse hr hst => exact .refuse hr hst
  | test hr hst => exact .test hr hst
  | write hr hp => exact .write hr hp
  | @close e id a hr =>
    have h1 : ReaderStep (s.withInbox inbox) w _ := .close hr
    rw [Server.closeStep_withInbox, Server.closeNext_withInbox] at h1
    exact h1
  | hubClose hr hn =>
    have h1 : ReaderStep (s.withInbox inbox) w _ := .hubClose hr (Server.closeNext_withInbox.trans hn)
    rw [Server.closeStep_withInbox] at h1
    exact h1
  | hubDelete hr hn =>
    have h1 : ReaderStep (s.withInbox inbox) w _ := .hubDelete hr (Server.closeNext_withInbox.trans hn)
    rw [Server.closeStep_withInbox] at h1
    exact h1

theorem EstStep.withInbox (h : EstStep s e s') : EstStep (s.withInbox inbox) e (s'.withInbox inbox) := by
  cases h with
  | linkTrySend hpc => exact .linkTrySend hpc
  | addProxy hpc hlock => exact .addProxy hpc hlock
  | queueTrySend hpc => exact .queueTrySend hpc
  | get hpc => exact .get hpc
  | nilWait hpc hw => exact .nilWait hpc hw
  | wake hpc hw hd => exact .wake hpc hw hd
  | removeProxy hpc hlock => exact .removeProxy hpc hlock
  | connClose hpc => exact .connClose hpc
  | close hpc =>
    have h1 : EstStep (s.withInbox inbox) e _ := .close hpc
    rw [show (s.withInbox inbox).ests = s.ests from rfl, Server.closeStep_withInbox,
      Server.closeNext_withInbox] at h1
    exact h1

omit [DecidableEq W] in
theorem WaiterStep.withInbox (h : WaiterStep s e s') : WaiterStep (s.withInbox inbox) e (s'.withInbox inbox) := by
  cases h with
  | get hw => exact .get hw
  | wake hw hd => exact .wake hw hd

theorem ServerStep.withInbox (h : ServerStep s l s' out) (hl : ∀ w, l ≠ .recv w) :
    ServerStep (s.withInbox inbox) l (s'.withInbox inbox) out := by
  cases h with
  | recv => exact absurd rfl (hl _)
  | reader h => exact .reader h.withInbox
  | writeTimeout hr hb => exact .writeTimeout hr hb
  | disconnect hr => exact .disconnect hr
  | hubClose hr hp => exact .hubClose hr hp
  | stop hr hp => exact .stop hr hp
  | dial he hpc => exact .dial he hpc
  | est he h => exact .est he h.withInbox
  | tell he hpc => exact .tell he hpc
  | waiter he h => exact .waiter he h.withInbox
  | copyRead he h => exact .copyRead he h
  | copy he hw h => exact .copy he hw h
  | copyTimeout he hw h => exact .copyTimeout he hw h
  | linkSend h => exact .linkSend h
  | queueSend h => exact .queueSend h
  | linkDone he hw h => exact .linkDone he hw h
  | queueDone he hpc hw h => exact .queueDone he hpc hw h

/-- Only `recv` looks at the inbox. -/
theorem Server.step_withInbox (hl : ∀ w, l ≠ .recv w) :
    (s.withInbox inbox).step l = (s.step l).map fun r => (r.1.withInbox inbox, r.2) := by
  have hstep : ∀ {s s' : Server W KSUID} {out inbox}, s.step l = some (s', out) →
      (s.withInbox inbox).step l = some (s'.withInbox inbox, out) := by
    intro s s' out inbox h
    obtain ⟨h1, h2, h3⟩ := Server.alive_of_step h
    exact ((ServerStep.of_step h).withInbox hl).step h1 h2 h3
  cases h : s.step l with
  | some r => exact hstep h
  | none =>
    cases h' : (s.withInbox inbox).step l with
    | none => rfl
    | some r =>
      -- the step with the other inboxes is one with these
      have h1 : ((s.withInbox inbox).withInbox s.inbox).step l = some (r.1.withInbox s.inbox, r.2) := hstep h'
      rw [show (s.withInbox inbox).withInbox s.inbox = s from rfl, h] at h1
      cases h1

theorem Server.dispatch_withInbox (m : Msg KSUID) :
    (s.withInbox inbox).dispatch w m = (s.dispatch w m).withInbox inbox := by
  cases m with
  | beats | sayhi | est => rfl
  | finish id =>
    have hpool : (s.withInbox inbox).pool = s.pool := rfl
    simp only [Server.dispatch, hpool]
    cases (s.pool w).lookup id <;> rfl
  | data id tag bytes =>
    have hlinks : (s.withInbox inbox).links = s.links := rfl
    simp only [Server.dispatch, hlinks]
    cases s.links.hub.ref? id <;> rfl

/-- A step other than `recv` leaves the inboxes alone. -/
theorem Server.inbox_of_step (hl : ∀ w, l ≠ .recv w) (h : s.step l = some (s', out)) : s'.inbox = s.inbox := by
  have hsame : (s.withInbox s.inbox).step l = (s.step l).map fun r => (r.1.withInbox s.inbox, r.2) :=
    Server.step_withInbox hl
  rw [show s.withInbox s.inbox = s from rfl, h, Option.map_some, Option.some.injEq, Prod.mk.injEq] at hsame
  rw [hsame.1]
  rfl

theorem Server.inbox_dispatch (m : Msg KSUID) : (s.dispatch w m).inbox = s.inbox := by
  have hsame : s.dispatch w m = (s.dispatch w m).withInbox s.inbox := Server.dispatch_withInbox m
  rw [hsame]
  rfl

/-- A step takes messages off the websockets and puts none there. -/
theorem Server.mem_inbox_of_step {m : Msg KSUID} (h : s.step l = some (s', out)) (hm : m ∈ s'.inbox w) :
    m ∈ s.inbox w := by
  by_cases hl : ∀ v, l ≠ .recv v
  · rwa [Server.inbox_of_step hl h] at hm
  push Not at hl
  obtain ⟨v, rfl⟩ := hl
  cases ServerStep.of_step h with
  | @recv _ x xs hr hi =>
    rw [Server.inbox_dispatch] at hm
    replace hm : m ∈ Function.update s.inbox v xs w := hm
    rw [Function.update_apply] at hm
    split_ifs at hm with hv
    · rw [hv, hi]
      exact List.mem_cons_of_mem _ hm
    · exact hm

end Server

/-! ## The client -/

section Client

variable {KSUID : Type} [DecidableEq KSUID]

/-- The client with other messages in its inboxes. -/
def Client.withInbox (s : Client KSUID) (inbox : ℕ → List (Msg KSUID)) : Client KSUID := { s with inbox := inbox }

variable {ids : List KSUID} {s : Client KSUID} {l : ClientLabel} {inbox : ℕ → List (Msg KSUID)} {i : ℕ}

theorem Client.removeStep_withInbox {id : KSUID} {a : RemoveAt} :
    (s.withInbox inbox).removeStep id a = ((s.removeStep id a).1.withInbox inbox, (s.removeStep id a).2) := by
  cases a with
  | test =>
    show (if s.removed then _ else _) = _
    unfold Client.removeStep
    split_ifs <;> rfl
  | queue => rfl
  | links => rfl

theorem Client.transStep_withInbox [Inhabited KSUID] :
    (s.withInbox inbox).transStep ids = (s.transStep ids).map fun r => (r.1.withInbox inbox, r.2) := by
  have hpc : (s.withInbox inbox).pc = s.pc := rfl
  unfold Client.transStep
  rw [hpc]
  cases s.pc with
  | newProxy i =>
    dsimp only
    split_ifs <;> rfl
  | getQueue =>
    have hqueues : (s.withInbox inbox).queues = s.queues := rfl
    simp only [hqueues]
    cases s.queues.hub.ref? (Client.masterID ids) <;> rfl
  | getLink =>
    have hlinks : (s.withInbox inbox).links = s.links := rfl
    simp only [hlinks]
    cases s.links.hub.ref? (Client.masterID ids) <;> rfl
  | wait o =>
    show (if (s.links.hub.obj o).done then _ else _) = _
    dsimp only
    split_ifs <;> rfl
  | remove a =>
    simp only [Client.removeStep_withInbox]
    rfl
  | cancel i => cases i <;> rfl
  | _ => rfl

theorem Client.transFail_withInbox : (s.withInbox inbox).transFail = s.transFail.map fun s => s.withInbox inbox := by
  have hpc : (s.withInbox inbox).pc = s.pc := rfl
  unfold Client.transFail
  rw [hpc]
  cases s.pc <;> rfl

theorem Client.readerStep_withInbox :
    (s.withInbox inbox).readerStep i = (s.readerStep i).map fun s => s.withInbox inbox := by
  have hreader : (s.withInbox inbox).reader i = s.reader i := rfl
  unfold Client.readerStep
  rw [hreader]
  cases s.reader i with
  | idle => rfl
  | check q b =>
    show (if (s.links.hub.obj q).status = .done then _ else _) = _
    dsimp only
    split_ifs <;> rfl
  | select q b =>
    dsimp only
    rw [Option.map_map]
    rfl
  | remove id a =>
    simp only [Client.removeStep_withInbox]
    rfl

theorem Client.dispatch_withInbox (m : Msg KSUID) :
    (s.withInbox inbox).dispatch ids i m = (s.dispatch ids i m).withInbox inbox := by
  cases m with
  | beats | sayhi | est => rfl
  | finish id =>
    show (if s.registered i ∧ ids[i]? = some id then _ else _) = _
    unfold Client.dispatch
    dsimp only
    split_ifs <;> rfl
  | data id tag bytes =>
    have hlinks : (s.withInbox inbox).links = s.links := rfl
    have hreg : (s.withInbox inbox).registered = s.registered := rfl
    simp only [Client.dispatch, hlinks, hreg]
    split_ifs
    · cases s.links.hub.ref? id <;> cases tag <;> rfl
    · rfl

theorem Client.inbox_dispatch (m : Msg KSUID) : (s.dispatch ids i m).inbox = s.inbox := by
  have hsame : s.dispatch ids i m = (s.dispatch ids i m).withInbox s.inbox := Client.dispatch_withInbox m
  rw [hsame]
  rfl

/-- Only `recv` looks at the inbox. -/
theorem Client.step_withInbox [Inhabited KSUID] (hl : ∀ i, l ≠ .recv i) :
    (s.withInbox inbox).step ids l = (s.step ids l).map fun r => (r.1.withInbox inbox, r.2) := by
  unfold Client.step
  by_cases hc : (s.queues.crashed || s.links.crashed) = true
  · rw [if_pos hc]
    exact if_pos hc
  rw [if_neg hc]
  refine (if_neg hc).trans ?_
  cases l with
  | recv i => exact absurd rfl (hl i)
  | trans => exact Client.transStep_withInbox
  | transFail =>
    dsimp only
    rw [Client.transFail_withInbox, Option.map_map, Option.map_map]
    rfl
  | reader i =>
    dsimp only
    rw [Client.readerStep_withInbox, Option.map_map, Option.map_map]
    rfl
  | writeTimeout i =>
    dsimp only [Client.withInbox]
    cases s.reader i with
    | select q b =>
      dsimp only
      rw [apply_ite (Option.map _)]
      rfl
    | _ => rfl
  | copyRead data er =>
    dsimp only
    rw [Option.map_map]
    rfl
  | copy =>
    dsimp only
    rw [Option.map_map]
    rfl
  | copyTimeout =>
    dsimp only
    rw [Option.map_map]
    rfl
  | tellClose ok =>
    dsimp only
    rw [apply_ite (Option.map _)]
    rfl
  | queueSend q i o =>
    dsimp only
    rw [Option.map_bind]
    refine congrArg (Option.bind _) (funext fun r => ?_)
    obtain ⟨r, out⟩ := r
    cases out with
    | none => rfl
    | some wb =>
      dsimp only [Function.comp_apply]
      rw [apply_ite (Option.map _)]
      rfl
  | linkSend q i o =>
    dsimp only
    rw [Option.map_map]
    rfl
  | linkDone q i =>
    dsimp only
    rw [apply_ite (Option.map _), Option.map_map]
    rfl

theorem Client.inbox_of_step [Inhabited KSUID] {s' : Client KSUID} {out : Option (ℕ × Msg KSUID)} (hl : ∀ i, l ≠ .recv i)
    (h : s.step ids l = some (s', out)) : s'.inbox = s.inbox := by
  have hsame : (s.withInbox s.inbox).step ids l = (s.step ids l).map fun r => (r.1.withInbox s.inbox, r.2) :=
    Client.step_withInbox hl
  rw [show s.withInbox s.inbox = s from rfl, h, Option.map_some, Option.some.injEq, Prod.mk.injEq] at hsame
  rw [hsame.1]
  rfl

end Client

end Wssocks.Wss

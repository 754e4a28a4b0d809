import Wssocks.Wss.Server

/-!
# What a step of the server can be

One case for each operation of each goroutine, with what it requires and the state it leads to. All
that is proved about a step goes through these cases.

Results:

* `ServerStep.of_step`, `ServerStep.step`: a step of the server is one of them, and each of
  them is a step as long as no goroutine has panicked.
-/

namespace Wssocks.Wss

open Wssocks.Lib Wssocks.Pipe

variable {W KSUID : Type} [DecidableEq W] [DecidableEq KSUID]

/-- Where a call of `Close` on instance `e` is after its next operation. -/
def Server.closeNext (s : Server W KSUID) (e : ℕ) : CloseAt → Option CloseAt
  | .test => if (s.ests e).closed then none else some .links
  | .links => some .queue
  | .queue => none

/-- The operations of the reader of `w`. -/
inductive ReaderStep (s : Server W KSUID) (w : W) : Server W KSUID → Prop
  | hi {id m : KSUID} (hr : s.reader w = .hi id m) :
      ReaderStep s w ({ s with links := s.links.add id m }.goReader w .idle)
  | est {id : KSUID} {sorted : List KSUID} (hr : s.reader w = .est id sorted) :
      ReaderStep s w (({ s with links := s.links.setSort id sorted }.goReader w .idle).spawn w id)
  /-- `link.writeBuf` finds the link closed. -/
  | refuse {q : ℕ} {b : Buffer} (hr : s.reader w = .check q b) (hst : (s.links.hub.obj q).status = .done) :
      ReaderStep s w (s.goReader w .idle)
  | test {q : ℕ} {b : Buffer} (hr : s.reader w = .check q b) (hst : (s.links.hub.obj q).status ≠ .done) :
      ReaderStep s w (s.goReader w (.select q b))
  | write {q : ℕ} {b : Buffer} {l : Links KSUID} {ok : Bool} (hr : s.reader w = .select q b)
      (hp : s.links.push q b = some (l, ok)) : ReaderStep s w ({ s with links := l }.goReader w .idle)
  | close {e : ℕ} {id : KSUID} {a : CloseAt} (hr : s.reader w = .close e id a) :
      ReaderStep s w ((s.closeStep e id a).1.goReader w ((s.closeNext e a).elim .idle (.close e id)))
  | hubClose {e : ℕ} {id : KSUID} {a a' : CloseAt} (hr : s.reader w = .hubCloseAt e id a)
      (hn : s.closeNext e a = some a') :
      ReaderStep s w ((s.closeStep e id a).1.goReader w (.hubCloseAt e id a'))
  /-- `hub.Close` deletes the entry it has closed. -/
  | hubDelete {e : ℕ} {id : KSUID} {a : CloseAt} (hr : s.reader w = .hubCloseAt e id a)
      (hn : s.closeNext e a = none) :
      ReaderStep s w ({ (s.closeStep e id a).1 with
        pool := Function.update s.pool w ((s.pool w).erase id) }.goReader w .hubClose)

/-- The operations of `establish` on instance `e`. -/
inductive EstStep (s : Server W KSUID) (e : ℕ) : Server W KSUID → Prop
  | linkTrySend (hpc : (s.ests e).pc = .linkTrySend) :
      EstStep s e ({ s with links := s.links.trySend (s.ests e).id e }.setEst e fun x =>
        { x with pc := .addProxy, waiter := .get })
  | addProxy (hpc : (s.ests e).pc = .addProxy) (hlock : (s.reader (s.ests e).ws).locked = false) :
      EstStep s e ({ s with
        pool := Function.update s.pool (s.ests e).ws ((s.pool (s.ests e).ws).insert (s.ests e).id e) }.setEst e
        fun x => { x with pc := .queueTrySend })
  | queueTrySend (hpc : (s.ests e).pc = .queueTrySend) :
      EstStep s e ({ s with queues := s.queues.trySend (s.ests e).id }.setEst e fun x => { x with pc := .get })
  | get (hpc : (s.ests e).pc = .get) :
      EstStep s e (s.setEst e fun x => { x with
        pc := .wait, writer := s.queues.hub.ref? (s.ests e).id
        copy := if (s.queues.hub.ref? (s.ests e).id).isSome then { pc := .read } else {} })
  /-- `writer.Wait()` with `writer == nil`. -/
  | nilWait (hpc : (s.ests e).pc = .wait) (hw : (s.ests e).writer = none) : EstStep s e { s with crashed := true }
  | wake {q : ℕ} (hpc : (s.ests e).pc = .wait) (hw : (s.ests e).writer = some q)
      (hd : (s.queues.hub.obj q).done = true) : EstStep s e (s.setEst e fun x => { x with pc := .removeProxy })
  | removeProxy (hpc : (s.ests e).pc = .removeProxy) (hlock : (s.reader (s.ests e).ws).locked = false) :
      EstStep s e ({ s with
        pool := Function.update s.pool (s.ests e).ws ((s.pool (s.ests e).ws).erase (s.ests e).id) }.setEst e
        fun x => { x with pc := .connClose })
  | connClose (hpc : (s.ests e).pc = .connClose) :
      EstStep s e ({ s with links := s.links.closeConn e }.setEst e fun x => { x with pc := .close .test })
  | close {a : CloseAt} (hpc : (s.ests e).pc = .close a) :
      EstStep s e ((s.closeStep e (s.ests e).id a).1.setEst e fun x =>
        { x with pc := (s.closeNext e a).elim .tell .close })

/-- The operations of the goroutine that waits for the end of the request. -/
inductive WaiterStep (s : Server W KSUID) (e : ℕ) : Server W KSUID → Prop
  | get (hw : (s.ests e).waiter = .get) :
      WaiterStep s e (s.setEst e fun x => { x with waiter := (s.links.hub.ref? x.id).elim .done .wait })
  | wake {q : ℕ} (hw : (s.ests e).waiter = .wait q) (hd : (s.links.hub.obj q).done = true) :
      WaiterStep s e (s.setEst e fun x => { x with waiter := .done })

/-- The steps of the server, with the message each sends. -/
inductive ServerStep (s : Server W KSUID) :
    ServerLabel W KSUID → Server W KSUID → Option (W × Msg KSUID) → Prop
  | recv {w : W} {x : Msg KSUID} {xs : List (Msg KSUID)} (hr : s.reader w = .idle) (hin : s.inbox w = x :: xs) :
      ServerStep s (.recv w) ({ s with inbox := Function.update s.inbox w xs }.dispatch w x) none
  | reader {w : W} {s' : Server W KSUID} (h : ReaderStep s w s') : ServerStep s (.reader w) s' none
  | writeTimeout {w : W} {q : ℕ} {b : Buffer} (hr : s.reader w = .select q b)
      (hb : (s.links.hub.obj q).buffer.closed = false ∧ (s.links.hub.obj q).buffer.full = true) :
      ServerStep s (.writeTimeout w) (s.goReader w .idle) none
  | disconnect {w : W} (hr : s.reader w = .idle) : ServerStep s (.disconnect w) (s.goReader w .hubClose) none
  | hubClose {w : W} {id : KSUID} {e : ℕ} (hr : s.reader w = .hubClose) (hp : (s.pool w).lookup id = some e) :
      ServerStep s (.hubClose w (some id)) (s.goReader w (.hubCloseAt e id .test)) none
  | stop {w : W} (hr : s.reader w = .hubClose) (hp : (s.pool w).entries = []) :
      ServerStep s (.hubClose w none) (s.goReader w .stopped) none
  | dial {e : ℕ} {o : Dial} (he : e < s.nextEst) (hpc : (s.ests e).pc = .dial) :
      ServerStep s (.dial e o)
        (s.setEst e fun x => { x with pc := if o = .connected then .linkTrySend else .tell }) none
  | est {e : ℕ} {s' : Server W KSUID} (he : e < s.nextEst) (h : EstStep s e s') : ServerStep s (.est e) s' none
  | tell {e : ℕ} {ok : Bool} (he : e < s.nextEst) (hpc : (s.ests e).pc = .tell) :
      ServerStep s (.tell e ok) (s.setEst e fun x => { x with pc := .returned })
        (if ok then some ((s.ests e).ws, .finish (s.ests e).id) else none)
  | waiter {e : ℕ} {s' : Server W KSUID} (he : e < s.nextEst) (h : WaiterStep s e s') :
      ServerStep s (.waiter e) s' none
  | copyRead {e : ℕ} {data : List UInt8} {er : ReadEnd} {c : Copy} (he : e < s.nextEst)
      (h : (s.ests e).copy.read data er = some c) :
      ServerStep s (.copyRead e data er) (s.setEst e fun x => { x with copy := c }) none
  | copy {e q : ℕ} {c : Copy} {qs : Queues KSUID (WsWriter W KSUID)} (he : e < s.nextEst)
      (hw : (s.ests e).writer = some q) (h : (s.ests e).copy.step s.queues q = some (c, qs)) :
      ServerStep s (.copy e) ({ s with queues := qs }.setEst e fun x => { x with copy := c }) none
  | copyTimeout {e q : ℕ} {c : Copy} (he : e < s.nextEst) (hw : (s.ests e).writer = some q)
      (h : (s.ests e).copy.timeout s.queues q = some c) :
      ServerStep s (.copyTimeout e) (s.setEst e fun x => { x with copy := c }) none
  | linkSend {q i : ℕ} {o : Outcome} {l : Links KSUID} (h : s.links.send q i o = some l) :
      ServerStep s (.linkSend q i o) { s with links := l } none
  | queueSend {q i : ℕ} {o : Outcome} {qs : Queues KSUID (WsWriter W KSUID)}
      {msg : Option (WsWriter W KSUID × Buffer)} (h : s.queues.send q i o = some (qs, msg)) :
      ServerStep s (.queueSend q i o) { s with queues := qs } (msg.map fun wb => WsWriter.msg wb.1 wb.2)
  | linkDone {q i e : ℕ} {l : Links KSUID} (he : e < s.nextEst) (hw : (s.ests e).waiter = .wait q)
      (h : s.links.handoff q i = some l) :
      ServerStep s (.linkDone q i e) ({ s with links := l }.setEst e fun x => { x with waiter := .done }) none
  | queueDone {q i e : ℕ} {qs : Queues KSUID (WsWriter W KSUID)} (he : e < s.nextEst)
      (hpc : (s.ests e).pc = .wait) (hw : (s.ests e).writer = some q) (h : s.queues.handoff q i = some qs) :
      ServerStep s (.queueDone q i e)
        ({ s with queues := qs }.setEst e fun x => { x with pc := .removeProxy }) none

variable {s s' : Server W KSUID} {l : ServerLabel W KSUID} {out : Option (W × Msg KSUID)} {w : W} {e : ℕ}

/-! ## Every step is one of these -/

omit [DecidableEq W] in
theorem closeStep_next (e : ℕ) (id : KSUID) (a : CloseAt) : (s.closeStep e id a).2 = s.closeNext e a := by
  cases a with
  | test => simp only [Server.closeStep, Server.closeNext]; split_ifs <;> rfl
  | links | queue => rfl

theorem ReaderStep.of_readerStep (h : s.readerStep w = some s') : ReaderStep s w s' := by
  cases hr : s.reader w with
  | idle | hubClose | stopped => simp [Server.readerStep, hr] at h
  | hi id m =>
    simp only [Server.readerStep, hr, Option.some.injEq] at h
    exact h ▸ .hi hr
  | est id sorted =>
    simp only [Server.readerStep, hr, Option.some.injEq] at h
    exact h ▸ .est hr
  | check q b =>
    simp only [Server.readerStep, hr] at h
    split_ifs at h with hst <;> cases h
    · exact .refuse hr hst
    · exact .test hr hst
  | select q b =>
    simp only [Server.readerStep, hr, Option.map_eq_some_iff] at h
    obtain ⟨⟨l, ok⟩, hp, rfl⟩ := h
    exact .write hr hp
  | close e id a =>
    simp only [Server.readerStep, hr, Option.some.injEq, closeStep_next] at h
    exact h ▸ .close hr
  | hubCloseAt e id a =>
    simp only [Server.readerStep, hr, closeStep_next] at h
    cases hn : s.closeNext e a with
    | none => rw [hn] at h; cases h; exact .hubDelete hr hn
    | some a' => rw [hn] at h; cases h; exact .hubClose hr hn

theorem EstStep.of_estStep (h : s.estStep e = some s') : EstStep s e s' := by
  cases hpc : (s.ests e).pc with
  | dial | tell | returned => simp [Server.estStep, hpc] at h
  | linkTrySend =>
    simp only [Server.estStep, hpc, Option.some.injEq] at h
    exact h ▸ .linkTrySend hpc
  | addProxy =>
    simp only [Server.estStep, hpc] at h
    split_ifs at h with hlock
    cases h
    exact .addProxy hpc (by simpa using hlock)
  | queueTrySend =>
    simp only [Server.estStep, hpc, Option.some.injEq] at h
    exact h ▸ .queueTrySend hpc
  | get =>
    simp only [Server.estStep, hpc, Option.some.injEq] at h
    exact h ▸ .get hpc
  | wait =>
    cases hw : (s.ests e).writer with
    | none =>
      simp only [Server.estStep, hpc, hw, Option.some.injEq] at h
      exact h ▸ .nilWait hpc hw
    | some q =>
      simp only [Server.estStep, hpc, hw] at h
      split_ifs at h with hd
      cases h
      exact .wake hpc hw hd
  | removeProxy =>
    simp only [Server.estStep, hpc] at h
    split_ifs at h with hlock
    cases h
    exact .removeProxy hpc (by simpa using hlock)
  | connClose =>
    simp only [Server.estStep, hpc, Option.some.injEq] at h
    exact h ▸ .connClose hpc
  | close a =>
    simp only [Server.estStep, hpc, Option.some.injEq, closeStep_next] at h
    exact h ▸ .close hpc

omit [DecidableEq W] in
theorem WaiterStep.of_waiterStep (h : s.waiterStep e = some s') : WaiterStep s e s' := by
  cases hw : (s.ests e).waiter with
  | idle | done => simp [Server.waiterStep, hw] at h
  | get =>
    simp only [Server.waiterStep, hw, Option.some.injEq] at h
    exact h ▸ .get hw
  | wait q =>
    simp only [Server.waiterStep, hw] at h
    split_ifs at h with hd
    cases h
    exact .wake hw hd

/-- The process steps only while no goroutine has panicked. -/
theorem Server.alive_of_step (h : s.step l = some (s', out)) :
    s.crashed = false ∧ s.queues.crashed = false ∧ s.links.crashed = false := by
  obtain ⟨hc, -⟩ := Option.ite_none_left_eq_some.mp h
  simpa [and_assoc] using hc

theorem ServerStep.of_step (h : s.step l = some (s', out)) : ServerStep s l s' out := by
  obtain ⟨-, h⟩ := Option.ite_none_left_eq_some.mp h
  cases l with
  | recv w =>
    simp only at h
    split at h
    · rename_i x xs hr hin
      cases h
      exact .recv hr hin
    · cases h
  | reader w =>
    obtain ⟨_, h1, h2⟩ := Option.map_eq_some_iff.mp h
    cases h2
    exact .reader (ReaderStep.of_readerStep h1)
  | writeTimeout w =>
    simp only at h
    split at h
    · rename_i q b hr
      obtain ⟨hb, h⟩ := Option.ite_none_right_eq_some.mp h
      cases h
      exact .writeTimeout hr hb
    · cases h
  | disconnect w =>
    obtain ⟨hr, h⟩ := Option.ite_none_right_eq_some.mp h
    cases h
    exact .disconnect hr
  | hubClose w id =>
    obtain ⟨hr, h⟩ := Option.ite_none_right_eq_some.mp h
    cases id with
    | some id =>
      obtain ⟨e, hp, h2⟩ := Option.map_eq_some_iff.mp h
      cases h2
      exact .hubClose hr hp
    | none =>
      obtain ⟨hp, h⟩ := Option.ite_none_right_eq_some.mp h
      cases h
      exact .stop hr hp
  | dial e o =>
    obtain ⟨⟨he, hpc⟩, h⟩ := Option.ite_none_right_eq_some.mp h
    cases h
    exact .dial he hpc
  | est e =>
    obtain ⟨he, h⟩ := Option.ite_none_right_eq_some.mp h
    obtain ⟨_, h1, h2⟩ := Option.map_eq_some_iff.mp h
    cases h2
    exact .est he (EstStep.of_estStep h1)
  | tell e ok =>
    obtain ⟨⟨he, hpc⟩, h⟩ := Option.ite_none_right_eq_some.mp h
    cases h
    exact .tell he hpc
  | waiter e =>
    obtain ⟨he, h⟩ := Option.ite_none_right_eq_some.mp h
    obtain ⟨_, h1, h2⟩ := Option.map_eq_some_iff.mp h
    cases h2
    exact .waiter he (WaiterStep.of_waiterStep h1)
  | copyRead e data er =>
    obtain ⟨he, h⟩ := Option.ite_none_right_eq_some.mp h
    obtain ⟨_, h1, h2⟩ := Option.map_eq_some_iff.mp h
    cases h2
    exact .copyRead he h1
  | copy e =>
    obtain ⟨he, h⟩ := Option.ite_none_right_eq_some.mp h
    obtain ⟨q, hw, h⟩ := Option.bind_eq_some_iff.mp h
    obtain ⟨⟨c, qs⟩, h1, h2⟩ := Option.map_eq_some_iff.mp h
    cases h2
    exact .copy he hw h1
  | copyTimeout e =>
    obtain ⟨he, h⟩ := Option.ite_none_right_eq_some.mp h
    obtain ⟨q, hw, h⟩ := Option.bind_eq_some_iff.mp h
    obtain ⟨_, h1, h2⟩ := Option.map_eq_some_iff.mp h
    cases h2
    exact .copyTimeout he hw h1
  | linkSend q i o =>
    obtain ⟨_, h1, h2⟩ := Option.map_eq_some_iff.mp h
    cases h2
    exact .linkSend h1
  | queueSend q i o =>
    obtain ⟨⟨qs, msg⟩, h1, h2⟩ := Option.map_eq_some_iff.mp h
    cases h2
    exact .queueSend h1
  | linkDone q i e =>
    obtain ⟨⟨he, hw⟩, h⟩ := Option.ite_none_right_eq_some.mp h
    obtain ⟨_, h1, h2⟩ := Option.map_eq_some_iff.mp h
    cases h2
    exact .linkDone he hw h1
  | queueDone q i e =>
    obtain ⟨⟨he, hpc, hw⟩, h⟩ := Option.ite_none_right_eq_some.mp h
    obtain ⟨_, h1, h2⟩ := Option.map_eq_some_iff.mp h
    cases h2
    exact .queueDone he hpc hw h1

/-! ## Each of these is a step -/

theorem ReaderStep.readerStep (h : ReaderStep s w s') : s.readerStep w = some s' := by
  cases h with
  | hi hr | est hr => rw [Server.readerStep, hr]
  | refuse hr hst => simp only [Server.readerStep, hr, if_pos hst]
  | test hr hst => simp only [Server.readerStep, hr, if_neg hst]
  | write hr hp => simp only [Server.readerStep, hr, hp, Option.map_some]
  | close hr => simp only [Server.readerStep, hr, closeStep_next]
  | hubClose hr hn | hubDelete hr hn => simp only [Server.readerStep, hr, closeStep_next, hn]

theorem EstStep.estStep (h : EstStep s e s') : s.estStep e = some s' := by
  cases h with
  | linkTrySend hpc | queueTrySend hpc | get hpc | connClose hpc => simp only [Server.estStep, hpc]
  | addProxy hpc hlock | removeProxy hpc hlock =>
    simp only [Server.estStep, hpc, hlock, Bool.false_eq_true, if_false]
  | nilWait hpc hw => simp only [Server.estStep, hpc, hw]
  | wake hpc hw hd => simp only [Server.estStep, hpc, hw, hd, if_true]
  | close hpc => simp only [Server.estStep, hpc, closeStep_next]

omit [DecidableEq W] in
theorem WaiterStep.waiterStep (h : WaiterStep s e s') : s.waiterStep e = some s' := by
  cases h with
  | get hw => simp only [Server.waiterStep, hw]
  | wake hw hd => simp only [Server.waiterStep, hw, hd, if_true]

theorem ServerStep.step (h : ServerStep s l s' out) (hs : s.crashed = false) (hq : s.queues.crashed = false)
    (hl : s.links.crashed = false) : s.step l = some (s', out) := by
  have hc : ¬ (s.crashed || s.queues.crashed || s.links.crashed) = true := by simp [hs, hq, hl]
  refine (if_neg hc).trans ?_
  cases h with
  | recv hr hin => simp only [hr, hin]
  | reader h => simp only [h.readerStep, Option.map_some]
  | writeTimeout hr hb => simp only [hr, if_pos hb]
  | disconnect hr => simp only [if_pos hr]
  | hubClose hr hp => simp only [if_pos hr, hp, Option.map_some]
  | stop hr hp => simp only [if_pos hr, if_pos hp]
  | dial he hpc => exact if_pos ⟨he, hpc⟩
  | est he h => simp only [if_pos he, h.estStep, Option.map_some]
  | tell he hpc => exact if_pos ⟨he, hpc⟩
  | waiter he h => simp only [if_pos he, h.waiterStep, Option.map_some]
  | copyRead he h => simp only [if_pos he, h, Option.map_some]
  | copy he hw h | copyTimeout he hw h => simp only [if_pos he, hw, h, Option.bind_some, Option.map_some]
  | linkSend h | queueSend h => simp only [h, Option.map_some]
  | linkDone he hw h => simp only [he, hw, h, and_self, if_true, Option.map_some]
  | queueDone he hpc hw h => simp only [he, hpc, hw, h, and_self, if_true, Option.map_some]

end Wssocks.Wss

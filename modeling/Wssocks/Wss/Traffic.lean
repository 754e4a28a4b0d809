import Wssocks.Pipe.Life
import Wssocks.Wss.Ops

/-!
# The server under arbitrary traffic

`Server.serve` is the server together with clients that send what they like: any message may
arrive on any websocket at any time.

Results:

* `Server.queues_alive`, `Server.links_alive`: a run of the server is a run of the actions on
  its hubs, so the law of the life cycle holds for its pipes.
* `Known.step`, `Known.allowed`: every hub operation goes back to a message that arrived.
-/

namespace Wssocks.Wss

open Wssocks.Lib Wssocks.Pipe

variable {W KSUID : Type} [DecidableEq W] [DecidableEq KSUID]

/-- A message arrives, or the server takes a step. -/
inductive Traffic (W KSUID : Type) where
  | arrive (w : W) (x : Msg KSUID)
  | act (l : ServerLabel W KSUID)
  deriving DecidableEq, Repr

/-- One step of the server and its clients; what the server sends is dropped. -/
def Server.serve (s : Server W KSUID) : Traffic W KSUID → Option (Server W KSUID)
  | .arrive w x => some (s.arrive w x)
  | .act l => (s.step l).map Prod.fst

/-- The action of a step on the queues, and on the links. -/
def Traffic.queueAct (s : Server W KSUID) : Traffic W KSUID → Option (QueueAct KSUID (WsWriter W KSUID))
  | .arrive _ _ => none
  | .act l => s.queueAct l

@[inherit_doc Traffic.queueAct]
def Traffic.linkAct (s : Server W KSUID) : Traffic W KSUID → Option (LinkAct KSUID)
  | .arrive _ _ => none
  | .act l => s.linkAct l

/-- No goroutine executes its entry test on a closed pipe. -/
def Traffic.fair (s : Server W KSUID) : Traffic W KSUID → Prop
  | .act (.queueSend q i _) =>
    (s.queues.sends q)[i]? = some .entry → (s.queues.hub.obj q).status ≠ .close
  | .act (.linkSend q i _) =>
    (s.links.sends q)[i]? = some .entry → (s.links.hub.obj q).status ≠ .close
  | _ => True

variable {s s' : Server W KSUID} {l : Traffic W KSUID} {ls : List (Traffic W KSUID)}

theorem Server.serve_act {a : ServerLabel W KSUID} (h : s.serve (.act a) = some s') :
    ∃ out, s.step a = some (s', out) := by
  obtain ⟨⟨s1, out⟩, h1, rfl⟩ := Option.map_eq_some_iff.mp h
  exact ⟨out, h1⟩

theorem ServerStep.serve {a : ServerLabel W KSUID} {out : Option (W × Msg KSUID)} (h : ServerStep s a s' out)
    (hs : s.crashed = false) (hq : s.queues.crashed = false) (hl : s.links.crashed = false) :
    s.serve (.act a) = some s' := by
  rw [Server.serve, h.step hs hq hl]
  rfl

theorem Server.acts_of_serve (h : s.serve l = some s') : ActsOn s s' (l.queueAct s) (l.linkAct s) := by
  cases l with
  | arrive w x => cases h; exact ⟨rfl, rfl⟩
  | act a =>
    obtain ⟨out, h1⟩ := Server.serve_act h
    exact Server.acts_of_step h1

omit [DecidableEq W] in
theorem HubOp.queueAct_fair {o : HubOp W KSUID} {a : QueueAct KSUID (WsWriter W KSUID)}
    {qs : Queues KSUID (WsWriter W KSUID)} (h : o.queueAct = some a) : QueueAct.fair qs a := by
  cases o <;> cases h <;> trivial

omit [DecidableEq W] in
theorem HubOp.linkAct_fair {o : HubOp W KSUID} {a : LinkAct KSUID} {ks : Links KSUID}
    (h : o.linkAct = some a) : LinkAct.fair ks a := by
  cases o <;> cases h <;> trivial

omit [DecidableEq W] in
theorem Traffic.fair_queueAct {a : QueueAct KSUID (WsWriter W KSUID)} (hf : l.fair s)
    (h : l.queueAct s = some a) : QueueAct.fair s.queues a := by
  cases l with
  | arrive w x => cases h
  | act b =>
    cases b with
    | queueSend q i o => cases h; exact hf
    | queueDone q i e => cases h; trivial
    | copy e =>
      simp only [Traffic.queueAct, Server.queueAct, Option.bind_eq_some_iff, Option.map_eq_some_iff] at h
      obtain ⟨q, -, b, -, rfl⟩ := h
      trivial
    | _ =>
      simp only [Traffic.queueAct, Server.queueAct, Option.bind_eq_some_iff] at h
      obtain ⟨o, -, ho⟩ := h
      exact HubOp.queueAct_fair ho

omit [DecidableEq W] in
theorem Traffic.fair_linkAct {a : LinkAct KSUID} (hf : l.fair s) (h : l.linkAct s = some a) :
    LinkAct.fair s.links a := by
  cases l with
  | arrive w x => cases h
  | act b =>
    cases b with
    | linkSend q i o => cases h; exact hf
    | linkDone q i e => cases h; trivial
    | reader w | est e =>
      simp only [Traffic.linkAct, Server.linkAct] at h
      split at h
      · cases h; trivial
      · obtain ⟨o, -, ho⟩ := Option.bind_eq_some_iff.mp h
        exact HubOp.linkAct_fair ho
    | _ =>
      simp only [Traffic.linkAct, Server.linkAct, Option.bind_eq_some_iff] at h
      obtain ⟨o, -, ho⟩ := h
      exact HubOp.linkAct_fair ho

/-- The queues of a server on which entry tests are fair live by the law. -/
theorem Server.queues_alive [Inhabited KSUID] [Inhabited W]
    (h : Run Server.serve (fun s l => l.fair s) (Server.init : Server W KSUID) ls s) :
    Alive Queue.mark s.queues.hub s.queues.sends := by
  obtain ⟨as, hr⟩ := h.simulate (f := Server.queues) (fun a l b _ hs => (Server.acts_of_serve hs).1)
    fun a l x hf hx => Traffic.fair_queueAct hf hx
  exact Queues.alive hr

theorem Server.links_alive [Inhabited KSUID] [Inhabited W]
    (h : Run Server.serve (fun s l => l.fair s) (Server.init : Server W KSUID) ls s) :
    Alive Link.mark s.links.hub s.links.sends := by
  obtain ⟨as, hr⟩ := h.simulate (f := Server.links) (fun a l b _ hs => (Server.acts_of_serve hs).2)
    fun a l x hf hx => Traffic.fair_linkAct hf hx
  exact Links.alive hr

/-! ## Where the operations come from -/

/-- The handshake message a reader is in the middle of. -/
def Reader.msg? : Reader KSUID → Option (Msg KSUID)
  | .hi id m => some (.sayhi id m)
  | .est id sorted => some (.est id sorted)
  | _ => none

omit [DecidableEq KSUID] in
theorem Reader.msg?_of_shakes {r : Reader KSUID} (h : r.shakes = false) : r.msg? = none := by
  cases r <;> first | rfl | cases h

/-- All messages the server has to do with satisfy `P`. -/
structure Known (P : Msg KSUID → Prop) (s : Server W KSUID) : Prop where
  inbox : ∀ w, ∀ x ∈ s.inbox w, P x
  reader : ∀ w x, (s.reader w).msg? = some x → P x
  ests : ∀ e < s.nextEst, ∃ sorted, P (.est (s.ests e).id sorted)

variable {P : Msg KSUID → Prop}

omit [DecidableEq W] in
theorem Known.init [Inhabited KSUID] [Inhabited W] : Known P (Server.init : Server W KSUID) := ⟨nofun, nofun, nofun⟩

theorem Known.arrive {w : W} {x : Msg KSUID} (h : Known P s) (hx : P x) : Known P (s.arrive w x) where
  inbox := by
    intro v y hy
    replace hy : y ∈ Function.update s.inbox w (s.inbox w ++ [x]) v := hy
    by_cases hv : v = w
    · subst hv
      rw [Function.update_self] at hy
      rcases List.mem_append.mp hy with h1 | h1
      · exact h.inbox v y h1
      · rw [List.mem_singleton.mp h1]; exact hx
    · rw [Function.update_of_ne hv] at hy
      exact h.inbox v y hy
  reader := h.reader
  ests := h.ests

omit [DecidableEq W] in
theorem Known.kept (h : Known P s) (hk : Kept s s') : Known P s' where
  inbox := by rw [hk.inbox]; exact h.inbox
  reader := by
    intro w x hx
    rcases hk.reader w with h1 | ⟨-, h1⟩
    · rw [h1] at hx; exact h.reader w x hx
    · rw [Reader.msg?_of_shakes h1] at hx; cases hx
  ests := by
    intro e he
    rw [hk.nextEst] at he
    rw [(hk.ests e).2]
    exact h.ests e he

/-- A reader moves on; `x` is the message it works on then. -/
theorem Known.goReader {w : W} {r : Reader KSUID} (h : Known P s) (hr : ∀ x, r.msg? = some x → P x) :
    Known P (s.goReader w r) where
  inbox := h.inbox
  reader := by
    intro v x hx
    replace hx : (Function.update s.reader w r v).msg? = some x := hx
    by_cases hv : v = w
    · subst hv; rw [Function.update_self] at hx; exact hr x hx
    · rw [Function.update_of_ne hv] at hx; exact h.reader v x hx
  ests := h.ests

theorem Known.recv {w : W} {x : Msg KSUID} {xs : List (Msg KSUID)} (h : Known P s)
    (hin : s.inbox w = x :: xs) :
    Known P ({ s with inbox := Function.update s.inbox w xs }.dispatch w x) := by
  have hx : P x := h.inbox w x (by rw [hin]; exact List.mem_cons_self)
  have hpop : ∀ {q : Queues KSUID (WsWriter W KSUID)},
      Known P { s with inbox := Function.update s.inbox w xs, queues := q } := by
    intro q
    refine ⟨fun v y hy => ?_, h.reader, h.ests⟩
    replace hy : y ∈ Function.update s.inbox w xs v := hy
    by_cases hv : v = w
    · subst hv
      rw [Function.update_self] at hy
      exact h.inbox v y (by rw [hin]; exact List.mem_cons_of_mem _ hy)
    · rw [Function.update_of_ne hv] at hy
      exact h.inbox v y hy
  cases x with
  | beats => exact hpop
  | finish id | data id tag bytes =>
    simp only [Server.dispatch]
    split
    · exact hpop.goReader fun _ hm => by cases hm
    · exact hpop
  | sayhi id m | est id sorted => 
    refine hpop.goReader fun _ hm => ?_
    cases hm
    exact hx

theorem Known.reader_step {w : W} (h : Known P s) (hs : ReaderStep s w s') : Known P s' := by
  by_cases hsh : (s.reader w).shakes = false
  · exact h.kept (hs.kept hsh)
  cases hs with
  | @hi id m =>
    exact Known.goReader (s := { s with links := s.links.add id m }) ⟨h.inbox, h.reader, h.ests⟩
      fun _ hm => by cases hm
  | @est id sorted hr =>
    have hg : Known P ({ s with links := s.links.setSort id sorted }.goReader w .idle) :=
      Known.goReader (s := { s with links := s.links.setSort id sorted }) ⟨h.inbox, h.reader, h.ests⟩
        fun _ hm => by cases hm
    refine ⟨hg.inbox, hg.reader, fun e he => ?_⟩
    show ∃ so, P (.est (Function.update s.ests s.nextEst (newEst w id) e).id so)
    replace he : e < s.nextEst + 1 := he
    by_cases hn : e = s.nextEst
    · subst hn
      rw [Function.update_self]
      exact ⟨sorted, h.reader w _ (by rw [hr]; rfl)⟩
    · rw [Function.update_of_ne hn]
      exact h.ests e (by omega)
  | refuse hr | test hr | write hr | close hr | hubClose hr | hubDelete hr => exact absurd (by rw [hr]; rfl) hsh

theorem Known.step (h : Known P s) (hl : ∀ w x, l = .arrive w x → P x) (hs : s.serve l = some s') :
    Known P s' := by
  cases l with
  | arrive w x => cases hs; exact h.arrive (hl w x rfl)
  | act a =>
    obtain ⟨out, h1⟩ := Server.serve_act hs
    cases ServerStep.of_step h1 with
    | recv hr hin => exact h.recv hin
    | reader h2 => exact h.reader_step h2
    | _ => exact h.kept (Server.kept_of_step h1 (fun _ hw => by cases hw) fun _ hw => by cases hw)

/-- The message an operation goes back to satisfies `P`. -/
def HubOp.Allowed (P : Msg KSUID → Prop) : HubOp W KSUID → Prop
  | .queueAdd m id _ | .linkAdd id m => P (.sayhi id m)
  | .queueSort m sort | .linkSort m sort => P (.est m sort)
  | .queueTry m | .linkTry m _ => ∃ sort, P (.est m sort)
  | _ => True

omit [DecidableEq W] [DecidableEq KSUID] in
theorem CloseAt.op_allowed {a : CloseAt} {id : KSUID} {o : HubOp W KSUID} (h : a.op id = some o) :
    o.Allowed P := by
  cases a <;> cases h <;> trivial

theorem Known.allowed {a : ServerLabel W KSUID} {out : Option (W × Msg KSUID)} {o : HubOp W KSUID}
    (h : Known P s) (hs : s.step a = some (s', out)) (ho : s.op a = some o) : o.Allowed P := by
  cases a with
  | recv w =>
    simp only [Server.op, Option.bind_eq_some_iff] at ho
    obtain ⟨x, hx, ho⟩ := ho
    have hp := h.inbox w x (List.mem_of_mem_head? hx)
    cases x <;> cases ho <;> exact hp
  | reader w =>
    simp only [Server.op] at ho
    cases hr : s.reader w with
    | hi id m => rw [hr] at ho; cases ho; exact h.reader w _ (by rw [hr]; rfl)
    | est id sorted => rw [hr] at ho; cases ho; exact h.reader w _ (by rw [hr]; rfl)
    | close e id a => rw [hr] at ho; exact CloseAt.op_allowed ho
    | hubCloseAt e id a => rw [hr] at ho; exact CloseAt.op_allowed ho
    | _ => rw [hr] at ho; cases ho
  | est e =>
    have he := (Server.dialing_of_est hs).1
    simp only [Server.op] at ho
    cases hpc : (s.ests e).pc with
    | linkTrySend | queueTrySend => rw [hpc] at ho; cases ho; exact h.ests e he
    | close a => rw [hpc] at ho; exact CloseAt.op_allowed ho
    | _ => rw [hpc] at ho; cases ho
  | _ => cases ho

end Wssocks.Wss

import Wssocks.Pipe.Chunks
import Wssocks.Wss.ClientOps
import Wssocks.Wss.Framed
import Wssocks.Wss.System

/-!
# A session over frames

The client and the server of a session, joined by frames. `System.framed` is a session with
its messages written as frames: what the two sides send is read back as it was, and no
frame is over a read limit, so the session over frames takes the same steps.

Results:

* `System.Small.step`: the messages of a session stay as small as the buffer of `CopyBuffer`.
* `framed_session`: a session over frames goes exactly as the session over messages.
-/

namespace Wssocks.Wss

open Wssocks.Lib Wssocks.Pipe

/-! ## The two sides -/

variable {KSUID : Type} [DecidableEq KSUID]

section Server

variable {W : Type} [DecidableEq W] [Inhabited KSUID] (K : KsuidLib KSUID) (L : WebsocketLib)

/-- The server with its messages as frames. -/
def Server.framed (addr : List UInt8) (s : Server W KSUID) : WireServer W KSUID :=
  ⟨s.withInbox fun _ => [], fun w => (s.inbox w).map (Msg.frame K L addr)⟩

variable {K L} {addr : List UInt8} {n : ℕ} {s : Server W KSUID} {l : ServerLabel W KSUID}

theorem Server.framed_arrive (w : W) (m : Msg KSUID) :
    (s.arrive w m).framed K L addr = (s.framed K L addr).arrive w (m.frame K L addr) := by
  have hframes : (fun v => (Function.update s.inbox w (s.inbox w ++ [m]) v).map (Msg.frame K L addr)) =
      Function.update (fun v => (s.inbox v).map (Msg.frame K L addr)) w
        ((s.inbox w).map (Msg.frame K L addr) ++ [m.frame K L addr]) := by
    funext v
    rw [Function.apply_update (fun _ => List.map (Msg.frame K L addr)), List.map_append]
    rfl
  exact congrArg (WireServer.mk (s.withInbox fun _ => [])) hframes

/-- The server takes a message off its websocket as it takes its frame. -/
theorem Server.recv_framed (haddr : addr.length ≤ 1024) (hn : n ≤ 2 ^ 15)
    (hsmall : ∀ w, ∀ m ∈ s.inbox w, m.Small n) (w : W) :
    (s.framed K L addr).step K L (.recv w) = (s.step (.recv w)).map fun r => (r.1.framed K L addr, r.2) := by
  have hfields : (s.framed K L addr).server.reader = s.reader ∧
      (s.framed K L addr).frames = fun w => (s.inbox w).map (Msg.frame K L addr) := ⟨rfl, rfl⟩
  simp only [WireServer.step, Server.step]
  by_cases hc : (s.crashed || s.queues.crashed || s.links.crashed) = true
  · rw [if_pos hc]
    exact if_pos hc
  rw [if_neg hc]
  refine (if_neg hc).trans ?_
  simp only [hfields]
  cases hr : s.reader w <;> try rfl
  cases hi : s.inbox w with
  | nil => rfl
  | cons m ms =>
    have hm := hsmall w m (hi ▸ List.mem_cons_self)
    have hlimit : ¬ L.refuses serverLimit (m.frame K L addr) = true := fun h =>
      absurd (length_frame_le haddr hn hm) (not_le.mpr (L.limit_lt _ _ h))
    have htail : Function.update (fun v => (s.inbox v).map (Msg.frame K L addr)) w (ms.map (Msg.frame K L addr)) =
        fun v => (Function.update s.inbox w ms v).map (Msg.frame K L addr) :=
      (funext fun v => Function.apply_update (fun _ => List.map (Msg.frame K L addr)) s.inbox w ms v).symm
    simp only [List.map_cons, if_neg hlimit, Option.map_some, Server.dispatchMessage_fst,
      serverReads_frame hm, htail]
    have hserver : (s.framed K L addr).server.dispatch w m =
        (({ s with inbox := Function.update s.inbox w ms } : Server W KSUID).dispatch w m).withInbox fun _ => [] :=
      Server.dispatch_withInbox (s := { s with inbox := Function.update s.inbox w ms }) m
    have hinbox : (({ s with inbox := Function.update s.inbox w ms } : Server W KSUID).dispatch w m).inbox =
        Function.update s.inbox w ms := Server.inbox_dispatch m
    rw [hserver, Server.framed, hinbox]

/-- The server over frames does what the server does over messages. -/
theorem Server.step_framed (haddr : addr.length ≤ 1024) (hn : n ≤ 2 ^ 15)
    (hsmall : ∀ w, ∀ m ∈ s.inbox w, m.Small n) :
    (s.framed K L addr).step K L l = (s.step l).map fun r => (r.1.framed K L addr, r.2) := by
  by_cases hl : ∀ w, l ≠ .recv w
  · have hserver : (s.framed K L addr).server = s.withInbox fun _ => [] := rfl
    rw [WireServer.step_act hl, hserver, Server.step_withInbox hl, Option.map_map]
    cases hs : s.step l with
    | none => rfl
    | some r => simp only [Option.map_some, Function.comp_apply, Server.framed, Server.inbox_of_step hl hs]
  · push Not at hl
    obtain ⟨w, rfl⟩ := hl
    exact Server.recv_framed haddr hn hsmall w

end Server

section Client

variable [Inhabited KSUID] (K : KsuidLib KSUID) (L : WebsocketLib)

/-- The client, and the frames that wait on each websocket; nothing waits in `client.inbox`. -/
structure WireClient (KSUID : Type) [DecidableEq KSUID] where
  client : Client KSUID
  frames : ℕ → List Frame

namespace WireClient

def init : WireClient KSUID := ⟨Client.init, fun _ => []⟩

/-- A frame arrives on websocket `i`. -/
def arrive (x : WireClient KSUID) (i : ℕ) (f : Frame) : WireClient KSUID :=
  { x with frames := Function.update x.frames i (x.frames i ++ [f]) }

/-- One step. Where `Read` fails, the loop of `ListenIncomeMsg` ends. -/
def step (ids : List KSUID) (x : WireClient KSUID) : ClientLabel → Option (WireClient KSUID × Option (ℕ × Msg KSUID))
  | .recv i =>
    if x.client.queues.crashed || x.client.links.crashed then none
    else match x.client.reader i, x.frames i with
    | .idle, f :: fs =>
      if L.refuses clientLimit f then none
      else some (⟨x.client.listenIncomeMsg K ids i f.data, Function.update x.frames i fs⟩, none)
    | _, _ => none
  | l => (x.client.step ids l).map fun r => (⟨r.1, x.frames⟩, r.2)

end WireClient

/-- The client with its messages as frames. -/
def Client.framed (addr : List UInt8) (s : Client KSUID) : WireClient KSUID :=
  ⟨s.withInbox fun _ => [], fun i => (s.inbox i).map (Msg.frame K L addr)⟩

variable {K L} {addr : List UInt8} {n : ℕ} {ids : List KSUID} {s : Client KSUID} {l : ClientLabel}

theorem Client.framed_arrive (i : ℕ) (m : Msg KSUID) :
    (s.arrive i m).framed K L addr = (s.framed K L addr).arrive i (m.frame K L addr) := by
  have hframes : (fun v => (Function.update s.inbox i (s.inbox i ++ [m]) v).map (Msg.frame K L addr)) =
      Function.update (fun v => (s.inbox v).map (Msg.frame K L addr)) i
        ((s.inbox i).map (Msg.frame K L addr) ++ [m.frame K L addr]) := by
    funext v
    rw [Function.apply_update (fun _ => List.map (Msg.frame K L addr)), List.map_append]
    rfl
  exact congrArg (WireClient.mk (s.withInbox fun _ => [])) hframes

theorem Client.recv_framed (haddr : addr.length ≤ 1024) (hn : n ≤ 2 ^ 15)
    (hsmall : ∀ i, ∀ m ∈ s.inbox i, m.Small n ∧ m.isReply = true) (i : ℕ) :
    (s.framed K L addr).step K L ids (.recv i) = (s.step ids (.recv i)).map fun r => (r.1.framed K L addr, r.2) := by
  have hfields : (s.framed K L addr).client.reader = s.reader ∧
      (s.framed K L addr).frames = fun i => (s.inbox i).map (Msg.frame K L addr) := ⟨rfl, rfl⟩
  simp only [WireClient.step, Client.step]
  by_cases hc : (s.queues.crashed || s.links.crashed) = true
  · rw [if_pos hc]
    exact if_pos hc
  rw [if_neg hc]
  refine (if_neg hc).trans ?_
  simp only [hfields]
  cases hr : s.reader i <;> try rfl
  cases hi : s.inbox i with
  | nil => rfl
  | cons m ms =>
    obtain ⟨hm, hreply⟩ := hsmall i m (hi ▸ List.mem_cons_self)
    have hlimit : ¬ L.refuses clientLimit (m.frame K L addr) = true := fun h =>
      absurd ((length_frame_le haddr hn hm).trans (by decide)) (not_le.mpr (L.limit_lt _ _ h))
    have htail : Function.update (fun v => (s.inbox v).map (Msg.frame K L addr)) i (ms.map (Msg.frame K L addr)) =
        fun v => (Function.update s.inbox i ms v).map (Msg.frame K L addr) :=
      (funext fun v => Function.apply_update (fun _ => List.map (Msg.frame K L addr)) s.inbox i ms v).symm
    simp only [List.map_cons, if_neg hlimit, Option.map_some, Client.listenIncomeMsg_eq,
      clientReads_frame hm hreply, htail]
    have hclient : (s.framed K L addr).client.dispatch ids i m =
        (({ s with inbox := Function.update s.inbox i ms } : Client KSUID).dispatch ids i m).withInbox fun _ => [] :=
      Client.dispatch_withInbox (s := { s with inbox := Function.update s.inbox i ms }) m
    have hinbox : (({ s with inbox := Function.update s.inbox i ms } : Client KSUID).dispatch ids i m).inbox =
        Function.update s.inbox i ms := Client.inbox_dispatch m
    rw [hclient, Client.framed, hinbox]

/-- The client over frames does what the client does over messages. -/
theorem Client.step_framed (haddr : addr.length ≤ 1024) (hn : n ≤ 2 ^ 15)
    (hsmall : ∀ i, ∀ m ∈ s.inbox i, m.Small n ∧ m.isReply = true) :
    (s.framed K L addr).step K L ids l = (s.step ids l).map fun r => (r.1.framed K L addr, r.2) := by
  by_cases hl : ∀ i, l ≠ .recv i
  · have hstep : (s.framed K L addr).step K L ids l =
        ((s.withInbox fun _ => []).step ids l).map fun r => (⟨r.1, (s.framed K L addr).frames⟩, r.2) := by
      cases l with
      | recv i => exact absurd rfl (hl i)
      | _ => rfl
    rw [hstep, Client.step_withInbox hl, Option.map_map]
    cases hs : s.step ids l with
    | none => rfl
    | some r => simp only [Option.map_some, Function.comp_apply, Client.framed, Client.inbox_of_step hl hs]
  · push Not at hl
    obtain ⟨i, rfl⟩ := hl
    exact Client.recv_framed haddr hn hsmall i

end Client

/-! ## The size of the messages -/

/-- A chunk that `CopyBuffer` puts into a queue. -/
def Small (b : Buffer) : Prop := b.data.length ≤ copySize ∧ (b.eof = true → b.data = [])

/-- The bytes that `conn.Read` gives in a step. -/
def SysLabel.readBytes : SysLabel KSUID → List UInt8
  | .client (.copyRead data _) | .server (.copyRead _ data _) => data
  | _ => []

/-- `conn.Read` gives no more bytes than the buffer holds. -/
def SysLabel.Fits (l : SysLabel KSUID) : Prop := l.readBytes.length ≤ copySize

instance SysLabel.decidableFits (l : SysLabel KSUID) : Decidable l.Fits := inferInstanceAs (Decidable (_ ≤ _))

theorem small_default : Small default := ⟨Nat.zero_le _, fun _ => rfl⟩

theorem small_of_chunk? {c : Copy} {b : Buffer} (hc : c.Chunks Small) (h : c.chunk? = some b) : Small b := by
  unfold Copy.chunk? at h
  split at h
  · rename_i data er hpc
    cases h
    exact hc data er (.inr hpc)
  · cases h
    exact ⟨Nat.zero_le _, fun _ => rfl⟩
  · cases h

omit [DecidableEq KSUID] in
theorem WsWriter.msg_small {W : Type} {w : WsWriter W KSUID} {b : Buffer} {n : ℕ} (hb : Small b) :
    (w.msg b).2.Small n ∧ (w.msg b).2.isReply = true := by
  refine ⟨⟨hb.1, fun h => hb.2 ?_⟩, rfl⟩
  by_contra hne
  rw [if_neg hne] at h
  cases h

section Client

variable [Inhabited KSUID] {n : ℕ} {ids : List KSUID} {s s' : Client KSUID} {l : ClientLabel} {out : Option (ℕ × Msg KSUID)}

/-- The client's part of the invariant. -/
structure Client.Small (s : Client KSUID) : Prop where
  queues : s.queues.Chunks Wss.Small
  copy : s.copy.Chunks Wss.Small
  valid : s.pc.Valid s

theorem Client.Small.init : (Client.init : Client KSUID).Small where
  queues := .init
  copy := .of_pc fun _ _ => ⟨fun h => (by cases h), fun h => (by cases h)⟩
  valid := trivial

theorem Client.copy_transStep (h : s.transStep ids = some (s', out)) : s'.copy = s.copy ∨ s'.copy = { pc := .read } := by
  unfold Client.transStep at h
  cases hpc : s.pc with
  | newProxy i => simp only [hpc] at h; split_ifs at h <;> cases h <;> exact .inl rfl
  | getQueue =>
    simp only [hpc] at h
    cases hq : s.queues.hub.ref? (Client.masterID ids) <;> rw [hq] at h <;> cases h <;> exact .inl rfl
  | getLink =>
    simp only [hpc] at h
    cases hq : s.links.hub.ref? (Client.masterID ids) <;> rw [hq] at h <;> cases h <;> exact .inl rfl
  | goCopy q => simp only [hpc] at h; cases h; exact .inr rfl
  | wait o => simp only [hpc] at h; split_ifs at h; cases h; exact .inl rfl
  | remove a =>
    simp only [hpc, Option.some.injEq, Prod.mk.injEq] at h
    obtain ⟨rfl, -⟩ := h
    left
    cases a with
    | test => simp only [Client.removeStep]; split_ifs <;> rfl
    | queue | links => rfl
  | cancel i => cases i <;> (simp only [hpc] at h; cases h; exact .inl rfl)
  | returned => simp only [hpc] at h; cases h
  | _ => simp only [hpc] at h; cases h; exact .inl rfl

omit [Inhabited KSUID] in
theorem Client.copy_dispatch (i : ℕ) (m : Msg KSUID) : (s.dispatch ids i m).copy = s.copy := by
  cases m with
  | beats | sayhi | est => rfl
  | finish id => simp only [Client.dispatch]; split_ifs <;> rfl
  | data id tag bytes =>
    simp only [Client.dispatch]
    split_ifs
    · cases s.links.hub.ref? id <;> cases tag <;> rfl
    · rfl

omit [Inhabited KSUID] in
theorem Client.copy_readerStep {i : ℕ} (h : s.readerStep i = some s') : s'.copy = s.copy := by
  unfold Client.readerStep at h
  cases hr : s.reader i with
  | idle => rw [hr] at h; cases h
  | check q b => simp only [hr] at h; split_ifs at h <;> cases h <;> rfl
  | select q b =>
    simp only [hr, Option.map_eq_some_iff] at h
    obtain ⟨r, -, rfl⟩ := h
    rfl
  | remove id a =>
    simp only [hr, Option.some.injEq] at h
    subst h
    cases a with
    | test => simp only [Client.removeStep]; split_ifs <;> rfl
    | queue | links => rfl

theorem Client.Small.copy_step (hs : s.Small) (hl : (SysLabel.client l : SysLabel KSUID).Fits)
    (h : s.step ids l = some (s', out)) : s'.copy.Chunks Wss.Small := by
  have hsame : s'.copy = s.copy → s'.copy.Chunks Wss.Small := fun he => he ▸ hs.copy
  obtain ⟨-, h⟩ := Option.ite_none_left_eq_some.mp h
  cases l with
  | trans =>
    rcases Client.copy_transStep h with he | he
    · exact hsame he
    · rw [he]
      exact .of_pc fun _ _ => ⟨fun h => (by cases h), fun h => (by cases h)⟩
  | transFail =>
    simp only [Option.map_eq_some_iff] at h
    obtain ⟨s1, h1, he⟩ := h
    cases he
    unfold Client.transFail at h1
    cases hpc : s.pc <;> rw [hpc] at h1 <;> cases h1 <;> exact hs.copy
  | recv i =>
    simp only at h
    cases hr : s.reader i <;> rw [hr] at h <;> try cases h
    cases hi : s.inbox i with
    | nil => rw [hi] at h; cases h
    | cons m ms =>
      rw [hi] at h
      cases h
      exact hsame (Client.copy_dispatch i m)
  | reader i =>
    simp only [Option.map_eq_some_iff] at h
    obtain ⟨s1, h1, he⟩ := h
    cases he
    exact hsame (Client.copy_readerStep h1)
  | writeTimeout i =>
    simp only at h
    cases hr : s.reader i <;> simp only [hr] at h <;> try cases h
    split_ifs at h
    cases h
    exact hs.copy
  | copyRead data er =>
    simp only [Option.map_eq_some_iff] at h
    obtain ⟨c, h1, he⟩ := h
    cases he
    exact Copy.Chunks.read ⟨hl, fun h => (by cases h)⟩ h1
  | copy =>
    simp only [Option.map_eq_some_iff] at h
    obtain ⟨⟨c, q⟩, h1, he⟩ := h
    cases he
    exact hs.copy.step h1
  | copyTimeout =>
    simp only [Option.map_eq_some_iff] at h
    obtain ⟨c, h1, he⟩ := h
    cases he
    exact Copy.Chunks.timeout h1
  | tellClose ok => simp only at h; split_ifs at h <;> cases h <;> exact hs.copy
  | queueSend q i o =>
    obtain ⟨⟨q, m⟩, -, he⟩ := Option.bind_eq_some_iff.mp h
    cases m with
    | none => cases he; exact hs.copy
    | some wb =>
      simp only at he
      split_ifs at he
      cases he
      exact hs.copy
  | linkSend q i o =>
    simp only [Option.map_eq_some_iff] at h
    obtain ⟨c, h1, he⟩ := h
    cases he
    exact hs.copy
  | linkDone q i =>
    simp only at h
    split_ifs at h
    simp only [Option.map_eq_some_iff] at h
    obtain ⟨c, h1, he⟩ := h
    cases he
    exact hs.copy

theorem Client.Small.step (hs : s.Small) (hl : (SysLabel.client l : SysLabel KSUID).Fits)
    (h : s.step ids l = some (s', out)) : s'.Small where
  queues := by
    refine hs.queues.acts small_default (fun q b hw => ?_) (Client.acts_of_step hs.valid h).1
    -- only `CopyBuffer` writes into a queue
    cases l with
    | copy =>
      simp only [Client.queueAct, Option.map_eq_some_iff] at hw
      obtain ⟨x, hx, he⟩ := hw
      cases he
      exact small_of_chunk? hs.copy hx
    | trans =>
      simp only [Client.queueAct] at hw
      cases hpc : s.pc with
      | remove a => rw [hpc] at hw; cases a <;> cases hw
      | _ => rw [hpc] at hw; cases hw
    | reader i =>
      simp only [Client.queueAct] at hw
      cases hr : s.reader i with
      | remove id a => rw [hr] at hw; cases a <;> cases hw
      | _ => rw [hr] at hw; cases hw
    | _ => cases hw
  copy := hs.copy_step hl h
  valid := Client.valid_of_step hs.valid h

/-- The client sends small messages only. -/
theorem Client.Small.sends {i : ℕ} {m : Msg KSUID} (hs : s.Small) (hids : ids.length ≤ n)
    (h : s.step ids l = some (s', some (i, m))) : m.Small n := by
  obtain ⟨-, h⟩ := Option.ite_none_left_eq_some.mp h
  cases l with
  | trans =>
    simp only [Client.transStep] at h
    cases hpc : s.pc with
    | newProxy i => simp only [hpc] at h; split_ifs at h <;> cases h
    | sayID i => simp only [hpc] at h; cases h; trivial
    | establish => simp only [hpc] at h; cases h; exact hids
    | getQueue =>
      simp only [hpc] at h
      cases hq : s.queues.hub.ref? (Client.masterID ids) <;> rw [hq] at h <;> cases h
    | getLink =>
      simp only [hpc] at h
      cases hq : s.links.hub.ref? (Client.masterID ids) <;> rw [hq] at h <;> cases h
    | wait o => simp only [hpc] at h; split_ifs at h; cases h
    | cancel i => cases i <;> simp only [hpc] at h <;> cases h
    | _ => simp only [hpc] at h; cases h
  | recv i =>
    simp only at h
    cases hr : s.reader i <;> rw [hr] at h <;> try cases h
    cases hi : s.inbox i <;> rw [hi] at h <;> cases h
  | writeTimeout i =>
    simp only at h
    cases hr : s.reader i <;> simp only [hr] at h <;> try cases h
    split_ifs at h
    cases h
  | tellClose ok =>
    simp only at h
    split_ifs at h <;> cases h
    trivial
  | queueSend q i o =>
    obtain ⟨⟨q', wb⟩, h1, he⟩ := Option.bind_eq_some_iff.mp h
    cases wb with
    | none => cases he
    | some wb =>
      simp only at he
      split_ifs at he
      cases he
      exact (WsWriter.msg_small (hs.queues.sent h1)).1
  | linkDone q i =>
    simp only at h
    split_ifs at h
    obtain ⟨c, h1, he⟩ := Option.map_eq_some_iff.mp h
    cases he
  | transFail | reader | copyRead | copy | copyTimeout | linkSend =>
    obtain ⟨c, h1, he⟩ := Option.map_eq_some_iff.mp h
    cases he

end Client

section Server

variable {n : ℕ} {s s' : Server ℕ KSUID} {l : ServerLabel ℕ KSUID} {out : Option (ℕ × Msg KSUID)} {e : ℕ}

/-- The server's part of the invariant. -/
structure Server.Small (s : Server ℕ KSUID) : Prop where
  queues : s.queues.Chunks Wss.Small
  copy : ∀ e, (s.ests e).copy.Chunks Wss.Small

theorem Server.Small.init [Inhabited KSUID] : (Server.init : Server ℕ KSUID).Small where
  queues := .init
  copy := fun _ => .of_pc fun _ _ => ⟨fun h => (by cases h), fun h => (by cases h)⟩

/-- How the copy of instance `e` changes by a step with label `l`. -/
inductive CopyMove (s : Server ℕ KSUID) (l : ServerLabel ℕ KSUID) (e : ℕ) : Copy → Prop
  | same : CopyMove s l e (s.ests e).copy
  | fresh {c : Copy} (hpc : c.pc = .idle ∨ c.pc = .read) : CopyMove s l e c
  | read {c : Copy} {data : List UInt8} {er : ReadEnd} (hl : l = .copyRead e data er)
      (hc : (s.ests e).copy.read data er = some c) : CopyMove s l e c
  | step {c : Copy} {q : ℕ} {qs : Queues KSUID (WsWriter ℕ KSUID)}
      (hc : (s.ests e).copy.step s.queues q = some (c, qs)) : CopyMove s l e c
  | timeout {c : Copy} {q : ℕ} (hc : (s.ests e).copy.timeout s.queues q = some c) : CopyMove s l e c

theorem CopyMove.of_eq {c : Copy} (h : c = (s.ests e).copy) : CopyMove s l e c := h ▸ .same

/-- A change of one instance. -/
theorem CopyMove.setEst {t : Server ℕ KSUID} {i : ℕ} {f : Est ℕ KSUID → Est ℕ KSUID} (ht : t.ests = s.ests)
    (hf : CopyMove s l i (f (s.ests i)).copy) (e : ℕ) : CopyMove s l e ((t.setEst i f).ests e).copy := by
  show CopyMove s l e (Function.update t.ests i (f (t.ests i)) e).copy
  rw [ht]
  by_cases he : e = i
  · subst he
    rw [Function.update_self]
    exact hf
  · rw [Function.update_of_ne he]
    exact .same

theorem CopyMove.keep {t : Server ℕ KSUID} {i : ℕ} {f : Est ℕ KSUID → Est ℕ KSUID} (ht : t.ests = s.ests)
    (hf : ∀ x, (f x).copy = x.copy) (e : ℕ) : CopyMove s l e ((t.setEst i f).ests e).copy :=
  .setEst ht (.of_eq (hf _)) e

theorem copyMove_closeStep {i : ℕ} {id : KSUID} (a : CloseAt) (e : ℕ) :
    ((s.closeStep i id a).1.ests e).copy = (s.ests e).copy := by
  cases a with
  | test =>
    simp only [Server.closeStep]
    split_ifs
    · rfl
    · show (Function.update s.ests i _ e).copy = _
      by_cases he : e = i
      · subst he
        rw [Function.update_self]
      · rw [Function.update_of_ne he]
  | links | queue => rfl

theorem copyMove_readerStep {w : ℕ} (h : ReaderStep s w s') (e : ℕ) : CopyMove s l e (s'.ests e).copy := by
  cases h with
  | hi | refuse | test | write => exact .same
  | @est id =>
    show CopyMove s l e (Function.update s.ests s.nextEst (newEst w id) e).copy
    by_cases he : e = s.nextEst
    · rw [he, Function.update_self]
      exact .fresh (.inl rfl)
    · rw [Function.update_of_ne he]
      exact .same
  | close | hubClose | hubDelete => exact .of_eq (copyMove_closeStep _ e)

theorem copyMove_estStep {i : ℕ} (h : EstStep s i s') (e : ℕ) : CopyMove s l e (s'.ests e).copy := by
  cases h with
  | linkTrySend | addProxy | queueTrySend | wake | removeProxy | connClose => exact .keep (by rfl) (fun _ => by rfl) e
  | get =>
    refine .setEst rfl (.fresh ?_) e
    dsimp only
    split_ifs
    · exact .inr rfl
    · exact .inl rfl
  | nilWait => exact .same
  | @close a =>
    show CopyMove s l e (Function.update (s.closeStep i _ a).1.ests i _ e).copy
    by_cases he : e = i
    · subst he
      rw [Function.update_self]
      exact .of_eq (copyMove_closeStep a e)
    · rw [Function.update_of_ne he]
      exact .of_eq (copyMove_closeStep a e)

theorem copyMove_dispatch (w : ℕ) (m : Msg KSUID) : (s.dispatch w m).ests = s.ests := by
  cases m with
  | beats | sayhi | est => rfl
  | finish id => simp only [Server.dispatch]; cases (s.pool w).lookup id <;> rfl
  | data id tag bytes => simp only [Server.dispatch]; cases s.links.hub.ref? id <;> rfl

theorem Server.copyMove_of_step (h : s.step l = some (s', out)) (e : ℕ) : CopyMove s l e (s'.ests e).copy := by
  cases ServerStep.of_step h with
  | recv => exact .of_eq (by rw [copyMove_dispatch])
  | reader h1 => exact copyMove_readerStep h1 e
  | est he h1 => exact copyMove_estStep h1 e
  | writeTimeout | disconnect | hubClose | stop | linkSend | queueSend => exact .same
  | dial | tell | linkDone | queueDone => exact .keep (by rfl) (fun _ => by rfl) e
  | waiter he h1 => cases h1 <;> exact .keep (by rfl) (fun _ => by rfl) e
  | copyRead he hc => exact .setEst (by rfl) (.read rfl hc) e
  | copy he hw hc => exact .setEst (by rfl) (.step hc) e
  | copyTimeout he hw hc => exact .setEst (by rfl) (.timeout hc) e

theorem Server.Small.step (hs : s.Small) (hl : (SysLabel.server l).Fits) (h : s.step l = some (s', out)) : s'.Small where
  queues := by
    refine hs.queues.acts small_default (fun q b hw => ?_) (Server.acts_of_step h).1
    -- only `CopyBuffer` writes into a queue
    cases l with
    | copy e =>
      simp only [Server.queueAct, Option.bind_eq_some_iff, Option.map_eq_some_iff] at hw
      obtain ⟨q, -, x, hx, he⟩ := hw
      cases he
      exact small_of_chunk? (hs.copy e) hx
    | queueSend | queueDone => cases hw
    | _ =>
      simp only [Server.queueAct, Option.bind_eq_some_iff] at hw
      obtain ⟨o, -, ho⟩ := hw
      cases o <;> cases ho
  copy := by
    intro e
    have hmove := Server.copyMove_of_step h e
    generalize (s'.ests e).copy = c at hmove
    cases hmove with
    | same => exact hs.copy e
    | fresh hpc =>
      refine .of_pc fun data er => ⟨fun hc => ?_, fun hc => ?_⟩
      · rcases hpc with hpc | hpc <;> rw [hpc] at hc <;> cases hc
      · rcases hpc with hpc | hpc <;> rw [hpc] at hc <;> cases hc
    | read hlab hc =>
      subst hlab
      exact Copy.Chunks.read ⟨hl, fun h => (by cases h)⟩ hc
    | step hc => exact (hs.copy e).step hc
    | timeout hc => exact Copy.Chunks.timeout hc

/-- The server sends chunks, and that a connection is closed. -/
theorem Server.Small.sends {w : ℕ} {m : Msg KSUID} (hs : s.Small) (h : s.step l = some (s', some (w, m))) :
    m.Small n ∧ m.isReply = true := by
  generalize hout : some (w, m) = out at h
  cases ServerStep.of_step h with
  | @tell e ok =>
    obtain ⟨-, hout⟩ := Option.ite_none_right_eq_some.mp hout.symm
    cases hout
    exact ⟨trivial, rfl⟩
  | @queueSend q i o qs msg h1 =>
    cases msg with
    | none => cases hout
    | some wb =>
      cases hout
      exact WsWriter.msg_small (hs.queues.sent h1)
  | _ => cases hout

end Server

/-! ## The session -/

section Session

variable [Inhabited KSUID] (K : KsuidLib KSUID) (L : WebsocketLib)

/-- A session over frames: `addr` is the address that the SOCKS5 client asks for. -/
structure WireSystem (KSUID : Type) [DecidableEq KSUID] where
  client : WireClient KSUID
  server : WireServer ℕ KSUID

namespace WireSystem

def init : WireSystem KSUID := ⟨WireClient.init, WireServer.init⟩

/-- One step, with the delivery of the frame of the message it sends. -/
def step (addr : List UInt8) (ids : List KSUID) (x : WireSystem KSUID) : SysLabel KSUID → Option (WireSystem KSUID)
  | .client l => (x.client.step K L ids l).map fun r =>
      ⟨r.1, r.2.elim x.server fun m => x.server.arrive m.1 (m.2.frame K L addr)⟩
  | .server l => (x.server.step K L l).map fun r =>
      ⟨r.2.elim x.client fun m => x.client.arrive m.1 (m.2.frame K L addr), r.1⟩

end WireSystem

/-- The session with its messages as frames. -/
def System.framed (addr : List UInt8) (s : System KSUID) : WireSystem KSUID :=
  ⟨s.client.framed K L addr, s.server.framed K L addr⟩

variable {K L} {addr : List UInt8} {n : ℕ} {ids : List KSUID} {s s' : System KSUID} {l : SysLabel KSUID}
  {ls : List (SysLabel KSUID)} {x : WireSystem KSUID}

/-- Everything that is on its way is small. -/
structure System.Small (n : ℕ) (s : System KSUID) : Prop where
  client : s.client.Small
  server : s.server.Small
  up : ∀ w, ∀ m ∈ s.server.inbox w, m.Small n
  down : ∀ i, ∀ m ∈ s.client.inbox i, m.Small n ∧ m.isReply = true

theorem System.Small.init : (System.init : System KSUID).Small n where
  client := .init
  server := .init
  up := by
    intro w m hm
    cases hm
  down := by
    intro i m hm
    cases hm

omit [DecidableEq KSUID] [Inhabited KSUID] in
/-- What arrives at the end of an inbox. -/
theorem forall_mem_arrive {P : Msg KSUID → Prop} {inbox : ℕ → List (Msg KSUID)} {w : ℕ} {m : Msg KSUID}
    (h : ∀ v, ∀ x ∈ inbox v, P x) (hm : P m) : ∀ v, ∀ x ∈ Function.update inbox w (inbox w ++ [m]) v, P x := by
  intro v x hx
  rw [Function.update_apply] at hx
  split_ifs at hx
  · rcases List.mem_append.mp hx with hx | hx
    · exact h w x hx
    · rw [List.mem_singleton.mp hx]
      exact hm
  · exact h v x hx

theorem System.Small.step (hs : s.Small n) (hids : ids.length ≤ n) (hl : l.Fits) (h : s.step ids l = some s') :
    s'.Small n := by
  cases l with
  | client l =>
    obtain ⟨⟨c, out⟩, h1, rfl⟩ := Option.map_eq_some_iff.mp h
    have hdown : ∀ i, ∀ m ∈ c.inbox i, m.Small n ∧ m.isReply = true :=
      fun i m hm => hs.down i m ((Client.moves_of_step h1).inbox hm)
    cases out with
    | none => exact ⟨hs.client.step hl h1, hs.server, hs.up, hdown⟩
    | some m =>
      refine ⟨hs.client.step hl h1, ⟨hs.server.queues, hs.server.copy⟩, ?_, hdown⟩
      exact forall_mem_arrive hs.up (hs.client.sends hids h1)
  | server l =>
    obtain ⟨⟨t, out⟩, h1, rfl⟩ := Option.map_eq_some_iff.mp h
    have hup : ∀ w, ∀ m ∈ t.inbox w, m.Small n := fun w m hm => hs.up w m (Server.mem_inbox_of_step h1 hm)
    cases out with
    | none => exact ⟨hs.client, hs.server.step hl h1, hup, hs.down⟩
    | some m =>
      refine ⟨⟨hs.client.queues, hs.client.copy, hs.client.valid⟩, hs.server.step hl h1, hup, ?_⟩
      exact forall_mem_arrive hs.down (hs.server.sends h1)

/-- A step over frames is the step over messages. -/
theorem System.step_framed (hs : s.Small n) (haddr : addr.length ≤ 1024) (hn : n ≤ 2 ^ 15) :
    (s.framed K L addr).step K L addr ids l = (s.step ids l).map (System.framed K L addr) := by
  cases l with
  | client l =>
    show ((s.client.framed K L addr).step K L ids l).map _ = _
    rw [Client.step_framed haddr hn hs.down, System.step, Option.map_map, Option.map_map]
    refine Option.map_congr fun r _ => ?_
    obtain ⟨c, out⟩ := r
    cases out with
    | none => rfl
    | some m => exact congrArg (WireSystem.mk (c.framed K L addr)) (Server.framed_arrive m.1 m.2).symm
  | server l =>
    show ((s.server.framed K L addr).step K L l).map _ = _
    rw [Server.step_framed haddr hn hs.up, System.step, Option.map_map, Option.map_map]
    refine Option.map_congr fun r _ => ?_
    obtain ⟨t, out⟩ := r
    cases out with
    | none => rfl
    | some m => exact congrArg (fun c => WireSystem.mk c (t.framed K L addr)) (Client.framed_arrive m.1 m.2).symm

/-- A session over frames goes exactly as the session over messages: with the frames of its messages on their way,
    and no frame lost to a read limit. -/
theorem framed_session (haddr : addr.length ≤ 1024) (hids : ids.length ≤ 2 ^ 15) :
    Run (WireSystem.step K L addr ids) (fun _ l => l.Fits) WireSystem.init ls x ↔
      ∃ s, Run (System.step ids) (fun _ l => l.Fits) System.init ls s ∧ x = s.framed K L addr := by
  have hsmall : ∀ {ls s}, Run (System.step ids) (fun _ l => l.Fits) System.init ls s → s.Small ids.length :=
    fun h => h.invariant .init fun a l b ha hok hst => ha.step le_rfl hok hst
  constructor
  · intro h
    refine h.trace_invariant (I := fun ls x => ∃ s, Run (System.step ids) (fun _ l => l.Fits) System.init ls s ∧
      x = s.framed K L addr) ⟨_, .nil _, rfl⟩ ?_
    rintro ls x l x' ⟨s, hrun, rfl⟩ hok hst
    rw [System.step_framed (hsmall hrun) haddr hids] at hst
    obtain ⟨s', hs', rfl⟩ := Option.map_eq_some_iff.mp hst
    exact ⟨s', .snoc hrun hok hs', rfl⟩
  · rintro ⟨s, h, rfl⟩
    refine h.trace_invariant (I := fun ls s => Run (System.step ids) (fun _ l => l.Fits) System.init ls s ∧
      Run (WireSystem.step K L addr ids) (fun _ l => l.Fits) WireSystem.init ls (s.framed K L addr))
      ⟨.nil _, .nil _⟩ ?_ |>.2
    rintro ls s l s' ⟨hrun, hframed⟩ hok hst
    refine ⟨.snoc hrun hok hst, .snoc hframed hok ?_⟩
    rw [System.step_framed (hsmall hrun) haddr hids, hst]
    rfl

/-- A client with one lane sends its first byte. -/
def firstFrames : List (SysLabel (Fin 10)) :=
  List.replicate 14 (SysLabel.client .trans) ++ [SysLabel.client (.copyRead [7] .more), .client .copy, .client .copy] ++
    List.replicate 5 (SysLabel.client (.queueSend 0 0 .ok))

theorem framed_session_first : ∃ x, Run (WireSystem.step .digit .newline (text "[::1]:80") [1]) (fun _ l => l.Fits)
    WireSystem.init firstFrames x ∧ x.server.frames 0 = [sayID .digit .newline 1 1,
      establish .digit .newline 1 none (text "[::1]:80") [1], writeProxyMessage .digit .newline 1 0 [7]] := by
  have hexec : (exec (System.step [1]) (fun _ l => decide (SysLabel.Fits l)) System.init firstFrames).map
      (fun s => s.server.inbox 0) = some [.sayhi 1 1, .est 1 [1], .data 1 .data [7]] := by
    decide +kernel
  obtain ⟨s, hrun, hobs⟩ := exists_run_of_exec hexec
  have hfits : Run (System.step [1]) (fun _ l => l.Fits) System.init firstFrames s :=
    hrun.mono fun _ _ h => of_decide_eq_true h
  refine ⟨_, (framed_session (by decide +kernel) (by decide)).mpr ⟨s, hfits, rfl⟩, ?_⟩
  show (s.server.inbox 0).map (Msg.frame .digit .newline (text "[::1]:80")) = _
  rw [hobs]
  rfl

end Session

end Wssocks.Wss

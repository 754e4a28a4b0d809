import Wssocks.Wss.ClientSteps
import Wssocks.Wss.Ops
import Wssocks.Wss.SessionSteps
import Wssocks.Wss.System

/-!
# The transfer of a session

`SysInv` puts the two sides together: the client's chunks that are in flight or buffered
on the server are the round-robin split of what the client's `queue.Send` has written, and the
same for the other direction.

Results:

* `SysInv.step`, `SysInv.run`: the invariant holds in every state of a run in which a timer
  of `link.writeBuf` fires only after the session's `link.Send` has ended, no second body
  of `queue.Send` starts, and no `sayhi` is lost.
* `SysInv.delivered`: in such a state what was written to each connection is in order.
-/

namespace Wssocks.Wss

open Wssocks.Lib Wssocks.Pipe

variable {KSUID : Type} [DecidableEq KSUID] [Inhabited KSUID]

/-! ## The condition on the steps -/

/-- The condition on a step under which no chunk of a stream is lost in its middle. -/
def System.Lossless (s : System KSUID) : SysLabel KSUID → Prop
  | .client (.writeTimeout _) => s.client.links.Merged
  | .client .transFail => ∀ i, s.client.pc ≠ .sayID i
  | .server (.writeTimeout _) => s.server.links.Merged
  | .server (.queueSend q i _) => s.server.queues.SecondOk q i
  | _ => True

/-! ## The invariant -/

/-- The ghost values of a session. -/
structure Ghost where
  /-- The `est` message was sent. -/
  est : Bool
  /-- The lanes that were greeted. -/
  hiSent : ℕ → Bool
  /-- The handshake messages the server has begun to handle. -/
  seen : Seen
  /-- The client's queue and the server's links. -/
  up : Source
  merge : Flow
  /-- The server's queue and the client's links. -/
  down : Source
  back : Flow

/-- The invariant of a session. -/
structure SysInv (ids : List KSUID) (m : KSUID) (v : Ghost) (s : System KSUID) : Prop where
  client : ClientInv ids m v.est v.up v.back s.client
  session : SessInv ids m v.down.lanes v.merge v.seen ⟨s.server, v.hiSent, v.est⟩
  feeds : Feeds ids m v.down s.server
  greeted : ∀ k, v.hiSent k = true ↔ k < s.client.pc.greeted ids.length
  forth : Transit ids v.merge s.server.links s.server.pend v.up.sent
  back : Down ids v.back s.client v.down.sent

variable {ids : List KSUID} {m : KSUID} {v : Ghost} {s s' : System KSUID}

theorem feeds_init : Feeds ids m Source.init (Server.init : Server ℕ KSUID) :=
  ⟨SplitInv.init, .inr ⟨rfl, nofun⟩⟩

theorem SysInv.init : SysInv ids m
    ⟨false, fun _ => false, ⟨fun _ => false, false⟩, Source.init, Flow.init, Source.init, Flow.init⟩
    System.init where
  client := ClientInv.init
  session := SessInv.init
  feeds := feeds_init
  greeted := fun _ => ⟨nofun, fun h => absurd h (Nat.not_lt_zero _)⟩
  forth := Transit.init
  back := .inl Transit.init

/-! ## Steps -/

theorem ClientInv.greeted_of_est {est : Bool} {src : Source} {f : Flow} {c : Client KSUID}
    (inv : ClientInv ids m est src f c) (h : est = true) : c.pc.greeted ids.length = ids.length := by
  have hat := inv.trans
  cases hpc : c.pc with
  | newProxy i | sayID i | queueAdd i | linkAdd i =>
    rw [hpc] at hat
    exact absurd (hat.1.symm.trans h) (by simp)
  | _ => rfl

omit [DecidableEq KSUID] [Inhabited KSUID] in
/-- The chunk in a data message is the chunk its writer was given. -/
theorem chunk?_msg {w : WsWriter ℕ KSUID} {b : Buffer} (hb : b.eof = true → b.data = []) :
    (w.msg b).2.chunk? = some b := by
  obtain ⟨e, d⟩ := b
  cases e with
  | false => rfl
  | true => cases hb rfl; rfl

omit [DecidableEq KSUID] in
theorem late_msg {k : ℕ} {b : Buffer} (hk : k < ids.length) :
    Late ids m k ((laneWriter ids k).msg b).2 := getElem?_getD hk

omit [DecidableEq KSUID] in
theorem reply_msg {k : ℕ} {b : Buffer} (hk : k < ids.length) :
    Reply ids m k ((laneWriter ids k).msg b).2 := by
  refine ⟨getElem?_getD hk, ?_⟩
  cases b.eof <;> simp

/-- A chunk is sent to the server, -/
theorem transit_arrive {f : Flow} {sv : Server ℕ KSUID} {sent : List Buffer} {k : ℕ} {b : Buffer}
    (t : Transit ids f sv.links sv.pend sent) (hn : 0 < ids.length) (hk : k = sent.length % ids.length)
    (hb : b.eof = true → b.data = []) :
    Transit ids f (sv.arrive k ((laneWriter ids k).msg b).2).links
      (sv.arrive k ((laneWriter ids k).msg b).2).pend (sent ++ [b]) := by
  refine t.send hn hk ?_ fun j hj => ?_
  · rw [Server.pend_arrive, if_pos rfl, chunk?_msg hb]; rfl
  · rw [Server.pend_arrive, if_neg hj]

/-- or to the client. -/
theorem down_arrive {f : Flow} {c : Client KSUID} {sent : List Buffer} {k : ℕ} {b : Buffer}
    (t : Down ids f c sent) (hn : 0 < ids.length) (hk : k = sent.length % ids.length)
    (hb : b.eof = true → b.data = []) :
    Down ids f (c.arrive k ((laneWriter ids k).msg b).2) (sent ++ [b]) := by
  refine t.imp (fun t => ?_) fun h => h
  refine t.send hn hk ?_ fun j hj => ?_
  · rw [Client.pend_arrive, if_pos rfl, chunk?_msg hb]; rfl
  · rw [Client.pend_arrive, if_neg hj]

theorem SysInv.client_step {l : ClientLabel} (inv : SysInv ids m v s) (hnd : ids.Nodup)
    (hm : ids[0]? = some m) (hok : s.Lossless (.client l)) (h : s.step ids (.client l) = some s') :
    ∃ v', SysInv ids m v' s' := by
  have hn : 0 < ids.length := (List.getElem?_eq_some_iff.mp hm).1
  simp only [System.step, Option.map_eq_some_iff] at h
  obtain ⟨⟨c, out⟩, hstep, rfl⟩ := h
  obtain ⟨est, up, back, hinv, hcs⟩ := inv.client.act hnd hm hstep
  have hback : Down ids back c v.down.sent := by
    refine hcs.flow (fun w hw => ?_) _ inv.back
    subst hw
    exact inv.client.merge.done_of_merged inv.client.lsolo hok
  have hspeaks := hcs.speaks fun hl => by subst hl; exact hok
  have hkeep : ∀ k, k < ids.length → v.est = true → v.hiSent k = true := by
    intro k hk h1
    rw [inv.greeted, inv.client.greeted_of_est h1]
    exact hk
  cases hspeaks with
  | nothing he hg hs =>
    subst he
    exact ⟨{ v with up := up, back := back }, hinv, inv.session, inv.feeds,
      fun k => by rw [inv.greeted, hg], by rw [hs]; exact inv.forth, hback⟩
  | @sayhi k id he hid hg hg' hs =>
    subst he
    have hk : v.hiSent k = false := by
      by_contra h1
      have h2 := (inv.greeted k).mp (by simpa using h1)
      omega
    refine ⟨{ v with up := up, back := back, hiSent := Function.update v.hiSent k true }, hinv,
      inv.session.arrive (inv.session.toMail.arrive_sayhi hid hk), feeds_arrive inv.feeds, fun j => ?_, ?_, hback⟩
    · show Function.update v.hiSent k true j = true ↔ j < c.pc.greeted ids.length
      rw [hg']
      by_cases hj : j = k
      · subst hj; simp
      · rw [Function.update_of_ne hj, inv.greeted, hg]; omega
    · show Transit ids v.merge s.server.links (s.server.arrive k (.sayhi id m)).pend up.sent
      rw [hs, Server.pend_control rfl]
      exact inv.forth
  | est he he' hg hg' hs =>
    subst he'
    have hsess := inv.session.arrive (inv.session.toMail.arrive_est ((inv.greeted 0).mpr (by omega)) he)
    refine ⟨{ v with est := true, up := up, back := back }, hinv, hsess, feeds_arrive inv.feeds,
      fun k => by rw [inv.greeted, hg, hg'], ?_, hback⟩
    show Transit ids v.merge s.server.links (s.server.arrive 0 (.est m ids)).pend up.sent
    rw [hs, Server.pend_control rfl]
    exact inv.forth
  | @chunk b he he' hg hs hb =>
    subst he'
    have hk := Nat.mod_lt v.up.sent.length hn
    have hsess := inv.session.arrive
      (inv.session.toMail.arrive_late (late_msg (b := b) hk) (hkeep _ hk he) fun _ => he)
    refine ⟨{ v with est := true, up := up, back := back }, hinv, he ▸ hsess, feeds_arrive inv.feeds,
      fun k => by rw [inv.greeted, hg], ?_, hback⟩
    rw [hs]
    exact transit_arrive inv.forth hn rfl hb
  | finish he he' hg hs =>
    subst he'
    have hsess := inv.session.arrive
      (inv.session.toMail.arrive_late (w := 0) (x := .finish m) ⟨rfl, rfl⟩ (hkeep _ hn he) fun _ => he)
    refine ⟨{ v with est := true, up := up, back := back }, hinv, he ▸ hsess, feeds_arrive inv.feeds,
      fun k => by rw [inv.greeted, hg], ?_, hback⟩
    show Transit ids v.merge s.server.links (s.server.arrive 0 (.finish m)).pend up.sent
    rw [hs, Server.pend_control rfl]
    exact inv.forth

/-- The server sends nothing before it has the `est` message. -/
theorem SessInv.est_of_out {g : QueueMap} {f : Flow} {seen : Seen} {t : Session KSUID} {src : Source}
    {l : ServerLabel ℕ KSUID} {sv : Server ℕ KSUID} {out : ℕ × Msg KSUID}
    (inv : SessInv ids m g f seen t) (hf : Feeds ids m src t.server) (hg : src.lanes = g)
    (h : t.server.step l = some (sv, some out)) : t.estSent = true := by
  apply inv.est_sent
  generalize hout : some out = o at h
  cases ServerStep.of_step h with
  | tell he =>
    by_contra h1
    have := inv.noEst (by simpa using h1)
    omega
  | @queueSend q i o qs msg h1 =>
    have hne : t.server.queues.sends q ≠ [] := Queues.sends_ne_nil h1
    have hq : g.queue = some q := by
      by_contra h3
      exact hne (inv.qsolo q h3)
    exact inv.ordered (hg ▸ (hf.split.launched (hg ▸ hq) hne).1)
  | _ => cases hout

theorem SysInv.server_step {l : ServerLabel ℕ KSUID} (inv : SysInv ids m v s) (hnd : ids.Nodup)
    (hm : ids[0]? = some m) (hok : s.Lossless (.server l)) (h : s.step ids (.server l) = some s') :
    ∃ v', SysInv ids m v' s' := by
  have hn : 0 < ids.length := (List.getElem?_eq_some_iff.mp hm).1
  simp only [System.step, Option.map_eq_some_iff] at h
  obtain ⟨⟨sv, out⟩, hstep, rfl⟩ := h
  obtain ⟨g, fl, seen, hsess, hstp⟩ := inv.session.act hnd hm hstep
  have hforth : Transit ids fl sv.links sv.pend v.up.sent := by
    refine hstp.flow (fun w hw => ?_) _ inv.forth
    subst hw
    exact inv.session.merge.done_of_merged inv.session.lsolo hok
  obtain ⟨down, hg, hfeeds, hemits⟩ := hstp.feed v.down rfl inv.feeds fun q i o hl => by
    subst hl; exact hok
  subst hg
  cases hemits with
  | nothing hs =>
    exact ⟨{ v with down := down, merge := fl, seen := seen }, inv.client, hsess, hfeeds, inv.greeted,
      hforth, by rw [hs]; exact inv.back⟩
  | @chunk b hs hb =>
    have hest : v.est = true := inv.session.est_of_out inv.feeds rfl hstep
    have hk := Nat.mod_lt v.down.sent.length hn
    refine ⟨{ v with down := down, merge := fl, seen := seen }, inv.client.arrive hest (reply_msg hk),
      hsess, hfeeds, inv.greeted, hforth, ?_⟩
    rw [hs]
    exact down_arrive inv.back hn rfl hb
  | finish hs =>
    have hest : v.est = true := inv.session.est_of_out inv.feeds rfl hstep
    refine ⟨{ v with down := down, merge := fl, seen := seen },
      inv.client.arrive (w := 0) (x := .finish m) hest ⟨rfl, rfl⟩, hsess, hfeeds, inv.greeted, hforth, ?_⟩
    show Down ids v.back (s.client.arrive 0 (.finish m)) down.sent
    unfold Down
    rw [hs, Client.pend_control rfl]
    exact inv.back

theorem SysInv.step {l : SysLabel KSUID} (inv : SysInv ids m v s) (hnd : ids.Nodup)
    (hm : ids[0]? = some m) (hok : s.Lossless l) (h : s.step ids l = some s') :
    ∃ v', SysInv ids m v' s' := by
  cases l with
  | client l => exact inv.client_step hnd hm hok h
  | server l => exact inv.server_step hnd hm hok h

/-- Every state of a run whose steps lose nothing. -/
theorem SysInv.run {ls : List (SysLabel KSUID)} (hnd : ids.Nodup) (hm : ids[0]? = some m)
    (h : Run (System.step ids) System.Lossless System.init ls s) : ∃ v, SysInv ids m v s :=
  h.invariant (I := fun s => ∃ v, SysInv ids m v s) ⟨_, SysInv.init⟩
    fun _ _ _ ⟨_, inv⟩ hok hstep => inv.step hnd hm hok hstep

/-! ## What was written -/

/-- Where nothing was read, nothing was written. -/
theorem Delivered.of_nil {out : List ConnEvent} {reads : List (List UInt8)} {p q : Prop} (hp : ¬ p)
    (h : Delivered out [] p) : Delivered out reads q where
  cut := by
    obtain ⟨k, d, h1, rfl | ⟨x, y, -, h2, -⟩⟩ := h.cut
    · rw [h1]; exact .of_isPrefix (by simp)
    · simp at h2
  closeWrite := fun pre post hout => absurd (h.closeWrite pre post hout).2.2 hp

/-- What the client has read arrives at the destination in order, -/
theorem SysInv.delivered_forth (inv : SysInv ids m v s) :
    Delivered (s.server.links.socks 0).out s.client.copy.reads (s.client.copy.pc = .done) :=
  delivered inv.session.merge inv.forth inv.client.split.sends inv.client.copy

/-- and what the server has read arrives at the application. -/
theorem SysInv.delivered_back (inv : SysInv ids m v s) :
    Delivered (s.client.links.socks 0).out (s.server.ests 0).copy.reads
      ((s.server.ests 0).copy.pc = .done) := by
  rcases inv.back with t | ⟨-, hidle⟩
  · rcases inv.feeds.fed with ⟨q, -, -, hc⟩ | ⟨henq, -⟩
    · exact delivered inv.client.merge t inv.feeds.split.sends hc
    · have hc : CopyInv {} v.down.enq := ⟨rfl, henq⟩
      exact Delivered.of_nil (by simp) (delivered inv.client.merge t inv.feeds.split.sends hc)
  · have hout : (s.client.links.socks 0).out = [] := by
      cases inv.client.merge.merger with
      | idle _ _ _ h1 => exact h1
      | run h1 h2 _ _ => rw [hidle _ h1] at h2; cases h2
    rw [hout]
    exact ⟨.of_isPrefix List.nil_prefix, fun pre post h1 => by simp at h1⟩

/-! ## Runs without timeouts, failures and removals -/

/-- The step executes `QueueHub.Remove` or `LinkHub.RemoveAll`. -/
def System.removes (s : System KSUID) : SysLabel KSUID → Bool
  | .client .trans => match s.client.pc with
    | .remove .queue | .remove .links => true
    | _ => false
  | .client (.reader i) => match s.client.reader i with
    | .remove _ .queue | .remove _ .links => true
    | _ => false
  | .server (.reader w) => match s.server.reader w with
    | .close _ _ .links | .close _ _ .queue | .hubCloseAt _ _ .links | .hubCloseAt _ _ .queue => true
    | _ => false
  | .server (.est e) => match (s.server.ests e).pc with
    | .close .links | .close .queue => true
    | _ => false
  | _ => false

/-- A timer fires or a write fails. -/
def SysLabel.fails : SysLabel KSUID → Bool
  | .client .transFail | .client (.writeTimeout _) | .client .copyTimeout | .client (.tellClose false) => true
  | .client (.queueSend _ _ o) | .client (.linkSend _ _ o) => o ≠ .ok
  | .server (.writeTimeout _) | .server (.copyTimeout _) | .server (.tell _ false) => true
  | .server (.queueSend _ _ o) | .server (.linkSend _ _ o) => o ≠ .ok
  | _ => false

/-- No timeout, no failed write and no removal. -/
def System.calm (s : System KSUID) (l : SysLabel KSUID) : Bool := !l.fails && !s.removes l

omit [Inhabited KSUID] in
/-- Only `Remove` closes a queue. -/
theorem QueuesDid.unclosed {q q' : Queues KSUID (WsWriter ℕ KSUID)} {o : Option (HubOp ℕ KSUID)}
    (h : QueuesDid q q' o) (hu : q.Unclosed) (ho : ∀ m, o ≠ some (.queueRemove m)) : q'.Unclosed := by
  have hran : Queues.Ran q q' → q'.Unclosed := by
    intro hr
    obtain ⟨_, ht⟩ := hr.touched
    exact hu.touched ht
  cases o with
  | none => exact hran h
  | some x =>
    cases x with
    | queueAdd m id w =>
      rw [show q' = q.add m id w from h]
      exact hu.add
    | queueSort m sort =>
      rw [show q' = q.setSort m sort from h]
      exact hu.setSort
    | queueTry m =>
      rw [show q' = q.trySend m from h]
      exact hu.trySend
    | queueRemove m => exact absurd rfl (ho m)
    | linkAdd | linkSort | linkTry | linkRemove => exact hran h

omit [Inhabited KSUID] in
theorem System.removes_of_op {l : ServerLabel ℕ KSUID} {k : KSUID}
    (h : s.server.op l = some (.queueRemove k)) : s.removes (.server l) = true := by
  cases l with
  | recv w =>
    obtain ⟨x, -, hx⟩ := Option.bind_eq_some_iff.mp h
    cases x <;> cases hx
  | reader w =>
    rw [Server.op] at h
    cases hr : s.server.reader w with
    | close e id a | hubCloseAt e id a =>
      rw [hr] at h
      cases a with
      | queue => simp only [System.removes, hr]
      | test | links => cases h
    | _ => rw [hr] at h; cases h
  | est e =>
    rw [Server.op] at h
    cases hpc : (s.server.ests e).pc with
    | close a =>
      rw [hpc] at h
      cases a with
      | queue => simp only [System.removes, hpc]
      | test | links => cases h
    | _ => rw [hpc] at h; cases h
  | _ => cases h

/-- A calm run loses nothing. -/
theorem run_lossless_of_calm {ls : List (SysLabel KSUID)}
    (h : Run (System.step ids) (fun s l => s.calm l = true) System.init ls s) :
    Run (System.step ids) System.Lossless System.init ls s := by
  refine (h.mono_of_invariant (I := fun s => s.server.queues.Unclosed) ?_ ?_ ?_).1
  · intro q; simp [System.init, Server.init, Queues.init, Registry.empty, default, newQueue]
  · intro a l b hu hcalm hstep
    cases l with
    | client l =>
      simp only [System.step, Option.map_eq_some_iff] at hstep
      obtain ⟨⟨c, out⟩, -, rfl⟩ := hstep
      cases out <;> exact hu
    | server l =>
      simp only [System.step, Option.map_eq_some_iff] at hstep
      obtain ⟨⟨sv, out⟩, h1, rfl⟩ := hstep
      refine (Server.did_of_step h1).1.unclosed hu fun k hop => ?_
      simp [System.calm, System.removes_of_op hop] at hcalm
  · intro a l hu hcalm
    cases l with
    | client l =>
      cases l with
      | writeTimeout w | transFail => simp [System.calm, SysLabel.fails] at hcalm
      | _ => trivial
    | server l =>
      cases l with
      | writeTimeout w => simp [System.calm, SysLabel.fails] at hcalm
      | queueSend q i o => exact fun _ h1 => absurd h1 (hu q)
      | _ => trivial

/-- What was written to the two connections, against what was read. -/
def System.InOrder (s : System KSUID) : Prop :=
  Pipe.InOrder (s.server.links.socks 0).out s.client.copy.reads (s.client.copy.pc = .done) ∧
    Pipe.InOrder (s.client.links.socks 0).out (s.server.ests 0).copy.reads
      ((s.server.ests 0).copy.pc = .done)

/-- The transfer over any number of lanes is in order and exact, in both directions. -/
theorem transfer_in_order {ls : List (SysLabel KSUID)} (hne : ids ≠ []) (hnd : ids.Nodup)
    (h : Run (System.step ids) (fun s l => s.calm l = true) System.init ls s) : s.InOrder := by
  obtain ⟨m, hm⟩ := exists_master hne
  obtain ⟨v, inv⟩ := SysInv.run hnd hm (run_lossless_of_calm h)
  exact ⟨inv.delivered_forth.inOrder, inv.delivered_back.inOrder⟩

/-- The client opens `n` lanes and the server connects to the destination. -/
def openLanes (n : ℕ) : List (SysLabel ℕ) :=
  List.replicate (4 * n + 10) (SysLabel.client .trans) ++
    (List.range n).flatMap (fun k => [SysLabel.server (.recv k), .server (.reader k)]) ++
    [SysLabel.server (.recv 0), .server (.reader 0), .server (.dial 0 .connected)] ++
    List.replicate 4 (SysLabel.server (.est 0))

/-- The client reads a byte and puts it into its queue. -/
def readByte (x : UInt8) : List (SysLabel ℕ) :=
  [.client (.copyRead [x] .more), .client .copy, .client .copy]

/-- The server takes a chunk of lane `k` into its link. -/
def takeChunk (k : ℕ) : List (SysLabel ℕ) :=
  [.server (.recv k), .server (.reader k), .server (.reader k)]

set_option maxRecDepth 100000 in
theorem transfer_in_order_two_lanes : ∃ ls s,
    Run (System.step [7, 8]) (fun s l => s.calm l = true) System.init ls s ∧
      (s.server.links.socks 0).out = [.data [1], .data [2]] ∧ s.InOrder := by
  have hexec : (exec (System.step [7, 8]) System.calm System.init
      (openLanes 2 ++ readByte 1 ++ readByte 2 ++ List.replicate 8 (.client (.queueSend 0 0 .ok)) ++
        takeChunk 1 ++ takeChunk 0 ++ List.replicate 8 (.server (.linkSend 0 0 .ok)))).map
      (fun s => (s.server.links.socks 0).out) = some [.data [1], .data [2]] := by decide +kernel
  obtain ⟨s, hrun, hout⟩ := exists_run_of_exec hexec
  exact ⟨_, s, hrun, hout, transfer_in_order (by simp) (by simp) hrun⟩

/-! ## A timeout of `link.writeBuf` -/

/-- Apart from timers of `writeBuf` that fire, the step is calm. -/
def System.writeTimeouts (s : System KSUID) (l : SysLabel KSUID) : Bool :=
  match l with
  | .client (.writeTimeout _) | .client .copyTimeout | .server (.writeTimeout _)
  | .server (.copyTimeout _) => true
  | l => s.calm l

/-- The client sends the byte `x` on its only lane. -/
def sendByte (x : UInt8) : List (SysLabel ℕ) :=
  readByte x ++ List.replicate 5 (SysLabel.client (.queueSend 0 0 .ok))

/-- The dispatchers ignore the error of `link.Write`: ten chunks fill the buffer of the
    server's link, the eleventh is lost to the timer, the twelfth is written after the tenth. -/
def lostChunk : List (SysLabel ℕ) :=
  openLanes 1 ++ List.replicate 2 (SysLabel.client (.queueSend 0 0 .ok)) ++
    (List.range 10).flatMap (fun i => sendByte (UInt8.ofNat i) ++ takeChunk 0) ++
    sendByte 10 ++ [SysLabel.server (.recv 0), .server (.reader 0), .server (.writeTimeout 0)] ++
    sendByte 11 ++ List.replicate 7 (SysLabel.server (.linkSend 0 0 .ok)) ++ takeChunk 0 ++
    List.replicate 50 (SysLabel.server (.linkSend 0 0 .ok))

set_option maxRecDepth 100000 in
/-- A chunk that `link.writeBuf` gave up leaves a gap. -/
theorem write_timeout_leaves_gap :
    ¬ ∀ (ids : List ℕ) (ls : List (SysLabel ℕ)) (s : System ℕ), ids ≠ [] → ids.Nodup →
      Run (System.step ids) (fun s l => s.writeTimeouts l = true) System.init ls s →
      written (s.server.links.socks 0).out <+: s.client.copy.reads.flatten := by
  intro h
  have hexec : (exec (System.step [7]) System.writeTimeouts System.init lostChunk).map
      (fun s => (written (s.server.links.socks 0).out, s.client.copy.reads.flatten)) =
      some ([0, 1, 2, 3, 4, 5, 6, 7, 8, 9, 11], [0, 1, 2, 3, 4, 5, 6, 7, 8, 9, 10, 11]) := by
    decide +kernel
  obtain ⟨s, hrun, hout⟩ := exists_run_of_exec hexec
  have hpre := h [7] lostChunk s (by simp) (by simp) hrun
  obtain ⟨h1, h2⟩ := Prod.mk.inj hout
  rw [h1, h2] at hpre
  revert hpre
  decide

/-- In every run in which a timer of `link.writeBuf` fires only after the session's
    `link.Send` has ended, no second body of `queue.Send` starts and no `sayhi` is lost,
    the chunks written are the first ones read. -/
theorem no_gap_of_lossless {ls : List (SysLabel KSUID)} (hne : ids ≠ []) (hnd : ids.Nodup)
    (h : Run (System.step ids) System.Lossless System.init ls s) :
    Delivered (s.server.links.socks 0).out s.client.copy.reads (s.client.copy.pc = .done) ∧
      Delivered (s.client.links.socks 0).out (s.server.ests 0).copy.reads
        ((s.server.ests 0).copy.pc = .done) := by
  obtain ⟨m, hm⟩ := exists_master hne
  obtain ⟨v, inv⟩ := SysInv.run hnd hm h
  exact ⟨inv.delivered_forth, inv.delivered_back⟩

/-- The condition `System.Lossless`, evaluated where `link.Send` runs on the first link. -/
def System.losslessOn (s : System ℕ) : SysLabel ℕ → Bool
  | .client (.writeTimeout _) => (s.client.links.sends 0).any SendPc.ended
  | .client .transFail => false
  | .server (.writeTimeout _) => (s.server.links.sends 0).any SendPc.ended
  | .server (.queueSend q i _) => decide (s.server.queues.SecondOk q i)
  | _ => true

theorem lossless_of_losslessOn {t : System ℕ} {l : SysLabel ℕ} (h : t.losslessOn l = true) : t.Lossless l := by
  cases l with
  | client l =>
    cases l with
    | writeTimeout w =>
      obtain ⟨pc, hpc, hend⟩ := List.any_eq_true.mp h
      exact ⟨0, pc, hpc, hend⟩
    | transFail => cases h
    | _ => trivial
  | server l =>
    cases l with
    | writeTimeout w =>
      obtain ⟨pc, hpc, hend⟩ := List.any_eq_true.mp h
      exact ⟨0, pc, hpc, hend⟩
    | queueSend q i o =>
      have h1 : decide (t.server.queues.SecondOk q i) = true := h
      exact (of_decide_eq_true h1 : t.server.queues.SecondOk q i)
    | _ => trivial

/-- A write of the server's `link.Send` fails while its link is full; the chunk that its reader then
    waits to put there is lost to the timer. Meanwhile a byte of the response goes to the client. -/
def lateTimeout : List (SysLabel ℕ) :=
  openLanes 1 ++ List.replicate 2 (SysLabel.client (.queueSend 0 0 .ok)) ++
    (List.range 10).flatMap (fun i => sendByte (UInt8.ofNat i) ++ takeChunk 0) ++
    List.replicate 5 (SysLabel.server (.linkSend 0 0 .ok)) ++ sendByte 10 ++ takeChunk 0 ++
    List.replicate 4 (SysLabel.server (.linkSend 0 0 .ok)) ++ sendByte 11 ++ takeChunk 0 ++
    [SysLabel.server (.linkSend 0 0 (.fail 0))] ++
    sendByte 12 ++ [SysLabel.server (.recv 0), .server (.reader 0), .server (.writeTimeout 0)] ++
    [SysLabel.server (.copyRead 0 [1] .more), .server (.copy 0), .server (.copy 0)] ++
    List.replicate 5 (SysLabel.server (.queueSend 0 0 .ok)) ++
    [SysLabel.client (.recv 0), .client (.reader 0), .client (.reader 0)] ++
    List.replicate 5 (SysLabel.client (.linkSend 0 0 .ok))

set_option maxRecDepth 100000 in
theorem no_gap_of_lossless_one_lane : ∃ s,
    Run (System.step [7]) System.Lossless System.init lateTimeout s ∧
      (s.server.links.socks 0).out = [.data [0], .data []] ∧ (s.client.links.socks 0).out = [.data [1]] ∧
      Delivered (s.server.links.socks 0).out s.client.copy.reads (s.client.copy.pc = .done) ∧
      Delivered (s.client.links.socks 0).out (s.server.ests 0).copy.reads
        ((s.server.ests 0).copy.pc = .done) := by
  have hexec : (exec (System.step [7]) System.losslessOn System.init lateTimeout).map
      (fun s => ((s.server.links.socks 0).out, (s.client.links.socks 0).out)) =
      some ([.data [0], .data []], [.data [1]]) := by decide +kernel
  obtain ⟨s, hrun, hobs⟩ := exists_run_of_exec hexec
  obtain ⟨hforth, hback⟩ := Prod.mk.inj hobs
  have hrun' : Run (System.step [7]) System.Lossless System.init _ s :=
    hrun.mono fun _ _ h => lossless_of_losslessOn h
  exact ⟨s, hrun', hforth, hback, no_gap_of_lossless (by simp) (by simp) hrun'⟩

end Wssocks.Wss

import Wssocks.Lib.Potential
import Wssocks.Wss.Delivery

/-!
# Calm runs come to rest

A message that a client sends gives the server a bounded amount of work. The
potential of a state prices what is left to do: a message in an inbox, a reader in the
middle of one, an instance of `establish` on its way to its `Wait`, a chunk in a link,
a `Send` at each of its places. `Send` gets from one chunk to the next over the head of
its loop, which the chunk it takes pays for; a `Send` without lanes would go round for
nothing, but `est` names them.

Results:

* `Links.weight_send`: every step of `Send` uses the potential of the links.
* `multiplexed_work`: in a calm run the server makes at most 16 steps for each message.
* `exists_settled`: every calm run can be continued by the server until it can do nothing more.
* `multiplexed_complete`: then every session whose client sent an end of stream was delivered completely.
-/

namespace Wssocks.Pipe

open Wssocks.Lib Finset

variable {KSUID : Type} [DecidableEq KSUID]

/-! ## The links -/

/-- What is left to do for a goroutine running `Send`, the chunks in the links apart. -/
def SendPc.weight {K Src : Type} : SendPc K Src → ℕ
  | .entry => 7
  | .loop => 6
  | .pass [] => 7
  | .pass (_ :: _) => 5
  | .read _ _ => 4
  | .write _ _ _ => 8
  | .ret _ => 3
  | .handoff _ => 2
  | .closeDone _ => 1
  | .exit _ | .refused => 0

/-- What is left to do on link `r`. -/
def Links.work (l : Links KSUID) (r : ℕ) : ℕ :=
  5 * (l.hub.obj r).buffer.items.length + ((l.sends r).map SendPc.weight).sum

/-- What is left to do on all links. -/
def Links.weight (l : Links KSUID) : ℕ := ∑ r ∈ range l.hub.next, l.work r

section Links

variable {l l' : Links KSUID} {q r i : ℕ} {u : Link KSUID → Link KSUID} {pc pc' : LinkSend KSUID} {id m : KSUID}

/-- Only the number of chunks in the link counts. -/
theorem Links.weight_modify (hq : q < l.hub.next) :
    (l.modify q u).weight + 5 * (l.hub.obj q).buffer.items.length =
      l.weight + 5 * (u (l.hub.obj q)).buffer.items.length := by
  have hsum : (l.modify q u).weight + l.work q = l.weight + (l.modify q u).work q := by
    refine sum_range_exchange hq fun j hj => ?_
    simp only [Links.work, Links.hub_modify, Registry.obj_modify_ne hj, Links.sends_modify]
  simp only [Links.work, Links.hub_modify, Registry.obj_modify_self, Links.sends_modify] at hsum
  omega

theorem Links.weight_modify_same (hu : ∀ x, (u x).buffer = x.buffer) : (l.modify q u).weight = l.weight := by
  refine sum_congr rfl fun r _ => ?_
  simp only [Links.work, Links.hub_modify, Registry.obj_modify, Links.sends_modify]
  split_ifs with hr
  · rw [hu, hr]
  · rfl

theorem Links.weight_goto (pc' : LinkSend KSUID) (hq : q < l.hub.next) (hi : (l.sends q)[i]? = some pc) :
    (l.goto q i pc').weight + pc.weight = l.weight + pc'.weight := by
  have hsum : (l.goto q i pc').weight + l.work q = l.weight + (l.goto q i pc').work q := by
    refine sum_range_exchange hq fun j hj => ?_
    simp only [Links.work, Links.goto, Function.update_of_ne hj]
  have hset := sum_map_set (y := pc') (w := SendPc.weight) hi
  simp only [Links.work, Links.hub_goto, Links.sends_goto_self] at hsum
  omega

theorem Links.weight_goto_lt (hq : q < l.hub.next) (hi : (l.sends q)[i]? = some pc) (hlt : pc'.weight < pc.weight) :
    (l.goto q i pc').weight < l.weight := by
  have := Links.weight_goto pc' hq hi
  omega

theorem Links.weight_modify_goto_lt (hu : ∀ x, (u x).buffer = x.buffer) (hq : q < l.hub.next)
    (hi : (l.sends q)[i]? = some pc) (hlt : pc'.weight < pc.weight) :
    ((l.modify q u).goto q i pc').weight < l.weight := by
  have := Links.weight_goto_lt (l := l.modify q u) hq hi hlt
  rwa [Links.weight_modify_same hu] at this

theorem Links.weight_launch {o : Option ℕ} (ho : ∀ q, o = some q → q < l.hub.next) :
    (l.launch o).weight ≤ l.weight + 7 := by
  cases o with
  | none => exact Nat.le_add_right _ _
  | some q =>
    have hsum : (l.launch (some q)).weight + l.work q = l.weight + (l.launch (some q)).work q := by
      refine sum_range_exchange (ho q rfl) fun j hj => ?_
      simp only [Links.work, Links.launch, Function.update_of_ne hj]
    have hself : (l.launch (some q)).work q = l.work q + 7 := by
      simp only [Links.work, Links.launch, Function.update_self, List.map_append, List.sum_append, List.map_cons,
        List.map_nil, List.sum_cons, List.sum_nil, SendPc.weight]
      omega
    omega

/-- `Add` launches at most one `Send`, and a new link is empty. -/
theorem Links.weight_add (id m : KSUID) (hfresh : ∀ r, l.hub.next ≤ r → l.sends r = []) :
    (l.add id m).weight ≤ l.weight + 7 := by
  have hhub : ({ l with hub := (LinkHub.add l.hub id m).1 } : Links KSUID).weight = l.weight := by
    refine sum_range_grow LinkHub.next_le_add (fun r hr => ?_) fun r hr hr' => ?_
    · simp only [Links.work, Tracks.buffer_add_of_lt hr]
    · simp only [Links.work, Tracks.obj_add_new hr hr', hfresh r hr]
      rfl
  rw [← hhub]
  refine Links.weight_launch fun q hq => ?_
  rw [LinkHub.add_launch] at hq
  split_ifs at hq
  obtain rfl := Option.some.inj hq
  exact Registry.ref?_lt (LinkHub.ref?_add.trans (if_pos rfl))

/-- A new link has no chunks and no `Send`. -/
theorem Links.weight_setSort (m : KSUID) (sort : List KSUID) (hfresh : ∀ r, l.hub.next ≤ r → l.sends r = []) :
    (l.setSort m sort).weight = l.weight := by
  cases hq : l.hub.ref? m with
  | some q =>
    rw [Links.setSort_eq hq]
    exact Links.weight_modify_same fun _ => rfl
  | none =>
    refine sum_range_grow LinkHub.next_le_setSort (fun r hr => ?_) fun r hr hr' => ?_
    · have hne : r ≠ l.hub.next := hr.ne
      simp only [Links.work, Links.setSort, LinkHub.obj_setSort_of_lt hr, LinkHub.masterRef, hq, Option.getD_none,
        if_neg hne]
    · have hnext : (l.setSort m sort).hub.next = l.hub.next + 1 := by
        simp only [Links.setSort, LinkHub.setSort, hq]
        rfl
      obtain rfl : r = l.hub.next := by omega
      simp only [Links.work, Links.setSort, LinkHub.obj_setSort_new hq, hfresh _ le_rfl]
      rfl

theorem Links.weight_trySend {c : ℕ} (hq : l.hub.ref? m = some q) : (l.trySend m c).weight ≤ l.weight + 7 := by
  rw [Links.trySend_eq hq,
    ← Links.weight_modify_same (l := l) (q := q) (u := fun x => { x with conn := some c }) fun _ => rfl]
  refine Links.weight_launch fun r hr => ?_
  split_ifs at hr
  obtain rfl := Option.some.inj hr
  exact Registry.ref?_lt hq

theorem Links.weight_push {b : Buffer} {ok : Bool} (hq : q < l.hub.next) (h : l.push q b = some (l', ok)) :
    l'.weight ≤ l.weight + 5 := by
  rcases Links.push_cases h with ⟨-, -, ch, hitems, -, rfl⟩ | ⟨-, -, rfl⟩
  · have hsum := Links.weight_modify (u := fun x => { x with buffer := ch }) hq
    simp only [hitems, List.length_append, List.length_singleton] at hsum
    omega
  · exact Nat.le_add_right _ _

theorem Links.weight_handoff (hq : q < l.hub.next) (h : l.handoff q i = some l') : l'.weight + 1 = l.weight := by
  unfold Links.handoff at h
  split at h
  · rename_i e hi
    split_ifs at h
    cases h
    have hsum := Links.weight_goto (.closeDone e) hq hi
    simp only [SendPc.weight] at hsum
    omega
  · cases h

/-- A step of `Send` uses the potential: it is not at a closed or empty buffer, and its round has lanes. -/
theorem Links.weight_send (h : l.send q i .ok = some l') (hq : q < l.hub.next) (hrun : l'.crashed = false)
    (hsorted : (l.sends q)[i]? = some .loop → (l.hub.obj q).sorted ≠ [])
    (hread : ∀ src rest, (l.sends q)[i]? = some (.read src rest) →
      src < l.hub.next ∧ (l.hub.obj src).buffer.closed = false) : l'.weight < l.weight := by
  cases Links.sendStep_of_send h with
  | refuse hi => exact Links.weight_goto_lt hq hi (show 0 < 7 by omega)
  | enter hi => exact Links.weight_modify_goto_lt (fun _ => rfl) hq hi (Nat.lt_succ_self 6)
  | closed hi => exact Links.weight_goto_lt hq hi (show 3 < 6 by omega)
  | round hi =>
    refine Links.weight_goto_lt hq hi ?_
    cases hs : (l.hub.obj q).sorted with
    | nil => exact absurd hs (hsorted hi)
    | cons id rest => exact Nat.lt_succ_self 5
  | again hi => exact Links.weight_goto_lt hq hi (Nat.lt_succ_self 6)
  | next hi => exact Links.weight_goto_lt hq hi (Nat.lt_succ_self 4)
  | missing hi => exact Links.weight_goto_lt hq hi (show 3 < 5 by omega)
  | @read src rest x hi hx =>
    -- The chunk that is taken pays for the way back to the head of the loop.
    obtain ⟨hsrc, hopen⟩ := hread src rest hi
    have hlen : x.2.items.length + 1 = (l.hub.obj src).buffer.items.length := by
      rcases Chan.recv?_eq_some hx with ⟨hitems, -⟩ | ⟨-, hclosed, -⟩
      · rw [hitems, List.length_cons]
      · rw [hopen] at hclosed
        cases hclosed
    have hmod := Links.weight_modify (u := fun y => { y with buffer := x.2 }) hsrc
    have hgoto := Links.weight_goto (.write src x.1 rest) (l := l.modify src fun y => { y with buffer := x.2 })
      hq hi
    simp only [SendPc.weight] at hmod hgoto
    omega
  | noConn hi => exact Links.weight_goto_lt hq hi (show 3 < 8 by omega)
  | @write _ src c b rest x hi =>
    refine Links.weight_goto_lt (l := { l with socks := Function.update l.socks c x.1 }) hq hi ?_
    split_ifs
    · exact (by omega : 3 < 8)
    · exact (by omega : 3 < 8)
    · cases rest with
      | nil => exact Nat.lt_succ_self 7
      | cons id rest => exact (by omega : 5 < 8)
  | ret hi => exact Links.weight_modify_goto_lt (fun _ => rfl) hq hi (Nat.lt_succ_self 2)
  | panic => cases hrun
  | closeDone hi => exact Links.weight_modify_goto_lt (fun _ => rfl) hq hi (Nat.lt_succ_self 0)

end Links

end Wssocks.Pipe

namespace Wssocks.Wss

open Wssocks.Lib Wssocks.Pipe Finset

variable {S KSUID : Type} [DecidableEq KSUID] [Inhabited KSUID] {ids : S → List KSUID} {b : Book S} {sent : S → ℕ}
  {eof : S → Bool} {s s' : Server ℕ KSUID} {n w e q i : ℕ}

/-! ## The server -/

/-- What is left to do for the message that a reader handles. -/
def Reader.weight : Reader KSUID → ℕ
  | .hi _ _ => 8
  | .est _ _ => 15
  | .check _ _ => 7
  | .select _ _ => 6
  | _ => 0

/-- What is left to do for `establish` until it waits. -/
def EstPc.weight : EstPc → ℕ
  | .dial => 14
  | .linkTrySend => 13
  | .addProxy => 3
  | .queueTrySend => 2
  | .get => 1
  | _ => 0

def WaiterPc.weight : WaiterPc → ℕ
  | .get => 2
  | .wait _ => 1
  | _ => 0

def Est.weight (x : Est ℕ KSUID) : ℕ := x.pc.weight + x.waiter.weight

/-- What is left to do for the messages of websocket `w`. -/
def Server.backlog (s : Server ℕ KSUID) (w : ℕ) : ℕ := 16 * (s.inbox w).length + (s.reader w).weight

/-- The potential of the server with `n` websockets. -/
def Server.weight (n : ℕ) (s : Server ℕ KSUID) : ℕ :=
  ∑ w ∈ range n, s.backlog w + ∑ e ∈ range s.nextEst, (s.ests e).weight + s.links.weight

section Weight

variable {r : Reader KSUID} {u : Est ℕ KSUID → Est ℕ KSUID} {l : Links KSUID} {m : Msg KSUID} {ms : List (Msg KSUID)}
  {id : KSUID}

omit [Inhabited KSUID] in
theorem Server.weight_goReader (hw : w < n) :
    (s.goReader w r).weight n + (s.reader w).weight = s.weight n + r.weight := by
  have hsum : ∑ v ∈ range n, (s.goReader w r).backlog v + s.backlog w =
      ∑ v ∈ range n, s.backlog v + (s.goReader w r).backlog w := by
    refine sum_range_exchange hw fun v hv => ?_
    simp only [Server.backlog, Server.goReader, Function.update_of_ne hv]
  simp only [Server.backlog, Server.goReader, Function.update_self] at hsum
  simp only [Server.weight, Server.backlog, Server.goReader]
  omega

omit [Inhabited KSUID] in
theorem Server.weight_inbox (ms : List (Msg KSUID)) (hw : w < n) :
    ({ s with inbox := Function.update s.inbox w ms } : Server ℕ KSUID).weight n + 16 * (s.inbox w).length =
      s.weight n + 16 * ms.length := by
  have hsum : ∑ v ∈ range n, ({ s with inbox := Function.update s.inbox w ms } : Server ℕ KSUID).backlog v + s.backlog w =
      ∑ v ∈ range n, s.backlog v + ({ s with inbox := Function.update s.inbox w ms } : Server ℕ KSUID).backlog w := by
    refine sum_range_exchange hw fun v hv => ?_
    simp only [Server.backlog, Function.update_of_ne hv]
  simp only [Server.backlog, Function.update_self] at hsum
  simp only [Server.weight, Server.backlog]
  omega

omit [Inhabited KSUID] in
theorem Server.weight_arrive (hw : w < n) : (s.arrive w m).weight n = s.weight n + 16 := by
  have hin := Server.weight_inbox (s := s) (s.inbox w ++ [m]) hw
  rw [List.length_append, List.length_singleton] at hin
  show ({ s with inbox := Function.update s.inbox w (s.inbox w ++ [m]) } : Server ℕ KSUID).weight n = _
  omega

omit [Inhabited KSUID] in
theorem Server.weight_setEst (he : e < s.nextEst) :
    (s.setEst e u).weight n + (s.ests e).weight = s.weight n + (u (s.ests e)).weight := by
  have hsum : ∑ i ∈ range s.nextEst, ((s.setEst e u).ests i).weight + (s.ests e).weight =
      ∑ i ∈ range s.nextEst, (s.ests i).weight + ((s.setEst e u).ests e).weight := by
    refine sum_range_exchange (f := fun i => (s.ests i).weight) (g := fun i => ((s.setEst e u).ests i).weight) he
      fun i hi => ?_
    simp only [Server.setEst, Function.update_of_ne hi]
  simp only [Server.setEst, Function.update_self] at hsum
  simp only [Server.weight, Server.setEst, Server.backlog]
  omega

omit [Inhabited KSUID] in
theorem Server.weight_setEst_lt {t : Server ℕ KSUID} (ht : t.weight n = s.weight n) (he : e < t.nextEst)
    (hu : (u (t.ests e)).weight < (t.ests e).weight) : (t.setEst e u).weight n < s.weight n := by
  have := Server.weight_setEst (n := n) (u := u) he
  omega

omit [Inhabited KSUID] in
theorem Server.weight_spawn : (s.spawn w id).weight n = s.weight n + 14 := by
  have hnew : ((s.spawn w id).ests s.nextEst).weight = 14 := by
    simp only [Server.spawn, Function.update_self]
    rfl
  have hold : ∑ i ∈ range s.nextEst, ((s.spawn w id).ests i).weight = ∑ i ∈ range s.nextEst, (s.ests i).weight := by
    refine sum_congr rfl fun i hi => ?_
    simp only [Server.spawn, Function.update_of_ne (mem_range.mp hi).ne]
  have hnext : (s.spawn w id).nextEst = s.nextEst + 1 := rfl
  simp only [Server.weight, hnext, sum_range_succ, hold, hnew]
  simp only [Server.backlog, Server.spawn]
  omega

omit [Inhabited KSUID] in
theorem Server.weight_links :
    ({ s with links := l } : Server ℕ KSUID).weight n + s.links.weight = s.weight n + l.weight := by
  simp only [Server.weight, Server.backlog]
  omega

omit [DecidableEq KSUID] [Inhabited KSUID] in
theorem Reader.weight_le (r : Reader KSUID) : r.weight ≤ 15 := by
  cases r <;> simp [Reader.weight]

omit [Inhabited KSUID] in
/-- A message that is taken costs more than what it starts. -/
theorem Server.weight_dispatch (hw : w < n) (hidle : s.reader w = .idle) :
    (s.dispatch w m).weight n ≤ s.weight n + 15 := by
  have hgo : ∀ (qs : Queues KSUID (WsWriter ℕ KSUID)) (r : Reader KSUID),
      ({ s with queues := qs }.goReader w r).weight n ≤ s.weight n + 15 := by
    intro qs r
    have hsum := Server.weight_goReader (s := { s with queues := qs }) (r := r) hw
    have hle := r.weight_le
    rw [hidle] at hsum
    show _ ≤ ({ s with queues := qs } : Server ℕ KSUID).weight n + 15
    exact (Nat.le_add_right _ _).trans (hsum.trans_le (Nat.add_le_add_left hle _))
  cases m with
  | beats => exact Nat.le_add_right _ _
  | finish id =>
    simp only [Server.dispatch]
    split
    · exact hgo s.queues _
    · exact Nat.le_add_right _ _
  | sayhi id m => exact hgo _ _
  | est id sorted => exact hgo _ _
  | data id tag bytes =>
    simp only [Server.dispatch]
    split
    · exact hgo s.queues _
    · exact Nat.le_add_right _ _

end Weight

/-! ## The steps -/

section Steps

variable {p : Parcel S} {σ : S}

theorem laneOf_lt {n j : ℕ} (hn : 0 < n) : laneOf n j < n := by
  unfold laneOf
  split_ifs with h1 h2
  · exact h1
  · exact hn
  · exact Nat.mod_lt _ hn

theorem Posted.lane_lt (h : Posted ids b sent eof s) (hids : Sessions ids n) (hp : p ∈ b.wire w) : w < n := by
  rw [← h.lane hp, hids.length]
  exact laneOf_lt hids.pos

theorem Posted.busy_lt (h : Posted ids b sent eof s) (hids : Sessions ids n) (hr : s.reader w ≠ .idle) : w < n := by
  obtain ⟨p, rest, hw, -⟩ := h.busy hr
  exact h.lane_lt hids (Posted.head_mem hw)

theorem MuxInv.weight_recv {m : Msg KSUID} {ms : List (Msg KSUID)} (inv : MuxInv ids b sent eof s)
    (hids : Sessions ids n) (hidle : s.reader w = .idle) (hin : s.inbox w = m :: ms) :
    ({ s with inbox := Function.update s.inbox w ms }.dispatch w m).weight n < s.weight n := by
  have hw : w < n := by
    rcases inv.lined w with ⟨-, hps⟩ | ⟨p, rest, hwire, -⟩
    · rw [hin] at hps
      cases hwire : b.wire w with
      | nil =>
        rw [hwire] at hps
        cases hps
      | cons p rest => exact inv.toPosted.lane_lt hids (Posted.head_mem hwire)
    · exact inv.toPosted.lane_lt hids (Posted.head_mem hwire)
  have hbox := Server.weight_inbox (s := s) ms hw
  have htake := Server.weight_dispatch (s := { s with inbox := Function.update s.inbox w ms }) (m := m) hw hidle
  rw [hin, List.length_cons] at hbox
  omega

theorem MuxInv.weight_reader (inv : MuxInv ids b sent eof s) (hids : Sessions ids n) (h : ReaderStep s w s') :
    s'.weight n < s.weight n := by
  have hidle : s.reader w ≠ .idle := by
    cases h with
    | hi hr | est hr | refuse hr | test hr | write hr | close hr | hubClose hr | hubDelete hr =>
      rw [hr]
      exact fun h0 => (by cases h0)
  have hw := inv.toPosted.busy_lt hids hidle
  obtain ⟨p, rest, -, -, hh⟩ := inv.toPosted.busy hidle
  have hgo : ∀ (l : Links KSUID) (r : Reader KSUID), ({ s with links := l }.goReader w r).weight n +
      (s.reader w).weight + s.links.weight = s.weight n + r.weight + l.weight := by
    intro l r
    have h1 := Server.weight_goReader (s := { s with links := l }) (r := r) hw
    have h2 := Server.weight_links (n := n) (s := s) (l := l)
    dsimp only at h1
    omega
  cases h with
  | @hi id m hr =>
    have hadd := Links.weight_add id m fun r => inv.fresh (r := r)
    have := hgo (s.links.add id m) .idle
    simp only [hr, Reader.weight] at this
    omega
  | @est id sorted hr =>
    have hsort := Links.weight_setSort id sorted fun r => inv.fresh (r := r)
    have := hgo (s.links.setSort id sorted) .idle
    simp only [hr, Reader.weight] at this
    rw [Server.weight_spawn]
    omega
  | refuse hr =>
    have hback := Server.weight_goReader (s := s) (r := .idle) hw
    simp only [hr, Reader.weight] at hback
    omega
  | @test q x hr =>
    have hon := Server.weight_goReader (s := s) (r := .select q x) hw
    simp only [hr, Reader.weight] at hon
    omega
  | @write q x l ok hr hpush =>
    rw [hr] at hh
    obtain ⟨t, -, hq, -⟩ := hh
    obtain ⟨c, hc⟩ := b.exists_conn s.nextEst p.owner
    have hpay := Links.weight_push ((inv.seat hc).merge.tracks.link_lt hq).2 hpush
    have := hgo l .idle
    simp only [hr, Reader.weight] at this
    omega
  | close hr | hubClose hr | hubDelete hr =>
    rw [hr] at hh
    exact hh.elim

/-- The link of the session for which `establish` runs. -/
theorem MuxInv.ref?_est (inv : MuxInv ids b sent eof s) (he : e < s.nextEst) :
    ∃ r, s.links.hub.ref? (s.ests e).id = some r := by
  obtain ⟨σ, hb, hm, hd, -⟩ := inv.est he
  have hc : b.Conn s.nextEst σ e := by rwa [Book.Conn, if_pos he]
  obtain ⟨r, hr⟩ := (inv.seat hc).link_of_sorted ((inv.seat hc).sorted hd)
  exact ⟨r, (inv.seat hc).ref?_master hm hr⟩

/-- `establish` goes on, before it waits. -/
theorem MuxInv.weight_est (inv : MuxInv ids b sent eof s) (he : e < s.nextEst)
    (hcalm : (s.ests e).pc.beforeWait = true) (h : EstStep s e s') : s'.weight n < s.weight n := by
  cases h with
  | linkTrySend hpc =>
    obtain ⟨r, href⟩ := inv.ref?_est he
    have htry := Links.weight_trySend (c := e) href
    have hlinks := Server.weight_links (n := n) (s := s) (l := s.links.trySend (s.ests e).id e)
    have hset := Server.weight_setEst (n := n) (s := { s with links := s.links.trySend (s.ests e).id e })
      (u := fun x => { x with pc := .addProxy, waiter := .get }) he
    simp only [Est.weight, hpc, EstPc.weight, WaiterPc.weight] at hset
    omega
  | addProxy hpc | queueTrySend hpc | get hpc =>
    exact Server.weight_setEst_lt rfl he (by simp [Est.weight, hpc, EstPc.weight])
  | nilWait hpc | wake hpc | removeProxy hpc | connClose hpc | close hpc =>
    rw [hpc] at hcalm
    cases hcalm

omit [Inhabited KSUID] in
theorem Server.weight_waiter (he : e < s.nextEst) (h : WaiterStep s e s') : s'.weight n < s.weight n := by
  cases h with
  | get hw =>
    refine Server.weight_setEst_lt rfl he ?_
    cases s.links.hub.ref? (s.ests e).id <;> simp [Est.weight, hw, WaiterPc.weight]
  | wake hw => exact Server.weight_setEst_lt rfl he (by simp [Est.weight, hw, WaiterPc.weight])

theorem MuxInv.sends_lt (inv : MuxInv ids b sent eof s) (hne : s.links.sends q ≠ []) : q < s.links.hub.next :=
  not_le.mp fun hle => hne (inv.fresh hle)

/-- `Send` goes on. -/
theorem MuxInv.weight_send {l : Links KSUID} (inv : MuxInv ids b sent eof s) (hids : Sessions ids n)
    (h : s.links.send q i .ok = some l) (hrun : l.crashed = false) : l.weight < s.links.weight := by
  have hne : s.links.sends q ≠ [] := by
    intro h0
    simp [Links.send, h0] at h
  obtain ⟨σ, e, pc, hσ, -, -, hc, hs, hat⟩ := inv.sender hne
  have hseat := inv.seat hc
  have hlaunch := (hseat.merge.at_pc hσ (hs ▸ List.mem_singleton_self pc)).2.1
  refine Links.weight_send h (inv.sends_lt hne) hrun (fun _ => ?_) fun src rest hi => ?_
  · rw [hseat.merge.tracks.sorted hσ, hlaunch.sorted, if_pos rfl]
    exact List.ne_nil_of_length_pos (hids.length_pos σ)
  · rw [hs] at hi
    obtain rfl := List.mem_singleton.mp (List.mem_of_getElem? hi)
    obtain ⟨-, -, k, -, -, hk, -⟩ := hat
    exact ⟨(hseat.merge.tracks.link_lt hk).2, hseat.closed_buffer hk⟩

/-- Every step of the server uses the potential. -/
theorem MuxInv.weight_lt [DecidableEq S] {a : ServerLabel ℕ KSUID} {out : Option (ℕ × Msg KSUID)}
    (inv : MuxInv ids b sent eof s) (hids : Sessions ids n) (hcalm : s.Calm a) (h : s.step a = some (s', out)) :
    s'.weight n < s.weight n := by
  obtain ⟨b', -, inv'⟩ := inv.server_step hids hcalm h
  cases ServerStep.of_step h with
  | recv hidle hin => exact inv.weight_recv hids hidle hin
  | reader h1 => exact inv.weight_reader hids h1
  | waiter he h1 => exact Server.weight_waiter he h1
  | @linkDone q i e l he hw hl =>
    have hne : s.links.sends q ≠ [] := by
      intro h0
      simp [Links.handoff, h0] at hl
    have hlinks := Server.weight_links (n := n) (s := s) (l := l)
    have hhand := Links.weight_handoff (inv.sends_lt hne) hl
    have hset := Server.weight_setEst (n := n) (s := { s with links := l }) (u := fun x => { x with waiter := .done }) he
    simp only [Est.weight, hw, WaiterPc.weight] at hset
    omega
  | @dial e o he hpc =>
    obtain rfl : o = .connected := hcalm
    exact Server.weight_setEst_lt rfl he (by simp [Est.weight, hpc, EstPc.weight])
  | est he h1 => exact inv.weight_est he hcalm h1
  | @linkSend q i o l hl =>
    obtain rfl : o = .ok := hcalm
    have hlinks := Server.weight_links (n := n) (s := s) (l := l)
    have hsend := inv.weight_send hids hl inv'.sound.running
    omega
  | writeTimeout | disconnect | hubClose | stop | tell | copyRead | copy | copyTimeout | queueSend | queueDone =>
    exact hcalm.elim

end Steps

/-! ## Whole runs -/

section Run

variable [DecidableEq S] {ls : List (MuxLabel S KSUID)} {t : Mux S KSUID} {σ : S}

/-- The step is one of a client. -/
def MuxLabel.isPost : MuxLabel S KSUID → Bool
  | .post _ _ => true
  | .act _ => false

theorem exists_inv_step (hids : Sessions ids n) (t : Mux S KSUID) (a : MuxLabel S KSUID) (t' : Mux S KSUID)
    (h : ∃ b, MuxInv ids b t.sent t.eof t.server) (hcalm : t.Calm a) (hstep : t.step ids a = some t') :
    ∃ b, MuxInv ids b t'.sent t'.eof t'.server := by
  obtain ⟨b, inv⟩ := h
  exact inv.step hids hcalm hstep

theorem weight_act (hids : Sessions ids n) {a : ServerLabel ℕ KSUID} {t t' : Mux S KSUID}
    (h : ∃ b, MuxInv ids b t.sent t.eof t.server) (hcalm : t.Calm (.act a)) (hstep : t.step ids (.act a) = some t') :
    t'.server.weight n < t.server.weight n := by
  obtain ⟨b, inv⟩ := h
  obtain ⟨⟨s', out⟩, hs', rfl⟩ := Option.map_eq_some_iff.mp hstep
  exact inv.weight_lt hids hcalm hs'

/-- The server's work for the messages of all sessions is bounded by their number, whatever the sizes of the chunks. -/
theorem multiplexed_work (hids : Sessions ids n) (h : Run (Mux.step ids) Mux.Calm Mux.init ls t) :
    ls.countP (fun a => !a.isPost) ≤ 16 * ls.countP MuxLabel.isPost := by
  have hinit : (Server.init : Server ℕ KSUID).weight n = 0 := by
    simp [Server.weight, Server.backlog, Server.init, Links.weight, Links.init, Registry.empty, Reader.weight]
  have hle := h.count_le (I := fun t => ∃ b, MuxInv ids b t.sent t.eof t.server) (fun t => t.server.weight n)
    (p := MuxLabel.isPost) (c := 16) ⟨_, MuxInv.init⟩ (exists_inv_step hids) ?_ ?_
  · have : (Mux.init : Mux S KSUID).server.weight n = 0 := hinit
    omega
  · intro t a t' _ _ hstep hp
    cases a with
    | act => cases hp
    | post σ x =>
      obtain ⟨-, hstep⟩ := Option.ite_none_left_eq_some.mp hstep
      cases hstep
      exact (Server.weight_arrive (hids.length σ ▸ laneOf_lt (hids.length_pos σ))).le
  · intro t a t' hinv hcalm hstep hp
    cases a with
    | post => cases hp
    | act a => exact weight_act hids hinv hcalm hstep

theorem multiplexed_work_first :
    firstChunk.countP (fun a => !a.isPost) ≤ 16 * firstChunk.countP MuxLabel.isPost := by
  have hexec : (exec (Mux.step twoSessions) (fun t a => decide (t.Calm a)) Mux.init firstChunk).map (fun _ => ()) =
      some () := by
    decide +kernel
  obtain ⟨t, hrun, -⟩ := exists_run_of_exec hexec
  exact multiplexed_work sessions_twoSessions (hrun.mono fun _ _ h => of_decide_eq_true h)

/-- The server can do nothing until a client sends something. -/
def Mux.Settled (ids : S → List KSUID) (t : Mux S KSUID) : Prop :=
  ∀ a, t.Calm (.act a) → t.step ids (.act a) = none

theorem Mux.Settled.step (h : t.Settled ids) {a : ServerLabel ℕ KSUID} (hcalm : t.server.Calm a) :
    ¬ (t.server.step a).isSome := by
  intro hs
  have hnone := h a hcalm
  rw [Mux.step, Option.map_eq_none_iff] at hnone
  rw [hnone] at hs
  cases hs

/-- The server can go on until it can do nothing more. -/
theorem exists_settled (hids : Sessions ids n) (h : Run (Mux.step ids) Mux.Calm Mux.init ls t) :
    ∃ as t', Run (Mux.step ids) Mux.Calm t as t' ∧ t'.Settled ids ∧ t'.eof = t.eof ∧
      ∀ a ∈ as, MuxLabel.isPost a = false := by
  have h0 : ∃ b, MuxInv ids b t.sent t.eof t.server := by
    refine h.invariant (I := fun t => ∃ b, MuxInv ids b t.sent t.eof t.server) ⟨_, MuxInv.init⟩ ?_
    exact exists_inv_step hids
  obtain ⟨as, t', hrun, -, hend⟩ := exists_run_to_end (Mux.step ids)
    (fun t a => t.Calm a ∧ a.isPost = false) (fun t => t.server.weight n) h0
    (fun t a t' hinv hok => exists_inv_step hids t a t' hinv hok.1) (by
      rintro t a t' hinv ⟨hcalm, hp⟩ hstep
      cases a with
      | post => cases hp
      | act a => exact weight_act hids hinv hcalm hstep)
  have hacts : t'.eof = t.eof ∧ ∀ a ∈ as, MuxLabel.isPost a = false := by
    refine hrun.trace_invariant (I := fun as t' => t'.eof = t.eof ∧ ∀ a ∈ as, MuxLabel.isPost a = false)
      ⟨rfl, fun a ha => (by cases ha)⟩ ?_
    rintro as t1 a t2 ⟨heof, hall⟩ ⟨-, hp⟩ hstep
    cases a with
    | post => cases hp
    | act a =>
      obtain ⟨r, -, rfl⟩ := Option.map_eq_some_iff.mp hstep
      refine ⟨heof, fun x hx => ?_⟩
      rcases List.mem_append.mp hx with hx | hx
      · exact hall x hx
      · rw [List.mem_singleton.mp hx]
        rfl
  exact ⟨as, t', hrun.mono fun _ _ hok => hok.1, fun a hcalm => hend _ ⟨hcalm, rfl⟩, hacts⟩

/-- When the server can do nothing more, the sessions that have sent everything were delivered completely. -/
theorem multiplexed_complete (hids : Sessions ids n) (h : Run (Mux.step ids) Mux.Calm Mux.init ls t)
    (hset : t.Settled ids) (heof : t.eof σ = true) :
    ∃ e < t.server.nextEst, (ids σ)[0]? = some (t.server.ests e).id ∧ ∃ pre,
      (t.server.links.socks e).out = pre ++ [.closeWrite] ∧
        payloads pre = chunks (chunksSent (ids σ).length ls σ) := by
  obtain ⟨hsent, b, inv, hc⟩ := exists_book hids h
  obtain ⟨ds, x, hds, hx⟩ := hsent.last σ heof
  have hpos := hids.length_pos σ
  -- nothing is on its way
  have hwire : ∀ v, b.wire v = [] := by
    intro v
    by_contra hv
    obtain ⟨a, hcalm, hs⟩ := inv.handles hids ⟨v, hv⟩
    exact hset.step hcalm hs
  have hdone : ∀ j < t.sent σ, b.Done t.sent σ j := by
    refine fun j hj => ⟨hj, fun v p hp => ?_⟩
    rw [hwire v] at hp
    cases hp
  have hnum : t.sent σ = (ids σ).length + 1 + (chunksSent (ids σ).length ls σ).length := by
    have hlen := congrArg List.length hds
    rw [List.length_append, List.length_singleton, length_chunksSent] at hlen
    rw [length_chunksSent, hsent.count]
    omega
  -- `establish` has its connection
  obtain ⟨e, he, hb⟩ := inv.bossed (hdone (ids σ).length (by omega))
  obtain ⟨hid, -, hconn⟩ := inv.est_of_boss he hb
  have hc' : b.Conn t.server.nextEst σ e := by rwa [Book.Conn, if_pos he]
  have hseat := inv.seat hc'
  have hlink : (b.flow σ).lanes.conn = true := by
    rw [hconn]
    cases hpc : (t.server.ests e).pc with
    | dial =>
      refine absurd ?_ (hset.step (a := .dial e .connected) rfl)
      exact inv.can (.dial he hpc)
    | linkTrySend =>
      refine absurd ?_ (hset.step (a := .est e) (by simp [Server.Calm, hpc, EstPc.beforeWait]))
      exact inv.can (.est he (.linkTrySend hpc))
    | addProxy | queueTrySend | get | wait | removeProxy | connClose | close | tell | returned => rfl
  have hstuck : ∀ r, ¬ (t.server.links.send r 0 .ok).isSome := by
    intro r hs
    refine hset.step (a := .linkSend r 0 .ok) rfl ?_
    exact inv.can_send hs
  -- `Send` has taken all chunks, for it can take the next one if there is one
  have hall : (b.flow σ).merged = chunksSent (ids σ).length ls σ := by
    refine (hc.merged_prefix hseat.merge).eq_of_length_le (not_lt.mp fun hlt => ?_)
    obtain ⟨r, -, hs⟩ := hseat.send_isSome hpos (fun k hk => hdone k (by omega)) hlink (hdone _ (by omega))
      (inv.sound.opened e)
    exact hstuck r hs
  obtain ⟨r, hr⟩ := hseat.link_of_conn hlink
  have hready := hseat.ready (fun k hk => (hseat.counted hk).mpr (hdone k (by omega))) hlink r hr
  obtain ⟨pre, hexact, hout⟩ := hseat.closed_of_eof hr hready (hall.trans hds) hx (inv.sound.opened e) (hstuck r)
  obtain ⟨-, -, hdata⟩ := inv.merged_eq hsent hc hc' (hall.trans hds) hx
  exact ⟨e, he, hid, pre, hout, by rw [hexact.payload, hds, chunks_append_eof hdata]⟩

end Run

end Wssocks.Wss

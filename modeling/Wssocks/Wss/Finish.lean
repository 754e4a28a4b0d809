import Wssocks.Wss.Transfer

/-!
# The closing message

When the server has sent a whole response it sends `finish` on the master lane; the
client's reader then runs `remove`, whose `RemoveAll` takes the links away from under
`link.Send`, whatever is still buffered in them or on its way on another lane.

Results:

* `finish_truncates_response`: a run without timeout and failed write in which
  `link.Send` ends before it has written anything.
* `response_complete`: if `RemoveAll` runs for `finish` only when `link.Send` has ended or
  has the end of the stream in hand or next, every response is complete when `link.Send` has ended.
-/

namespace Wssocks.Pipe

open Wssocks.Lib

variable {KSUID : Type} [DecidableEq KSUID]

/-- `Send` returns, or has returned, an error. -/
def SendPc.broken {Src : Type} : SendPc KSUID Src → Bool
  | .ret e | .handoff e | .closeDone e | .exit e => e.isSome
  | _ => false

/-- `link.Send` has ended, or the chunk it holds or takes next is the end of the stream. -/
def Links.atEof (l : Links KSUID) : LinkSend KSUID → Bool
  | .read q _ => match (l.hub.obj q).buffer.items with
    | b :: _ => b.eof
    | [] => false
  | .write _ b _ => b.eof
  | .ret _ | .handoff _ | .closeDone _ | .exit _ => true
  | _ => false

variable {ids : List KSUID} {c r : ℕ} {f : Flow} {l l' : Links KSUID} {pc : LinkSend KSUID}

/-- While the links are there, `link.Send` fails only by a timeout or a failed write. -/
theorem MergeInv.send_live (inv : MergeInv ids c f l) (hlive : Live ids f l.hub)
    (hr : f.lanes.link 0 = some r) (hs : l.sends r = [pc]) (hb : pc.broken = false)
    (h : l.send r 0 .ok = some l') : ∃ pc', l'.sends r = [pc'] ∧ pc'.broken = false := by
  have hmove : ∀ {u pc'}, (Links.goto (l.modify r u) r 0 pc').sends r = [pc'] :=
    fun {u pc'} => sends_goto (l := l.modify r u) hs
  cases inv.merger with
  | idle h1 => rw [h1 r hr] at hs; cases hs
  | @run r' pc' hr' hs' hl hat =>
    cases hr.symm.trans hr'
    cases List.cons.inj (hs.symm.trans hs') |>.1
    have hpc : ∀ {pc'}, (l.sends r)[0]? = some pc' → pc = pc' := by
      intro pc' hi
      rw [hs] at hi
      exact Option.some.inj hi
    cases Links.sendStep_of_send h with
    | refuse | round | again | next => exact ⟨_, sends_goto hs, rfl⟩
    | enter => exact ⟨_, hmove, rfl⟩
    | closed _ hst =>
      -- the status is not `close`: the link is registered, so its buffer is open
      have h1 := inv.tracks.status_close hr hst
      rw [(inv.tracks.open_iff hr).mpr (hlive.trans hr)] at h1
      cases h1
    | missing hi hnone =>
      obtain rfl := hpc hi
      obtain ⟨-, -, i, -, hdrop, -⟩ := hat
      obtain ⟨hi', -, hlane⟩ := lane_of_drop (h := l.hub) hdrop
      exact absurd hlive (inv.not_live hl hi' (hlane.trans hnone))
    | @read q => exact ⟨_, sends_goto (l := l.modify q _) hs, rfl⟩
    | noConn _ hconn =>
      rw [inv.tracks.conn hr, hl.conn, if_pos rfl] at hconn
      cases hconn
    | @write _ _ _ b _ _ _ _ hx =>
      refine ⟨_, sends_goto (l := { l with socks := _ }) hs, ?_⟩
      rw [safeWrite_ok hx]
      cases b.eof <;> rfl
    | ret hi | closeDone hi =>
      obtain rfl := hpc hi
      exact ⟨_, hmove, hb⟩
    | panic => exact ⟨_, hs, hb⟩

/-- Once the end of the stream is next, `link.Send` ends without an error. -/
theorem MergeInv.send_atEof (inv : MergeInv ids c f l) (hr : f.lanes.link 0 = some r)
    (hs : l.sends r = [pc]) (hb : pc.broken = false) (ha : l.atEof pc = true)
    (h : l.send r 0 .ok = some l') :
    ∃ pc', l'.sends r = [pc'] ∧ pc'.broken = false ∧ l'.atEof pc' = true := by
  have hmove : ∀ {u pc'}, (Links.goto (l.modify r u) r 0 pc').sends r = [pc'] :=
    fun {u pc'} => sends_goto (l := l.modify r u) hs
  have hpc : ∀ {pc'}, (l.sends r)[0]? = some pc' → pc = pc' := by
    intro pc' hi
    rw [hs] at hi
    exact Option.some.inj hi
  cases Links.sendStep_of_send h with
  | refuse hi | enter hi | closed hi | round hi | again hi | next hi | missing hi =>
    obtain rfl := hpc hi
    cases ha
  | @read q _ x hi hx =>
    obtain rfl := hpc hi
    refine ⟨_, sends_goto (l := l.modify q _) hs, rfl, ?_⟩
    simp only [Links.atEof] at ha ⊢
    rcases Chan.recv?_eq_some hx with ⟨h1, -⟩ | ⟨h1, -⟩
    · rw [h1] at ha; exact ha
    · rw [h1] at ha; cases ha
  | noConn hi hconn =>
    cases inv.merger with
    | idle h1 => rw [h1 r hr] at hs; cases hs
    | run _ _ hl =>
      rw [inv.tracks.conn hr, hl.conn, if_pos rfl] at hconn
      cases hconn
  | @write _ _ _ b _ _ hi _ hx =>
    obtain rfl := hpc hi
    have hb' : b.eof = true := ha
    refine ⟨_, sends_goto (l := { l with socks := _ }) hs, ?_⟩
    rw [safeWrite_ok hx, hb']
    exact ⟨rfl, rfl⟩
  | ret hi | closeDone hi =>
    obtain rfl := hpc hi
    exact ⟨_, hmove, hb, rfl⟩
  | panic => exact ⟨_, hs, hb, ha⟩

end Wssocks.Pipe

namespace Wssocks.Wss

open Wssocks.Lib Wssocks.Pipe

variable {KSUID : Type} [DecidableEq KSUID] [Inhabited KSUID]

/-! ## The condition -/

/-- The links may be taken away: `link.Send` was not started and will not be, or it has
    ended, or the end of the stream is next. -/
def Client.drained (s : Client KSUID) : Bool :=
  match s.pc with
  | .setConn _ | .setLinkSort _ | .goLinkSend _ => false
  | .wait o => (s.links.sends o).all s.links.atEof
  | _ => true

/-- `establish` waited for a `queue.Send` that returned no error: it has written every chunk and
    then the end of the stream. -/
def Server.answered (s : Server ℕ KSUID) (e : ℕ) : Bool :=
  match (s.ests e).writer with
  | some q => (s.queues.sends q).any fun pc => pc.ended && !pc.broken
  | none => false

/-- No timeout and no failed write, and `finish` is sent only after a whole response. -/
def System.responds (s : System KSUID) (l : SysLabel KSUID) : Bool :=
  !l.fails && match l with
    | .server (.tell e _) => s.server.answered e
    | _ => true

/-- The condition under which a response is complete: `RemoveAll` runs for `finish` only
    when the links are drained, and no second body of `queue.Send` starts. -/
def System.drains (s : System KSUID) (l : SysLabel KSUID) : Bool :=
  match l with
  | .client (.reader i) => match s.client.reader i with
    | .remove _ .links => s.client.drained
    | _ => true
  | .server (.queueSend q i _) => decide (s.server.queues.SecondOk q i)
  | _ => true

/-! ## The invariant -/

/-- `link.Send` has not failed, and will not. -/
structure Sealed (m : KSUID) (s : Client KSUID) : Prop where
  ends : ∀ r, ∀ pc ∈ s.links.sends r, pc.broken = false
  gone : s.links.hub.ref? m = none → s.drained = true

variable {ids : List KSUID} {m : KSUID} {est est' : Bool} {src src' : Source} {f f' : Flow}
  {s s' : Client KSUID} {l : ClientLabel}

theorem Sealed.init : Sealed m (Client.init : Client KSUID) := ⟨nofun, fun _ => rfl⟩

omit [Inhabited KSUID] in
/-- A step that leaves the goroutines of the links and `transData` alone. -/
theorem Sealed.of_same (h : Sealed m s) (hs : s'.links.sends = s.links.sends) (hpc : s'.pc = s.pc)
    (hr : s'.links.hub.ref? m = s.links.hub.ref? m ∨ s.drained = true)
    (ha : ∀ pc, s.links.atEof pc = true → s'.links.atEof pc = true) : Sealed m s' where
  ends := by rw [hs]; exact h.ends
  gone := by
    intro h1
    have h2 : s.drained = true := hr.elim (fun h3 => h.gone (h3 ▸ h1)) fun h3 => h3
    unfold Client.drained at h2 ⊢
    rw [hpc, hs]
    cases hp : s.pc with
    | wait o =>
      rw [hp] at h2
      exact List.all_eq_true.mpr fun pc h3 => ha pc (List.all_eq_true.mp h2 pc h3)
    | setConn o | setLinkSort o | goLinkSend o => rw [hp] at h2; cases h2
    | _ => rfl

omit [Inhabited KSUID] in
/-- `transData` moves on. -/
theorem Sealed.setPc (h : Sealed m s) (hs : s'.links.sends = s.links.sends)
    (hpc : (s'.links.hub.ref? m = none → s'.links.hub.ref? m = s.links.hub.ref? m ∧ s.drained = false) ∨
      (∀ o, s'.pc ≠ .wait o ∧ s'.pc ≠ .setConn o ∧ s'.pc ≠ .setLinkSort o ∧ s'.pc ≠ .goLinkSend o)) :
    Sealed m s' where
  ends := by rw [hs]; exact h.ends
  gone := by
    intro h1
    rcases hpc with h2 | h2
    · obtain ⟨h3, h4⟩ := h2 h1
      rw [h.gone (h3 ▸ h1)] at h4
      cases h4
    · unfold Client.drained
      cases hp : s'.pc with
      | wait o => exact absurd hp (h2 o).1
      | setConn o => exact absurd hp (h2 o).2.1
      | setLinkSort o => exact absurd hp (h2 o).2.2.1
      | goLinkSend o => exact absurd hp (h2 o).2.2.2
      | _ => rfl

/-- `link.Send` runs only while `transData` waits for it, or after. -/
theorem ClientInv.pc_of_sends {r : ℕ} (inv : ClientInv ids m est src f s) (h : s.links.sends r ≠ []) :
    f.lanes.link 0 = some r ∧ (s.pc = .wait r ∨ (s.pc.over = true ∧ MergerDone f s.links)) := by
  have hr : f.lanes.link 0 = some r := by
    by_contra h1
    exact h (inv.lsolo r h1)
  have hest : est = true := by
    by_contra h1
    exact h ((inv.mute (by simpa using h1)).2.2.2 r)
  have hat := inv.trans
  refine ⟨hr, ?_⟩
  cases hpc : s.pc with
  | newProxy i | sayID i | queueAdd i | linkAdd i | establish =>
    rw [hpc] at hat
    exact absurd (hat.1.symm.trans hest) (by simp)
  | getQueue => rw [hpc] at hat; exact absurd (hat.2.1.sends r hr) h
  | setQueueSort q => rw [hpc] at hat; exact absurd (hat.2.2.1.sends r hr) h
  | goSend q => rw [hpc] at hat; exact absurd (hat.2.2.2.1.sends r hr) h
  | goCopy q => rw [hpc] at hat; exact absurd (hat.2.2.1.sends r hr) h
  | getLink => rw [hpc] at hat; exact absurd (hat.2.sends r hr) h
  | setConn o | setLinkSort o | goLinkSend o => rw [hpc] at hat; exact absurd (hat.2.2.sends r hr) h
  | wait o =>
    rw [hpc] at hat
    cases hr.symm.trans hat.2
    exact .inl rfl
  | remove a | cancel i | rmProxy i | returned =>
    rw [hpc] at hat
    refine .inr ⟨rfl, ?_⟩
    rcases hat with h1 | h1
    · exact h1
    · exact absurd (h1 r hr) h

/-- The goroutine of the session's link. -/
theorem ClientInv.sends_eq {r : ℕ} (inv : ClientInv ids m est src f s) (h : s.links.sends r ≠ []) :
    ∃ pc, s.links.sends r = [pc] := by
  obtain ⟨hr, -⟩ := inv.pc_of_sends h
  cases inv.merge.merger with
  | idle h1 => exact absurd (h1 r hr) h
  | @run r' pc h1 h2 _ _ =>
    cases hr.symm.trans h1
    exact ⟨pc, h2⟩

/-- A step of `link.Send`. -/
theorem Sealed.linkSend {q i : ℕ} {lk : Links KSUID} (h : Sealed m s) (inv : ClientInv ids m est src f s)
    (hm : ids[0]? = some m) (hstep : s.links.send q i .ok = some lk) : Sealed m { s with links := lk } := by
  have hne : s.links.sends q ≠ [] := by
    intro h1
    simp [Links.send, h1] at hstep
  obtain ⟨hq, hpc⟩ := inv.pc_of_sends hne
  obtain ⟨pc, hs⟩ := inv.sends_eq hne
  cases i with
  | succ i => simp [Links.send, hs] at hstep
  | zero =>
    have hb := h.ends q pc (by rw [hs]; simp)
    have hmv := Links.send_moved hstep
    obtain ⟨pc1, hsends⟩ := hmv.sends
    have hother : ∀ r, r ≠ q → lk.sends r = s.links.sends r := by
      intro r hr
      rw [hsends, Function.update_of_ne hr]
    have key : ∀ {pc'}, lk.sends q = [pc'] → pc'.broken = false →
        (lk.hub.ref? m = none → lk.atEof pc' = true) → Sealed m { s with links := lk } := by
      intro pc' h1 h2 h3
      refine ⟨fun r x hx => ?_, fun hnone => ?_⟩
      · replace hx : x ∈ lk.sends r := hx
        by_cases hr : r = q
        · subst hr
          rw [h1] at hx
          cases List.mem_singleton.mp hx
          exact h2
        · rw [hother r hr] at hx
          exact h.ends r x hx
      · unfold Client.drained
        rcases hpc with hp | ⟨hp, -⟩
        · simp only [hp, h1, List.all_cons, List.all_nil, Bool.and_true]
          exact h3 hnone
        · cases hp' : s.pc <;> rw [hp'] at hp <;> first | rfl | cases hp
    by_cases hnone : s.links.hub.ref? m = none
    · -- the links are gone: the end of the stream is next
      have ha : s.links.atEof pc = true := by
        rcases hpc with hp | ⟨-, r, pc', h1, h2, h3⟩
        · have := h.gone hnone
          simp only [Client.drained, hp, hs, List.all_cons, List.all_nil, Bool.and_true] at this
          exact this
        · cases hq.symm.trans h1
          cases List.cons.inj (hs.symm.trans h2) |>.1
          cases pc <;> first | rfl | cases h3
      obtain ⟨pc', h1, h2, h3⟩ := inv.merge.send_atEof hq hs hb ha hstep
      exact key h1 h2 fun _ => h3
    · have hlive : Live ids f s.links.hub := by
        obtain ⟨r, hr⟩ := Option.ne_none_iff_exists'.mp hnone
        unfold Live
        rw [inv.lfirst hr]
        simpa [LinkHub.lane, hm] using hr
      obtain ⟨pc', h1, h2⟩ := inv.merge.send_live hlive hq hs hb hstep
      exact key h1 h2 fun h3 => absurd (hmv.ref? m ▸ h3) hnone

omit [Inhabited KSUID] in
/-- The items in the links stay when the links are taken away. -/
theorem Links.atEof_removeAll {lk : Links KSUID} (pc : LinkSend KSUID) :
    (lk.removeAll m).atEof pc = lk.atEof pc := by
  cases pc with
  | read q rest =>
    have hitems : ((lk.removeAll m).hub.obj q).buffer.items = (lk.hub.obj q).buffer.items := by
      show ((LinkHub.removeAll lk.hub m).obj q).buffer.items = _
      cases hq : lk.hub.ref? m with
      | none => rw [LinkHub.removeAll_missing hq]
      | some r =>
        rw [LinkHub.obj_removeAll hq]
        split_ifs
        · rw [Link.items_close]
        · rfl
    simp only [Links.atEof, hitems]
  | _ => rfl

omit [Inhabited KSUID] in
/-- A chunk is appended behind what is there. -/
theorem Links.atEof_push {lk lk' : Links KSUID} {q : ℕ} {b : Buffer} {ok : Bool}
    (h : lk.push q b = some (lk', ok)) {pc : LinkSend KSUID} (ha : lk.atEof pc = true) :
    lk'.atEof pc = true := by
  rcases Links.push_cases h with ⟨-, -, ch, hitems, -, rfl⟩ | ⟨-, -, rfl⟩
  · cases pc with
    | read r rest =>
      simp only [Links.atEof, Links.hub_modify, Registry.obj_modify] at ha ⊢
      split_ifs with hr
      · subst hr
        simp only [hitems]
        cases hb : (lk.hub.obj r).buffer.items with
        | nil => rw [hb] at ha; cases ha
        | cons x xs => rw [hb] at ha; exact ha
      · exact ha
    | _ => exact ha
  · exact ha

/-- An operation of `transData`. -/
theorem Sealed.transStep {out : Option (ℕ × Msg KSUID)} (h : Sealed m s)
    (inv' : ClientInv ids m est' src' f' s') (hm : ids[0]? = some m)
    (hstep : s.transStep ids = some (s', out)) : Sealed m s' := by
  have hmid := masterID_eq hm
  cases hpc : s.pc with
  | newProxy i =>
    simp only [Client.transStep, hpc] at hstep
    split_ifs at hstep <;> cases hstep <;> exact h.setPc rfl (.inr (by simp))
  | sayID i | queueAdd i | establish | setQueueSort q | goSend q | goCopy q | rmProxy i =>
    simp only [Client.transStep, hpc, Option.some.injEq, Prod.mk.injEq] at hstep
    obtain ⟨rfl, -⟩ := hstep
    exact h.setPc rfl (.inr (by simp))
  | linkAdd i =>
    simp only [Client.transStep, hpc, Option.some.injEq, Prod.mk.injEq] at hstep
    obtain ⟨rfl, -⟩ := hstep
    have hnone := (inv'.mute inv'.trans.1).2.2.2
    refine ⟨fun r pc hx => ?_, fun _ => rfl⟩
    rw [hnone r] at hx
    cases hx
  | getQueue =>
    simp only [Client.transStep, hpc] at hstep
    split at hstep <;> cases hstep <;> exact h.setPc rfl (.inr (by simp))
  | getLink =>
    simp only [Client.transStep, hpc, hmid] at hstep
    split at hstep
    · rename_i o ho
      cases hstep
      refine h.setPc rfl (.inl fun h1 => ?_)
      rw [ho] at h1
      cases h1
    · cases hstep; exact h.setPc rfl (.inr (by simp))
  | setConn o | setLinkSort o =>
    simp only [Client.transStep, hpc, Option.some.injEq, Prod.mk.injEq] at hstep
    obtain ⟨rfl, -⟩ := hstep
    exact h.setPc rfl (.inl fun _ => ⟨rfl, by simp only [Client.drained, hpc]⟩)
  | goLinkSend o =>
    simp only [Client.transStep, hpc, Option.some.injEq, Prod.mk.injEq] at hstep
    obtain ⟨rfl, -⟩ := hstep
    refine ⟨fun r pc hx => ?_, fun h1 => ?_⟩
    · replace hx : pc ∈ Function.update s.links.sends o (s.links.sends o ++ [.entry]) r := hx
      by_cases hr : r = o
      · subst hr
        rw [Function.update_self] at hx
        rcases List.mem_append.mp hx with h1 | h1
        · exact h.ends r pc h1
        · cases List.mem_singleton.mp h1; rfl
      · rw [Function.update_of_ne hr] at hx
        exact h.ends r pc hx
    · have h2 := h.gone h1
      simp only [Client.drained, hpc] at h2
      cases h2
  | wait o =>
    simp only [Client.transStep, hpc] at hstep
    split_ifs at hstep
    cases hstep
    exact h.setPc rfl (.inr (by simp))
  | remove a =>
    simp only [Client.transStep, hpc, Option.some.injEq, Prod.mk.injEq] at hstep
    obtain ⟨rfl, -⟩ := hstep
    refine h.setPc ?_ (.inr fun o => ?_)
    · cases a <;> simp only [Client.removeStep]
      · split_ifs <;> rfl
      · rfl
    · cases (s.removeStep (Client.masterID ids) a).2 <;> simp
  | cancel i =>
    cases i with
    | zero =>
      simp only [Client.transStep, hpc, Option.some.injEq, Prod.mk.injEq] at hstep
      obtain ⟨rfl, -⟩ := hstep
      exact h.setPc rfl (.inr (by simp))
    | succ i =>
      simp only [Client.transStep, hpc, Option.some.injEq, Prod.mk.injEq] at hstep
      obtain ⟨rfl, -⟩ := hstep
      exact h.setPc rfl (.inr (by simp))
  | returned => simp [Client.transStep, hpc] at hstep

/-- An operation of a reader: the links are taken away only when they are drained. -/
theorem Sealed.readerStep {w : ℕ} (h : Sealed m s) (inv : ClientInv ids m est src f s)
    (hdrain : ∀ id, s.reader w = .remove id .links → s.drained = true)
    (hstep : s.readerStep w = some s') : Sealed m s' := by
  have hat := inv.reader w
  cases hr : s.reader w with
  | idle => simp [Client.readerStep, hr] at hstep
  | check q b =>
    simp only [Client.readerStep, hr] at hstep
    split_ifs at hstep <;> cases hstep <;> exact h.of_same rfl rfl (.inl rfl) fun _ h1 => h1
  | select q b =>
    simp only [Client.readerStep, hr, Option.map_eq_some_iff] at hstep
    obtain ⟨⟨lk, ok⟩, hpush, rfl⟩ := hstep
    refine h.of_same ?_ rfl (.inl ?_) fun _ h1 => Links.atEof_push hpush h1
    · rcases Links.push_cases hpush with ⟨-, -, ch, -, -, rfl⟩ | ⟨-, -, rfl⟩ <;> rfl
    · rcases Links.push_cases hpush with ⟨-, -, ch, -, -, rfl⟩ | ⟨-, -, rfl⟩ <;> rfl
  | remove id a =>
    rw [hr] at hat
    obtain ⟨rfl, rfl⟩ := hat
    simp only [Client.readerStep, hr, Option.some.injEq] at hstep
    subst hstep
    cases a with
    | test =>
      simp only [Client.removeStep]
      split_ifs <;> exact h.of_same rfl rfl (.inl rfl) fun _ h1 => h1
    | queue => exact h.of_same rfl rfl (.inl rfl) fun _ h1 => h1
    | links =>
      exact h.of_same rfl rfl (.inr (hdrain id hr)) fun pc h1 => (Links.atEof_removeAll pc).trans h1

/-- Every step of the client without a timeout and a failed write. -/
theorem Sealed.act {out : Option (ℕ × Msg KSUID)} (h : Sealed m s) (inv : ClientInv ids m est src f s)
    (inv' : ClientInv ids m est' src' f' s') (hm : ids[0]? = some m)
    (hfail : (SysLabel.client l : SysLabel KSUID).fails = false)
    (hdrain : ∀ w id, l = .reader w → s.reader w = .remove id .links → s.drained = true)
    (hstep : s.step ids l = some (s', out)) : Sealed m s' := by
  have same : s'.links = s.links → s'.pc = s.pc → Sealed m s' := fun h1 h2 =>
    h.of_same (by rw [h1]) h2 (.inl (by rw [h1])) fun _ h3 => by rw [h1]; exact h3
  unfold Client.step at hstep
  by_cases hcr : (s.queues.crashed || s.links.crashed) = true
  · rw [if_pos hcr] at hstep; cases hstep
  rw [if_neg hcr] at hstep
  cases l with
  | trans => exact h.transStep inv' hm hstep
  | transFail | writeTimeout w | copyTimeout => cases hfail
  | recv w =>
    simp only at hstep
    split at hstep
    · rename_i x xs _ _
      cases hstep
      cases x <;> simp only [Client.dispatch] <;> (try split_ifs) <;> (try split) <;>
        exact h.of_same rfl rfl (.inl rfl) fun _ h1 => h1
    · cases hstep
  | reader w =>
    simp only [Option.map_eq_some_iff, Prod.mk.injEq] at hstep
    obtain ⟨_, h1, rfl, -⟩ := hstep
    exact h.readerStep inv (fun id => hdrain w id rfl) h1
  | copyRead data er =>
    simp only [Option.map_eq_some_iff, Prod.mk.injEq] at hstep
    obtain ⟨_, -, rfl, -⟩ := hstep
    exact same rfl rfl
  | copy =>
    simp only [Option.map_eq_some_iff, Prod.mk.injEq] at hstep
    obtain ⟨_, -, rfl, -⟩ := hstep
    exact same rfl rfl
  | tellClose ok =>
    simp only at hstep
    split_ifs at hstep <;> cases hstep <;> exact same rfl rfl
  | queueSend q i o =>
    simp only [Option.bind_eq_some_iff] at hstep
    obtain ⟨_, -, h2⟩ := hstep
    split at h2
    · split_ifs at h2
      cases h2
      exact same rfl rfl
    · cases h2; exact same rfl rfl
  | linkSend q i o =>
    have ho : o = .ok := by simpa [SysLabel.fails] using hfail
    subst ho
    simp only [Option.map_eq_some_iff, Prod.mk.injEq] at hstep
    obtain ⟨lk, h1, rfl, -⟩ := hstep
    exact h.linkSend inv hm h1
  | linkDone q i =>
    simp only at hstep
    split_ifs at hstep
    simp only [Option.map_eq_some_iff, Prod.mk.injEq] at hstep
    obtain ⟨lk, h1, rfl, -⟩ := hstep
    refine ⟨fun r pc hx => ?_, fun _ => rfl⟩
    unfold Links.handoff at h1
    split at h1
    · rename_i e hi
      split_ifs at h1
      cases h1
      replace hx : pc ∈ Function.update s.links.sends q ((s.links.sends q).set i (.closeDone e)) r := hx
      by_cases hr : r = q
      · subst hr
        rw [Function.update_self] at hx
        rcases List.mem_or_eq_of_mem_set hx with h2 | rfl
        · exact h.ends r pc h2
        · exact h.ends r (.handoff e) (List.mem_of_getElem? hi)
      · rw [Function.update_of_ne hr] at hx
        exact h.ends r pc hx
    · cases h1

/-! ## Whole responses -/

/-- The links hold the two invariants along a run. -/
def Whole (ids : List KSUID) (m : KSUID) (s : System KSUID) : Prop :=
  (∃ v, SysInv ids m v s) ∧ Sealed m s.client

omit [Inhabited KSUID] in
theorem lossless_of_drains {t : System KSUID} {l : SysLabel KSUID} (hr : t.responds l = true)
    (hd : t.drains l = true) : t.Lossless l := by
  cases l with
  | client l =>
    cases l with
    | writeTimeout w | transFail => simp [System.responds, SysLabel.fails] at hr
    | _ => trivial
  | server l =>
    cases l with
    | writeTimeout w => simp [System.responds, SysLabel.fails] at hr
    | queueSend q i o =>
      have h1 : decide (t.server.queues.SecondOk q i) = true := hd
      show t.server.queues.SecondOk q i
      exact of_decide_eq_true h1
    | _ => trivial

theorem Whole.step {t t' : System KSUID} {l : SysLabel KSUID} (h : Whole ids m t) (hnd : ids.Nodup)
    (hm : ids[0]? = some m) (hr : t.responds l = true) (hd : t.drains l = true)
    (hstep : t.step ids l = some t') : Whole ids m t' := by
  obtain ⟨⟨v, inv⟩, hs⟩ := h
  refine ⟨inv.step hnd hm (lossless_of_drains hr hd) hstep, ?_⟩
  cases l with
  | client l =>
    simp only [System.step, Option.map_eq_some_iff] at hstep
    obtain ⟨⟨c, out⟩, h1, rfl⟩ := hstep
    obtain ⟨_, _, _, inv', -⟩ := inv.client.act hnd hm h1
    refine hs.act inv.client inv' hm ?_ (fun w id hl hw => ?_) h1
    · simpa [System.responds] using (Bool.and_eq_true_iff.mp hr).1
    · subst hl
      simpa only [System.drains, hw] using hd
  | server l =>
    simp only [System.step, Option.map_eq_some_iff] at hstep
    obtain ⟨⟨sv, out⟩, -, rfl⟩ := hstep
    cases out with
    | none => exact hs
    | some x => exact hs.of_same rfl rfl (.inl rfl) fun _ h1 => h1

/-- The whole of `reads` was written, and then the end of the stream. -/
def Complete (out : List ConnEvent) (reads : List (List UInt8)) : Prop :=
  ∃ pre, out = pre ++ [.closeWrite] ∧ written pre = reads.flatten

/-- The merger that has ended has written the end of the stream. -/
theorem Whole.complete {t : System KSUID} (h : Whole ids m t) (hend : t.client.links.Merged) :
    Complete (t.client.links.socks 0).out (t.server.ests 0).copy.reads := by
  obtain ⟨⟨v, inv⟩, hs⟩ := h
  obtain ⟨r, pc, hr, hsends, hpc⟩ := inv.client.merge.done_of_merged inv.client.lsolo hend
  have hb := hs.ends r pc (by rw [hsends]; simp)
  cases inv.client.merge.merger with
  | idle h1 => rw [h1 r hr] at hsends; cases hsends
  | @run r' pc' h1 h2 _ hat =>
    cases hr.symm.trans h1
    cases List.cons.inj (hsends.symm.trans h2) |>.1
    have hfin : Finished ids v.back t.client.links.hub (t.client.links.socks 0).out none := by
      cases pc with
      | ret e | handoff e | closeDone e | exit e =>
        cases e with
        | none => exact hat
        | some e => cases hb
      | entry | loop | pass | read | write | refused => cases hpc
    obtain ⟨-, -, -, hout⟩ := hfin
    rename_i pre
    obtain ⟨-, h3, -⟩ := inv.delivered_back.closeWrite pre [] hout
    exact ⟨pre, hout, by rw [← flatten_payloads, h3]⟩

/-- The server reads the byte 1 and the end of the stream, and sends both and `finish`. -/
def respond : List (SysLabel ℕ) :=
  [SysLabel.server (.copyRead 0 [1] .more), .server (.copy 0), .server (.copy 0),
    .server (.copyRead 0 [] .eof), .server (.copy 0), .server (.copy 0)] ++
    List.replicate 11 (SysLabel.server (.queueSend 0 0 .ok)) ++ [SysLabel.server (.queueDone 0 0 0)] ++
    List.replicate 5 (SysLabel.server (.est 0)) ++ [SysLabel.server (.tell 0 true)]

/-- The client takes a chunk of lane 0 into its link. -/
def takeReply : List (SysLabel ℕ) :=
  [.client (.recv 0), .client (.reader 0), .client (.reader 0)]

/-- The client handles `finish`. -/
def takeFinish : List (SysLabel ℕ) :=
  [.client (.recv 0), .client (.reader 0), .client (.reader 0), .client (.reader 0)]

set_option maxRecDepth 100000 in
/-- `RemoveAll` takes the link away before `link.Send` has looked it up: both chunks are
    in its buffer and neither is written. -/
theorem finish_truncates_response :
    ¬ ∀ (ids : List ℕ) (ls : List (SysLabel ℕ)) (s : System ℕ), ids ≠ [] → ids.Nodup →
      Run (System.step ids) (fun s l => s.responds l = true) System.init ls s →
      (s.server.ests 0).pc = .returned → s.client.links.Merged →
      Complete (s.client.links.socks 0).out (s.server.ests 0).copy.reads := by
  intro h
  have hexec : (exec (System.step [7]) System.responds System.init
      (openLanes 1 ++ respond ++ takeReply ++ takeReply ++ takeFinish ++
        List.replicate 3 (.client (.linkSend 0 0 .ok)))).map
      (fun s => ((s.client.links.socks 0).out, s.client.links.sends 0, (s.server.ests 0).pc)) =
      some ([], [.ret (some .notFound)], .returned) := by decide +kernel
  obtain ⟨s, hrun, hobs⟩ := exists_run_of_exec hexec
  simp only [Prod.mk.injEq] at hobs
  obtain ⟨hout, hsends, hret⟩ := hobs
  obtain ⟨pre, h1, -⟩ := h [7] _ s (by simp) (by simp) hrun hret
    ⟨0, .ret (some .notFound), by rw [hsends]; simp, rfl⟩
  rw [hout] at h1
  simp at h1

/-- If `RemoveAll` runs for `finish` only when `link.Send` has ended or has the end of the
    stream in hand or next, every response is complete when `link.Send` has ended. -/
theorem response_complete {ls : List (SysLabel KSUID)} {t : System KSUID} (hne : ids ≠ [])
    (hnd : ids.Nodup)
    (h : Run (System.step ids) (fun s l => s.responds l = true ∧ s.drains l = true) System.init ls t)
    (hend : t.client.links.Merged) :
    Complete (t.client.links.socks 0).out (t.server.ests 0).copy.reads := by
  obtain ⟨m, hm⟩ := exists_master hne
  have hwhole : Whole ids m t := h.invariant (I := Whole ids m) ⟨⟨_, SysInv.init⟩, Sealed.init⟩
    fun _ _ _ hw hok hstep => hw.step hnd hm hok.1 hok.2 hstep
  exact hwhole.complete hend

set_option maxRecDepth 100000 in
theorem response_complete_one_byte : ∃ ls s,
    Run (System.step [7]) (fun s l => s.responds l = true ∧ s.drains l = true) System.init ls s ∧
      s.client.links.Merged ∧ s.client.links.hub.ref? 7 = none ∧
      Complete (s.client.links.socks 0).out (s.server.ests 0).copy.reads := by
  have hexec : (exec (System.step [7]) (fun s l => s.responds l && s.drains l) System.init
      (openLanes 1 ++ respond ++ takeReply ++ takeReply ++
        List.replicate 8 (.client (.linkSend 0 0 .ok)) ++ takeFinish ++
        List.replicate 2 (.client (.linkSend 0 0 .ok)))).map
      (fun s => (s.client.links.hub.ref? 7, s.client.links.sends 0)) =
      some (none, [.ret none]) := by decide +kernel
  obtain ⟨s, hrun, hobs⟩ := exists_run_of_exec hexec
  obtain ⟨href, hsends⟩ := Prod.mk.inj hobs
  have hrun' : Run (System.step [7]) (fun s l => s.responds l = true ∧ s.drains l = true)
      System.init _ s := hrun.mono fun _ _ h1 => Bool.and_eq_true_iff.mp h1
  have hend : s.client.links.Merged := ⟨0, .ret none, by rw [hsends]; simp, rfl⟩
  exact ⟨_, s, hrun', hend, href, response_complete (by simp) (by simp) hrun' hend⟩

end Wssocks.Wss

import Wssocks.Wss.ClientInv
import Wssocks.Wss.SessionInv

/-!
# The steps of `transData`

`ClientInv.act`: every step of the client keeps `ClientInv` and has the effect
`ClientStep` on the two directions.
-/

namespace Wssocks.Wss

open Wssocks.Lib Wssocks.Pipe

variable {KSUID : Type} [DecidableEq KSUID] [Inhabited KSUID]
variable {ids : List KSUID} {m : KSUID} {est est' : Bool} {src src' : Source} {f f' : Flow}
  {s s' : Client KSUID} {k w : ℕ} {l : ClientLabel}

omit [DecidableEq KSUID] in
theorem masterID_eq (hm : ids[0]? = some m) : Client.masterID ids = m := by
  unfold Client.masterID
  cases ids with
  | nil => cases hm
  | cons a t => exact Option.some.inj hm

theorem ClientInv.init : ClientInv ids m false Source.init Flow.init Client.init where
  split := SplitInv.init
  merge := MergeInv.init
  qsolo := fun _ _ => rfl
  qone := fun _ => Nat.zero_le _
  lsolo := fun _ _ => rfl
  qfirst := by simp [Client.init, Queues.init]
  lfirst := by simp [Client.init, Links.init]
  copy := ⟨rfl, rfl⟩
  feeds := fun h => absurd rfl h
  done := Links.doneOk_init
  trans := ⟨rfl, Nat.zero_le _, {
    written := fun _ => rfl
    counted := fun _ => rfl
    link := fun _ _ _ => rfl
    noSort := rfl
    blank := ⟨rfl, rfl⟩
    ref? := by simp [Client.init, Queues.init, Source.init, QueueMap.init]
    live := by simp [Live, LinkHub.lane, Client.init, Links.init, Flow.init, LaneMap.init] }⟩
  all := nofun
  registered := fun _ _ h => absurd h (Nat.not_lt_zero _)
  reader := fun _ => trivial
  inbox := nofun
  mute := fun _ => ⟨fun _ => ⟨rfl, rfl⟩, rfl, fun _ => rfl, fun _ => rfl⟩

/-! ## Steps that leave `transData` where it is -/

omit [Inhabited KSUID] in
theorem Unmerged.mono {lk lk' : Links KSUID} {c t : Bool} (h : Unmerged f lk c t) (hf : f'.lanes = f.lanes)
    (hs : ∀ r, lk.sends r = [] → lk'.sends r = []) : Unmerged f' lk' c t where
  conn := by rw [hf]; exact h.conn
  sorted := by rw [hf]; exact h.sorted
  sends := by rw [hf]; exact fun r h1 => hs r (h.sends r h1)

omit [Inhabited KSUID] in
/-- After `Establish`, what holds for `transData` stays true when other goroutines move. -/
theorem TransAt.mono {pc : TransPc} (h : TransAt ids m est src f s pc)
    (hest : est = true ∨ pc.over = true)
    (hsrc : src'.lanes = src.lanes) (hf : f'.lanes = f.lanes)
    (hcopy : s.copy.pc = .idle → s'.copy.pc = .idle)
    (hq : ∀ q, s.queues.sends q = [] → s'.queues.sends q = [])
    (hl : ∀ r, s.links.sends r = [] → s'.links.sends r = [])
    (hd : MergerDone f s.links → MergerDone f' s'.links) : TransAt ids m est src' f' s' pc := by
  cases pc with
  | newProxy i | sayID i | queueAdd i | linkAdd i | establish =>
    rcases hest with h1 | h1
    · exact absurd (h.1.symm.trans h1) (by simp)
    · cases h1
  | getQueue => exact ⟨h.1, h.2.1.mono hf hl, hcopy h.2.2.1, fun q => hq q (h.2.2.2 q)⟩
  | setQueueSort q =>
    exact ⟨h.1, hsrc ▸ h.2.1, h.2.2.1.mono hf hl, hcopy h.2.2.2.1, fun q => hq q (h.2.2.2.2 q)⟩
  | goSend q =>
    exact ⟨h.1, hsrc ▸ h.2.1, hsrc ▸ h.2.2.1, h.2.2.2.1.mono hf hl, hcopy h.2.2.2.2.1,
      fun q => hq q (h.2.2.2.2.2 q)⟩
  | goCopy q => exact ⟨h.1, hsrc ▸ h.2.1, h.2.2.1.mono hf hl, hcopy h.2.2.2⟩
  | getLink => exact ⟨h.1, h.2.mono hf hl⟩
  | setConn o | setLinkSort o | goLinkSend o => exact ⟨h.1, hf ▸ h.2.1, h.2.2.mono hf hl⟩
  | wait o => exact ⟨h.1, hf ▸ h.2⟩
  | remove a | cancel i | rmProxy i | returned =>
    exact h.imp hd fun h1 r h2 => hl r (h1 r (hf ▸ h2))

omit [Inhabited KSUID] in
/-- When `transData` is over, the merger has ended or was never started. -/
theorem TransAt.of_over {pc : TransPc} (h : TransAt ids m est src f s pc) (hover : pc.over = true) :
    MergerDone f s.links ∨ ∀ r, f.lanes.link 0 = some r → s.links.sends r = [] := by
  cases pc with
  | remove a | cancel i | rmProxy i | returned => exact h
  | _ => cases hover

/-- A part of a step that keeps both directions and sends nothing. -/
structure Still (ids : List KSUID) (src : Source) (f : Flow) (s : Client KSUID) (src' : Source) (f' : Flow)
    (s' : Client KSUID) : Prop where
  flow : ∀ sent, Down ids f s sent → Down ids f' s' sent
  sent : src'.sent = src.sent
  pc : s'.pc.greeted ids.length = s.pc.greeted ids.length

omit [Inhabited KSUID] in
theorem Still.trans {src'' : Source} {f'' : Flow} {s'' : Client KSUID} (h : Still ids src f s src' f' s')
    (h' : Still ids src' f' s' src'' f'' s'') : Still ids src f s src'' f'' s'' where
  flow := fun sent t => h'.flow sent (h.flow sent t)
  sent := h'.sent.trans h.sent
  pc := h'.pc.trans h.pc

theorem Still.step (h : Still ids src f s src' f' s') :
    ClientStep ids m est src f s l est src' f' s' none where
  flow := fun _ => h.flow
  speaks := fun _ => .nothing rfl h.pc h.sent

omit [Inhabited KSUID] in
/-- Nothing happens to the links and to the readers. -/
theorem Still.of_same (hl : s'.links = s.links) (hr : s'.reader = s.reader) (hi : s'.inbox = s.inbox)
    (hover : s.pc.over = true → s'.pc.over = true) (hsent : src'.sent = src.sent)
    (hpc : s'.pc.greeted ids.length = s.pc.greeted ids.length) : Still ids src f s src' f s' where
  flow := by
    intro sent t
    have hp : s'.pend = s.pend := by
      funext k; rw [Client.pend, Client.pend, hr, hi]
    unfold Down
    rw [hl, hp]
    exact t.imp_right fun h1 => ⟨hover h1.1, h1.2⟩
  sent := hsent
  pc := hpc

omit [Inhabited KSUID] in
theorem Client.pend_goReader {x : ClientReader KSUID} : (s.goReader w x).pend k =
    if k = w then x.hand ++ (s.inbox w).filterMap Msg.chunk? else s.pend k := by
  show ClientReader.hand (Function.update s.reader w x k) ++ (s.inbox k).filterMap Msg.chunk? = _
  split_ifs with hk
  · subst hk; rw [Function.update_self]
  · rw [Function.update_of_ne hk]; rfl

/-- Another goroutine works on the links. -/
theorem ClientInv.of_links {lk : Links KSUID} (inv : ClientInv ids m est src f s)
    (hest : est = true ∨ s.pc.over = true) (hm : MergeInv ids 0 f' lk) (hlanes : f'.lanes = f.lanes)
    (hsends : ∀ r, s.links.sends r = [] → lk.sends r = [])
    (href : ∀ r, lk.hub.ref? m = some r → s.links.hub.ref? m = some r) (hdone : lk.DoneOk)
    (hd : MergerDone f s.links → MergerDone f' lk) :
    ClientInv ids m est src f' { s with links := lk } := by
  refine { inv with
    merge := hm, lsolo := ?_, lfirst := ?_, done := hdone, all := ?_, reader := ?_
    trans := inv.trans.mono hest rfl hlanes (fun h1 => h1) (fun _ h1 => h1) hsends hd
    mute := ?_ }
  · rw [hlanes]; exact fun r h1 => hsends r (inv.lsolo r h1)
  · rw [hlanes]; exact fun h1 => inv.lfirst (href _ h1)
  · rw [hlanes]; exact inv.all
  · intro k
    have h1 := inv.reader k
    show ClientReaderAt ids m f' k (s.reader k)
    cases hr : s.reader k with
    | idle => trivial
    | check q b | select q b => rw [hr] at h1; exact ⟨h1.1, by rw [hlanes]; exact h1.2⟩
    | remove id a => rw [hr] at h1; exact h1
  · intro h1
    obtain ⟨h2, h3, h4, h5⟩ := inv.mute h1
    exact ⟨h2, h3, h4, fun r => hsends r (h5 r)⟩

/-- Another goroutine works on the queues. -/
theorem ClientInv.of_queues {qs : Queues KSUID (WsWriter ℕ KSUID)} {c : Copy}
    (inv : ClientInv ids m est src f s) (hest : est = true ∨ s.pc.over = true)
    (hsplit : SplitInv ids m (laneWriter ids) src' qs) (hlanes : src'.lanes = src.lanes)
    (hsends : ∀ q, s.queues.sends q = [] → qs.sends q = []) (hlen : ∀ q, (qs.sends q).length ≤ 1)
    (href : ∀ q, qs.hub.ref? m = some q → s.queues.hub.ref? m = some q)
    (hcopy : CopyInv c src'.enq) (hidle : c.pc = .idle ↔ s.copy.pc = .idle) :
    ClientInv ids m est src' f { s with queues := qs, copy := c } := by
  refine { inv with
    split := hsplit, qsolo := ?_, qone := hlen, qfirst := ?_, copy := hcopy, feeds := ?_, all := ?_
    trans := inv.trans.mono hest hlanes rfl hidle.mpr hsends (fun _ h1 => h1) (fun h1 => h1)
    mute := ?_ }
  · rw [hlanes]; exact fun q h1 => hsends q (inv.qsolo q h1)
  · rw [hlanes]; exact fun h1 => inv.qfirst (href _ h1)
  · rw [hlanes]; exact fun h1 => inv.feeds (mt hidle.mpr h1)
  · rw [hlanes]; exact inv.all
  · intro h1
    obtain ⟨h2, h3, h4, h5⟩ := inv.mute h1
    exact ⟨h2, hidle.mpr h3, fun q => hsends q (h4 q), h5⟩

/-- A reader moves, possibly past a message. -/
theorem ClientInv.go {x : ClientReader KSUID} (inv : ClientInv ids m est src f s) (hest : est = true)
    (box : List (Msg KSUID)) (hat : ClientReaderAt ids m f w x) (hbox : ∀ y ∈ box, y ∈ s.inbox w) :
    ClientInv ids m est src f { s with
      inbox := Function.update s.inbox w box, reader := Function.update s.reader w x } := by
  refine { inv with
    reader := ?_, inbox := ?_
    trans := inv.trans.mono (.inl hest) rfl rfl (fun h1 => h1) (fun _ h1 => h1) (fun _ h1 => h1) (fun h1 => h1)
    mute := fun h1 => absurd (h1.symm.trans hest) (by simp) }
  · intro k
    by_cases hk : k = w
    · subst hk; simp only [Function.update_self]; exact hat
    · simp only [Function.update_of_ne hk]; exact inv.reader k
  · intro k y hy
    by_cases hk : k = w
    · subst hk; simp only [Function.update_self] at hy; exact inv.inbox (hbox y hy)
    · simp only [Function.update_of_ne hk] at hy; exact inv.inbox hy

theorem ClientInv.goReader {x : ClientReader KSUID} (inv : ClientInv ids m est src f s) (hest : est = true)
    (hat : ClientReaderAt ids m f w x) : ClientInv ids m est src f (s.goReader w x) := by
  have h := inv.go hest (s.inbox w) hat fun _ h1 => h1
  rw [Function.update_eq_self] at h
  exact h

/-- A chunk may be dropped when it does not matter any more: the lane's first link is
    gone, or the merger has ended, or it was never started. -/
def Idle (ids : List KSUID) (f : Flow) (s : Client KSUID) (w : ℕ) : Prop :=
  s.links.hub.lane ids w ≠ f.lanes.link w ∨ MergerDone f s.links ∨
    (s.pc.over = true ∧ ∀ r, f.lanes.link 0 = some r → s.links.sends r = [])

omit [Inhabited KSUID] in
/-- The chunks on their way to lane `w` change, and this does not matter. -/
theorem down_of_idle (hl : s'.links = s.links) (hpc : s'.pc = s.pc)
    (hp : (∀ k, s'.pend k = s.pend k) ∨ (Idle ids f s w ∧ ∀ k, k ≠ w → s'.pend k = s.pend k)) :
    ∀ sent, Down ids f s sent → Down ids f s' sent := by
  intro sent t
  unfold Down
  rw [hl, hpc]
  rcases t with t | t
  · rcases hp with h1 | ⟨h1 | h1 | h1, h2⟩
    · rw [funext h1]; exact .inl t
    · refine .inl (t.mono rfl rfl (fun h3 => h3) fun k _ h3 => ⟨h3, h2 k ?_⟩)
      rintro rfl
      exact h1 h3
    · exact .inl ⟨t.merged, .inl h1⟩
    · exact .inr h1
  · exact .inr t

omit [Inhabited KSUID] in
theorem still_goReader {x : ClientReader KSUID} (hh : x.hand = (s.reader w).hand ∨ Idle ids f s w) :
    Still ids src f s src f (s.goReader w x) where
  flow := by
    refine down_of_idle (w := w) rfl rfl ?_
    refine hh.imp (fun h1 k => ?_) fun h1 => ⟨h1, fun k hk => ?_⟩
    · rw [Client.pend_goReader]
      split_ifs with hk
      · subst hk; rw [h1]; rfl
      · rfl
    · rw [Client.pend_goReader, if_neg hk]
  sent := rfl
  pc := rfl

/-! ## Messages -/

omit [Inhabited KSUID] in
theorem Client.pend_pop {r : ClientReader KSUID} {x : Msg KSUID} {xs : List (Msg KSUID)}
    (hidle : s.reader w = .idle) (hin : s.inbox w = x :: xs) (hsame : r.hand = x.chunk?.toList) :
    ({ s with
      inbox := Function.update s.inbox w xs
      reader := Function.update s.reader w r } : Client KSUID).pend w = s.pend w := by
  have h1 : s.pend w = (x :: xs).filterMap Msg.chunk? := by
    rw [Client.pend, hidle, hin]; rfl
  rw [h1]
  show ClientReader.hand (Function.update s.reader w r w) ++
    (Function.update s.inbox w xs w).filterMap Msg.chunk? = _
  rw [Function.update_self, Function.update_self, hsame, List.filterMap_cons]
  cases x.chunk? <;> rfl

/-- A message is taken; its chunk is in the reader's hand then, or does not matter. -/
theorem ClientInv.recv_go {r : ClientReader KSUID} {x : Msg KSUID} {xs : List (Msg KSUID)}
    (inv : ClientInv ids m est src f s) (hest : est = true) (hidle : s.reader w = .idle)
    (hin : s.inbox w = x :: xs) (hat : ClientReaderAt ids m f w r)
    (hpend : r.hand = x.chunk?.toList ∨ Idle ids f s w)
    (hs' : s' = { s with
      inbox := Function.update s.inbox w xs
      reader := Function.update s.reader w r }) :
    ClientInv ids m est src f s' ∧ Still ids src f s src f s' := by
  subst hs'
  refine ⟨inv.go hest xs hat (by rw [hin]; exact fun y => List.mem_cons_of_mem _), ?_, rfl, rfl⟩
  refine down_of_idle (w := w) rfl rfl ?_
  have hne : ∀ k, k ≠ w → ({ s with
      inbox := Function.update s.inbox w xs
      reader := Function.update s.reader w r } : Client KSUID).pend k = s.pend k := by
    intro k hk
    show ClientReader.hand (Function.update s.reader w r k) ++
      (Function.update s.inbox w xs k).filterMap Msg.chunk? = _
    rw [Function.update_of_ne hk, Function.update_of_ne hk]; rfl
  refine hpend.imp (fun h1 k => ?_) fun h1 => ⟨h1, hne⟩
  by_cases hk : k = w
  · subst hk; exact Client.pend_pop hidle hin h1
  · exact hne k hk

/-- A lane is registered until `transData` is over. -/
theorem ClientInv.idle_of_unregistered (inv : ClientInv ids m est src f s) (hest : est = true)
    (hw : w < ids.length) (hreg : s.registered w ≠ true) : Idle ids f s w := by
  have hover : s.pc.over = true := by
    by_contra h1
    refine hreg (inv.registered (by simpa using h1) w ?_)
    have h2 := inv.trans
    cases hpc : s.pc with
    | newProxy i | sayID i | queueAdd i | linkAdd i =>
      rw [hpc] at h2
      exact absurd (h2.1.symm.trans hest) (by simp)
    | _ => exact hw
  exact .inr ((inv.trans.of_over hover).imp_right fun h1 => ⟨hover, h1⟩)

/-- The reader of lane `w` takes a message. -/
theorem ClientInv.recv {x : Msg KSUID} {xs : List (Msg KSUID)} (inv : ClientInv ids m est src f s)
    (hm : ids[0]? = some m) (hidle : s.reader w = .idle) (hin : s.inbox w = x :: xs) :
    ClientInv ids m est src f ({ s with inbox := Function.update s.inbox w xs }.dispatch ids w x) ∧
      Still ids src f s src f ({ s with inbox := Function.update s.inbox w xs }.dispatch ids w x) := by
  have hest : est = true := by
    by_contra h1
    have h2 := ((inv.mute (by simpa using h1)).1 w).1
    rw [hin] at h2; cases h2
  have hsame : Function.update s.reader w .idle = s.reader := by rw [← hidle, Function.update_eq_self]
  have hx : Reply ids m w x := inv.inbox (by rw [hin]; exact List.mem_cons_self)
  cases x with
  | beats | sayhi id y | est id y => exact hx.elim
  | finish id =>
    simp only [Client.dispatch]
    split_ifs
    · exact inv.recv_go (r := .remove id .test) hest hidle hin hx (.inl rfl) rfl
    · exact inv.recv_go (r := .idle) hest hidle hin trivial (.inl rfl) (by rw [hsame])
  | data id tag bytes =>
    obtain ⟨hid, htag⟩ := hx
    have hw : w < ids.length := (List.getElem?_eq_some_iff.mp hid).1
    have hlane : s.links.hub.lane ids w = s.links.hub.ref? id := by simp [LinkHub.lane, hid]
    simp only [Client.dispatch]
    split_ifs with hreg
    · cases hq : s.links.hub.ref? id with
      | none =>
        -- the lane had a link, and it is gone
        refine inv.recv_go (r := .idle) hest hidle hin trivial (.inr (.inl ?_)) ?_
        · rw [hlane, hq]
          intro h1
          have h2 := inv.merge.tracks.counted_link (inv.all hest w hw).2
          rw [← h1] at h2; cases h2
        · rcases htag with rfl | rfl <;> simp only [hsame]
      | some q =>
        have hlink : f.lanes.link w = some q := by
          rcases inv.merge.tracks.first (hlane.trans hq) with h1 | ⟨rfl, h1, -⟩
          · exact h1
          · cases hm.symm.trans hid
            exact inv.lfirst hq
        rcases htag with rfl | rfl
        · exact inv.recv_go (r := .check q ⟨false, bytes⟩) hest hidle hin ⟨hw, hlink⟩ (.inl rfl) rfl
        · exact inv.recv_go (r := .check q ⟨true, []⟩) hest hidle hin ⟨hw, hlink⟩ (.inl rfl) rfl
    · refine inv.recv_go (r := .idle) hest hidle hin trivial (.inr ?_) (by rw [hsame])
      exact inv.idle_of_unregistered hest hw fun h1 => hreg ⟨h1, hid⟩

/-! ## Readers -/

/-- `link.writeBuf` tests the status. -/
theorem ClientInv.reader_check {q : ℕ} {b : Buffer} (inv : ClientInv ids m est src f s) (hest : est = true)
    (hr : s.reader w = .check q b) (h : s.readerStep w = some s') :
    ClientInv ids m est src f s' ∧ Still ids src f s src f s' := by
  have hat := inv.reader w
  rw [hr] at hat
  simp only [Client.readerStep, hr] at h
  split_ifs at h with hst
  · cases h
    exact ⟨inv.goReader hest trivial,
      still_goReader (.inr (.inr (.inl (inv.merge.done_of_status hat.2 hst))))⟩
  · cases h
    exact ⟨inv.goReader hest hat, still_goReader (.inl (by rw [hr]; rfl))⟩

/-- `link.writeBuf` puts the chunk into the link, or loses it to a closed one. -/
theorem ClientInv.reader_select {q : ℕ} {b : Buffer} (inv : ClientInv ids m est src f s)
    (hn : 0 < ids.length) (hest : est = true) (hr : s.reader w = .select q b)
    (h : s.readerStep w = some s') :
    ∃ f', ClientInv ids m est src f' s' ∧ Still ids src f s src f' s' := by
  have hat := inv.reader w
  rw [hr] at hat
  obtain ⟨hw, hq⟩ := hat
  simp only [Client.readerStep, hr] at h
  obtain ⟨⟨lk, ok⟩, hpush, rfl⟩ := Option.map_eq_some_iff.mp h
  rcases Links.push_cases hpush with ⟨rfl, hopen, ch, -, -, hlk⟩ | ⟨rfl, hclosed, rfl⟩
  · have hsends : lk.sends = s.links.sends := by rw [hlk]; rfl
    have hdone : MergerDone f s.links → MergerDone f lk := by
      rintro ⟨r, pc, h1, h2, h3⟩
      exact ⟨r, pc, h1, by rw [hsends]; exact h2, h3⟩
    have hok : lk.DoneOk := by
      rw [hlk]; exact inv.done.modify (u := fun x => { x with buffer := ch }) rfl
    refine ⟨{ f with pushed := Function.update f.pushed w (f.pushed w ++ [b]) },
      (inv.of_links (.inl hest) (inv.merge.push hn hq hpush) rfl (fun r h1 => by rw [hsends]; exact h1)
        (fun r h1 => by rw [hlk] at h1; exact h1) hok hdone).goReader hest trivial, ?_, rfl, rfl⟩
    intro sent t
    refine t.imp (fun t => ?_) fun h1 => ⟨h1.1, fun r h2 => by
      show lk.sends r = []
      rw [hsends]; exact h1.2 r h2⟩
    have hhead : s.pend w = b :: (s.inbox w).filterMap Msg.chunk? := by rw [Client.pend, hr]; rfl
    refine t.push inv.merge hq hpush hhead ?_ fun k hk => ?_
    · rw [Client.pend_goReader, if_pos rfl]; rfl
    · rw [Client.pend_goReader, if_neg hk]; rfl
  · refine ⟨f, inv.goReader hest trivial, still_goReader (.inr (.inl fun h1 => ?_))⟩
    have := (inv.merge.tracks.open_iff hq).mpr (h1.trans hq)
    rw [hclosed] at this
    cases this

/-- One operation of `remove`. -/
theorem ClientInv.removeStep (inv : ClientInv ids m est src f s) (hm : ids[0]? = some m)
    (hest : est = true ∨ s.pc.over = true) (a : RemoveAt) :
    ClientInv ids m est src f (s.removeStep m a).1 ∧ Still ids src f s src f (s.removeStep m a).1 := by
  cases a with
  | test =>
    simp only [Client.removeStep]
    split_ifs
    · exact ⟨inv, Still.of_same rfl rfl rfl (fun h1 => h1) rfl rfl⟩
    · refine ⟨{ inv with trans := ?_ }, Still.of_same rfl rfl rfl (fun h1 => h1) rfl rfl⟩
      exact inv.trans.mono hest rfl rfl (fun h1 => h1) (fun _ h1 => h1) (fun _ h1 => h1) (fun h1 => h1)
  | queue =>
    refine ⟨inv.of_queues hest inv.split.remove rfl (fun _ h1 => h1) inv.qone (fun q h1 => ?_) inv.copy
      Iff.rfl, Still.of_same rfl rfl rfl (fun h1 => h1) rfl rfl⟩
    have h2 : (QueueHub.remove s.queues.hub m).ref? m = some q := h1
    rw [QueueHub.ref?_remove, if_pos rfl] at h2
    cases h2
  | links =>
    refine ⟨inv.of_links hest (inv.merge.removeAll hm) rfl (fun _ h1 => h1) (fun r h1 => ?_)
      inv.done.removeAll (fun h1 => h1), fun sent t => ?_, rfl, rfl⟩
    · cases hq : s.links.hub.ref? m with
      | none =>
        have h2 : (LinkHub.removeAll s.links.hub m).ref? m = some r := h1
        rw [LinkHub.removeAll_missing hq, hq] at h2
        exact h2
      | some q =>
        have h2 : (LinkHub.removeAll s.links.hub m).ref? m = some r := h1
        rw [LinkHub.ref?_removeAll hq, if_pos (.inl rfl)] at h2
        cases h2
    · refine t.imp (fun t => ?_) fun h1 => h1
      exact t.mono rfl rfl (fun h1 => h1) fun k _ h1 => ⟨inv.merge.current_of_removeAll h1, rfl⟩

omit [Inhabited KSUID] in
theorem Client.reader_removeStep {id : KSUID} (a : RemoveAt) : (s.removeStep id a).1.reader = s.reader := by
  cases a with
  | test => unfold Client.removeStep; split_ifs <;> rfl
  | queue => rfl
  | links => rfl

theorem ClientInv.reader_remove {id : KSUID} {a : RemoveAt} (inv : ClientInv ids m est src f s)
    (hm : ids[0]? = some m) (hest : est = true) (hr : s.reader w = .remove id a)
    (h : s.readerStep w = some s') :
    ClientInv ids m est src f s' ∧ Still ids src f s src f s' := by
  have hat := inv.reader w
  rw [hr] at hat
  obtain ⟨rfl, rfl⟩ := hat
  simp only [Client.readerStep, hr, Option.some.injEq] at h
  subst h
  obtain ⟨h1, h2⟩ := inv.removeStep hm (.inl hest) a
  have hr' : (s.removeStep id a).1.reader 0 = .remove id a := by rw [Client.reader_removeStep, hr]
  cases (s.removeStep id a).2 with
  | none => exact ⟨h1.goReader hest trivial, h2.trans (still_goReader (.inl (by rw [hr']; rfl)))⟩
  | some a' => exact ⟨h1.goReader hest ⟨rfl, rfl⟩, h2.trans (still_goReader (.inl (by rw [hr']; rfl)))⟩

/-- The operations of a reader after the first of a dispatch. -/
theorem ClientInv.readerStep (inv : ClientInv ids m est src f s) (hm : ids[0]? = some m)
    (h : s.readerStep w = some s') :
    ∃ f', ClientInv ids m est src f' s' ∧ Still ids src f s src f' s' := by
  have hn : 0 < ids.length := (List.getElem?_eq_some_iff.mp hm).1
  have hest : s.reader w ≠ .idle → est = true := by
    intro h1
    by_contra h2
    exact h1 ((inv.mute (by simpa using h2)).1 w).2
  cases hr : s.reader w with
  | idle => simp [Client.readerStep, hr] at h
  | check q b => exact ⟨f, inv.reader_check (hest (by simp [hr])) hr h⟩
  | select q b => exact inv.reader_select hn (hest (by simp [hr])) hr h
  | remove id a => exact ⟨f, inv.reader_remove hm (hest (by simp [hr])) hr h⟩

/-! ## The goroutines -/

theorem ClientInv.est_of_copy (inv : ClientInv ids m est src f s) (h : s.copy.pc ≠ .idle) : est = true := by
  by_contra h1
  exact h (inv.mute (by simpa using h1)).2.1

/-- A move of `CopyBuffer` that leaves the queue alone. -/
theorem ClientInv.copyMove {c : Copy} (inv : ClientInv ids m est src f s)
    (h : ∀ enq, CopyInv s.copy enq → CopyInv c enq) (hpc : s.copy.pc ≠ .idle ∧ c.pc ≠ .idle) :
    ClientInv ids m est src f { s with copy := c } ∧ Still ids src f s src f { s with copy := c } :=
  ⟨inv.of_queues (.inl (inv.est_of_copy hpc.1)) inv.split rfl (fun _ h1 => h1) inv.qone (fun _ h1 => h1)
    (h _ inv.copy) ⟨fun h1 => absurd h1 hpc.2, fun h1 => absurd h1 hpc.1⟩,
    Still.of_same rfl rfl rfl (fun h1 => h1) rfl rfl⟩

/-- A step of `CopyBuffer` inside a write. -/
theorem ClientInv.copyStep {c : Copy} {qs : Queues KSUID (WsWriter ℕ KSUID)}
    (inv : ClientInv ids m est src f s) (h : s.copy.step s.queues s.qq = some (c, qs)) :
    ∃ src', ClientInv ids m est src' f { s with copy := c, queues := qs } ∧
      Still ids src f s src' f { s with copy := c, queues := qs } := by
  have hpc := Copy.step_pc h
  obtain ⟨enq, h1, h2⟩ := inv.copy.step inv.split (inv.feeds hpc.1) h
  obtain ⟨ht, hs⟩ := Copy.step_touched h
  exact ⟨{ src with enq := enq },
    inv.of_queues (.inl (inv.est_of_copy hpc.1)) h2 rfl (fun q h3 => by rw [hs]; exact h3)
      (fun q => by rw [hs]; exact inv.qone q) (fun q h3 => by rw [ht.ref?] at h3; exact h3) h1
      ⟨fun h3 => absurd h3 hpc.2, fun h3 => absurd h3 hpc.1⟩,
    Still.of_same rfl rfl rfl (fun h3 => h3) rfl rfl⟩

/-- Only one goroutine runs `queue.Send`. -/
theorem ClientInv.secondOk {q i : ℕ} (inv : ClientInv ids m est src f s) : s.queues.SecondOk q i := by
  intro hi _ pc hpc
  have hlen := inv.qone q
  obtain ⟨x, hx⟩ : ∃ x, s.queues.sends q = [x] := by
    match hs : s.queues.sends q with
    | [] => rw [hs] at hi; cases hi
    | [x] => exact ⟨x, rfl⟩
    | x :: y :: t => rw [hs] at hlen; simp at hlen
  rw [hx] at hi hpc
  cases List.mem_singleton.mp hpc
  cases i with
  | zero => cases hi; rfl
  | succ i => simp at hi

/-- A step of `queue.Send`. -/
theorem ClientInv.queueSend {q i : ℕ} {o : Outcome} {qs : Queues KSUID (WsWriter ℕ KSUID)}
    {msg : Option (WsWriter ℕ KSUID × Buffer)} (inv : ClientInv ids m est src f s)
    (h : s.queues.send q i o = some (qs, msg)) :
    est = true ∧ ∃ src', ClientInv ids m est src' f { s with queues := qs } ∧
      Wrote ids.length (laneWriter ids) src src' msg := by
  have hne : s.queues.sends q ≠ [] := Queues.sends_ne_nil h
  have hest : est = true := by
    by_contra h1
    exact hne ((inv.mute (by simpa using h1)).2.2.1 q)
  have hq : src.lanes.queue = some q := by
    by_contra h1
    exact hne (inv.qsolo q h1)
  obtain ⟨src', h1, h2, h3, h4⟩ := inv.split.send hq inv.secondOk h
  have hmv := Queues.send_moved h
  obtain ⟨pc, hpc⟩ := hmv.sends
  refine ⟨hest, src', inv.of_queues (.inl hest) h1 h2 ?_ ?_ ?_ (h3 ▸ inv.copy) Iff.rfl, h4⟩
  · intro r hr
    rw [hmv.sends_ne (by rintro rfl; exact hne hr)]
    exact hr
  · intro r
    by_cases hr : r = q
    · subst hr
      rw [hpc, Function.update_self, List.length_set]
      exact inv.qone r
    · rw [hmv.sends_ne hr]; exact inv.qone r
  · intro r hr
    rw [hmv.hub.ref?] at hr
    exact hr

/-- A step of `link.Send`. -/
theorem ClientInv.linkSend {q i : ℕ} {o : Outcome} {lk : Links KSUID} (inv : ClientInv ids m est src f s)
    (hn : 0 < ids.length) (h : s.links.send q i o = some lk) :
    ∃ f', ClientInv ids m est src f' { s with links := lk } ∧ Still ids src f s src f' { s with links := lk } := by
  have hne : s.links.sends q ≠ [] := by
    intro h1
    simp [Links.send, h1] at h
  have hest : est = true := by
    by_contra h1
    exact hne ((inv.mute (by simpa using h1)).2.2.2 q)
  have hq : f.lanes.link 0 = some q := by
    by_contra h1
    exact hne (inv.lsolo q h1)
  obtain ⟨bs, hinv, hdone⟩ := inv.merge.send hn hq h
  have hmv := Links.send_moved h
  obtain ⟨pc, hpc⟩ := hmv.sends
  refine ⟨{ f with merged := bs }, inv.of_links (.inl hest) hinv rfl ?_ (fun r hr => ?_) (inv.done.send h)
    (fun h1 => (hdone h1).2), ?_, rfl, rfl⟩
  · intro r hr
    have hrq : r ≠ q := by rintro rfl; exact hne hr
    rw [hpc, Function.update_of_ne hrq]
    exact hr
  · rw [hmv.ref?] at hr; exact hr
  · intro sent t
    refine t.imp (fun t => t.merge hn h hinv hdone) fun h1 => ?_
    exact absurd (h1.2 q hq) hne

/-- `transData` moves on. -/
theorem ClientInv.setPc {pc : TransPc} (inv : ClientInv ids m est src f s)
    (hat : TransAt ids m est src f s pc)
    (hreg : pc.over = false → s.pc.over = false ∧ pc.proxies ids.length ≤ s.pc.proxies ids.length) :
    ClientInv ids m est src f { s with pc := pc } := by
  refine { inv with trans := ?_, registered := ?_ }
  · cases pc <;> exact hat
  · intro h1 k hk
    obtain ⟨h2, h3⟩ := hreg h1
    exact inv.registered h2 k (lt_of_lt_of_le hk h3)

/-- `oo.Wait()` receives. -/
theorem ClientInv.linkDone {q i : ℕ} {lk : Links KSUID} (inv : ClientInv ids m est src f s)
    (hpc : s.pc = .wait q) (h : s.links.handoff q i = some lk) :
    ClientInv ids m est src f { s with links := lk, pc := .remove .test } ∧
      Still ids src f s src f { s with links := lk, pc := .remove .test } := by
  have hat := inv.trans
  rw [hpc] at hat
  obtain ⟨hest, hq⟩ := hat
  obtain ⟨hinv, hd, hd'⟩ := inv.merge.handoff hq h
  obtain ⟨hhub, hsends⟩ := Links.handoff_moved h
  have h1 : ClientInv ids m est src f { s with links := lk } := by
    refine inv.of_links (.inl hest) hinv rfl ?_ (fun r hr => by rw [hhub] at hr; exact hr)
      (inv.done.handoff h) (fun _ => hd')
    intro r hr
    have hrq : r ≠ q := by
      rintro rfl
      simp [Links.handoff, hr] at h
    rw [hsends r hrq]
    exact hr
  have h2 : ClientInv ids m est src f { s with links := lk, pc := .remove .test } :=
    h1.setPc (.inl hd') fun h => by cases h
  refine ⟨h2, ?_, rfl, by rw [hpc]; rfl⟩
  intro sent t
  rcases t with t | t
  · exact .inl ⟨t.merged, .inl hd'⟩
  · rw [hpc] at t; exact absurd t.1 (by simp [TransPc.over])

/-! ## `transData`: the lanes -/

section Lanes

omit [DecidableEq KSUID] in
theorem getElem?_getD (h : k < ids.length) : ids[k]? = some (ids.getD k default) := by
  rw [List.getD_eq_getElem?_getD, List.getElem?_eq_getElem h]; rfl

/-- `w.NewProxy` registers a lane. -/
theorem ClientInv.trans_newProxy {i : ℕ} (inv : ClientInv ids m est src f s) (hpc : s.pc = .newProxy i)
    (hi : i < ids.length) :
    ClientInv ids m est src f
      { s with registered := Function.update s.registered i true, pc := .sayID i } := by
  have hat := inv.trans
  rw [hpc] at hat
  refine { inv with trans := ⟨hat.1, hi, hat.2.2⟩, registered := ?_ }
  intro _ k hk
  by_cases hki : k = i
  · subst hki; exact Function.update_self _ _ _
  · have hlt : k < i + 1 := hk
    refine (Function.update_of_ne hki _ _).trans (inv.registered (by rw [hpc]; rfl) k ?_)
    rw [hpc]
    show k < i
    omega

/-- The lanes that are registered stay so, when `transData` goes on to `pc'`. -/
theorem ClientInv.registered_at {pc pc' : TransPc} (inv : ClientInv ids m est src f s) (hpc : s.pc = pc)
    (hover : pc.over = false) (hsame : pc'.proxies ids.length = pc.proxies ids.length) :
    ∀ k < pc'.proxies ids.length, s.registered k = true := by
  subst hpc
  rw [hsame]
  exact inv.registered hover

/-- `clientQueueHub.Add`. -/
theorem ClientInv.trans_queueAdd {i : ℕ} (inv : ClientInv ids m est src f s) (hnd : ids.Nodup)
    (hpc : s.pc = .queueAdd i) :
    ∃ src', ClientInv ids m est src' f { s with
        queues := s.queues.add m (ids.getD i default) ⟨i, ids.getD i default⟩, pc := .linkAdd i } ∧
      src'.sent = src.sent := by
  have hat := inv.trans
  rw [hpc] at hat
  obtain ⟨hest, hi, had⟩ := hat
  obtain ⟨hmute, hcopy, hqs, hls⟩ := inv.mute hest
  have hid := getElem?_getD hi
  have hunw : src.lanes.written i = false := by rw [had.written]; simp
  have hsplit := inv.split.add hnd hid hunw fun q _ => hqs q
  have hholds := inv.split.holds.add hnd hid hunw
  have hsends : ∀ q, (s.queues.add m (ids.getD i default) (laneWriter ids i)).sends q = [] := by
    intro q
    unfold Queues.add Queues.trySend
    rw [Queues.sends_launch_ne]
    · exact hqs q
    · rw [hholds.trySend]
      simp [Holds.added, had.noSort]
  have hqueue : (s.queues.add m (ids.getD i default) (laneWriter ids i)).hub.ref? m =
      (Holds.added src.lanes s.queues.hub m i).queue := by
    rw [Queues.hub_add, QueueHub.ref?_add, if_pos rfl]
    simp only [Holds.added, QueueHub.masterRef, had.ref?]
    cases src.lanes.queue <;> rfl
  refine ⟨{ src with lanes := Holds.added src.lanes s.queues.hub m i }, { inv with
    split := hsplit
    qsolo := fun q _ => hsends q
    qone := fun q => le_of_eq_of_le (congrArg List.length (hsends q)) (Nat.zero_le _)
    qfirst := fun h1 => hqueue.symm.trans h1
    feeds := fun h1 => absurd hcopy h1
    trans := ⟨hest, hi, ?_⟩
    all := fun h1 => absurd (hest.symm.trans h1) (by simp)
    registered := fun _ => inv.registered_at hpc rfl rfl
    mute := fun _ => ⟨hmute, hcopy, hsends, hls⟩ }, rfl⟩
  refine { had with written := ?_, noSort := had.noSort, ref? := hqueue }
  intro k
  simp only [Holds.added]
  rw [if_pos had.ref?]
  by_cases hk : k = i
  · subst hk; simp
  · rw [Function.update_of_ne hk, had.written]
    simp only [decide_eq_decide]
    omega

/-- `clientLinkHub.Add`. -/
theorem ClientInv.trans_linkAdd {i : ℕ} (inv : ClientInv ids m est src f s) (hnd : ids.Nodup)
    (hm : ids[0]? = some m) (hpc : s.pc = .linkAdd i) :
    ∃ f', ClientInv ids m est src f' { s with
        links := s.links.add (ids.getD i default) m, pc := .newProxy (i + 1) } ∧
      ∀ sent, Down ids f s sent → Down ids f' { s with
        links := s.links.add (ids.getD i default) m, pc := .newProxy (i + 1) } sent := by
  have hat := inv.trans
  rw [hpc] at hat
  obtain ⟨hest, hi, had⟩ := hat
  obtain ⟨hmute, hcopy, hqs, hls⟩ := inv.mute hest
  have hid := getElem?_getD hi
  have hc : f.lanes.counted i = false := by rw [had.counted]; simp
  have hnew : i ≠ 0 → f.lanes.link i = none := fun h1 => had.link i h1 (le_refl _)
  have hmerge := inv.merge.add hnd hm hid hnew hc fun r _ => hls r
  have hlive := inv.merge.live_add hnd hm hid hnew had.live
  have hsends : ∀ r, (s.links.add (ids.getD i default) m).sends r = [] := by
    intro r
    show (Links.launch { s.links with hub := (LinkHub.add s.links.hub (ids.getD i default) m).1 }
      (LinkHub.add s.links.hub (ids.getD i default) m).2).sends r = []
    rw [inv.merge.tracks.add_launch hm, if_neg (by simp [had.blank.2])]
    exact hls r
  refine ⟨{ f with lanes := Tracks.added ids f.lanes s.links.hub i m }, { inv with
    merge := hmerge
    lsolo := fun r _ => hsends r
    lfirst := fun {r} h1 => ?_
    done := ?_
    trans := ⟨hest, hi, ?_⟩
    all := fun h1 => absurd (hest.symm.trans h1) (by simp)
    registered := fun _ => inv.registered_at hpc rfl rfl
    reader := fun k => by
      show ClientReaderAt ids m _ k (s.reader k)
      rw [(hmute k).2]; trivial
    mute := fun _ => ⟨hmute, hcopy, hqs, hsends⟩ }, ?_⟩
  · have h2 : (s.links.add (ids.getD i default) m).hub.lane ids 0 = some r := by
      simp [LinkHub.lane, hm]; exact h1
    exact hlive.symm.trans h2
  · exact inv.done.add
  · refine { had with counted := ?_, link := ?_, live := hlive }
    · intro k
      show (Tracks.added ids f.lanes s.links.hub i m).counted k = _
      rw [Tracks.counted_added, if_pos (show s.links.hub.lane ids 0 = f.lanes.link 0 from had.live)]
      by_cases hk : k = i
      · subst hk; simp
      · rw [Function.update_of_ne hk, had.counted]
        simp only [decide_eq_decide]
        omega
    · intro k h0 hk
      have hki : k ≠ i := by omega
      show (Tracks.added ids f.lanes s.links.hub i m).link k = none
      simp only [Tracks.added, LaneMap.add, if_neg h0, if_neg hki]
      exact had.link k h0 (by omega)
  · intro sent t
    rcases t with t | t
    · refine .inl (t.mono rfl rfl ?_ fun k _ h1 => ⟨inv.merge.current_of_add hnd hm hid hnew h1, rfl⟩)
      rintro ⟨r, pc, -, h2, -⟩
      rw [hls r] at h2; cases h2
    · rw [hpc] at t; exact absurd t.1 (by simp [TransPc.over])

end Lanes

/-! ## `transData`: the two senders -/

section Senders

/-- `Establish` was sent. -/
theorem ClientInv.trans_establish (inv : ClientInv ids m est src f s) (hpc : s.pc = .establish) :
    ClientInv ids m true src f { s with pc := .getQueue } := by
  have hat := inv.trans
  rw [hpc] at hat
  obtain ⟨hest, had⟩ := hat
  obtain ⟨-, hcopy, hqs, hls⟩ := inv.mute hest
  refine { inv with
    trans := ⟨rfl, ⟨had.blank.2, had.blank.1, fun r _ => hls r⟩, hcopy, hqs⟩
    all := fun _ k hk => ⟨by rw [had.written]; simp [hk], by rw [had.counted]; simp [hk]⟩
    registered := fun _ => inv.registered_at hpc rfl rfl
    mute := nofun }

/-- `qq.SetSort`. -/
theorem ClientInv.trans_setQueueSort {q : ℕ} (inv : ClientInv ids m est src f s)
    (hpc : s.pc = .setQueueSort q) :
    ∃ src', ClientInv ids m est src' f { s with
        queues := s.queues.modify q fun x => { x with sorted := ids }, pc := .goSend q } ∧
      src'.sent = src.sent := by
  have hat := inv.trans
  rw [hpc] at hat
  obtain ⟨hest, hq, hun, hcopy, hqs⟩ := hat
  refine ⟨{ src with lanes := { src.lanes with sorted := true } }, { inv with
    split := inv.split.setSorted hq
    qfirst := fun h1 => inv.qfirst h1
    trans := ⟨hest, hq, rfl, hun, hcopy, hqs⟩
    registered := fun _ => inv.registered_at hpc rfl rfl }, rfl⟩

/-- `go qq.Send()`. -/
theorem ClientInv.trans_goSend {q : ℕ} (inv : ClientInv ids m est src f s) (hpc : s.pc = .goSend q) :
    ClientInv ids m est src f { s with queues := s.queues.launch (some q), pc := .goCopy q } := by
  have hat := inv.trans
  rw [hpc] at hat
  obtain ⟨hest, hq, hsorted, hun, hcopy, hqs⟩ := hat
  have hsends : ∀ r, (s.queues.launch (some q)).sends r = if r = q then [.entry] else [] := by
    intro r
    show Function.update s.queues.sends q (s.queues.sends q ++ [.entry]) r = _
    split_ifs with hr
    · subst hr; rw [Function.update_self, hqs]; rfl
    · rw [Function.update_of_ne hr]; exact hqs r
  refine { inv with
    split := inv.split.launch hq hsorted fun k hk => (inv.all hest k hk).1
    qsolo := fun r h1 => ?_
    qone := fun r => ?_
    qfirst := fun h1 => inv.qfirst h1
    trans := ⟨hest, hq, hun, hcopy⟩
    registered := fun _ => inv.registered_at hpc rfl rfl
    mute := fun h1 => absurd (hest.symm.trans h1) (by simp) }
  · have hr : r ≠ q := by rintro rfl; exact h1 hq
    exact (hsends r).trans (if_neg hr)
  · show ((s.queues.launch (some q)).sends r).length ≤ 1
    rw [hsends]
    split_ifs <;> simp

/-- `go pipe.CopyBuffer(qq, …)`. -/
theorem ClientInv.trans_goCopy {q : ℕ} (inv : ClientInv ids m est src f s) (hpc : s.pc = .goCopy q) :
    ClientInv ids m est src f { s with copy := { pc := .read }, qq := q, pc := .getLink } := by
  have hat := inv.trans
  rw [hpc] at hat
  obtain ⟨hest, hq, hun, hcopy⟩ := hat
  have henq : src.enq = [] := by
    have h1 := inv.copy
    unfold CopyInv at h1
    rw [hcopy] at h1
    exact h1.2
  refine { inv with
    copy := ?_
    feeds := fun _ => hq
    trans := ⟨hest, hun⟩
    registered := fun _ => inv.registered_at hpc rfl rfl
    mute := fun h1 => absurd (hest.symm.trans h1) (by simp) }
  rw [henq]
  exact ⟨rfl, by simp [NoEof]⟩

/-- The master's link is told its connection or its order. -/
theorem ClientInv.modify_master {o : ℕ} (inv : ClientInv ids m est src f s) (u : Link KSUID → Link KSUID)
    (st cn : Bool) (pc : TransPc) (hest : est = true) (hr : f.lanes.link 0 = some o)
    (hb : (u (s.links.hub.obj o)).buffer = (s.links.hub.obj o).buffer)
    (hst : (u (s.links.hub.obj o)).status = (s.links.hub.obj o).status)
    (hcn : (u (s.links.hub.obj o)).counter = (s.links.hub.obj o).counter)
    (hdn : (u (s.links.hub.obj o)).done = (s.links.hub.obj o).done)
    (hso : (u (s.links.hub.obj o)).sorted = if st then ids else [])
    (hco : (u (s.links.hub.obj o)).conn = if cn then some 0 else none)
    (hs' : f.lanes.sorted = true → st = true) (hc' : f.lanes.conn = true → cn = true)
    (hover : s.pc.over = false) (hprox : pc.proxies ids.length = s.pc.proxies ids.length)
    (hat : TransAt ids m est src { f with lanes := { f.lanes with sorted := st, conn := cn } }
      { s with links := s.links.modify o u } pc) :
    ClientInv ids m est src { f with lanes := { f.lanes with sorted := st, conn := cn } }
      { s with links := s.links.modify o u, pc := pc } ∧
    ∀ sent, Down ids f s sent → Down ids { f with lanes := { f.lanes with sorted := st, conn := cn } }
      { s with links := s.links.modify o u, pc := pc } sent := by
  refine ⟨{ inv with
    merge := inv.merge.modify_master hr hb hst hcn hso hco hs' hc'
    lfirst := fun h1 => inv.lfirst h1
    done := inv.done.modify hdn
    trans := by cases pc <;> exact hat
    registered := fun _ k hk => inv.registered hover k (hprox ▸ hk)
    reader := fun k => ?_
    mute := fun h1 => absurd (hest.symm.trans h1) (by simp) }, fun sent t => ?_⟩
  · have h1 := inv.reader k
    show ClientReaderAt ids m _ k (s.reader k)
    cases hrd : s.reader k <;> rw [hrd] at h1 <;> exact h1
  · rcases t with t | t
    · exact .inl (t.mono rfl rfl (fun h1 => h1) fun k _ h1 => ⟨h1, rfl⟩)
    · exact absurd (hover.symm.trans t.1) (by simp)

/-- `go oo.Send(clientLinkHub)`. -/
theorem ClientInv.trans_goLinkSend {o : ℕ} (inv : ClientInv ids m est src f s) (hm : ids[0]? = some m)
    (hpc : s.pc = .goLinkSend o) :
    ClientInv ids m est src f { s with links := s.links.launch (some o), pc := .wait o } ∧
    ∀ sent, Down ids f s sent →
      Down ids f { s with links := s.links.launch (some o), pc := .wait o } sent := by
  have hat := inv.trans
  rw [hpc] at hat
  obtain ⟨hest, ho, hun⟩ := hat
  have hl : Launched ids f s.links.hub :=
    ⟨hun.sorted, hun.conn, fun k hk => (inv.all hest k hk).2, fun r h1 =>
      inv.lfirst (by simpa [LinkHub.lane, hm] using h1)⟩
  have hsends : ∀ r, r ≠ o → (s.links.launch (some o)).sends r = s.links.sends r :=
    fun r hr => Function.update_of_ne hr _ _
  refine ⟨{ inv with
    merge := inv.merge.launch ho (hun.sends o ho) hl
    lsolo := fun r h1 => ?_
    lfirst := fun h1 => inv.lfirst h1
    done := inv.done.launch _
    trans := ⟨hest, ho⟩
    registered := fun _ => inv.registered_at hpc rfl rfl
    mute := fun h1 => absurd (hest.symm.trans h1) (by simp) }, fun sent t => ?_⟩
  · exact (hsends r (by rintro rfl; exact h1 ho)).trans (inv.lsolo r h1)
  · rcases t with t | t
    · refine .inl (t.mono rfl rfl ?_ fun k _ h1 => ⟨h1, rfl⟩)
      rintro ⟨r, pc, h1, h2, -⟩
      rw [hun.sends r h1] at h2; cases h2
    · rw [hpc] at t; exact absurd t.1 (by simp [TransPc.over])

/-- The channel `done` of the master's link is closed: the merger has ended. -/
theorem ClientInv.merger_done {o : ℕ} (inv : ClientInv ids m est src f s) (ho : f.lanes.link 0 = some o)
    (hd : (s.links.hub.obj o).done = true) : MergerDone f s.links := by
  obtain ⟨e, he⟩ := inv.done o hd
  cases inv.merge.merger with
  | idle h1 => rw [h1 o ho] at he; cases he
  | @run r pc h1 h2 _ _ =>
    cases ho.symm.trans h1
    rw [h2] at he
    cases List.mem_singleton.mp he
    exact ⟨o, _, ho, h2, rfl⟩

/-- An operation of the deferred `remove`. -/
theorem ClientInv.trans_remove {a : RemoveAt} (inv : ClientInv ids m est src f s) (hm : ids[0]? = some m)
    (hpc : s.pc = .remove a) (s' : Client KSUID)
    (hs' : s' = { (s.removeStep m a).1 with
      pc := (s.removeStep m a).2.elim (.cancel ids.length) .remove }) :
    ClientInv ids m est src f s' ∧ Still ids src f s src f s' := by
  subst hs'
  have hover : s.pc.over = true := by rw [hpc]; rfl
  obtain ⟨h1, h2⟩ := inv.removeStep hm (.inr hover) a
  have hpc' : (s.removeStep m a).1.pc = .remove a := by
    cases a <;> simp only [Client.removeStep]
    · split_ifs <;> exact hpc
    · exact hpc
    · exact hpc
  have hat := h1.trans
  rw [hpc'] at hat
  cases (s.removeStep m a).2 with
  | none =>
    exact ⟨h1.setPc hat nofun, h2.trans (Still.of_same rfl rfl rfl (fun _ => rfl) rfl (by rw [hpc']; rfl))⟩
  | some a' =>
    exact ⟨h1.setPc hat nofun, h2.trans (Still.of_same rfl rfl rfl (fun _ => rfl) rfl (by rw [hpc']; rfl))⟩

/-- The deferred functions of `transData` after `remove`. -/
theorem ClientInv.trans_over {pc : TransPc} {reg can : ℕ → Bool} (inv : ClientInv ids m est src f s)
    (hover : s.pc.over = true) (hover' : pc.over = true) :
    ClientInv ids m est src f { s with registered := reg, cancelled := can, pc := pc } := by
  have hat := inv.trans.of_over hover
  refine { inv with trans := ?_, registered := fun h1 => absurd (hover'.symm.trans h1) (by simp) }
  cases pc with
  | remove a | cancel i | rmProxy i | returned => exact hat
  | _ => cases hover'

end Senders

/-- One operation of `transData`. -/
theorem ClientInv.transStep {out : Option (ℕ × Msg KSUID)} (inv : ClientInv ids m est src f s)
    (hnd : ids.Nodup) (hm : ids[0]? = some m) (h : s.transStep ids = some (s', out)) :
    ∃ est' src' f', ClientInv ids m est' src' f' s' ∧
      ClientStep ids m est src f s .trans est' src' f' s' out := by
  have hat := inv.trans
  have still : ∀ {src' f'}, ClientInv ids m est src' f' s' ∧ Still ids src f s src' f' s' →
      ∃ est' src' f', ClientInv ids m est' src' f' s' ∧
        ClientStep ids m est src f s .trans est' src' f' s' none :=
    fun h1 => ⟨_, _, _, h1.1, h1.2.step⟩
  have hmid := masterID_eq hm
  cases hpc : s.pc with
  | newProxy i =>
    rw [hpc] at hat
    simp only [Client.transStep, hpc] at h
    split_ifs at h with hi
    · cases h
      exact still ⟨inv.trans_newProxy hpc hi, Still.of_same rfl rfl rfl (by simp [hpc, TransPc.over]) rfl
        (by rw [hpc]; rfl)⟩
    · cases h
      have hin : i = ids.length := by have := hat.2.1; omega
      subst hin
      refine still ⟨inv.setPc ⟨hat.1, hat.2.2⟩ fun _ => ⟨by rw [hpc]; rfl, by rw [hpc]; exact le_refl _⟩,
        Still.of_same rfl rfl rfl (by simp [hpc, TransPc.over]) rfl (by rw [hpc]; rfl)⟩
  | sayID i =>
    rw [hpc] at hat
    simp only [Client.transStep, hpc, hmid, Option.some.injEq, Prod.mk.injEq] at h
    obtain ⟨rfl, rfl⟩ := h
    refine ⟨est, src, f, inv.setPc hat fun _ => ⟨by rw [hpc]; rfl, by rw [hpc]; exact le_refl _⟩,
      fun _ sent t => ?_, fun _ => ?_⟩
    · exact t.imp_right fun h1 => absurd h1.1 (by simp [hpc, TransPc.over])
    · exact .sayhi rfl (getElem?_getD hat.2.1) (by rw [hpc]; rfl) rfl rfl
  | queueAdd i =>
    simp only [Client.transStep, hpc, hmid, Option.some.injEq, Prod.mk.injEq] at h
    obtain ⟨rfl, rfl⟩ := h
    obtain ⟨src', h1, h2⟩ := inv.trans_queueAdd hnd hpc
    exact still ⟨h1, Still.of_same rfl rfl rfl (by simp [hpc, TransPc.over]) h2 (by rw [hpc]; rfl)⟩
  | linkAdd i =>
    simp only [Client.transStep, hpc, hmid, Option.some.injEq, Prod.mk.injEq] at h
    obtain ⟨rfl, rfl⟩ := h
    obtain ⟨f', h1, h2⟩ := inv.trans_linkAdd hnd hm hpc
    exact still ⟨h1, h2, rfl, by rw [hpc]; rfl⟩
  | establish =>
    rw [hpc] at hat
    simp only [Client.transStep, hpc, hmid, Option.some.injEq, Prod.mk.injEq] at h
    obtain ⟨rfl, rfl⟩ := h
    refine ⟨true, src, f, inv.trans_establish hpc, fun _ sent t => ?_, fun _ => ?_⟩
    · exact t.imp_right fun h1 => absurd h1.1 (by simp [hpc, TransPc.over])
    · exact .est hat.1 rfl (by rw [hpc]; rfl) rfl rfl
  | getQueue =>
    rw [hpc] at hat
    simp only [Client.transStep, hpc, hmid] at h
    split at h
    · rename_i q hq
      cases h
      refine still ⟨inv.setPc ⟨hat.1, inv.qfirst hq, hat.2⟩ fun _ => ⟨by rw [hpc]; rfl, by rw [hpc]; exact le_refl _⟩,
        Still.of_same rfl rfl rfl (by simp [hpc, TransPc.over]) rfl (by rw [hpc]; rfl)⟩
    · cases h
      have h1 : ClientInv ids m est src f { s with pc := .remove .test } :=
        inv.setPc (.inr hat.2.1.sends) nofun
      exact still ⟨{ h1 with }, Still.of_same rfl rfl rfl (fun _ => rfl) rfl (by rw [hpc]; rfl)⟩
  | setQueueSort q =>
    simp only [Client.transStep, hpc, Option.some.injEq, Prod.mk.injEq] at h
    obtain ⟨rfl, rfl⟩ := h
    obtain ⟨src', h1, h2⟩ := inv.trans_setQueueSort hpc
    exact still ⟨h1, Still.of_same rfl rfl rfl (by simp [hpc, TransPc.over]) h2 (by rw [hpc]; rfl)⟩
  | goSend q =>
    simp only [Client.transStep, hpc, Option.some.injEq, Prod.mk.injEq] at h
    obtain ⟨rfl, rfl⟩ := h
    exact still ⟨inv.trans_goSend hpc,
      Still.of_same rfl rfl rfl (by simp [hpc, TransPc.over]) rfl (by rw [hpc]; rfl)⟩
  | goCopy q =>
    simp only [Client.transStep, hpc, Option.some.injEq, Prod.mk.injEq] at h
    obtain ⟨rfl, rfl⟩ := h
    exact still ⟨inv.trans_goCopy hpc,
      Still.of_same rfl rfl rfl (by simp [hpc, TransPc.over]) rfl (by rw [hpc]; rfl)⟩
  | getLink =>
    rw [hpc] at hat
    simp only [Client.transStep, hpc, hmid] at h
    split at h
    · rename_i o ho
      cases h
      refine still ⟨inv.setPc ⟨hat.1, inv.lfirst ho, hat.2⟩ fun _ => ⟨by rw [hpc]; rfl, by rw [hpc]; exact le_refl _⟩,
        Still.of_same rfl rfl rfl (by simp [hpc, TransPc.over]) rfl (by rw [hpc]; rfl)⟩
    · cases h
      have h1 : ClientInv ids m est src f { s with pc := .remove .test } :=
        inv.setPc (.inr hat.2.sends) nofun
      exact still ⟨{ h1 with }, Still.of_same rfl rfl rfl (fun _ => rfl) rfl (by rw [hpc]; rfl)⟩
  | setConn o =>
    rw [hpc] at hat
    obtain ⟨hest, ho, hun⟩ := hat
    simp only [Client.transStep, hpc, Option.some.injEq, Prod.mk.injEq] at h
    obtain ⟨rfl, rfl⟩ := h
    have hsorted := inv.merge.tracks.sorted ho
    rw [hun.sorted] at hsorted
    obtain ⟨h1, h2⟩ := inv.modify_master (fun x => { x with conn := some 0 }) false true
      (.setLinkSort o) hest ho rfl rfl rfl rfl hsorted rfl (by rw [hun.sorted]; exact fun h1 => h1)
      (fun _ => rfl) (by rw [hpc]; rfl) (by rw [hpc]; rfl) ⟨hest, ho, rfl, rfl, hun.sends⟩
    exact still ⟨h1, h2, rfl, by rw [hpc]; rfl⟩
  | setLinkSort o =>
    rw [hpc] at hat
    obtain ⟨hest, ho, hun⟩ := hat
    simp only [Client.transStep, hpc, Option.some.injEq, Prod.mk.injEq] at h
    obtain ⟨rfl, rfl⟩ := h
    have hconn := inv.merge.tracks.conn ho
    rw [hun.conn] at hconn
    obtain ⟨h1, h2⟩ := inv.modify_master (fun x => { x with sorted := ids }) true true
      (.goLinkSend o) hest ho rfl rfl rfl rfl rfl hconn (fun _ => rfl) (fun _ => rfl)
      (by rw [hpc]; rfl) (by rw [hpc]; rfl) ⟨hest, ho, rfl, rfl, hun.sends⟩
    exact still ⟨h1, h2, rfl, by rw [hpc]; rfl⟩
  | goLinkSend o =>
    simp only [Client.transStep, hpc, Option.some.injEq, Prod.mk.injEq] at h
    obtain ⟨rfl, rfl⟩ := h
    obtain ⟨h1, h2⟩ := inv.trans_goLinkSend hm hpc
    exact still ⟨h1, h2, rfl, by rw [hpc]; rfl⟩
  | wait o =>
    rw [hpc] at hat
    simp only [Client.transStep, hpc] at h
    split_ifs at h with hd
    cases h
    exact still ⟨inv.setPc (.inl (inv.merger_done hat.2 hd)) nofun,
      Still.of_same rfl rfl rfl (fun _ => rfl) rfl (by rw [hpc]; rfl)⟩
  | remove a =>
    simp only [Client.transStep, hpc, hmid, Option.some.injEq, Prod.mk.injEq] at h
    obtain ⟨h1, rfl⟩ := h
    exact still (inv.trans_remove hm hpc s' h1.symm)
  | cancel i =>
    cases i with
    | zero =>
      simp only [Client.transStep, hpc, Option.some.injEq, Prod.mk.injEq] at h
      obtain ⟨rfl, rfl⟩ := h
      exact still ⟨inv.trans_over (by rw [hpc]; rfl) rfl,
        Still.of_same rfl rfl rfl (fun _ => rfl) rfl (by rw [hpc]; rfl)⟩
    | succ i =>
      simp only [Client.transStep, hpc, Option.some.injEq, Prod.mk.injEq] at h
      obtain ⟨rfl, rfl⟩ := h
      exact still ⟨inv.trans_over (by rw [hpc]; rfl) rfl,
        Still.of_same rfl rfl rfl (fun _ => rfl) rfl (by rw [hpc]; rfl)⟩
  | rmProxy i =>
    simp only [Client.transStep, hpc, Option.some.injEq, Prod.mk.injEq] at h
    obtain ⟨rfl, rfl⟩ := h
    exact still ⟨inv.trans_over (by rw [hpc]; rfl) rfl,
      Still.of_same rfl rfl rfl (fun _ => rfl) rfl (by rw [hpc]; rfl)⟩
  | returned => simp [Client.transStep, hpc] at h

/-- A failed websocket write of `transData`. -/
theorem ClientInv.transFail (inv : ClientInv ids m est src f s) (h : s.transFail = some s') :
    ClientInv ids m est src f s' ∧ ClientStep ids m est src f s .transFail est src f s' none := by
  have hat := inv.trans
  cases hpc : s.pc with
  | sayID i =>
    rw [hpc] at hat
    simp only [Client.transFail, hpc, Option.some.injEq] at h
    subst h
    refine ⟨inv.setPc hat fun _ => ⟨by rw [hpc]; rfl, by rw [hpc]; exact le_refl _⟩, fun _ sent t => ?_,
      fun h1 => absurd hpc (h1 rfl i)⟩
    exact t.imp_right fun h1 => absurd h1.1 (by simp [hpc, TransPc.over])
  | establish =>
    rw [hpc] at hat
    simp only [Client.transFail, hpc, Option.some.injEq] at h
    subst h
    have h1 : ClientInv ids m est src f { s with pc := .remove .test } :=
      inv.setPc (.inr fun r _ => (inv.mute hat.1).2.2.2 r) nofun
    refine ⟨{ h1 with }, Still.step ?_⟩
    exact Still.of_same rfl rfl rfl (fun _ => rfl) rfl (by rw [hpc]; rfl)
  | _ => simp [Client.transFail, hpc] at h

/-- Every step of the client keeps the invariant. -/
theorem ClientInv.act {out : Option (ℕ × Msg KSUID)} (inv : ClientInv ids m est src f s)
    (hnd : ids.Nodup) (hm : ids[0]? = some m) (h : s.step ids l = some (s', out)) :
    ∃ est' src' f', ClientInv ids m est' src' f' s' ∧ ClientStep ids m est src f s l est' src' f' s' out := by
  have hn : 0 < ids.length := (List.getElem?_eq_some_iff.mp hm).1
  have still : ∀ {src' f'}, ClientInv ids m est src' f' s' ∧ Still ids src f s src' f' s' →
      ∃ est' src' f', ClientInv ids m est' src' f' s' ∧
        ClientStep ids m est src f s l est' src' f' s' none :=
    fun h1 => ⟨_, _, _, h1.1, h1.2.step⟩
  unfold Client.step at h
  by_cases hcr : (s.queues.crashed || s.links.crashed) = true
  · rw [if_pos hcr] at h; cases h
  rw [if_neg hcr] at h
  cases l with
  | trans => exact inv.transStep hnd hm h
  | transFail =>
    simp only [Option.map_eq_some_iff, Prod.mk.injEq] at h
    obtain ⟨_, h1, rfl, rfl⟩ := h
    exact ⟨_, _, _, inv.transFail h1⟩
  | recv w =>
    simp only at h
    split at h
    · rename_i x xs hidle hin
      cases h
      exact still (inv.recv hm hidle hin)
    · cases h
  | reader w =>
    simp only [Option.map_eq_some_iff, Prod.mk.injEq] at h
    obtain ⟨_, h1, rfl, rfl⟩ := h
    obtain ⟨f', h2⟩ := inv.readerStep hm h1
    exact still h2
  | writeTimeout w =>
    simp only at h
    split at h
    · rename_i q b hr
      split_ifs at h
      cases h
      have hest : est = true := by
        by_contra h1
        have h2 := ((inv.mute (by simpa using h1)).1 w).2
        rw [hr] at h2; cases h2
      refine ⟨est, src, f, inv.goReader hest trivial, fun h1 => ?_, fun _ => .nothing rfl rfl rfl⟩
      have h2 : Still ids src f s src f (s.goReader w .idle) :=
        still_goReader (.inr (.inr (.inl (h1 w rfl))))
      exact h2.flow
    · cases h
  | copyRead data er =>
    simp only [Option.map_eq_some_iff, Prod.mk.injEq] at h
    obtain ⟨c, h1, rfl, rfl⟩ := h
    exact still (inv.copyMove (fun _ h2 => h2.read h1) (Copy.read_pc h1))
  | copy =>
    simp only [Option.map_eq_some_iff, Prod.mk.injEq] at h
    obtain ⟨⟨c, qs⟩, h1, rfl, rfl⟩ := h
    obtain ⟨src', h2⟩ := inv.copyStep h1
    exact still h2
  | copyTimeout =>
    simp only [Option.map_eq_some_iff, Prod.mk.injEq] at h
    obtain ⟨c, h1, rfl, rfl⟩ := h
    exact still (inv.copyMove (fun _ h2 => h2.timeout h1) (Copy.timeout_pc h1))
  | tellClose ok =>
    by_cases hc : s.copy.pc = .done ∧ s.told = false
    case neg => simp only [if_neg hc, reduceCtorEq] at h
    simp only [if_pos hc, Option.some.injEq, Prod.mk.injEq] at h
    obtain ⟨rfl, rfl⟩ := h
    have hest := inv.est_of_copy (by rw [hc.1]; simp)
    have hinv : ClientInv ids m est src f { s with told := true } := by
      refine { inv with trans := ?_ }
      exact inv.trans.mono (.inl hest) rfl rfl (fun h1 => h1) (fun _ h1 => h1) (fun _ h1 => h1) (fun h1 => h1)
    have hstill : Still ids src f s src f { s with told := true } :=
      Still.of_same rfl rfl rfl (fun h1 => h1) rfl rfl
    refine ⟨est, src, f, hinv, fun _ => hstill.flow, fun _ => ?_⟩
    split_ifs
    · rw [masterID_eq hm]; exact .finish hest hest rfl rfl
    · exact .nothing rfl rfl rfl
  | queueSend q i o =>
    simp only [Option.bind_eq_some_iff] at h
    obtain ⟨⟨qs, msg⟩, h1, h2⟩ := h
    obtain ⟨hest, src', h3, h4⟩ := inv.queueSend h1
    have hflow : ∀ sent, Down ids f s sent → Down ids f { s with queues := qs } sent := fun _ t => t
    cases h4 with
    | nothing hs =>
      simp only [Option.some.injEq, Prod.mk.injEq] at h2
      obtain ⟨rfl, rfl⟩ := h2
      exact ⟨est, src', f, h3, fun _ => hflow, fun _ => .nothing rfl rfl hs⟩
    | chunk hs hb =>
      simp only at h2
      split_ifs at h2
      cases h2
      exact ⟨est, src', f, h3, fun _ => hflow, fun _ => .chunk hest hest rfl hs hb⟩
  | linkSend q i o =>
    simp only [Option.map_eq_some_iff, Prod.mk.injEq] at h
    obtain ⟨lk, h1, rfl, rfl⟩ := h
    obtain ⟨f', h2⟩ := inv.linkSend hn h1
    exact still h2
  | linkDone q i =>
    simp only at h
    split_ifs at h with hpc
    simp only [Option.map_eq_some_iff, Prod.mk.injEq] at h
    obtain ⟨lk, h1, rfl, rfl⟩ := h
    exact still (inv.linkDone hpc h1)

/-- A reply arrives. -/
theorem ClientInv.arrive {x : Msg KSUID} (inv : ClientInv ids m est src f s) (hest : est = true)
    (hx : Reply ids m w x) : ClientInv ids m est src f (s.arrive w x) := by
  refine { inv with
    inbox := fun {k y} hy => ?_
    trans := inv.trans.mono (.inl hest) rfl rfl (fun h1 => h1) (fun _ h1 => h1) (fun _ h1 => h1) (fun h1 => h1)
    mute := fun h1 => absurd (h1.symm.trans hest) (by simp) }
  replace hy : y ∈ Function.update s.inbox w (s.inbox w ++ [x]) k := hy
  by_cases hk : k = w
  · subst hk
    rw [Function.update_self] at hy
    rcases List.mem_append.mp hy with h1 | h1
    · exact inv.inbox h1
    · cases List.mem_singleton.mp h1; exact hx
  · rw [Function.update_of_ne hk] at hy
    exact inv.inbox hy

omit [Inhabited KSUID] in
theorem Client.pend_arrive {x : Msg KSUID} : (s.arrive w x).pend k =
    if k = w then s.pend w ++ x.chunk?.toList else s.pend k := by
  show ClientReader.hand (s.reader k) ++
    (Function.update s.inbox w (s.inbox w ++ [x]) k).filterMap Msg.chunk? = _
  split_ifs with hk
  · subst hk
    rw [Function.update_self, List.filterMap_append, Client.pend, List.append_assoc]
    cases hx : x.chunk? <;> simp [hx]
  · rw [Function.update_of_ne hk]; rfl

omit [Inhabited KSUID] in
/-- A message without a chunk. -/
theorem Client.pend_control {x : Msg KSUID} (hx : x.chunk? = none) : (s.arrive w x).pend = s.pend := by
  funext k
  rw [Client.pend_arrive, hx]
  split_ifs with hk
  · subst hk; simp
  · rfl

end Wssocks.Wss

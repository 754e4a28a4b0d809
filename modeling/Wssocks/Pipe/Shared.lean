import Wssocks.Pipe.Life
import Wssocks.Pipe.Merge

/-!
# A session on a hub it shares

The links of all sessions are in one hub. `Confined` tells that a step is one of a
single session: it reaches only links that are registered for this session's ids.
Such a step keeps the invariant of every other session.

`Seat` is the state of the links of a session whose client sends `n` times `sayhi`,
then `est`, then its chunks in turn on the `n` lanes, when nothing is removed, no
timer fires and no write fails. The messages are numbered in the order in which the
client sends them: `sayhi` of lane `k` is number `k`, `est` is number `n` and chunk
`t` is number `n + 1 + t`. `done j` tells that message `j` was handled.

Results:

* `MergeInv.confined`, `Seat.confined`: steps of other sessions.
* `Seat.sayhi`, `Seat.est`, `Seat.push`, `Seat.trySend`, `Seat.send`, `Seat.handoff`:
  the session's own steps.
* `Seat.send_isSome`: `Send` can go on when the chunk whose turn it is was handled.
-/

namespace Wssocks.Pipe

open Wssocks.Lib

variable {KSUID : Type} [DecidableEq KSUID]

/-! ## Steps of one session -/

/-- A step of the session with the ids `ks`, the master `m` and the connection `c`. -/
structure Confined (ks : List KSUID) (m : KSUID) (c : ℕ) (l l' : Links KSUID) : Prop where
  ref? : ∀ k, k ∉ ks → l'.hub.ref? k = l.hub.ref? k
  obj : ∀ r < l.hub.next, (∀ k ∈ ks, l.hub.ref? k ≠ some r) → l'.hub.obj r = l.hub.obj r
  sends : ∀ r, l'.sends r = l.sends r ∨ l'.hub.ref? m = some r
  socks : ∀ d, d ≠ c → l'.socks d = l.socks d
  next : l.hub.next ≤ l'.hub.next

section Confined

variable {ks : List KSUID} {m id : KSUID} {c q i : ℕ} {l l' : Links KSUID}

theorem LinkHub.masterRef_ne {h : LinkHub KSUID} {r : ℕ} (hr : r < h.next) (hm : h.ref? m ≠ some r) :
    r ≠ h.masterRef m := by
  rintro rfl
  cases href : h.ref? m with
  | none => simp [LinkHub.masterRef, href] at hr
  | some q => simp [LinkHub.masterRef, href] at hm

theorem Confined.modify {u : Link KSUID → Link KSUID} (hq : ∃ k ∈ ks, l.hub.ref? k = some q) :
    Confined ks m c l (l.modify q u) where
  ref? := fun _ _ => rfl
  obj := by
    intro r _ hr
    obtain ⟨k, hk, hkq⟩ := hq
    exact Registry.obj_modify_ne fun h => hr k hk (h ▸ hkq)
  sends := fun _ => .inl rfl
  socks := fun _ _ => rfl
  next := le_rfl

theorem Confined.trans {l'' : Links KSUID} (h : Confined ks m c l l') (h' : Confined ks m c l' l'')
    (href : ∀ k, l'.hub.ref? k = l.hub.ref? k) (href' : ∀ k, l''.hub.ref? k = l'.hub.ref? k) :
    Confined ks m c l l'' where
  ref? := fun k _ => (href' k).trans (href k)
  obj := by
    intro r hr hfree
    rw [h'.obj r (hr.trans_le h.next) (fun k hk => by rw [href]; exact hfree k hk), h.obj r hr hfree]
  sends := by
    intro r
    rcases h'.sends r with h1 | h1
    · rcases h.sends r with h2 | h2
      · exact .inl (h1.trans h2)
      · exact .inr ((href' m).trans h2)
    · exact .inr h1
  socks := fun d hd => (h'.socks d hd).trans (h.socks d hd)
  next := h.next.trans h'.next

theorem Confined.goto {pc : LinkSend KSUID} (hq : l.hub.ref? m = some q) :
    Confined ks m c l (l.goto q i pc) where
  ref? := fun _ _ => rfl
  obj := fun _ _ _ => rfl
  sends := by
    intro r
    by_cases hr : r = q
    · subst hr; exact .inr hq
    · exact .inl (Function.update_of_ne hr _ _)
  socks := fun _ _ => rfl
  next := le_rfl

theorem Confined.launch (hq : l.hub.ref? m = some q) : Confined ks m c l (l.launch (some q)) where
  ref? := fun _ _ => rfl
  obj := fun _ _ _ => rfl
  sends := by
    intro r
    rw [Links.sends_launch]
    split_ifs with hr
    · exact .inr (hq.trans hr)
    · exact .inl rfl
  socks := fun _ _ => rfl
  next := le_rfl

theorem confined_add (hm : m ∈ ks) (hid : id ∈ ks) : Confined ks m c l (l.add id m) where
  ref? := by
    intro k hk
    rw [Links.hub_add, LinkHub.ref?_add, if_neg (ne_of_mem_of_not_mem hm hk).symm,
      if_neg (ne_of_mem_of_not_mem hid hk).symm]
  obj := by
    intro r hr hfree
    rw [Links.hub_add, LinkHub.obj_add_of_lt hr, if_neg (LinkHub.masterRef_ne hr (hfree m hm))]
  sends := by
    intro r
    show ({ l with hub := (LinkHub.add l.hub id m).1 }.launch (LinkHub.add l.hub id m).2).sends r = _ ∨ _
    rw [Links.sends_launch]
    split_ifs with hr
    · rw [LinkHub.add_launch, Option.ite_none_right_eq_some] at hr
      rw [Links.hub_add, LinkHub.ref?_add, if_pos rfl]
      exact .inr hr.2
    · exact .inl rfl
  socks := by
    intro d _
    show ({ l with hub := (LinkHub.add l.hub id m).1 }.launch (LinkHub.add l.hub id m).2).socks d = _
    cases (LinkHub.add l.hub id m).2 <;> rfl
  next := by rw [Links.hub_add]; exact LinkHub.next_le_add

theorem confined_trySend {d : ℕ} (hm : m ∈ ks) (hq : l.hub.ref? m = some q) :
    Confined ks m c l (l.trySend m d) := by
  rw [Links.trySend_eq hq]
  have hmod : Confined ks m c l (l.modify q fun x => { x with conn := some d }) :=
    .modify ⟨m, hm, hq⟩
  split_ifs
  · exact hmod.trans (.launch hq) (fun _ => rfl) fun _ => rfl
  · exact hmod

theorem confined_push {b : Buffer} {ok : Bool} (hq : ∃ k ∈ ks, l.hub.ref? k = some q)
    (h : l.push q b = some (l', ok)) : Confined ks m c l l' := by
  rcases Links.push_cases h with ⟨-, -, ch, -, -, rfl⟩ | ⟨-, -, rfl⟩
  · exact .modify hq
  · exact ⟨fun _ _ => rfl, fun _ _ _ => rfl, fun _ => .inl rfl, fun _ _ => rfl, le_rfl⟩

theorem confined_handoff (hq : l.hub.ref? m = some q) (h : l.handoff q i = some l') :
    Confined ks m c l l' := by
  unfold Links.handoff at h
  split at h
  · split_ifs at h
    cases h
    exact .goto hq
  · cases h

/-- A step of `Send` reaches its own link, the link it reads from and its connection. -/
theorem confined_send {o : Outcome} (hm : m ∈ ks) (hq : l.hub.ref? m = some q)
    (hread : ∀ r rest, (l.sends q)[i]? = some (.read r rest) → ∃ k ∈ ks, l.hub.ref? k = some r)
    (hconn : ∀ d, (l.hub.obj q).conn = some d → d = c) (h : l.send q i o = some l') :
    Confined ks m c l l' := by
  have hgo : ∀ pc, Confined ks m c l (l.goto q i pc) := fun pc => .goto hq
  have hmod : ∀ (u : Link KSUID → Link KSUID) (r : ℕ) pc, (∃ k ∈ ks, l.hub.ref? k = some r) →
      Confined ks m c l ((l.modify r u).goto q i pc) := fun u r pc hr =>
    Confined.trans (.modify hr) (.goto hq) (fun _ => rfl) fun _ => rfl
  have hself : ∃ k ∈ ks, l.hub.ref? k = some q := ⟨m, hm, hq⟩
  have hcrash : Confined ks m c l { l with crashed := true } :=
    ⟨fun _ _ => rfl, fun _ _ _ => rfl, fun _ => .inl rfl, fun _ _ => rfl, le_rfl⟩
  cases Links.sendStep_of_send h with
  | refuse | closed | round | again | next | missing | timeout | noConn => exact hgo _
  | enter | ret | closeDone => exact hmod _ _ _ hself
  | read hpc => exact hmod _ _ _ (hread _ _ hpc)
  | @write _ _ d _ _ x _ hd =>
    obtain rfl := hconn d hd
    have hwrite : Confined ks m d l { l with socks := Function.update l.socks d x.1 } :=
      ⟨fun _ _ => rfl, fun _ _ _ => rfl, fun _ => .inl rfl,
        fun d' hd' => Function.update_of_ne hd' _ _, le_rfl⟩
    exact hwrite.trans (.goto hq) (fun _ => rfl) fun _ => rfl
  | panic => exact hcrash

end Confined

/-! ## The other sessions -/

section Others

variable {ids ks : List KSUID} {m : KSUID} {c d : ℕ} {f : Flow} {l l' : Links KSUID}

/-- A step of one session keeps the links of every other one. -/
structure Undisturbed (ids : List KSUID) (f : Flow) (l l' : Links KSUID) : Prop where
  lane : ∀ k, l'.hub.lane ids k = l.hub.lane ids k
  obj : ∀ {k r}, f.lanes.link k = some r → l'.hub.obj r = l.hub.obj r
  sends : ∀ {k r}, f.lanes.link k = some r → l'.sends r = l.sends r
  next : l.hub.next ≤ l'.hub.next

theorem MergeInv.registered {k r : ℕ} (inv : MergeInv ids c f l) (hlive : Live ids f l.hub)
    (hr : f.lanes.link k = some r) : ∃ id ∈ ids, l.hub.ref? id = some r := by
  rw [← inv.tracks.live hlive k, LinkHub.lane] at hr
  obtain ⟨id, hid, href⟩ := Option.bind_eq_some_iff.mp hr
  exact ⟨id, List.mem_of_getElem? hid, href⟩

theorem MergeInv.undisturbed (inv : MergeInv ids c f l) (hlive : Live ids f l.hub)
    (h : Confined ks m d l l') (hm : m ∈ ks) (hdis : ∀ k ∈ ids, k ∉ ks) : Undisturbed ids f l l' := by
  refine ⟨fun k => ?_, fun hr => ?_, fun hr => ?_, h.next⟩
  · unfold LinkHub.lane
    cases hid : ids[k]? with
    | none => rfl
    | some id => exact h.ref? id (hdis id (List.mem_of_getElem? hid))
  · obtain ⟨id, hid, href⟩ := inv.registered hlive hr
    refine h.obj _ (Registry.ref?_lt href) fun k hk hkr => ?_
    exact hdis id hid (Registry.ref?_inj href hkr ▸ hk)
  · obtain ⟨id, hid, href⟩ := inv.registered hlive hr
    refine (h.sends _).resolve_right fun hmr => ?_
    rw [← h.ref? id (hdis id hid)] at href
    exact hdis id hid (Registry.ref?_inj href hmr ▸ hm)

theorem Undisturbed.live (h : Undisturbed ids f l l') (hlive : Live ids f l.hub) : Live ids f l'.hub :=
  (h.lane 0).trans hlive

theorem Undisturbed.tracks (h : Undisturbed ids f l l') (t : Tracks ids c f.lanes l.hub)
    (hlive : Live ids f l.hub) : Tracks ids c f.lanes l'.hub where
  link_lt := fun hr => ⟨(t.link_lt hr).1, (t.link_lt hr).2.trans_le h.next⟩
  link_inj := t.link_inj
  unborn := fun hk => (h.lane _).trans (t.unborn hk)
  born := t.born
  counted_link := t.counted_link
  first := fun {k r} hr => by
    rw [h.lane, t.live hlive] at hr
    exact .inl hr
  live := fun _ k => (h.lane k).trans (t.live hlive k)
  open_iff := fun hr => by rw [h.obj hr, h.lane]; exact t.open_iff hr
  status_close := fun hr => by rw [h.obj hr]; exact t.status_close hr
  sorted := fun hr => by rw [h.obj hr]; exact t.sorted hr
  conn := fun hr => by rw [h.obj hr]; exact t.conn hr
  counter := fun hr => by rw [h.obj hr]; exact t.counter hr

theorem Undisturbed.merger (h : Undisturbed ids f l l') (hlive : Live ids f l.hub)
    (hsock : l'.socks c = l.socks c) (hm : Merger ids c f l) : Merger ids c f l' := by
  cases hm with
  | idle hs hst hmerged hout =>
    refine .idle (fun r hr => ?_) (fun r hr => ?_) hmerged (hsock ▸ hout)
    · rw [h.sends hr]; exact hs r hr
    · rw [h.obj hr]; exact hst r hr
  | run hr hs hl hat =>
    refine .run hr ((h.sends hr).trans hs) ⟨hl.sorted, hl.conn, hl.counted, ?_⟩ ?_
    · intro r hr'
      rw [h.lane] at hr'
      exact hl.first r hr'
    · rw [hsock]
      refine hat.mono rfl (fun _ _ hq => hq) (.inl (by rw [h.obj hr])) (fun i q hq hcl => .inl ?_)
        (fun hd k => (h.lane k).trans (hd k)) fun _ => hlive
      rwa [h.obj hq] at hcl

theorem MergeInv.confined (inv : MergeInv ids c f l) (hlive : Live ids f l.hub)
    (h : Confined ks m d l l') (hm : m ∈ ks) (hdis : ∀ k ∈ ids, k ∉ ks) (hc : c ≠ d) :
    MergeInv ids c f l' := by
  have hu := inv.undisturbed hlive h hm hdis
  exact {
    tracks := hu.tracks inv.tracks hlive
    items := fun hr => by rw [hu.obj hr]; exact inv.items hr
    unpushed := inv.unpushed
    merges := inv.merges
    laneStatus := fun hk hr => by rw [hu.obj hr]; exact inv.laneStatus hk hr
    merger := hu.merger hlive (h.socks c hc) inv.merger }

end Others

/-! ## The hub -/

/-- No goroutine has panicked, no connection is closed, and `done` is closed by `Send` only. -/
structure Links.Sound (l : Links KSUID) : Prop where
  running : l.crashed = false
  opened : ∀ c, (l.socks c).closed = false
  doneOk : l.DoneOk

section Sound

variable {m id : KSUID} {q r i : ℕ} {l l' : Links KSUID}

theorem Links.Sound.init [Inhabited KSUID] : (Links.init : Links KSUID).Sound :=
  ⟨rfl, fun _ => rfl, Links.doneOk_init⟩

theorem Links.Sound.modify {u : Link KSUID → Link KSUID} (h : l.Sound)
    (hu : (u (l.hub.obj q)).done = (l.hub.obj q).done) : (l.modify q u).Sound :=
  ⟨h.running, h.opened, h.doneOk.modify hu⟩

theorem Links.Sound.launch (h : l.Sound) (o : Option ℕ) : (l.launch o).Sound := by
  refine ⟨?_, ?_, h.doneOk.launch o⟩
  · cases o <;> exact h.running
  · cases o <;> exact h.opened

theorem Links.Sound.add (h : l.Sound) : (l.add id m).Sound := by
  refine ⟨?_, ?_, h.doneOk.add⟩
  · show ({ l with hub := (LinkHub.add l.hub id m).1 }.launch (LinkHub.add l.hub id m).2).crashed = false
    cases (LinkHub.add l.hub id m).2 <;> exact h.running
  · show ∀ c, (({ l with hub := (LinkHub.add l.hub id m).1 }.launch (LinkHub.add l.hub id m).2).socks c).closed = false
    cases (LinkHub.add l.hub id m).2 <;> exact h.opened

theorem Links.Sound.trySend {c : ℕ} (h : l.Sound) (hq : l.hub.ref? m = some q) : (l.trySend m c).Sound := by
  rw [Links.trySend_eq hq]
  exact (h.modify rfl).launch _

theorem Links.Sound.push {b : Buffer} {ok : Bool} (h : l.Sound) (hp : l.push q b = some (l', ok)) :
    l'.Sound := by
  rcases Links.push_cases hp with ⟨-, -, ch, -, -, rfl⟩ | ⟨-, -, rfl⟩
  · exact h.modify rfl
  · exact h

theorem Links.Sound.handoff (h : l.Sound) (hs : l.handoff q i = some l') : l'.Sound := by
  refine ⟨?_, ?_, h.doneOk.handoff hs⟩
  all_goals
    unfold Links.handoff at hs
    split at hs
    · split_ifs at hs
      cases hs
      first | exact h.running | exact h.opened
    · cases hs

/-- The only goroutine of a link does not find `done` closed before it has closed it. -/
theorem Links.Sound.send {pc : LinkSend KSUID} {o : Outcome} (h : l.Sound) (hpc : l.sends q = [pc])
    (hs : l.send q i o = some l') : l'.Sound := by
  have hdone : (l.hub.obj q).done = true → ∃ e, pc = .exit e := by
    intro hd
    obtain ⟨e, he⟩ := h.doneOk q hd
    rw [hpc] at he
    exact ⟨e, (List.mem_singleton.mp he).symm⟩
  have hat : ∀ {pc'}, (l.sends q)[i]? = some pc' → pc' = pc := by
    intro pc' hi
    have hmem := List.mem_of_getElem? hi
    rw [hpc] at hmem
    exact List.mem_singleton.mp hmem
  have hok := h.doneOk.send hs
  cases Links.sendStep_of_send hs with
  | refuse | enter | closed | round | again | next | missing | read | timeout | noConn | ret | closeDone =>
    exact ⟨h.running, h.opened, hok⟩
  | @write _ _ d _ _ x _ _ hx =>
    refine ⟨h.running, fun c => ?_, hok⟩
    show (Function.update l.socks d x.1 c).closed = false
    by_cases hc : c = d
    · rw [hc, Function.update_self, closed_safeWrite hx, h.opened]
    · rw [Function.update_of_ne hc, h.opened]
  | panic hi hd =>
    obtain ⟨_, rfl⟩ := hdone hd
    rcases hi with hi | hi <;> cases hat hi

end Sound

/-! ## A session that nothing disturbs -/

/-- `Send` returned with an error. -/
def SendPc.failed {K S : Type} : SendPc K S → Bool
  | .ret e | .handoff e | .closeDone e | .exit e => e.isSome
  | _ => false

/-- The links of a session of which the messages in `done` were handled, `sent` were sent, the last one
    of them an end of stream if `eof`. -/
structure Seat (ids : List KSUID) (done : ℕ → Prop) (sent : ℕ) (eof : Bool) (c : ℕ) (f : Flow)
    (l : Links KSUID) : Prop where
  merge : MergeInv ids c f l
  live : Live ids f l.hub
  bound : ∀ {j}, done j → j < sent
  counted : ∀ {k}, k < ids.length → (f.lanes.counted k = true ↔ done k)
  linked : ∀ {k r}, k ≠ 0 → f.lanes.link k = some r → done k
  sorted : done ids.length → f.lanes.sorted = true
  order : f.lanes.conn = true → f.lanes.sorted = true
  chunk : ∀ {t}, done (ids.length + 1 + t) ↔ t / ids.length < (f.pushed (t % ids.length)).length
  last : ∀ {t b}, (f.pushed (t % ids.length))[t / ids.length]? = some b → b.eof = true →
    eof = true ∧ sent = ids.length + 1 + t + 1
  ready : (∀ k < ids.length, f.lanes.counted k = true) → f.lanes.conn = true →
    ∀ r, f.lanes.link 0 = some r → l.sends r ≠ []
  clean : ∀ {r}, f.lanes.link 0 = some r → ∀ pc ∈ l.sends r, pc.failed = false

section Seat

variable {ids ks : List KSUID} {m id : KSUID} {done : ℕ → Prop} {sent c d k r q t i : ℕ} {eof : Bool}
  {f : Flow} {l l' : Links KSUID} {b : Buffer}

theorem Seat.init [Inhabited KSUID] :
    Seat ids (fun _ => False) 0 false c Flow.init (Links.init : Links KSUID) where
  merge := MergeInv.init
  live := Tracks.init.unborn (c := c) rfl
  bound := nofun
  counted := by simp [Flow.init, LaneMap.init]
  linked := nofun
  sorted := nofun
  order := nofun
  chunk := by simp [Flow.init]
  last := by simp [Flow.init]
  ready := fun _ h => by cases h
  clean := nofun

/-- The client sends a message. -/
theorem Seat.post {eof' : Bool} (h : Seat ids done sent false c f l) :
    Seat ids done (sent + 1) eof' c f l :=
  { h with
    bound := fun hj => (h.bound hj).trans (Nat.lt_succ_self _)
    last := fun hb he => by cases (h.last hb he).1 }

theorem Seat.confined (h : Seat ids done sent eof c f l) (hcf : Confined ks m d l l') (hm : m ∈ ks)
    (hdis : ∀ k ∈ ids, k ∉ ks) (hc : c ≠ d) : Seat ids done sent eof c f l' := by
  have hu := h.merge.undisturbed h.live hcf hm hdis
  exact { h with
    merge := h.merge.confined h.live hcf hm hdis hc
    live := hu.live h.live
    ready := fun hall hconn r hr => by rw [hu.sends hr]; exact h.ready hall hconn r hr
    clean := fun hr => by rw [hu.sends hr]; exact h.clean hr }

theorem Seat.link_of_done (h : Seat ids done sent eof c f l) (hk : k < ids.length) (hd : done k) :
    ∃ r, f.lanes.link k = some r :=
  Option.isSome_iff_exists.mp (h.merge.tracks.counted_link ((h.counted hk).mpr hd))

theorem Seat.ref?_master (h : Seat ids done sent eof c f l) (hm : ids[0]? = some m)
    (hr : f.lanes.link 0 = some r) : l.hub.ref? m = some r := by
  have hlane : l.hub.lane ids 0 = some r := h.live.trans hr
  simpa [LinkHub.lane, hm] using hlane

theorem Seat.link_of_sorted (h : Seat ids done sent eof c f l) (hs : f.lanes.sorted = true) :
    ∃ r, f.lanes.link 0 = some r := by
  cases h0 : f.lanes.link 0 with
  | some r => exact ⟨r, rfl⟩
  | none => rw [(h.merge.tracks.born h0).1] at hs; cases hs

theorem Seat.link_of_conn (h : Seat ids done sent eof c f l) (hconn : f.lanes.conn = true) :
    ∃ r, f.lanes.link 0 = some r :=
  h.link_of_sorted (h.order hconn)

/-- `sayhi` takes no link from the session. -/
theorem Seat.link_added (h : Seat ids done sent eof c f l) (hk : ¬ done k) {j : ℕ}
    (hq : f.lanes.link j = some q) : (Tracks.added ids f.lanes l.hub k m).link j = some q := by
  by_cases h0 : j = 0
  · subst h0
    simp [Tracks.added, LaneMap.add, hq]
  · have hjk : j ≠ k := by
      rintro rfl
      exact hk (h.linked h0 hq)
    simpa [Tracks.added, LaneMap.add, h0, hjk] using hq

theorem Links.mem_sends_launch {o : Option ℕ} {pc : LinkSend KSUID} (h : pc ∈ (l.launch o).sends r) :
    pc ∈ l.sends r ∨ pc = .entry := by
  rw [Links.sends_launch] at h
  split_ifs at h
  · simpa using h
  · exact .inl h

theorem Seat.sayhi (h : Seat ids done sent eof c f l) (hnd : ids.Nodup) (hm : ids[0]? = some m)
    (hid : ids[k]? = some id) (hk : ¬ done k) (hsent : k < sent)
    (hfresh : ∀ r, l.hub.next ≤ r → l.sends r = []) :
    Seat ids (fun j => j = k ∨ done j) sent eof c
      { f with lanes := Tracks.added ids f.lanes l.hub k m } (l.add id m) := by
  have hkn : k < ids.length := (List.getElem?_eq_some_iff.mp hid).1
  have hnew : k ≠ 0 → f.lanes.link k = none := by
    intro h0
    cases hlink : f.lanes.link k with
    | none => rfl
    | some r => exact absurd (h.linked h0 hlink) hk
  have hc : f.lanes.counted k = false := by
    cases hcounted : f.lanes.counted k with
    | false => rfl
    | true => exact absurd ((h.counted hkn).mp hcounted) hk
  have hcounts : (Tracks.added ids f.lanes l.hub k m).counted = Function.update f.lanes.counted k true := by
    rw [Tracks.counted_added, if_pos (show l.hub.lane ids 0 = f.lanes.link 0 from h.live)]
  exact {
    merge := h.merge.add hnd hm hid hnew hc hfresh
    live := h.merge.live_add hnd hm hid hnew h.live
    bound := by
      rintro j (rfl | hj)
      · exact hsent
      · exact h.bound hj
    counted := by
      intro j hj
      rw [hcounts]
      by_cases hjk : j = k
      · simp [hjk]
      · rw [Function.update_of_ne hjk, h.counted hj]
        simp [hjk]
    linked := by
      intro j r hj hlink
      by_cases hjk : j = k
      · exact .inl hjk
      · refine .inr (h.linked hj (r := r) ?_)
        simpa [Tracks.added, LaneMap.add, hj, hjk] using hlink
    sorted := by
      rintro (hj | hj)
      · omega
      · exact h.sorted hj
    order := h.order
    chunk := by
      intro t
      rw [← h.chunk]
      exact or_iff_right (by omega)
    last := h.last
    ready := by
      intro hall hconn r hr
      have hlaunch : (LinkHub.add l.hub id m).2 = some (l.hub.masterRef m) := by
        rw [h.merge.tracks.add_launch hm, if_pos]
        refine ⟨h.live, hconn, h.order hconn, ?_⟩
        have hall' := tally_eq_iff.mpr hall
        rwa [hcounts, tally_update hkn hc] at hall'
      obtain ⟨q, hq⟩ := h.link_of_conn hconn
      have hmr : l.hub.masterRef m = r := by
        have hqr : some q = some r := by simpa [Tracks.added, LaneMap.add, hq] using hr
        simp [LinkHub.masterRef, h.ref?_master hm hq, Option.some.inj hqr]
      show ({ l with hub := (LinkHub.add l.hub id m).1 }.launch (LinkHub.add l.hub id m).2).sends r ≠ []
      rw [hlaunch, hmr, Links.sends_launch, if_pos rfl]
      simp
    clean := by
      intro r hr pc hpc
      rcases Links.mem_sends_launch hpc with hold | rfl
      · cases h0 : f.lanes.link 0 with
        | some q =>
          have hqr : some q = some r := by simpa [Tracks.added, LaneMap.add, h0] using hr
          exact h.clean (h0.trans hqr) pc hold
        | none =>
          -- the master's link is a new one
          have hr' : l.hub.masterRef m = r := by simpa [Tracks.added, LaneMap.add, h0] using hr
          have hlane : l.hub.ref? m = none := by
            simpa [LinkHub.lane, hm] using h.merge.tracks.unborn h0
          have hge : l.hub.next ≤ r := by simp [← hr', LinkHub.masterRef, hlane]
          rw [show ({ l with hub := (LinkHub.add l.hub id m).1 } : Links KSUID).sends r = [] from
            hfresh r hge] at hold
          cases hold
      · rfl }

theorem Seat.est (h : Seat ids done sent eof c f l) (hm : ids[0]? = some m) (h0 : done 0)
    (hsent : ids.length < sent) :
    Seat ids (fun j => j = ids.length ∨ done j) sent eof c
      { f with lanes := { f.lanes with sorted := true } } (l.setSort m ids) := by
  obtain ⟨r, hr⟩ := h.link_of_done (List.getElem?_eq_some_iff.mp hm).1 h0
  have hmerge := h.merge.setSort hm hr h.live
  rw [Links.setSort_eq (h.ref?_master hm hr)] at hmerge ⊢
  exact {
    merge := hmerge
    live := h.live
    bound := by
      rintro j (rfl | hj)
      · exact hsent
      · exact h.bound hj
    counted := by
      intro j hj
      rw [or_iff_right hj.ne]
      exact h.counted hj
    linked := fun hj hlink => .inr (h.linked hj hlink)
    sorted := fun _ => rfl
    order := fun _ => rfl
    chunk := by
      intro t
      rw [or_iff_right (by omega)]
      exact h.chunk
    last := h.last
    ready := h.ready
    clean := h.clean }

/-- The lanes of a session are open. -/
theorem Seat.closed_buffer (h : Seat ids done sent eof c f l) (hq : f.lanes.link k = some q) :
    (l.hub.obj q).buffer.closed = false :=
  (h.merge.tracks.open_iff hq).mpr ((h.merge.tracks.live h.live k).trans hq)

theorem Links.push_same {ok : Bool} (ids : List KSUID) (h : l.push q b = some (l', ok)) :
    (∀ k, l'.hub.lane ids k = l.hub.lane ids k) ∧ l'.sends = l.sends := by
  rcases Links.push_cases h with ⟨-, -, ch, -, -, rfl⟩ | ⟨-, -, rfl⟩ <;> exact ⟨fun _ => rfl, rfl⟩

/-- The chunks of the lane of `t` that are in its link, when the next one to come is chunk `t`. -/
theorem Seat.length_pushed (h : Seat ids done sent eof c f l) (hn : 0 < ids.length)
    (hnot : ¬ done (ids.length + 1 + t))
    (hprev : ∀ t' < t, t' % ids.length = t % ids.length → done (ids.length + 1 + t')) :
    (f.pushed (t % ids.length)).length = t / ids.length := by
  refine le_antisymm (not_lt.mp fun hlt => hnot (h.chunk.mpr hlt)) ?_
  by_cases hlt : t < ids.length
  · rw [Nat.div_eq_of_lt hlt]
    exact Nat.zero_le _
  · have hback : (t - ids.length) % ids.length = t % ids.length :=
      (Nat.mod_eq_sub_mod (not_lt.mp hlt)).symm
    have hdone := h.chunk.mp (hprev (t - ids.length) (by omega) hback)
    rw [hback] at hdone
    rw [Nat.div_eq_sub_div hn (not_lt.mp hlt)]
    exact hdone

/-- Chunk `t` goes into the link of its lane, after those before it on this lane. -/
theorem Seat.push {ok : Bool} (h : Seat ids done sent eof c f l) (hn : 0 < ids.length)
    (hnot : ¬ done (ids.length + 1 + t))
    (hprev : ∀ t' < t, t' % ids.length = t % ids.length → done (ids.length + 1 + t'))
    (hq : f.lanes.link (t % ids.length) = some q) (hpush : l.push q b = some (l', ok))
    (hb : b.eof = true → eof = true ∧ sent = ids.length + 1 + t + 1) (hsent : ids.length + 1 + t < sent) :
    Seat ids (fun j => j = ids.length + 1 + t ∨ done j) sent eof c
      { f with pushed := Function.update f.pushed (t % ids.length) (f.pushed (t % ids.length) ++ [b]) } l' := by
  have hlen := h.length_pushed hn hnot hprev
  obtain rfl : ok = true := by
    rcases Links.push_cases hpush with ⟨h1, -⟩ | ⟨-, h1, -⟩
    · exact h1
    · rw [h.closed_buffer hq] at h1; cases h1
  obtain ⟨hlane, hsends⟩ := Links.push_same ids hpush
  exact {
    merge := h.merge.push hn hq hpush
    live := (hlane 0).trans h.live
    bound := by
      rintro j (rfl | hj)
      · exact hsent
      · exact h.bound hj
    counted := by
      intro j hj
      rw [or_iff_right (by omega)]
      exact h.counted hj
    linked := fun hj hlink => .inr (h.linked hj hlink)
    sorted := fun hj => h.sorted (hj.resolve_left (by omega))
    order := h.order
    chunk := by
      intro t'
      dsimp only
      rw [h.chunk, Nat.add_left_cancel_iff]
      by_cases hmod : t' % ids.length = t % ids.length
      · rw [hmod, Function.update_self, List.length_append, List.length_singleton, hlen,
          ← turn_inj hmod]
        omega
      · rw [Function.update_of_ne hmod, or_iff_right fun h1 => hmod (by rw [h1])]
    last := by
      intro t' b' hb' he
      dsimp only at hb'
      by_cases hmod : t' % ids.length = t % ids.length
      · rw [hmod, Function.update_self] at hb'
        by_cases heq : t' / ids.length = t / ids.length
        · rw [heq, ← hlen, List.getElem?_concat_length] at hb'
          obtain rfl := Option.some.inj hb'
          rw [(turn_inj hmod).mp heq]
          exact hb he
        · have hlt := (List.getElem?_eq_some_iff.mp hb').1
          rw [List.length_append, List.length_singleton, hlen] at hlt
          rw [List.getElem?_append_left (by omega), ← hmod] at hb'
          exact h.last hb' he
      · rw [Function.update_of_ne hmod] at hb'
        exact h.last hb' he
    ready := fun hall hconn r hr => by rw [hsends]; exact h.ready hall hconn r hr
    clean := fun hr => by rw [hsends]; exact h.clean hr }

theorem Seat.trySend (h : Seat ids done sent eof c f l) (hm : ids[0]? = some m)
    (hr : f.lanes.link 0 = some r) (hs : f.lanes.sorted = true) (hc : f.lanes.conn = false) :
    Seat ids done sent eof c { f with lanes := { f.lanes with conn := true } } (l.trySend m c) := by
  obtain ⟨hmerge, -, hsends⟩ := h.merge.trySend hm hr h.live hs hc
  exact { h with
    merge := hmerge
    live := by
      show (l.trySend m c).hub.lane ids 0 = f.lanes.link 0
      rw [← h.live, Links.trySend_eq (h.ref?_master hm hr), Links.hub_launch]
      rfl
    order := fun _ => hs
    ready := by
      intro hall _ r' hr'
      obtain rfl := Option.some.inj (hr.symm.trans hr')
      rw [hsends, if_pos (tally_eq_iff.mpr hall), Function.update_self]
      simp
    clean := by
      intro r' hr' pc hpc
      rw [Links.trySend_eq (h.ref?_master hm hr)] at hpc
      rcases Links.mem_sends_launch hpc with hold | rfl
      · exact h.clean hr' pc hold
      · rfl }

/-- Where `Send` fails when no timer fires and no write fails. -/
theorem Links.send_ok (h : l.send q i .ok = some l') :
    ∃ pc pc', (l.sends q)[i]? = some pc ∧ l'.sends q = (l.sends q).set i pc' ∧
      (pc'.failed = true → pc.failed = true ∨ ∃ e, pc' = .ret (some e) ∧ e ≠ .timeout ∧ e ≠ .write) := by
  have hgo : ∀ (k : Links KSUID) pc', k.sends = l.sends →
      (k.goto q i pc').sends q = (l.sends q).set i pc' := by
    intro k pc' hk
    rw [Links.sends_goto_self, hk]
  have hstay : ∀ {pc}, (l.sends q)[i]? = some pc → l.sends q = (l.sends q).set i pc := by
    intro pc hi
    obtain ⟨hlt, rfl⟩ := List.getElem?_eq_some_iff.mp hi
    rw [List.set_getElem_self]
  cases Links.sendStep_of_send h with
  | refuse hi | round hi | again hi | next hi => exact ⟨_, _, hi, hgo _ _ rfl, fun hf => (by cases hf)⟩
  | enter hi | read hi => exact ⟨_, _, hi, hgo _ _ rfl, fun hf => (by cases hf)⟩
  | closed hi | missing hi | noConn hi =>
    exact ⟨_, _, hi, hgo _ _ rfl, fun _ => .inr ⟨_, rfl, by simp, by simp⟩⟩
  | @write _ _ _ b _ _ hi _ hx =>
    refine ⟨_, _, hi, hgo _ _ rfl, fun hf => ?_⟩
    rw [safeWrite_ok hx] at hf
    cases hb : b.eof <;> rw [hb] at hf <;> cases hf
  | ret hi | closeDone hi => exact ⟨_, _, hi, hgo _ _ rfl, .inl⟩
  | panic hi =>
    rcases hi with hi | hi
    · exact ⟨_, _, hi, hstay hi, .inl⟩
    · exact ⟨_, _, hi, hstay hi, .inl⟩

/-- The goroutine of a launched `Send`. -/
theorem MergeInv.at_pc {pc : LinkSend KSUID} (inv : MergeInv ids c f l) (hr : f.lanes.link 0 = some r)
    (hpc : pc ∈ l.sends r) :
    l.sends r = [pc] ∧ Launched ids f l.hub ∧ MergerAt ids f l.hub (l.socks c).out r pc := by
  cases inv.merger with
  | idle hs => rw [hs r hr] at hpc; cases hpc
  | run hr' hs hl hat =>
    obtain rfl := Option.some.inj (hr'.symm.trans hr)
    rw [hs] at hpc
    obtain rfl := List.mem_singleton.mp hpc
    exact ⟨hs, hl, hat⟩

/-- A step of `Send` that does not fail. -/
theorem Seat.send (h : Seat ids done sent eof c f l) (hn : 0 < ids.length) (hr : f.lanes.link 0 = some r)
    (hs : l.send r i .ok = some l') :
    ∃ bs, Seat ids done sent eof c { f with merged := bs } l' := by
  obtain ⟨bs, hmerge, -⟩ := h.merge.send hn hr hs
  have hmoved := Links.send_moved hs
  have hlive : Live ids { f with merged := bs } l'.hub := by
    show l'.hub.lane ids 0 = f.lanes.link 0
    rw [← h.live]
    unfold LinkHub.lane
    simp only [hmoved.ref?]
  obtain ⟨pc', hsends⟩ := hmoved.sends
  refine ⟨bs, { h with merge := hmerge, live := hlive, ready := ?_, clean := ?_ }⟩
  · intro hall hconn r' hr'
    obtain rfl := Option.some.inj (hr.symm.trans hr')
    rw [hsends, Function.update_self, Ne, List.set_eq_nil_iff]
    exact h.ready hall hconn r hr
  · intro r' hr' pc hpc
    obtain rfl := Option.some.inj (hr.symm.trans hr')
    obtain ⟨pc0, pc1, hi, hset, hfail⟩ := Links.send_ok hs
    rw [hset] at hpc
    rcases List.mem_or_eq_of_mem_set hpc with hold | rfl
    · exact h.clean hr pc hold
    · by_contra hbad
      rcases hfail (by simpa using hbad) with h1 | ⟨e, rfl, htime, hwrite⟩
      · rw [h.clean hr pc0 (List.mem_of_getElem? hi)] at h1
        cases h1
      · -- the other errors come from links that are not registered
        obtain ⟨-, -, hat⟩ := hmerge.at_pc hr (hset ▸ hpc)
        cases hat with
        | err _ _ he => exact he.elim htime fun he => he.elim hwrite fun he => he hlive

theorem Seat.handoff (h : Seat ids done sent eof c f l) (hr : f.lanes.link 0 = some r)
    (hs : l.handoff r i = some l') : Seat ids done sent eof c f l' := by
  have hhub := (Links.handoff_moved hs).1
  have hclean : ∀ pc ∈ l'.sends r, pc.failed = false := by
    unfold Links.handoff at hs
    split at hs
    · rename_i e hi
      split_ifs at hs
      cases hs
      intro pc hpc
      rw [Links.sends_goto_self] at hpc
      rcases List.mem_or_eq_of_mem_set hpc with hold | rfl
      · exact h.clean hr pc hold
      · have hclean := h.clean hr _ (List.mem_of_getElem? hi)
        exact hclean
    · cases hs
  refine { h with
    merge := (h.merge.handoff hr hs).1
    live := by rw [hhub]; exact h.live
    ready := ?_
    clean := fun hr' => Option.some.inj (hr.symm.trans hr') ▸ hclean }
  intro _ _ r' hr' hnil
  obtain ⟨q, pc, hq, hsends, -⟩ := (h.merge.handoff hr hs).2.2
  obtain rfl := Option.some.inj (hq.symm.trans hr')
  rw [hsends] at hnil
  cases hnil

/-! ## What `Send` waits for -/

/-- When `Send` has returned, all that was sent was taken. -/
theorem Seat.finished {pc : LinkSend KSUID} (h : Seat ids done sent eof c f l)
    (hr : f.lanes.link 0 = some r) (hpc : pc ∈ l.sends r) (hend : pc.ended = true) :
    sent = ids.length + 1 + f.merged.length ∧ ∀ t < f.merged.length, done (ids.length + 1 + t) := by
  have hfin : Finished ids f l.hub (l.socks c).out none := by
    have hclean := h.clean hr pc hpc
    have hat := (h.merge.at_pc hr hpc).2.2
    cases pc with
    | ret e | handoff e | closeDone e | exit e =>
      cases e with
      | none => exact hat
      | some e => cases hclean
    | entry | refused | loop | pass | read | write => cases hend
  cases hfin with
  | @eof bs b _ hm hb _ _ =>
    have hlast : f.merged[bs.length]? = some b := by rw [hm, List.getElem?_concat_length]
    have hsent := (h.last (h.merge.merges _ _ hlast) hb).2
    have hlen : f.merged.length = bs.length + 1 := by rw [hm, List.length_append, List.length_singleton]
    refine ⟨by omega, fun t ht => h.chunk.mpr ?_⟩
    exact (List.getElem?_eq_some_iff.mp (h.merge.merges _ _ (List.getElem?_eq_getElem ht))).1

/-- No link has the status of a finished `Send` while a chunk is on its way. -/
theorem Seat.status_ne_done (h : Seat ids done sent eof c f l) (hq : f.lanes.link k = some q)
    (hnot : ¬ done (ids.length + 1 + t)) (hsent : ids.length + 1 + t < sent) :
    (l.hub.obj q).status ≠ .done := by
  by_cases h0 : k = 0
  · subst h0
    cases h.merge.merger with
    | idle _ hst => exact (hst q hq).2
    | @run r pc hr hs _ hat =>
      obtain rfl := Option.some.inj (hr.symm.trans hq)
      cases pc with
      | entry => exact hat.2.2.2
      | refused => exact hat.elim
      | loop | pass | read => exact hat.2.1
      | write => exact hat.1
      | ret e | handoff e | closeDone e | exit e =>
        obtain ⟨hall, hdone⟩ := h.finished hr (hs ▸ List.mem_singleton_self _) rfl
        exact absurd (hdone t (by omega)) hnot
  · exact h.merge.laneStatus h0 hq

/-- A chunk in the link of a lane is one that `Send` has not taken yet. -/
theorem Seat.buffered (h : Seat ids done sent eof c f l) (hq : f.lanes.link k = some q)
    (hne : (l.hub.obj q).buffer.items ≠ []) :
    ∃ t, f.merged.length ≤ t ∧ t % ids.length = k ∧ done (ids.length + 1 + t) := by
  have hk := (h.merge.tracks.link_lt hq).1
  rw [h.merge.items hq, Ne, List.drop_eq_nil_iff, not_le] at hne
  have hmod : (ids.length * taken ids.length k f.merged.length + k) % ids.length = k := by
    rw [Nat.mul_add_mod, Nat.mod_eq_of_lt hk]
  refine ⟨_, le_of_taken_le hk le_rfl, hmod, h.chunk.mpr ?_⟩
  rwa [hmod, Nat.mul_add_div (by omega), Nat.div_eq_of_lt hk, Nat.add_zero]

/-- A write can be executed. -/
theorem Seat.write_isSome {b : Buffer} {rest : List KSUID} (h : Seat ids done sent eof c f l)
    (hr : f.lanes.link 0 = some r) (hs : l.sends r = [.write q b rest])
    (hopen : (l.socks c).closed = false) : (l.send r 0 .ok).isSome := by
  have hl := (h.merge.at_pc hr (hs ▸ List.mem_singleton_self _)).2.1
  have hconn : (l.hub.obj r).conn = some c := by rw [h.merge.tracks.conn hr, if_pos hl.conn]
  simp only [Links.send, hs, List.getElem?_cons_zero, hconn, safeWrite, hopen, Bool.false_eq_true,
    if_false, Option.isSome_map]
  split_ifs <;> rfl

/-- `Send` can go on when it is launched and the chunk whose turn it is was handled. -/
theorem Seat.send_isSome (h : Seat ids done sent eof c f l) (hn : 0 < ids.length)
    (hhi : ∀ k < ids.length, done k) (hconn : f.lanes.conn = true)
    (hturn : done (ids.length + 1 + f.merged.length)) (hopen : (l.socks c).closed = false) :
    ∃ r, f.lanes.link 0 = some r ∧ (l.send r 0 .ok).isSome := by
  obtain ⟨r, hr⟩ := h.link_of_conn hconn
  have hne := h.ready (fun k hk => (h.counted hk).mpr (hhi k hk)) hconn r hr
  obtain ⟨pc, hpc⟩ := List.exists_mem_of_ne_nil _ hne
  obtain ⟨hs, -, hat⟩ := h.merge.at_pc hr hpc
  refine ⟨r, hr, ?_⟩
  cases pc with
  | entry =>
    simp only [Links.send, hs, List.getElem?_cons_zero]
    split_ifs <;> rfl
  | refused => exact hat.elim
  | loop =>
    simp only [Links.send, hs, List.getElem?_cons_zero]
    split_ifs <;> rfl
  | pass rest =>
    cases rest with
    | nil => simp [Links.send, hs]
    | cons id rest =>
      simp only [Links.send, hs, List.getElem?_cons_zero]
      split <;> rfl
  | read q rest =>
    -- the lane it reads from holds the chunk whose turn it is
    obtain ⟨-, -, i, -, -, hq, hi, -⟩ := hat
    have hitems : (l.hub.obj q).buffer.items ≠ [] := by
      rw [h.merge.items hq, Ne, List.drop_eq_nil_iff, not_le, ← hi, taken_turn hn]
      exact h.chunk.mp hturn
    simp only [Links.send, hs, List.getElem?_cons_zero, Option.isSome_map]
    exact Chan.recv?_isSome _ hitems
  | write q b rest => exact h.write_isSome hr hs hopen
  | ret e | handoff e | closeDone e | exit e =>
    have hsent := (h.finished hr hpc rfl).1
    have := h.bound hturn
    omega

/-- A `Send` that has taken an end of stream and cannot go on has written it. -/
theorem Seat.closed_of_eof {bs : List Buffer} {x : Buffer} (h : Seat ids done sent eof c f l) (hr : f.lanes.link 0 = some r)
    (hne : l.sends r ≠ []) (hm : f.merged = bs ++ [x]) (hx : x.eof = true) (hopen : (l.socks c).closed = false)
    (hstuck : ¬ (l.send r 0 .ok).isSome) :
    ∃ pre, Exact pre bs ∧ (l.socks c).out = pre ++ [.closeWrite] := by
  obtain ⟨pc, hpc⟩ := List.exists_mem_of_ne_nil _ hne
  obtain ⟨hs, -, hat⟩ := h.merge.at_pc hr hpc
  have hmem : x ∈ f.merged := by rw [hm]; exact List.mem_concat_self
  have hnot : ¬ Exact (l.socks c).out f.merged := fun hex => by rw [hex.noEof x hmem] at hx; cases hx
  cases pc with
  | entry => rw [hat.1] at hmem; cases hmem
  | refused => exact hat.elim
  | loop | pass | read => exact absurd hat.1 hnot
  | write => exact absurd (h.write_isSome hr hs hopen) hstuck
  | ret o | handoff o | closeDone o | exit o =>
    cases hat with
    | @eof bs' x' pre hm' _ hpre hout =>
      have hbs : bs = bs' := (List.append_inj' (hm.symm.trans hm') rfl).1
      exact ⟨pre, hbs ▸ hpre, hout⟩
    | err => cases h.clean hr _ hpc

end Seat

end Wssocks.Pipe

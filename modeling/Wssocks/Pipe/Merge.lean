import Wssocks.Lib.RoundRobin
import Wssocks.Pipe.Lanes
import Wssocks.Pipe.Stream

/-!
# The merger: `link.Send` on the links of one session

`MergeInv` is the invariant of the merger of a session. A `Flow` holds what cannot
be read off the state: all that was ever put into each lane's first link, and all
that `Send` has taken out, in order. `Send` takes from the lanes in turn, so what
it took is `Merges` of what was put in, whatever the order of arrival; it writes
exactly what it took.

After `RemoveAll` a receive from a drained buffer gives the zero value and `Send`
loses its place in the round, but then no lane is registered any more (`Doomed`)
and it stops at the next lookup.

Results: each operation on the hub and each step of `Send` keeps `MergeInv`.
-/

namespace Wssocks.Pipe

open Wssocks.Lib

variable {KSUID : Type} [DecidableEq KSUID]

/-- The history of the links of a session. -/
structure Flow where
  lanes : LaneMap
  /-- What was put into each lane's first link. -/
  pushed : ℕ → List Buffer
  /-- What `Send` has taken out. -/
  merged : List Buffer

/-- The start of a session. -/
def Flow.init : Flow := ⟨LaneMap.init, fun _ => [], []⟩

/-- `out` is what writing the chunks of `bs` gives; there was no end of stream. -/
structure Exact (out : List ConnEvent) (bs : List Buffer) : Prop where
  payload : payloads out = chunks bs
  noClose : ConnEvent.closeWrite ∉ out
  noEof : ∀ b ∈ bs, b.eof = false

/-- The master's first link is registered, and so are those of all lanes. -/
def Live (ids : List KSUID) (f : Flow) (h : LinkHub KSUID) : Prop :=
  h.lane ids 0 = f.lanes.link 0

/-- No lane is registered. -/
def Doomed (ids : List KSUID) (h : LinkHub KSUID) : Prop := ∀ k, h.lane ids k = none

/-- What holds once `Send` was launched. -/
structure Launched (ids : List KSUID) (f : Flow) (h : LinkHub KSUID) : Prop where
  sorted : f.lanes.sorted = true
  conn : f.lanes.conn = true
  counted : ∀ k < ids.length, f.lanes.counted k = true
  /-- The master has no second link. -/
  first : ∀ r, h.lane ids 0 = some r → f.lanes.link 0 = some r

/-- What `Send` has done when it returned. -/
inductive Finished (ids : List KSUID) (f : Flow) (h : LinkHub KSUID) (out : List ConnEvent) :
    Option SendErr → Prop
  | eof {bs : List Buffer} {b : Buffer} {pre : List ConnEvent} (hm : f.merged = bs ++ [b])
      (hb : b.eof = true) (hpre : Exact pre bs) (hout : out = pre ++ [.closeWrite]) :
      Finished ids f h out none
  | err {e : SendErr} (hc : ConnEvent.closeWrite ∉ out)
      (hcut : Cut (payloads out) (chunks f.merged))
      (he : e = .timeout ∨ e = .write ∨ ¬ Live ids f h) : Finished ids f h out (some e)

/-- What holds where `Send` is; `r` is the link it runs on. -/
def MergerAt (ids : List KSUID) (f : Flow) (h : LinkHub KSUID) (out : List ConnEvent) (r : ℕ) :
    LinkSend KSUID → Prop
  | .entry => f.merged = [] ∧ out = [] ∧ (h.obj r).status ≠ .send ∧ (h.obj r).status ≠ .done
  | .refused => False
  | .loop => Exact out f.merged ∧ (h.obj r).status ≠ .done ∧
      (f.merged.length % ids.length = 0 ∨ Doomed ids h)
  | .pass rest => Exact out f.merged ∧ (h.obj r).status ≠ .done ∧ ∃ i ≤ ids.length,
      rest = ids.drop i ∧ (f.merged.length % ids.length = i % ids.length ∨ Doomed ids h)
  | .read q rest => Exact out f.merged ∧ (h.obj r).status ≠ .done ∧ ∃ i < ids.length,
      rest = ids.drop (i + 1) ∧ f.lanes.link i = some q ∧ f.merged.length % ids.length = i ∧
      ((h.obj q).buffer.closed = true → Doomed ids h)
  | .write _ b rest => (h.obj r).status ≠ .done ∧ ∃ bs, Exact out bs ∧ ∃ i < ids.length,
      rest = ids.drop (i + 1) ∧ ((f.merged = bs ++ [b] ∧ bs.length % ids.length = i) ∨
        (f.merged = bs ∧ b = default ∧ Doomed ids h))
  | .ret e | .handoff e | .closeDone e | .exit e => Finished ids f h out e

/-- The goroutine of `Send`: not launched yet, or at one place. -/
inductive Merger (ids : List KSUID) (c : ℕ) (f : Flow) (l : Links KSUID) : Prop
  | idle (hs : ∀ r, f.lanes.link 0 = some r → l.sends r = [])
      (hst : ∀ r, f.lanes.link 0 = some r →
        (l.hub.obj r).status ≠ .send ∧ (l.hub.obj r).status ≠ .done)
      (hm : f.merged = []) (ho : (l.socks c).out = [])
  | run {r : ℕ} {pc : LinkSend KSUID} (hr : f.lanes.link 0 = some r) (hs : l.sends r = [pc])
      (hl : Launched ids f l.hub) (hat : MergerAt ids f l.hub (l.socks c).out r pc)

/-- The invariant of the links of a session, whose connection is `c`. -/
structure MergeInv (ids : List KSUID) (c : ℕ) (f : Flow) (l : Links KSUID) : Prop where
  tracks : Tracks ids c f.lanes l.hub
  items : ∀ {k r}, f.lanes.link k = some r → (l.hub.obj r).buffer.items =
    (f.pushed k).drop (taken ids.length k f.merged.length)
  unpushed : ∀ {k}, f.lanes.link k = none → f.pushed k = []
  merges : Merges ids.length f.pushed f.merged
  laneStatus : ∀ {k r}, k ≠ 0 → f.lanes.link k = some r → (l.hub.obj r).status ≠ .done
  merger : Merger ids c f l

variable {ids : List KSUID} {c r : ℕ} {f : Flow} {l l' : Links KSUID} {h h' : LinkHub KSUID}
  {out : List ConnEvent} {pc : LinkSend KSUID}

theorem MergeInv.init [Inhabited KSUID] : MergeInv ids c Flow.init (Links.init : Links KSUID) where
  tracks := Tracks.init
  items := by simp [Flow.init, LaneMap.init]
  unpushed := by simp [Flow.init]
  merges := merges_nil
  laneStatus := by simp [Flow.init, LaneMap.init]
  merger := .idle (by simp [Flow.init, LaneMap.init]) (by simp [Flow.init, LaneMap.init]) rfl rfl

theorem exact_nil : Exact [] [] := ⟨rfl, by simp, by simp⟩

/-- Writing one more chunk. -/
theorem Exact.write {bs : List Buffer} (hx : Exact out bs) {b : Buffer} (hb : b.eof = false) :
    Exact (out ++ [.data b.data]) (bs ++ [b]) where
  payload := by rw [payloads_append, chunks_append, hx.payload, payloads_data]
  noClose := by simp [hx.noClose]
  noEof := by
    intro x hxm
    rcases List.mem_append.mp hxm with h1 | h1
    · exact hx.noEof x h1
    · rw [List.mem_singleton.mp h1]; exact hb

/-- Writing the zero value changes no chunk. -/
theorem Exact.write_default {bs : List Buffer} (hx : Exact out bs) :
    Exact (out ++ [.data (default : Buffer).data]) bs where
  payload := by rw [payloads_append, payloads_data, chunks_default, List.append_nil, hx.payload]
  noClose := by simp [hx.noClose]
  noEof := hx.noEof

/-- A write that failed after `n` bytes. -/
theorem Exact.cut_write {bs : List Buffer} (hx : Exact out bs) (b : Buffer) (n : ℕ) :
    Cut (payloads (out ++ [.data (b.data.take n)])) (chunks (bs ++ [b])) := by
  rw [payloads_append, chunks_append, hx.payload]
  by_cases hd : b.data.take n = []
  · have : payloads [.data (b.data.take n)] = [] := by simp [payloads, ConnEvent.bytes, hd]
    rw [this, List.append_nil]
    exact Cut.of_isPrefix (List.prefix_append _ _)
  · have hb : b.data ≠ [] := by rintro h0; simp [h0] at hd
    have h1 : payloads [.data (b.data.take n)] = [b.data.take n] := by
      simp [payloads, ConnEvent.bytes, hd]
    have h2 : chunks [b] = [b.data] := by simp [chunks, hb]
    rw [h1, h2]
    refine ⟨(chunks bs).length, [b.data.take n], by simp, .inr ⟨_, b.data, rfl, by simp, ?_⟩⟩
    exact List.take_prefix _ _

/-- The links of a session that ended may only go away. -/
theorem Finished.mono {e : Option SendErr} (hf : Finished ids f h out e)
    (hl : Live ids f h' → Live ids f h) : Finished ids f h' out e := by
  cases hf with
  | eof hm hb hpre hout => exact .eof hm hb hpre hout
  | err hc hcut he => exact .err hc hcut (he.imp_right (.imp_right (mt hl)))

/-! ## Steps of `Send` -/

section Send

variable {o : Outcome} {pc' : LinkSend KSUID}

theorem sends_goto (hs : l.sends r = [pc]) : (l.goto r 0 pc').sends r = [pc'] := by
  simp [Links.goto, hs]

/-- The goroutine of `Send` moves, and nothing else changes. -/
theorem MergeInv.goto (inv : MergeInv ids c f l) (hr : f.lanes.link 0 = some r)
    (hs : l.sends r = [pc]) (hl : Launched ids f l.hub)
    (hat : MergerAt ids f l.hub (l.socks c).out r pc') : MergeInv ids c f (l.goto r 0 pc') :=
  { inv with merger := .run hr (sends_goto hs) hl hat }

/-- A change of `status` or `done` of the master's link by `Send`. -/
theorem MergeInv.goto_modify (inv : MergeInv ids c f l) (hr : f.lanes.link 0 = some r)
    (hs : l.sends r = [pc]) (hl : Launched ids f l.hub) {u : Link KSUID → Link KSUID}
    (hb : (u (l.hub.obj r)).buffer = (l.hub.obj r).buffer)
    (hst : (u (l.hub.obj r)).status ≠ .close ∨ (u (l.hub.obj r)).status = (l.hub.obj r).status)
    (hso : (u (l.hub.obj r)).sorted = (l.hub.obj r).sorted)
    (hco : (u (l.hub.obj r)).conn = (l.hub.obj r).conn)
    (hcn : (u (l.hub.obj r)).counter = (l.hub.obj r).counter)
    (hat : MergerAt ids f (l.hub.modify r u) (l.socks c).out r pc') :
    MergeInv ids c f ((l.modify r u).goto r 0 pc') where
  tracks := inv.tracks.modify_same r u (by rw [hb])
    (fun h1 => by rcases hst with h2 | h2; exacts [absurd h1 h2, h2 ▸ h1]) hso hco hcn
  items := by
    intro k q hq
    rw [← inv.items hq]
    by_cases hqr : q = r
    · subst hqr
      rw [Links.hub_goto, Links.hub_modify, Registry.obj_modify_self, hb]
    · rw [Links.hub_goto, Links.hub_modify, Registry.obj_modify_ne hqr]
  unpushed := inv.unpushed
  merges := inv.merges
  laneStatus := by
    intro k q hk hq
    have hqr : q ≠ r := by rintro rfl; exact hk (inv.tracks.link_inj hq hr)
    rw [Links.hub_goto, Links.hub_modify, Registry.obj_modify_ne hqr]
    exact inv.laneStatus hk hq
  merger := .run hr (sends_goto hs) ⟨hl.sorted, hl.conn, hl.counted, hl.first⟩ hat

/-- The lookup of the next id of the round. -/
theorem lane_of_drop {i : ℕ} {id : KSUID} {rest : List KSUID} (h0 : id :: rest = ids.drop i) :
    i < ids.length ∧ rest = ids.drop (i + 1) ∧ h.lane ids i = h.ref? id := by
  have hi : i < ids.length := by
    by_contra hge
    rw [List.drop_eq_nil_of_le (by omega)] at h0
    cases h0
  rw [List.drop_eq_getElem_cons hi] at h0
  obtain ⟨rfl, rfl⟩ := List.cons.inj h0
  exact ⟨hi, rfl, by simp [LinkHub.lane, List.getElem?_eq_getElem hi]⟩

/-- A registered lane of a launched session is its first link, and open. -/
theorem MergeInv.lane_open (inv : MergeInv ids c f l) (hl : Launched ids f l.hub) {i q : ℕ}
    (hq : l.hub.lane ids i = some q) :
    f.lanes.link i = some q ∧ (l.hub.obj q).buffer.closed = false := by
  have hlink : f.lanes.link i = some q := by
    rcases inv.tracks.first hq with h1 | ⟨rfl, h2, -⟩
    · exact h1
    · exact hl.first q hq
  exact ⟨hlink, (inv.tracks.open_iff hlink).mpr hq⟩

/-- Once a lane of a launched session is missing, the master's link is. -/
theorem MergeInv.not_live (inv : MergeInv ids c f l) (hl : Launched ids f l.hub) {i : ℕ}
    (hi : i < ids.length) (hq : l.hub.lane ids i = none) : ¬ Live ids f l.hub := by
  intro hlive
  have h1 := inv.tracks.counted_link (hl.counted i hi)
  rw [← inv.tracks.live hlive i, hq] at h1
  cases h1

theorem MergeInv.send_entry (inv : MergeInv ids c f l) (hr : f.lanes.link 0 = some r)
    (hs : l.sends r = [.entry]) (hl : Launched ids f l.hub)
    (hat : MergerAt ids f l.hub (l.socks c).out r .entry) (h : l.send r 0 o = some l') :
    MergeInv ids c f l' := by
  obtain ⟨hm, ho, hst, hst'⟩ := hat
  simp only [Links.send, hs, List.getElem?_cons_zero, hst, hst', or_self, if_false,
    Option.some.injEq] at h
  subst h
  refine inv.goto_modify hr hs hl rfl (.inl (by simp)) rfl rfl rfl ⟨?_, by simp, .inl (by simp [hm])⟩
  rw [hm, ho]; exact exact_nil

theorem MergeInv.send_loop (inv : MergeInv ids c f l) (hr : f.lanes.link 0 = some r)
    (hs : l.sends r = [.loop]) (hl : Launched ids f l.hub)
    (hat : MergerAt ids f l.hub (l.socks c).out r .loop) (h : l.send r 0 o = some l') :
    MergeInv ids c f l' := by
  obtain ⟨hx, hst, hpos⟩ := hat
  simp only [Links.send, hs, List.getElem?_cons_zero] at h
  split_ifs at h with hc <;> cases h
  · refine inv.goto hr hs hl (.err hx.noClose (.of_isPrefix (by rw [hx.payload])) (.inr (.inr ?_)))
    intro hlive
    have hopen := (inv.tracks.open_iff hr).mpr (hlive.trans hr)
    rw [inv.tracks.status_close hr hc] at hopen
    cases hopen
  · refine inv.goto hr hs hl ⟨hx, hst, 0, Nat.zero_le _, ?_, by simpa using hpos⟩
    rw [inv.tracks.sorted hr, if_pos hl.sorted, List.drop_zero]

theorem MergeInv.send_pass {rest : List KSUID} (inv : MergeInv ids c f l)
    (hr : f.lanes.link 0 = some r) (hs : l.sends r = [.pass rest]) (hl : Launched ids f l.hub)
    (hat : MergerAt ids f l.hub (l.socks c).out r (.pass rest)) (h : l.send r 0 o = some l') :
    MergeInv ids c f l' := by
  obtain ⟨hx, hst, i, hi, hrest, hpos⟩ := hat
  cases rest with
  | nil =>
    simp only [Links.send, hs, List.getElem?_cons_zero, Option.some.injEq] at h
    subst h
    have hin : i = ids.length := by
      have := congrArg List.length hrest
      simp at this
      omega
    refine inv.goto hr hs hl ⟨hx, hst, ?_⟩
    rwa [hin, Nat.mod_self] at hpos
  | cons id rest =>
    obtain ⟨hlt, hrest', hlane⟩ := lane_of_drop (h := l.hub) hrest
    simp only [Links.send, hs, List.getElem?_cons_zero] at h
    cases hq : l.hub.ref? id with
    | none =>
      simp only [hq, Option.some.injEq] at h
      subst h
      exact inv.goto hr hs hl (.err hx.noClose (.of_isPrefix (by rw [hx.payload]))
        (.inr (.inr (inv.not_live hl hlt (hlane.trans hq)))))
    | some q =>
      simp only [hq, Option.some.injEq] at h
      subst h
      obtain ⟨hlink, hopen⟩ := inv.lane_open hl (hlane.trans hq)
      refine inv.goto hr hs hl ⟨hx, hst, i, hlt, hrest', hlink, ?_, by simp [hopen]⟩
      rcases hpos with hpos | hd
      · rwa [Nat.mod_eq_of_lt hlt] at hpos
      · exact absurd (hlane.trans hq) (by simp [hd i])

/-- `Send` leaves `ch` in the buffer of link `q` and has taken `bs` in all. -/
theorem MergeInv.goto_buffer (inv : MergeInv ids c f l) (hr : f.lanes.link 0 = some r)
    (hs : l.sends r = [pc]) (hl : Launched ids f l.hub) {q : ℕ} {ch : BufChan} {bs : List Buffer}
    (hclosed : ch.closed = (l.hub.obj q).buffer.closed)
    (hself : ∀ k, f.lanes.link k = some q →
      ch.items = (f.pushed k).drop (taken ids.length k bs.length))
    (hother : ∀ k, f.lanes.link k ≠ some q →
      taken ids.length k bs.length = taken ids.length k f.merged.length)
    (hmerges : Merges ids.length f.pushed bs)
    (hat : MergerAt ids { f with merged := bs } (l.hub.modify q fun x => { x with buffer := ch })
      (l.socks c).out r pc') :
    MergeInv ids c { f with merged := bs }
      ((l.modify q fun x => { x with buffer := ch }).goto r 0 pc') where
  tracks := inv.tracks.modify_same q (fun x => { x with buffer := ch }) hclosed (fun h1 => h1)
    rfl rfl rfl
  items := by
    intro k r' hk
    rw [Links.hub_goto, Links.hub_modify]
    by_cases hq : r' = q
    · subst hq
      rw [Registry.obj_modify_self]
      exact hself k hk
    · rw [Registry.obj_modify_ne hq, inv.items hk,
        hother k fun h1 => hq (Option.some.inj (hk.symm.trans h1))]
  unpushed := inv.unpushed
  merges := hmerges
  laneStatus := by
    intro k r' hk hr'
    rw [Links.hub_goto, Links.hub_modify, Registry.obj_modify]
    split_ifs with hq
    · subst hq; exact inv.laneStatus hk hr'
    · exact inv.laneStatus hk hr'
  merger := .run hr (sends_goto hs) ⟨hl.sorted, hl.conn, hl.counted, hl.first⟩ hat

theorem MergeInv.send_read {q : ℕ} {rest : List KSUID} (inv : MergeInv ids c f l)
    (hn : 0 < ids.length)
    (hr : f.lanes.link 0 = some r) (hs : l.sends r = [.read q rest]) (hl : Launched ids f l.hub)
    (hat : MergerAt ids f l.hub (l.socks c).out r (.read q rest)) (h : l.send r 0 o = some l') :
    ∃ bs, MergeInv ids c { f with merged := bs } l' := by
  obtain ⟨hx, hst, i, hi, hrest, hq, hpos, hcl⟩ := hat
  cases o with
  | fail n => simp [Links.send, hs] at h
  | timeout =>
    simp only [Links.send, hs, List.getElem?_cons_zero, Option.some.injEq] at h
    subst h
    exact ⟨f.merged, inv.goto hr hs hl (.err hx.noClose (.of_isPrefix (by rw [hx.payload])) (.inl rfl))⟩
  | ok =>
    simp only [Links.send, hs, List.getElem?_cons_zero, Option.map_eq_some_iff] at h
    obtain ⟨⟨b, ch⟩, hrecv, rfl⟩ := h
    rcases Chan.recv?_eq_some hrecv with ⟨hitems, hclosed⟩ | ⟨hitems, hclosed, rfl, rfl⟩
    · -- the head of the buffer is the item of the lane whose turn it is
      refine ⟨f.merged ++ [b], ?_⟩
      have hturn : taken ids.length i f.merged.length = f.merged.length / ids.length := by
        rw [← hpos]; exact taken_turn hn
      have hhead : (f.pushed (f.merged.length % ids.length))[f.merged.length / ids.length]? = some b := by
        have h1 := inv.items hq
        rw [hitems, hturn] at h1
        rw [hpos, ← List.head?_drop, ← h1]; rfl
      have htl : ch.items = (f.pushed i).drop (f.merged.length / ids.length + 1) := by
        have h1 := inv.items hq
        rw [hitems, hturn] at h1
        rw [← List.drop_drop, ← h1]; rfl
      refine inv.goto_buffer hr hs hl hclosed ?_ ?_ (inv.merges.push hhead) ⟨?_, f.merged, hx, i, hi, hrest,
        .inl ⟨rfl, hpos⟩⟩
      · intro k hk
        obtain rfl := inv.tracks.link_inj hk hq
        rw [List.length_append, List.length_singleton, taken_succ_self hpos, hturn]
        exact htl
      · intro k hk
        rw [List.length_append, List.length_singleton, taken_succ_ne]
        rintro rfl
        rw [hpos] at hk
        exact hk hq
      · rw [Registry.obj_modify]
        split_ifs with hrq
        · subst hrq; exact hst
        · exact hst
    · refine ⟨f.merged, inv.goto_buffer hr hs hl rfl (fun k hk => inv.items hk) (fun _ _ => rfl)
        inv.merges ⟨?_, f.merged, hx, i, hi, hrest, .inr ⟨rfl, rfl, hcl hclosed⟩⟩⟩
      rw [Registry.obj_modify]
      split_ifs with hrq
      · subst hrq; exact hst
      · exact hst

/-- What `Send` wrote before a chunk is cut from what it has taken. -/
theorem Exact.cut_of_write {bs ms : List Buffer} (hx : Exact out bs) (hp : bs <+: ms) :
    Cut (payloads out) (chunks ms) := by
  rw [hx.payload]
  exact .of_isPrefix (chunks_mono hp)

theorem MergeInv.send_write {q : ℕ} {b : Buffer} {rest : List KSUID} (inv : MergeInv ids c f l)
    (hr : f.lanes.link 0 = some r) (hs : l.sends r = [.write q b rest])
    (hl : Launched ids f l.hub)
    (hat : MergerAt ids f l.hub (l.socks c).out r (.write q b rest)) (h : l.send r 0 o = some l') :
    MergeInv ids c f l' := by
  obtain ⟨hst, bs, hx, i, hi, hrest, hb⟩ := hat
  have hconn : (l.hub.obj r).conn = some c := by rw [inv.tracks.conn hr, if_pos hl.conn]
  have hp : bs <+: f.merged := by
    rcases hb with ⟨h1, -⟩ | ⟨h1, -, -⟩ <;> rw [h1]
    exact List.prefix_append _ _
  simp only [Links.send, hs, List.getElem?_cons_zero, hconn, Option.map_eq_some_iff] at h
  obtain ⟨⟨sock, ok⟩, hw, rfl⟩ := h
  -- the goroutine moves to `pc'`, and the connection is as `sock` says
  have move : ∀ pc', MergerAt ids f l.hub sock.out r pc' → MergeInv ids c f
      ({ l with socks := Function.update l.socks c sock }.goto r 0 pc') := by
    intro pc' hat'
    refine { inv with merger := .run hr (sends_goto hs) hl ?_ }
    show MergerAt ids f l.hub (Function.update l.socks c sock c).out r pc'
    rw [Function.update_self]
    exact hat'
  apply move
  cases o with
  | timeout => simp [safeWrite] at hw
  | ok =>
    simp only [safeWrite] at hw
    split_ifs at hw with hcl heof <;> cases hw
    · simp only [Bool.not_true, Bool.false_eq_true, if_false, heof, if_true]
      rcases hb with ⟨h1, -⟩ | ⟨-, rfl, -⟩
      · exact .eof h1 heof hx rfl
      · cases heof
    · simp only [Bool.not_true, Bool.false_eq_true, if_false, heof]
      rcases hb with ⟨h1, h2⟩ | ⟨h1, rfl, hd⟩
      · refine ⟨by rw [h1]; exact hx.write (by simpa using heof), hst, i + 1, hi, hrest, .inl ?_⟩
        rw [h1, List.length_append, List.length_singleton, Nat.add_mod, h2]
        simp
      · exact ⟨by rw [h1]; exact hx.write_default, hst, i + 1, hi, hrest, .inr hd⟩
  | fail n =>
    simp only [safeWrite] at hw
    split_ifs at hw with hcl <;> cases hw
    · simp only [Bool.not_false, if_true]
      exact .err hx.noClose (hx.cut_of_write hp) (.inr (.inl rfl))
    · simp only [Bool.not_false, if_true]
      refine .err (by simp [hx.noClose]) ?_ (.inr (.inl rfl))
      rcases hb with ⟨h1, -⟩ | ⟨h1, rfl, -⟩
      · rw [h1]; exact hx.cut_write b n
      · exact (hx.cut_write default n).trans_isPrefix (by rw [chunks_append, h1]; simp)

/-- The deferred function of `Send`. -/
theorem MergeInv.send_ended (inv : MergeInv ids c f l) (hr : f.lanes.link 0 = some r)
    (hs : l.sends r = [pc]) (hl : Launched ids f l.hub)
    (hat : MergerAt ids f l.hub (l.socks c).out r pc) (hend : pc.ended = true)
    (h : l.send r 0 o = some l') : MergeInv ids c f l' := by
  cases pc with
  | ret e =>
    simp only [Links.send, hs, List.getElem?_cons_zero, Option.some.injEq] at h
    subst h
    exact inv.goto_modify hr hs hl rfl (.inl (by simp)) rfl rfl rfl (Finished.mono hat id)
  | handoff e =>
    simp only [Links.send, hs, List.getElem?_cons_zero] at h
    split_ifs at h
    cases h
    exact { inv with merger := .run hr hs hl hat }
  | closeDone e =>
    simp only [Links.send, hs, List.getElem?_cons_zero] at h
    split_ifs at h <;> cases h
    · exact { inv with merger := .run hr hs hl hat }
    · exact inv.goto_modify hr hs hl rfl (.inr rfl) rfl rfl rfl (Finished.mono hat id)
  | exit e => simp [Links.send, hs] at h
  | entry | refused | loop | pass | read | write => cases hend

/-- The session's `Send` has left its loop. -/
def MergerDone (f : Flow) (l : Links KSUID) : Prop :=
  ∃ r pc, f.lanes.link 0 = some r ∧ l.sends r = [pc] ∧ pc.ended = true

/-- Some goroutine running `link.Send` has left its loop. -/
def Links.Merged (l : Links KSUID) : Prop := ∃ r, ∃ pc ∈ l.sends r, pc.ended = true

/-- Where only the session runs `Send`, it is the session's that has ended. -/
theorem MergeInv.done_of_merged (inv : MergeInv ids c f l)
    (hsolo : ∀ r, f.lanes.link 0 ≠ some r → l.sends r = []) (h : l.Merged) : MergerDone f l := by
  obtain ⟨r, pc, hpc, hend⟩ := h
  have hr : f.lanes.link 0 = some r := by
    by_contra h1
    rw [hsolo r h1] at hpc
    cases hpc
  cases inv.merger with
  | idle h1 => rw [h1 r hr] at hpc; cases hpc
  | @run r' pc' h1 h2 _ _ =>
    cases hr.symm.trans h1
    rw [h2] at hpc
    cases List.mem_singleton.mp hpc
    exact ⟨r, pc, hr, h2, hend⟩

/-- The status of the first link of a lane is `done` only when the merger has ended. -/
theorem MergeInv.done_of_status {k : ℕ} (inv : MergeInv ids c f l) (hr : f.lanes.link k = some r)
    (hst : (l.hub.obj r).status = .done) : MergerDone f l := by
  by_cases hk : k = 0
  · subst hk
    cases inv.merger with
    | idle _ h1 => exact absurd hst (h1 r hr).2
    | @run r' pc h1 h2 _ h3 =>
      cases hr.symm.trans h1
      refine ⟨r, pc, hr, h2, ?_⟩
      cases pc with
      | entry => exact absurd hst h3.2.2.2
      | refused => exact h3.elim
      | loop => exact absurd hst h3.2.1
      | pass rest => exact absurd hst h3.2.1
      | read a rest => exact absurd hst h3.2.1
      | write a b rest => exact absurd hst h3.1
      | ret e | handoff e | closeDone e | exit e => rfl
  · exact absurd hst (inv.laneStatus hk hr)

/-- After its loop `Send` only runs the deferred function. -/
theorem ended_send (hs : l.sends r = [pc]) (hend : pc.ended = true) (h : l.send r 0 o = some l') :
    ∃ pc', l'.sends r = [pc'] ∧ pc'.ended = true := by
  cases pc with
  | ret e =>
    simp only [Links.send, hs, List.getElem?_cons_zero, Option.some.injEq] at h
    subst h
    exact ⟨.handoff e, sends_goto hs, rfl⟩
  | handoff e =>
    simp only [Links.send, hs, List.getElem?_cons_zero] at h
    split_ifs at h
    cases h
    exact ⟨_, hs, rfl⟩
  | closeDone e =>
    simp only [Links.send, hs, List.getElem?_cons_zero] at h
    split_ifs at h <;> cases h
    · exact ⟨_, hs, rfl⟩
    · exact ⟨.exit e, sends_goto hs, rfl⟩
  | exit e => simp [Links.send, hs] at h
  | entry | refused | loop | pass | read | write => cases hend

/-- Every step of the session's `Send` keeps the invariant; once it has left its
    loop it takes nothing any more. -/
theorem MergeInv.send {i : ℕ} (inv : MergeInv ids c f l) (hn : 0 < ids.length)
    (hr : f.lanes.link 0 = some r) (h : l.send r i o = some l') :
    ∃ bs, MergeInv ids c { f with merged := bs } l' ∧
      (MergerDone f l → bs = f.merged ∧ MergerDone f l') := by
  cases inv.merger with
  | idle hs => simp [Links.send, hs r hr] at h
  | @run r' pc hr' hs hl hat =>
    obtain rfl := Option.some.inj (hr'.symm.trans hr)
    obtain rfl : i = 0 := by
      cases i with
      | zero => rfl
      | succ i => simp [Links.send, hs] at h
    have hnot : pc.ended = false → ¬ MergerDone f l := by
      rintro hend ⟨r, pc', hr', hs', hend'⟩
      obtain rfl := Option.some.inj (hr'.symm.trans hr)
      rw [hs] at hs'
      cases hs'
      rw [hend] at hend'
      cases hend'
    by_cases hend : pc.ended = true
    · refine ⟨f.merged, inv.send_ended hr hs hl hat hend h, fun _ => ⟨rfl, ?_⟩⟩
      obtain ⟨pc', hs', hend'⟩ := ended_send hs hend h
      exact ⟨r', pc', hr', hs', hend'⟩
    · have hdone := hnot (by simpa using hend)
      cases pc with
      | entry => exact ⟨_, inv.send_entry hr hs hl hat h, fun hd => absurd hd hdone⟩
      | refused => exact hat.elim
      | loop => exact ⟨_, inv.send_loop hr hs hl hat h, fun hd => absurd hd hdone⟩
      | pass rest => exact ⟨_, inv.send_pass hr hs hl hat h, fun hd => absurd hd hdone⟩
      | read q rest =>
        obtain ⟨bs, hbs⟩ := inv.send_read hn hr hs hl hat h
        exact ⟨bs, hbs, fun hd => absurd hd hdone⟩
      | write q b rest => exact ⟨_, inv.send_write hr hs hl hat h, fun hd => absurd hd hdone⟩
      | ret | handoff | closeDone | exit => exact absurd rfl hend

end Send

/-! ## Operations on the links -/

section Ops

variable {k q : ℕ} {b : Buffer} {m id : KSUID}

/-- What an operation has to leave alone for the merger to stay where it is. -/
theorem MergerAt.mono {f' : Flow} (hat : MergerAt ids f h out r pc) (hm : f'.merged = f.merged)
    (hlink : ∀ i q, f.lanes.link i = some q → f'.lanes.link i = some q)
    (hst : (h'.obj r).status = (h.obj r).status ∨ (h'.obj r).status = .close)
    (hcl : ∀ i q, f.lanes.link i = some q → (h'.obj q).buffer.closed = true →
      (h.obj q).buffer.closed = true ∨ Doomed ids h')
    (hd : Doomed ids h → Doomed ids h') (hl : Live ids f' h' → Live ids f h) :
    MergerAt ids f' h' out r pc := by
  have hsend : (h.obj r).status ≠ .send → (h'.obj r).status ≠ .send := by
    rcases hst with h1 | h1 <;> rw [h1] <;> simp
  have hdone : (h.obj r).status ≠ .done → (h'.obj r).status ≠ .done := by
    rcases hst with h1 | h1 <;> rw [h1] <;> simp
  have hfin : ∀ {e}, Finished ids f h out e → Finished ids f' h' out e := by
    intro e hf
    cases hf with
    | eof h1 hb hpre hout => exact .eof (hm.trans h1) hb hpre hout
    | err hc hcut he => exact .err hc (hm ▸ hcut) (he.imp_right (.imp_right (mt hl)))
  cases pc with
  | entry => exact ⟨hm.trans hat.1, hat.2.1, hsend hat.2.2.1, hdone hat.2.2.2⟩
  | refused => exact hat
  | loop => exact ⟨hm ▸ hat.1, hdone hat.2.1, hm ▸ hat.2.2.imp_right hd⟩
  | pass rest =>
    obtain ⟨hx, h1, i, hi, hrest, hpos⟩ := hat
    exact ⟨hm ▸ hx, hdone h1, i, hi, hrest, hm ▸ hpos.imp_right hd⟩
  | read q rest =>
    obtain ⟨hx, h1, i, hi, hrest, hq, hpos, hclq⟩ := hat
    exact ⟨hm ▸ hx, hdone h1, i, hi, hrest, hlink i q hq, hm ▸ hpos,
      fun h2 => (hcl i q hq h2).elim (fun h3 => hd (hclq h3)) fun h3 => h3⟩
  | write q b rest =>
    obtain ⟨h1, bs, hx, i, hi, hrest, hb⟩ := hat
    exact ⟨hdone h1, bs, hx, i, hi, hrest, hm ▸ hb.imp_right fun h2 => ⟨h2.1, h2.2.1, hd h2.2.2⟩⟩
  | ret e | handoff e | closeDone e | exit e => exact hfin hat

/-- With the master's link all lanes of the session go, once `sorted` is set. -/
theorem Tracks.doomed {g : LaneMap} (t : Tracks ids c g h)
    (hq : h.ref? m = some q) (hlink : g.link 0 = some q) (hs : g.sorted = true) :
    Doomed ids (LinkHub.removeAll h m) := by
  intro j
  unfold LinkHub.lane
  cases hj : ids[j]? with
  | none => rfl
  | some x =>
    rw [Option.bind_some, LinkHub.ref?_removeAll hq, if_pos]
    right
    rw [t.sorted hlink, if_pos hs]
    exact List.mem_of_getElem? hj

/-- `RemoveAll` of the master. -/
theorem MergeInv.removeAll (inv : MergeInv ids c f l) (hm : ids[0]? = some m) :
    MergeInv ids c f (l.removeAll m) := by
  cases hq : l.hub.ref? m with
  | none =>
    have he : l.removeAll m = l := by unfold Links.removeAll; rw [LinkHub.removeAll_missing hq]
    rw [he]; exact inv
  | some q =>
    have hl0 : l.hub.lane ids 0 = some q := by simp [LinkHub.lane, hm, hq]
    have hobj := fun r => LinkHub.obj_removeAll (r := r) hq
    have hst : ∀ r, ((LinkHub.removeAll l.hub m).obj r).status = (l.hub.obj r).status ∨
        ((LinkHub.removeAll l.hub m).obj r).status = .close := by
      intro r; rw [hobj]; split_ifs <;> simp
    have hnone : (LinkHub.removeAll l.hub m).lane ids 0 = none := by
      simp [LinkHub.lane, hm, LinkHub.ref?_removeAll hq]
    constructor
    case tracks => exact inv.tracks.removeAll hm
    case items =>
      intro k r hr
      rw [← inv.items hr]
      show ((LinkHub.removeAll l.hub m).obj r).buffer.items = _
      rw [hobj]
      split_ifs <;> simp
    case unpushed => exact inv.unpushed
    case merges => exact inv.merges
    case laneStatus =>
      intro k r hk hr
      show ((LinkHub.removeAll l.hub m).obj r).status ≠ .done
      rcases hst r with h1 | h1 <;> rw [h1]
      · exact inv.laneStatus hk hr
      · simp
    case merger =>
      cases inv.merger with
      | idle hs hst0 hmg ho =>
        refine .idle hs ?_ hmg ho
        intro r hr
        show ((LinkHub.removeAll l.hub m).obj r).status ≠ .send ∧
          ((LinkHub.removeAll l.hub m).obj r).status ≠ .done
        rcases hst r with h1 | h1 <;> rw [h1]
        · exact hst0 r hr
        · simp
      | run hr hs hl hat =>
        have hdoom := inv.tracks.doomed hq (hl.first q hl0) hl.sorted
        refine .run hr hs ⟨hl.sorted, hl.conn, hl.counted, ?_⟩
          (hat.mono rfl (fun _ _ h1 => h1) (hst _) (fun _ _ _ _ => .inr hdoom) (fun _ => hdoom) ?_)
        · intro r h1
          exact absurd (h1.symm.trans hnone) (by simp)
        · intro h1
          exact absurd (hr.symm.trans ((hnone.symm.trans h1).symm)) (by simp)

/-- A change of the master's first link that leaves its buffer and `status`. -/
theorem MergeInv.modify_master (inv : MergeInv ids c f l) (hr : f.lanes.link 0 = some r)
    {u : Link KSUID → Link KSUID} {st cn : Bool}
    (hb : (u (l.hub.obj r)).buffer = (l.hub.obj r).buffer)
    (hst : (u (l.hub.obj r)).status = (l.hub.obj r).status)
    (hcn : (u (l.hub.obj r)).counter = (l.hub.obj r).counter)
    (hso : (u (l.hub.obj r)).sorted = if st then ids else [])
    (hco : (u (l.hub.obj r)).conn = if cn then some c else none)
    (hs' : f.lanes.sorted = true → st = true) (hc' : f.lanes.conn = true → cn = true) :
    MergeInv ids c { f with lanes := { f.lanes with sorted := st, conn := cn } } (l.modify r u) := by
  have hobj : ∀ q, ((l.hub.modify r u).obj q).buffer = (l.hub.obj q).buffer ∧
      ((l.hub.modify r u).obj q).status = (l.hub.obj q).status := by
    intro q
    by_cases hq : q = r
    · subst hq; rw [Registry.obj_modify_self]; exact ⟨hb, hst⟩
    · rw [Registry.obj_modify_ne hq]; exact ⟨rfl, rfl⟩
  constructor
  case tracks =>
    exact inv.tracks.modify r u st cn (by rw [hb]) (fun h1 => hst ▸ h1) (fun _ => ⟨hso, hco, hcn⟩)
      (fun h1 => absurd hr h1)
  case items =>
    intro k q hq
    rw [Links.hub_modify, (hobj q).1]
    exact inv.items hq
  case unpushed => exact inv.unpushed
  case merges => exact inv.merges
  case laneStatus =>
    intro k q hk hq
    rw [Links.hub_modify, (hobj q).2]
    exact inv.laneStatus hk hq
  case merger =>
    cases inv.merger with
    | idle hs hst0 hmg ho =>
      refine .idle hs ?_ hmg ho
      intro q hq
      rw [Links.hub_modify, (hobj q).2]
      exact hst0 q hq
    | run hr' hs hl hat =>
      exact .run hr' hs ⟨hs' hl.sorted, hc' hl.conn, hl.counted, hl.first⟩
        (hat.mono rfl (fun _ _ h1 => h1) (.inl (hobj _).2)
          (fun _ q _ h1 => .inl ((hobj q).1 ▸ h1)) (fun h1 => h1) (fun h1 => h1))

/-- A chunk is put into some link; `pushed` says what the first links got. -/
theorem MergeInv.modify_buffer (inv : MergeInv ids c f l) {ch : BufChan} {pushed : ℕ → List Buffer}
    (hcl : ch.closed = (l.hub.obj q).buffer.closed)
    (hself : ∀ k, f.lanes.link k = some q →
      ch.items = (pushed k).drop (taken ids.length k f.merged.length))
    (hother : ∀ k, f.lanes.link k ≠ some q → pushed k = f.pushed k)
    (hm : Merges ids.length pushed f.merged) :
    MergeInv ids c { f with pushed := pushed } (l.modify q fun x => { x with buffer := ch }) := by
  have hst : ∀ r, ((l.hub.modify q fun x => { x with buffer := ch }).obj r).status =
      (l.hub.obj r).status := by
    intro r
    rw [Registry.obj_modify]
    split_ifs with hq
    · rw [hq]
    · rfl
  constructor
  case tracks =>
    exact inv.tracks.modify_same q (fun x => { x with buffer := ch }) hcl (fun h1 => h1) rfl rfl rfl
  case items =>
    intro k r hr
    rw [Links.hub_modify]
    by_cases hq : r = q
    · subst hq
      rw [Registry.obj_modify_self]
      exact hself k hr
    · rw [Registry.obj_modify_ne hq, inv.items hr]
      show _ = (pushed k).drop _
      rw [hother k fun h1 => hq (Option.some.inj (hr.symm.trans h1))]
  case unpushed =>
    intro k hk
    show pushed k = []
    rw [hother k (by rw [hk]; simp)]
    exact inv.unpushed hk
  case merges => exact hm
  case laneStatus =>
    intro k r hk hr
    rw [Links.hub_modify, hst]
    exact inv.laneStatus hk hr
  case merger =>
    cases inv.merger with
    | idle hs hst0 hmg ho =>
      refine .idle hs ?_ hmg ho
      intro r hr
      rw [Links.hub_modify, hst]
      exact hst0 r hr
    | run hr hs hl hat =>
      refine .run hr hs ⟨hl.sorted, hl.conn, hl.counted, hl.first⟩
        (hat.mono rfl (fun _ _ h1 => h1) (.inl (hst _)) ?_ (fun h1 => h1) (fun h1 => h1))
      intro _ r _ h1
      rw [Links.hub_modify, Registry.obj_modify] at h1
      split_ifs at h1 with hq
      · rw [hcl, ← hq] at h1; exact .inl h1
      · exact .inl h1

/-- A chunk arrives in the first link of lane `k`. -/
theorem MergeInv.push (inv : MergeInv ids c f l) (hn : 0 < ids.length)
    (hq : f.lanes.link k = some q) (h : l.push q b = some (l', true)) :
    MergeInv ids c { f with pushed := Function.update f.pushed k (f.pushed k ++ [b]) } l' := by
  rcases Links.push_cases h with ⟨-, hop, ch, hitems, hcl, rfl⟩ | ⟨h1, -⟩
  · refine inv.modify_buffer (hcl.trans hop.symm) ?_ ?_ (inv.merges.mono hn ?_)
    · intro j hj
      obtain rfl := inv.tracks.link_inj hj hq
      rw [Function.update_self, List.drop_append_of_le_length (inv.merges.taken_le hn j),
        ← inv.items hq, hitems]
    · intro j hj
      refine Function.update_of_ne ?_ _ _
      rintro rfl
      exact hj hq
    · intro j _
      by_cases hj : j = k
      · subst hj; rw [Function.update_self]; exact List.prefix_append _ _
      · rw [Function.update_of_ne hj]
  · cases h1

/-- A chunk arrives in a link that is none of the session's first links. -/
theorem MergeInv.push_other {ok : Bool} (inv : MergeInv ids c f l) (hq : ∀ k, f.lanes.link k ≠ some q)
    (h : l.push q b = some (l', ok)) : MergeInv ids c f l' := by
  rcases Links.push_cases h with ⟨-, hop, ch, hitems, hcl, rfl⟩ | ⟨-, -, rfl⟩
  · exact inv.modify_buffer (hcl.trans hop.symm) (fun k hk => absurd hk (hq k)) (fun _ _ => rfl)
      inv.merges
  · exact inv

/-- `go q.Send(h)` on the master's first link. -/
theorem MergeInv.launch (inv : MergeInv ids c f l) (hr : f.lanes.link 0 = some r)
    (hs : l.sends r = []) (hl : Launched ids f l.hub) : MergeInv ids c f (l.launch (some r)) := by
  cases inv.merger with
  | idle hs0 hst hm ho =>
    have hat : MergerAt ids f l.hub (l.socks c).out r .entry := ⟨hm, ho, (hst r hr).1, (hst r hr).2⟩
    have hs' : (l.launch (some r)).sends r = [.entry] := by simp [Links.launch, hs]
    exact { inv with merger := .run hr hs' hl hat }
  | run hr' hs' =>
    obtain rfl := Option.some.inj (hr'.symm.trans hr)
    rw [hs] at hs'
    cases hs'

/-- The rendezvous on `done`. -/
theorem MergeInv.handoff {i : ℕ} (inv : MergeInv ids c f l) (hr : f.lanes.link 0 = some r)
    (h : l.handoff r i = some l') : MergeInv ids c f l' ∧ MergerDone f l ∧ MergerDone f l' := by
  cases inv.merger with
  | idle hs => simp [Links.handoff, hs r hr] at h
  | @run r' pc hr' hs hl hat =>
    obtain rfl := Option.some.inj (hr'.symm.trans hr)
    cases i with
    | succ i => simp [Links.handoff, hs] at h
    | zero =>
      simp only [Links.handoff, hs, List.getElem?_cons_zero] at h
      cases pc with
      | handoff e =>
        simp only at h
        split_ifs at h
        cases h
        exact ⟨inv.goto hr hs hl hat, ⟨_, _, hr, hs, rfl⟩, ⟨_, _, hr, sends_goto hs, rfl⟩⟩
      | _ => cases h

/-- Closing a connection writes nothing. -/
theorem MergeInv.closeConn (inv : MergeInv ids c f l) (d : ℕ) : MergeInv ids c f (l.closeConn d) := by
  have hout : ((l.closeConn d).socks c).out = (l.socks c).out := by
    by_cases hd : c = d
    · subst hd; simp [Links.closeConn]
    · simp [Links.closeConn, hd]
  refine { inv with merger := ?_ }
  cases inv.merger with
  | idle hs hst hm ho => exact .idle hs hst hm (hout.trans ho)
  | run hr hs hl hat =>
    refine .run hr hs hl ?_
    rw [hout]
    exact hat

/-- `SetSort` while the master's link is registered. -/
theorem MergeInv.setSort (inv : MergeInv ids c f l) (hm : ids[0]? = some m)
    (hr : f.lanes.link 0 = some r) (hl : Live ids f l.hub) :
    MergeInv ids c { f with lanes := { f.lanes with sorted := true } } (l.setSort m ids) := by
  have href : l.hub.ref? m = some r := by
    have h1 : l.hub.lane ids 0 = some r := hl.trans hr
    simpa [LinkHub.lane, hm] using h1
  rw [Links.setSort_eq href]
  exact inv.modify_master hr rfl rfl rfl (by simp) (inv.tracks.conn hr) (fun _ => rfl) (fun h1 => h1)

/-- `TrySend` with the connection, once `sorted` is set: it launches `Send` exactly
    when all lanes are counted. -/
theorem MergeInv.trySend (inv : MergeInv ids c f l) (hm : ids[0]? = some m)
    (hr : f.lanes.link 0 = some r) (hl : Live ids f l.hub) (hs : f.lanes.sorted = true)
    (hc : f.lanes.conn = false) :
    MergeInv ids c { f with lanes := { f.lanes with conn := true } } (l.trySend m c) ∧
      l.sends r = [] ∧
      (l.trySend m c).sends = if tally f.lanes.counted ids.length = ids.length
        then Function.update l.sends r [.entry] else l.sends := by
  have hlane : l.hub.lane ids 0 = some r := hl.trans hr
  have href : l.hub.ref? m = some r := by simpa [LinkHub.lane, hm] using hlane
  have hsr : l.sends r = [] := by
    cases inv.merger with
    | idle h1 => exact h1 r hr
    | run _ _ h1 => rw [h1.conn] at hc; cases hc
  have hlen : (l.hub.obj r).sorted.length = ids.length := by rw [inv.tracks.sorted hr, if_pos hs]
  have hmid : MergeInv ids c { f with lanes := { f.lanes with conn := true } }
      (l.modify r fun x => { x with conn := some c }) :=
    inv.modify_master hr rfl rfl rfl (inv.tracks.sorted hr) (by simp) (fun h1 => h1) (fun _ => rfl)
  rw [Links.trySend_eq href, inv.tracks.counter hr, hlen]
  refine ⟨?_, hsr, ?_⟩
  · split_ifs with hcount
    · exact hmid.launch hr hsr ⟨hs, rfl, tally_eq_iff.mp hcount, fun q hq =>
        hr.trans (hlane.symm.trans hq)⟩
    · exact hmid
  · split_ifs with hcount
    · simp [Links.launch, hsr]
    · rfl

/-- `Add` for a lane that was not added before, without the launch. -/
theorem MergeInv.add_hub (inv : MergeInv ids c f l) (hnd : ids.Nodup) (hm : ids[0]? = some m)
    (hid : ids[k]? = some id) (hnew : k ≠ 0 → f.lanes.link k = none)
    (hc : f.lanes.counted k = false) (hfresh : ∀ r, l.hub.next ≤ r → l.sends r = []) :
    MergeInv ids c { f with lanes := Tracks.added ids f.lanes l.hub k m }
      { l with hub := (LinkHub.add l.hub id m).1 } := by
  have hk : k < ids.length := (List.getElem?_eq_some_iff.mp hid).1
  have hobj : ∀ {j r}, (Tracks.added ids f.lanes l.hub k m).link j = some r → _ := fun hr =>
    inv.tracks.link_added_obj hnd hm hid hnew hr
  have hidle : (∀ r, f.lanes.link 0 = some r → l.sends r = []) ∧ (∀ r, f.lanes.link 0 = some r →
      (l.hub.obj r).status ≠ .send ∧ (l.hub.obj r).status ≠ .done) ∧
      f.merged = [] ∧ (l.socks c).out = [] := by
    cases inv.merger with
    | idle h1 h2 h3 h4 => exact ⟨h1, h2, h3, h4⟩
    | run _ _ hl _ =>
      have := hl.counted k hk
      rw [hc] at this
      cases this
  obtain ⟨hs, hst, hmg, hout⟩ := hidle
  constructor
  case tracks => exact inv.tracks.add hnd hm hid hnew hc
  case items =>
    intro j r hr
    rcases hobj hr with ⟨h1, h2⟩ | ⟨h1, -, h3⟩
    · show ((LinkHub.add l.hub id m).1.obj r).buffer.items = _
      rw [Tracks.buffer_add_of_lt h2]
      exact inv.items h1
    · show ((LinkHub.add l.hub id m).1.obj r).buffer.items = (f.pushed j).drop _
      rw [h3, inv.unpushed h1, List.drop_nil]
      rfl
  case unpushed =>
    intro j hj
    have hj' : (Tracks.added ids f.lanes l.hub k m).link j = none := hj
    simp only [Tracks.added, LaneMap.add] at hj'
    split_ifs at hj'
    exact inv.unpushed hj'
  case merges => exact inv.merges
  case laneStatus =>
    intro j r hj hr
    show ((LinkHub.add l.hub id m).1.obj r).status ≠ .done
    rcases hobj hr with ⟨h1, h2⟩ | ⟨h1, -, h3⟩
    · rw [Tracks.status_add_of_lt h2]
      exact inv.laneStatus hj h1
    · rw [h3]; simp [newLink]
  case merger =>
    refine .idle ?_ ?_ hmg hout
    · intro r hr
      rcases hobj hr with ⟨h1, -⟩ | ⟨-, h2, -⟩
      · exact hs r h1
      · exact hfresh r h2
    · intro r hr
      show ((LinkHub.add l.hub id m).1.obj r).status ≠ .send ∧
        ((LinkHub.add l.hub id m).1.obj r).status ≠ .done
      rcases hobj hr with ⟨h1, h2⟩ | ⟨h1, -, h3⟩
      · rw [Tracks.status_add_of_lt h2]
        exact hst r h1
      · rw [h3]; simp [newLink]

/-- `Add` for a lane that was not added before. -/
theorem MergeInv.add (inv : MergeInv ids c f l) (hnd : ids.Nodup) (hm : ids[0]? = some m)
    (hid : ids[k]? = some id) (hnew : k ≠ 0 → f.lanes.link k = none)
    (hc : f.lanes.counted k = false) (hfresh : ∀ r, l.hub.next ≤ r → l.sends r = []) :
    MergeInv ids c { f with lanes := Tracks.added ids f.lanes l.hub k m } (l.add id m) := by
  have hk : k < ids.length := (List.getElem?_eq_some_iff.mp hid).1
  have hmid := inv.add_hub hnd hm hid hnew hc hfresh
  show MergeInv ids c _ ({ l with hub := (LinkHub.add l.hub id m).1 }.launch (LinkHub.add l.hub id m).2)
  rw [inv.tracks.add_launch hm]
  split_ifs with hlaunch
  · obtain ⟨hlive, hconn, hsorted, hcount⟩ := hlaunch
    -- the master's first link has a connection, so it exists and was not launched
    obtain ⟨r, hr⟩ : ∃ r, f.lanes.link 0 = some r := by
      cases h0 : f.lanes.link 0 with
      | some r => exact ⟨r, rfl⟩
      | none => rw [(inv.tracks.born h0).2.1] at hconn; cases hconn
    have hmr : l.hub.masterRef m = r := by
      have h1 : l.hub.ref? m = some r := by simpa [LinkHub.lane, hm] using hlive.trans hr
      simp [LinkHub.masterRef, h1]
    have hr' : (Tracks.added ids f.lanes l.hub k m).link 0 = some r := by
      simp [Tracks.added, LaneMap.add, hr]
    have hsr : l.sends r = [] := by
      cases hmid.merger with
      | idle h1 => exact h1 r hr'
      | run _ _ hl _ =>
        cases inv.merger with
        | idle h1 => exact h1 r hr
        | run _ _ hl' _ => exact absurd (hl'.counted k hk) (by simp [hc])
    rw [hmr]
    refine hmid.launch hr' hsr ⟨hsorted, hconn, ?_, ?_⟩
    · rw [← tally_eq_iff, Tracks.counted_added, if_pos hlive, tally_update hk hc, hcount]
    · intro q hq
      have hq' : (LinkHub.add l.hub id m).1.lane ids 0 = some q := hq
      rw [Tracks.lane_add hnd hm hid (fun h0 => by
        simpa [LinkHub.lane, hid] using inv.tracks.unborn (hnew h0)), if_pos rfl, hmr] at hq'
      exact hr'.trans hq'
  · exact hmid

/-- What an operation may do to the links of a session: links stay, new ones are
    fresh, and a master whose first link is gone does not get it back. -/
structure LinkStep (ids : List KSUID) (f : Flow) (l : Links KSUID) (f' : Flow) (l' : Links KSUID) :
    Prop where
  link : ∀ {k q}, f.lanes.link k = some q → f'.lanes.link k = some q
  fresh : ∀ {k q}, f'.lanes.link k = some q → f.lanes.link k = some q ∨ l.hub.next ≤ q
  next : l.hub.next ≤ l'.hub.next
  live : Live ids f' l'.hub → Live ids f l.hub

/-- An operation that neither creates nor removes links. -/
theorem LinkStep.of_eq {f' : Flow} (hf : f'.lanes.link = f.lanes.link)
    (hr : ∀ k, l'.hub.ref? k = l.hub.ref? k) (hn : l'.hub.next = l.hub.next) :
    LinkStep ids f l f' l' where
  link := by rw [hf]; exact fun h1 => h1
  fresh := by rw [hf]; exact fun h1 => .inl h1
  next := hn.ge
  live := by
    unfold Live LinkHub.lane
    rw [hf]
    cases ids[0]? with
    | none => exact fun h1 => h1
    | some id => rw [Option.bind_some, Option.bind_some, hr]; exact fun h1 => h1

theorem LinkStep.removeAll (inv : MergeInv ids c f l) (hm : ids[0]? = some m) :
    LinkStep ids f l f (l.removeAll m) where
  link := fun h1 => h1
  fresh := fun h1 => .inl h1
  next := LinkHub.next_removeAll.ge
  live := by
    intro h1
    cases hq : l.hub.ref? m with
    | none =>
      unfold Links.removeAll at h1
      rw [LinkHub.removeAll_missing hq] at h1
      exact h1
    | some q =>
      have h2 : (l.removeAll m).hub.lane ids 0 = none := by
        show (LinkHub.removeAll l.hub m).lane ids 0 = none
        simp [LinkHub.lane, hm, LinkHub.ref?_removeAll hq]
      have h3 := inv.tracks.unborn (h1.symm.trans h2)
      simp [LinkHub.lane, hm, hq] at h3

/-- `RemoveAll` makes no lane current that was not. -/
theorem MergeInv.current_of_removeAll {j : ℕ} (inv : MergeInv ids c f l)
    (h : (l.removeAll m).hub.lane ids j = f.lanes.link j) : l.hub.lane ids j = f.lanes.link j := by
  cases hj : f.lanes.link j with
  | none => exact inv.tracks.unborn hj
  | some r =>
    cases hq : l.hub.ref? m with
    | none =>
      unfold Links.removeAll at h
      rw [LinkHub.removeAll_missing hq, hj] at h
      exact h
    | some q =>
      rw [hj] at h
      have h1 : (LinkHub.removeAll l.hub m).lane ids j = some r := h
      unfold LinkHub.lane at h1 ⊢
      cases hid : ids[j]? with
      | none => rw [hid] at h1; cases h1
      | some id =>
        rw [hid, Option.bind_some, LinkHub.ref?_removeAll hq] at h1
        split_ifs at h1
        exact h1

theorem Links.hub_add {id m : KSUID} : (l.add id m).hub = (LinkHub.add l.hub id m).1 :=
  Links.hub_launch

theorem LinkStep.add (inv : MergeInv ids c f l) (hnd : ids.Nodup) (hm : ids[0]? = some m)
    (hid : ids[k]? = some id) (hnew : k ≠ 0 → f.lanes.link k = none)
    (hc : f.lanes.counted k = false) :
    LinkStep ids f l { f with lanes := Tracks.added ids f.lanes l.hub k m } (l.add id m) := by
  constructor
  case link =>
    intro j q hj
    show (Tracks.added ids f.lanes l.hub k m).link j = some q
    simp only [Tracks.added, LaneMap.add]
    split_ifs with h0 h1
    · subst h0; rw [hj]; rfl
    · subst h1; rw [hnew h0] at hj; cases hj
    · exact hj
  case fresh =>
    intro j q hj
    rcases inv.tracks.link_added_obj hnd hm hid hnew hj with ⟨h1, -⟩ | ⟨-, h1, -⟩
    · exact .inl h1
    · exact .inr h1
  case next => rw [Links.hub_add]; exact LinkHub.next_le_add
  case live =>
    unfold Live
    rw [Links.hub_add]
    exact inv.tracks.live_of_added hm

/-- `Add` makes no lane current that was not, -/
theorem MergeInv.current_of_add {j : ℕ} (inv : MergeInv ids c f l) (hnd : ids.Nodup)
    (hm : ids[0]? = some m) (hid : ids[k]? = some id) (hnew : k ≠ 0 → f.lanes.link k = none)
    (h : (l.add id m).hub.lane ids j = (Tracks.added ids f.lanes l.hub k m).link j) :
    l.hub.lane ids j = f.lanes.link j := by
  rw [Links.hub_add] at h
  by_cases h0 : j = 0
  · subst h0
    exact inv.tracks.live_of_added hm h
  · by_cases hj : j = k
    · subst hj
      rw [inv.tracks.unborn (hnew h0), hnew h0]
    · have hnew' : k ≠ 0 → l.hub.ref? id = none := fun h1 => by
        simpa [LinkHub.lane, hid] using inv.tracks.unborn (hnew h1)
      rw [Tracks.lane_add hnd hm hid hnew', if_neg h0, if_neg hj] at h
      simpa [Tracks.added, LaneMap.add, h0, hj] using h

/-- and keeps the master's first link. -/
theorem MergeInv.live_add (inv : MergeInv ids c f l) (hnd : ids.Nodup) (hm : ids[0]? = some m)
    (hid : ids[k]? = some id) (hnew : k ≠ 0 → f.lanes.link k = none) (hl : Live ids f l.hub) :
    Live ids { f with lanes := Tracks.added ids f.lanes l.hub k m } (l.add id m).hub := by
  have hnew' : k ≠ 0 → l.hub.ref? id = none := fun h1 => by
    simpa [LinkHub.lane, hid] using inv.tracks.unborn (hnew h1)
  have href : l.hub.ref? m = f.lanes.link 0 := by
    have := hl
    simpa [Live, LinkHub.lane, hm] using this
  unfold Live
  rw [Links.hub_add, Tracks.lane_add hnd hm hid hnew', if_pos rfl]
  simp only [Tracks.added, LaneMap.add, if_pos, LinkHub.masterRef, href]
  cases f.lanes.link 0 <;> rfl

end Ops

end Wssocks.Pipe

import Wssocks.Wss.SessionSteps
import Wssocks.Wss.Ops

/-!
# The handshake of a session

The lanes of a session and its `establish` reach the hubs in any order: the counter of
the master's link, the writers of its queue, `sorted` and `conn` are set by independent
goroutines, and the operation that finds the last of them set launches `Send`.

Results:

* `handshake_confluence`: in every run without removal the merger is launched exactly
  once, at the last of the operations it needs, the splitter at least once and only
  when it is complete, and no link and no queue is replaced.
-/

namespace Wssocks.Wss

open Wssocks.Lib Wssocks.Pipe

variable {KSUID : Type} [DecidableEq KSUID] [Inhabited KSUID]

/-! ## The links -/

/-- The links while nothing is removed: `added k` tells that `LinkHub.Add` ran for lane
    `k`, `sorted` and `conn` that `SetSort` and `TrySend` ran. -/
structure LinksAt (ids : List KSUID) (added : ℕ → Bool) (sorted conn : Bool) (l : Links KSUID) :
    Prop where
  tracks : Tracks ids 0 ⟨l.hub.lane ids, added, sorted, conn⟩ l.hub
  fresh : ∀ {k}, k ≠ 0 → added k = false → l.hub.lane ids k = none
  order : conn = true → sorted = true
  sends : ∀ r, (l.sends r).length =
    if l.hub.lane ids 0 = some r ∧ (∀ k < ids.length, added k = true) ∧ conn = true then 1 else 0

variable {ids : List KSUID} {m id : KSUID} {added : ℕ → Bool} {sorted conn : Bool} {l l' : Links KSUID}
  {k : ℕ}

theorem LinksAt.init :
    LinksAt ids (fun _ => false) false false (Links.init : Links KSUID) := by
  have hlane : (Links.init : Links KSUID).hub.lane ids = fun _ => none := by
    funext k
    cases hk : ids[k]? <;> simp [LinkHub.lane, hk, Links.init]
  refine ⟨?_, fun _ _ => by rw [hlane], fun h => (by cases h), fun r => ?_⟩
  · rw [hlane]; exact Tracks.init
  · rw [hlane, if_neg (by simp)]; rfl

omit [Inhabited KSUID] in
theorem Tracks.touched {g : LaneMap} {h h' : LinkHub KSUID} {c r : ℕ} (t : Tracks ids c g h)
    (ht : Links.Touched h h' r) : Tracks ids c g h' := by
  obtain ⟨u, rfl, h1, h2, h3, h4, h5⟩ := ht
  exact t.modify_same r u h1 h2 h3 h4 h5

omit [Inhabited KSUID] in
theorem lane_touched {h h' : LinkHub KSUID} {r : ℕ} (ht : Links.Touched h h' r) :
    h'.lane ids = h.lane ids := by
  obtain ⟨u, rfl, -⟩ := ht
  rfl

omit [Inhabited KSUID] in
theorem length_launch {o : Option ℕ} {r : ℕ} :
    ((l.launch o).sends r).length = (l.sends r).length + if o = some r then 1 else 0 := by
  cases o with
  | none => rfl
  | some q =>
    by_cases hr : r = q
    · subst hr; simp [Links.launch]
    · simp [Links.launch, hr, Ne.symm hr]

omit [Inhabited KSUID] in
theorem LinksAt.ran (h : LinksAt ids added sorted conn l) (hr : Links.Ran l l') :
    LinksAt ids added sorted conn l' := by
  obtain ⟨r, ht⟩ := hr.touched
  have hl : l'.hub.lane ids = l.hub.lane ids := lane_touched ht
  refine ⟨?_, ?_, h.order, ?_⟩
  · rw [hl]; exact Tracks.touched h.tracks ht
  · rw [hl]; exact h.fresh
  · intro r; rw [hl, hr.length_sends, h.sends]

omit [Inhabited KSUID] in
theorem LinksAt.add (h : LinksAt ids added sorted conn l) (hnd : ids.Nodup) (hm : ids[0]? = some m)
    (hid : ids[k]? = some id) (hk : added k = false) :
    LinksAt ids (Function.update added k true) sorted conn (l.add id m) := by
  have hlt : k < ids.length := (List.getElem?_eq_some_iff.mp hid).1
  have hnew : k ≠ 0 → l.hub.ref? id = none := by
    intro h0
    have h1 := h.fresh h0 hk
    rwa [LinkHub.lane, hid, Option.bind_some] at h1
  have hlane := Tracks.lane_add (h := l.hub) hnd hm hid hnew
  have h0 : l.hub.lane ids 0 = l.hub.ref? m := by rw [LinkHub.lane, hm, Option.bind_some]
  have hmap : Tracks.added ids ⟨l.hub.lane ids, added, sorted, conn⟩ l.hub k m =
      ⟨(l.add id m).hub.lane ids, Function.update added k true, sorted, conn⟩ := by
    have hlink : (Tracks.added ids ⟨l.hub.lane ids, added, sorted, conn⟩ l.hub k m).link =
        (l.add id m).hub.lane ids := by
      funext j
      rw [Links.hub_add, hlane]
      simp only [Tracks.added, LaneMap.add, h0, LinkHub.masterRef]
      cases l.hub.ref? m <;> rfl
    have hcounted : (Tracks.added ids ⟨l.hub.lane ids, added, sorted, conn⟩ l.hub k m).counted =
        Function.update added k true := by
      rw [Tracks.counted_added, if_pos rfl]
    rw [← hlink, ← hcounted]
    rfl
  have hzero : ∀ r, (l.sends r).length = 0 := by
    intro r
    rw [h.sends, if_neg]
    rintro ⟨-, hall, -⟩
    rw [hall k hlt] at hk
    cases hk
  refine ⟨?_, fun {j} hj hadd => ?_, h.order, fun r => ?_⟩
  · rw [← hmap, Links.hub_add]
    exact h.tracks.add hnd hm hid (fun h1 => h.fresh h1 hk) hk
  · by_cases hjk : j = k
    · subst hjk; simp at hadd
    · rw [Function.update_of_ne hjk] at hadd
      rw [Links.hub_add, hlane, if_neg hj, if_neg hjk]
      exact h.fresh hj hadd
  · have hall : (∀ j < ids.length, Function.update added k true j = true) ↔
        tally added ids.length + 1 = ids.length := by
      rw [← tally_eq_iff, tally_update hlt hk]
    have hlen : ((l.add id m).sends r).length =
        (l.sends r).length + if (LinkHub.add l.hub id m).2 = some r then 1 else 0 := length_launch
    rw [hlen, hzero, Nat.zero_add, Links.hub_add, hlane, if_pos rfl]
    by_cases hc : (∀ j < ids.length, Function.update added k true j = true) ∧ conn = true
    · have hl : (LinkHub.add l.hub id m).2 = some (l.hub.masterRef m) := by
        rw [h.tracks.add_launch hm]
        exact if_pos ⟨rfl, hc.2, h.order hc.2, hall.mp hc.1⟩
      rw [hl]
      exact if_congr (iff_self_and.mpr fun _ => hc) rfl rfl
    · have hl : (LinkHub.add l.hub id m).2 = none := by
        rw [h.tracks.add_launch hm]
        exact if_neg fun h1 => hc ⟨hall.mpr h1.2.2.2, h1.2.1⟩
      rw [hl, if_neg (fun h => by cases h), if_neg fun h1 => hc h1.2]

omit [Inhabited KSUID] in
theorem LinksAt.setSort {q : ℕ} (h : LinksAt ids added sorted conn l) (hm : ids[0]? = some m)
    (hq : l.hub.ref? m = some q) : LinksAt ids added true conn (l.setSort m ids) := by
  have h0 : l.hub.lane ids 0 = some q := by rw [LinkHub.lane, hm, Option.bind_some, hq]
  rw [Links.setSort_eq hq]
  refine ⟨?_, h.fresh, fun _ => rfl, h.sends⟩
  exact h.tracks.modify q (fun x => { x with sorted := ids }) true conn rfl (fun h1 => h1)
    (fun _ => ⟨rfl, h.tracks.conn h0, rfl⟩) fun h1 => absurd h0 h1

omit [Inhabited KSUID] in
theorem LinksAt.trySend {q : ℕ} (h : LinksAt ids added true false l) (hm : ids[0]? = some m)
    (hq : l.hub.ref? m = some q) : LinksAt ids added true true (l.trySend m 0) := by
  have h0 : l.hub.lane ids 0 = some q := by rw [LinkHub.lane, hm, Option.bind_some, hq]
  rw [Links.trySend_eq hq]
  refine ⟨?_, ?_, fun _ => rfl, fun r => ?_⟩
  · rw [Links.hub_launch]
    exact h.tracks.modify q (fun x => { x with conn := some 0 }) true true rfl (fun h1 => h1)
      (fun _ => ⟨h.tracks.sorted h0, rfl, rfl⟩) fun h1 => absurd h0 h1
  · rw [Links.hub_launch]; exact h.fresh
  · have hzero : (l.sends r).length = 0 := by rw [h.sends, if_neg]; rintro ⟨-, -, h1⟩; cases h1
    have hcount : (l.hub.obj q).counter = (l.hub.obj q).sorted.length ↔
        ∀ k < ids.length, added k = true := by
      rw [h.tracks.counter h0, h.tracks.sorted h0, ← tally_eq_iff]
      rfl
    have hlane : (l.modify q fun x => { x with conn := some 0 }).hub.lane ids 0 = some q := h0
    rw [length_launch, Links.sends_modify, hzero, Nat.zero_add, Links.hub_launch, hlane]
    by_cases hc : ∀ k < ids.length, added k = true
    · rw [if_pos (hcount.mpr hc)]
      exact if_congr (iff_self_and.mpr fun _ => ⟨hc, rfl⟩) rfl rfl
    · rw [if_neg (mt hcount.mp hc), if_neg (fun h => by cases h), if_neg fun h1 => hc h1.2.1]

/-! ## The queues -/

/-- The queues while nothing is removed: `added k` tells that `QueueHub.Add` ran for lane
    `k`, `sorted` and `tried` that `SetSort` and `TrySend` ran. -/
structure QueuesAt (ids : List KSUID) (m : KSUID) (added : ℕ → Bool) (sorted tried : Bool)
    (s : Queues KSUID (WsWriter ℕ KSUID)) : Prop where
  holds : Holds ids m (laneWriter ids) ⟨s.hub.ref? m, added, sorted⟩ s.hub
  order : tried = true → sorted = true
  sends : ∀ q, s.sends q ≠ [] →
    s.hub.ref? m = some q ∧ sorted = true ∧ ∀ k < ids.length, added k = true
  started : tried = true → (∀ k < ids.length, added k = true) → ∀ q, s.hub.ref? m = some q → s.sends q ≠ []

variable {tried : Bool} {s s' : Queues KSUID (WsWriter ℕ KSUID)}

theorem QueuesAt.init : QueuesAt ids m (fun _ => false) false false
    (Queues.init : Queues KSUID (WsWriter ℕ KSUID)) where
  holds := by
    have hnone : (Queues.init : Queues KSUID (WsWriter ℕ KSUID)).hub.ref? m = none := by simp [Queues.init]
    rw [hnone]
    exact Holds.init
  order := nofun
  sends := fun q h => absurd rfl h
  started := nofun

theorem QueuesAt.ran (h : QueuesAt ids m added sorted tried s) (hr : Queues.Ran s s') :
    QueuesAt ids m added sorted tried s' := by
  obtain ⟨q, ht⟩ := hr.touched
  have hne : ∀ r, s'.sends r ≠ [] ↔ s.sends r ≠ [] := fun r => by
    rw [← List.length_pos_iff, ← List.length_pos_iff, hr.length_sends]
  refine ⟨?_, h.order, fun r h1 => ?_, fun h1 h2 r hq => ?_⟩
  · rw [ht.ref?]; exact h.holds.touched ht
  · rw [ht.ref?]; exact h.sends r ((hne r).mp h1)
  · rw [ht.ref?] at hq; exact (hne r).mpr (h.started h1 h2 r hq)

/-- `TrySend`, also as the end of `Add`. -/
theorem QueuesAt.of_trySend (hh : Holds ids m (laneWriter ids) ⟨s.hub.ref? m, added, sorted⟩ s.hub)
    (ho : tried = true → sorted = true) (hs : ∀ q, s.sends q ≠ [] →
      s.hub.ref? m = some q ∧ sorted = true ∧ ∀ k < ids.length, added k = true) :
    QueuesAt ids m added sorted tried (s.trySend m) := by
  have htry := hh.trySend
  refine ⟨?_, ho, fun q hq => ?_, fun h1 h2 q hq => ?_⟩
  · rw [Queues.hub_trySend]; exact hh
  · rw [Queues.hub_trySend]
    by_cases hc : QueueHub.trySend s.hub m = some q
    · rw [htry] at hc
      split_ifs at hc with h1
      exact ⟨hc, h1.2.1, tally_eq_iff.mp h1.2.2⟩
    · have hsame : (s.trySend m).sends q = s.sends q := Queues.sends_launch_ne hc
      rw [hsame] at hq
      exact hs q hq
  · rw [Queues.hub_trySend] at hq
    have hlaunch : QueueHub.trySend s.hub m = some q := by
      rw [htry, ← hq]
      exact if_pos ⟨rfl, ho h1, tally_eq_iff.mpr h2⟩
    rw [Queues.trySend, hlaunch]
    simp [Queues.launch]

theorem QueuesAt.add (h : QueuesAt ids m added sorted tried s) (hnd : ids.Nodup)
    (hid : ids[k]? = some id) (hk : added k = false) :
    QueuesAt ids m (Function.update added k true) sorted tried (s.add m id ⟨k, id⟩) := by
  have hlt : k < ids.length := (List.getElem?_eq_some_iff.mp hid).1
  have hwr : laneWriter ids k = ⟨k, id⟩ := by rw [laneWriter, getD_of_getElem? hid]
  have hmap : Holds.added ⟨s.hub.ref? m, added, sorted⟩ s.hub m k =
      ⟨(QueueHub.add s.hub m id ⟨k, id⟩).ref? m, Function.update added k true, sorted⟩ := by
    rw [QueueHub.ref?_add, if_pos rfl, Holds.added]
    simp only [if_pos, QueueHub.masterRef]
    cases s.hub.ref? m <;> rfl
  refine QueuesAt.of_trySend (s := { s with hub := QueueHub.add s.hub m id ⟨k, id⟩ }) ?_ h.order fun q hq => ?_
  · have h1 := h.holds.add hnd hid hk
    rw [hwr, hmap] at h1
    exact h1
  · have h1 := (h.sends q hq).2.2 k hlt
    rw [hk] at h1
    cases h1

theorem QueuesAt.setSort {q : ℕ} (h : QueuesAt ids m added false false s) (hq : s.hub.ref? m = some q) :
    QueuesAt ids m added true false (s.setSort m ids) := by
  have href : (s.setSort m ids).hub.ref? m = s.hub.ref? m := by rw [Queues.setSort_eq hq]; rfl
  refine ⟨?_, nofun, fun r hr => ?_, nofun⟩
  · rw [href]; exact h.holds.setSort hq hq
  · cases (h.sends r hr).2.1

/-! ## The log of a session -/

/-- The hub operations of a step. -/
def Session.ops (t : Session KSUID) : SessionLabel KSUID → List (HubOp ℕ KSUID)
  | .act l => (t.server.op l).toList
  | _ => []

/-- The step removes nothing. -/
def Session.keeps (t : Session KSUID) (l : SessionLabel KSUID) : Bool := (t.ops l).all fun o => !o.removes

/-- `QueueHub.Add` ran for lane `k`. -/
def queueAdded (ids : List KSUID) (m : KSUID) (log : List (HubOp ℕ KSUID)) (k : ℕ) : Bool :=
  ids[k]?.any fun id => decide (.queueAdd m id ⟨k, id⟩ ∈ log)

/-- `LinkHub.Add` ran for lane `k`. -/
def linkAdded (ids : List KSUID) (m : KSUID) (log : List (HubOp ℕ KSUID)) (k : ℕ) : Bool :=
  ids[k]?.any fun id => decide (.linkAdd id m ∈ log)

variable {log : List (HubOp ℕ KSUID)} {o : HubOp ℕ KSUID}

omit [Inhabited KSUID] in
theorem queueAdded_self (hid : ids[k]? = some id) :
    queueAdded ids m (log ++ [.queueAdd m id ⟨k, id⟩]) = Function.update (queueAdded ids m log) k true := by
  funext j
  by_cases hj : j = k
  · subst hj; simp [queueAdded, hid]
  · rw [Function.update_of_ne hj]
    cases h : ids[j]? <;> simp [queueAdded, h, hj]

omit [Inhabited KSUID] in
theorem queueAdded_other (ho : ∀ id w, o ≠ .queueAdd m id w) :
    queueAdded ids m (log ++ [o]) = queueAdded ids m log := by
  funext j
  cases h : ids[j]? <;> simp [queueAdded, h, Ne.symm (ho _ _)]

omit [Inhabited KSUID] in
theorem linkAdded_self (hnd : ids.Nodup) (hid : ids[k]? = some id) :
    linkAdded ids m (log ++ [.linkAdd id m]) = Function.update (linkAdded ids m log) k true := by
  funext j
  by_cases hj : j = k
  · subst hj; simp [linkAdded, hid]
  · rw [Function.update_of_ne hj]
    cases h : ids[j]? with
    | none => simp [linkAdded, h]
    | some x =>
      have hx : x ≠ id := fun h1 => hj ((index_inj hnd h hid).mp h1)
      simp [linkAdded, h, hx]

omit [Inhabited KSUID] in
theorem linkAdded_other (ho : ∀ id, o ≠ .linkAdd id m) :
    linkAdded ids m (log ++ [o]) = linkAdded ids m log := by
  funext j
  cases h : ids[j]? <;> simp [linkAdded, h, Ne.symm (ho _)]

/-- What the log says the server has seen. -/
def seenOf (ids : List KSUID) (m : KSUID) (log : List (HubOp ℕ KSUID)) : Seen :=
  ⟨queueAdded ids m log, decide (.queueSort m ids ∈ log)⟩

/-- What the reader of lane `k` may be doing; `next` is the number of `establish` calls. -/
def ShakeAt (ids : List KSUID) (m : KSUID) (log : List (HubOp ℕ KSUID)) (next k : ℕ) : Reader KSUID → Prop
  | .hi id x => ids[k]? = some id ∧ x = m ∧ queueAdded ids m log k = true ∧ linkAdded ids m log k = false
  | .est id sorted => k = 0 ∧ id = m ∧ sorted = ids ∧ next = 0 ∧ .queueSort m ids ∈ log
  | _ => True

/-- How far the handshake is. -/
structure Phase (ids : List KSUID) (m : KSUID) (log : List (HubOp ℕ KSUID)) (t : Session KSUID) : Prop
    extends Mail ids m (seenOf ids m log) t where
  reader : ∀ k, ShakeAt ids m log t.server.nextEst k (t.server.reader k)
  first : ∀ k, linkAdded ids m log k = true → queueAdded ids m log k = true
  done : ∀ k, queueAdded ids m log k = true → (∀ x y, t.server.reader k ≠ .hi x y) →
    linkAdded ids m log k = true
  oneEst : t.server.nextEst ≤ 1
  sorted : .linkSort m ids ∈ log ↔ t.server.nextEst = 1
  hi : .queueSort m ids ∈ log → linkAdded ids m log 0 = true
  theEst : t.server.nextEst = 1 → (t.server.ests 0).id = m ∧ .queueSort m ids ∈ log ∧
    ((t.server.ests 0).pc.dialing = true → .linkTry m 0 ∉ log)
  tried : .linkTry m 0 ∈ log ∨ .queueTry m ∈ log → t.server.nextEst = 1

/-- The hubs are where the log says. -/
structure Shaken (ids : List KSUID) (m : KSUID) (log : List (HubOp ℕ KSUID)) (t : Session KSUID) : Prop where
  phase : Phase ids m log t
  links : LinksAt ids (linkAdded ids m log) (decide (.linkSort m ids ∈ log))
    (decide (.linkTry m 0 ∈ log)) t.server.links
  queues : QueuesAt ids m (queueAdded ids m log) (decide (.queueSort m ids ∈ log))
    (decide (.queueTry m ∈ log)) t.server.queues

variable {t t' : Session KSUID} {sv' : Server ℕ KSUID} {log' : List (HubOp ℕ KSUID)}

theorem Phase.init : Phase ids m [] (Session.init : Session KSUID) where
  hi_dom := nofun
  hi_sent := by intro k h; cases hk : ids[k]? <;> simp [seenOf, queueAdded, hk] at h
  est_hi := nofun
  est_sent := by simp [seenOf]
  inbox := fun k => ⟨[], by simp [Session.init, Server.init], nofun, nofun⟩
  reader := fun _ => trivial
  first := by intro k h; cases hk : ids[k]? <;> simp [linkAdded, hk] at h
  done := by intro k h; cases hk : ids[k]? <;> simp [queueAdded, hk] at h
  oneEst := Nat.zero_le 1
  sorted := by simp [Session.init, Server.init]
  hi := nofun
  theEst := nofun
  tried := by simp

/-- A step that neither takes nor finishes a handshake message. -/
theorem Phase.kept (h : Phase ids m log t) (hk : Kept t.server sv')
    (hq : queueAdded ids m log' = queueAdded ids m log) (hl : linkAdded ids m log' = linkAdded ids m log)
    (hqs : .queueSort m ids ∈ log' ↔ .queueSort m ids ∈ log)
    (hls : .linkSort m ids ∈ log' ↔ .linkSort m ids ∈ log)
    (htry : .linkTry m 0 ∈ log' ∨ .queueTry m ∈ log' → t.server.nextEst = 1)
    (hdial : (sv'.ests 0).pc.dialing = true → .linkTry m 0 ∉ log') :
    Phase ids m log' { t with server := sv' } := by
  have hseen : seenOf ids m log' = seenOf ids m log := by simp only [seenOf, hq, hqs]
  have hmail : Mail ids m (seenOf ids m log') { t with server := sv' } := by
    rw [hseen]
    exact { h.toMail with inbox := fun k => (h.inbox k).congr (by rw [hk.inbox]) rfl (fun _ => rfl) rfl fun _ => rfl }
  refine {
    toMail := hmail, reader := fun k => ?_, first := by rw [hq, hl]; exact h.first
    done := fun k h1 h2 => ?_, oneEst := ?_, sorted := ?_
    hi := ?_, theEst := fun h1 => ?_, tried := fun h1 => ?_ }
  · rcases hk.reader k with h1 | ⟨-, h1⟩
    · have h2 := h.reader k
      show ShakeAt ids m log' sv'.nextEst k (sv'.reader k)
      rw [h1, hk.nextEst]
      unfold ShakeAt at h2 ⊢
      simp only [hq, hl, hqs]
      exact h2
    · show ShakeAt ids m log' sv'.nextEst k (sv'.reader k)
      cases hr : sv'.reader k <;> rw [hr] at h1 <;> trivial
  · rw [hq] at h1
    rw [hl]
    refine h.done k h1 fun x y h3 => ?_
    rcases hk.reader k with h4 | ⟨h4, -⟩
    · exact h2 x y (h4.trans h3)
    · rw [h3] at h4; cases h4
  · show sv'.nextEst ≤ 1
    rw [hk.nextEst]; exact h.oneEst
  · show _ ↔ sv'.nextEst = 1
    rw [hls, hk.nextEst]; exact h.sorted
  · rw [hqs, hl]; exact h.hi
  · replace h1 : t.server.nextEst = 1 := hk.nextEst ▸ h1
    obtain ⟨h2, h3, -⟩ := h.theEst h1
    exact ⟨(hk.ests 0).2.trans h2, hqs.mpr h3, hdial⟩
  · show sv'.nextEst = 1
    rw [hk.nextEst]; exact htry h1

omit [Inhabited KSUID] in
theorem ShakeAt.mono {next j : ℕ} {r : Reader KSUID} (h : ShakeAt ids m log next j r)
    (hq : queueAdded ids m log j = true → queueAdded ids m log' j = true)
    (hl : linkAdded ids m log' j = linkAdded ids m log j)
    (hqs : .queueSort m ids ∈ log → .queueSort m ids ∈ log') : ShakeAt ids m log' next j r := by
  cases r with
  | hi id x => exact ⟨h.1, h.2.1, hq h.2.2.1, hl.trans h.2.2.2⟩
  | est id sorted => exact ⟨h.1, h.2.1, h.2.2.1, h.2.2.2.1, hqs h.2.2.2.2⟩
  | _ => trivial

theorem Phase.estAt (h : Phase ids m log t) (hqs : .queueSort m ids ∈ log → .queueSort m ids ∈ log')
    (hlt : .linkTry m 0 ∈ log' → .linkTry m 0 ∈ log) (hone : t.server.nextEst = 1) :
    (t.server.ests 0).id = m ∧ .queueSort m ids ∈ log' ∧
      ((t.server.ests 0).pc.dialing = true → .linkTry m 0 ∉ log') := by
  obtain ⟨h1, h2, h3⟩ := h.theEst hone
  exact ⟨h1, hqs h2, fun h4 => mt hlt (h3 h4)⟩

/-- The first half of `sayhi`. -/
theorem Phase.recv_sayhi {w : ℕ} {xs : List (Msg KSUID)} (h : Phase ids m log t) (hid : ids[w]? = some id)
    (hnew : queueAdded ids m log w = false)
    (hmail : ∀ sv', sv'.inbox = Function.update t.server.inbox w xs →
      Mail ids m ⟨Function.update (queueAdded ids m log) w true, decide (.queueSort m ids ∈ log)⟩
        { t with server := sv' }) :
    Phase ids m (log ++ [.queueAdd m id ⟨w, id⟩]) { t with
      server := { t.server with inbox := Function.update t.server.inbox w xs }.dispatch w (.sayhi id m) } := by
  have hq : queueAdded ids m (log ++ [.queueAdd m id ⟨w, id⟩]) =
      Function.update (queueAdded ids m log) w true := queueAdded_self hid
  have hl : linkAdded ids m (log ++ [.queueAdd m id ⟨w, id⟩]) = linkAdded ids m log :=
    linkAdded_other (by simp)
  have hup : ∀ j, queueAdded ids m log j = true → Function.update (queueAdded ids m log) w true j = true := by
    intro j h1
    by_cases hj : j = w
    · subst hj; simp
    · rwa [Function.update_of_ne hj]
  have hlw : linkAdded ids m log w = false := by
    by_contra h1
    rw [h.first w (by simpa using h1)] at hnew
    cases hnew
  refine {
    toMail := ?_, reader := fun k => ?_, first := fun k h1 => ?_, done := fun k h1 h2 => ?_
    oneEst := h.oneEst, sorted := Iff.trans (by simp) h.sorted, hi := ?_, theEst := ?_, tried := ?_ }
  · have hseen : seenOf ids m (log ++ [.queueAdd m id ⟨w, id⟩]) =
        ⟨Function.update (queueAdded ids m log) w true, decide (.queueSort m ids ∈ log)⟩ := by
      simp [seenOf, hq]
    rw [hseen]
    exact hmail _ rfl
  · show ShakeAt ids m _ _ k (Function.update t.server.reader w (.hi id m) k)
    by_cases hk : k = w
    · subst hk
      rw [Function.update_self]
      exact ⟨hid, rfl, by rw [hq, Function.update_self], by rw [hl]; exact hlw⟩
    · rw [Function.update_of_ne hk]
      exact (h.reader k).mono (by rw [hq]; exact hup k) (by rw [hl]) (by simp)
  · rw [hl] at h1
    rw [hq]
    exact hup k (h.first k h1)
  · rw [hl]
    replace h2 : ∀ x y, Function.update t.server.reader w (.hi id m) k ≠ .hi x y := h2
    by_cases hk : k = w
    · subst hk
      rw [Function.update_self] at h2
      exact absurd rfl (h2 id m)
    · rw [hq, Function.update_of_ne hk] at h1
      rw [Function.update_of_ne hk] at h2
      exact h.done k h1 h2
  · rw [hl]; simpa using h.hi
  · exact fun h1 => h.estAt (by simp) (by simp) h1
  · exact fun h1 => h.tried (by simpa using h1)

/-- The first half of `est`. -/
theorem Phase.recv_est {xs : List (Msg KSUID)} (h : Phase ids m log t) (hidle : t.server.reader 0 = .idle)
    (hnew : .queueSort m ids ∉ log) (hhi : queueAdded ids m log 0 = true)
    (hmail : ∀ sv', sv'.inbox = Function.update t.server.inbox 0 xs →
      Mail ids m ⟨queueAdded ids m log, true⟩ { t with server := sv' }) :
    Phase ids m (log ++ [.queueSort m ids]) { t with
      server := { t.server with inbox := Function.update t.server.inbox 0 xs }.dispatch 0 (.est m ids) } := by
  have hq : queueAdded ids m (log ++ [.queueSort m ids]) = queueAdded ids m log := queueAdded_other (by simp)
  have hl : linkAdded ids m (log ++ [.queueSort m ids]) = linkAdded ids m log := linkAdded_other (by simp)
  have hnext : t.server.nextEst = 0 := by
    have h1 := h.oneEst
    by_contra h2
    exact hnew (h.theEst (by omega)).2.1
  refine {
    toMail := ?_, reader := fun k => ?_, first := by rw [hq, hl]; exact h.first, done := fun k h1 h2 => ?_
    oneEst := h.oneEst, sorted := Iff.trans (by simp) h.sorted, hi := fun _ => ?_, theEst := fun h1 => ?_
    tried := fun h1 => h.tried (by simpa using h1) }
  · have hseen : seenOf ids m (log ++ [.queueSort m ids]) = ⟨queueAdded ids m log, true⟩ := by
      simp [seenOf, hq]
    rw [hseen]
    exact hmail _ rfl
  · show ShakeAt ids m _ _ k (Function.update t.server.reader 0 (.est m ids) k)
    by_cases hk : k = 0
    · subst hk
      rw [Function.update_self]
      exact ⟨rfl, rfl, rfl, hnext, by simp⟩
    · rw [Function.update_of_ne hk]
      exact (h.reader k).mono (by rw [hq]; exact fun h1 => h1) (by rw [hl]) (by simp)
  · rw [hq] at h1
    rw [hl]
    refine h.done k h1 fun x y h3 => ?_
    by_cases hk : k = 0
    · subst hk; rw [hidle] at h3; cases h3
    · exact h2 x y ((Function.update_of_ne hk _ _).trans h3)
  · rw [hl]
    exact h.done 0 hhi (by simp [hidle])
  · replace h1 : t.server.nextEst = 1 := h1
    omega

/-- The second half of `sayhi`. -/
theorem Phase.reader_hi {w : ℕ} {x : KSUID} (h : Phase ids m log t) (hnd : ids.Nodup)
    (hr : t.server.reader w = .hi id x) :
    Phase ids m (log ++ [.linkAdd id x]) { t with
      server := { t.server with links := t.server.links.add id x }.goReader w .idle } := by
  have hat := h.reader w
  rw [hr] at hat
  obtain ⟨hid, rfl, hqw, hlw⟩ := hat
  have hq : queueAdded ids x (log ++ [.linkAdd id x]) = queueAdded ids x log := queueAdded_other (by simp)
  have hl : linkAdded ids x (log ++ [.linkAdd id x]) = Function.update (linkAdded ids x log) w true :=
    linkAdded_self hnd hid
  have hup : ∀ j, linkAdded ids x log j = true → Function.update (linkAdded ids x log) w true j = true := by
    intro j h1
    by_cases hj : j = w
    · subst hj; simp
    · rwa [Function.update_of_ne hj]
  refine {
    toMail := ?_, reader := fun k => ?_, first := fun k h1 => ?_, done := fun k h1 h2 => ?_
    oneEst := h.oneEst, sorted := Iff.trans (by simp) h.sorted, hi := fun h1 => ?_
    theEst := fun h1 => h.estAt (by simp) (by simp) h1, tried := fun h1 => h.tried (by simpa using h1) }
  · have hseen : seenOf ids x (log ++ [.linkAdd id x]) = seenOf ids x log := by simp [seenOf, hq]
    rw [hseen]
    exact { h.toMail with inbox := fun k => (h.inbox k).congr rfl rfl (fun _ => rfl) rfl fun _ => rfl }
  · show ShakeAt ids x _ _ k (Function.update t.server.reader w .idle k)
    by_cases hk : k = w
    · subst hk; rw [Function.update_self]; trivial
    · rw [Function.update_of_ne hk]
      exact (h.reader k).mono (by rw [hq]; exact fun h1 => h1) (by rw [hl, Function.update_of_ne hk]) (by simp)
  · rw [hq]
    by_cases hk : k = w
    · rw [hk]; exact hqw
    · rw [hl, Function.update_of_ne hk] at h1; exact h.first k h1
  · rw [hl]
    by_cases hk : k = w
    · subst hk; simp
    · rw [hq] at h1
      exact hup k (h.done k h1 fun a b h3 => h2 a b ((Function.update_of_ne hk _ _).trans h3))
  · rw [hl]
    exact hup 0 (h.hi (by simpa using h1))

/-- The second half of `est`. -/
theorem Phase.reader_est {w : ℕ} {so : List KSUID} (h : Phase ids m log t)
    (hr : t.server.reader w = .est id so) :
    Phase ids m (log ++ [.linkSort id so]) { t with
      server := ({ t.server with links := t.server.links.setSort id so }.goReader w .idle).spawn w id } := by
  have hat := h.reader w
  rw [hr] at hat
  obtain ⟨rfl, rfl, rfl, hnext, hqs⟩ := hat
  have hq : queueAdded so id (log ++ [.linkSort id so]) = queueAdded so id log := queueAdded_other (by simp)
  have hl : linkAdded so id (log ++ [.linkSort id so]) = linkAdded so id log := linkAdded_other (by simp)
  have hnext' : t.server.nextEst + 1 = 1 := by rw [hnext]
  have htry : .linkTry id 0 ∉ log := fun h1 => by
    have := h.tried (.inl h1)
    omega
  refine {
    toMail := ?_, reader := fun k => ?_, first := by rw [hq, hl]; exact h.first, done := fun k h1 h2 => ?_
    oneEst := le_of_eq hnext', sorted := ?_, hi := fun _ => by rw [hl]; exact h.hi hqs
    theEst := fun _ => ⟨?_, by simp [hqs], fun _ => by simp [htry]⟩, tried := fun _ => hnext' }
  · have hseen : seenOf so id (log ++ [.linkSort id so]) = seenOf so id log := by simp [seenOf, hq]
    rw [hseen]
    exact { h.toMail with inbox := fun k => (h.inbox k).congr rfl rfl (fun _ => rfl) rfl fun _ => rfl }
  · show ShakeAt so id _ (t.server.nextEst + 1) k (Function.update t.server.reader 0 .idle k)
    by_cases hk : k = 0
    · subst hk; rw [Function.update_self]; trivial
    · rw [Function.update_of_ne hk]
      have h1 := h.reader k
      cases hrk : t.server.reader k with
      | hi a b => rw [hrk] at h1; exact h1.mono (by rw [hq]; exact fun h2 => h2) (by rw [hl]) (by simp)
      | est a b => rw [hrk] at h1; exact absurd h1.1 hk
      | _ => trivial
  · rw [hq] at h1
    rw [hl]
    refine h.done k h1 fun a b h3 => ?_
    by_cases hk : k = 0
    · subst hk; rw [hr] at h3; cases h3
    · exact h2 a b ((Function.update_of_ne hk _ _).trans h3)
  · exact ⟨fun _ => hnext', fun _ => by simp⟩
  · show (Function.update t.server.ests t.server.nextEst (newEst 0 id) 0).id = id
    rw [hnext, Function.update_self]
    rfl

/-- The operations that may come next after `log`. -/
inductive Due (ids : List KSUID) (m : KSUID) (log : List (HubOp ℕ KSUID)) : HubOp ℕ KSUID → Prop
  | queueAdd {k : ℕ} {id : KSUID} (hid : ids[k]? = some id) (hnew : queueAdded ids m log k = false) :
      Due ids m log (.queueAdd m id ⟨k, id⟩)
  | queueSort (hnew : .queueSort m ids ∉ log) (hhi : queueAdded ids m log 0 = true) :
      Due ids m log (.queueSort m ids)
  | linkAdd {k : ℕ} {id : KSUID} (hid : ids[k]? = some id) (hnew : linkAdded ids m log k = false) :
      Due ids m log (.linkAdd id m)
  | linkSort (hhi : linkAdded ids m log 0 = true) : Due ids m log (.linkSort m ids)
  | linkTry (hs : .linkSort m ids ∈ log) (hnew : .linkTry m 0 ∉ log) : Due ids m log (.linkTry m 0)
  | queueTry (hs : .queueSort m ids ∈ log) : Due ids m log (.queueTry m)
  | remove {o : HubOp ℕ KSUID} (ho : o.removes = true) : Due ids m log o

omit [DecidableEq KSUID] [Inhabited KSUID] in
theorem CloseAt.removes_of_op {a : CloseAt} (h : a.op id = some o) : o.removes = true := by
  cases a <;> cases h <;> rfl

/-- The reader takes a message. -/
theorem Phase.recv {w : ℕ} {out : Option (ℕ × Msg KSUID)} (h : Phase ids m log t)
    (hstep : t.server.step (.recv w) = some (sv', out)) :
    Phase ids m (log ++ (t.server.op (.recv w)).toList) { t with server := sv' } ∧
      ∀ o, t.server.op (.recv w) = some o → Due ids m log o := by
  cases ServerStep.of_step hstep with
  | @recv _ x xs hidle hin =>
    have hop : t.server.op (.recv w) = x.op w := by simp [Server.op, hin]
    rw [hop]
    rcases h.toMail.pop hin with ⟨rfl, hlt, h2, h3⟩ | ⟨rfl, rfl, h2, h3, h4⟩ | ⟨hlate, -, -, h4⟩
    · have hid : ids[w]? = some (ids.getD w default) := by
        rw [List.getD_eq_getElem?_getD, List.getElem?_eq_getElem hlt]; rfl
      refine ⟨h.recv_sayhi hid h2 h3, fun o ho => ?_⟩
      cases ho
      exact .queueAdd hid h2
    · have hnew : .queueSort m ids ∉ log := of_decide_eq_false h2
      refine ⟨h.recv_est hidle hnew h3 h4, fun o ho => ?_⟩
      cases ho
      exact .queueSort hnew h3
    · have hnone : x.op (W := ℕ) w = none := by cases x <;> first | rfl | exact hlate.elim
      rw [hnone]
      refine ⟨?_, fun _ ho => by cases ho⟩
      simp only [Option.toList_none, List.append_nil]
      have hk : Kept { t.server with inbox := Function.update t.server.inbox w xs }
          ({ t.server with inbox := Function.update t.server.inbox w xs }.dispatch w x) := by
        cases x with
        | sayhi | est => exact hlate.elim
        | beats => exact .refl
        | finish id | data id tag b =>
          simp only [Server.dispatch]
          split
          · exact Kept.goReader .refl (by rw [hidle]; rfl) rfl
          · exact .refl
      have hp : Phase ids m log
          { t with server := { t.server with inbox := Function.update t.server.inbox w xs } } :=
        { h with toMail := h4 _ rfl }
      exact hp.kept hk rfl rfl .rfl .rfl h.tried fun h1 =>
        fun h2 => (h.theEst (h.tried (.inl h2))).2.2 (hk.pc 0 h1) h2

/-- A step without an operation, or with a removal. -/
theorem Phase.kept_remove {x : Option (HubOp ℕ KSUID)} (h : Phase ids m log t) (hk : Kept t.server sv')
    (hx : ∀ o, x = some o → o.removes = true) :
    Phase ids m (log ++ x.toList) { t with server := sv' } ∧ ∀ o, x = some o → Due ids m log o := by
  refine ⟨?_, fun o ho => .remove (hx o ho)⟩
  have hdial : (sv'.ests 0).pc.dialing = true → .linkTry m 0 ∉ log := fun h1 h2 =>
    (h.theEst (h.tried (.inl h2))).2.2 (hk.pc 0 h1) h2
  cases x with
  | none =>
    rw [Option.toList_none, List.append_nil]
    exact h.kept hk rfl rfl .rfl .rfl h.tried hdial
  | some o =>
    have ho := hx o rfl
    cases o with
    | queueRemove a | linkRemove a =>
      exact h.kept hk (queueAdded_other (by simp)) (linkAdded_other (by simp)) (by simp) (by simp)
        (by simpa using h.tried) (by simpa using hdial)
    | queueAdd | queueSort | queueTry | linkAdd | linkSort | linkTry => cases ho

/-- Every step of the server. -/
theorem Phase.act {l : ServerLabel ℕ KSUID} {out : Option (ℕ × Msg KSUID)} (h : Phase ids m log t)
    (hnd : ids.Nodup) (hstep : t.server.step l = some (sv', out)) :
    Phase ids m (log ++ (t.server.op l).toList) { t with server := sv' } ∧
      ∀ o, t.server.op l = some o → Due ids m log o := by
  cases l with
  | recv w => exact h.recv hstep
  | reader w =>
    cases ServerStep.of_step hstep with
    | reader hread =>
      by_cases hsh : (t.server.reader w).shakes = false
      · refine h.kept_remove (hread.kept hsh) fun o ho => ?_
        simp only [Server.op] at ho
        cases hr : t.server.reader w with
        | hi | est => rw [hr] at hsh; cases hsh
        | close | hubCloseAt => rw [hr] at ho; exact CloseAt.removes_of_op ho
        | _ => rw [hr] at ho; cases ho
      have hat := h.reader w
      cases hread with
      | @hi a b hr =>
        rw [hr] at hat
        have hop : t.server.op (.reader w) = some (.linkAdd a b) := by simp [Server.op, hr, Reader.op]
        rw [hop]
        refine ⟨h.reader_hi hnd hr, fun o ho => ?_⟩
        cases ho
        rw [hat.2.1]
        exact .linkAdd hat.1 hat.2.2.2
      | @est a b hr =>
        rw [hr] at hat
        have hop : t.server.op (.reader w) = some (.linkSort a b) := by simp [Server.op, hr, Reader.op]
        rw [hop]
        refine ⟨h.reader_est hr, fun o ho => ?_⟩
        cases ho
        rw [hat.2.1, hat.2.2.1]
        exact .linkSort (h.hi hat.2.2.2.2)
      | refuse hr | test hr | write hr | close hr | hubClose hr | hubDelete hr => exact absurd (by rw [hr]; rfl) hsh
  | est e =>
    have hk := Server.kept_of_step hstep (by simp) (by simp)
    obtain ⟨he, hdial⟩ := Server.dialing_of_est hstep
    have hone : t.server.nextEst = 1 := by have := h.oneEst; omega
    obtain rfl : e = 0 := by omega
    obtain ⟨hid, hqs, htry⟩ := h.theEst hone
    cases hpc : (t.server.ests 0).pc with
    | linkTrySend =>
      have hop : t.server.op (.est 0) = some (.linkTry m 0) := by simp [Server.op, hpc, EstPc.op, hid]
      rw [hop]
      refine ⟨h.kept hk (queueAdded_other (by simp)) (linkAdded_other (by simp)) (by simp) (by simp)
        (fun _ => hone) (fun h => by rw [hdial] at h; cases h), fun o ho => ?_⟩
      cases ho
      exact .linkTry (h.sorted.mpr hone) (htry (by rw [hpc]; rfl))
    | queueTrySend =>
      have hop : t.server.op (.est 0) = some (.queueTry m) := by simp [Server.op, hpc, EstPc.op, hid]
      rw [hop]
      refine ⟨h.kept hk (queueAdded_other (by simp)) (linkAdded_other (by simp)) (by simp) (by simp)
        (fun _ => hone) (fun h => by rw [hdial] at h; cases h), fun o ho => ?_⟩
      cases ho
      exact .queueTry hqs
    | _ =>
      refine h.kept_remove hk fun o ho => ?_
      simp only [Server.op, hpc, EstPc.op] at ho
      first | cases ho | exact CloseAt.removes_of_op ho
  | _ => exact h.kept_remove (Server.kept_of_step hstep (by simp) (by simp)) fun _ ho => by cases ho

/-- Every step of the session. -/
theorem Phase.step {l : SessionLabel KSUID} (h : Phase ids m log t) (hnd : ids.Nodup)
    (hm : ids[0]? = some m) (hstep : t.step ids l = some t') : Phase ids m (log ++ t.ops l) t' := by
  have hhead : ids.headD default = m := by
    rw [List.headD_eq_head?_getD, List.head?_eq_getElem?, hm]; rfl
  cases l with
  | sayhi k =>
    simp only [Session.step, hhead] at hstep
    split at hstep
    · rename_i id hid
      split_ifs at hstep with hs
      cases hstep
      simp only [Session.ops, List.append_nil]
      exact { h with toMail := h.toMail.arrive_sayhi hid (by simpa using hs) }
    · cases hstep
  | est =>
    simp only [Session.step, hhead] at hstep
    split_ifs at hstep with hs
    cases hstep
    simp only [Session.ops, List.append_nil]
    exact { h with toMail := h.toMail.arrive_est hs.1 hs.2 }
  | late k x =>
    simp only [Session.step, hhead] at hstep
    split_ifs at hstep with hs
    cases hstep
    simp only [Session.ops, List.append_nil]
    exact { h with toMail := h.toMail.arrive_late hs.2.2 hs.1 hs.2.1 }
  | act l =>
    simp only [Session.step, Option.map_eq_some_iff] at hstep
    obtain ⟨⟨sv, out⟩, h1, rfl⟩ := hstep
    exact (h.act hnd h1).1

/-! ## Runs without removal -/

theorem Shaken.init : Shaken ids m [] (Session.init : Session KSUID) where
  phase := Phase.init
  links := by
    have h1 : linkAdded ids m [] = fun _ => false := by
      funext k; cases hk : ids[k]? <;> simp [linkAdded, hk]
    rw [h1]
    exact LinksAt.init
  queues := by
    have h1 : queueAdded ids m [] = fun _ => false := by
      funext k; cases hk : ids[k]? <;> simp [queueAdded, hk]
    rw [h1]
    exact QueuesAt.init

omit [Inhabited KSUID] in
/-- The master has a link once one of its lanes was added. -/
theorem LinksAt.ref?_master (h : LinksAt ids added sorted conn l) (hm : ids[0]? = some m)
    (h0 : added 0 = true) : ∃ q, l.hub.ref? m = some q := by
  have h1 : (l.hub.lane ids 0).isSome := h.tracks.counted_link h0
  obtain ⟨q, hq⟩ := Option.isSome_iff_exists.mp h1
  refine ⟨q, ?_⟩
  rwa [LinkHub.lane, hm, Option.bind_some] at hq

theorem QueuesAt.ref?_master (h : QueuesAt ids m added sorted tried s) (h0 : added k = true) :
    ∃ q, s.hub.ref? m = some q := by
  cases hq : s.hub.ref? m with
  | some q => exact ⟨q, rfl⟩
  | none =>
    have h1 : added k = false := (h.holds.unborn hq).2.2 k
    rw [h1] at h0
    cases h0

section
variable {x : Option (HubOp ℕ KSUID)}

/-- Until a link is removed, every operation of the session keeps the link hub where the log puts
    it. -/
theorem LinksAt.did {l l' : Links KSUID}
    (h : LinksAt ids (linkAdded ids m log) (decide (.linkSort m ids ∈ log)) (decide (.linkTry m 0 ∈ log)) l)
    (hp : Phase ids m log t) (hnd : ids.Nodup) (hm : ids[0]? = some m)
    (hdue : ∀ o, x = some o → Due ids m log o) (hkeep : ∀ id, x ≠ some (.linkRemove id)) (hl : LinksDid l l' x) :
    LinksAt ids (linkAdded ids m (log ++ x.toList)) (decide (.linkSort m ids ∈ log ++ x.toList))
      (decide (.linkTry m 0 ∈ log ++ x.toList)) l' := by
  cases x with
  | none =>
    rw [Option.toList_none, List.append_nil]
    exact h.ran hl
  | some o =>
    rw [Option.toList_some]
    cases hdue o rfl with
    | queueAdd | queueSort | queueTry =>
      rw [linkAdded_other (by simp)]
      simp only [List.mem_append, List.mem_singleton, reduceCtorEq, or_false]
      exact h.ran hl
    | linkAdd hid hnew =>
      rw [linkAdded_self hnd hid]
      simp only [List.mem_append, List.mem_singleton, reduceCtorEq, or_false]
      exact hl ▸ h.add hnd hm hid hnew
    | linkSort hhi =>
      rw [linkAdded_other (by simp)]
      obtain ⟨q, hr⟩ := h.ref?_master hm hhi
      simp only [List.mem_append, List.mem_singleton, reduceCtorEq, or_false, or_true, decide_true]
      exact hl ▸ h.setSort hm hr
    | linkTry hs hnew =>
      rw [linkAdded_other (by simp)]
      obtain ⟨q, hr⟩ := h.ref?_master hm (hp.hi (hp.theEst (hp.sorted.mp hs)).2.1)
      simp only [hs, hnew, decide_true, decide_false] at h
      simp only [List.mem_append, List.mem_singleton, reduceCtorEq, or_false, or_true, decide_true, hs]
      exact hl ▸ h.trySend hm hr
    | remove ho =>
      cases o with
      | linkRemove id => exact absurd rfl (hkeep id)
      | queueRemove id =>
        rw [linkAdded_other (by simp)]
        simp only [List.mem_append, List.mem_singleton, reduceCtorEq, or_false]
        exact h.ran hl
      | _ => cases ho

/-- Until the queue is removed, every operation of the session keeps the queue hub where the log puts
    it. -/
theorem QueuesAt.did
    (h : QueuesAt ids m (queueAdded ids m log) (decide (.queueSort m ids ∈ log))
      (decide (.queueTry m ∈ log)) s)
    (hp : Phase ids m log t) (hnd : ids.Nodup) (hdue : ∀ o, x = some o → Due ids m log o)
    (hkeep : ∀ id, x ≠ some (.queueRemove id)) (hq : QueuesDid s s' x) :
    QueuesAt ids m (queueAdded ids m (log ++ x.toList)) (decide (.queueSort m ids ∈ log ++ x.toList))
      (decide (.queueTry m ∈ log ++ x.toList)) s' := by
  cases x with
  | none =>
    rw [Option.toList_none, List.append_nil]
    exact h.ran hq
  | some o =>
    rw [Option.toList_some]
    cases hdue o rfl with
    | queueAdd hid hnew =>
      rw [queueAdded_self hid]
      simp only [List.mem_append, List.mem_singleton, reduceCtorEq, or_false]
      exact hq ▸ h.add hnd hid hnew
    | queueSort hnew hhi =>
      rw [queueAdded_other (by simp)]
      obtain ⟨q, hr⟩ := h.ref?_master hhi
      have htry : .queueTry m ∉ log := fun h1 => hnew (hp.theEst (hp.tried (.inr h1))).2.1
      simp only [hnew, htry, decide_false] at h
      simp only [List.mem_append, List.mem_singleton, reduceCtorEq, or_false, or_true, decide_true, htry,
        decide_false]
      exact hq ▸ h.setSort hr
    | linkAdd | linkSort | linkTry =>
      rw [queueAdded_other (by simp)]
      simp only [List.mem_append, List.mem_singleton, reduceCtorEq, or_false]
      exact h.ran hq
    | queueTry hs =>
      rw [queueAdded_other (by simp)]
      simp only [List.mem_append, List.mem_singleton, reduceCtorEq, or_false, or_true, decide_true]
      exact hq ▸ QueuesAt.of_trySend h.holds (fun _ => by simp [hs]) h.sends
    | remove ho =>
      cases o with
      | queueRemove id => exact absurd rfl (hkeep id)
      | linkRemove id =>
        rw [queueAdded_other (by simp)]
        simp only [List.mem_append, List.mem_singleton, reduceCtorEq, or_false]
        exact h.ran hq
      | _ => cases ho

end

theorem Shaken.step {l : SessionLabel KSUID} (h : Shaken ids m log t) (hnd : ids.Nodup)
    (hm : ids[0]? = some m) (hkeep : t.keeps l = true) (hstep : t.step ids l = some t') :
    Shaken ids m (log ++ t.ops l) t' := by
  have hphase := h.phase.step hnd hm hstep
  cases l with
  | sayhi k =>
    simp only [Session.step] at hstep
    split at hstep <;> (try split_ifs at hstep) <;> cases hstep
    simp only [Session.ops, List.append_nil] at hphase ⊢
    exact ⟨hphase, h.links, h.queues⟩
  | est | late =>
    simp only [Session.step] at hstep
    split_ifs at hstep
    cases hstep
    simp only [Session.ops, List.append_nil] at hphase ⊢
    exact ⟨hphase, h.links, h.queues⟩
  | act l =>
    simp only [Session.step, Option.map_eq_some_iff] at hstep
    obtain ⟨⟨sv, out⟩, h1, rfl⟩ := hstep
    obtain ⟨hq, hl⟩ := Server.did_of_step h1
    have hk : ∀ o, t.server.op l = some o → o.removes = false := by
      intro o ho
      simpa [Session.keeps, Session.ops, ho] using hkeep
    have hdue := (h.phase.act hnd h1).2
    exact ⟨hphase,
      h.links.did h.phase hnd hm hdue (fun id h2 => by have := hk _ h2; cases this) hl,
      h.queues.did h.phase hnd hdue (fun id h2 => by have := hk _ h2; cases this) hq⟩

/-- What the handshake has done to the hubs when the operations of `log` have run. -/
structure Confluent (ids : List KSUID) (m : KSUID) (log : List (HubOp ℕ KSUID)) (t : Session KSUID) :
    Prop where
  /-- `link.Send` was launched once if all its operations ran, and not before. -/
  merger : ∀ r, (t.server.links.sends r).length =
    if t.server.links.hub.ref? m = some r ∧ (∀ id ∈ ids, .linkAdd id m ∈ log) ∧ .linkTry m 0 ∈ log
      then 1 else 0
  /-- At that moment its link is complete. -/
  mergerReady : ∀ r, t.server.links.sends r ≠ [] → t.server.links.hub.ref? m = some r ∧
    (t.server.links.hub.obj r).conn = some 0 ∧ (t.server.links.hub.obj r).sorted = ids ∧
    ∀ id ∈ ids, (t.server.links.hub.ref? id).isSome
  mergerLink : (∀ id ∈ ids, .linkAdd id m ∈ log) → (t.server.links.hub.ref? m).isSome
  /-- `queue.Send` was launched if all its operations ran. -/
  splitter : (∀ k id, ids[k]? = some id → .queueAdd m id ⟨k, id⟩ ∈ log) → .queueTry m ∈ log →
    ∃ q, t.server.queues.hub.ref? m = some q ∧ t.server.queues.sends q ≠ []
  /-- It was launched only on a queue that is complete. -/
  splitterReady : ∀ q, t.server.queues.sends q ≠ [] → t.server.queues.hub.ref? m = some q ∧
    (t.server.queues.hub.obj q).sorted = ids ∧
    ∀ id ∈ ids, ((t.server.queues.hub.obj q).writers.lookup id).isSome
  /-- No operation of the next step replaces a link or a queue. -/
  stays : ∀ l t', t.keeps l = true → t.step ids l = some t' → ∀ x r,
    (t.server.links.hub.ref? x = some r → t'.server.links.hub.ref? x = some r) ∧
    (t.server.queues.hub.ref? x = some r → t'.server.queues.hub.ref? x = some r)

omit [Inhabited KSUID] in
theorem linkAdded_all : (∀ k < ids.length, linkAdded ids m log k = true) ↔
    ∀ id ∈ ids, .linkAdd id m ∈ log := by
  constructor
  · intro h id hid
    obtain ⟨k, hk⟩ := List.mem_iff_getElem?.mp hid
    simpa [linkAdded, hk] using h k (List.getElem?_eq_some_iff.mp hk).1
  · intro h k hk
    simpa [linkAdded, List.getElem?_eq_getElem hk] using h _ (List.getElem_mem hk)

omit [Inhabited KSUID] in
theorem queueAdded_all : (∀ k < ids.length, queueAdded ids m log k = true) ↔
    ∀ k id, ids[k]? = some id → .queueAdd m id ⟨k, id⟩ ∈ log := by
  constructor
  · intro h k id hk
    simpa [queueAdded, hk] using h k (List.getElem?_eq_some_iff.mp hk).1
  · intro h k hk
    simpa [queueAdded, List.getElem?_eq_getElem hk] using h k _ (List.getElem?_eq_getElem hk)

theorem Session.stays {l : SessionLabel KSUID} (hkeep : t.keeps l = true) (hstep : t.step ids l = some t')
    (x : KSUID) (r : ℕ) :
    (t.server.links.hub.ref? x = some r → t'.server.links.hub.ref? x = some r) ∧
      (t.server.queues.hub.ref? x = some r → t'.server.queues.hub.ref? x = some r) := by
  cases l with
  | sayhi k =>
    simp only [Session.step] at hstep
    split at hstep <;> (try split_ifs at hstep) <;> cases hstep
    exact ⟨fun h => h, fun h => h⟩
  | est | late =>
    simp only [Session.step] at hstep
    split_ifs at hstep
    cases hstep
    exact ⟨fun h => h, fun h => h⟩
  | act l =>
    simp only [Session.step, Option.map_eq_some_iff] at hstep
    obtain ⟨⟨sv, out⟩, h1, rfl⟩ := hstep
    obtain ⟨hq, hl⟩ := Server.did_of_step h1
    have hk : ∀ o, t.server.op l = some o → o.removes = false := by
      intro o ho
      simpa [Session.keeps, Session.ops, ho] using hkeep
    exact ⟨fun h => hl.ref?_mono hk h, fun h => hq.ref?_mono hk h⟩

theorem Shaken.confluent (h : Shaken ids m log t) (hm : ids[0]? = some m) : Confluent ids m log t := by
  have h0 : t.server.links.hub.lane ids 0 = t.server.links.hub.ref? m := by
    rw [LinkHub.lane, hm, Option.bind_some]
  have hn : 0 < ids.length := (List.getElem?_eq_some_iff.mp hm).1
  have hsends : ∀ r, (t.server.links.sends r).length =
      if t.server.links.hub.ref? m = some r ∧ (∀ id ∈ ids, .linkAdd id m ∈ log) ∧ .linkTry m 0 ∈ log
        then 1 else 0 := by
    intro r
    rw [h.links.sends r]
    refine if_congr ?_ rfl rfl
    rw [h0, linkAdded_all, decide_eq_true_iff]
  refine ⟨hsends, fun r hr => ?_, fun hall => ?_, fun hall htry => ?_, fun q hq => ?_,
    fun l t' h1 h2 x r => Session.stays h1 h2 x r⟩
  · have h1 : t.server.links.hub.ref? m = some r ∧ (∀ id ∈ ids, .linkAdd id m ∈ log) ∧
        .linkTry m 0 ∈ log := by
      by_contra h1
      have h2 := hsends r
      rw [if_neg h1] at h2
      exact hr (List.eq_nil_of_length_eq_zero h2)
    have hsort := h.phase.sorted.mpr (h.phase.tried (.inl h1.2.2))
    refine ⟨h1.1, ?_, ?_, fun id hid => ?_⟩
    · have h2 := h.links.tracks.conn (h0.trans h1.1)
      simpa [h1.2.2] using h2
    · have h2 := h.links.tracks.sorted (h0.trans h1.1)
      simpa [hsort] using h2
    · obtain ⟨k, hk⟩ := List.mem_iff_getElem?.mp hid
      have h2 : (t.server.links.hub.lane ids k).isSome := h.links.tracks.counted_link
        (linkAdded_all.mpr h1.2.1 k (List.getElem?_eq_some_iff.mp hk).1)
      rwa [LinkHub.lane, hk, Option.bind_some] at h2
  · obtain ⟨q, hq⟩ := h.links.ref?_master hm (linkAdded_all.mpr hall 0 hn)
    rw [hq]
    rfl
  · obtain ⟨q, hq⟩ := h.queues.ref?_master (queueAdded_all.mpr hall 0 hn)
    exact ⟨q, hq, h.queues.started (by simpa using htry) (queueAdded_all.mpr hall) q hq⟩
  · obtain ⟨h1, h2, h3⟩ := h.queues.sends q hq
    refine ⟨h1, ?_, fun id hid => ?_⟩
    · rw [h.queues.holds.sorted h1]
      exact if_pos h2
    · obtain ⟨k, hk⟩ := List.mem_iff_getElem?.mp hid
      rw [h.queues.holds.writers h1 hk]
      simp [h3 k (List.getElem?_eq_some_iff.mp hk).1]

/-- The handshake of a session: in whatever order the server executes it, the merger is
    launched exactly once, at the last of the `n` `LinkHub.Add` and `LinkHub.TrySend`, the
    splitter at least once, and each of them only when it is complete. -/
theorem handshake_confluence {ls : List (SessionLabel KSUID)} (hne : ids ≠ []) (hnd : ids.Nodup)
    (h : Run (Session.step ids) (fun t l => t.keeps l = true) Session.init ls t) :
    Confluent ids (ids.headD default) (history (Session.step ids) Session.ops Session.init ls) t := by
  have hm : ids[0]? = some (ids.headD default) := by
    cases ids with
    | nil => exact absurd rfl hne
    | cons a as => rfl
  have hs : Shaken ids (ids.headD default) (history (Session.step ids) Session.ops Session.init ls) t :=
    h.history_invariant (I := fun log t => Shaken ids (ids.headD default) log t) Shaken.init
      fun _ _ _ _ h1 hk hstep => h1.step hnd hm hk hstep
  exact hs.confluent hm

/-- Two lanes, the second `sayhi` last. -/
def slowLane : List (SessionLabel ℕ) :=
  [.sayhi 0, .est, .act (.recv 0), .act (.reader 0), .act (.recv 0), .act (.reader 0),
    .act (.dial 0 .connected), .act (.est 0), .act (.est 0), .act (.est 0), .sayhi 1, .act (.recv 1),
    .act (.reader 1)]

set_option maxRecDepth 100000 in
theorem handshake_confluence_two_lanes : ∃ t, Run (Session.step [7, 8]) (fun t l => t.keeps l = true)
      Session.init slowLane t ∧ (t.server.links.sends 0).length = 1 ∧
    Confluent [7, 8] 7 (history (Session.step [7, 8]) Session.ops Session.init slowLane) t := by
  have hexec : (exec (Session.step [7, 8]) Session.keeps Session.init slowLane).map
      (fun t => (t.server.links.sends 0).length) = some 1 := by decide +kernel
  obtain ⟨t, hrun, hlen⟩ := exists_run_of_exec hexec
  exact ⟨t, hrun, hlen, handshake_confluence (by simp) (by simp) hrun⟩

end Wssocks.Wss

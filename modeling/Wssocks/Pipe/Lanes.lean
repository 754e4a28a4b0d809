import Wssocks.Lib.Tally
import Wssocks.Pipe.LinkLemmas

/-!
# The links of one session

A session is a list `ids` of distinct lane ids, the first one the master. A
`LaneMap` remembers which link object each lane got first, which lanes the
master's link has counted, and what it was told. `Tracks` ties it to a hub:

* a lane's first link is open exactly as long as it is registered;
* the links of all lanes are registered as long as the master's is;
* only the master id can get a second link, and that one has no connection.

Every operation of the hub on the session keeps it.
-/

namespace Wssocks.Pipe

open Wssocks.Lib

variable {KSUID : Type} [DecidableEq KSUID]

/-- The link registered for lane `k`. -/
def LinkHub.lane (h : LinkHub KSUID) (ids : List KSUID) (k : ℕ) : Option ℕ := ids[k]?.bind h.ref?

/-- What the links of a session have been told so far. -/
structure LaneMap where
  /-- The first link of each lane. -/
  link : ℕ → Option ℕ
  /-- The lanes the master's first link has counted. -/
  counted : ℕ → Bool
  /-- Its `sorted` has been set. -/
  sorted : Bool
  /-- Its `conn` has been set. -/
  conn : Bool

namespace LaneMap

/-- Nothing is there yet. -/
def init : LaneMap := ⟨fun _ => none, fun _ => false, false, false⟩

/-- Lane `k` gets a link and is counted. -/
def add (g : LaneMap) (k r0 r : ℕ) (live : Bool) : LaneMap :=
  { g with
    link := fun j => if j = 0 then some ((g.link 0).getD r0) else if j = k then some r else g.link j
    counted := if live then Function.update g.counted k true else g.counted }

end LaneMap

/-- The hub holds the session as `g` says; `c` is the connection of the session. -/
structure Tracks (ids : List KSUID) (c : ℕ) (g : LaneMap) (h : LinkHub KSUID) : Prop where
  link_lt : ∀ {k r}, g.link k = some r → k < ids.length ∧ r < h.next
  link_inj : ∀ {j k r}, g.link j = some r → g.link k = some r → j = k
  unborn : ∀ {k}, g.link k = none → h.lane ids k = none
  /-- The master's link is the first one of the session. -/
  born : g.link 0 = none → g.sorted = false ∧ g.conn = false ∧ ∀ k, g.link k = none
  counted_link : ∀ {k}, g.counted k = true → (g.link k).isSome
  /-- What is registered is the first link, or a second one of the master. -/
  first : ∀ {k r}, h.lane ids k = some r →
    g.link k = some r ∨ (k = 0 ∧ (∀ j, g.link j ≠ some r) ∧ (h.obj r).conn = none)
  live : h.lane ids 0 = g.link 0 → ∀ k, h.lane ids k = g.link k
  open_iff : ∀ {k r}, g.link k = some r → ((h.obj r).buffer.closed = false ↔ h.lane ids k = some r)
  status_close : ∀ {k r}, g.link k = some r → (h.obj r).status = .close →
    (h.obj r).buffer.closed = true
  sorted : ∀ {r}, g.link 0 = some r → (h.obj r).sorted = if g.sorted then ids else []
  conn : ∀ {r}, g.link 0 = some r → (h.obj r).conn = if g.conn then some c else none
  counter : ∀ {r}, g.link 0 = some r → (h.obj r).counter = tally g.counted ids.length

namespace Tracks

variable {ids : List KSUID} {c : ℕ} {g : LaneMap} {h : LinkHub KSUID}

theorem init [Inhabited KSUID] : Tracks ids c LaneMap.init (Registry.empty : LinkHub KSUID) where
  link_lt := by simp [LaneMap.init]
  link_inj := by simp [LaneMap.init]
  unborn := by intro k _; cases hk : ids[k]? <;> simp [LinkHub.lane, hk]
  born := by simp [LaneMap.init]
  counted_link := by simp [LaneMap.init]
  first := by intro k r hr; cases hk : ids[k]? <;> simp [LinkHub.lane, hk] at hr
  live := by intro _ k; cases hk : ids[k]? <;> simp [LinkHub.lane, hk, LaneMap.init]
  open_iff := by simp [LaneMap.init]
  status_close := by simp [LaneMap.init]
  sorted := by simp [LaneMap.init]
  conn := by simp [LaneMap.init]
  counter := by simp [LaneMap.init]

/-- A change of one link that leaves its channel as open as it was, and what the
    master's link was told then. -/
theorem modify (t : Tracks ids c g h) (q : ℕ) (f : Link KSUID → Link KSUID) (st cn : Bool)
    (hcl : (f (h.obj q)).buffer.closed = (h.obj q).buffer.closed)
    (hst : (f (h.obj q)).status = .close → (h.obj q).status = .close)
    (hself : g.link 0 = some q → (f (h.obj q)).sorted = (if st then ids else []) ∧
      (f (h.obj q)).conn = (if cn then some c else none) ∧
      (f (h.obj q)).counter = (h.obj q).counter)
    (hother : g.link 0 ≠ some q → st = g.sorted ∧ cn = g.conn ∧
      (f (h.obj q)).conn = (h.obj q).conn) :
    Tracks ids c { g with sorted := st, conn := cn } (h.modify q f) where
  link_lt := t.link_lt
  link_inj := t.link_inj
  unborn := t.unborn
  born := by
    intro h0
    obtain ⟨h1, h2, h3⟩ := t.born h0
    obtain ⟨e1, e2, -⟩ := hother (by rw [h0]; simp)
    exact ⟨e1.trans h1, e2.trans h2, h3⟩
  counted_link := t.counted_link
  first := by
    intro k r hr
    rcases t.first hr with h1 | ⟨h1, h2, h3⟩
    · exact .inl h1
    · refine .inr ⟨h1, h2, ?_⟩
      rw [Registry.obj_modify]
      split_ifs with hq
      · subst hq; rw [(hother (h2 0)).2.2, h3]
      · exact h3
  live := t.live
  open_iff := by
    intro k r hr
    by_cases hq : r = q
    · subst hq
      rw [Registry.obj_modify_self, hcl]
      exact t.open_iff hr
    · rw [Registry.obj_modify_ne hq]
      exact t.open_iff hr
  status_close := by
    intro k r hr
    by_cases hq : r = q
    · subst hq
      rw [Registry.obj_modify_self, hcl]
      exact fun h1 => t.status_close hr (hst h1)
    · rw [Registry.obj_modify_ne hq]
      exact t.status_close hr
  sorted := by
    intro r hr
    by_cases hq : r = q
    · subst hq
      rw [Registry.obj_modify_self]
      exact (hself hr).1
    · rw [Registry.obj_modify_ne hq, t.sorted hr,
        (hother fun h0 => hq (Option.some.inj (hr.symm.trans h0))).1]
  conn := by
    intro r hr
    by_cases hq : r = q
    · subst hq
      rw [Registry.obj_modify_self]
      exact (hself hr).2.1
    · rw [Registry.obj_modify_ne hq, t.conn hr,
        (hother fun h0 => hq (Option.some.inj (hr.symm.trans h0))).2.1]
  counter := by
    intro r hr
    by_cases hq : r = q
    · subst hq
      rw [Registry.obj_modify_self, (hself hr).2.2]
      exact t.counter hr
    · rw [Registry.obj_modify_ne hq]
      exact t.counter hr

/-- A change that concerns only the buffered items, `status` and `done`. -/
theorem modify_same (t : Tracks ids c g h) (q : ℕ) (f : Link KSUID → Link KSUID)
    (hcl : (f (h.obj q)).buffer.closed = (h.obj q).buffer.closed)
    (hst : (f (h.obj q)).status = .close → (h.obj q).status = .close)
    (hs : (f (h.obj q)).sorted = (h.obj q).sorted) (hc : (f (h.obj q)).conn = (h.obj q).conn)
    (hn : (f (h.obj q)).counter = (h.obj q).counter) : Tracks ids c g (h.modify q f) :=
  t.modify q f g.sorted g.conn hcl hst
    (fun h0 => ⟨by rw [hs, t.sorted h0], by rw [hc, t.conn h0], hn⟩)
    (fun _ => ⟨rfl, rfl, hc⟩)

/-! ## `Add` -/

section Add

variable {k : ℕ} {id m : KSUID}

/-- The map of the session after `Add` for lane `k`. -/
def added (ids : List KSUID) (g : LaneMap) (h : LinkHub KSUID) (k : ℕ) (m : KSUID) : LaneMap :=
  g.add k (h.masterRef m) (h.ensure m (newLink m)).next (decide (h.lane ids 0 = g.link 0))

theorem counted_added : (added ids g h k m).counted =
    if h.lane ids 0 = g.link 0 then Function.update g.counted k true else g.counted := by
  by_cases hl : h.lane ids 0 = g.link 0 <;> simp [added, LaneMap.add, hl]

theorem lane_add (hnd : ids.Nodup) (hm : ids[0]? = some m) (hid : ids[k]? = some id)
    (hnew : k ≠ 0 → h.ref? id = none) (j : ℕ) :
    (LinkHub.add h id m).1.lane ids j =
      if j = 0 then some (h.masterRef m)
      else if j = k then some (h.ensure m (newLink m)).next else h.lane ids j := by
  unfold LinkHub.lane
  cases hj : ids[j]? with
  | none =>
    rw [if_neg, if_neg]
    · rfl
    · rintro rfl; rw [hj] at hid; cases hid
    · rintro rfl; rw [hj] at hm; cases hm
  | some x =>
    simp only [Option.bind_some, LinkHub.ref?_add, index_inj hnd hj hm, index_inj hnd hj hid]
    split_ifs with h0 hk
    · rfl
    · rw [hnew (by omega)]; rfl
    · rfl

/-- Where the master's first link is after `Add`: where it was, or in the next free
    place, and the lane's own link is above both. -/
theorem added_master (t : Tracks ids c g h) (hm : ids[0]? = some m) :
    h.next ≤ (h.ensure m (newLink m)).next ∧
    ((∃ a, g.link 0 = some a ∧ a < h.next ∧ (h.masterRef m = a ↔ h.ref? m = some a)) ∨
      (g.link 0 = none ∧ h.ref? m = none ∧ h.masterRef m = h.next ∧
        (h.ensure m (newLink m)).next = h.next + 1)) := by
  refine ⟨Registry.next_le_ensure, ?_⟩
  cases h0 : g.link 0 with
  | some a =>
    have ha := (t.link_lt h0).2
    refine .inl ⟨a, rfl, ha, ?_⟩
    unfold LinkHub.masterRef
    cases hr : h.ref? m with
    | some y => simp
    | none => simp; omega
  | none =>
    have hr : h.ref? m = none := by simpa [LinkHub.lane, hm] using t.unborn h0
    exact .inr ⟨rfl, hr, by simp [LinkHub.masterRef, hr], by rw [Registry.next_ensure]; simp [hr]⟩

theorem buffer_add_of_lt {r : ℕ} (hr : r < h.next) :
    ((LinkHub.add h id m).1.obj r).buffer = (h.obj r).buffer := by
  rw [LinkHub.obj_add_of_lt hr]; split_ifs <;> rfl

theorem conn_add_of_lt {r : ℕ} (hr : r < h.next) :
    ((LinkHub.add h id m).1.obj r).conn = (h.obj r).conn := by
  rw [LinkHub.obj_add_of_lt hr]; split_ifs <;> rfl

theorem sorted_add_of_lt {r : ℕ} (hr : r < h.next) :
    ((LinkHub.add h id m).1.obj r).sorted = (h.obj r).sorted := by
  rw [LinkHub.obj_add_of_lt hr]; split_ifs <;> rfl

theorem status_add_of_lt {r : ℕ} (hr : r < h.next) :
    ((LinkHub.add h id m).1.obj r).status = (h.obj r).status := by
  rw [LinkHub.obj_add_of_lt hr]; split_ifs <;> rfl

/-- A link that `Add` creates. -/
theorem obj_add_new {r : ℕ} (hr : h.next ≤ r) (hr' : r < (LinkHub.add h id m).1.next) :
    (LinkHub.add h id m).1.obj r =
      { newLink m with counter := if r = h.masterRef m then 1 else 0 } := by
  rw [LinkHub.add_hub, Registry.next_modify] at hr'
  have hnew := LinkHub.obj_ensured_of_ge hr hr'
  rw [LinkHub.add_hub, Registry.obj_modify]
  split_ifs with h0
  · rw [← h0, hnew]; rfl
  · rw [hnew]; rfl

/-- The links after `Add`: the master's, the added lane's, the others'. -/
theorem link_added {j r : ℕ} (hr : (added ids g h k m).link j = some r) :
    (j = 0 ∧ r = (g.link 0).getD (h.masterRef m)) ∨
    (j ≠ 0 ∧ j = k ∧ r = (h.ensure m (newLink m)).next) ∨
    (j ≠ 0 ∧ j ≠ k ∧ g.link j = some r) := by
  simp only [added, LaneMap.add] at hr
  split_ifs at hr with h0 h1
  · exact .inl ⟨h0, (Option.some.inj hr).symm⟩
  · exact .inr (.inl ⟨h0, h1, (Option.some.inj hr).symm⟩)
  · exact .inr (.inr ⟨h0, h1, hr⟩)

theorem link_zero_added {r : ℕ} (hr : (added ids g h k m).link 0 = some r) :
    r = (g.link 0).getD (h.masterRef m) := by
  rcases link_added hr with ⟨-, h1⟩ | ⟨h1, -⟩ | ⟨h1, -⟩
  · exact h1
  · exact absurd rfl h1
  · exact absurd rfl h1

/-- The master's link stays apart from the other links. -/
theorem added_ne (t : Tracks ids c g h) (hm : ids[0]? = some m) :
    (h.ensure m (newLink m)).next ≠ (g.link 0).getD (h.masterRef m) ∧
      ∀ j r, j ≠ 0 → g.link j = some r → r ≠ (g.link 0).getD (h.masterRef m) := by
  obtain ⟨hge, ⟨a, h0, ha, -⟩ | ⟨h0, -, hr, hn⟩⟩ := t.added_master hm
  · rw [h0, Option.getD_some]
    refine ⟨by omega, ?_⟩
    rintro j r hj hjr rfl
    exact hj (t.link_inj hjr h0)
  · rw [h0, Option.getD_none]
    refine ⟨by omega, ?_⟩
    intro j r _ hjr
    have := (t.link_lt hjr).2
    omega

theorem lane_lt {j r : ℕ} (hr : h.lane ids j = some r) : r < h.next := by
  obtain ⟨x, -, hx⟩ := Option.bind_eq_some_iff.mp hr
  exact Registry.ref?_lt hx

/-- A second link of the master is none of the session's first links and has no
    connection. -/
theorem second_master {a : ℕ} (t : Tracks ids c g h) (hm : ids[0]? = some m) (h0 : g.link 0 = some a)
    (hra : h.masterRef m ≠ a) (hr0 : h.masterRef m < (LinkHub.add h id m).1.next) :
    (∀ j, (added ids g h k m).link j ≠ some (h.masterRef m)) ∧
      ((LinkHub.add h id m).1.obj (h.masterRef m)).conn = none := by
  have key : (∀ j, g.link j ≠ some (h.masterRef m)) ∧
      ((LinkHub.add h id m).1.obj (h.masterRef m)).conn = none ∧
      h.masterRef m ≠ (h.ensure m (newLink m)).next := by
    cases hr : h.ref? m with
    | some y =>
      have hy : h.masterRef m = y := by simp [LinkHub.masterRef, hr]
      have hlt := Registry.ref?_lt hr
      have hge : h.next ≤ (h.ensure m (newLink m)).next := Registry.next_le_ensure
      rw [hy] at hra ⊢
      rcases t.first (k := 0) (r := y) (by simp [LinkHub.lane, hm, hr]) with h1 | ⟨-, h2, h3⟩
      · exact absurd (Option.some.inj (h1.symm.trans h0)) hra
      · exact ⟨h2, by rw [conn_add_of_lt hlt, h3], by omega⟩
    | none =>
      have hy : h.masterRef m = h.next := by simp [LinkHub.masterRef, hr]
      refine ⟨?_, ?_, ?_⟩
      · intro j hj
        have := (t.link_lt hj).2
        omega
      · rw [obj_add_new (by omega) hr0]; rfl
      · rw [Registry.next_ensure, hr, hy]; simp
  refine ⟨?_, key.2.1⟩
  intro j hj
  rcases link_added hj with ⟨-, h1⟩ | ⟨-, -, h1⟩ | ⟨-, -, h1⟩
  · rw [h0] at h1; exact hra h1
  · exact key.2.2 h1
  · exact key.1 j h1

/-- If the master's first link is registered after `Add`, it was before. -/
theorem live_of_added (t : Tracks ids c g h) (hm : ids[0]? = some m)
    (hl : (LinkHub.add h id m).1.lane ids 0 = (added ids g h k m).link 0) :
    h.lane ids 0 = g.link 0 := by
  have hl0 : h.lane ids 0 = h.ref? m := by simp [LinkHub.lane, hm]
  have hl1 : (LinkHub.add h id m).1.lane ids 0 = some (h.masterRef m) := by
    simp [LinkHub.lane, hm, LinkHub.ref?_add]
  rw [hl1] at hl
  simp only [added, LaneMap.add, if_pos, Option.some.injEq] at hl
  rcases (t.added_master hm).2 with ⟨a, h0, ha, hiff⟩ | ⟨h0, hr, -, -⟩
  · rw [h0, Option.getD_some] at hl
    rw [hl0, h0, hiff.mp hl]
  · rw [hl0, h0, hr]

section Added

variable (t : Tracks ids c g h) (hnd : ids.Nodup) (hm : ids[0]? = some m) (hid : ids[k]? = some id)
  (hnew : k ≠ 0 → g.link k = none)
include t hnd hm hid hnew

theorem lane_added (j : ℕ) : (LinkHub.add h id m).1.lane ids j =
    if j = 0 then some (h.masterRef m)
    else if j = k then some (h.ensure m (newLink m)).next else h.lane ids j :=
  lane_add hnd hm hid (fun h0 => by simpa [LinkHub.lane, hid] using t.unborn (hnew h0)) j

/-- Every link of the session is allocated after `Add`. -/
theorem link_added_lt {j r : ℕ} (hr : (added ids g h k m).link j = some r) :
    j < ids.length ∧ r < (LinkHub.add h id m).1.next := by
  have hlane := t.lane_added hnd hm hid hnew
  rcases link_added hr with ⟨rfl, rfl⟩ | ⟨h0, rfl, rfl⟩ | ⟨-, -, hj⟩
  · refine ⟨(List.getElem?_eq_some_iff.mp hm).1, ?_⟩
    rcases (t.added_master hm).2 with ⟨a, h0, ha, -⟩ | ⟨h0, -⟩ <;> rw [h0]
    · exact lt_of_lt_of_le ha LinkHub.next_le_add
    · exact lane_lt (j := 0) (by rw [hlane, if_pos rfl]; rfl)
  · exact ⟨(List.getElem?_eq_some_iff.mp hid).1, lane_lt (j := j) (by rw [hlane, if_neg h0, if_pos rfl])⟩
  · exact ⟨(t.link_lt hj).1, lt_of_lt_of_le (t.link_lt hj).2 LinkHub.next_le_add⟩

/-- A lane's link after `Add` is an allocated one, or a new one of a lane that had
    none. -/
theorem link_added_obj {j r : ℕ} (hr : (added ids g h k m).link j = some r) :
    (g.link j = some r ∧ r < h.next) ∨ (g.link j = none ∧ h.next ≤ r ∧
      (LinkHub.add h id m).1.obj r =
        { newLink m with counter := if r = h.masterRef m then 1 else 0 }) := by
  have hlt := (t.link_added_lt hnd hm hid hnew hr).2
  obtain ⟨hge, hcase⟩ := t.added_master hm
  rcases link_added hr with ⟨rfl, rfl⟩ | ⟨h0, rfl, rfl⟩ | ⟨-, -, hj⟩
  · rcases hcase with ⟨a, h0, ha, -⟩ | ⟨h0, -, hrn, -⟩
    · rw [h0]; exact .inl ⟨rfl, ha⟩
    · rw [h0, Option.getD_none] at hlt ⊢
      exact .inr ⟨rfl, by omega, obj_add_new (by omega) hlt⟩
  · exact .inr ⟨hnew h0, hge, obj_add_new hge hlt⟩
  · exact .inl ⟨hj, (t.link_lt hj).2⟩

omit hnd hid hnew in
/-- No two lanes share a link. -/
theorem link_added_inj {i j r : ℕ} (hi : (added ids g h k m).link i = some r)
    (hj : (added ids g h k m).link j = some r) : i = j := by
  obtain ⟨hne, hne'⟩ := t.added_ne hm
  have hge := (t.added_master hm).1
  have hold : ∀ {j r}, g.link j = some r → r < h.next := fun hr => (t.link_lt hr).2
  rcases link_added hi with ⟨rfl, rfl⟩ | ⟨hi0, rfl, rfl⟩ | ⟨hi0, hik, hi'⟩ <;>
    rcases link_added hj with ⟨rfl, hj'⟩ | ⟨hj0, rfl, hj'⟩ | ⟨hj0, hjk, hj'⟩
  · rfl
  · exact absurd hj'.symm hne
  · exact absurd rfl (hne' _ _ hj0 hj')
  · exact absurd hj' hne
  · rfl
  · have := hold hj'; omega
  · exact absurd hj' (hne' _ _ hi0 hi')
  · have := hold hi'; omega
  · exact t.link_inj hi' hj'

/-- What is registered after `Add` is the first link of its lane, or a second one of the master. -/
theorem first_added {j r : ℕ} (hr : (LinkHub.add h id m).1.lane ids j = some r) :
    (added ids g h k m).link j = some r ∨ (j = 0 ∧ (∀ i, (added ids g h k m).link i ≠ some r) ∧
      ((LinkHub.add h id m).1.obj r).conn = none) := by
  have hlt := lane_lt hr
  rw [t.lane_added hnd hm hid hnew] at hr
  split_ifs at hr with h0 h1
  · cases hr
    subst h0
    rcases (t.added_master hm).2 with ⟨a, h0, -, -⟩ | ⟨h0, -, -, -⟩
    · by_cases hra : h.masterRef m = a
      · exact .inl (by simp [added, LaneMap.add, h0, hra])
      · exact .inr ⟨rfl, t.second_master hm h0 hra hlt⟩
    · exact .inl (by simp [added, LaneMap.add, h0])
  · cases hr
    subst h1
    exact .inl (by simp [added, LaneMap.add, h0])
  · rcases t.first hr with h2 | ⟨h2, -⟩
    · exact .inl (by simp [added, LaneMap.add, h0, h1, h2])
    · exact absurd h2 h0

/-- If the master's link is its first one, all lanes are registered. -/
theorem live_added (hl : (LinkHub.add h id m).1.lane ids 0 = (added ids g h k m).link 0) (j : ℕ) :
    (LinkHub.add h id m).1.lane ids j = (added ids g h k m).link j := by
  have hlane := t.lane_added hnd hm hid hnew
  by_cases h0 : j = 0
  · rw [h0]; exact hl
  · by_cases h1 : j = k
    · subst h1
      rw [hlane, if_neg h0, if_pos rfl]
      simp [added, LaneMap.add, h0]
    · rw [hlane, if_neg h0, if_neg h1, t.live (t.live_of_added hm hl) j]
      simp [added, LaneMap.add, h0, h1]

/-- The open links are the registered ones. -/
theorem open_iff_added {j r : ℕ} (hr : (added ids g h k m).link j = some r) :
    ((LinkHub.add h id m).1.obj r).buffer.closed = false ↔ (LinkHub.add h id m).1.lane ids j = some r := by
  have hlt := (t.link_added_lt hnd hm hid hnew hr).2
  have hl0 : h.lane ids 0 = h.ref? m := by simp [LinkHub.lane, hm]
  obtain ⟨hge, hcase⟩ := t.added_master hm
  rw [t.lane_added hnd hm hid hnew]
  rcases link_added hr with ⟨rfl, rfl⟩ | ⟨h0, rfl, rfl⟩ | ⟨h0, h1, hj⟩
  · rw [if_pos rfl, Option.some.injEq]
    rcases hcase with ⟨a, h0, ha, hiff⟩ | ⟨h0, -, hrn, -⟩ <;> rw [h0] at hlt ⊢
    · rw [Option.getD_some, buffer_add_of_lt ha, t.open_iff h0, hl0, hiff]
    · rw [Option.getD_none] at hlt ⊢
      rw [obj_add_new (by omega) hlt]
      simp [newLink]
  · rw [if_neg h0, if_pos rfl, obj_add_new hge hlt]
    simp [newLink]
  · rw [if_neg h0, if_neg h1, buffer_add_of_lt (t.link_lt hj).2, t.open_iff hj]

/-- A link that is closed has a closed buffer. -/
theorem status_close_added {j r : ℕ} (hr : (added ids g h k m).link j = some r)
    (hst : ((LinkHub.add h id m).1.obj r).status = .close) :
    ((LinkHub.add h id m).1.obj r).buffer.closed = true := by
  rcases t.link_added_obj hnd hm hid hnew hr with ⟨hj, hlt⟩ | ⟨-, -, hobj⟩
  · rw [status_add_of_lt hlt] at hst
    rw [buffer_add_of_lt hlt]
    exact t.status_close hj hst
  · rw [hobj] at hst
    cases hst

omit hnd hnew in
/-- The master's first link counts the lanes that were added while it was registered. -/
theorem counter_added {r : ℕ} (hc : g.counted k = false) (hr : (added ids g h k m).link 0 = some r)
    (hlt : r < (LinkHub.add h id m).1.next) :
    ((LinkHub.add h id m).1.obj r).counter = tally (added ids g h k m).counted ids.length := by
  have hk : k < ids.length := (List.getElem?_eq_some_iff.mp hid).1
  have hl0 : h.lane ids 0 = h.ref? m := by simp [LinkHub.lane, hm]
  obtain rfl : r = _ := link_zero_added hr
  rcases (t.added_master hm).2 with ⟨a, h0, ha, hiff⟩ | ⟨h0, hrm, hrn, -⟩ <;> rw [h0] at hlt ⊢
  · rw [Option.getD_some, LinkHub.obj_add_of_lt ha]
    by_cases hra : h.masterRef m = a
    · have hlive : h.lane ids 0 = g.link 0 := by rw [hl0, h0, hiff.mp hra]
      rw [if_pos hra.symm, counted_added, if_pos hlive, tally_update hk hc, ← t.counter h0]
    · have hdead : h.lane ids 0 ≠ g.link 0 := by rw [hl0, h0]; exact fun h1 => hra (hiff.mpr h1)
      rw [if_neg fun h1 => hra h1.symm, counted_added, if_neg hdead, ← t.counter h0]
  · have hlive : h.lane ids 0 = g.link 0 := by rw [hl0, h0, hrm]
    have hzero : tally g.counted ids.length = 0 := by
      refine tally_eq_zero fun j => ?_
      by_contra hj
      have := t.counted_link (by simpa using hj)
      rw [(t.born h0).2.2 j] at this
      cases this
    rw [Option.getD_none] at hlt ⊢
    rw [obj_add_new (by omega) hlt, counted_added, if_pos hlive, tally_update hk hc, hzero]
    simp

/-- `Add` for a lane that was not added before keeps the session tracked. -/
theorem add (hc : g.counted k = false) : Tracks ids c (added ids g h k m) (LinkHub.add h id m).1 where
  link_lt := t.link_added_lt hnd hm hid hnew
  link_inj := t.link_added_inj hm
  unborn := by
    intro j hj
    simp only [added, LaneMap.add] at hj
    split_ifs at hj with h0 h1
    rw [t.lane_added hnd hm hid hnew, if_neg h0, if_neg h1]
    exact t.unborn hj
  born := by
    intro h0
    simp [added, LaneMap.add] at h0
  counted_link := by
    intro j hj
    simp only [added, LaneMap.add] at hj ⊢
    split_ifs with h0 h1
    · rfl
    · rfl
    · refine t.counted_link ?_
      split_ifs at hj
      · rwa [Function.update_of_ne h1] at hj
      · exact hj
  first := t.first_added hnd hm hid hnew
  live := t.live_added hnd hm hid hnew
  open_iff := t.open_iff_added hnd hm hid hnew
  status_close := t.status_close_added hnd hm hid hnew
  sorted := by
    intro r hr
    rcases t.link_added_obj hnd hm hid hnew hr with ⟨h0, hlt⟩ | ⟨h0, -, hobj⟩
    · rw [sorted_add_of_lt hlt]
      exact t.sorted h0
    · rw [hobj]
      exact (if_neg (by simp [added, LaneMap.add, (t.born h0).1])).symm
  conn := by
    intro r hr
    rcases t.link_added_obj hnd hm hid hnew hr with ⟨h0, hlt⟩ | ⟨h0, -, hobj⟩
    · rw [conn_add_of_lt hlt]
      exact t.conn h0
    · rw [hobj]
      exact (if_neg (by simp [added, LaneMap.add, (t.born h0).2.1])).symm
  counter := fun hr => t.counter_added hm hid hc hr (t.link_added_lt hnd hm hid hnew hr).2

end Added

/-- `Add` launches `Send` exactly when the master's first link is registered, has
    its connection and its order, and counts its last lane now. -/
theorem add_launch (t : Tracks ids c g h) (hm : ids[0]? = some m) :
    (LinkHub.add h id m).2 =
      if h.lane ids 0 = g.link 0 ∧ g.conn = true ∧ g.sorted = true ∧
        tally g.counted ids.length + 1 = ids.length then some (h.masterRef m) else none := by
  have hl0 : h.lane ids 0 = h.ref? m := by simp [LinkHub.lane, hm]
  rw [LinkHub.add_launch]
  cases hr : h.ref? m with
  | none =>
    -- the new link of the master has no connection
    have hobj : ((LinkHub.ensured h id m).obj (h.masterRef m)).conn = none := by
      have hlt : h.masterRef m < (LinkHub.ensured h id m).next :=
        Registry.ref?_lt (k := m) (by rw [LinkHub.ref?_ensured, if_pos rfl])
      rw [LinkHub.obj_ensured_of_ge (by simp [LinkHub.masterRef, hr]) hlt]
      rfl
    rw [hobj, if_neg (by simp), if_neg]
    rintro ⟨h1, h2, -⟩
    rw [hl0, hr] at h1
    rw [(t.born h1.symm).2.1] at h2
    cases h2
  | some x =>
    have hx : h.masterRef m = x := by simp [LinkHub.masterRef, hr]
    have hobj : (LinkHub.ensured h id m).obj x = h.obj x := by
      unfold LinkHub.ensured
      rw [Registry.obj_ensure_of_lt (lt_of_lt_of_le (Registry.ref?_lt hr) Registry.next_le_ensure),
        Registry.obj_ensure_of_lt (Registry.ref?_lt hr)]
    rw [hx, hobj, hl0, hr]
    rcases t.first (hl0.trans hr) with h1 | ⟨-, h2, h3⟩
    · rw [t.conn h1, t.counter h1, t.sorted h1, h1]
      cases g.conn <;> cases g.sorted <;> simp
    · rw [h3, if_neg (by simp), if_neg]
      rintro ⟨h1, -⟩
      exact h2 0 h1.symm

end Add

/-! ## `RemoveAll` -/

/-- `RemoveAll` of the master keeps the session tracked. -/
theorem removeAll {m : KSUID} (t : Tracks ids c g h) (hm : ids[0]? = some m) :
    Tracks ids c g (LinkHub.removeAll h m) := by
  cases hq : h.ref? m with
  | none => rw [LinkHub.removeAll_missing hq]; exact t
  | some q =>
    have hl0 : h.lane ids 0 = some q := by simp [LinkHub.lane, hm, hq]
    -- a registered lane is one that was registered and is not removed
    have hlane : ∀ {k r}, (LinkHub.removeAll h m).lane ids k = some r → h.lane ids k = some r ∧
        ∀ id, ids[k]? = some id → id ∉ m :: (h.obj q).sorted := by
      intro k r hr
      unfold LinkHub.lane at hr ⊢
      obtain ⟨id, hid, hr⟩ := Option.bind_eq_some_iff.mp hr
      rw [LinkHub.ref?_removeAll hq] at hr
      split_ifs at hr with hd
      refine ⟨by rw [hid]; exact hr, ?_⟩
      intro id' hid'
      rw [hid] at hid'
      cases hid'
      simpa using hd
    have hmeta : ∀ r, ((LinkHub.removeAll h m).obj r).sorted = (h.obj r).sorted ∧
        ((LinkHub.removeAll h m).obj r).conn = (h.obj r).conn ∧
        ((LinkHub.removeAll h m).obj r).counter = (h.obj r).counter := by
      intro r
      rw [LinkHub.obj_removeAll hq]
      split_ifs <;> simp
    constructor
    case link_lt => intro k r hr; rw [LinkHub.next_removeAll]; exact t.link_lt hr
    case link_inj => exact t.link_inj
    case unborn =>
      intro k hk
      by_contra hne
      obtain ⟨r, hr⟩ := Option.ne_none_iff_exists'.mp hne
      exact absurd ((hlane hr).1.symm.trans (t.unborn hk)) (by simp)
    case born => exact t.born
    case counted_link => exact t.counted_link
    case first =>
      intro k r hr
      rw [(hmeta r).2.1]
      exact t.first (hlane hr).1
    case live =>
      intro hl
      have h0 : (LinkHub.removeAll h m).lane ids 0 = none := by
        simp [LinkHub.lane, hm, LinkHub.ref?_removeAll hq]
      rw [h0] at hl
      exact absurd (hl0.symm.trans (t.unborn hl.symm)) (by simp)
    case open_iff =>
      intro k r hr
      rw [LinkHub.obj_removeAll hq]
      split_ifs with hd
      · rw [Link.closed_close (t.status_close hr)]
        simp only [Bool.true_eq_false, false_iff]
        intro hl
        obtain ⟨hl1, hl2⟩ := hlane hl
        obtain ⟨id, hid, hidr⟩ := hd
        obtain ⟨id', hid', hr'⟩ := Option.bind_eq_some_iff.mp hl1
        exact hl2 id' hid' (Registry.ref?_inj hidr hr' ▸ hid)
      · rw [t.open_iff hr]
        refine ⟨?_, fun hl => (hlane hl).1⟩
        intro hl
        obtain ⟨id, hid, hr'⟩ := Option.bind_eq_some_iff.mp hl
        simp only [LinkHub.lane, hid, Option.bind_some, LinkHub.ref?_removeAll hq]
        rw [if_neg, hr']
        intro hmem
        exact hd ⟨id, by simpa using hmem, hr'⟩
    case status_close =>
      intro k r hr
      rw [LinkHub.obj_removeAll hq]
      split_ifs
      · intro _; exact Link.closed_close (t.status_close hr)
      · exact t.status_close hr
    case sorted => intro r hr; rw [(hmeta r).1]; exact t.sorted hr
    case conn => intro r hr; rw [(hmeta r).2.1]; exact t.conn hr
    case counter => intro r hr; rw [(hmeta r).2.2]; exact t.counter hr

end Tracks

end Wssocks.Pipe

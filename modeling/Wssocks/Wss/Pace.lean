import Wssocks.Wss.Traffic

/-!
# No `Send` spins

A pass of the outer loop of `Send` over an empty `sorted` reads nothing and blocks nowhere.

Results:

* `empty_est_spins`: an `est` with an empty list makes both `Send`s of its id spin.
* `sends_read_every_pass`: if every `est` has a non-empty list, no id of an `est` is also
  announced as a lane of another master, and entry tests are fair, then every pass of every
  `Send` of the server finds something to read from.
-/

namespace Wssocks.Pipe

open Wssocks.Lib

/-! ## Queues -/

section Queues

variable {KSUID V : Type} [DecidableEq KSUID]

/-- Every queue has a writer or an order, and where a goroutine was launched it has an order. -/
structure Queues.Fed (s : Queues KSUID V) : Prop where
  unborn : ∀ q, s.hub.next ≤ q → s.sends q = []
  given : ∀ q < s.hub.next, (s.hub.obj q).writers.entries ≠ [] ∨ (s.hub.obj q).sorted ≠ []
  run : ∀ q, s.sends q ≠ [] → (s.hub.obj q).sorted ≠ []

variable {s s' : Queues KSUID V} {m id : KSUID}

theorem Queues.Fed.init [Inhabited KSUID] : (Queues.init : Queues KSUID V).Fed :=
  ⟨fun _ _ => rfl, nofun, fun _ h => absurd rfl h⟩

theorem Queues.Fed.trySend (h : s.Fed) : (s.trySend m).Fed := by
  -- a launch finds as many writers as ids in the order
  have hl : ∀ q, QueueHub.trySend s.hub m = some q → (s.hub.obj q).sorted ≠ [] := by
    intro q hq hnil
    have hlt := QueueHub.trySend_lt hq
    unfold QueueHub.trySend at hq
    split at hq
    · cases hq
    · split_ifs at hq with hlen
      cases hq
      rw [hnil] at hlen
      rcases h.given q hlt with h1 | h1
      · exact h1 (List.eq_nil_of_length_eq_zero hlen)
      · exact h1 hnil
  refine ⟨fun q hq => ?_, ?_, fun q hq => ?_⟩
  · rw [Queues.hub_trySend] at hq
    rw [Queues.trySend, Queues.sends_launch, if_neg, h.unborn q hq]
    intro h1
    have := QueueHub.trySend_lt h1
    omega
  · rw [Queues.hub_trySend]; exact h.given
  · rw [Queues.hub_trySend]
    rw [Queues.trySend, Queues.sends_launch] at hq
    split_ifs at hq with h1
    · exact hl q h1
    · exact h.run q hq

theorem Queues.Fed.add {w : V} (h : s.Fed) : (s.add m id w).Fed := by
  have hnext : s.hub.next ≤ (QueueHub.add s.hub m id w).next := by
    rw [QueueHub.add_eq]; exact Registry.next_le_ensure
  refine Queues.Fed.trySend ⟨fun q hq => h.unborn q (hnext.trans hq), fun q hq => ?_, fun q hq => ?_⟩
  · rw [QueueHub.obj_add]
    split_ifs with h1 h2
    · exact .inl (by simp [AList.insert])
    · exact .inl (by simp [AList.insert])
    · refine h.given q ?_
      -- the only new queue is the master's
      replace hq : q < (QueueHub.add s.hub m id w).next := hq
      rw [QueueHub.add_eq, Registry.next_modify, Registry.next_ensure] at hq
      split_ifs at hq with h2
      · exact hq
      · have hnone : s.hub.ref? m = none := by simpa using h2
        rw [QueueHub.masterRef, hnone] at h1
        have h3 : q ≠ s.hub.next := h1
        omega
  · have hlt : q < s.hub.next := by
      by_contra h1
      exact hq (h.unborn q (not_lt.mp h1))
    have h2 := h.run q hq
    rw [QueueHub.obj_add]
    split_ifs with h3 h4
    · rw [h3, QueueHub.masterRef, h4] at hlt
      exact absurd hlt (lt_irrefl _)
    · exact h2
    · exact h2

theorem Queues.Fed.setSort {sort : List KSUID} (h : s.Fed) (hs : sort ≠ []) : (s.setSort m sort).Fed := by
  cases hm : s.hub.ref? m with
  | some a =>
    rw [Queues.setSort_eq hm]
    have hobj : ∀ q, ((s.hub.modify a fun x => { x with sorted := sort }).obj q) =
        if q = a then { s.hub.obj a with sorted := sort } else s.hub.obj q := fun q => Registry.obj_modify
    refine ⟨h.unborn, fun q hq => ?_, fun q hq => ?_⟩
    · rw [Queues.modify, hobj]
      split_ifs
      · exact .inr hs
      · exact h.given q hq
    · rw [Queues.modify, hobj]
      split_ifs
      · exact hs
      · exact h.run q hq
  | none =>
    have he : (s.setSort m sort).hub = s.hub.create m { newQueue m with sorted := sort } := by
      simp only [Queues.setSort, QueueHub.setSort, hm]
    refine ⟨fun q hq => ?_, fun q hq => ?_, fun q hq => ?_⟩
    · rw [he, Registry.next_create] at hq
      exact h.unborn q (by omega)
    · rw [he, Registry.next_create] at hq
      rw [he, Registry.obj_create]
      split_ifs with h1
      · exact .inr hs
      · exact h.given q (by omega)
    · rw [he, Registry.obj_create]
      split_ifs
      · exact hs
      · exact h.run q hq

theorem Queues.Fed.remove (h : s.Fed) : (s.remove m).Fed := by
  have hobj : ∀ q, ((s.remove m).hub.obj q).writers = (s.hub.obj q).writers ∧
      ((s.remove m).hub.obj q).sorted = (s.hub.obj q).sorted := by
    intro q
    show ((QueueHub.remove s.hub m).obj q).writers = _ ∧ ((QueueHub.remove s.hub m).obj q).sorted = _
    rw [QueueHub.obj_remove]
    split_ifs <;> simp
  have hnext : (s.remove m).hub.next = s.hub.next := QueueHub.next_remove
  refine ⟨by rw [hnext]; exact h.unborn, fun q hq => ?_, fun q hq => ?_⟩
  · rw [(hobj q).1, (hobj q).2]; exact h.given q (hnext ▸ hq)
  · rw [(hobj q).2]; exact h.run q hq

theorem Queues.Fed.ran (h : s.Fed) (hr : Queues.Ran s s') : s'.Fed := by
  have hnil : ∀ q, s'.sends q = [] ↔ s.sends q = [] := fun q => by
    rw [← List.length_eq_zero_iff, hr.length_sends, List.length_eq_zero_iff]
  obtain ⟨r, u, hu, -, -, hw, hso⟩ := hr.touched
  have hobj : ∀ q, (s'.hub.obj q).writers = (s.hub.obj q).writers ∧
      (s'.hub.obj q).sorted = (s.hub.obj q).sorted := by
    intro q
    rw [hu, Registry.obj_modify]
    split_ifs with h1
    · rw [hw, hso, h1]; exact ⟨rfl, rfl⟩
    · exact ⟨rfl, rfl⟩
  have hnext : s'.hub.next = s.hub.next := by rw [hu]; rfl
  refine ⟨fun q hq => ?_, fun q hq => ?_, fun q hq => ?_⟩
  · rw [hnil]; exact h.unborn q (hnext ▸ hq)
  · rw [(hobj q).1, (hobj q).2]; exact h.given q (hnext ▸ hq)
  · rw [(hobj q).2]; exact h.run q (mt (hnil q).mpr hq)

end Queues

/-! ## Links -/

section Links

variable {KSUID : Type} [DecidableEq KSUID]

/-- The link of every id in `M` has counted a lane or has an order, and where a goroutine
    was launched there is an order. -/
structure Links.Fed (M : KSUID → Prop) (s : Links KSUID) : Prop where
  unborn : ∀ r, s.hub.next ≤ r → s.sends r = []
  given : ∀ {k r}, M k → s.hub.ref? k = some r → 0 < (s.hub.obj r).counter ∨ (s.hub.obj r).sorted ≠ []
  run : ∀ r, s.sends r ≠ [] → (s.hub.obj r).sorted ≠ []

variable {M : KSUID → Prop} {s s' : Links KSUID} {m id : KSUID}

theorem Links.Fed.init [Inhabited KSUID] : (Links.init : Links KSUID).Fed M :=
  ⟨fun _ _ => rfl, by simp [Links.init], fun _ h => absurd rfl h⟩

/-- A launch on a link that has an order. -/
theorem Links.Fed.launch {o : Option ℕ} (h : s.Fed M) (hlt : ∀ r, o = some r → r < s.hub.next)
    (ho : ∀ r, o = some r → (s.hub.obj r).sorted ≠ []) : (s.launch o).Fed M := by
  refine ⟨fun r hr => ?_, ?_, fun r hr => ?_⟩
  · rw [Links.hub_launch] at hr
    rw [Links.sends_launch, if_neg, h.unborn r hr]
    intro h1
    have := hlt r h1
    omega
  · rw [Links.hub_launch]; exact h.given
  · rw [Links.hub_launch]
    rw [Links.sends_launch] at hr
    split_ifs at hr with h1
    · exact ho r h1
    · exact h.run r hr

theorem Links.Fed.add (h : s.Fed M) (hm : M id → id = m) : (s.add id m).Fed M := by
  have hmr : (LinkHub.add s.hub id m).1.ref? m = some (s.hub.masterRef m) := by
    rw [LinkHub.ref?_add, if_pos rfl]
  have hold : ∀ r < s.hub.next, ((LinkHub.add s.hub id m).1.obj r).sorted = (s.hub.obj r).sorted :=
    fun r hr => Tracks.sorted_add_of_lt hr
  have hfed : Links.Fed M { s with hub := (LinkHub.add s.hub id m).1 } := by
    refine ⟨fun r hr => h.unborn r (LinkHub.next_le_add.trans hr), fun {k r} hk hr => ?_, fun r hr => ?_⟩
    · replace hr : (LinkHub.add s.hub id m).1.ref? k = some r := hr
      show 0 < ((LinkHub.add s.hub id m).1.obj r).counter ∨ ((LinkHub.add s.hub id m).1.obj r).sorted ≠ []
      by_cases hkm : k = m
      · -- the master has counted this lane
        rw [hkm, hmr] at hr
        cases hr
        by_cases hlt : s.hub.masterRef m < s.hub.next
        · rw [LinkHub.obj_add_of_lt hlt, if_pos rfl]
          exact .inl (Nat.succ_pos _)
        · rw [Tracks.obj_add_new (not_lt.mp hlt) (Registry.ref?_lt hmr), if_pos rfl]
          exact .inl Nat.one_pos
      · have hid : k ≠ id := fun h1 => hkm (h1.trans (hm (h1 ▸ hk)))
        rw [LinkHub.ref?_add, if_neg hkm, if_neg hid] at hr
        have hne : r ≠ s.hub.masterRef m := fun h1 =>
          hkm (Registry.ref?_inj (by rw [LinkHub.ref?_add, if_neg hkm, if_neg hid, hr, h1]) hmr)
        rw [LinkHub.obj_add_of_lt (Registry.ref?_lt hr), if_neg hne]
        exact h.given hk hr
    · have hlt : r < s.hub.next := by
        by_contra h1
        exact hr (h.unborn r (not_lt.mp h1))
      show ((LinkHub.add s.hub id m).1.obj r).sorted ≠ []
      rw [hold r hlt]
      exact h.run r hr
  refine hfed.launch (fun r hr => ?_) fun r hr => ?_
  · rw [LinkHub.add_launch] at hr
    split_ifs at hr
    cases hr
    exact Registry.ref?_lt hmr
  · rw [LinkHub.add_launch] at hr
    split_ifs at hr with hc
    cases hr
    -- the counter has just been incremented
    show ((LinkHub.add s.hub id m).1.obj (s.hub.masterRef m)).sorted ≠ []
    intro hnil
    have hs : ((LinkHub.ensured s.hub id m).obj (s.hub.masterRef m)).sorted = [] := by
      rw [LinkHub.add_hub, Registry.obj_modify_self] at hnil
      exact hnil
    rw [hs] at hc
    exact absurd hc.2 (Nat.succ_ne_zero _)

theorem Links.Fed.setSort {sort : List KSUID} (h : s.Fed M) (hs : sort ≠ []) : (s.setSort m sort).Fed M := by
  cases hm : s.hub.ref? m with
  | some a =>
    rw [Links.setSort_eq hm]
    refine ⟨h.unborn, fun {k r} hk hr => ?_, fun r hr => ?_⟩
    · rw [Links.hub_modify, Registry.obj_modify]
      split_ifs
      · exact .inr hs
      · exact h.given hk hr
    · rw [Links.hub_modify, Registry.obj_modify]
      split_ifs
      · exact hs
      · exact h.run r hr
  | none =>
    have he : (s.setSort m sort).hub = s.hub.create m { newLink m with sorted := sort } := by
      simp only [Links.setSort, LinkHub.setSort, hm]
    refine ⟨fun r hr => ?_, fun {k r} hk hr => ?_, fun r hr => ?_⟩
    · rw [he, Registry.next_create] at hr
      exact h.unborn r (by omega)
    · rw [he, Registry.ref?_create] at hr
      rw [he, Registry.obj_create]
      split_ifs with h1
      · exact .inr hs
      · split_ifs at hr with h2
        · cases hr; exact absurd rfl h1
        · exact h.given hk hr
    · rw [he, Registry.obj_create]
      split_ifs
      · exact hs
      · exact h.run r hr

theorem Links.Fed.trySend {c : ℕ} (h : s.Fed M) (hk : M m) : (s.trySend m c).Fed M := by
  cases hm : s.hub.ref? m with
  | none =>
    have he : s.trySend m c = s := by
      rw [Links.trySend, LinkHub.trySend_missing hm]; rfl
    rw [he]
    exact h
  | some a =>
    rw [Links.trySend_eq hm]
    have hobj : ∀ r, ((s.hub.modify a fun x => { x with conn := some c }).obj r).sorted =
        (s.hub.obj r).sorted ∧ ((s.hub.modify a fun x => { x with conn := some c }).obj r).counter =
        (s.hub.obj r).counter := by
      intro r
      rw [Registry.obj_modify]
      split_ifs with h1
      · rw [h1]; exact ⟨rfl, rfl⟩
      · exact ⟨rfl, rfl⟩
    refine Links.Fed.launch ⟨h.unborn, fun {k r} h1 h2 => ?_, fun r hr => ?_⟩ (fun r hr => ?_) fun r hr => ?_
    · rw [Links.hub_modify, (hobj r).1, (hobj r).2]; exact h.given h1 h2
    · rw [Links.hub_modify, (hobj r).1]; exact h.run r hr
    · split_ifs at hr
      cases hr
      exact Registry.ref?_lt hm
    · split_ifs at hr with hlen
      cases hr
      rw [Links.hub_modify, (hobj a).1]
      rcases h.given hk hm with h1 | h1
      · rw [hlen] at h1
        exact List.length_pos_iff.mp h1
      · exact h1

theorem Links.Fed.removeAll (h : s.Fed M) : (s.removeAll m).Fed M := by
  cases hm : s.hub.ref? m with
  | none =>
    have he : s.removeAll m = s := by rw [Links.removeAll, LinkHub.removeAll_missing hm]
    rw [he]
    exact h
  | some a =>
    have hobj : ∀ r, ((s.removeAll m).hub.obj r).sorted = (s.hub.obj r).sorted ∧
        ((s.removeAll m).hub.obj r).counter = (s.hub.obj r).counter := by
      intro r
      show ((LinkHub.removeAll s.hub m).obj r).sorted = _ ∧ ((LinkHub.removeAll s.hub m).obj r).counter = _
      rw [LinkHub.obj_removeAll hm]
      split_ifs <;> simp
    refine ⟨fun r hr => h.unborn r (LinkHub.next_removeAll (h := s.hub) ▸ hr), fun {k r} hk hr => ?_,
      fun r hr => ?_⟩
    · replace hr : (LinkHub.removeAll s.hub m).ref? k = some r := hr
      rw [LinkHub.ref?_removeAll hm] at hr
      split_ifs at hr
      rw [(hobj r).1, (hobj r).2]
      exact h.given hk hr
    · rw [(hobj r).1]; exact h.run r hr

theorem Links.Fed.ran (h : s.Fed M) (hr : Links.Ran s s') : s'.Fed M := by
  have hnil : ∀ q, s'.sends q = [] ↔ s.sends q = [] := fun q => by
    rw [← List.length_eq_zero_iff, hr.length_sends, List.length_eq_zero_iff]
  obtain ⟨a, u, hu, -, -, hso, -, hcn⟩ := hr.touched
  have hobj : ∀ r, (s'.hub.obj r).sorted = (s.hub.obj r).sorted ∧
      (s'.hub.obj r).counter = (s.hub.obj r).counter := by
    intro r
    rw [hu, Registry.obj_modify]
    split_ifs with h1
    · rw [hso, hcn, h1]; exact ⟨rfl, rfl⟩
    · exact ⟨rfl, rfl⟩
  have hnext : s'.hub.next = s.hub.next := by rw [hu]; rfl
  refine ⟨fun r hr => ?_, fun {k r} hk hr => ?_, fun r hr => ?_⟩
  · rw [hnil]; exact h.unborn r (hnext ▸ hr)
  · rw [(hobj r).1, (hobj r).2]
    refine h.given hk ?_
    rw [hu] at hr
    exact hr
  · rw [(hobj r).1]; exact h.run r (mt (hnil r).mpr hr)

/-- A link that is registered is open. -/
def Links.Open (s : Links KSUID) : Prop := ∀ k r, s.hub.ref? k = some r → (s.hub.obj r).buffer.closed = false

theorem Links.Open.add (h : s.Open) : (s.add id m).Open := by
  intro k r hr
  rw [Links.add, Links.hub_launch] at hr ⊢
  by_cases hlt : r < s.hub.next
  · rw [Tracks.buffer_add_of_lt hlt]
    rw [LinkHub.ref?_add] at hr
    -- an old link keeps its key
    have hold : ∀ {x y}, (s.hub.ref? x).getD y = r → s.hub.next ≤ y → s.hub.ref? x = some r := by
      intro x y h1 h2
      cases hx : s.hub.ref? x with
      | none => rw [hx] at h1; exact absurd hlt (by rw [← h1]; exact not_lt.mpr h2)
      | some a => rw [hx] at h1; exact congrArg some h1
    split_ifs at hr with h1 h2
    · exact h m r (hold (Option.some.inj hr) le_rfl)
    · exact h id r (hold (Option.some.inj hr) Registry.next_le_ensure)
    · exact h k r hr
  · rw [Tracks.obj_add_new (not_lt.mp hlt) (Registry.ref?_lt hr)]
    rfl

theorem Links.Open.setSort {sort : List KSUID} (h : s.Open) : (s.setSort m sort).Open := by
  intro k r hr
  replace hr : (LinkHub.setSort s.hub m sort).ref? k = some r := hr
  show ((LinkHub.setSort s.hub m sort).obj r).buffer.closed = false
  cases hm : s.hub.ref? m with
  | some a =>
    simp only [LinkHub.setSort, hm] at hr ⊢
    rw [Registry.obj_modify]
    split_ifs with h1
    · exact h1 ▸ h k r hr
    · exact h k r hr
  | none =>
    simp only [LinkHub.setSort, hm, Registry.ref?_create] at hr ⊢
    rw [Registry.obj_create]
    split_ifs with h1
    · rfl
    · split_ifs at hr with h2
      · cases hr; exact absurd rfl h1
      · exact h k r hr

theorem Links.Open.touched {a : ℕ} (h : s.Open) (ht : Links.Touched s.hub s'.hub a) : s'.Open := by
  obtain ⟨u, hu, hcl, -⟩ := ht
  intro k r hr
  rw [hu] at hr ⊢
  rw [Registry.obj_modify]
  split_ifs with h1
  · rw [hcl, ← h1]; exact h k r hr
  · exact h k r hr

theorem Links.Open.trySend {c : ℕ} (h : s.Open) : (s.trySend m c).Open := by
  intro k r hr
  rw [Links.trySend, Links.hub_launch] at hr ⊢
  rw [LinkHub.ref?_trySend] at hr
  cases hm : s.hub.ref? m with
  | none => rw [LinkHub.trySend_missing hm]; exact h k r hr
  | some a =>
    rw [LinkHub.trySend_some_hub hm, Registry.obj_modify]
    split_ifs with h1
    · exact h1 ▸ h k r hr
    · exact h k r hr

/-- What `RemoveAll` closes it takes out of the map. -/
theorem Links.Open.removeAll (h : s.Open) : (s.removeAll m).Open := by
  intro k r hr
  replace hr : (LinkHub.removeAll s.hub m).ref? k = some r := hr
  show ((LinkHub.removeAll s.hub m).obj r).buffer.closed = false
  cases hm : s.hub.ref? m with
  | none => rw [LinkHub.removeAll_missing hm] at hr ⊢; exact h k r hr
  | some a =>
    rw [LinkHub.ref?_removeAll hm] at hr
    split_ifs at hr with hk
    rw [LinkHub.obj_removeAll hm, if_neg]
    · exact h k r hr
    · rintro ⟨x, hx, hxr⟩
      rw [Registry.ref?_inj hxr hr] at hx
      exact hk (List.mem_cons.mp hx)

end Links

end Wssocks.Pipe

namespace Wssocks.Wss

open Wssocks.Lib Wssocks.Pipe

variable {W KSUID : Type} [DecidableEq W] [DecidableEq KSUID]

/-! ## The server -/

/-- A `Send` at the head of its loop either ends it now, or starts a pass on an open pipe that
    reads at least once; the links a merger looks up are open. -/
structure Server.Paced (s : Server W KSUID) : Prop where
  queues : ∀ q i : ℕ, (s.queues.sends q)[i]? = some .loop → (s.queues.hub.obj q).status = .close ∨
    ((s.queues.hub.obj q).sorted ≠ [] ∧ (s.queues.hub.obj q).buffer.closed = false)
  links : ∀ q i : ℕ, (s.links.sends q)[i]? = some .loop → (s.links.hub.obj q).status = .close ∨
    ((s.links.hub.obj q).sorted ≠ [] ∧ (s.links.hub.obj q).buffer.closed = false)
  lanes : s.links.Open

/-- A message of a client that gives every session an order, and none of whose masters, the ids in
    `M`, is a lane of another master. -/
def Ordered (M : KSUID → Prop) : Msg KSUID → Prop
  | .sayhi id m => M id → id = m
  | .est id sorted => M id ∧ sorted ≠ []
  | _ => True

variable {s s' : Server W KSUID} {l : Traffic W KSUID} {ls : List (Traffic W KSUID)} {M : KSUID → Prop}

/-- What every step keeps. -/
structure Feeding (M : KSUID → Prop) (s : Server W KSUID) : Prop where
  known : Known (Ordered M) s
  queues : s.queues.Fed
  links : s.links.Fed M
  lanes : s.links.Open

omit [DecidableEq W] in
theorem Feeding.init [Inhabited KSUID] [Inhabited W] : Feeding M (Server.init : Server W KSUID) :=
  ⟨Known.init, Queues.Fed.init, Links.Fed.init, by intro k r hr; simp [Server.init, Links.init] at hr⟩

omit [DecidableEq W] in
theorem Feeding.queues_did {q' : Queues KSUID (WsWriter W KSUID)} {o : Option (HubOp W KSUID)}
    (h : s.queues.Fed) (ho : ∀ x, o = some x → x.Allowed (Ordered M)) (hd : QueuesDid s.queues q' o) :
    q'.Fed := by
  cases o with
  | none => exact h.ran hd
  | some x =>
    cases x with
    | queueAdd m id w => exact hd ▸ h.add
    | queueSort m sort => exact hd ▸ h.setSort (ho _ rfl).2
    | queueTry m => exact hd ▸ h.trySend
    | queueRemove m => exact hd ▸ h.remove
    | _ => exact h.ran hd

omit [DecidableEq W] in
theorem Feeding.links_did {k' : Links KSUID} {o : Option (HubOp W KSUID)} (h : s.links.Fed M)
    (hopen : s.links.Open) (ho : ∀ x, o = some x → x.Allowed (Ordered M)) (hd : LinksDid s.links k' o) :
    k'.Fed M ∧ k'.Open := by
  have hran : Links.Ran s.links k' → k'.Fed M ∧ k'.Open := by
    intro hr
    obtain ⟨a, ht⟩ := hr.touched
    exact ⟨h.ran hr, hopen.touched ht⟩
  cases o with
  | none => exact hran hd
  | some x =>
    cases x with
    | linkAdd id m => exact hd ▸ ⟨h.add (ho _ rfl), hopen.add⟩
    | linkSort m sort => exact hd ▸ ⟨h.setSort (ho _ rfl).2, hopen.setSort⟩
    | linkTry m c =>
      obtain ⟨so, hso⟩ := ho _ rfl
      exact hd ▸ ⟨h.trySend hso.1, hopen.trySend⟩
    | linkRemove m => exact hd ▸ ⟨h.removeAll, hopen.removeAll⟩
    | _ => exact hran hd

theorem Feeding.step (h : Feeding M s) (hl : ∀ w x, l = .arrive w x → Ordered M x)
    (hs : s.serve l = some s') : Feeding M s' := by
  have hk := h.known.step hl hs
  cases l with
  | arrive w x => cases hs; exact ⟨hk, h.queues, h.links, h.lanes⟩
  | act a =>
    obtain ⟨out, h1⟩ := Server.serve_act hs
    obtain ⟨hq, hd⟩ := Server.did_of_step h1
    have ho : ∀ x, s.op a = some x → x.Allowed (Ordered M) := fun x hx => h.known.allowed h1 hx
    obtain ⟨h2, h3⟩ := Feeding.links_did h.links h.lanes ho hd
    exact ⟨hk, Feeding.queues_did h.queues ho hq, h2, h3⟩

omit [DecidableEq KSUID] in
/-- At the head of its loop, a body on a pipe that lives by the law. -/
theorem Life.at_loop {S : Type} {x : Mark} {pcs : List (SendPc KSUID S)} (h : Life x pcs)
    (hpc : .loop ∈ pcs) : x.status = .close ∨ x.closed = false := by
  rcases h.running _ hpc rfl with h1 | h1
  · right
    by_contra hc
    rcases h.closed (by simpa using hc) with h2 | h2 <;> rw [h1] at h2 <;> cases h2
  · exact .inl h1

/-- In every run in which each `est` has a non-empty list and its id is announced as no lane of
    another master, and entry tests are fair, every pass of every `Send` reads. -/
theorem sends_read_every_pass [Inhabited KSUID] [Inhabited W]
    (h : Run Server.serve (fun s l => l.fair s) (Server.init : Server W KSUID) ls s)
    (hm : ∀ w id sorted, .arrive w (.est id sorted) ∈ ls →
      sorted ≠ [] ∧ ∀ v m, .arrive v (.sayhi id m) ∈ ls → id = m) : s.Paced := by
  have hq := Server.queues_alive h
  have hk := Server.links_alive h
  let M : KSUID → Prop := fun id => ∃ w sorted, Traffic.arrive w (.est id sorted) ∈ ls
  -- along the run only messages of `ls` arrive
  have hord : ∀ w x, Traffic.arrive w x ∈ ls → Ordered M x := by
    intro w x hx
    cases x with
    | sayhi id m =>
      rintro ⟨v, sorted, hv⟩
      exact (hm v id sorted hv).2 w m hx
    | est id sorted => exact ⟨⟨w, sorted, hx⟩, (hm w id sorted hx).1⟩
    | _ => trivial
  have hfeed : (∀ x ∈ ls, ∀ w y, x = .arrive w y → Ordered M y) → Feeding M s := by
    refine h.trace_invariant (I := fun t s => (∀ x ∈ t, ∀ w y, x = .arrive w y → Ordered M y) → Feeding M s)
      (fun _ => Feeding.init) fun t a l b ih _ hs hall => ?_
    exact (ih fun x hx => hall x (List.mem_append_left _ hx)).step
      (hall l (List.mem_append_right _ (List.mem_singleton_self l))) hs
  have hf := hfeed fun x hx w y hy => hord w y (hy ▸ hx)
  refine ⟨fun q i hi => ?_, fun q i hi => ?_, hf.lanes⟩
  · have hne : s.queues.sends q ≠ [] := by rintro h1; rw [h1] at hi; simp at hi
    rcases Life.at_loop (hq.life q (lt_of_unborn hq.unborn hi)) (List.mem_of_getElem? hi) with h1 | h1
    · exact .inl h1
    · exact .inr ⟨hf.queues.run q hne, h1⟩
  · have hne : s.links.sends q ≠ [] := by rintro h1; rw [h1] at hi; simp at hi
    rcases Life.at_loop (hk.life q (lt_of_unborn hk.unborn hi)) (List.mem_of_getElem? hi) with h1 | h1
    · exact .inl h1
    · exact .inr ⟨hf.links.run q hne, h1⟩

/-! ## Spinning -/

/-- A pass of `queue.Send` over an empty order: two steps that change nothing. -/
theorem queue_spins {q i : ℕ} (hcr : s.crashed = false ∧ s.queues.crashed = false ∧ s.links.crashed = false)
    (hi : (s.queues.sends q)[i]? = some .loop) (hst : (s.queues.hub.obj q).status ≠ .close)
    (hs : (s.queues.hub.obj q).sorted = []) (k : ℕ) :
    ∃ s', Run Server.serve anyStep s (List.replicate (2 * k) (.act (.queueSend q i .ok))) s' ∧
      s'.queues.hub = s.queues.hub ∧ (s'.queues.sends q)[i]? = some .loop ∧
      s'.crashed = false ∧ s'.queues.crashed = false ∧ s'.links.crashed = false := by
  induction k with
  | zero => exact ⟨s, .nil s, rfl, hi, hcr⟩
  | succ k ih =>
    obtain ⟨a, hr, hhub, hloop, h1, h2, h3⟩ := ih
    have hlt : i < (a.queues.sends q).length := (List.getElem?_eq_some_iff.mp hloop).1
    let b : Server W KSUID := { a with queues := a.queues.goto q i (.pass []) }
    have hb : (b.queues.sends q)[i]? = some (.pass []) := by
      rw [Queues.sends_goto_self, List.getElem?_set_self hlt]
    have hab : a.serve (.act (.queueSend q i .ok)) = some b := by
      have hsend : a.queues.send q i .ok = some (a.queues.goto q i (.pass []), none) := by
        simp [Queues.send, hloop, hhub, hst, hs]
      exact (ServerStep.queueSend hsend).serve h1 h2 h3
    let c : Server W KSUID := { b with queues := b.queues.goto q i .loop }
    have hbc : b.serve (.act (.queueSend q i .ok)) = some c := by
      have hsend : b.queues.send q i .ok = some (b.queues.goto q i .loop, none) := by simp [Queues.send, hb]
      exact (ServerStep.queueSend hsend).serve h1 h2 h3
    refine ⟨c, ?_, hhub, ?_, h1, h2, h3⟩
    · rw [Nat.mul_succ, List.replicate_add]
      exact hr.trans (.snoc (.snoc (.nil a) trivial hab) trivial hbc)
    · have hltb : i < (b.queues.sends q).length := (List.getElem?_eq_some_iff.mp hb).1
      rw [Queues.sends_goto_self, List.getElem?_set_self hltb]

/-- The same for `link.Send`. -/
theorem link_spins {q i : ℕ} (hcr : s.crashed = false ∧ s.queues.crashed = false ∧ s.links.crashed = false)
    (hi : (s.links.sends q)[i]? = some .loop) (hst : (s.links.hub.obj q).status ≠ .close)
    (hs : (s.links.hub.obj q).sorted = []) (k : ℕ) :
    ∃ s', Run Server.serve anyStep s (List.replicate (2 * k) (.act (.linkSend q i .ok))) s' ∧
      s'.links.hub = s.links.hub ∧ (s'.links.sends q)[i]? = some .loop ∧
      s'.crashed = false ∧ s'.queues.crashed = false ∧ s'.links.crashed = false := by
  induction k with
  | zero => exact ⟨s, .nil s, rfl, hi, hcr⟩
  | succ k ih =>
    obtain ⟨a, hr, hhub, hloop, h1, h2, h3⟩ := ih
    have hlt : i < (a.links.sends q).length := (List.getElem?_eq_some_iff.mp hloop).1
    let b : Server W KSUID := { a with links := a.links.goto q i (.pass []) }
    have hb : (b.links.sends q)[i]? = some (.pass []) := by
      rw [Links.sends_goto_self, List.getElem?_set_self hlt]
    have hab : a.serve (.act (.linkSend q i .ok)) = some b := by
      have hsend : a.links.send q i .ok = some (a.links.goto q i (.pass [])) := by
        simp [Links.send, hloop, hhub, hst, hs]
      exact (ServerStep.linkSend hsend).serve h1 h2 h3
    let c : Server W KSUID := { b with links := b.links.goto q i .loop }
    have hbc : b.serve (.act (.linkSend q i .ok)) = some c := by
      have hsend : b.links.send q i .ok = some (b.links.goto q i .loop) := by simp [Links.send, hb]
      exact (ServerStep.linkSend hsend).serve h1 h2 h3
    refine ⟨c, ?_, hhub, ?_, h1, h2, h3⟩
    · rw [Nat.mul_succ, List.replicate_add]
      exact hr.trans (.snoc (.snoc (.nil a) trivial hab) trivial hbc)
    · have hltb : i < (b.links.sends q).length := (List.getElem?_eq_some_iff.mp hb).1
      rw [Links.sends_goto_self, List.getElem?_set_self hltb]

/-- The handshake of the session `7` on websocket `0`, with the order `sorted`, up to the entry tests of
    both `Send`s. -/
def quickSession (hi : List (Traffic ℕ ℕ)) (sorted : List ℕ) : List (Traffic ℕ ℕ) :=
  hi ++ [Traffic.arrive 0 (.est 7 sorted), .act (.recv 0), .act (.reader 0), .act (.dial 0 .connected),
    .act (.est 0), .act (.est 0), .act (.est 0), .act (.queueSend 0 0 .ok), .act (.linkSend 0 0 .ok)]

/-- Both `Send`s are at the head of their loops, with the order `sorted`. -/
def AtHeads (sorted : List ℕ) (s : Server ℕ ℕ) : Prop :=
  (s.crashed = false ∧ s.queues.crashed = false ∧ s.links.crashed = false) ∧
  ((s.queues.sends 0)[0]? = some .loop ∧ (s.queues.hub.obj 0).status = .send ∧
    (s.queues.hub.obj 0).sorted = sorted) ∧
  (s.links.sends 0)[0]? = some .loop ∧ (s.links.hub.obj 0).status = .send ∧
    (s.links.hub.obj 0).sorted = sorted

instance (sorted : List ℕ) (s : Server ℕ ℕ) : Decidable (AtHeads sorted s) := by
  unfold AtHeads; infer_instance

set_option maxRecDepth 100000 in
/-- An `est` with an empty list, without any `sayhi`: both `Send`s are launched, and each makes pass
    after pass without a read. -/
theorem empty_est_spins : ∃ s, Run Server.serve anyStep Server.init (quickSession [] []) s ∧
    ∀ k, (∃ s', Run Server.serve anyStep s (List.replicate (2 * k) (.act (.queueSend 0 0 .ok))) s' ∧
        s'.queues.hub = s.queues.hub ∧ (s'.queues.sends 0)[0]? = some .loop) ∧
      ∃ s', Run Server.serve anyStep s (List.replicate (2 * k) (.act (.linkSend 0 0 .ok))) s' ∧
        s'.links.hub = s.links.hub ∧ (s'.links.sends 0)[0]? = some .loop := by
  have hexec : (exec Server.serve (fun _ _ => true) Server.init (quickSession [] [])).map
      (fun s => decide (AtHeads [] s)) = some true := by
    decide +kernel
  obtain ⟨s, hrun, hobs⟩ := exists_run_of_exec hexec
  obtain ⟨hcr, ⟨hq, hqs, hqo⟩, hl, hls, hlo⟩ := of_decide_eq_true hobs
  refine ⟨s, hrun.mono fun _ _ _ => trivial, fun k => ⟨?_, ?_⟩⟩
  · obtain ⟨s', h1, h2, h3, -⟩ := queue_spins hcr hq (by rw [hqs]; decide) hqo k
    exact ⟨s', h1, h2, h3⟩
  · obtain ⟨s', h1, h2, h3, -⟩ := link_spins hcr hl (by rw [hls]; decide) hlo k
    exact ⟨s', h1, h2, h3⟩

instance (s : Server ℕ ℕ) (l : Traffic ℕ ℕ) : Decidable (l.fair s) := by
  unfold Traffic.fair; split <;> infer_instance

set_option maxRecDepth 100000 in
/-- One lane with the order `[7]`: both `Send`s stand before a pass that reads. -/
theorem sends_read_every_pass_one_lane : ∃ s, Run Server.serve (fun s l => l.fair s) Server.init
      (quickSession [.arrive 0 (.sayhi 7 7), .act (.recv 0), .act (.reader 0)] [7]) s ∧
    (s.queues.sends 0)[0]? = some .loop ∧ (s.links.sends 0)[0]? = some .loop ∧ s.Paced := by
  have hexec : (exec Server.serve (fun s l => decide (l.fair s)) Server.init
      (quickSession [.arrive 0 (.sayhi 7 7), .act (.recv 0), .act (.reader 0)] [7])).map
      (fun s => decide (AtHeads [7] s)) = some true := by
    decide +kernel
  obtain ⟨s, hrun, hobs⟩ := exists_run_of_exec hexec
  obtain ⟨-, ⟨hq, -⟩, hl, -⟩ := of_decide_eq_true hobs
  have hrun' : Run Server.serve (fun s l => l.fair s) Server.init _ s :=
    hrun.mono fun _ _ h => of_decide_eq_true h
  refine ⟨s, hrun', hq, hl, sends_read_every_pass hrun' fun w id sorted hest => ?_⟩
  simp only [quickSession, List.mem_append, List.mem_cons, List.not_mem_nil, or_false, Traffic.arrive.injEq,
    Msg.est.injEq, reduceCtorEq, and_false, false_or] at hest
  obtain ⟨-, rfl, rfl⟩ := hest
  simp [quickSession]

end Wssocks.Wss

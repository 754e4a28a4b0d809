import Wssocks.Pipe.Link

/-!
# What the operations of a `LinkHub` do to its map and its links

One lemma for each component an operation can change; the later modules use
these and do not unfold the operations.
-/

namespace Wssocks.Pipe

open Wssocks.Lib

namespace Link

variable {KSUID : Type}

@[simp] theorem items_close (q : Link KSUID) : q.close.buffer.items = q.buffer.items := by
  unfold close; split_ifs <;> rfl

@[simp] theorem sorted_close (q : Link KSUID) : q.close.sorted = q.sorted := by
  unfold close; split_ifs <;> rfl

@[simp] theorem conn_close (q : Link KSUID) : q.close.conn = q.conn := by
  unfold close; split_ifs <;> rfl

@[simp] theorem counter_close (q : Link KSUID) : q.close.counter = q.counter := by
  unfold close; split_ifs <;> rfl

@[simp] theorem done_close (q : Link KSUID) : q.close.done = q.done := by
  unfold close; split_ifs <;> rfl

@[simp] theorem status_close (q : Link KSUID) : q.close.status = .close := by
  unfold close
  split_ifs with h
  · exact h
  · rfl

theorem closed_close {q : Link KSUID} (h : q.status = .close → q.buffer.closed = true) :
    q.close.buffer.closed = true := by
  unfold close
  split_ifs with hs
  · exact h hs
  · rfl

end Link

namespace LinkHub

variable {KSUID : Type} [DecidableEq KSUID]
variable {h : LinkHub KSUID} {id m k : KSUID} {q r c : ℕ} {sort : List KSUID}

/-! ## `trySend` -/

@[simp] theorem ref?_trySend (conn : Option ℕ) : (trySend h m conn).1.ref? k = h.ref? k := by
  unfold trySend
  cases h.ref? m with
  | none => rfl
  | some q => cases conn <;> simp only <;> split_ifs <;> rfl

@[simp] theorem next_trySend (conn : Option ℕ) : (trySend h m conn).1.next = h.next := by
  unfold trySend
  cases h.ref? m with
  | none => rfl
  | some q => cases conn <;> simp only <;> split_ifs <;> rfl

/-- Without a connection `trySend` changes nothing. -/
@[simp] theorem trySend_none_hub : (trySend h m none).1 = h := by
  unfold trySend
  cases h.ref? m with
  | none => rfl
  | some q => simp only; split_ifs <;> rfl

/-- With a connection it records it in the master's link. -/
theorem trySend_some_hub (hq : h.ref? m = some q) :
    (trySend h m (some c)).1 = h.modify q fun l => { l with conn := some c } := by
  unfold trySend
  rw [hq]
  simp only
  split_ifs <;> rfl

theorem trySend_none_launch (hq : h.ref? m = some q) :
    (trySend h m none).2 =
      if (h.obj q).conn.isSome ∧ (h.obj q).counter = (h.obj q).sorted.length then some q
      else none := by
  unfold trySend
  rw [hq]
  simp only
  split_ifs <;> rfl

theorem trySend_some_launch (hq : h.ref? m = some q) :
    (trySend h m (some c)).2 =
      if (h.obj q).counter = (h.obj q).sorted.length then some q else none := by
  unfold trySend
  rw [hq]
  simp only [Registry.obj_modify_self, Option.isSome_some, true_and]
  split_ifs <;> rfl

theorem trySend_missing (hq : h.ref? m = none) (conn : Option ℕ) : trySend h m conn = (h, none) := by
  unfold trySend; rw [hq]

/-! ## `Add` -/

/-- The link that counts the lanes of `m`. -/
def masterRef (h : LinkHub KSUID) (m : KSUID) : ℕ := (h.ref? m).getD h.next

/-- The hub in which `Add` increments the counter. -/
def ensured (h : LinkHub KSUID) (id m : KSUID) : LinkHub KSUID :=
  (h.ensure m (newLink m)).ensure id (newLink m)

theorem ref?_ensured : (ensured h id m).ref? k =
    if k = m then some (masterRef h m)
    else if k = id then some ((h.ref? id).getD (h.ensure m (newLink m)).next) else h.ref? k := by
  unfold ensured masterRef
  rw [Registry.ref?_ensure]
  by_cases hkm : k = m
  · subst hkm
    rw [if_pos rfl]
    split_ifs with hk
    · subst hk; simp [Registry.ref?_ensure]
    · simp [Registry.ref?_ensure]
  · rw [if_neg hkm]
    split_ifs with hk
    · subst hk; rw [Registry.ref?_ensure, if_neg hkm]
    · rw [Registry.ref?_ensure, if_neg hkm]

/-- `Add`: the lanes are there, the counter is one higher, and `trySend` follows. -/
theorem add_eq : add h id m =
    trySend ((ensured h id m).modify (masterRef h m) fun l => { l with counter := l.counter + 1 })
      m none := by
  have hm : ((h.ensure m (newLink m)).ensure id (newLink m)).ref? m = some (masterRef h m) := by
    rw [← ensured, ref?_ensured, if_pos rfl]
  simp only [add, hm, ensured]

theorem add_hub : (add h id m).1 =
    (ensured h id m).modify (masterRef h m) fun l => { l with counter := l.counter + 1 } := by
  rw [add_eq, trySend_none_hub]

theorem ref?_add : (add h id m).1.ref? k =
    if k = m then some (masterRef h m)
    else if k = id then some ((h.ref? id).getD (h.ensure m (newLink m)).next) else h.ref? k := by
  rw [add_hub, Registry.ref?_modify, ref?_ensured]

theorem next_le_add : h.next ≤ (add h id m).1.next := by
  rw [add_hub, Registry.next_modify]
  exact le_trans Registry.next_le_ensure Registry.next_le_ensure

/-- `Add` changes an allocated link only by counting in the master's. -/
theorem obj_add_of_lt (hr : r < h.next) : (add h id m).1.obj r =
    if r = masterRef h m then { h.obj r with counter := (h.obj r).counter + 1 } else h.obj r := by
  have he : (ensured h id m).obj r = h.obj r := by
    unfold ensured
    rw [Registry.obj_ensure_of_lt (lt_of_lt_of_le hr Registry.next_le_ensure),
      Registry.obj_ensure_of_lt hr]
  rw [add_hub, Registry.obj_modify]
  split_ifs with hq
  · rw [← hq, he]
  · exact he

/-- A link that `Add` creates is a new one, with the count if it is the master's. -/
theorem obj_ensured_of_ge (hr : h.next ≤ r) (hr' : r < (ensured h id m).next) :
    (ensured h id m).obj r = newLink m := by
  unfold ensured at hr' ⊢
  rw [Registry.obj_ensure]
  split_ifs with h2
  · rfl
  · rw [Registry.obj_ensure]
    split_ifs with h1
    · rfl
    · exfalso
      rw [Registry.next_ensure, Registry.next_ensure] at hr'
      rw [Registry.next_ensure] at h2
      cases hm : h.ref? m with
      | none =>
        simp only [hm, Option.isSome_none, Bool.false_eq_true, if_false, true_and] at h1 h2 hr'
        cases hid : (h.ensure m (newLink m)).ref? id with
        | none =>
          simp only [hid, Option.isSome_none, Bool.false_eq_true, if_false, true_and] at h2 hr'
          omega
        | some x => simp only [hid, Option.isSome_some, if_true] at hr'; omega
      | some x =>
        simp only [hm, Option.isSome_some, if_true] at h2 hr'
        cases hid : (h.ensure m (newLink m)).ref? id with
        | none =>
          simp only [hid, Option.isSome_none, Bool.false_eq_true, if_false, true_and] at h2 hr'
          omega
        | some x => simp only [hid, Option.isSome_some, if_true] at hr'; omega

theorem add_launch : (add h id m).2 =
    if ((ensured h id m).obj (masterRef h m)).conn.isSome ∧
        ((ensured h id m).obj (masterRef h m)).counter + 1 =
          ((ensured h id m).obj (masterRef h m)).sorted.length
      then some (masterRef h m) else none := by
  rw [add_eq, trySend_none_launch (q := masterRef h m) (by rw [Registry.ref?_modify, ref?_ensured, if_pos rfl])]
  simp only [Registry.obj_modify_self]

/-! ## `SetSort` -/

theorem ref?_setSort : (setSort h m sort).ref? k = if k = m then some (masterRef h m) else h.ref? k := by
  unfold setSort masterRef
  cases hm : h.ref? m with
  | none => simp [Registry.ref?_create]
  | some q =>
    simp only [Registry.ref?_modify, Option.getD_some]
    split_ifs with hk
    · rw [hk, hm]
    · rfl

theorem next_le_setSort : h.next ≤ (setSort h m sort).next := by
  unfold setSort
  cases h.ref? m <;> simp

theorem obj_setSort_of_lt (hr : r < h.next) : (setSort h m sort).obj r =
    if r = masterRef h m then { h.obj r with sorted := sort } else h.obj r := by
  unfold setSort masterRef
  cases hm : h.ref? m with
  | none =>
    simp only [Option.getD_none]
    rw [Registry.obj_create, if_neg (by omega), if_neg (by omega)]
  | some q =>
    simp only [Option.getD_some]
    rw [Registry.obj_modify]
    split_ifs with hq
    · rw [hq]
    · rfl

theorem obj_setSort_new (hm : h.ref? m = none) :
    (setSort h m sort).obj h.next = { newLink m with sorted := sort } := by
  unfold setSort; rw [hm]; simp [Registry.obj_create]

/-! ## `RemoveAll` -/

theorem ref?_drop : (drop h id).ref? k = if k = id then none else h.ref? k := by
  unfold drop
  cases hi : h.ref? id with
  | none =>
    simp only
    split_ifs with hk
    · rw [hk, hi]
    · rfl
  | some c => simp only [Registry.ref?_erase, Registry.ref?_modify]

@[simp] theorem next_drop : (drop h id).next = h.next := by
  unfold drop; cases h.ref? id <;> rfl

theorem obj_drop : (drop h id).obj r = if h.ref? id = some r then (h.obj r).close else h.obj r := by
  unfold drop
  cases hi : h.ref? id with
  | none => simp
  | some c =>
    simp only [Registry.obj_erase, Registry.obj_modify, Option.some.injEq]
    split_ifs with h1 h2 h2
    · rw [h1]
    · exact absurd h1.symm h2
    · exact absurd h2.symm h1
    · rfl

/-- The loop of `RemoveAll` over the ids of `sorted` other than the master. -/
def dropList (h : LinkHub KSUID) (m : KSUID) (l : List KSUID) : LinkHub KSUID :=
  l.foldl (fun h id => if id = m then h else drop h id) h

theorem ref?_dropList (l : List KSUID) : (dropList h m l).ref? k =
    if k ∈ l ∧ k ≠ m then none else h.ref? k := by
  induction l generalizing h with
  | nil => simp [dropList]
  | cons a l ih =>
    rw [dropList, List.foldl_cons, ← dropList, ih]
    by_cases hk : k ∈ l ∧ k ≠ m
    · rw [if_pos hk, if_pos ⟨List.mem_cons_of_mem _ hk.1, hk.2⟩]
    · rw [if_neg hk]
      by_cases ha : a = m
      · rw [if_pos ha, if_neg]
        rintro ⟨h1, h2⟩
        rcases List.mem_cons.mp h1 with h3 | h3
        · exact h2 (h3.trans ha)
        · exact hk ⟨h3, h2⟩
      · rw [if_neg ha, ref?_drop]
        by_cases hka : k = a
        · rw [if_pos hka, if_pos ⟨by simp [hka], by rw [hka]; exact ha⟩]
        · rw [if_neg hka, if_neg]
          rintro ⟨h1, h2⟩
          rcases List.mem_cons.mp h1 with h3 | h3
          · exact hka h3
          · exact hk ⟨h3, h2⟩

@[simp] theorem next_dropList (l : List KSUID) : (dropList h m l).next = h.next := by
  induction l generalizing h with
  | nil => rfl
  | cons a l ih =>
    rw [dropList, List.foldl_cons, ← dropList, ih]
    split_ifs <;> simp

/-- The loop closes exactly the links it removes. -/
theorem obj_dropList (l : List KSUID) : (dropList h m l).obj r =
    if ∃ id ∈ l, id ≠ m ∧ h.ref? id = some r then (h.obj r).close else h.obj r := by
  induction l generalizing h with
  | nil => simp [dropList]
  | cons a l ih =>
    rw [dropList, List.foldl_cons, ← dropList, ih]
    by_cases ha : a = m
    · simp only [if_pos ha]
      have : (∃ id ∈ a :: l, id ≠ m ∧ h.ref? id = some r) ↔ ∃ id ∈ l, id ≠ m ∧ h.ref? id = some r := by
        constructor
        · rintro ⟨id, h1, h2, h3⟩
          rcases List.mem_cons.mp h1 with h4 | h4
          · exact absurd (h4.trans ha) h2
          · exact ⟨id, h4, h2, h3⟩
        · rintro ⟨id, h1, h2, h3⟩
          exact ⟨id, List.mem_cons_of_mem _ h1, h2, h3⟩
      simp only [this]
    · simp only [if_neg ha]
      rw [obj_drop]
      by_cases har : h.ref? a = some r
      · -- the link of `a` is closed now and is under no other key
        have hno : ¬ ∃ id ∈ l, id ≠ m ∧ (drop h a).ref? id = some r := by
          rintro ⟨id, -, -, h3⟩
          rw [ref?_drop] at h3
          split_ifs at h3 with h4
          exact h4 (Registry.ref?_inj h3 har)
        rw [if_neg hno, if_pos har, if_pos ⟨a, by simp, ha, har⟩]
      · rw [if_neg har]
        have : (∃ id ∈ l, id ≠ m ∧ (drop h a).ref? id = some r) ↔
            ∃ id ∈ a :: l, id ≠ m ∧ h.ref? id = some r := by
          constructor
          · rintro ⟨id, h1, h2, h3⟩
            rw [ref?_drop] at h3
            split_ifs at h3
            exact ⟨id, List.mem_cons_of_mem _ h1, h2, h3⟩
          · rintro ⟨id, h1, h2, h3⟩
            rcases List.mem_cons.mp h1 with h4 | h4
            · rw [h4] at h3; exact absurd h3 har
            · refine ⟨id, h4, h2, ?_⟩
              rw [ref?_drop, if_neg, h3]
              intro h5; rw [h5] at h3; exact har h3
        simp only [this]

theorem removeAll_missing (hm : h.ref? m = none) : removeAll h m = h := by
  unfold removeAll; rw [hm]

theorem removeAll_eq (hm : h.ref? m = some q) :
    removeAll h m = drop (dropList h m (h.obj q).sorted) m := by
  unfold removeAll; rw [hm]; rfl

@[simp] theorem next_removeAll : (removeAll h m).next = h.next := by
  cases hm : h.ref? m with
  | none => rw [removeAll_missing hm]
  | some q => rw [removeAll_eq hm]; simp

/-- `RemoveAll` removes the master and the ids of its `sorted`. -/
theorem ref?_removeAll (hm : h.ref? m = some q) : (removeAll h m).ref? k =
    if k = m ∨ k ∈ (h.obj q).sorted then none else h.ref? k := by
  rw [removeAll_eq hm, ref?_drop, ref?_dropList]
  by_cases hk : k = m
  · simp [hk]
  · simp [hk]

/-- It closes exactly the links it removes. -/
theorem obj_removeAll (hm : h.ref? m = some q) : (removeAll h m).obj r =
    if ∃ id ∈ m :: (h.obj q).sorted, h.ref? id = some r then (h.obj r).close else h.obj r := by
  have hm' : (dropList h m (h.obj q).sorted).ref? m = some q := by
    rw [ref?_dropList, if_neg (by simp), hm]
  rw [removeAll_eq hm, obj_drop, hm', obj_dropList]
  by_cases hr : q = r
  · subst hr
    have hno : ¬ ∃ id ∈ (h.obj q).sorted, id ≠ m ∧ h.ref? id = some q := by
      rintro ⟨id, -, h2, h3⟩
      exact h2 (Registry.ref?_inj h3 hm)
    rw [if_neg hno, if_pos rfl, if_pos ⟨m, List.mem_cons_self, hm⟩]
  · rw [if_neg (by simpa using hr)]
    have : (∃ id ∈ (h.obj q).sorted, id ≠ m ∧ h.ref? id = some r) ↔
        ∃ id ∈ m :: (h.obj q).sorted, h.ref? id = some r := by
      constructor
      · rintro ⟨id, h1, h2, h3⟩
        exact ⟨id, List.mem_cons_of_mem _ h1, h3⟩
      · rintro ⟨id, h1, h3⟩
        have hne : id ≠ m := by
          rintro rfl
          rw [hm] at h3
          exact hr (Option.some.inj h3)
        exact ⟨id, (List.mem_cons.mp h1).resolve_left hne, hne, h3⟩
    simp only [this]

end LinkHub

namespace Links

variable {KSUID : Type} [DecidableEq KSUID] {l : Links KSUID} {q i c : ℕ} {pc : LinkSend KSUID}
  {u : Link KSUID → Link KSUID}

@[simp] theorem hub_launch {o : Option ℕ} : (l.launch o).hub = l.hub := by cases o <;> rfl

@[simp] theorem crashed_launch {o : Option ℕ} : (l.launch o).crashed = l.crashed := by cases o <;> rfl

@[simp] theorem hub_goto : (l.goto q i pc).hub = l.hub := rfl

@[simp] theorem hub_modify : (l.modify q u).hub = l.hub.modify q u := rfl

@[simp] theorem sends_modify : (l.modify q u).sends = l.sends := rfl

theorem sends_goto_self : (l.goto q i pc).sends q = (l.sends q).set i pc := Function.update_self _ _ _

theorem sends_launch {o : Option ℕ} (r : ℕ) :
    (l.launch o).sends r = if o = some r then l.sends r ++ [.entry] else l.sends r := by
  cases o with
  | none => simp [launch]
  | some a =>
    by_cases hr : a = r
    · subst hr; simp [launch]
    · rw [if_neg (by simpa using hr)]
      exact Function.update_of_ne (Ne.symm hr) _ _

/-- A `select` on the buffer of a link appends the chunk, or loses it to the closed
    channel. -/
theorem push_cases {l' : Links KSUID} {b : Buffer} {ok : Bool} (h : l.push q b = some (l', ok)) :
    (ok = true ∧ (l.hub.obj q).buffer.closed = false ∧ ∃ ch : BufChan,
      ch.items = (l.hub.obj q).buffer.items ++ [b] ∧ ch.closed = false ∧
      l' = l.modify q fun x => { x with buffer := ch }) ∨
    (ok = false ∧ (l.hub.obj q).buffer.closed = true ∧ l' = l) := by
  unfold push at h
  obtain ⟨a, ha, he⟩ := Option.map_eq_some_iff.mp h
  cases a with
  | some ch =>
    cases he
    obtain ⟨h1, h2, h3⟩ := selectSend_some ha
    exact .inl ⟨rfl, h1, ch, h2, h3, rfl⟩
  | none =>
    cases he
    exact .inr ⟨rfl, selectSend_none ha, rfl⟩

/-- A write that cannot go on waits for a buffer with something in it. -/
theorem items_of_push_eq_none {b : Buffer} (h : l.push q b = none) : (l.hub.obj q).buffer.items ≠ [] := by
  have hsel : selectSend (l.hub.obj q).buffer b = none := Option.map_eq_none_iff.mp h
  unfold selectSend at hsel
  split_ifs at hsel
  have hsend : ((l.hub.obj q).buffer.send? b).isSome = false := by
    rw [Option.map_eq_none_iff.mp hsel]
    rfl
  intro hnil
  simp [Chan.send?_isSome, Chan.full, hnil, bufferSize] at hsend

theorem trySend_eq {m : KSUID} (hq : l.hub.ref? m = some q) :
    l.trySend m c = (l.modify q fun x => { x with conn := some c }).launch
      (if (l.hub.obj q).counter = (l.hub.obj q).sorted.length then some q else none) := by
  show launch { l with hub := (LinkHub.trySend l.hub m (some c)).1 } _ = _
  rw [LinkHub.trySend_some_hub hq, LinkHub.trySend_some_launch hq]
  rfl

theorem setSort_eq {m : KSUID} {sort : List KSUID} (hq : l.hub.ref? m = some q) :
    l.setSort m sort = l.modify q fun x => { x with sorted := sort } := by
  unfold setSort LinkHub.setSort modify
  rw [hq]

/-- Only `SetSort` changes an order. -/
theorem sorted_add {id m : KSUID} {r : ℕ} (hr : r < l.hub.next) :
    ((l.add id m).hub.obj r).sorted = (l.hub.obj r).sorted := by
  rw [Links.add, hub_launch]
  show ((LinkHub.add l.hub id m).1.obj r).sorted = _
  rw [LinkHub.obj_add_of_lt hr]
  split_ifs <;> rfl

theorem sorted_trySend {m : KSUID} {r : ℕ} : ((l.trySend m c).hub.obj r).sorted = (l.hub.obj r).sorted := by
  cases hm : l.hub.ref? m with
  | some a =>
    rw [trySend_eq hm, hub_launch, hub_modify, Registry.obj_modify]
    split_ifs with h1
    · rw [h1]
    · rfl
  | none => rw [trySend, LinkHub.trySend_missing hm]; rfl

theorem sorted_removeAll {m : KSUID} {r : ℕ} : ((l.removeAll m).hub.obj r).sorted = (l.hub.obj r).sorted := by
  cases hm : l.hub.ref? m with
  | none => rw [removeAll, LinkHub.removeAll_missing hm]
  | some a =>
    rw [removeAll, LinkHub.obj_removeAll hm]
    split_ifs
    · rw [Link.sorted_close]
    · rfl

/-- At most link `q` was touched: neither closed nor opened, and with the fields that decide
    the launch of `Send`. -/
def Touched (h h' : LinkHub KSUID) (q : ℕ) : Prop :=
  ∃ u : Link KSUID → Link KSUID, h' = h.modify q u ∧
    (u (h.obj q)).buffer.closed = (h.obj q).buffer.closed ∧
    ((u (h.obj q)).status = .close → (h.obj q).status = .close) ∧
    (u (h.obj q)).sorted = (h.obj q).sorted ∧ (u (h.obj q)).conn = (h.obj q).conn ∧
    (u (h.obj q)).counter = (h.obj q).counter

theorem Touched.refl {h : LinkHub KSUID} : Touched h h q :=
  ⟨fun x => x, by simp, rfl, id, rfl, rfl, rfl⟩

/-- The map stays, and at most goroutine `i` of link `q` has moved. -/
structure Moved (l l' : Links KSUID) (q i : ℕ) : Prop where
  hub : ∃ r, Touched l.hub l'.hub r
  sends : ∃ pc, l'.sends = Function.update l.sends q ((l.sends q).set i pc)

theorem Moved.ref? {l' : Links KSUID} (h : Moved l l' q i) (k : KSUID) :
    l'.hub.ref? k = l.hub.ref? k := by
  obtain ⟨r, u, hu, -⟩ := h.hub
  rw [hu, Registry.ref?_modify]

theorem Moved.next {l' : Links KSUID} (h : Moved l l' q i) : l'.hub.next = l.hub.next := by
  obtain ⟨r, u, hu, -⟩ := h.hub
  rw [hu, Registry.next_modify]

theorem moved_goto : Moved l (l.goto q i pc) q i := ⟨⟨q, .refl⟩, pc, rfl⟩

theorem moved_modify {r : ℕ} (hcl : (u (l.hub.obj r)).buffer.closed = (l.hub.obj r).buffer.closed)
    (hst : (u (l.hub.obj r)).status = .close → (l.hub.obj r).status = .close)
    (hs : (u (l.hub.obj r)).sorted = (l.hub.obj r).sorted)
    (hc : (u (l.hub.obj r)).conn = (l.hub.obj r).conn)
    (hn : (u (l.hub.obj r)).counter = (l.hub.obj r).counter) :
    Moved l ((l.modify r u).goto q i pc) q i :=
  ⟨⟨r, u, rfl, hcl, hst, hs, hc, hn⟩, pc, rfl⟩

theorem handoff_moved {l' : Links KSUID} (h : l.handoff q i = some l') :
    l'.hub = l.hub ∧ ∀ r, r ≠ q → l'.sends r = l.sends r := by
  unfold handoff at h
  split at h
  · split_ifs at h
    cases h
    exact ⟨rfl, fun r hr => Function.update_of_ne hr _ _⟩
  · cases h

/-- What a step of goroutine `i` of `Send` on link `q` can be. -/
inductive SendStep (l : Links KSUID) (q i : ℕ) : Outcome → Links KSUID → Prop
  | refuse {o : Outcome} (hi : (l.sends q)[i]? = some .entry)
      (hst : (l.hub.obj q).status = .send ∨ (l.hub.obj q).status = .done) :
      SendStep l q i o (l.goto q i .refused)
  | enter {o : Outcome} (hi : (l.sends q)[i]? = some .entry)
      (hst : ¬ ((l.hub.obj q).status = .send ∨ (l.hub.obj q).status = .done)) :
      SendStep l q i o ((l.modify q fun x => { x with status := .send }).goto q i .loop)
  | closed {o : Outcome} (hi : (l.sends q)[i]? = some .loop) (hst : (l.hub.obj q).status = .close) :
      SendStep l q i o (l.goto q i (.ret (some .closedPipe)))
  | round {o : Outcome} (hi : (l.sends q)[i]? = some .loop) (hst : (l.hub.obj q).status ≠ .close) :
      SendStep l q i o (l.goto q i (.pass (l.hub.obj q).sorted))
  | again {o : Outcome} (hi : (l.sends q)[i]? = some (.pass [])) : SendStep l q i o (l.goto q i .loop)
  | next {o : Outcome} {id : KSUID} {rest : List KSUID} {r : ℕ} (hi : (l.sends q)[i]? = some (.pass (id :: rest)))
      (hr : l.hub.ref? id = some r) : SendStep l q i o (l.goto q i (.read r rest))
  | missing {o : Outcome} {id : KSUID} {rest : List KSUID} (hi : (l.sends q)[i]? = some (.pass (id :: rest)))
      (hr : l.hub.ref? id = none) : SendStep l q i o (l.goto q i (.ret (some .notFound)))
  | read {r : ℕ} {rest : List KSUID} {x : Buffer × BufChan} (hi : (l.sends q)[i]? = some (.read r rest))
      (hx : (l.hub.obj r).buffer.recv? = some x) :
      SendStep l q i .ok ((l.modify r fun y => { y with buffer := x.2 }).goto q i (.write r x.1 rest))
  | timeout {r : ℕ} {rest : List KSUID} (hi : (l.sends q)[i]? = some (.read r rest)) :
      SendStep l q i .timeout (l.goto q i (.ret (some .timeout)))
  | noConn {o : Outcome} {r : ℕ} {b : Buffer} {rest : List KSUID} (hi : (l.sends q)[i]? = some (.write r b rest))
      (hc : (l.hub.obj q).conn = none) : SendStep l q i o (l.goto q i (.ret (some .connClosed)))
  | write {o : Outcome} {r c : ℕ} {b : Buffer} {rest : List KSUID} {x : Sock × Bool}
      (hi : (l.sends q)[i]? = some (.write r b rest)) (hc : (l.hub.obj q).conn = some c)
      (hx : safeWrite (l.socks c) b o = some x) :
      SendStep l q i o ({ l with socks := Function.update l.socks c x.1 }.goto q i
        (if !x.2 then .ret (some .write) else if b.eof then .ret none else .pass rest))
  | ret {o : Outcome} {e : Option SendErr} (hi : (l.sends q)[i]? = some (.ret e)) :
      SendStep l q i o ((l.modify q fun x => { x with status := .done }).goto q i (.handoff e))
  | panic {o : Outcome} {e : Option SendErr}
      (hi : (l.sends q)[i]? = some (.handoff e) ∨ (l.sends q)[i]? = some (.closeDone e))
      (hd : (l.hub.obj q).done = true) : SendStep l q i o { l with crashed := true }
  | closeDone {o : Outcome} {e : Option SendErr} (hi : (l.sends q)[i]? = some (.closeDone e))
      (hd : (l.hub.obj q).done = false) :
      SendStep l q i o ((l.modify q fun x => { x with done := true }).goto q i (.exit e))

theorem sendStep_of_send {l' : Links KSUID} {o : Outcome} (h : l.send q i o = some l') : SendStep l q i o l' := by
  cases hi : (l.sends q)[i]? with
  | none => simp [send, hi] at h
  | some pc =>
    cases pc with
    | entry =>
      simp only [send, hi] at h
      split_ifs at h with hst <;> cases h
      · exact .refuse hi hst
      · exact .enter hi hst
    | loop =>
      simp only [send, hi] at h
      split_ifs at h with hst <;> cases h
      · exact .closed hi hst
      · exact .round hi hst
    | pass rest =>
      cases rest with
      | nil =>
        simp only [send, hi] at h
        cases h
        exact .again hi
      | cons id rest =>
        simp only [send, hi] at h
        cases hr : l.hub.ref? id with
        | some r =>
          rw [hr] at h
          cases h
          exact .next hi hr
        | none =>
          rw [hr] at h
          cases h
          exact .missing hi hr
    | read r rest =>
      cases o with
      | ok =>
        simp only [send, hi, Option.map_eq_some_iff] at h
        obtain ⟨x, hx, rfl⟩ := h
        exact .read hi hx
      | timeout =>
        simp only [send, hi] at h
        cases h
        exact .timeout hi
      | fail n => simp [send, hi] at h
    | write r b rest =>
      simp only [send, hi] at h
      cases hc : (l.hub.obj q).conn with
      | none =>
        rw [hc] at h
        cases h
        exact .noConn hi hc
      | some c =>
        rw [hc] at h
        obtain ⟨x, hx, rfl⟩ := Option.map_eq_some_iff.mp h
        exact .write hi hc hx
    | ret e =>
      simp only [send, hi] at h
      cases h
      exact .ret hi
    | handoff e =>
      simp only [send, hi] at h
      split_ifs at h with hd
      cases h
      exact .panic (.inl hi) hd
    | closeDone e =>
      simp only [send, hi] at h
      split_ifs at h with hd <;> cases h
      · exact .panic (.inr hi) hd
      · exact .closeDone hi (by simpa using hd)
    | exit e | refused => simp [send, hi] at h

/-- And each of them is a step. -/
theorem SendStep.send {l' : Links KSUID} {o : Outcome} (h : SendStep l q i o l') : l.send q i o = some l' := by
  cases h with
  | refuse hi hst | enter hi hst | closed hi hst | round hi hst => simp [Links.send, hi, hst]
  | again hi | timeout hi | ret hi => simp [Links.send, hi]
  | next hi hr | missing hi hr => simp [Links.send, hi, hr]
  | read hi hx => simp [Links.send, hi, hx]
  | noConn hi hc => simp [Links.send, hi, hc]
  | write hi hc hx => simp [Links.send, hi, hc, hx]
  | panic hi hd =>
    rcases hi with hi | hi
    · simp [Links.send, hi, hd]
    · simp [Links.send, hi, hd]
  | closeDone hi hd => simp [Links.send, hi, hd]

/-- A step of `Send` leaves the map and the other goroutines. -/
theorem send_moved {l' : Links KSUID} {o : Outcome} (h : l.send q i o = some l') : Moved l l' q i := by
  have stay : ∀ {pc}, (l.sends q)[i]? = some pc →
      l.sends = Function.update l.sends q ((l.sends q).set i pc) := by
    intro pc hi
    obtain ⟨hlt, rfl⟩ := List.getElem?_eq_some_iff.mp hi
    rw [List.set_getElem_self, Function.update_eq_self]
  cases sendStep_of_send h with
  | refuse | closed | round | again | next | missing | timeout | noConn => exact moved_goto
  | enter | ret => exact moved_modify rfl (fun h1 => by cases h1) rfl rfl rfl
  | read _ hx => exact moved_modify (Chan.closed_recv? hx) id rfl rfl rfl
  | write => exact ⟨⟨q, .refl⟩, _, rfl⟩
  | panic hi =>
    rcases hi with hi | hi
    · exact ⟨⟨q, .refl⟩, _, stay hi⟩
    · exact ⟨⟨q, .refl⟩, _, stay hi⟩
  | closeDone => exact moved_modify rfl id rfl rfl rfl

/-! ### The channel `done` -/

/-- The channel `done` of a link is closed only by a goroutine that has returned. -/
def DoneOk (l : Links KSUID) : Prop := ∀ r, (l.hub.obj r).done = true → ∃ e, .exit e ∈ l.sends r

theorem doneOk_init [Inhabited KSUID] : (init : Links KSUID).DoneOk := nofun

theorem DoneOk.mono {l' : Links KSUID} (h : l.DoneOk)
    (hd : ∀ r, (l'.hub.obj r).done = true → (l.hub.obj r).done = true)
    (hs : ∀ r, ∀ pc ∈ l.sends r, pc ∈ l'.sends r) : l'.DoneOk := by
  intro r hr
  obtain ⟨e, he⟩ := h r (hd r hr)
  exact ⟨e, hs r _ he⟩

theorem DoneOk.modify (h : l.DoneOk) (hu : (u (l.hub.obj q)).done = (l.hub.obj q).done) :
    (l.modify q u).DoneOk := by
  refine h.mono (fun r hr => ?_) fun _ _ h1 => h1
  by_cases hq : r = q
  · subst hq
    rw [hub_modify, Registry.obj_modify_self, hu] at hr
    exact hr
  · rwa [hub_modify, Registry.obj_modify_ne hq] at hr

/-- A goroutine that has not returned moves. -/
theorem mem_goto {pc pc' x : LinkSend KSUID} {r : ℕ} (hi : (l.sends q)[i]? = some pc) (hx : x ≠ pc)
    (h : x ∈ l.sends r) : x ∈ (l.goto q i pc').sends r := by
  by_cases hr : r = q
  · subst hr
    show x ∈ Function.update l.sends r ((l.sends r).set i pc') r
    rw [Function.update_self]
    obtain ⟨j, hj⟩ := List.mem_iff_getElem?.mp h
    have hij : i ≠ j := by
      rintro rfl
      exact hx (Option.some.inj (hj.symm.trans hi))
    exact List.mem_iff_getElem?.mpr ⟨j, by rw [List.getElem?_set_ne hij]; exact hj⟩
  · show x ∈ Function.update l.sends q ((l.sends q).set i pc') r
    rwa [Function.update_of_ne hr]

theorem DoneOk.goto {pc pc' : LinkSend KSUID} (h : l.DoneOk) (hi : (l.sends q)[i]? = some pc)
    (hx : ∀ e, .exit e ≠ pc) : (l.goto q i pc').DoneOk := by
  intro r hr
  obtain ⟨e, he⟩ := h r hr
  exact ⟨e, mem_goto hi (hx e) he⟩

/-- `close(q.done)`. -/
theorem DoneOk.close {e : Option SendErr} (h : l.DoneOk) (hi : (l.sends q)[i]? = some (.closeDone e)) :
    ((l.modify q fun x => { x with done := true }).goto q i (.exit e)).DoneOk := by
  intro r hr
  by_cases hq : r = q
  · subst hq
    refine ⟨e, ?_⟩
    show _ ∈ Function.update l.sends r ((l.sends r).set i (.exit e)) r
    rw [Function.update_self]
    exact List.mem_set (List.getElem?_eq_some_iff.mp hi).1 _
  · rw [hub_goto, hub_modify, Registry.obj_modify_ne hq] at hr
    obtain ⟨e', he'⟩ := h r hr
    exact ⟨e', mem_goto hi (by simp) he'⟩

theorem DoneOk.send {l' : Links KSUID} {o : Outcome} (hd : l.DoneOk) (h : l.send q i o = some l') :
    l'.DoneOk := by
  cases sendStep_of_send h with
  | refuse hi | closed hi | round hi | again hi | next hi | missing hi | timeout hi | noConn hi =>
    exact hd.goto hi (by simp)
  | enter hi => exact (hd.modify (u := fun x => { x with status := .send }) rfl).goto hi (by simp)
  | @read _ _ x hi => exact (hd.modify (u := fun y => { y with buffer := x.2 }) rfl).goto hi (by simp)
  | @write _ _ c _ _ x hi =>
    have hd' : ({ l with socks := Function.update l.socks c x.1 } : Links KSUID).DoneOk := hd
    exact hd'.goto hi (by simp)
  | ret hi => exact (hd.modify (u := fun x => { x with status := .done }) rfl).goto hi (by simp)
  | panic => exact hd
  | closeDone hi => exact hd.close hi

theorem DoneOk.handoff {l' : Links KSUID} (hd : l.DoneOk) (h : l.handoff q i = some l') : l'.DoneOk := by
  unfold Links.handoff at h
  split at h
  · rename_i e hi
    split_ifs at h
    cases h
    exact hd.goto hi (by simp)
  · cases h

theorem DoneOk.removeAll {m : KSUID} (hd : l.DoneOk) : (l.removeAll m).DoneOk := by
  refine hd.mono (fun r hr => ?_) fun _ _ h1 => h1
  cases hq : l.hub.ref? m with
  | none =>
    unfold Links.removeAll at hr
    rwa [LinkHub.removeAll_missing hq] at hr
  | some q =>
    have hr' : ((LinkHub.removeAll l.hub m).obj r).done = true := hr
    rw [LinkHub.obj_removeAll hq] at hr'
    split_ifs at hr'
    · rwa [Link.done_close] at hr'
    · exact hr'

theorem DoneOk.launch (hd : l.DoneOk) (o : Option ℕ) : (l.launch o).DoneOk := by
  cases o with
  | none => exact hd
  | some q =>
    refine hd.mono (fun r hr => hr) fun r pc hpc => ?_
    show pc ∈ Function.update l.sends q (l.sends q ++ [.entry]) r
    by_cases hr : r = q
    · subst hr; rw [Function.update_self]; exact List.mem_append_left _ hpc
    · rwa [Function.update_of_ne hr]

theorem DoneOk.add {id m : KSUID} (hd : l.DoneOk) : (l.add id m).DoneOk := by
  have hnew : ∀ r, (((LinkHub.ensured l.hub id m).obj r).done = true → (l.hub.obj r).done = true) := by
    intro r
    unfold LinkHub.ensured
    rw [Registry.obj_ensure, Registry.obj_ensure]
    split_ifs <;> simp [newLink]
  have hadd : ({ l with hub := (LinkHub.add l.hub id m).1 } : Links KSUID).DoneOk := by
    refine hd.mono (fun r hr => hnew r ?_) fun _ _ h1 => h1
    replace hr : ((LinkHub.add l.hub id m).1.obj r).done = true := hr
    rw [LinkHub.add_hub, Registry.obj_modify] at hr
    split_ifs at hr with h1
    · rw [h1]; exact hr
    · exact hr
  exact hadd.launch _

end Links

end Wssocks.Pipe

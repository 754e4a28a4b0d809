import Wssocks.Wss.Traffic

/-!
# The writers of the splitter

`QueueHub.trySend` compares how many writers a queue has with how many ids its order has, and
nothing else; the ids come from different messages.

Results:

* `splitter_calls_missing_writer`: two messages after which the server's `queue.Send` calls a
  writer that does not exist, and panics.
* `splitter_has_writers`: if every `sayhi` names an id of the order that is already there, and
  every `est` brings an order with all ids that have a writer, and with no other once `Send` was
  launched, the splitter finds a writer for every id of its order.
-/

namespace Wssocks.Pipe

open Wssocks.Lib

section Queues

variable {KSUID V : Type} [DecidableEq KSUID] [Inhabited KSUID]

/-- What a goroutine of `queue.Send` still needs, when the ids that satisfy `has` have a writer. -/
def SendPc.Staffed (has : KSUID → Prop) : QueueSend KSUID V → Prop
  | .pass rest => ∀ id ∈ rest, has id
  | .read w rest | .write w _ rest => w.isSome ∧ ∀ id ∈ rest, has id
  | _ => True

omit [DecidableEq KSUID] [Inhabited KSUID] in
theorem SendPc.Staffed.mono {has has' : KSUID → Prop} {pc : QueueSend KSUID V} (h : pc.Staffed has)
    (hh : ∀ id, has id → has' id) : pc.Staffed has' := by
  cases pc with
  | pass rest => exact fun id hid => hh id (h id hid)
  | read w rest | write w b rest => exact ⟨h.1, fun id hid => hh id (h.2 id hid)⟩
  | _ => trivial

/-- The orders contain the ids that have a writer; a queue on which `Send` was launched has a writer
    for every id of its order. -/
structure Queues.Staffed (s : Queues KSUID V) : Prop where
  unborn : ∀ q, s.hub.next ≤ q → s.sends q = []
  within : ∀ q < s.hub.next, (s.hub.obj q).sorted ≠ [] → ∀ id ∈ (s.hub.obj q).writers, id ∈ (s.hub.obj q).sorted
  staffed : ∀ q, s.sends q ≠ [] → ∀ id ∈ (s.hub.obj q).sorted, id ∈ (s.hub.obj q).writers
  pcs : ∀ q, ∀ pc ∈ s.sends q, pc.Staffed (· ∈ (s.hub.obj q).writers)

variable {s s' : Queues KSUID V} {m id : KSUID} {q : ℕ}

theorem Queues.Staffed.init : (Queues.init : Queues KSUID V).Staffed :=
  ⟨fun _ _ => rfl, nofun, fun _ h => absurd rfl h, nofun⟩

omit [Inhabited KSUID] in
theorem Queues.Staffed.lt (h : s.Staffed) (hq : s.sends q ≠ []) : q < s.hub.next := by
  by_contra h1
  exact hq (h.unborn q (not_lt.mp h1))

omit [Inhabited KSUID] in
/-- As many writers as ids, all of them for ids of the order: every id has one. -/
theorem mem_writers_of_length {x : Queue KSUID V}
    (hin : x.sorted ≠ [] → ∀ id ∈ x.writers, id ∈ x.sorted)
    (hlen : x.writers.entries.length = x.sorted.length) : ∀ id ∈ x.sorted, id ∈ x.writers := by
  by_cases hnil : x.sorted = []
  · simp [hnil]
  · have hsub : x.writers.keys ⊆ x.sorted := fun id hid => hin hnil id hid
    have hkeys : x.sorted.length ≤ x.writers.keys.length := by
      rw [AList.keys, List.keys, List.length_map, hlen]
    have hperm := (List.subperm_of_subset x.writers.keys_nodup hsub).perm_of_length_le hkeys
    exact fun id hid => hperm.mem_iff.mpr hid

omit [Inhabited KSUID] in
theorem Queues.Staffed.trySend (h : s.Staffed) : (s.trySend m).Staffed := by
  have hl : ∀ q, QueueHub.trySend s.hub m = some q →
      ∀ id ∈ (s.hub.obj q).sorted, id ∈ (s.hub.obj q).writers := by
    intro q hq
    have hlt := QueueHub.trySend_lt hq
    unfold QueueHub.trySend at hq
    split at hq
    · cases hq
    · split_ifs at hq with hlen
      cases hq
      exact mem_writers_of_length (h.within q hlt) hlen
  refine ⟨fun q hq => ?_, ?_, fun q hq => ?_, fun q pc hpc => ?_⟩
  · rw [Queues.hub_trySend] at hq
    rw [Queues.trySend, Queues.sends_launch, if_neg, h.unborn q hq]
    intro h1
    have := QueueHub.trySend_lt h1
    omega
  · rw [Queues.hub_trySend]; exact h.within
  · rw [Queues.hub_trySend]
    rw [Queues.trySend, Queues.sends_launch] at hq
    split_ifs at hq with h1
    · exact hl q h1
    · exact h.staffed q hq
  · rw [Queues.hub_trySend]
    rw [Queues.trySend, Queues.sends_launch] at hpc
    split_ifs at hpc with h1
    · rcases List.mem_append.mp hpc with h2 | h2
      · exact h.pcs q pc h2
      · rw [List.mem_singleton.mp h2]; trivial
    · exact h.pcs q pc hpc

omit [Inhabited KSUID] in
theorem Queues.Staffed.add {w : V} (h : s.Staffed)
    (hid : ∀ q, s.hub.ref? m = some q → (s.hub.obj q).sorted ≠ [] → id ∈ (s.hub.obj q).sorted) :
    (s.add m id w).Staffed := by
  have hnext : s.hub.next ≤ (QueueHub.add s.hub m id w).next := by
    rw [QueueHub.add_eq]; exact Registry.next_le_ensure
  -- an old queue keeps its order and its writers
  have hold : ∀ r < s.hub.next, ((QueueHub.add s.hub m id w).obj r).sorted = (s.hub.obj r).sorted ∧
      ∀ x, x ∈ ((QueueHub.add s.hub m id w).obj r).writers ↔
        x ∈ (s.hub.obj r).writers ∨ (s.hub.ref? m = some r ∧ x = id) := by
    intro r hr
    rw [QueueHub.add_eq, Registry.obj_modify]
    cases hm : s.hub.ref? m with
    | none =>
      have hne : r ≠ s.hub.masterRef m := by
        rw [QueueHub.masterRef, hm]; exact Nat.ne_of_lt hr
      rw [if_neg hne, Registry.obj_ensure_of_lt hr]
      simp
    | some a =>
      have hma : s.hub.masterRef m = a := by rw [QueueHub.masterRef, hm]; rfl
      rw [hma]
      split_ifs with h1
      · subst h1
        rw [Registry.obj_ensure_of_lt hr]
        simp [AList.mem_insert, or_comm]
      · rw [Registry.obj_ensure_of_lt hr]
        have h2 : ¬ (a = r) := fun h3 => h1 h3.symm
        simp [h2]
  have hnew : ∀ r, s.hub.next ≤ r → r < (QueueHub.add s.hub m id w).next →
      ((QueueHub.add s.hub m id w).obj r).sorted = [] := by
    intro r h1 h2
    rw [QueueHub.add_eq, Registry.next_modify, Registry.next_ensure] at h2
    split_ifs at h2 with h3
    · omega
    · have hnone : s.hub.ref? m = none := by simpa using h3
      have hr : r = s.hub.next := by omega
      rw [QueueHub.obj_add, if_pos (by rw [QueueHub.masterRef, hnone]; exact hr), if_pos hnone]
      rfl
  refine Queues.Staffed.trySend ⟨fun q hq => h.unborn q (hnext.trans hq), fun q hq hne => ?_,
    fun q hq => ?_, fun q pc hpc => ?_⟩
  · by_cases hlt : q < s.hub.next
    · replace hne : ((QueueHub.add s.hub m id w).obj q).sorted ≠ [] := hne
      intro x hx
      replace hx : x ∈ ((QueueHub.add s.hub m id w).obj q).writers := hx
      show x ∈ ((QueueHub.add s.hub m id w).obj q).sorted
      rw [(hold q hlt).1] at hne ⊢
      rcases ((hold q hlt).2 x).mp hx with h1 | ⟨h1, rfl⟩
      · exact h.within q hlt hne x h1
      · exact hid q h1 hne
    · exact absurd (hnew q (not_lt.mp hlt) hq) hne
  · have hlt := h.lt hq
    intro x hx
    replace hx : x ∈ ((QueueHub.add s.hub m id w).obj q).sorted := hx
    rw [(hold q hlt).1] at hx
    exact ((hold q hlt).2 x).mpr (.inl (h.staffed q hq x hx))
  · have hlt : q < s.hub.next := h.lt fun h1 => by
      replace hpc : pc ∈ s.sends q := hpc
      rw [h1] at hpc
      cases hpc
    exact (h.pcs q pc hpc).mono fun x hx => ((hold q hlt).2 x).mpr (.inl hx)

omit [Inhabited KSUID] in
theorem Queues.Staffed.setSort {sort : List KSUID} (h : s.Staffed)
    (hs : ∀ q, s.hub.ref? m = some q → (∀ id ∈ (s.hub.obj q).writers, id ∈ sort) ∧
      (s.sends q ≠ [] → ∀ id ∈ sort, id ∈ (s.hub.obj q).writers)) : (s.setSort m sort).Staffed := by
  cases hm : s.hub.ref? m with
  | some a =>
    rw [Queues.setSort_eq hm]
    obtain ⟨hw, hl⟩ := hs a hm
    have hwr : ∀ q, ((s.hub.modify a fun x => { x with sorted := sort }).obj q).writers =
        (s.hub.obj q).writers := by
      intro q
      rw [Registry.obj_modify]
      split_ifs with h1
      · rw [h1]
      · rfl
    have hso : ∀ q, ((s.hub.modify a fun x => { x with sorted := sort }).obj q).sorted =
        if q = a then sort else (s.hub.obj q).sorted := by
      intro q
      rw [Registry.obj_modify]
      split_ifs <;> rfl
    refine ⟨h.unborn, fun q hq hne x hx => ?_, fun q hq x hx => ?_, fun q pc hpc => ?_⟩
    · rw [Queues.modify, hwr] at hx
      rw [Queues.modify, hso] at hne ⊢
      split_ifs at hne ⊢ with h1
      · exact hw x (h1 ▸ hx)
      · exact h.within q hq hne x hx
    · rw [Queues.modify, hso] at hx
      rw [Queues.modify, hwr]
      split_ifs at hx with h1
      · subst h1; exact hl hq x hx
      · exact h.staffed q hq x hx
    · rw [Queues.modify, hwr]; exact h.pcs q pc hpc
  | none =>
    have he : (s.setSort m sort).hub = s.hub.create m { newQueue m with sorted := sort } := by
      simp only [Queues.setSort, QueueHub.setSort, hm]
    have hold : ∀ q, q ≠ s.hub.next → (s.setSort m sort).hub.obj q = s.hub.obj q := by
      intro q hq
      rw [he, Registry.obj_create, if_neg hq]
    have hnew : (s.setSort m sort).hub.obj s.hub.next = { newQueue m with sorted := sort } := by
      rw [he, Registry.obj_create, if_pos rfl]
    refine ⟨fun q hq => ?_, fun q hq hne x hx => ?_, fun q hq x hx => ?_, fun q pc hpc => ?_⟩
    · rw [he, Registry.next_create] at hq
      exact h.unborn q (by omega)
    · rw [he, Registry.next_create] at hq
      by_cases hqn : q = s.hub.next
      · rw [hqn, hnew] at hx; simp [newQueue] at hx
      · rw [hold q hqn] at hx hne ⊢; exact h.within q (by omega) hne x hx
    · have hlt := h.lt (q := q) hq
      rw [hold q (by omega)] at hx ⊢
      exact h.staffed q hq x hx
    · have hne : s.sends q ≠ [] := by
        intro h1
        replace hpc : pc ∈ s.sends q := hpc
        rw [h1] at hpc
        cases hpc
      have hlt := h.lt hne
      rw [hold q (by omega)]
      exact h.pcs q pc hpc

omit [Inhabited KSUID] in
theorem Queues.Staffed.remove (h : s.Staffed) : (s.remove m).Staffed := by
  have hobj : ∀ q, ((s.remove m).hub.obj q).writers = (s.hub.obj q).writers ∧
      ((s.remove m).hub.obj q).sorted = (s.hub.obj q).sorted := by
    intro q
    show ((QueueHub.remove s.hub m).obj q).writers = _ ∧ ((QueueHub.remove s.hub m).obj q).sorted = _
    rw [QueueHub.obj_remove]
    split_ifs <;> simp
  have hnext : (s.remove m).hub.next = s.hub.next := QueueHub.next_remove
  refine ⟨by rw [hnext]; exact h.unborn, fun q hq => ?_, fun q hq => ?_, fun q pc hpc => ?_⟩
  · rw [(hobj q).1, (hobj q).2]; exact h.within q (hnext ▸ hq)
  · rw [(hobj q).1, (hobj q).2]; exact h.staffed q hq
  · rw [(hobj q).1]; exact h.pcs q pc hpc

omit [Inhabited KSUID] in
/-- A step that leaves the orders and the writers alone, and moves goroutines at most. -/
theorem Queues.Staffed.of_same (h : s.Staffed) (hnext : s'.hub.next = s.hub.next)
    (hobj : ∀ q, (s'.hub.obj q).writers = (s.hub.obj q).writers ∧ (s'.hub.obj q).sorted = (s.hub.obj q).sorted)
    (hlen : ∀ q, (s'.sends q).length = (s.sends q).length)
    (hpcs : ∀ q, ∀ pc ∈ s'.sends q, pc.Staffed (· ∈ (s.hub.obj q).writers)) : s'.Staffed := by
  have hnil : ∀ q, s'.sends q = [] ↔ s.sends q = [] := fun q => by
    rw [← List.length_eq_zero_iff, hlen, List.length_eq_zero_iff]
  refine ⟨fun q hq => ?_, fun q hq => ?_, fun q hq => ?_, fun q pc hpc => ?_⟩
  · rw [hnil]; exact h.unborn q (hnext ▸ hq)
  · rw [(hobj q).1, (hobj q).2]; exact h.within q (hnext ▸ hq)
  · rw [(hobj q).1, (hobj q).2]; exact h.staffed q (mt (hnil q).mpr hq)
  · rw [(hobj q).1]; exact hpcs q pc hpc

omit [Inhabited KSUID] in
/-- A goroutine that moves finds what it needs. -/
theorem Queues.Staffed.pcs_set {i : ℕ} {pc : QueueSend KSUID V} (h : s.Staffed)
    (hpc : pc.Staffed (· ∈ (s.hub.obj q).writers)) :
    ∀ r, ∀ x ∈ Function.update s.sends q ((s.sends q).set i pc) r, x.Staffed (· ∈ (s.hub.obj r).writers) := by
  intro r x hx
  by_cases hr : r = q
  · subst hr
    rw [Function.update_self] at hx
    rcases List.mem_or_eq_of_mem_set hx with h1 | rfl
    · exact h.pcs r x h1
    · exact hpc
  · rw [Function.update_of_ne hr] at hx
    exact h.pcs r x hx

omit [Inhabited KSUID] in
/-- The next program counter of a goroutine that finds a writer for what it needs. -/
theorem Queues.Staffed.send_pc {i : ℕ} {o : Outcome} {msg : Option (V × Buffer)} (h : s.Staffed)
    (hs : s.send q i o = some (s', msg)) :
    s'.sends = s.sends ∨ ∃ pc, s'.sends = Function.update s.sends q ((s.sends q).set i pc) ∧
      pc.Staffed (· ∈ (s.hub.obj q).writers) := by
  have hne : s.sends q ≠ [] := Queues.sends_ne_nil hs
  have hpc : ∀ {pc}, (s.sends q)[i]? = some pc → pc.Staffed (· ∈ (s.hub.obj q).writers) := fun hi =>
    h.pcs q _ (List.mem_of_getElem? hi)
  cases Queues.sendStep_of_send hs with
  | refuse | enter | closed | again | timeout | fail | ret | closeDone => exact .inr ⟨_, rfl, trivial⟩
  | round => exact .inr ⟨_, rfl, h.staffed q hne⟩
  | next hi =>
    refine .inr ⟨_, rfl, ?_, fun x hx => hpc hi x (List.mem_cons_of_mem _ hx)⟩
    exact AList.lookup_isSome.mpr (hpc hi _ List.mem_cons_self)
  | read hi => exact .inr ⟨_, rfl, (hpc hi).1, (hpc hi).2⟩
  | @write w b rest hi =>
    refine .inr ⟨_, rfl, ?_⟩
    cases b.eof
    · exact (hpc hi).2
    · trivial
  | noWriter hi => cases (hpc hi).1
  | panic => exact .inl rfl

omit [Inhabited KSUID] in
theorem Queues.Staffed.ran (h : s.Staffed) (hr : Queues.Ran s s') : s'.Staffed := by
  obtain ⟨r, u, hu, -, -, hw, hso⟩ := hr.touched
  refine h.of_same (by rw [hu]; rfl) (fun q => ?_) hr.length_sends ?_
  · rw [hu, Registry.obj_modify]
    split_ifs with h1
    · rw [hw, hso, h1]; exact ⟨rfl, rfl⟩
    · exact ⟨rfl, rfl⟩
  · cases hr with
    | same => exact h.pcs
    | send hs =>
      rcases h.send_pc hs with h1 | ⟨pc, h1, h2⟩
      · rw [h1]; exact h.pcs
      · rw [h1]; exact h.pcs_set h2
    | handoff hs =>
      unfold Queues.handoff at hs
      split at hs
      · split_ifs at hs
        cases hs
        exact h.pcs_set trivial
      · cases hs
    | push hs => rw [(Queues.push_touched hs).2]; exact h.pcs

end Queues

end Wssocks.Pipe

namespace Wssocks.Wss

open Wssocks.Lib Wssocks.Pipe

variable {W KSUID : Type} [DecidableEq W] [DecidableEq KSUID] [Inhabited W] [Inhabited KSUID]

/-! ## The server -/

/-- The message fits the queue of its master: a `sayhi` names an id of the order, if there is one, an
    `est` brings an order with all ids that have a writer, and with no other if `Send` was
    launched. -/
def Msg.fits (qs : Queues KSUID (WsWriter W KSUID)) : Msg KSUID → Prop
  | .sayhi id m => ∀ q, qs.hub.ref? m = some q → (qs.hub.obj q).sorted ≠ [] → id ∈ (qs.hub.obj q).sorted
  | .est m sort => ∀ q, qs.hub.ref? m = some q → (∀ id ∈ (qs.hub.obj q).writers, id ∈ sort) ∧
      (qs.sends q ≠ [] → ∀ id ∈ sort, id ∈ (qs.hub.obj q).writers)
  | _ => True

/-- The server takes only messages that fit. -/
def Traffic.fits (s : Server W KSUID) : Traffic W KSUID → Prop
  | .act (.recv w) => ∀ x, (s.inbox w).head? = some x → x.fits s.queues
  | _ => True

variable {s s' : Server W KSUID} {l : Traffic W KSUID} {ls : List (Traffic W KSUID)}

/-- The operations a reader executes when it takes a message. -/
def HubOp.fills : HubOp W KSUID → Bool
  | .queueAdd _ _ _ | .queueSort _ _ => true
  | _ => false

omit [DecidableEq W] [DecidableEq KSUID] [Inhabited W] [Inhabited KSUID] in
theorem CloseAt.op_fills {a : CloseAt} {id : KSUID} {o : HubOp W KSUID} (h : a.op id = some o) :
    o.fills = false := by
  cases a <;> cases h <;> rfl

omit [DecidableEq W] [Inhabited W] [Inhabited KSUID] in
theorem Server.op_fills {a : ServerLabel W KSUID} {o : HubOp W KSUID} (h : s.op a = some o)
    (ho : o.fills = true) : ∃ w x, a = .recv w ∧ (s.inbox w).head? = some x ∧ x.op w = some o := by
  cases a with
  | recv w =>
    obtain ⟨x, hx, h1⟩ := Option.bind_eq_some_iff.mp h
    exact ⟨w, x, rfl, hx, h1⟩
  | reader w =>
    simp only [Server.op] at h
    cases hr : s.reader w with
    | close e id a => rw [hr] at h; rw [CloseAt.op_fills h] at ho; cases ho
    | hubCloseAt e id a => rw [hr] at h; rw [CloseAt.op_fills h] at ho; cases ho
    | hi id m | est id sorted => rw [hr] at h; cases h; cases ho
    | _ => rw [hr] at h; cases h
  | est e =>
    simp only [Server.op] at h
    cases hpc : (s.ests e).pc with
    | close a => rw [hpc] at h; rw [CloseAt.op_fills h] at ho; cases ho
    | linkTrySend | queueTrySend => rw [hpc] at h; cases h; cases ho
    | _ => rw [hpc] at h; cases h
  | _ => cases h

omit [Inhabited W] in
omit [Inhabited KSUID] in
theorem staffed_step (h : s.queues.Staffed) (hf : l.fits s) (hs : s.serve l = some s') : s'.queues.Staffed := by
  cases l with
  | arrive w x => cases hs; exact h
  | act a =>
    obtain ⟨out, h1⟩ := Server.serve_act hs
    have hd := (Server.did_of_step h1).1
    cases ho : s.op a with
    | none => rw [ho] at hd; exact h.ran hd
    | some o =>
      rw [ho] at hd
      cases o with
      | queueAdd m id w =>
        obtain ⟨v, x, rfl, hx, h2⟩ := Server.op_fills ho rfl
        have hfit := hf x hx
        cases x <;> cases h2
        exact hd ▸ h.add hfit
      | queueSort m sort =>
        obtain ⟨v, x, rfl, hx, h2⟩ := Server.op_fills ho rfl
        have hfit := hf x hx
        cases x <;> cases h2
        exact hd ▸ h.setSort hfit
      | queueTry m => exact hd ▸ h.trySend
      | queueRemove m => exact hd ▸ h.remove
      | _ => exact h.ran hd

/-- Where `queue.Send` was launched every id of the order has a writer, and no goroutine has fetched a
    missing one. -/
structure Server.Manned (s : Server W KSUID) : Prop where
  launched : ∀ q, s.queues.sends q ≠ [] →
    ∀ id ∈ (s.queues.hub.obj q).sorted, ((s.queues.hub.obj q).writers.lookup id).isSome
  fetched : ∀ q, ∀ pc ∈ s.queues.sends q, (∀ rest, pc ≠ .read none rest) ∧ ∀ b rest, pc ≠ .write none b rest

/-- If the server takes only messages that fit, its splitters never call a missing writer. -/
theorem splitter_has_writers (h : Run Server.serve (fun s l => l.fits s) (Server.init : Server W KSUID) ls s) :
    s.Manned := by
  have hst : s.queues.Staffed :=
    h.invariant (I := fun s => s.queues.Staffed) Queues.Staffed.init fun _ _ _ h1 hf hs => staffed_step h1 hf hs
  refine ⟨fun q hq id hid => AList.lookup_isSome.mpr (hst.staffed q hq id hid), fun q pc hpc => ⟨?_, ?_⟩⟩
  · rintro rest rfl
    cases (hst.pcs q _ hpc).1
  · rintro b rest rfl
    cases (hst.pcs q _ hpc).1

/-- A `sayhi` and an `est` of the master `7`, with the id `hi` and the order `[est]`, and the session up to the
    first chunk that `queue.Send` writes. -/
def oneChunk (hi est : ℕ) : List (Traffic ℕ ℕ) :=
  [.arrive 0 (.sayhi hi 7), .act (.recv 0), .act (.reader 0), .arrive 0 (.est 7 [est]), .act (.recv 0),
    .act (.reader 0), .act (.dial 0 .connected), .act (.est 0), .act (.est 0), .act (.est 0), .act (.est 0),
    .act (.queueSend 0 0 .ok), .act (.queueSend 0 0 .ok), .act (.queueSend 0 0 .ok),
    .act (.copyRead 0 [1] .more), .act (.copy 0), .act (.copy 0), .act (.queueSend 0 0 .ok)]

set_option maxRecDepth 100000 in
/-- `sayhi(8, 7)` and `est(7, [9])`: one writer and one id, so `Send` is launched; it calls the writer of
    `9`, which does not exist. -/
theorem splitter_calls_missing_writer :
    (∃ s, Run Server.serve anyStep Server.init (oneChunk 8 9) s ∧ ¬ Server.Manned s) ∧
    ∃ s, Run Server.serve anyStep Server.init (oneChunk 8 9 ++ [.act (.queueSend 0 0 .ok)]) s ∧
      s.queues.crashed = true := by
  have hexec : (exec Server.serve (fun _ _ => true) Server.init (oneChunk 8 9)).map
      (fun s => s.queues.sends 0) = some [.write none ⟨false, [1]⟩ []] := by decide +kernel
  have hcrash : (exec Server.serve (fun _ _ => true) Server.init
      (oneChunk 8 9 ++ [.act (.queueSend 0 0 .ok)])).map (fun s => s.queues.crashed) = some true := by
    decide +kernel
  obtain ⟨s, hrun, hobs⟩ := exists_run_of_exec hexec
  obtain ⟨t, hrunt, hobst⟩ := exists_run_of_exec hcrash
  refine ⟨⟨s, hrun.mono fun _ _ _ => trivial, fun h => ?_⟩, t, hrunt.mono fun _ _ _ => trivial, hobst⟩
  exact (h.fetched 0 _ (by rw [hobs]; exact List.mem_singleton_self _)).2 _ _ rfl

instance (qs : Queues ℕ (WsWriter ℕ ℕ)) (x : Msg ℕ) : Decidable (x.fits qs) := by
  cases x <;> unfold Msg.fits <;> infer_instance

instance (s : Server ℕ ℕ) : (l : Traffic ℕ ℕ) → Decidable (l.fits s)
  | .act (.recv w) => inferInstanceAs (Decidable (∀ x, (s.inbox w).head? = some x → x.fits s.queues))
  | .arrive _ _ | .act (.reader _) | .act (.writeTimeout _) | .act (.disconnect _) | .act (.hubClose _ _)
  | .act (.dial _ _) | .act (.est _) | .act (.tell _ _) | .act (.waiter _) | .act (.copyRead _ _ _)
  | .act (.copy _) | .act (.copyTimeout _) | .act (.linkSend _ _ _) | .act (.queueSend _ _ _)
  | .act (.linkDone _ _ _) | .act (.queueDone _ _ _) => isTrue trivial

set_option maxRecDepth 100000 in
/-- One lane whose messages fit: the splitter holds its first chunk and the writer for it. -/
theorem splitter_has_writers_one_lane : ∃ s, Run Server.serve (fun s l => l.fits s) Server.init (oneChunk 7 7) s ∧
    s.queues.sends 0 = [.write (some ⟨0, 7⟩) ⟨false, [1]⟩ []] ∧ s.Manned := by
  have hexec : (exec Server.serve (fun s l => decide (l.fits s)) Server.init (oneChunk 7 7)).map
      (fun s => s.queues.sends 0) = some [.write (some ⟨0, 7⟩) ⟨false, [1]⟩ []] := by decide +kernel
  obtain ⟨s, hrun, hobs⟩ := exists_run_of_exec hexec
  have hrun' : Run Server.serve (fun s l => l.fits s) Server.init _ s :=
    hrun.mono fun _ _ h => of_decide_eq_true h
  exact ⟨s, hrun', hobs, splitter_has_writers hrun'⟩

end Wssocks.Wss

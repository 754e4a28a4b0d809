import Wssocks.Wss.Closing

/-!
# Close requests

A `finish`, or the disconnect of the websocket, asks for the end of the sessions of a websocket. It
closes the instances that it finds in the connection pool, and an entry that was removed comes back
when a `sayhi` or an `est` of the session is handled later.

Results:

* `close_request_lost`: a `finish` that is handled while `establish` dials has no effect.
* `close_request_carried_out`: a close request that finds its instance in the pool closes it, and the
  queue and the links of the session leave the hubs, if nothing that names one of its ids is handled
  after that.
-/

namespace Wssocks.Wss

open Wssocks.Lib Wssocks.Pipe

variable {W KSUID : Type} [DecidableEq KSUID]

/-! ## Events -/

/-- `establish` has not got past `Wait`. -/
def EstPc.waits : EstPc → Bool
  | .wait => true
  | pc => pc.beforeWait

/-- What happens to the sessions: a close request reaches instance `e`, or an operation of a hub is
    executed. -/
inductive CloseEvent (W KSUID : Type) where
  | asked (e : ℕ)
  | op (o : HubOp W KSUID)
  deriving DecidableEq

variable {s s' : Server W KSUID} {e : ℕ} {log new : List (CloseEvent W KSUID)}

/-- The instances that a close request is meant for. -/
def Server.addressed (s : Server W KSUID) (p : Est W KSUID → Bool) : List ℕ :=
  (List.range s.nextEst).filter fun e => (s.ests e).pc.waits && p (s.ests e)

theorem mem_addressed {p : Est W KSUID → Bool} (h : e ∈ s.addressed p) : e < s.nextEst ∧ p (s.ests e) = true := by
  simp only [Server.addressed, List.mem_filter, List.mem_range, Bool.and_eq_true] at h
  exact ⟨h.1, h.2.2⟩

/-! ## The entries of a session -/

/-- The ids of the session that an `est` starts. -/
def CloseEvent.brings : CloseEvent W KSUID → List KSUID
  | .op (.linkSort m sorted) => m :: sorted
  | _ => []

/-- The ids under which the handling of a `sayhi` or an `est` may create an entry. -/
def CloseEvent.names : CloseEvent W KSUID → List KSUID
  | .op (.queueAdd m _ _) | .op (.queueSort m _) | .op (.linkSort m _) => [m]
  | .op (.linkAdd id m) => [id, m]
  | _ => []

/-- The master id whose entries `Close` removes. -/
def CloseEvent.removed : CloseEvent W KSUID → Option KSUID
  | .op (.linkRemove m) | .op (.queueRemove m) => some m
  | _ => none

/-- The ids of session `m`, as its `est` gave them. -/
def sessionIds (log : List (CloseEvent W KSUID)) (m : KSUID) : List KSUID :=
  log.flatMap fun x => if x.brings.head? = some m then x.brings else []

/-- Sessions have no id in common, and once `Close` has begun to remove the entries of a session nothing
    that names one of its ids is handled any more. -/
structure Timely (log : List (CloseEvent W KSUID)) : Prop where
  apart : log.Pairwise fun x y => ∀ k ∈ x.brings, k ∈ y.brings → y.brings = x.brings
  late : log.Pairwise fun x y => ∀ m ∈ x.removed, ∀ k ∈ y.names, k ∉ sessionIds log m

theorem mem_sessionIds {m k : KSUID} {sorted : List KSUID} (h : .op (.linkSort m sorted) ∈ log)
    (hk : k ∈ m :: sorted) : k ∈ sessionIds log m :=
  List.mem_flatMap.mpr ⟨_, h, by simpa [CloseEvent.brings] using hk⟩

theorem sessionIds_append {m : KSUID} :
    sessionIds (log ++ new) m = sessionIds log m ++ sessionIds new m := List.flatMap_append

theorem exists_linkSort {m k : KSUID} (h : k ∈ sessionIds log m) :
    ∃ sorted, .op (.linkSort m sorted) ∈ log ∧ k ∈ m :: sorted := by
  obtain ⟨x, hx, hk⟩ := List.mem_flatMap.mp h
  split_ifs at hk with hm
  · cases x with
    | asked => cases hm
    | op o =>
      cases o with
      | linkSort m' sorted => cases hm; exact ⟨sorted, hx, hk⟩
      | _ => cases hm
  · cases hk

theorem Timely.of_append (h : Timely (log ++ new)) : Timely log where
  apart := (List.pairwise_append.mp h.apart).1
  late := (List.pairwise_append.mp h.late).1.imp fun h1 m hm k hk hin =>
    h1 m hm k hk (by rw [sessionIds_append]; exact List.mem_append_left _ hin)

/-- Two `est` with an id in common are the same. -/
theorem Timely.eq_of_mem {m m' k : KSUID} {sorted sorted' : List KSUID} (h : Timely log)
    (h1 : .op (.linkSort m sorted) ∈ log) (h2 : .op (.linkSort m' sorted') ∈ log) (hk : k ∈ m :: sorted)
    (hk' : k ∈ m' :: sorted') : m' = m ∧ sorted' = sorted := by
  obtain ⟨i, hi, hx⟩ := List.mem_iff_getElem.mp h1
  obtain ⟨j, hj, hy⟩ := List.mem_iff_getElem.mp h2
  have hrel := List.pairwise_iff_getElem.mp h.apart
  rcases lt_trichotomy i j with hlt | rfl | hlt
  · have h3 := hrel i j hi hj hlt
    rw [hx, hy] at h3
    exact List.cons.inj (h3 k hk hk')
  · rw [hx] at hy
    cases hy
    exact ⟨rfl, rfl⟩
  · have h3 := hrel j i hj hi hlt
    rw [hx, hy] at h3
    obtain ⟨h4, h5⟩ := List.cons.inj (h3 k hk' hk)
    exact ⟨h4.symm, h5.symm⟩

/-- A handshake message that is handled now names no id of a session that was closed. -/
theorem Timely.not_mem {x y : CloseEvent W KSUID} {m k : KSUID} (h : Timely (log ++ new)) (hx : x ∈ log)
    (hm : x.removed = some m) (hy : y ∈ new) (hk : k ∈ y.names) : k ∉ sessionIds (log ++ new) m :=
  (List.pairwise_append.mp h.late).2.2 x hx y hy m hm k hk

/-! ## What an operation does to the entries -/

section

variable {o : Option (HubOp W KSUID)}

/-- A queue that is not there stays away, if the operation does not name its id. -/
theorem QueuesDid.ref?_none {q q' : Queues KSUID (WsWriter W KSUID)} {k : KSUID}
    (h : QueuesDid q q' o) (hk : q.hub.ref? k = none) (hn : ∀ x, o = some x → k ∉ (CloseEvent.op x).names) :
    q'.hub.ref? k = none := by
  have hran : Queues.Ran q q' → q'.hub.ref? k = none := fun hr => (hr.ref? k).trans hk
  cases o with
  | none => exact hran h
  | some x =>
    have hx := hn x rfl
    cases x with
    | queueAdd m id w =>
      rw [show q' = q.add m id w from h, Queues.hub_add, QueueHub.ref?_add, if_neg (by simpa [CloseEvent.names] using hx),
        hk]
    | queueSort m sort =>
      rw [show q' = q.setSort m sort from h, Queues.setSort, QueueHub.ref?_setSort,
        if_neg (by simpa [CloseEvent.names] using hx), hk]
    | queueTry m => rw [show q' = q.trySend m from h, Queues.hub_trySend, hk]
    | queueRemove m =>
      rw [show q' = q.remove m from h, Queues.remove, QueueHub.ref?_remove]
      split_ifs
      · rfl
      · exact hk
    | linkAdd | linkSort | linkTry | linkRemove => exact hran h

/-- The same for links. -/
theorem LinksDid.ref?_none {k k' : Links KSUID} {i : KSUID} (h : LinksDid k k' o) (hi : k.hub.ref? i = none)
    (hn : ∀ x, o = some x → i ∉ (CloseEvent.op x).names) : k'.hub.ref? i = none := by
  have hran : Links.Ran k k' → k'.hub.ref? i = none := fun hr => (hr.ref? i).trans hi
  cases o with
  | none => exact hran h
  | some x =>
    have hx := hn x rfl
    cases x with
    | linkAdd id m =>
      simp only [CloseEvent.names, List.mem_cons, List.not_mem_nil, or_false, not_or] at hx
      rw [show k'.hub = (LinkHub.add k.hub id m).1 by rw [h]; exact Links.hub_launch, LinkHub.ref?_add,
        if_neg hx.2, if_neg hx.1, hi]
    | linkSort m sort =>
      rw [show k' = k.setSort m sort from h, Links.setSort, LinkHub.ref?_setSort,
        if_neg (by simpa [CloseEvent.names] using hx), hi]
    | linkTry m c =>
      rw [show k'.hub = (LinkHub.trySend k.hub m (some c)).1 by rw [h]; exact Links.hub_launch, LinkHub.ref?_trySend,
        hi]
    | linkRemove m =>
      rw [show k' = k.removeAll m from h, Links.removeAll]
      cases hm : k.hub.ref? m with
      | none => rw [LinkHub.removeAll_missing hm, hi]
      | some q => rw [LinkHub.ref?_removeAll hm, hi, ite_self]
    | queueAdd | queueSort | queueTry | queueRemove => exact hran h

/-- An order changes by `SetSort` only. -/
theorem LinksDid.sorted {k k' : Links KSUID} {r : ℕ} (h : LinksDid k k' o) (hr : r < k.hub.next)
    (ho : ∀ m sort, o = some (.linkSort m sort) → k.hub.ref? m ≠ some r) :
    (k'.hub.obj r).sorted = (k.hub.obj r).sorted := by
  have hran : Links.Ran k k' → (k'.hub.obj r).sorted = (k.hub.obj r).sorted := fun h1 => h1.sorted r
  cases o with
  | none => exact hran h
  | some x =>
    cases x with
    | linkAdd id m => rw [show k' = k.add id m from h, Links.sorted_add hr]
    | linkTry m c => rw [show k' = k.trySend m c from h, Links.sorted_trySend]
    | linkRemove m => rw [show k' = k.removeAll m from h, Links.sorted_removeAll]
    | linkSort m sort =>
      rw [show k' = k.setSort m sort from h, Links.setSort, LinkHub.obj_setSort_of_lt hr, if_neg]
      rintro rfl
      -- the master's link is another one
      cases hm : k.hub.ref? m with
      | some q => exact ho m sort rfl (by rw [LinkHub.masterRef, hm]; rfl)
      | none =>
        rw [LinkHub.masterRef, hm] at hr
        exact lt_irrefl _ hr
    | queueAdd | queueSort | queueTry | queueRemove => exact hran h

/-- `SetSort` leaves a link with the order. -/
theorem exists_link_setSort {k : Links KSUID} {m : KSUID} {sort : List KSUID} :
    ∃ q, (k.setSort m sort).hub.ref? m = some q ∧ ((k.setSort m sort).hub.obj q).sorted = sort := by
  refine ⟨LinkHub.masterRef k.hub m, by rw [Links.setSort, LinkHub.ref?_setSort, if_pos rfl], ?_⟩
  rw [Links.setSort]
  cases hm : k.hub.ref? m with
  | some q =>
    have hq : LinkHub.masterRef k.hub m = q := by rw [LinkHub.masterRef, hm]; rfl
    rw [hq, LinkHub.obj_setSort_of_lt (Registry.ref?_lt hm), if_pos hq.symm]
  | none =>
    have hq : LinkHub.masterRef k.hub m = k.hub.next := by rw [LinkHub.masterRef, hm]; rfl
    rw [hq, LinkHub.obj_setSort_new hm]

/-- A link with an order stays, unless it is removed or gets another order. -/
theorem LinksDid.keeps {k k' : Links KSUID} {m : KSUID} {sort : List KSUID} (h : LinksDid k k' o)
    (hk : ∃ q, k.hub.ref? m = some q ∧ (k.hub.obj q).sorted = sort)
    (hs : ∀ sort', o = some (.linkSort m sort') → sort' = sort)
    (hr : ∀ m' r, o = some (.linkRemove m') → k.hub.ref? m' = some r → m ∉ m' :: (k.hub.obj r).sorted) :
    ∃ q, k'.hub.ref? m = some q ∧ (k'.hub.obj q).sorted = sort := by
  obtain ⟨q, hq, hsort⟩ := hk
  by_cases hself : ∃ sort', o = some (.linkSort m sort')
  · obtain ⟨sort', rfl⟩ := hself
    rw [← hs sort' rfl, show k' = k.setSort m sort' from h]
    exact exists_link_setSort
  refine ⟨q, ?_, ?_⟩
  · by_cases hrm : ∃ m', o = some (.linkRemove m')
    · obtain ⟨m', rfl⟩ := hrm
      rw [show k' = k.removeAll m' from h, Links.removeAll]
      cases hm' : k.hub.ref? m' with
      | none => rw [LinkHub.removeAll_missing hm', hq]
      | some r =>
        have hnot := hr m' r rfl hm'
        rw [List.mem_cons] at hnot
        rw [LinkHub.ref?_removeAll hm', if_neg hnot, hq]
    · by_cases hqr : ∃ m', o = some (.queueRemove m')
      · obtain ⟨m', rfl⟩ := hqr
        exact (Links.Ran.ref? h m).trans hq
      · refine h.ref?_mono (fun x hx => ?_) hq
        cases x with
        | linkRemove m' => exact absurd ⟨m', hx⟩ hrm
        | queueRemove m' => exact absurd ⟨m', hx⟩ hqr
        | _ => rfl
  · rw [h.sorted (Registry.ref?_lt hq), hsort]
    intro m' sort' ho hm'
    exact hself ⟨sort', by rw [ho, Registry.ref?_inj hm' hq]⟩

end

/-! ## Requests -/

variable [DecidableEq W] {l : Traffic W KSUID} {ls : List (Traffic W KSUID)} {a : ServerLabel W KSUID}
  {out : Option (W × Msg KSUID)}

/-- The instances that a step asks to close: by a `finish` of their id, or by the disconnect of their
    websocket, after `est` was handled. -/
def Server.asks (s : Server W KSUID) : ServerLabel W KSUID → List ℕ
  | .recv w =>
    match (s.inbox w).head? with
    | some (.finish id) => s.addressed fun x => decide (x.ws = w ∧ x.id = id)
    | _ => []
  | .disconnect w => s.addressed fun x => decide (x.ws = w)
  | _ => []

def Traffic.closeEvents (s : Server W KSUID) : Traffic W KSUID → List (CloseEvent W KSUID)
  | .act a => (s.asks a).map .asked ++ (s.op a).toList.map .op
  | _ => []

/-- A close request finds the instances it is meant for in the pool. -/
def Traffic.finds (s : Server W KSUID) (l : Traffic W KSUID) : Prop :=
  ∀ e, .asked e ∈ l.closeEvents s → (s.pool (s.ests e).ws).lookup (s.ests e).id = some e

theorem asked_mem_closeEvents : .asked e ∈ (Traffic.act a).closeEvents s ↔ e ∈ s.asks a := by
  simp [Traffic.closeEvents]

theorem op_mem_closeEvents {o : HubOp W KSUID} : .op o ∈ (Traffic.act a).closeEvents s ↔ s.op a = some o := by
  simp [Traffic.closeEvents]

theorem Server.recv_finish {w : W} {id : KSUID} (h : s.step (.recv w) = some (s', out))
    (hin : (s.inbox w).head? = some (.finish id)) (hp : (s.pool w).lookup id = some e) :
    (s'.reader w).closing = some (e, id, .test) := by
  cases ServerStep.of_step h with
  | recv hr hx =>
    rw [hx] at hin
    cases hin
    simp only [Server.dispatch, hp]
    rw [Server.goReader_self]
    rfl

theorem Server.disconnect_of_step {w : W} (h : s.step (.disconnect w) = some (s', out)) :
    (s'.reader w).locked = true ∧ s'.pool = s.pool := by
  cases ServerStep.of_step h with
  | disconnect => rw [Server.goReader_self]; exact ⟨rfl, rfl⟩

/-- The request has not reached the instance: the reader is about to call `Close`, or `hub.Close` has
    the instance still in the pool. -/
def Pending (s : Server W KSUID) (w : W) (id : KSUID) (e : ℕ) : Prop :=
  (s.reader w).closing = some (e, id, .test) ∨ ((s.reader w).locked = true ∧ (s.pool w).lookup id = some e)

/-- A request that finds its instance. -/
theorem Pending.ask (hs : s.step a = some (s', out)) (hf : (Traffic.act a).finds s) (he : e ∈ s.asks a) :
    e < s.nextEst ∧ Pending s' (s.ests e).ws (s.ests e).id e := by
  have hp := hf e (asked_mem_closeEvents.mpr he)
  cases a with
  | recv w =>
    simp only [Server.asks] at he
    split at he
    · rename_i id hin
      obtain ⟨h1, h2⟩ := mem_addressed he
      obtain ⟨h3, h4⟩ := of_decide_eq_true h2
      rw [h3, h4] at hp ⊢
      exact ⟨h1, .inl (Server.recv_finish hs hin hp)⟩
    · cases he
  | disconnect w =>
    rw [Server.asks] at he
    obtain ⟨h1, h2⟩ := mem_addressed he
    have h3 : (s.ests e).ws = w := of_decide_eq_true h2
    obtain ⟨h4, h5⟩ := Server.disconnect_of_step hs
    rw [h3] at hp ⊢
    exact ⟨h1, .inr ⟨h4, h5 ▸ hp⟩⟩
  | _ => cases he

/-- A request that is on the way to its instance. -/
theorem Pending.step (h : Pooled s) (hs : s.step a = some (s', out)) (he : e < s.nextEst)
    (hp : Pending s (s.ests e).ws (s.ests e).id e) :
    (s'.ests e).closed = true ∨ Pending s' (s.ests e).ws (s.ests e).id e := by
  have hm := Server.moves_of_step hs
  have hkeep := ((hm.est e).keeps he).2.2
  rcases hp with hr | ⟨hlk, hp⟩
  · by_cases ha : a = .reader (s.ests e).ws
    · exact .inl ((Server.close_of_step (ha ▸ hs) hr).2 rfl)
    · refine .inr (.inl ?_)
      rw [(hm.reader _).closing_stays hr ha]
      exact hr
  · have hlk' : (s'.reader (s.ests e).ws).locked = true := by
      rcases (hm.reader _).locked_stays hlk with h1 | h1
      · exact h1
      · rw [AList.lookup, h1] at hp
        cases hp
    unfold Pending
    generalize hx : s'.pool (s.ests e).ws = y
    have hpm := hm.pool (s.ests e).ws
    rw [hx] at hpm
    cases hpm with
    | same => exact .inr (.inr ⟨hlk', hp⟩)
    | add _ _ _ hlock => rw [hlk] at hlock; cases hlock
    | remove _ _ _ hlock => rw [hlk] at hlock; cases hlock
    | @drop i k d hl hrd hn =>
      by_cases hid : (s.ests e).id = k
      · -- the entry that is deleted is the one that was closed
        left
        subst hid
        have hi : i = e := by
          have h1 := h.hub hrd
          rw [hp] at h1
          exact (Option.some.inj h1).symm
        subst hi
        refine hkeep ?_
        cases d with
        | test =>
          by_contra hc
          simp [Server.closeNext, hc] at hn
        | links => cases hn
        | queue =>
          refine (h.reader (show (s.reader _).closing = some (i, _, .queue) by rw [hrd]; rfl)).2.2.2 fun hc => ?_
          cases hc
      · exact .inr (.inr ⟨hlk', by rw [AList.lookup_erase_ne hid]; exact hp⟩)

/-- How far the close requests are. -/
structure Requested (log : List (CloseEvent W KSUID)) (s : Server W KSUID) : Prop where
  closings : Closings (fun o => .op o ∈ log) s
  asked : ∀ e, .asked e ∈ log → e < s.nextEst ∧
    ((s.ests e).closed = true ∨ Pending s (s.ests e).ws (s.ests e).id e)

theorem Requested.step (h : Requested log s) (hf : l.finds s) (hs : s.serve l = some s') :
    Requested (log ++ l.closeEvents s) s' := by
  cases l with
  | arrive w x =>
    cases hs
    simp only [Traffic.closeEvents, List.append_nil]
    have hp := h.closings.pooled
    exact ⟨⟨⟨hp.pool, hp.reader, hp.hub⟩, h.closings.closed⟩, h.asked⟩
  | act a =>
    obtain ⟨out, h1⟩ := Server.serve_act hs
    have hm := Server.moves_of_step h1
    have hle := hm.next_le
    refine ⟨h.closings.step h1 (fun _ h2 => List.mem_append_left _ h2) fun _ h2 =>
      List.mem_append_right _ (op_mem_closeEvents.mpr h2), fun e he => ?_⟩
    have hpend : e < s.nextEst ∧ ((s'.ests e).closed = true ∨ Pending s' (s.ests e).ws (s.ests e).id e) := by
      rcases List.mem_append.mp he with h2 | h2
      · obtain ⟨h3, h4 | h4⟩ := h.asked e h2
        · exact ⟨h3, .inl (((hm.est e).keeps h3).2.2 h4)⟩
        · exact ⟨h3, Pending.step h.closings.pooled h1 h3 h4⟩
      · obtain ⟨h3, h4⟩ := Pending.ask h1 hf (asked_mem_closeEvents.mp h2)
        exact ⟨h3, .inr h4⟩
    obtain ⟨hws, hid, -⟩ := (hm.est e).keeps hpend.1
    rw [hws, hid]
    exact ⟨by omega, hpend.2⟩

/-! ## The hubs of a run -/

/-- What the log tells about the hubs. -/
structure Entries (log : List (CloseEvent W KSUID)) (s : Server W KSUID) : Prop where
  started : ∀ e < s.nextEst, ∃ sorted, .op (.linkSort (s.ests e).id sorted) ∈ log
  /-- `Close` is called for a session that an `est` started. -/
  closed : ∀ x ∈ log, ∀ m, x.removed = some m → m ∈ sessionIds log m
  kept : ∀ m sorted, .op (.linkSort m sorted) ∈ log → .op (.linkRemove m) ∉ log →
    ∃ q, s.links.hub.ref? m = some q ∧ (s.links.hub.obj q).sorted = sorted
  links : ∀ m k, .op (.linkRemove m) ∈ log → k ∈ sessionIds log m → s.links.hub.ref? k = none
  queue : ∀ m, .op (.queueRemove m) ∈ log → s.queues.hub.ref? m = none

section
variable (h : Entries log s) (hp : Pooled s) (hs : s.step a = some (s', out))
include h hs

/-- Every instance goes back to an `est`. -/
theorem Entries.started_step (he : e < s'.nextEst) :
    ∃ sorted, .op (.linkSort (s'.ests e).id sorted) ∈ log ++ (Traffic.act a).closeEvents s := by
  have hm := Server.moves_of_step hs
  by_cases hlt : e < s.nextEst
  · obtain ⟨sorted, h1⟩ := h.started e hlt
    rw [((hm.est e).keeps hlt).2.1]
    exact ⟨sorted, List.mem_append_left _ h1⟩
  · rcases hm.next with h1 | ⟨w, id, sorted, rfl, hr, h1, h2⟩
    · omega
    · have hn : e = s.nextEst := by omega
      rw [hn, h2]
      refine ⟨sorted, List.mem_append_right _ (op_mem_closeEvents.mpr ?_)⟩
      rw [Server.op, hr]
      rfl

include hp

theorem Entries.closed_step {x : CloseEvent W KSUID} {m : KSUID} (hx : x ∈ log ++ (Traffic.act a).closeEvents s)
    (hm : x.removed = some m) : m ∈ sessionIds (log ++ (Traffic.act a).closeEvents s) m := by
  rw [sessionIds_append, List.mem_append]
  left
  rcases List.mem_append.mp hx with h1 | h1
  · exact h.closed x h1 m hm
  · cases x with
    | asked => cases hm
    | op o =>
      have ho := op_mem_closeEvents.mp h1
      have hrem : o.removes = true := by cases o <;> first | rfl | cases hm
      obtain ⟨e, he, h2⟩ := hp.removes hs ho hrem
      have hid : m = (s.ests e).id := by rcases h2 with rfl | rfl <;> cases hm <;> rfl
      obtain ⟨sorted, h3⟩ := h.started e he
      rw [hid]
      exact mem_sessionIds h3 List.mem_cons_self

variable (ht : Timely (log ++ (Traffic.act a).closeEvents s))
include ht

theorem Entries.kept_step {m : KSUID} {sorted : List KSUID}
    (hin : .op (.linkSort m sorted) ∈ log ++ (Traffic.act a).closeEvents s)
    (hno : .op (.linkRemove m) ∉ log ++ (Traffic.act a).closeEvents s) :
    ∃ q, s'.links.hub.ref? m = some q ∧ (s'.links.hub.obj q).sorted = sorted := by
  have hl := (Server.did_of_step hs).2
  rcases List.mem_append.mp hin with h1 | h1
  · refine hl.keeps (h.kept m sorted h1 fun h2 => hno (List.mem_append_left _ h2)) (fun sort' ho => ?_)
      fun m' r ho hr hmem => ?_
    · -- the same order once more
      have h2 := List.mem_append_right log (op_mem_closeEvents.mpr ho)
      exact (ht.eq_of_mem hin h2 List.mem_cons_self List.mem_cons_self).2
    · -- another session is closed, with ids of its own
      have h2 : m' ∈ sessionIds log m' := by
        obtain ⟨e, he, h3⟩ := hp.removes hs ho rfl
        obtain ⟨sorted', h4⟩ := h.started e he
        rcases h3 with h3 | h3 <;> cases h3
        exact mem_sessionIds h4 List.mem_cons_self
      obtain ⟨sorted', h3, -⟩ := exists_linkSort h2
      by_cases hold : .op (.linkRemove m') ∈ log
      · rw [h.links m' m' hold h2] at hr
        cases hr
      · obtain ⟨q, hq, hsort⟩ := h.kept m' sorted' h3 hold
        obtain rfl : q = r := Option.some.inj (hq.symm.trans hr)
        rw [hsort] at hmem
        obtain ⟨rfl, -⟩ := ht.eq_of_mem hin (List.mem_append_left _ h3) List.mem_cons_self hmem
        exact hno (List.mem_append_right _ (op_mem_closeEvents.mpr ho))
  · rw [op_mem_closeEvents.mp h1] at hl
    rw [show s'.links = s.links.setSort m sorted from hl]
    exact exists_link_setSort

omit hp in
theorem Entries.links_step {m k : KSUID} (hin : .op (.linkRemove m) ∈ log ++ (Traffic.act a).closeEvents s)
    (hk : k ∈ sessionIds (log ++ (Traffic.act a).closeEvents s) m) : s'.links.hub.ref? k = none := by
  have hl := (Server.did_of_step hs).2
  by_cases hold : .op (.linkRemove m) ∈ log
  · have hnot : ∀ x, s.op a = some x → ∀ i ∈ (CloseEvent.op x).names,
        i ∉ sessionIds (log ++ (Traffic.act a).closeEvents s) m :=
      fun x hx i hi => ht.not_mem hold rfl (op_mem_closeEvents.mpr hx) hi
    refine hl.ref?_none (h.links m k hold ?_) fun x hx hi => hnot x hx k hi hk
    -- an `est` of the session would name it
    obtain ⟨sorted, h1, h2⟩ := exists_linkSort hk
    rcases List.mem_append.mp h1 with h3 | h3
    · exact mem_sessionIds h3 h2
    · exact absurd (mem_sessionIds h1 List.mem_cons_self) (hnot _ (op_mem_closeEvents.mp h3) m List.mem_cons_self)
  · have hop := op_mem_closeEvents.mp ((List.mem_append.mp hin).resolve_left hold)
    rw [hop] at hl
    obtain ⟨sorted, h1, h2⟩ := exists_linkSort hk
    have h3 : .op (.linkSort m sorted) ∈ log := by
      refine (List.mem_append.mp h1).resolve_right fun h3 => ?_
      rw [op_mem_closeEvents, hop] at h3
      cases h3
    obtain ⟨q, hq, hsort⟩ := h.kept m sorted h3 hold
    rw [show s'.links = s.links.removeAll m from hl, Links.removeAll, LinkHub.ref?_removeAll hq, hsort,
      if_pos (List.mem_cons.mp h2)]

theorem Entries.queue_step {m : KSUID} (hin : .op (.queueRemove m) ∈ log ++ (Traffic.act a).closeEvents s) :
    s'.queues.hub.ref? m = none := by
  have hq := (Server.did_of_step hs).1
  rcases List.mem_append.mp hin with h1 | h1
  · refine hq.ref?_none (h.queue m h1) fun x hx hk => ?_
    exact ht.not_mem h1 rfl (op_mem_closeEvents.mpr hx) hk (h.closed_step hp hs hin rfl)
  · rw [op_mem_closeEvents.mp h1] at hq
    rw [show s'.queues = s.queues.remove m from hq, Queues.remove, QueueHub.ref?_remove, if_pos rfl]

end

theorem Entries.step (h : Entries log s) (hp : Pooled s) (hs : s.serve l = some s')
    (ht : Timely (log ++ l.closeEvents s)) : Entries (log ++ l.closeEvents s) s' := by
  cases l with
  | arrive w x =>
    cases hs
    simp only [Traffic.closeEvents, List.append_nil]
    exact ⟨h.started, h.closed, h.kept, h.links, h.queue⟩
  | act a =>
    obtain ⟨out, h1⟩ := Server.serve_act hs
    exact ⟨fun _ => h.started_step h1, fun _ hx _ => h.closed_step hp h1 hx, fun _ _ => h.kept_step hp h1 ht,
      fun _ _ => h.links_step h1 ht, fun _ => h.queue_step hp h1 ht⟩

/-! ## Whole runs -/

variable [Inhabited W] [Inhabited KSUID]

/-- The events of a run of the server. -/
def eventLog (ls : List (Traffic W KSUID)) : List (CloseEvent W KSUID) :=
  history Server.serve (fun s l => l.closeEvents s) Server.init ls

theorem requested_of_run (h : Run Server.serve (fun s l => l.finds s) (Server.init : Server W KSUID) ls s) :
    Requested (eventLog ls) s ∧ (Timely (eventLog ls) → Entries (eventLog ls) s) := by
  refine h.history_invariant (I := fun log s => Requested log s ∧ (Timely log → Entries log s)) ?_ ?_
  · exact ⟨⟨Closings.init, nofun⟩, fun _ => ⟨nofun, nofun, nofun, nofun, nofun⟩⟩
  · rintro log s l s' ⟨h1, h2⟩ hf hs
    exact ⟨h1.step hf hs, fun ht => (h2 ht.of_append).step h1.closings.pooled hs ht⟩

/-- Every close request that finds its instance in the pool is carried out, if nothing that names an id
    of the session is handled later: once the request has been handled, an `establish` that waits has
    been closed, and neither its queue nor one of the links of its `est` is in the hubs. -/
theorem close_request_carried_out
    (h : Run Server.serve (fun s l => l.finds s) (Server.init : Server W KSUID) ls s) (htime : Timely (eventLog ls))
    (hpc : (s.ests e).pc = .wait) (hask : .asked e ∈ eventLog ls)
    (hdone : (s.reader (s.ests e).ws).closing = none ∧ (s.reader (s.ests e).ws).locked = false) :
    (s.ests e).closed = true ∧ s.queues.hub.ref? (s.ests e).id = none ∧
      (s.ests e).id ∈ sessionIds (eventLog ls) (s.ests e).id ∧
      ∀ k ∈ sessionIds (eventLog ls) (s.ests e).id, s.links.hub.ref? k = none := by
  obtain ⟨hreq, hent⟩ := requested_of_run h
  obtain ⟨he, h1⟩ := hreq.asked e hask
  have hcl : (s.ests e).closed = true := by
    rcases h1 with h1 | h1 | h1
    · exact h1
    · rw [hdone.1] at h1; cases h1
    · rw [hdone.2] at h1; cases h1.1
  have hboth : Closed (fun o => .op o ∈ eventLog ls) (s.ests e).id := by
    rcases hreq.closings.closed e he hcl with h2 | ⟨c, -, -, h3 | h3⟩
    · exact h2
    · rw [hdone.1] at h3; cases h3
    · rw [hpc] at h3; cases h3
  have hin := hent htime
  exact ⟨hcl, hin.queue _ hboth.2, hin.closed _ hboth.1 _ rfl, fun k => hin.links _ k hboth.1⟩

/-- A `finish` that is handled while `establish` dials. -/
def earlyFinish : List (Traffic ℕ ℕ) :=
  [.arrive 0 (.sayhi 7 7), .arrive 0 (.est 7 [7]), .act (.recv 0), .act (.reader 0), .act (.recv 0),
    .act (.reader 0), .arrive 0 (.finish 7), .act (.recv 0), .act (.dial 0 .connected), .act (.est 0),
    .act (.est 0), .act (.est 0), .act (.est 0)]

set_option maxRecDepth 100000 in
/-- The `finish` finds no instance in the pool and is dropped; `establish` goes on, adds itself to the pool and
    waits, and nobody closes the session. -/
theorem close_request_lost : ∃ s, Run Server.serve anyStep Server.init earlyFinish s ∧
    .asked 0 ∈ eventLog earlyFinish ∧ (s.ests 0).pc = .wait ∧ (s.reader (s.ests 0).ws).closing = none ∧
    (s.reader (s.ests 0).ws).locked = false ∧ (s.ests 0).closed = false ∧
    (s.queues.hub.ref? 7).isSome ∧ (s.links.hub.ref? 7).isSome := by
  have hexec : (exec Server.serve (fun _ _ => true) Server.init earlyFinish).map (fun s =>
      decide ((s.ests 0).pc = .wait ∧ (s.reader (s.ests 0).ws).closing = none ∧
        (s.reader (s.ests 0).ws).locked = false ∧ (s.ests 0).closed = false ∧
        (s.queues.hub.ref? 7).isSome ∧ (s.links.hub.ref? 7).isSome)) = some true := by decide +kernel
  have hask : .asked 0 ∈ eventLog earlyFinish := by decide +kernel
  obtain ⟨s, hrun, hobs⟩ := exists_run_of_exec hexec
  exact ⟨s, hrun.mono fun _ _ _ => trivial, hask, of_decide_eq_true hobs⟩

/-- The event is no request, or the request finds its instance. -/
def CloseEvent.found (s : Server W KSUID) : CloseEvent W KSUID → Bool
  | .asked e => decide ((s.pool (s.ests e).ws).lookup (s.ests e).id = some e)
  | _ => true

/-- A session with the lanes `7` and `8`, up to `Wait`, and then a `finish`. The second session shares the
    websockets. -/
def lateFinish : List (Traffic ℕ ℕ) :=
  [Traffic.arrive 0 (.sayhi 7 7), .arrive 1 (.sayhi 8 7), .arrive 0 (.est 7 [7, 8]), .act (.recv 1), .act (.recv 0),
    .act (.reader 0), .act (.reader 1), .act (.recv 0), .act (.reader 0), .act (.dial 0 .connected), .act (.est 0),
    .act (.est 0), .act (.est 0), .act (.est 0), .arrive 1 (.sayhi 9 9), .act (.recv 1)] ++ closeByFinish ++
  [Traffic.act (.reader 1), .arrive 1 (.est 9 [9]), .act (.recv 1), .act (.reader 1)]

set_option maxRecDepth 100000 in
/-- The `finish` that comes when `establish` waits takes both lanes of the session out of the hubs; the
    other session stays. -/
theorem close_request_carried_out_late :
    ∃ s, Run Server.serve (fun s l => l.finds s) Server.init lateFinish s ∧ Timely (eventLog lateFinish) ∧
      sessionIds (eventLog lateFinish) 7 = [7, 7, 8] ∧ (s.queues.hub.ref? 9).isSome ∧ (s.links.hub.ref? 9).isSome ∧
      (s.ests 0).pc = .wait ∧ (s.ests 0).closed = true ∧ s.queues.hub.ref? (s.ests 0).id = none ∧
      (s.ests 0).id ∈ sessionIds (eventLog lateFinish) (s.ests 0).id ∧
      ∀ k ∈ sessionIds (eventLog lateFinish) (s.ests 0).id, s.links.hub.ref? k = none := by
  have hexec : (exec Server.serve (fun s l => (l.closeEvents s).all (CloseEvent.found s)) Server.init
      lateFinish).map (fun s => decide ((s.ests 0).pc = .wait ∧ ((s.reader (s.ests 0).ws).closing = none ∧
        (s.reader (s.ests 0).ws).locked = false) ∧ (s.queues.hub.ref? 9).isSome ∧
        (s.links.hub.ref? 9).isSome)) = some true := by decide +kernel
  have hask : .asked 0 ∈ eventLog lateFinish := by decide +kernel
  have htime : Timely (eventLog lateFinish) := ⟨by decide +kernel, by decide +kernel⟩
  have hids : sessionIds (eventLog lateFinish) 7 = [7, 7, 8] := by decide +kernel
  obtain ⟨s, hrun, hobs⟩ := exists_run_of_exec hexec
  obtain ⟨hpc, hdone, hq, hl⟩ := of_decide_eq_true hobs
  have hrun' : Run Server.serve (fun s l => l.finds s) Server.init lateFinish s := hrun.mono fun a l h e he =>
    of_decide_eq_true (List.all_eq_true.mp h _ he)
  exact ⟨s, hrun', htime, hids, hq, hl, hpc, close_request_carried_out hrun' htime hpc hask hdone⟩

end Wssocks.Wss

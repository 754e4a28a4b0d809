import Wssocks.Wss.Closing
import Wssocks.Wss.Handshake

/-!
# What is left when a session ends

A session of `n` lanes makes `n` links and one queue on the server. `Close` takes them out of the
hubs, but it runs on the master lane, so it can overtake the `sayhi` of another lane; and `establish`
calls it only once the dial has succeeded.

Results:

* `establish_abandoned`: a `finish` that overtakes a `sayhi` leaves `establish` waiting on a closed queue
  for which `Send` was never launched.
* `establish_not_abandoned`: if the queue is removed only after every `sayhi` was handled and `TrySend`
  was called, this does not happen.
* `refused_session_stays`: after a failed dial the entries of the session stay in the hubs.
* `session_released`: if the dial succeeds and `Close` runs after every `sayhi` was handled, nothing is
  left when `establish` returns.
-/

namespace Wssocks.Wss

open Wssocks.Lib Wssocks.Pipe

variable {KSUID : Type} [DecidableEq KSUID] [Inhabited KSUID]

variable {ids : List KSUID} {m : KSUID} {log : List (HubOp ℕ KSUID)} {t t' : Session KSUID}
  {sv : Server ℕ KSUID} {l : SessionLabel KSUID} {ls : List (SessionLabel KSUID)}
  {a : ServerLabel ℕ KSUID} {o : HubOp ℕ KSUID} {out : Option (ℕ × Msg KSUID)}

/-! ## The `sayhi` messages -/

/-- The message is a `sayhi`. -/
def Msg.isHi : Msg KSUID → Bool
  | .sayhi _ _ => true
  | _ => false

/-- The reader is handling a `sayhi`. -/
def Reader.inHi : Reader KSUID → Bool
  | .hi _ _ => true
  | _ => false

/-- Every `sayhi` of the session was sent and handled. -/
def Session.greeted (ids : List KSUID) (t : Session KSUID) : Bool :=
  (List.range ids.length).all fun k =>
    t.hiSent k && (t.server.inbox k).all (fun x => !x.isHi) && !(t.server.reader k).inHi

/-- Then both hubs know every lane. -/
theorem Phase.all_added (h : Phase ids m log t) (hg : t.greeted ids = true) :
    ∀ k < ids.length, queueAdded ids m log k = true ∧ linkAdded ids m log k = true := by
  intro k hk
  simp only [Session.greeted, List.all_eq_true, List.mem_range, Bool.and_eq_true] at hg
  obtain ⟨⟨hsent, hinbox⟩, hreader⟩ := hg k hk
  have hseen : queueAdded ids m log k = true := by
    by_contra hno
    obtain ⟨rest, hin, -, -⟩ := h.inbox k
    rw [if_pos ⟨hsent, by simpa [seenOf] using hno⟩] at hin
    have := hinbox (.sayhi (ids.getD k default) m) (by rw [hin]; simp)
    cases this
  refine ⟨hseen, h.done k hseen fun x y hr => ?_⟩
  rw [hr] at hreader
  cases hreader

/-! ## Steps of a session -/

/-- A step of the client only adds to an inbox. -/
theorem Session.sends (h : t.step ids l = some t') (hl : ∀ a, l ≠ .act a) :
    t.ops l = [] ∧ ∃ w x, t'.server = t.server.arrive w x := by
  cases l with
  | sayhi k =>
    simp only [Session.step] at h
    split at h <;> (try split_ifs at h) <;> cases h
    exact ⟨rfl, _, _, rfl⟩
  | est | late =>
    simp only [Session.step] at h
    split_ifs at h
    cases h
    exact ⟨rfl, _, _, rfl⟩
  | act a => exact absurd rfl (hl a)

theorem Session.step_act (h : t.step ids (.act a) = some t') :
    ∃ out, t.server.step a = some (t'.server, out) := by
  simp only [Session.step, Option.map_eq_some_iff] at h
  obtain ⟨⟨sv, out⟩, h1, rfl⟩ := h
  exact ⟨out, h1⟩

/-- How far the session and the calls of `Close` are. -/
structure Course (ids : List KSUID) (m : KSUID) (log : List (HubOp ℕ KSUID)) (t : Session KSUID) : Prop where
  phase : Phase ids m log t
  closings : Closings (· ∈ log) t.server

theorem Course.init : Course ids m [] (Session.init : Session KSUID) := ⟨Phase.init, Closings.init⟩

theorem Course.step (h : Course ids m log t) (hnd : ids.Nodup) (hm : ids[0]? = some m)
    (hs : t.step ids l = some t') : Course ids m (log ++ t.ops l) t' := by
  refine ⟨h.phase.step hnd hm hs, ?_⟩
  by_cases hl : ∃ a, l = .act a
  · obtain ⟨a, rfl⟩ := hl
    obtain ⟨out, h1⟩ := Session.step_act hs
    refine h.closings.step h1 (fun _ h2 => List.mem_append_left _ h2) fun o ho => ?_
    refine List.mem_append_right _ ?_
    rw [Session.ops, ho]
    exact List.mem_singleton_self o
  · obtain ⟨hops, w, x, hsv⟩ := Session.sends hs fun a ha => hl ⟨a, ha⟩
    rw [hops, List.append_nil, hsv]
    have hp := h.closings.pooled
    exact ⟨⟨hp.pool, hp.reader, hp.hub⟩, h.closings.closed⟩

/-- A removal is one of the session's own, and `est` was handled before it. -/
theorem Course.removes {sv' : Server ℕ KSUID} (h : Course ids m log t)
    (hs : t.server.step a = some (sv', out)) (ho : t.server.op a = some o) (hr : o.removes = true) :
    t.server.nextEst = 1 ∧ (o = .linkRemove m ∨ o = .queueRemove m) := by
  obtain ⟨e, he, h1⟩ := h.closings.pooled.removes hs ho hr
  have hone := h.phase.oneEst
  have hnext : t.server.nextEst = 1 := by omega
  obtain rfl : e = 0 := by omega
  rw [(h.phase.theEst hnext).1] at h1
  exact ⟨hnext, h1⟩

theorem Course.next_one {sv' : Server ℕ KSUID} (h : Course ids m log t) (hnd : ids.Nodup)
    (hs : t.server.step a = some (sv', out)) (hone : t.server.nextEst = 1) : sv'.nextEst = 1 := by
  have hle := (Server.moves_of_step hs).next_le
  have hone' : sv'.nextEst ≤ 1 := (h.phase.act hnd hs).1.oneEst
  omega

omit [Inhabited KSUID] in
/-- The instance is the old one, or has just been created. -/
theorem Moves.est_zero {sv' : Server ℕ KSUID} (h : Moves sv a sv') (hone : sv'.nextEst = 1) :
    sv.nextEst = 1 ∨ ∃ w id, sv'.ests 0 = newEst w id := by
  rcases h.next with h1 | ⟨w, id, -, -, -, h1, h2⟩
  · exact .inl (h1 ▸ hone)
  · have h0 : sv.nextEst = 0 := by omega
    exact .inr ⟨w, id, h0 ▸ h2⟩

/-! ## The queue of the session -/

omit [Inhabited KSUID] in
theorem queueAdded_mono {log' : List (HubOp ℕ KSUID)} {k : ℕ} (h : queueAdded ids m log k = true) :
    queueAdded ids m (log ++ log') k = true := by
  cases hk : ids[k]? with
  | none => simp [queueAdded, hk] at h
  | some id =>
    simp only [queueAdded, hk, Option.any_some, decide_eq_true_eq] at h ⊢
    exact List.mem_append_left _ h

omit [Inhabited KSUID] in
theorem linkAdded_mono {log' : List (HubOp ℕ KSUID)} {k : ℕ} (h : linkAdded ids m log k = true) :
    linkAdded ids m (log ++ log') k = true := by
  cases hk : ids[k]? with
  | none => simp [linkAdded, hk] at h
  | some id =>
    simp only [linkAdded, hk, Option.any_some, decide_eq_true_eq] at h ⊢
    exact List.mem_append_left _ h

/-- The queue was removed after every lane was added to it, so it does not come back. -/
structure QueueGone (ids : List KSUID) (m : KSUID) (log : List (HubOp ℕ KSUID)) (t : Session KSUID) : Prop where
  all : ∀ k < ids.length, queueAdded ids m log k = true
  est : t.server.nextEst = 1
  ref : t.server.queues.hub.ref? m = none

theorem Course.queueGone {sv' : Server ℕ KSUID} (h : Course ids m log t) (hnd : ids.Nodup)
    (hs : t.server.step a = some (sv', out)) (hgone : .queueRemove m ∈ log → QueueGone ids m log t)
    (hgreet : t.server.op a = some (.queueRemove m) → t.greeted ids = true)
    (hmem : .queueRemove m ∈ log ++ (t.server.op a).toList) :
    QueueGone ids m (log ++ (t.server.op a).toList) { t with server := sv' } := by
  have hq := (Server.did_of_step hs).1
  have hnext := h.next_one hnd hs
  by_cases hop : t.server.op a = some (.queueRemove m)
  · refine ⟨fun k hk => queueAdded_mono (h.phase.all_added (hgreet hop) k hk).1,
      hnext (h.removes hs hop rfl).1, ?_⟩
    rw [hop] at hq
    show sv'.queues.hub.ref? m = none
    rw [show sv'.queues = t.server.queues.remove m from hq, Queues.remove, QueueHub.ref?_remove, if_pos rfl]
  · have hold : .queueRemove m ∈ log := by
      rcases List.mem_append.mp hmem with h1 | h1
      · exact h1
      · exact absurd (Option.mem_toList.mp h1) hop
    obtain ⟨hall, hest, href⟩ := hgone hold
    refine ⟨fun k hk => queueAdded_mono (hall k hk), hnext hest, ?_⟩
    show sv'.queues.hub.ref? m = none
    have hran : Queues.Ran t.server.queues sv'.queues → sv'.queues.hub.ref? m = none :=
      fun h1 => (h1.ref? m).trans href
    cases hx : t.server.op a with
    | none => rw [hx] at hq; exact hran hq
    | some o =>
      rw [hx] at hq
      cases (h.phase.act hnd hs).2 o hx with
      | queueAdd hid hnew =>
        rw [hall _ (List.getElem?_eq_some_iff.mp hid).1] at hnew
        cases hnew
      | queueSort hnew => exact absurd (h.phase.theEst hest).2.1 hnew
      | queueTry =>
        rw [show sv'.queues = t.server.queues.trySend m from hq, Queues.hub_trySend, href]
      | linkAdd | linkSort | linkTry => exact hran hq
      | remove hr =>
        rcases (h.removes hs hx hr).2 with rfl | rfl
        · exact hran hq
        · exact absurd hx hop

/-- A queue for which `Send` was never launched is the registered one. -/
def Lone (m : KSUID) (s : Queues KSUID (WsWriter ℕ KSUID)) : Prop :=
  ∀ q < s.hub.next, s.sends q = [] → s.hub.ref? m = some q

section
variable {s s' : Queues KSUID (WsWriter ℕ KSUID)} {x : Option (HubOp ℕ KSUID)}

omit [Inhabited KSUID] in
theorem Lone.launch {q : Option ℕ} (h : Lone m s) : Lone m (s.launch q) := by
  intro r hr hsends
  rw [Queues.hub_launch] at hr ⊢
  rw [Queues.sends_launch] at hsends
  split_ifs at hsends with hq
  · simp at hsends
  · exact h r hr hsends

omit [Inhabited KSUID] in
/-- A queue is created only when none is registered. -/
theorem Lone.add {id : KSUID} {w : WsWriter ℕ KSUID} (h : Lone m s) : Lone m (s.add m id w) := by
  have hhub : Lone m { s with hub := QueueHub.add s.hub m id w } := by
    intro r hr hsends
    rw [QueueHub.add_eq, Registry.next_modify, Registry.next_ensure] at hr
    show (QueueHub.add s.hub m id w).ref? m = some r
    rw [QueueHub.ref?_add, if_pos rfl, QueueHub.masterRef]
    cases hm : s.hub.ref? m with
    | some q =>
      rw [hm] at hr
      rw [← h r hr hsends, hm]
      rfl
    | none =>
      rw [hm] at hr
      by_cases hlt : r < s.hub.next
      · rw [h r hlt hsends] at hm; cases hm
      · have hr' : r < s.hub.next + 1 := hr
        obtain rfl : r = s.hub.next := by omega
        rfl
  exact hhub.launch

omit [Inhabited KSUID] in
theorem Lone.ran (h : Lone m s) (hr : Queues.Ran s s') : Lone m s' := by
  obtain ⟨q, ht⟩ := hr.touched
  intro r hlt hsends
  rw [ht.ref?]
  rw [ht.next] at hlt
  refine h r hlt (List.eq_nil_of_length_eq_zero ?_)
  rw [← hr.length_sends, hsends, List.length_nil]

omit [Inhabited KSUID] in
theorem Lone.remove (h : Lone m s) (hsends : ∀ q, s.hub.ref? m = some q → s.sends q ≠ []) :
    Lone m (s.remove m) := by
  intro r hr hnil
  rw [Queues.remove, QueueHub.next_remove] at hr
  exact absurd hnil (hsends r (h r hr hnil))

omit [Inhabited KSUID] in
/-- Addresses are not reused. -/
theorem QueuesDid.next_le (h : QueuesDid s s' x) : s.hub.next ≤ s'.hub.next := by
  have hran : Queues.Ran s s' → s.hub.next ≤ s'.hub.next := by
    intro h1
    obtain ⟨_, ht⟩ := h1.touched
    exact ht.next.ge
  cases x with
  | none => exact hran h
  | some o =>
    cases o with
    | queueAdd m id w =>
      rw [show s' = s.add m id w from h, Queues.hub_add, QueueHub.add_eq]
      exact Registry.next_le_ensure
    | queueSort m sort =>
      rw [show s' = s.setSort m sort from h]
      cases hm : s.hub.ref? m with
      | some q => rw [Queues.setSort_eq hm]; exact le_rfl
      | none => simp [Queues.setSort, QueueHub.setSort, hm]
    | queueTry m => rw [show s' = s.trySend m from h, Queues.hub_trySend]
    | queueRemove m => rw [show s' = s.remove m from h, Queues.remove, QueueHub.next_remove]
    | linkAdd | linkSort | linkTry | linkRemove => exact hran h

omit [Inhabited KSUID] in
/-- The operations of the session keep it so, if a queue that is removed has its `Send`. -/
theorem Lone.did (h : Lone m s) (hdue : ∀ o, x = some o → Due ids m log o)
    (hat : .queueSort m ids ∉ log → queueAdded ids m log 0 = true → ∃ q, s.hub.ref? m = some q)
    (hrm : ∀ id, x = some (.queueRemove id) → id = m ∧ ∀ q, s.hub.ref? m = some q → s.sends q ≠ [])
    (hq : QueuesDid s s' x) : Lone m s' := by
  cases x with
  | none => exact h.ran hq
  | some o =>
    cases hdue o rfl with
    | queueAdd => rw [show s' = s.add _ _ _ from hq]; exact h.add
    | queueSort hnew hhi =>
      obtain ⟨q, hm⟩ := hat hnew hhi
      rw [show s' = s.setSort _ _ from hq, Queues.setSort_eq hm]
      exact h
    | queueTry => rw [show s' = s.trySend _ from hq]; exact h.launch
    | linkAdd | linkSort | linkTry => exact h.ran hq
    | remove hr =>
      cases o with
      | queueRemove id =>
        obtain ⟨rfl, h1⟩ := hrm id rfl
        rw [show s' = s.remove _ from hq]
        exact h.remove h1
      | linkRemove id => exact h.ran hq
      | _ => cases hr

end

/-- `establish` has not executed `serverQueueHub.TrySend`. -/
def EstPc.tries : EstPc → Bool
  | .dial | .linkTrySend | .addProxy | .queueTrySend => true
  | _ => false

/-- The dial succeeds, and the queue is removed only when every `sayhi` was handled and `establish` has
    called `TrySend`. -/
def Session.patient (ids : List KSUID) (t : Session KSUID) : SessionLabel KSUID → Bool
  | .act (.dial _ o) => decide (o = .connected)
  | .act a =>
    match t.server.op a with
    | some (.queueRemove _) => t.greeted ids && !(t.server.ests 0).pc.tries
    | _ => true
  | _ => true

omit [Inhabited KSUID] in
/-- `establish` gets past `TrySend` by calling it. -/
theorem EstMove.tries {e : ℕ} {x : Est ℕ KSUID} (h : EstMove sv a e x) (he : e < sv.nextEst)
    (hdial : ∀ i o, a = .dial i o → o = .connected) (hx : x.pc.tries = false) :
    (sv.ests e).pc.tries = false ∨ (a = .est e ∧ (sv.ests e).pc = .queueTrySend) := by
  cases h with
  | same | mark | waiter | copy => exact .inl hx
  | spawn hl hr hn => omega
  | dial hl hpc => rw [if_pos (hdial _ _ hl)] at hx; cases hx
  | linkTry | addProxy => cases hx
  | queueTry hl hpc => exact .inr ⟨hl, hpc⟩
  | get hl hpc | removeProxy hl hpc | connClose hl hpc | closeTest hl hpc | closeSkip hl hpc
    | closeLinks hl hpc | closeQueue hl hpc | tell hl hpc => left; rw [hpc]; rfl
  | wake hpc => left; rw [hpc]; rfl

omit [Inhabited KSUID] in
/-- The queue `establish` waits on was found in the hub. -/
theorem EstMove.writer_back {e q : ℕ} {x : Est ℕ KSUID} (h : EstMove sv a e x) (he : e < sv.nextEst)
    (hx : x.writer = some q) : (sv.ests e).writer = some q ∨ sv.queues.hub.ref? (sv.ests e).id = some q := by
  cases h with
  | spawn hl hr hn => omega
  | get => exact .inr hx
  | _ => exact .inl hx

/-- What keeps `establish` from waiting for nothing. -/
structure Waited (ids : List KSUID) (m : KSUID) (log : List (HubOp ℕ KSUID)) (t : Session KSUID) : Prop
    extends Course ids m log t where
  past : t.server.nextEst = 1 → (t.server.ests 0).pc.tries = false → .queueTry m ∈ log
  queues : .queueRemove m ∉ log → QueuesAt ids m (queueAdded ids m log) (decide (.queueSort m ids ∈ log))
    (decide (.queueTry m ∈ log)) t.server.queues
  gone : .queueRemove m ∈ log → QueueGone ids m log t
  lone : Lone m t.server.queues
  writer : t.server.nextEst = 1 → ∀ q, (t.server.ests 0).writer = some q → q < t.server.queues.hub.next

theorem Waited.init : Waited ids m [] (Session.init : Session KSUID) where
  toCourse := Course.init
  past := nofun
  queues := fun _ => by
    have hadd : queueAdded ids m [] = fun _ => false := by
      funext k
      cases hk : ids[k]? <;> simp [queueAdded, hk]
    rw [hadd]
    exact QueuesAt.init
  gone := nofun
  lone := nofun
  writer := nofun

theorem Waited.step (h : Waited ids m log t) (hnd : ids.Nodup) (hm : ids[0]? = some m)
    (hok : t.patient ids l = true) (hs : t.step ids l = some t') : Waited ids m (log ++ t.ops l) t' := by
  have hcourse := h.toCourse.step hnd hm hs
  by_cases hl : ∃ a, l = .act a
  · obtain ⟨a, rfl⟩ := hl
    obtain ⟨out, h1⟩ := Session.step_act hs
    have hmove := Server.moves_of_step h1
    have hq := (Server.did_of_step h1).1
    have hdue := (h.phase.act hnd h1).2
    -- the removal of the queue
    have hgreet : ∀ id, t.server.op a = some (.queueRemove id) →
        t.greeted ids = true ∧ (t.server.ests 0).pc.tries = false := by
      intro id ho
      cases a with
      | dial => cases ho
      | _ => simpa [Session.patient, ho] using hok
    have hgone : .queueRemove m ∈ log ++ t.ops (.act a) → QueueGone ids m (log ++ t.ops (.act a)) t' := by
      intro hmem
      have hg := h.toCourse.queueGone hnd h1 h.gone (fun ho => (hgreet m ho).1) hmem
      exact ⟨hg.all, hg.est, hg.ref⟩
    have hrm : ∀ id, t.server.op a = some (.queueRemove id) →
        id = m ∧ ∀ q, t.server.queues.hub.ref? m = some q → t.server.queues.sends q ≠ [] := by
      intro id ho
      obtain ⟨hnext, hid⟩ := h.toCourse.removes h1 ho rfl
      have hid : id = m := by rcases hid with h2 | h2 <;> cases h2; rfl
      refine ⟨hid, fun q hq => ?_⟩
      by_cases hmem : .queueRemove m ∈ log
      · rw [(h.gone hmem).ref] at hq; cases hq
      · obtain ⟨hall, hpast⟩ := hgreet id ho
        exact (h.queues hmem).started (by simpa using h.past hnext hpast)
          (fun k hk => (h.phase.all_added hall k hk).1) q hq
    refine ⟨hcourse, fun hnext hpast => ?_, fun hmem => ?_, hgone, ?_, fun hnext q hw => ?_⟩
    · rcases hmove.est_zero hnext with h2 | ⟨w, id, h2⟩
      · have hdial : ∀ i o, a = .dial i o → o = .connected := by
          rintro i o rfl
          simpa [Session.patient] using hok
        rcases (hmove.est 0).tries (by omega) hdial hpast with h3 | ⟨rfl, h3⟩
        · exact List.mem_append_left _ (h.past h2 h3)
        · refine List.mem_append_right _ ?_
          rw [Session.ops, Server.op, h3, EstPc.op, (h.phase.theEst h2).1]
          exact List.mem_singleton_self _
      · rw [h2] at hpast; cases hpast
    · have hkeep : ∀ id, t.server.op a ≠ some (.queueRemove id) := by
        intro id ho
        refine hmem (List.mem_append_right _ ?_)
        rw [Session.ops, ho, (hrm id ho).1]
        exact List.mem_singleton_self _
      exact (h.queues fun h2 => hmem (List.mem_append_left _ h2)).did h.phase hnd hdue hkeep hq
    · refine h.lone.did hdue (fun hnew hhi => ?_) hrm hq
      have hmem : .queueRemove m ∉ log := fun h2 => hnew (h.phase.theEst (h.gone h2).est).2.1
      exact (h.queues hmem).ref?_master hhi
    · rcases hmove.est_zero hnext with h2 | ⟨w, id, h2⟩
      · refine lt_of_lt_of_le ?_ hq.next_le
        rcases (hmove.est 0).writer_back (by omega) hw with h3 | h3
        · exact h.writer h2 q h3
        · exact Registry.ref?_lt h3
      · rw [h2] at hw; cases hw
  · obtain ⟨hops, w, x, hsv⟩ := Session.sends hs fun a ha => hl ⟨a, ha⟩
    rw [hops, List.append_nil] at hcourse ⊢
    refine ⟨hcourse, ?_, ?_, fun hmem => ?_, ?_, ?_⟩
    · rw [hsv]; exact h.past
    · rw [hsv]; exact h.queues
    · obtain ⟨h1, h2, h3⟩ := h.gone hmem
      exact ⟨h1, by rw [hsv]; exact h2, by rw [hsv]; exact h3⟩
    · rw [hsv]; exact h.lone
    · rw [hsv]; exact h.writer

/-- The queue was removed and closed, and `Send` was never launched for it. -/
def Queues.Abandoned (s : Queues KSUID (WsWriter ℕ KSUID)) (masterID : KSUID) (q : ℕ) : Prop :=
  s.hub.ref? masterID ≠ some q ∧ (s.hub.obj q).status = .close ∧ s.sends q = []

instance (s : Queues KSUID (WsWriter ℕ KSUID)) (masterID : KSUID) (q : ℕ) :
    Decidable (Queues.Abandoned s masterID q) := by
  unfold Queues.Abandoned
  infer_instance

/-- In a session whose queue is removed only after every `sayhi` was handled and `establish` has called
    `TrySend`, `establish` does not wait on an abandoned queue. -/
theorem establish_not_abandoned (hnd : ids.Nodup) (hne : ids ≠ [])
    (h : Run (Session.step ids) (fun t l => t.patient ids l = true) Session.init ls t) :
    ∀ e < t.server.nextEst, ∀ q, (t.server.ests e).pc = .wait → (t.server.ests e).writer = some q →
      ¬ Queues.Abandoned t.server.queues (t.server.ests e).id q := by
  obtain ⟨m, hm⟩ := exists_master hne
  have hw : Waited ids m (history (Session.step ids) Session.ops Session.init ls) t :=
    h.history_invariant Waited.init fun _ _ _ _ h1 hok hs => h1.step hnd hm hok hs
  intro e he q _ hwriter hab
  have hnext : t.server.nextEst = 1 := by have := hw.phase.oneEst; omega
  obtain rfl : e = 0 := by omega
  rw [(hw.phase.theEst hnext).1] at hab
  exact hab.1 (hw.lone q (hw.writer hnext q hwriter) hab.2.2)

/-- Lane 0 of the session `[7, 8]` is established while lane 1 has not said hello. -/
def lanesMissing : List (SessionLabel ℕ) :=
  [.sayhi 0, .est, .act (.recv 0), .act (.reader 0), .act (.recv 0), .act (.reader 0),
    .act (.dial 0 .connected), .act (.est 0), .act (.est 0), .act (.est 0), .act (.est 0)]

/-- The handling of `finish`. -/
def finished : List (SessionLabel ℕ) :=
  [.late 0 (.finish 7), .act (.recv 0), .act (.reader 0), .act (.reader 0), .act (.reader 0)]

set_option maxRecDepth 100000 in
/-- The `finish` overtakes the `sayhi` of lane 1: `establish` waits on an abandoned queue. -/
theorem establish_abandoned : ∃ t, Run (Session.step [7, 8]) anyStep Session.init (lanesMissing ++ finished) t ∧
    0 < t.server.nextEst ∧ (t.server.ests 0).pc = .wait ∧ (t.server.ests 0).writer = some 0 ∧
    Queues.Abandoned t.server.queues (t.server.ests 0).id 0 := by
  have hexec : (exec (Session.step [7, 8]) (fun _ _ => true) Session.init (lanesMissing ++ finished)).map
      (fun t => decide (0 < t.server.nextEst ∧ (t.server.ests 0).pc = .wait ∧
        (t.server.ests 0).writer = some 0 ∧ Queues.Abandoned t.server.queues (t.server.ests 0).id 0)) =
      some true := by decide +kernel
  obtain ⟨t, hrun, hobs⟩ := exists_run_of_exec hexec
  exact ⟨t, hrun.mono fun _ _ _ => trivial, of_decide_eq_true hobs⟩

set_option maxRecDepth 100000 in
/-- When lane 1 has said hello first, `Send` runs when the queue is closed. -/
theorem establish_not_abandoned_two_lanes :
    ∃ t, Run (Session.step [7, 8]) (fun t l => t.patient [7, 8] l = true) Session.init
        ([.sayhi 1, .act (.recv 1), .act (.reader 1)] ++ lanesMissing ++ finished) t ∧
      0 < t.server.nextEst ∧ (t.server.ests 0).pc = .wait ∧ (t.server.ests 0).writer = some 0 ∧
      ¬ Queues.Abandoned t.server.queues (t.server.ests 0).id 0 := by
  have hexec : (exec (Session.step [7, 8]) (fun t l => t.patient [7, 8] l) Session.init
      ([.sayhi 1, .act (.recv 1), .act (.reader 1)] ++ lanesMissing ++ finished)).map
      (fun t => decide (0 < t.server.nextEst ∧ (t.server.ests 0).pc = .wait ∧
        (t.server.ests 0).writer = some 0)) = some true := by decide +kernel
  obtain ⟨t, hrun, hobs⟩ := exists_run_of_exec hexec
  obtain ⟨hnext, hpc, hwriter⟩ := of_decide_eq_true hobs
  exact ⟨t, hrun, hnext, hpc, hwriter,
    establish_not_abandoned (by decide) (by decide) hrun 0 hnext 0 hpc hwriter⟩

/-! ## The entries of the session -/

/-- The links were removed after every lane was added, so they do not come back. -/
structure LinksGone (ids : List KSUID) (m : KSUID) (log : List (HubOp ℕ KSUID)) (t : Session KSUID) : Prop where
  all : ∀ k < ids.length, linkAdded ids m log k = true
  est : t.server.nextEst = 1
  ref : ∀ id ∈ ids, t.server.links.hub.ref? id = none

/-- The order of the links is set before `establish` begins. -/
theorem Phase.before_est {id : KSUID} {sort : List KSUID} (h : Phase ids m log t)
    (ho : t.server.op a = some (.linkSort id sort)) : t.server.nextEst = 0 := by
  cases a with
  | recv w =>
    simp only [Server.op, Option.bind_eq_some_iff] at ho
    obtain ⟨x, -, hx⟩ := ho
    cases x <;> cases hx
  | reader w =>
    have hat := h.reader w
    simp only [Server.op] at ho
    cases hr : t.server.reader w with
    | est i so => rw [hr] at hat; exact hat.2.2.2.1
    | close i x c | hubCloseAt i x c => rw [hr] at ho; cases c <;> cases ho
    | _ => rw [hr] at ho; cases ho
  | est e =>
    simp only [Server.op] at ho
    cases hpc : (t.server.ests e).pc with
    | close c => rw [hpc] at ho; cases c <;> cases ho
    | _ => rw [hpc] at ho; cases ho
  | _ => cases ho

omit [Inhabited KSUID] in
/-- `RemoveAll` on a hub that knows every lane and their order. -/
theorem LinksAt.removeAll {added : ℕ → Bool} {conn : Bool} {k : Links KSUID} (h : LinksAt ids added true conn k)
    (hm : ids[0]? = some m) (h0 : added 0 = true) {id : KSUID} (hid : id ∈ ids) :
    (k.removeAll m).hub.ref? id = none := by
  obtain ⟨q, hq⟩ := h.ref?_master hm h0
  have hlane : k.hub.lane ids 0 = some q := by rw [LinkHub.lane, hm, Option.bind_some, hq]
  have hsorted : (k.hub.obj q).sorted = ids := h.tracks.sorted hlane
  rw [Links.removeAll, LinkHub.ref?_removeAll hq, hsorted, if_pos (.inr hid)]

theorem Course.linksGone {sv' : Server ℕ KSUID} (h : Course ids m log t) (hnd : ids.Nodup)
    (hm : ids[0]? = some m) (hs : t.server.step a = some (sv', out))
    (hat : .linkRemove m ∉ log → LinksAt ids (linkAdded ids m log) (decide (.linkSort m ids ∈ log))
      (decide (.linkTry m 0 ∈ log)) t.server.links)
    (hgone : .linkRemove m ∈ log → LinksGone ids m log t)
    (hgreet : t.server.op a = some (.linkRemove m) → t.greeted ids = true)
    (hmem : .linkRemove m ∈ log ++ (t.server.op a).toList) :
    LinksGone ids m (log ++ (t.server.op a).toList) { t with server := sv' } := by
  have hl := (Server.did_of_step hs).2
  have hnext := h.next_one hnd hs
  by_cases hold : .linkRemove m ∈ log
  · obtain ⟨hall, hest, href⟩ := hgone hold
    refine ⟨fun k hk => linkAdded_mono (hall k hk), hnext hest, fun id hid => ?_⟩
    show sv'.links.hub.ref? id = none
    have hran : Links.Ran t.server.links sv'.links → sv'.links.hub.ref? id = none :=
      fun h1 => (h1.ref? id).trans (href id hid)
    have hmaster : m ∈ ids := List.mem_of_getElem? hm
    cases hx : t.server.op a with
    | none => rw [hx] at hl; exact hran hl
    | some o =>
      rw [hx] at hl
      cases (h.phase.act hnd hs).2 o hx with
      | queueAdd | queueSort | queueTry => exact hran hl
      | linkAdd hlane hnew =>
        rw [hall _ (List.getElem?_eq_some_iff.mp hlane).1] at hnew
        cases hnew
      | linkSort => rw [h.phase.before_est hx] at hest; cases hest
      | linkTry =>
        rw [show sv'.links = t.server.links.trySend m 0 from hl, Links.trySend, Links.hub_launch,
          LinkHub.ref?_trySend, href id hid]
      | remove hr =>
        rcases (h.removes hs hx hr).2 with rfl | rfl
        · rw [show sv'.links = t.server.links.removeAll m from hl, Links.removeAll,
            LinkHub.removeAll_missing (href m hmaster), href id hid]
        · exact hran hl
  · have hop : t.server.op a = some (.linkRemove m) := by
      rcases List.mem_append.mp hmem with h1 | h1
      · exact absurd h1 hold
      · exact Option.mem_toList.mp h1
    have hest := (h.removes hs hop rfl).1
    have hall : ∀ k < ids.length, linkAdded ids m log k = true := fun k hk =>
      (h.phase.all_added (hgreet hop) k hk).2
    refine ⟨fun k hk => linkAdded_mono (hall k hk), hnext hest, fun id hid => ?_⟩
    have hlinks := hat hold
    rw [decide_eq_true (h.phase.sorted.mpr hest)] at hlinks
    rw [hop] at hl
    show sv'.links.hub.ref? id = none
    rw [show sv'.links = t.server.links.removeAll m from hl]
    exact hlinks.removeAll hm (hall 0 (List.getElem?_eq_some_iff.mp hm).1) hid

omit [Inhabited KSUID] in
/-- An operation on another master id leaves the entry of `k` alone. -/
theorem QueuesDid.ref?_other {q q' : Queues KSUID (WsWriter ℕ KSUID)} {k : KSUID} (hk : k ≠ m)
    (h : QueuesDid q q' (some o)) (hdue : Due ids m log o)
    (hrm : o.removes = true → o = .linkRemove m ∨ o = .queueRemove m) :
    q'.hub.ref? k = q.hub.ref? k := by
  have hran : Queues.Ran q q' → q'.hub.ref? k = q.hub.ref? k := fun h1 => h1.ref? k
  cases hdue with
  | queueAdd => rw [show q' = q.add _ _ _ from h, Queues.hub_add, QueueHub.ref?_add, if_neg hk]
  | queueSort => rw [show q' = q.setSort _ _ from h, Queues.setSort, QueueHub.ref?_setSort, if_neg hk]
  | queueTry => rw [show q' = q.trySend _ from h, Queues.hub_trySend]
  | linkAdd | linkSort | linkTry => exact hran h
  | remove hr =>
    rcases hrm hr with rfl | rfl
    · exact hran h
    · rw [show q' = q.remove _ from h, Queues.remove, QueueHub.ref?_remove, if_neg hk]

/-- The deferred `Close` of `establish` finds the instance closed while the `Close` that closed it is
    still at work. -/
def Server.hasty (s : Server ℕ KSUID) : ServerLabel ℕ KSUID → Bool
  | .est e => decide ((s.ests e).pc = .close .test) && (s.ests e).closed &&
      (s.reader (s.ests e).ws).closing.isSome
  | _ => false

/-- The dial succeeds, entries are removed only when every `sayhi` was handled, and `establish` does not
    return before the `Close` of its instance has. -/
def Session.orderly (ids : List KSUID) (t : Session KSUID) : SessionLabel KSUID → Bool
  | .act (.dial _ o) => decide (o = .connected)
  | .act a => (t.server.op a).all (fun o => !o.removes || t.greeted ids) && !t.server.hasty a
  | _ => true

omit [Inhabited KSUID] in
/-- How `establish` gets to its end. -/
theorem EstMove.over_back {e : ℕ} {x : Est ℕ KSUID} (h : EstMove sv a e x) (he : e < sv.nextEst)
    (hdial : ∀ i o, a = .dial i o → o = .connected) (hx : x.pc = .tell ∨ x.pc = .returned) :
    ((sv.ests e).pc = .tell ∨ (sv.ests e).pc = .returned) ∨
      (a = .est e ∧ (sv.ests e).pc = .close .test ∧ (sv.ests e).closed = true) ∨
      (a = .est e ∧ (sv.ests e).pc = .close .queue) := by
  cases h with
  | same | mark | waiter | copy => exact .inl hx
  | spawn hl hr hn => omega
  | dial hl hpc => rw [if_pos (hdial _ _ hl)] at hx; simp at hx
  | closeSkip hl hpc hc => exact .inr (.inl ⟨hl, hpc, hc⟩)
  | closeQueue hl hpc => exact .inr (.inr ⟨hl, hpc⟩)
  | tell hl hpc => exact .inl (.inl hpc)
  | linkTry | addProxy | queueTry | get | wake | removeProxy | connClose | closeTest | closeLinks => simp at hx

omit [Inhabited KSUID] in
/-- `establish` removes the queue after the links. -/
theorem EstMove.queue_back {e : ℕ} {x : Est ℕ KSUID} (h : EstMove sv a e x) (he : e < sv.nextEst)
    (hx : x.pc = .close .queue) :
    (sv.ests e).pc = .close .queue ∨ (a = .est e ∧ (sv.ests e).pc = .close .links) := by
  cases h with
  | same | mark | waiter | copy => exact .inl hx
  | spawn hl hr hn => omega
  | dial hl hpc => split_ifs at hx
  | closeLinks hl hpc => exact .inr ⟨hl, hpc⟩
  | closeSkip | closeQueue | tell | linkTry | addProxy | queueTry | get | wake | removeProxy | connClose
    | closeTest => simp at hx

/-- What is left of the session. -/
structure Freed (ids : List KSUID) (m : KSUID) (log : List (HubOp ℕ KSUID)) (t : Session KSUID) : Prop
    extends Course ids m log t where
  links : .linkRemove m ∉ log → LinksAt ids (linkAdded ids m log) (decide (.linkSort m ids ∈ log))
    (decide (.linkTry m 0 ∈ log)) t.server.links
  linksGone : .linkRemove m ∈ log → LinksGone ids m log t
  queueGone : .queueRemove m ∈ log → QueueGone ids m log t
  others : ∀ k, k ≠ m → t.server.queues.hub.ref? k = none
  half : t.server.nextEst = 1 → (t.server.ests 0).pc = .close .queue → .linkRemove m ∈ log
  ended : t.server.nextEst = 1 → (t.server.ests 0).pc = .tell ∨ (t.server.ests 0).pc = .returned →
    .linkRemove m ∈ log ∧ .queueRemove m ∈ log

theorem Freed.init : Freed ids m [] (Session.init : Session KSUID) where
  toCourse := Course.init
  links := fun _ => by
    have hadd : linkAdded ids m [] = fun _ => false := by
      funext k
      cases hk : ids[k]? <;> simp [linkAdded, hk]
    rw [hadd]
    exact LinksAt.init
  linksGone := nofun
  queueGone := nofun
  others := fun k _ => by simp [Session.init, Server.init, Queues.init]
  half := nofun
  ended := nofun

theorem Freed.step (h : Freed ids m log t) (hnd : ids.Nodup) (hm : ids[0]? = some m)
    (hok : t.orderly ids l = true) (hs : t.step ids l = some t') : Freed ids m (log ++ t.ops l) t' := by
  have hcourse := h.toCourse.step hnd hm hs
  by_cases hl : ∃ a, l = .act a
  · obtain ⟨a, rfl⟩ := hl
    obtain ⟨out, h1⟩ := Session.step_act hs
    have hmove := Server.moves_of_step h1
    obtain ⟨hq, hk⟩ := Server.did_of_step h1
    have hdue := (h.phase.act hnd h1).2
    have hdial : ∀ i o, a = .dial i o → o = .connected := by
      rintro i o rfl
      simpa [Session.orderly] using hok
    have hgreet : ∀ {o}, t.server.op a = some o → o.removes = true → t.greeted ids = true := by
      intro o ho hr
      cases a with
      | dial => cases ho
      | _ => simp only [Session.orderly, ho, Option.all_some, hr, Bool.and_eq_true] at hok; simpa using hok.1
    have hop : ∀ {o}, t.server.op a = some o → o ∈ log ++ t.ops (.act a) := by
      intro o ho
      rw [Session.ops, ho]
      exact List.mem_append_right _ (List.mem_singleton_self o)
    refine ⟨hcourse, fun hmem => ?_, fun hmem => ?_, fun hmem => ?_, fun k hne => ?_, fun hnext hpc => ?_,
      fun hnext hpc => ?_⟩
    · refine (h.links fun h2 => hmem (List.mem_append_left _ h2)).did h.phase hnd hm hdue (fun id ho => ?_) hk
      rcases (h.toCourse.removes h1 ho rfl).2 with h2 | h2 <;> cases h2
      exact hmem (hop ho)
    · have hg := h.toCourse.linksGone hnd hm h1 h.links h.linksGone (fun ho => hgreet ho rfl) hmem
      exact ⟨hg.all, hg.est, hg.ref⟩
    · have hg := h.toCourse.queueGone hnd h1 h.queueGone (fun ho => hgreet ho rfl) hmem
      exact ⟨hg.all, hg.est, hg.ref⟩
    · rw [← h.others k hne]
      cases hx : t.server.op a with
      | none =>
        rw [hx] at hq
        exact Queues.Ran.ref? hq k
      | some o =>
        rw [hx] at hq
        exact hq.ref?_other hne (hdue o hx) fun hr => (h.toCourse.removes h1 hx hr).2
    · rcases hmove.est_zero hnext with h2 | ⟨w, id, h2⟩
      · rcases (hmove.est 0).queue_back (by omega) hpc with h3 | ⟨rfl, h3⟩
        · exact List.mem_append_left _ (h.half h2 h3)
        · exact hop (by rw [Server.op, h3, (h.phase.theEst h2).1]; rfl)
      · rw [h2] at hpc; cases hpc
    · rcases hmove.est_zero hnext with h2 | ⟨w, id, h2⟩
      · have hid := (h.phase.theEst h2).1
        rcases (hmove.est 0).over_back (by omega) hdial hpc with h3 | ⟨rfl, h3, hc⟩ | ⟨rfl, h3⟩
        · exact ⟨List.mem_append_left _ (h.ended h2 h3).1, List.mem_append_left _ (h.ended h2 h3).2⟩
        · -- the instance is closed, and nobody is at it any more
          have hno : (t.server.reader (t.server.ests 0).ws).closing = none := by
            simp only [Session.orderly, Bool.and_eq_true] at hok
            simpa [Server.hasty, h3, hc] using hok.2
          rcases h.closings.closed 0 (by omega) hc with h4 | ⟨c, hne, -, h4 | h4⟩
          · rw [hid] at h4
            exact ⟨List.mem_append_left _ h4.1, List.mem_append_left _ h4.2⟩
          · rw [hno] at h4; cases h4
          · rw [h3] at h4; cases h4; exact absurd rfl hne
        · exact ⟨List.mem_append_left _ (h.half h2 h3), hop (by rw [Server.op, h3, hid]; rfl)⟩
      · rw [h2] at hpc; rcases hpc with hpc | hpc <;> cases hpc
  · obtain ⟨hops, w, x, hsv⟩ := Session.sends hs fun a ha => hl ⟨a, ha⟩
    rw [hops, List.append_nil] at hcourse ⊢
    refine ⟨hcourse, ?_, fun hmem => ?_, fun hmem => ?_, ?_, ?_, ?_⟩
    · rw [hsv]; exact h.links
    · obtain ⟨h1, h2, h3⟩ := h.linksGone hmem
      exact ⟨h1, by rw [hsv]; exact h2, by rw [hsv]; exact h3⟩
    · obtain ⟨h1, h2, h3⟩ := h.queueGone hmem
      exact ⟨h1, by rw [hsv]; exact h2, by rw [hsv]; exact h3⟩
    · rw [hsv]; exact h.others
    · rw [hsv]; exact h.half
    · rw [hsv]; exact h.ended

/-- The hubs hold an entry under one of the ids. -/
def Server.HasEntry (s : Server ℕ KSUID) (ids : List KSUID) : Prop :=
  ∃ id ∈ ids, s.links.hub.ref? id ≠ none ∨ s.queues.hub.ref? id ≠ none

instance (s : Server ℕ KSUID) (ids : List KSUID) : Decidable (s.HasEntry ids) := by
  unfold Server.HasEntry
  infer_instance

/-- If the dial succeeds, entries are removed only after every `sayhi` was handled, and `establish` does not
    overtake another `Close`, then nothing of the session is left when `establish` has returned. -/
theorem session_released (hnd : ids.Nodup) (hne : ids ≠ [])
    (h : Run (Session.step ids) (fun t l => t.orderly ids l = true) Session.init ls t) :
    ∀ e < t.server.nextEst, (t.server.ests e).pc = .returned → ¬ t.server.HasEntry ids := by
  obtain ⟨m, hm⟩ := exists_master hne
  have hf : Freed ids m (history (Session.step ids) Session.ops Session.init ls) t :=
    h.history_invariant Freed.init fun _ _ _ _ h1 hok hs => h1.step hnd hm hok hs
  rintro e he hpc ⟨id, hid, hent⟩
  have hnext : t.server.nextEst = 1 := by have := hf.phase.oneEst; omega
  obtain rfl : e = 0 := by omega
  obtain ⟨hlinks, hqueue⟩ := hf.ended hnext (.inr hpc)
  rcases hent with h1 | h1
  · exact h1 ((hf.linksGone hlinks).ref id hid)
  · by_cases hmaster : id = m
    · exact h1 (hmaster ▸ (hf.queueGone hqueue).ref)
    · exact h1 (hf.others id hmaster)

set_option maxRecDepth 100000 in
/-- The dial fails after the `sayhi` was handled: `establish` returns, and the entries stay. -/
theorem refused_session_stays : ∃ t, Run (Session.step [7]) anyStep Session.init
      [.sayhi 0, .est, .act (.recv 0), .act (.reader 0), .act (.recv 0), .act (.reader 0),
        .act (.dial 0 .error), .act (.tell 0 true)] t ∧
    t.greeted [7] = true ∧ 0 < t.server.nextEst ∧ (t.server.ests 0).pc = .returned ∧ t.server.HasEntry [7] := by
  have hexec : (exec (Session.step [7]) (fun _ _ => true) Session.init
      [.sayhi 0, .est, .act (.recv 0), .act (.reader 0), .act (.recv 0), .act (.reader 0),
        .act (.dial 0 .error), .act (.tell 0 true)]).map
      (fun t => decide (t.greeted [7] = true ∧ 0 < t.server.nextEst ∧ (t.server.ests 0).pc = .returned ∧
        t.server.HasEntry [7])) = some true := by decide +kernel
  obtain ⟨t, hrun, hobs⟩ := exists_run_of_exec hexec
  exact ⟨t, hrun.mono fun _ _ _ => trivial, of_decide_eq_true hobs⟩

set_option maxRecDepth 100000 in
/-- A session that `finish` closes while `Send` runs. -/
theorem session_released_one_lane : ∃ t, Run (Session.step [7]) (fun t l => t.orderly [7] l = true) Session.init
      (lanesMissing ++ [.act (.queueSend 0 0 .ok)] ++ finished ++
        [.act (.queueSend 0 0 .ok), .act (.queueSend 0 0 .ok), .act (.queueDone 0 0 0), .act (.est 0),
          .act (.est 0), .act (.est 0), .act (.tell 0 true)]) t ∧
    (t.server.ests 0).pc = .returned ∧ ¬ t.server.HasEntry [7] := by
  have hexec : (exec (Session.step [7]) (fun t l => t.orderly [7] l) Session.init
      (lanesMissing ++ [.act (.queueSend 0 0 .ok)] ++ finished ++
        [.act (.queueSend 0 0 .ok), .act (.queueSend 0 0 .ok), .act (.queueDone 0 0 0), .act (.est 0),
          .act (.est 0), .act (.est 0), .act (.tell 0 true)])).map
      (fun t => decide (0 < t.server.nextEst ∧ (t.server.ests 0).pc = .returned)) = some true := by
    decide +kernel
  obtain ⟨t, hrun, hobs⟩ := exists_run_of_exec hexec
  obtain ⟨hnext, hpc⟩ := of_decide_eq_true hobs
  exact ⟨t, hrun, hpc, session_released (by decide) (by decide) hrun 0 hnext hpc⟩

end Wssocks.Wss

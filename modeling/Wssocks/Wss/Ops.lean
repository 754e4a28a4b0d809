import Wssocks.Pipe.Ran
import Wssocks.Wss.ServerSteps

/-!
# What a step of the server does to the hubs

Every step of the server executes at most one operation of a hub (`Server.op`); all
other steps only move a goroutine of `Send` or touch a buffer.

Results:

* `Server.acts_of_step`: a step is at most one action on the queues and one on the links.
* `Server.did_of_step`: the queues and the links after a step are those the operation leaves.
* `Server.kept_of_step`: what the steps outside the handshake leave alone.
-/

namespace Wssocks.Wss

open Wssocks.Lib Wssocks.Pipe

variable {W KSUID : Type} [DecidableEq W] [DecidableEq KSUID]

/-- The operations of the two hubs. -/
inductive HubOp (W KSUID : Type) where
  | queueAdd (masterID id : KSUID) (w : WsWriter W KSUID)
  | queueSort (masterID : KSUID) (sort : List KSUID)
  | queueTry (masterID : KSUID)
  | queueRemove (masterID : KSUID)
  | linkAdd (id masterID : KSUID)
  | linkSort (masterID : KSUID) (sort : List KSUID)
  | linkTry (masterID : KSUID) (conn : ℕ)
  | linkRemove (masterID : KSUID)
  deriving DecidableEq, Repr

/-- The operation a call of `Close` executes next. -/
def CloseAt.op (id : KSUID) : CloseAt → Option (HubOp W KSUID)
  | .test => none
  | .links => some (.linkRemove id)
  | .queue => some (.queueRemove id)

/-- The operation a reader executes when it begins to dispatch a message. -/
def Msg.op (w : W) : Msg KSUID → Option (HubOp W KSUID)
  | .sayhi id masterID => some (.queueAdd masterID id ⟨w, id⟩)
  | .est id sorted => some (.queueSort id sorted)
  | _ => none

/-- The operation a reader executes next. -/
def Reader.op : Reader KSUID → Option (HubOp W KSUID)
  | .hi id masterID => some (.linkAdd id masterID)
  | .est id sorted => some (.linkSort id sorted)
  | .close _ id a | .hubCloseAt _ id a => a.op id
  | _ => none

/-- The operation `establish` executes next on instance `e`. -/
def EstPc.op (id : KSUID) (e : ℕ) : EstPc → Option (HubOp W KSUID)
  | .linkTrySend => some (.linkTry id e)
  | .queueTrySend => some (.queueTry id)
  | .close a => a.op id
  | _ => none

/-- The hub operation of a step. -/
def Server.op (s : Server W KSUID) : ServerLabel W KSUID → Option (HubOp W KSUID)
  | .recv w => (s.inbox w).head?.bind (Msg.op w)
  | .reader w => (s.reader w).op
  | .est e => (s.ests e).pc.op (s.ests e).id e
  | _ => none

/-- The queues after a step with operation `o`. -/
def QueuesDid (s s' : Queues KSUID (WsWriter W KSUID)) : Option (HubOp W KSUID) → Prop
  | some (.queueAdd m id w) => s' = s.add m id w
  | some (.queueSort m sort) => s' = s.setSort m sort
  | some (.queueTry m) => s' = s.trySend m
  | some (.queueRemove m) => s' = s.remove m
  | _ => Queues.Ran s s'

/-- The links after a step with operation `o`. -/
def LinksDid (s s' : Links KSUID) : Option (HubOp W KSUID) → Prop
  | some (.linkAdd id m) => s' = s.add id m
  | some (.linkSort m sort) => s' = s.setSort m sort
  | some (.linkTry m c) => s' = s.trySend m c
  | some (.linkRemove m) => s' = s.removeAll m
  | _ => Links.Ran s s'

/-! ## A step is at most one action on each hub -/

/-- The operation as an action on the queues. -/
def HubOp.queueAct : HubOp W KSUID → Option (QueueAct KSUID (WsWriter W KSUID))
  | .queueAdd m id w => some (.add m id w)
  | .queueSort m sort => some (.setSort m sort)
  | .queueTry m => some (.trySend m)
  | .queueRemove m => some (.remove m)
  | _ => none

/-- The operation as an action on the links. -/
def HubOp.linkAct : HubOp W KSUID → Option (LinkAct KSUID)
  | .linkAdd id m => some (.add id m)
  | .linkSort m sort => some (.setSort m sort)
  | .linkTry m c => some (.trySend m c)
  | .linkRemove m => some (.removeAll m)
  | _ => none

/-- What a step does to the queues. -/
def Server.queueAct (s : Server W KSUID) : ServerLabel W KSUID → Option (QueueAct KSUID (WsWriter W KSUID))
  | .copy e => (s.ests e).writer.bind fun q => (s.ests e).copy.chunk?.map (.write q)
  | .queueSend q i o => some (.send q i o)
  | .queueDone q i _ => some (.wait q i)
  | l => (s.op l).bind HubOp.queueAct

/-- What a step does to the links. -/
def Server.linkAct (s : Server W KSUID) : ServerLabel W KSUID → Option (LinkAct KSUID)
  | .reader w =>
    match s.reader w with
    | .select q b => some (.write q b)
    | r => (r.op (W := W)).bind HubOp.linkAct
  | .est e =>
    match (s.ests e).pc with
    | .connClose => some (.closeConn e)
    | pc => (pc.op (W := W) (s.ests e).id e).bind HubOp.linkAct
  | .linkSend q i o => some (.send q i o)
  | .linkDone q i _ => some (.wait q i)
  | l => (s.op l).bind HubOp.linkAct

variable {s s' : Server W KSUID} {l : ServerLabel W KSUID} {out : Option (W × Msg KSUID)} {w : W} {e : ℕ}

/-- `s'` comes from `s` by the actions `a` on the queues and `b` on the links. -/
def ActsOn (s s' : Server W KSUID) (a : Option (QueueAct KSUID (WsWriter W KSUID)))
    (b : Option (LinkAct KSUID)) : Prop :=
  Acts Queues.act s.queues s'.queues a ∧ Acts Links.act s.links s'.links b

omit [DecidableEq W] in
theorem acts_closeStep (hq : s.queues.crashed = false) (hl : s.links.crashed = false) (e : ℕ) (id : KSUID)
    (a : CloseAt) : ActsOn s (s.closeStep e id a).1 ((a.op (W := W) id).bind HubOp.queueAct)
      ((a.op (W := W) id).bind HubOp.linkAct) := by
  cases a with
  | test =>
    simp only [Server.closeStep]
    split_ifs <;> exact ⟨rfl, rfl⟩
  | links =>
    refine ⟨rfl, ?_⟩
    show Links.act s.links (.removeAll id) = _
    simp [Links.act, hl, Server.closeStep]
  | queue =>
    refine ⟨?_, rfl⟩
    show Queues.act s.queues (.remove id) = _
    simp [Queues.act, hq, Server.closeStep]

theorem acts_dispatch {x : Msg KSUID} (hq : s.queues.crashed = false) :
    ActsOn s (s.dispatch w x) ((x.op w).bind HubOp.queueAct) ((x.op w).bind HubOp.linkAct) := by
  cases x with
  | beats => exact ⟨rfl, rfl⟩
  | sayhi id m =>
    refine ⟨?_, rfl⟩
    show Queues.act s.queues (.add m id ⟨w, id⟩) = _
    simp [Queues.act, hq, Server.dispatch, Server.goReader]
  | est id sorted =>
    refine ⟨?_, rfl⟩
    show Queues.act s.queues (.setSort id sorted) = _
    simp [Queues.act, hq, Server.dispatch, Server.goReader]
  | finish id | data id tag bytes => simp only [Server.dispatch]; split <;> exact ⟨rfl, rfl⟩

theorem ReaderStep.acts (h : ReaderStep s w s') (hq : s.queues.crashed = false) (hl : s.links.crashed = false) :
    ActsOn s s' (s.queueAct (.reader w)) (s.linkAct (.reader w)) := by
  unfold ActsOn
  cases h with
  | hi hr | est hr =>
    simp [Server.queueAct, Server.linkAct, Server.op, hr, Reader.op, HubOp.queueAct, HubOp.linkAct, Acts,
      Links.act, hl, Server.goReader, Server.spawn]
  | refuse hr | test hr =>
    simp only [Server.queueAct, Server.linkAct, Server.op, hr, Reader.op, Option.bind_none]
    exact ⟨rfl, rfl⟩
  | write hr hp =>
    simp [Server.queueAct, Server.linkAct, Server.op, hr, Reader.op, Acts, Links.act, hl, hp, Server.goReader]
  | @close e id a hr | @hubClose e id a _ hr | @hubDelete e id a hr =>
    simp only [Server.queueAct, Server.linkAct, Server.op, hr, Reader.op]
    exact acts_closeStep hq hl e id a

theorem EstStep.acts (h : EstStep s e s') (hq : s.queues.crashed = false) (hl : s.links.crashed = false) :
    ActsOn s s' (s.queueAct (.est e)) (s.linkAct (.est e)) := by
  unfold ActsOn
  cases h with
  | linkTrySend hpc | queueTrySend hpc | get hpc | connClose hpc =>
    simp [Server.queueAct, Server.linkAct, Server.op, hpc, EstPc.op, HubOp.queueAct, HubOp.linkAct, Acts,
      Links.act, Queues.act, hl, hq, Server.setEst]
  | addProxy hpc | removeProxy hpc | nilWait hpc | wake hpc =>
    simp only [Server.queueAct, Server.linkAct, Server.op, hpc, EstPc.op, Option.bind_none]
    exact ⟨rfl, rfl⟩
  | @close a hpc =>
    simp only [Server.queueAct, Server.linkAct, Server.op, hpc, EstPc.op]
    exact acts_closeStep hq hl e (s.ests e).id a

omit [DecidableEq W] in
/-- `CopyBuffer` only fills a queue. -/
theorem acts_copy {qs qs' : Queues KSUID (WsWriter W KSUID)} {c c' : Copy} {q : ℕ} (hq : qs.crashed = false)
    (h : c.step qs q = some (c', qs')) : Acts Queues.act qs qs' (c.chunk?.map (.write q)) := by
  unfold Copy.step at h
  cases hpc : c.pc with
  | idle | read | done => simp [hpc] at h
  | check d er | eofCheck er =>
    simp only [hpc] at h
    simp only [Copy.chunk?, hpc, Option.map_none]
    split_ifs at h <;> cases h <;> rfl
  | select d er | eofSelect er =>
    simp only [hpc, Option.map_eq_some_iff] at h
    obtain ⟨⟨qs1, ok⟩, hp, he⟩ := h
    have hs1 : qs' = qs1 := by cases ok <;> cases he <;> rfl
    simp [Copy.chunk?, hpc, Acts, Queues.act, hq, hp, hs1]

/-- What a step does to the hubs. -/
theorem Server.acts_of_step (h : s.step l = some (s', out)) : ActsOn s s' (s.queueAct l) (s.linkAct l) := by
  obtain ⟨-, hq, hl⟩ := Server.alive_of_step h
  cases ServerStep.of_step h with
  | @recv w x xs hr hin =>
    simp only [Server.queueAct, Server.linkAct, Server.op, hin, List.head?_cons, Option.bind_some]
    exact acts_dispatch (s := { s with inbox := Function.update s.inbox w xs }) hq
  | reader h1 => exact h1.acts hq hl
  | est he h1 => exact h1.acts hq hl
  | waiter he h1 => cases h1 <;> exact ⟨rfl, rfl⟩
  | writeTimeout | disconnect | hubClose | stop | dial | tell | copyRead | copyTimeout => exact ⟨rfl, rfl⟩
  | copy he hw h1 =>
    refine ⟨?_, rfl⟩
    simp only [Server.queueAct, hw, Option.bind_some]
    exact acts_copy hq h1
  | linkSend h1 => exact ⟨rfl, by simpa [Server.linkAct, Acts, Links.act, hl] using h1⟩
  | queueSend h1 => exact ⟨by simp [Server.queueAct, Acts, Queues.act, hq, h1], rfl⟩
  | linkDone he hw h1 => exact ⟨rfl, by simpa [Server.linkAct, Acts, Links.act, hl, Server.setEst] using h1⟩
  | queueDone he hpc hw h1 => exact ⟨by simpa [Server.queueAct, Acts, Queues.act, hq, Server.setEst] using h1, rfl⟩

/-! ## The operation of a step -/

omit [DecidableEq W] in
theorem QueuesDid.of_acts {q q' : Queues KSUID (WsWriter W KSUID)} {o : Option (HubOp W KSUID)}
    (h : Acts Queues.act q q' (o.bind HubOp.queueAct)) : QueuesDid q q' o := by
  have hran : q' = q → Queues.Ran q q' := by rintro rfl; exact .same
  cases o with
  | none => exact hran h
  | some x =>
    cases x with
    | linkAdd | linkSort | linkTry | linkRemove => exact hran h
    | queueAdd m id w =>
      replace h : Queues.act q (.add m id w) = some q' := h
      unfold Queues.act at h
      split_ifs at h
      exact (Option.some.inj h).symm
    | queueSort m sort =>
      replace h : Queues.act q (.setSort m sort) = some q' := h
      unfold Queues.act at h
      split_ifs at h
      exact (Option.some.inj h).symm
    | queueTry m =>
      replace h : Queues.act q (.trySend m) = some q' := h
      unfold Queues.act at h
      split_ifs at h
      exact (Option.some.inj h).symm
    | queueRemove m =>
      replace h : Queues.act q (.remove m) = some q' := h
      unfold Queues.act at h
      split_ifs at h
      exact (Option.some.inj h).symm

omit [DecidableEq W] in
theorem LinksDid.of_acts {k k' : Links KSUID} {o : Option (HubOp W KSUID)}
    (h : Acts Links.act k k' (o.bind HubOp.linkAct)) : LinksDid k k' o := by
  have hran : k' = k → Links.Ran k k' := by rintro rfl; exact .same
  cases o with
  | none => exact hran h
  | some x =>
    cases x with
    | queueAdd | queueSort | queueTry | queueRemove => exact hran h
    | linkAdd id m =>
      replace h : Links.act k (.add id m) = some k' := h
      unfold Links.act at h
      split_ifs at h
      exact (Option.some.inj h).symm
    | linkSort m sort =>
      replace h : Links.act k (.setSort m sort) = some k' := h
      unfold Links.act at h
      split_ifs at h
      exact (Option.some.inj h).symm
    | linkTry m c =>
      replace h : Links.act k (.trySend m c) = some k' := h
      unfold Links.act at h
      split_ifs at h
      exact (Option.some.inj h).symm
    | linkRemove m =>
      replace h : Links.act k (.removeAll m) = some k' := h
      unfold Links.act at h
      split_ifs at h
      exact (Option.some.inj h).symm

/-- What a step leaves of the queues and the links. -/
theorem Server.did_of_step (h : s.step l = some (s', out)) :
    QueuesDid s.queues s'.queues (s.op l) ∧ LinksDid s.links s'.links (s.op l) := by
  obtain ⟨hq, hl⟩ := Server.acts_of_step h
  constructor
  · cases l with
    | queueSend q i o | queueDone q i e => exact Queues.Ran.of_act hq rfl
    | copy e =>
      cases hw : (s.ests e).writer with
      | none => rw [Server.queueAct, hw] at hq; exact QueuesDid.of_acts (o := none) hq
      | some q =>
        rw [Server.queueAct, hw] at hq
        cases hb : (s.ests e).copy.chunk? with
        | none => rw [Option.bind_some, hb] at hq; exact QueuesDid.of_acts (o := none) hq
        | some b => rw [Option.bind_some, hb] at hq; exact Queues.Ran.of_act hq rfl
    | _ => exact .of_acts hq
  · cases l with
    | linkSend q i o | linkDone q i e => exact Links.Ran.of_act hl rfl
    | reader w =>
      rw [Server.linkAct] at hl
      rw [Server.op]
      split at hl
      · rename_i hr
        rw [hr]
        exact Links.Ran.of_act hl rfl
      · exact .of_acts hl
    | est e =>
      rw [Server.linkAct] at hl
      rw [Server.op]
      split at hl
      · rename_i hpc
        rw [hpc]
        exact Links.Ran.of_act hl rfl
      · exact .of_acts hl
    | _ => exact .of_acts hl

/-- The operation takes entries out of a hub. -/
def HubOp.removes : HubOp W KSUID → Bool
  | .queueRemove _ | .linkRemove _ => true
  | _ => false

omit [DecidableEq W] in
/-- Only a removal takes a link out of the map, or replaces it. -/
theorem LinksDid.ref?_mono {l l' : Links KSUID} {o : Option (HubOp W KSUID)} (h : LinksDid l l' o)
    (ho : ∀ x, o = some x → x.removes = false) {k : KSUID} {r : ℕ} (hk : l.hub.ref? k = some r) :
    l'.hub.ref? k = some r := by
  have hran : Links.Ran l l' → l'.hub.ref? k = some r := fun hr => (hr.ref? k).trans hk
  cases o with
  | none => exact hran h
  | some x =>
    have hx := ho x rfl
    cases x with
    | queueAdd | queueSort | queueTry => exact hran h
    | queueRemove | linkRemove => cases hx
    | linkAdd id m =>
      have h1 : l'.hub = (LinkHub.add l.hub id m).1 := by rw [h]; exact Links.hub_launch
      rw [h1, LinkHub.ref?_add]
      split_ifs with h2 h3
      · rw [LinkHub.masterRef, ← h2, hk]; rfl
      · rw [← h3, hk]; rfl
      · exact hk
    | linkSort m sort =>
      have h1 : l'.hub = LinkHub.setSort l.hub m sort := by rw [h]; rfl
      rw [h1, LinkHub.ref?_setSort]
      split_ifs with h2
      · rw [LinkHub.masterRef, ← h2, hk]; rfl
      · exact hk
    | linkTry m c =>
      have h1 : l'.hub = (LinkHub.trySend l.hub m (some c)).1 := by rw [h]; exact Links.hub_launch
      rw [h1, LinkHub.ref?_trySend, hk]

omit [DecidableEq W] in
/-- The same for queues. -/
theorem QueuesDid.ref?_mono {q q' : Queues KSUID (WsWriter W KSUID)} {o : Option (HubOp W KSUID)}
    (h : QueuesDid q q' o) (ho : ∀ x, o = some x → x.removes = false) {k : KSUID} {r : ℕ}
    (hk : q.hub.ref? k = some r) : q'.hub.ref? k = some r := by
  have hran : Queues.Ran q q' → q'.hub.ref? k = some r := fun hr => (hr.ref? k).trans hk
  cases o with
  | none => exact hran h
  | some x =>
    have hx := ho x rfl
    cases x with
    | linkAdd | linkSort | linkTry => exact hran h
    | queueRemove | linkRemove => cases hx
    | queueAdd m id w =>
      have h1 : q'.hub = QueueHub.add q.hub m id w := by rw [h]; exact Queues.hub_add
      rw [h1, QueueHub.ref?_add]
      split_ifs with h2
      · rw [QueueHub.masterRef, ← h2, hk]; rfl
      · exact hk
    | queueSort m sort =>
      have h1 : q'.hub = QueueHub.setSort q.hub m sort := by rw [h]; rfl
      rw [h1, QueueHub.ref?_setSort]
      split_ifs with h2
      · rw [QueueHub.masterRef, ← h2, hk]; rfl
      · exact hk
    | queueTry m => rw [h, Queues.hub_trySend, hk]

/-! ## What a step leaves alone -/

/-- The reader is between the two operations of a handshake message. -/
def Reader.shakes : Reader KSUID → Bool
  | .hi _ _ | .est _ _ => true
  | _ => false

/-- Before `LinkHub.TrySend`. -/
def EstPc.dialing : EstPc → Bool
  | .dial | .linkTrySend => true
  | _ => false

/-- A step that takes no message and finishes no handshake message. -/
structure Kept (s s' : Server W KSUID) : Prop where
  inbox : s'.inbox = s.inbox
  nextEst : s'.nextEst = s.nextEst
  reader : ∀ w, s'.reader w = s.reader w ∨ ((s.reader w).shakes = false ∧ (s'.reader w).shakes = false)
  ests : ∀ e, (s'.ests e).ws = (s.ests e).ws ∧ (s'.ests e).id = (s.ests e).id
  pc : ∀ e, (s'.ests e).pc.dialing = true → (s.ests e).pc.dialing = true

omit [DecidableEq W] in
theorem Kept.refl : Kept s s := ⟨rfl, rfl, fun _ => .inl rfl, fun _ => ⟨rfl, rfl⟩, fun _ h => h⟩

theorem Kept.goReader {x : Reader KSUID} (h : Kept s s') (hr : (s.reader w).shakes = false)
    (hx : x.shakes = false) : Kept s (s'.goReader w x) where
  inbox := h.inbox
  nextEst := h.nextEst
  reader := by
    intro v
    show Function.update s'.reader w x v = _ ∨ (_ ∧ (Function.update s'.reader w x v).shakes = _)
    by_cases hv : v = w
    · subst hv; rw [Function.update_self]; exact .inr ⟨hr, hx⟩
    · rw [Function.update_of_ne hv]; exact h.reader v
  ests := h.ests
  pc := h.pc

omit [DecidableEq W] in
theorem Kept.setEst {u : Est W KSUID → Est W KSUID} (h : Kept s s')
    (hu : (u (s'.ests e)).ws = (s'.ests e).ws ∧ (u (s'.ests e)).id = (s'.ests e).id)
    (hpc : (u (s'.ests e)).pc.dialing = true → (s'.ests e).pc.dialing = true) :
    Kept s (s'.setEst e u) where
  inbox := h.inbox
  nextEst := h.nextEst
  reader := h.reader
  ests := by
    intro x
    show (Function.update s'.ests e (u (s'.ests e)) x).ws = _ ∧ (Function.update s'.ests e _ x).id = _
    by_cases hx : x = e
    · subst hx; rw [Function.update_self, hu.1, hu.2]; exact h.ests x
    · rw [Function.update_of_ne hx]; exact h.ests x
  pc := by
    intro x
    show (Function.update s'.ests e (u (s'.ests e)) x).pc.dialing = true → _
    by_cases hx : x = e
    · subst hx; rw [Function.update_self]; exact fun h1 => h.pc x (hpc h1)
    · rw [Function.update_of_ne hx]; exact h.pc x

omit [DecidableEq W] in
/-- The hubs, the pools and the connections are no part of it. -/
theorem Kept.of_eq {s'' : Server W KSUID} (h : Kept s s') (hi : s''.inbox = s'.inbox)
    (hr : s''.reader = s'.reader) (he : s''.ests = s'.ests) (hn : s''.nextEst = s'.nextEst) : Kept s s'' :=
  ⟨hi.trans h.inbox, hn.trans h.nextEst, by rw [hr]; exact h.reader, by rw [he]; exact h.ests,
    by rw [he]; exact h.pc⟩

omit [DecidableEq W] in
theorem kept_closeStep {id : KSUID} (a : CloseAt) : Kept s (s.closeStep e id a).1 := by
  cases a with
  | test =>
    simp only [Server.closeStep]
    split_ifs
    · exact .refl
    · show Kept s (s.setEst e fun x => { x with closed := true })
      exact Kept.setEst .refl ⟨rfl, rfl⟩ fun h => h
  | links | queue => exact Kept.refl.of_eq rfl rfl rfl rfl

theorem ReaderStep.kept (h : ReaderStep s w s') (hsh : (s.reader w).shakes = false) : Kept s s' := by
  cases h with
  | hi hr | est hr => rw [hr] at hsh; cases hsh
  | refuse | test => exact Kept.goReader .refl hsh rfl
  | write => exact Kept.goReader (.of_eq .refl rfl rfl rfl rfl) hsh rfl
  | @close e id a =>
    refine Kept.goReader (kept_closeStep a) hsh ?_
    cases s.closeNext e a <;> rfl
  | hubClose => exact Kept.goReader (kept_closeStep _) hsh rfl
  | hubDelete => exact Kept.goReader (.of_eq (kept_closeStep _) rfl rfl rfl rfl) hsh rfl

theorem EstStep.kept (h : EstStep s e s') : Kept s s' := by
  cases h with
  | linkTrySend | addProxy | queueTrySend | removeProxy | connClose =>
    exact Kept.setEst (.of_eq .refl rfl rfl rfl rfl) ⟨rfl, rfl⟩ nofun
  | get | wake => exact Kept.setEst .refl ⟨rfl, rfl⟩ nofun
  | nilWait => exact Kept.refl.of_eq rfl rfl rfl rfl
  | @close a =>
    refine Kept.setEst (kept_closeStep a) ⟨rfl, rfl⟩ ?_
    cases s.closeNext e a <;> nofun

/-- Every step but those that take or finish a handshake message. -/
theorem Server.kept_of_step (h : s.step l = some (s', out)) (hl : ∀ w, l ≠ .recv w)
    (hr : ∀ w, l = .reader w → (s.reader w).shakes = false) : Kept s s' := by
  cases ServerStep.of_step h with
  | @recv w => exact absurd rfl (hl w)
  | reader h1 => exact h1.kept (hr _ rfl)
  | est he h1 => exact h1.kept
  | writeTimeout hw | disconnect hw | hubClose hw | stop hw => exact Kept.goReader .refl (by rw [hw]; rfl) rfl
  | dial he hpc => exact Kept.setEst .refl ⟨rfl, rfl⟩ fun _ => by rw [hpc]; rfl
  | tell => exact Kept.setEst .refl ⟨rfl, rfl⟩ nofun
  | waiter he h1 => cases h1 <;> exact Kept.setEst .refl ⟨rfl, rfl⟩ fun h2 => h2
  | copyRead | copyTimeout => exact Kept.setEst .refl ⟨rfl, rfl⟩ fun h2 => h2
  | copy | linkDone => exact Kept.setEst (.of_eq .refl rfl rfl rfl rfl) ⟨rfl, rfl⟩ fun h2 => h2
  | linkSend | queueSend => exact Kept.refl.of_eq rfl rfl rfl rfl
  | queueDone => exact Kept.setEst (.of_eq .refl rfl rfl rfl rfl) ⟨rfl, rfl⟩ nofun

/-- `establish` does not go back to the dial. -/
theorem Server.dialing_of_est (h : s.step (.est e) = some (s', out)) :
    e < s.nextEst ∧ (s'.ests e).pc.dialing = false := by
  have hself : ∀ {t : Server W KSUID} {u : Est W KSUID → Est W KSUID},
      (u (t.ests e)).pc.dialing = false → ((t.setEst e u).ests e).pc.dialing = false := by
    intro t u h1
    show (Function.update t.ests e (u (t.ests e)) e).pc.dialing = false
    rw [Function.update_self]
    exact h1
  cases ServerStep.of_step h with
  | est he h1 =>
    refine ⟨he, ?_⟩
    cases h1 with
    | nilWait hpc => rw [hpc]; rfl
    | @close a =>
      refine hself ?_
      cases s.closeNext e a <;> rfl
    | _ => exact hself rfl

end Wssocks.Wss

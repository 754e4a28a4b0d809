import Mathlib.Data.Set.Lattice
import Mathlib.Order.CompletePartialOrder
import Wssocks.Lib.Lts
import Wssocks.Lib.Mirror
import Wssocks.Pipe.Act
import Wssocks.Pipe.LinkLemmas
import Wssocks.Pipe.QueueLemmas

/-!
# Sessions that share the hubs

All sessions of a server share one `QueueHub` and one `LinkHub` (`serverQueueHub` and `serverLinkHub` of
proxy_server.go:20-26). A session uses ids of its own, and its steps are interleaved with those of all others.

The hubs a session would have if it were alone mirror its part of the shared ones: same entries, same
objects and goroutines at other addresses.

Results:

* `sessions_isolated`: in every run, the entries under the ids of a session and what was written to its
  connections are those of the run of its own steps alone.
-/

namespace Wssocks.Pipe

open Wssocks.Lib

/-! ## Queues -/

section Queues

variable {KSUID W : Type} [DecidableEq KSUID]

/-- What belongs to the session with the ids `K` in a `QueueHub`. -/
def queuePart (K : Set KSUID) : Part KSUID (Queue KSUID W) (QueueSend KSUID W) where
  keys := K
  own q := q.masterID ∈ K
  good q := q.masterID ∈ K
  rename _ pc := pc
  goodPc _ _ := True
  good_own := id
  mono := fun _ _ => trivial
  congr := fun _ _ => rfl

variable {K : Set KSUID} {ρ ρ' ρ'' : ℕ → ℕ} {s s' s'' t t' t'' : Queues KSUID W} {a i : ℕ} {m : KSUID}

/-- The hub `t` of a session alone mirrors its part of the hub `s`. -/
def QueueMirror (K : Set KSUID) (ρ : ℕ → ℕ) (s t : Queues KSUID W) : Prop :=
  Mirrors (queuePart K) ρ s.hub s.sends t.hub t.sends

/-- A step of the session, in the shared hub and alone. -/
structure QueueMoves (K : Set KSUID) (ρ : ℕ → ℕ) (s t : Queues KSUID W) (ρ' : ℕ → ℕ) (s' t' : Queues KSUID W) :
    Prop where
  hub : Moves (queuePart K) ρ s.hub s.sends t.hub t.sends ρ' s'.hub s'.sends t'.hub t'.sends
  crashed : s.crashed = t.crashed → s'.crashed = t'.crashed

theorem QueueMoves.mirror (h : QueueMoves K ρ s t ρ' s' t') : QueueMirror K ρ' s' t' := h.hub.mirrors

theorem QueueMoves.trans (h₁ : QueueMoves K ρ s t ρ' s' t') (h₂ : QueueMoves K ρ' s' t' ρ'' s'' t'') :
    QueueMoves K ρ s t ρ'' s'' t'' :=
  ⟨h₁.hub.trans h₂.hub, fun h => h₂.crashed (h₁.crashed h)⟩

namespace QueueMirror

theorem refl (hm : QueueMirror K ρ s t) : QueueMoves K ρ s t ρ s t := ⟨hm.moves_refl, fun h => h⟩

theorem obj_eq (hm : QueueMirror K ρ s t) (ha : a < t.hub.next) : s.hub.obj (ρ a) = t.hub.obj a := hm.obj a ha

theorem sends_eq (hm : QueueMirror K ρ s t) (ha : a < t.hub.next) : s.sends (ρ a) = t.sends a := by
  rw [hm.threads a ha]
  exact List.map_id _

theorem modify (hm : QueueMirror K ρ s t) (ha : a < t.hub.next) {f : Queue KSUID W → Queue KSUID W}
    (hf : (f (t.hub.obj a)).masterID = (t.hub.obj a).masterID) :
    QueueMoves K ρ s t ρ (s.modify (ρ a) f) (t.modify a f) := by
  refine ⟨hm.moves_modify ha ?_, fun h => h⟩
  change (f (t.hub.obj a)).masterID ∈ K
  rw [hf]
  exact hm.good a ha

theorem run (hm : QueueMirror K ρ s t) (ha : a < t.hub.next) (pcs : List (QueueSend KSUID W)) :
    QueueMoves K ρ s t ρ { s with sends := Function.update s.sends (ρ a) pcs }
      { t with sends := Function.update t.sends a pcs } := by
  have hrun := hm.moves_run ha fun pc (_ : pc ∈ pcs) => trivial
  rw [show pcs.map ((queuePart K).rename ρ) = pcs from List.map_id _] at hrun
  exact ⟨hrun, fun h => h⟩

theorem goto (hm : QueueMirror K ρ s t) (ha : a < t.hub.next) (i : ℕ) (pc : QueueSend KSUID W) :
    QueueMoves K ρ s t ρ (s.goto (ρ a) i pc) (t.goto a i pc) := by
  unfold Queues.goto
  rw [hm.sends_eq ha]
  exact hm.run ha _

theorem launch (hm : QueueMirror K ρ s t) {o : Option ℕ} (ho : ∀ a, o = some a → a < t.hub.next) :
    QueueMoves K ρ s t ρ (s.launch (o.map ρ)) (t.launch o) := by
  cases o with
  | none => exact hm.refl
  | some a =>
    rw [Option.map_some, Queues.launch, Queues.launch, hm.sends_eq (ho a rfl)]
    exact hm.run (ho a rfl) _

theorem crash (hm : QueueMirror K ρ s t) :
    QueueMoves K ρ s t ρ { s with crashed := true } { t with crashed := true } :=
  ⟨hm.moves_refl, fun _ => rfl⟩

/-! ### The methods of the hub -/

theorem trySend (hm : QueueMirror K ρ s t) (hK : m ∈ K) : QueueMoves K ρ s t ρ (s.trySend m) (t.trySend m) := by
  have hlaunch : QueueHub.trySend s.hub m = (QueueHub.trySend t.hub m).map ρ ∧
      ∀ a, QueueHub.trySend t.hub m = some a → a < t.hub.next := by
    have href := hm.ref m hK
    unfold QueueHub.trySend
    cases hr : t.hub.ref? m with
    | none => simp [href, hr]
    | some r =>
      have hlt := Registry.ref?_lt hr
      simp only [href, hr, Option.map_some, hm.obj_eq hlt]
      split_ifs
      · exact ⟨rfl, fun a ha => Option.some.inj ha ▸ hlt⟩
      · exact ⟨rfl, nofun⟩
  unfold Queues.trySend
  rw [hlaunch.1]
  exact hm.launch hlaunch.2

theorem add (hm : QueueMirror K ρ s t) (hK : m ∈ K) (id : KSUID) (w : W) :
    ∃ ρ', QueueMoves K ρ s t ρ' (s.add m id w) (t.add m id w) := by
  obtain ⟨ρ', hens⟩ := hm.moves_ensure hK (x := newQueue m) hK
  have href := hens.mirrors.ref m hK
  obtain ⟨r, hr⟩ : ∃ r, (t.hub.ensure m (newQueue m)).ref? m = some r :=
    ⟨_, by rw [Registry.ref?_ensure, if_pos rfl]⟩
  have hlt := Registry.ref?_lt hr
  have hmod := hens.mirrors.moves_modify hlt (f := fun x => { x with writers := x.writers.insert id w })
    (hens.mirrors.good r hlt)
  have hadd : QueueMoves K ρ s t ρ' { s with hub := QueueHub.add s.hub m id w }
      { t with hub := QueueHub.add t.hub m id w } := by
    refine ⟨?_, fun h => h⟩
    simp only [QueueHub.add, href, hr, Option.map_some]
    exact hens.trans hmod
  exact ⟨ρ', hadd.trans (hadd.mirror.trySend hK)⟩

theorem setSort (hm : QueueMirror K ρ s t) (hK : m ∈ K) (sort : List KSUID) :
    ∃ ρ', QueueMoves K ρ s t ρ' (s.setSort m sort) (t.setSort m sort) := by
  have href := hm.ref m hK
  unfold Queues.setSort QueueHub.setSort
  cases hr : t.hub.ref? m with
  | none =>
    simp only [href, hr, Option.map_none]
    exact ⟨_, hm.moves_create hK (show m ∈ K from hK), fun h => h⟩
  | some r =>
    simp only [href, hr, Option.map_some]
    exact ⟨ρ, hm.modify (Registry.ref?_lt hr) (f := fun x => { x with sorted := sort }) rfl⟩

theorem remove (hm : QueueMirror K ρ s t) (hK : m ∈ K) : QueueMoves K ρ s t ρ (s.remove m) (t.remove m) := by
  have href := hm.ref m hK
  unfold Queues.remove QueueHub.remove
  cases hr : t.hub.ref? m with
  | none =>
    simp only [href, hr, Option.map_none]
    exact hm.refl
  | some r =>
    simp only [href, hr, Option.map_some]
    have hclose : ∀ q : Queue KSUID W, q.close.masterID = q.masterID := by
      intro q
      unfold Queue.close
      split_ifs <;> rfl
    have hmod := hm.modify (Registry.ref?_lt hr) (hclose _)
    exact ⟨hmod.hub.trans (hmod.mirror.moves_erase hK), fun h => h⟩

/-! ### Steps through a pointer -/

theorem push (hm : QueueMirror K ρ s t) (ha : a < t.hub.next) {b : Buffer} {r : Queues KSUID W × Bool}
    (h : s.push (ρ a) b = some r) :
    ∃ t', t.push a b = some (t', r.2) ∧ QueueMoves K ρ s t ρ r.1 t' := by
  rw [Queues.push, hm.obj_eq ha, Option.map_eq_some_iff] at h
  obtain ⟨c, hc, rfl⟩ := h
  cases c with
  | none => exact ⟨t, by rw [Queues.push, hc]; rfl, hm.refl⟩
  | some c => exact ⟨t.modify a fun x => { x with buffer := c }, by rw [Queues.push, hc]; rfl, hm.modify ha rfl⟩

theorem handoff (hm : QueueMirror K ρ s t) (ha : a < t.hub.next) (h : s.handoff (ρ a) i = some s') :
    ∃ t', t.handoff a i = some t' ∧ QueueMoves K ρ s t ρ s' t' := by
  unfold Queues.handoff at h ⊢
  rw [hm.sends_eq ha, hm.obj_eq ha] at h
  split at h
  · next e hpc =>
    split_ifs at h with hd
    cases h
    simp only [hd]
    exact ⟨_, rfl, hm.goto ha i _⟩
  · cases h

/-- A step of `Send` depends on the queue and the goroutine only. -/
theorem send (hm : QueueMirror K ρ s t) (ha : a < t.hub.next) {o : Outcome} {msg : Option (W × Buffer)}
    (h : s.send (ρ a) i o = some (s', msg)) :
    ∃ t', t.send a i o = some (t', msg) ∧ QueueMoves K ρ s t ρ s' t' := by
  have hgoto : ∀ pc, QueueMoves K ρ s t ρ (s.goto (ρ a) i pc) (t.goto a i pc) := hm.goto ha i
  have hmodify : ∀ {f : Queue KSUID W → Queue KSUID W} {pc},
      (f (t.hub.obj a)).masterID = (t.hub.obj a).masterID →
      QueueMoves K ρ s t ρ ((s.modify (ρ a) f).goto (ρ a) i pc) ((t.modify a f).goto a i pc) := by
    intro f pc hf
    have hmod := hm.modify ha hf
    exact hmod.trans (hmod.mirror.goto ha i pc)
  have hobj := hm.obj_eq ha
  have hpc : ∀ {pc}, (s.sends (ρ a))[i]? = some pc → (t.sends a)[i]? = some pc := fun hi => hm.sends_eq ha ▸ hi
  cases Queues.sendStep_of_send h with
  | refuse hi hst => exact ⟨_, (Queues.SendStep.refuse (hpc hi) (hobj ▸ hst)).send, hgoto _⟩
  | enter hi hst => exact ⟨_, (Queues.SendStep.enter (hpc hi) (hobj ▸ hst)).send, hmodify rfl⟩
  | closed hi hst => exact ⟨_, (Queues.SendStep.closed (hpc hi) (hobj ▸ hst)).send, hgoto _⟩
  | round hi hst =>
    rw [hobj] at hst ⊢
    exact ⟨_, (Queues.SendStep.round (hpc hi) hst).send, hgoto _⟩
  | again hi => exact ⟨_, (Queues.SendStep.again (hpc hi)).send, hgoto _⟩
  | next hi =>
    rw [hobj]
    exact ⟨_, (Queues.SendStep.next (hpc hi)).send, hgoto _⟩
  | read hi hx => exact ⟨_, (Queues.SendStep.read (hpc hi) (hobj ▸ hx)).send, hmodify rfl⟩
  | timeout hi => exact ⟨_, (Queues.SendStep.timeout (hpc hi)).send, hgoto _⟩
  | write hi => exact ⟨_, (Queues.SendStep.write (hpc hi)).send, hgoto _⟩
  | fail hi => exact ⟨_, (Queues.SendStep.fail (hpc hi)).send, hgoto _⟩
  | noWriter hi => exact ⟨_, (Queues.SendStep.noWriter (hpc hi)).send, hm.crash⟩
  | ret hi => exact ⟨_, (Queues.SendStep.ret (hpc hi)).send, hmodify rfl⟩
  | panic hi hd => exact ⟨_, (Queues.SendStep.panic (hi.imp hpc hpc) (hobj ▸ hd)).send, hm.crash⟩
  | closeDone hi hd => exact ⟨_, (Queues.SendStep.closeDone (hpc hi) (hobj ▸ hd)).send, hmodify rfl⟩

end QueueMirror

/-- The ids that an action names. -/
def QueueAct.keys : QueueAct KSUID W → List KSUID
  | .add m id _ => [m, id]
  | .setSort m ids => m :: ids
  | .trySend m | .remove m => [m]
  | .sort _ ids => ids
  | .launch _ | .send _ _ _ | .wait _ _ | .write _ _ => []

/-- The pointer through which an action goes. -/
def QueueAct.ptr : QueueAct KSUID W → Option ℕ
  | .launch q | .sort q _ | .send q _ _ | .wait q _ | .write q _ => some q
  | .add _ _ _ | .setSort _ _ | .trySend _ | .remove _ => none

/-- The same action with its pointer at another address. -/
def QueueAct.rename (ρ : ℕ → ℕ) : QueueAct KSUID W → QueueAct KSUID W
  | .launch q => .launch (ρ q)
  | .sort q ids => .sort (ρ q) ids
  | .send q i o => .send (ρ q) i o
  | .wait q i => .wait (ρ q) i
  | .write q b => .write (ρ q) b
  | .add m id w => .add m id w
  | .setSort m ids => .setSort m ids
  | .trySend m => .trySend m
  | .remove m => .remove m

omit [DecidableEq KSUID] in
theorem QueueAct.rename_congr {b : QueueAct KSUID W} (h : ∀ q, b.ptr = some q → ρ' q = ρ q) :
    b.rename ρ' = b.rename ρ := by
  cases b <;> first | rfl | simp only [QueueAct.rename, h _ rfl]

/-- An action of the session with the ids `K`: it names ids of its own and goes through pointers to queues of its
own. -/
structure QueueAct.Of (K : Set KSUID) (s : Queues KSUID W) (x : QueueAct KSUID W) : Prop where
  keys : ∀ k ∈ x.keys, k ∈ K
  ptr : ∀ q, x.ptr = some q → q < s.hub.next ∧ (s.hub.obj q).masterID ∈ K

/-- An action of the session can be taken in its own hub as well. -/
theorem QueueMirror.act {x : QueueAct KSUID W} (hm : QueueMirror K ρ s t) (ht : t.crashed = false)
    (hx : x.Of K s) (h : s.act x = some s') :
    ∃ ρ' y t', x = y.rename ρ ∧ (∀ q, y.ptr = some q → q < t.hub.next) ∧ t.act y = some t' ∧
      QueueMoves K ρ s t ρ' s' t' := by
  have hptr : ∀ q, x.ptr = some q → ∃ r < t.hub.next, ρ r = q := by
    intro q hq
    obtain ⟨hlt, hown⟩ := hx.ptr q hq
    exact hm.surj q hlt hown
  unfold Queues.act at h
  split at h
  · cases h
  cases x with
  | add m id w =>
    obtain ⟨ρ', hmoves⟩ := hm.add (hx.keys m (by simp [QueueAct.keys])) id w
    cases h
    exact ⟨ρ', .add m id w, _, rfl, nofun, by simp [Queues.act, ht], hmoves⟩
  | setSort m sort =>
    obtain ⟨ρ', hmoves⟩ := hm.setSort (hx.keys m (by simp [QueueAct.keys])) sort
    cases h
    exact ⟨ρ', .setSort m sort, _, rfl, nofun, by simp [Queues.act, ht], hmoves⟩
  | trySend m =>
    cases h
    exact ⟨ρ, .trySend m, _, rfl, nofun, by simp [Queues.act, ht],
      hm.trySend (hx.keys m (by simp [QueueAct.keys]))⟩
  | remove m =>
    cases h
    exact ⟨ρ, .remove m, _, rfl, nofun, by simp [Queues.act, ht],
      hm.remove (hx.keys m (by simp [QueueAct.keys]))⟩
  | launch q =>
    obtain ⟨r, hr, rfl⟩ := hptr q rfl
    simp only [Option.ite_none_right_eq_some, Option.some.injEq] at h
    obtain ⟨-, rfl⟩ := h
    refine ⟨ρ, .launch r, t.launch (some r), rfl, fun q hq => Option.some.inj hq ▸ hr,
      by simp [Queues.act, ht, hr], ?_⟩
    exact hm.launch (o := some r) fun q hq => Option.some.inj hq ▸ hr
  | sort q ids =>
    obtain ⟨r, hr, rfl⟩ := hptr q rfl
    cases h
    exact ⟨ρ, .sort r ids, _, rfl, fun q hq => Option.some.inj hq ▸ hr, by simp [Queues.act, ht],
      hm.modify hr rfl⟩
  | send q i o =>
    obtain ⟨r, hr, rfl⟩ := hptr q rfl
    obtain ⟨⟨u, msg⟩, hu, rfl⟩ := Option.map_eq_some_iff.mp h
    obtain ⟨t', hsend, hmoves⟩ := hm.send hr hu
    exact ⟨ρ, .send r i o, t', rfl, fun q hq => Option.some.inj hq ▸ hr, by simp [Queues.act, ht, hsend],
      hmoves⟩
  | wait q i =>
    obtain ⟨r, hr, rfl⟩ := hptr q rfl
    obtain ⟨t', hwait, hmoves⟩ := hm.handoff hr h
    exact ⟨ρ, .wait r i, t', rfl, fun q hq => Option.some.inj hq ▸ hr, by simp [Queues.act, ht, hwait], hmoves⟩
  | write q b =>
    obtain ⟨r, hr, rfl⟩ := hptr q rfl
    obtain ⟨u, hu, rfl⟩ := Option.map_eq_some_iff.mp h
    obtain ⟨t', hpush, hmoves⟩ := hm.push hr hu
    exact ⟨ρ, .write r b, t', rfl, fun q hq => Option.some.inj hq ▸ hr, by simp [Queues.act, ht, hpush],
      hmoves⟩

end Queues

/-! ## Links -/

section Links

variable {KSUID : Type} [DecidableEq KSUID]

/-- A goroutine that goes through its links at other addresses. -/
def SendPc.mapSrc {S T : Type} (f : S → T) : SendPc KSUID S → SendPc KSUID T
  | .entry => .entry
  | .refused => .refused
  | .loop => .loop
  | .pass rest => .pass rest
  | .read l rest => .read (f l) rest
  | .write l b rest => .write (f l) b rest
  | .ret e => .ret e
  | .handoff e => .handoff e
  | .closeDone e => .closeDone e
  | .exit e => .exit e

/-- A goroutine that has ids of `K` to come and holds a link under `n`. -/
def LinkSend.Within (K : Set KSUID) (n : ℕ) : LinkSend KSUID → Prop
  | .pass rest => ∀ k ∈ rest, k ∈ K
  | .read l rest | .write l _ rest => l < n ∧ ∀ k ∈ rest, k ∈ K
  | _ => True

/-- What belongs to the session with the ids `K` and the connections `C` in a `LinkHub`. -/
def linkPart (K : Set KSUID) (C : Set ℕ) : Part KSUID (Link KSUID) (LinkSend KSUID) where
  keys := K
  own l := l.master ∈ K
  good l := l.master ∈ K ∧ (∀ k ∈ l.sorted, k ∈ K) ∧ ∀ c, l.conn = some c → c ∈ C
  rename ρ := SendPc.mapSrc ρ
  goodPc n pc := LinkSend.Within K n pc
  good_own := fun h => h.1
  mono := by
    intro n m pc hnm h
    cases pc <;> first | trivial | exact h | exact ⟨lt_of_lt_of_le h.1 hnm, h.2⟩
  congr := by
    intro n pc ρ ρ' h hρ
    cases pc <;> first | rfl | simp only [SendPc.mapSrc, hρ _ h.1]

variable {K : Set KSUID} {C : Set ℕ} {ρ ρ' ρ'' : ℕ → ℕ} {s s' s'' t t' t'' : Links KSUID} {a i : ℕ}
  {m id : KSUID}

/-- The hub `t` of a session alone mirrors its part of the hub `s`, and what was written to its connections is the
same. -/
structure LinkMirror (K : Set KSUID) (C : Set ℕ) (ρ : ℕ → ℕ) (s t : Links KSUID) : Prop where
  hub : Mirrors (linkPart K C) ρ s.hub s.sends t.hub t.sends
  socks : ∀ c ∈ C, s.socks c = t.socks c

/-- A step of the session, in the shared hub and alone. -/
structure LinkMoves (K : Set KSUID) (C : Set ℕ) (ρ : ℕ → ℕ) (s t : Links KSUID) (ρ' : ℕ → ℕ)
    (s' t' : Links KSUID) : Prop where
  hub : Moves (linkPart K C) ρ s.hub s.sends t.hub t.sends ρ' s'.hub s'.sends t'.hub t'.sends
  socks : ∀ c ∈ C, s'.socks c = t'.socks c
  others : ∀ c ∉ C, s'.socks c = s.socks c
  crashed : s.crashed = t.crashed → s'.crashed = t'.crashed

theorem LinkMoves.mirror (h : LinkMoves K C ρ s t ρ' s' t') : LinkMirror K C ρ' s' t' :=
  ⟨h.hub.mirrors, h.socks⟩

theorem LinkMoves.trans (h₁ : LinkMoves K C ρ s t ρ' s' t') (h₂ : LinkMoves K C ρ' s' t' ρ'' s'' t'') :
    LinkMoves K C ρ s t ρ'' s'' t'' where
  hub := h₁.hub.trans h₂.hub
  socks := h₂.socks
  others := fun c hc => (h₂.others c hc).trans (h₁.others c hc)
  crashed := fun h => h₂.crashed (h₁.crashed h)

namespace LinkMirror

/-- A step that leaves the connections. -/
theorem moves {h h' : LinkHub KSUID} {ts us : ℕ → List (LinkSend KSUID)} (hm : LinkMirror K C ρ s t)
    (hmoves : Moves (linkPart K C) ρ s.hub s.sends t.hub t.sends ρ' h ts h' us) :
    LinkMoves K C ρ s t ρ' { s with hub := h, sends := ts } { t with hub := h', sends := us } :=
  ⟨hmoves, hm.socks, fun _ _ => rfl, fun h => h⟩

theorem refl (hm : LinkMirror K C ρ s t) : LinkMoves K C ρ s t ρ s t := hm.moves hm.hub.moves_refl

theorem obj_eq (hm : LinkMirror K C ρ s t) (ha : a < t.hub.next) : s.hub.obj (ρ a) = t.hub.obj a :=
  hm.hub.obj a ha

theorem sends_eq (hm : LinkMirror K C ρ s t) (ha : a < t.hub.next) :
    s.sends (ρ a) = (t.sends a).map (SendPc.mapSrc ρ) := hm.hub.threads a ha

theorem modify (hm : LinkMirror K C ρ s t) (ha : a < t.hub.next) {f : Link KSUID → Link KSUID}
    (hf : (linkPart K C).good (f (t.hub.obj a))) : LinkMoves K C ρ s t ρ (s.modify (ρ a) f) (t.modify a f) :=
  hm.moves (hm.hub.moves_modify ha hf)

theorem good (hm : LinkMirror K C ρ s t) (ha : a < t.hub.next) : (linkPart K C).good (t.hub.obj a) :=
  hm.hub.good a ha

theorem goto (hm : LinkMirror K C ρ s t) (ha : a < t.hub.next) (i : ℕ) (pc : LinkSend KSUID)
    (hpc : LinkSend.Within K t.hub.next pc) :
    LinkMoves K C ρ s t ρ (s.goto (ρ a) i (pc.mapSrc ρ)) (t.goto a i pc) := by
  have hrun := hm.hub.moves_run ha fun pc' (h : pc' ∈ (t.sends a).set i pc) =>
    show LinkSend.Within K t.hub.next pc' from
      (List.mem_or_eq_of_mem_set h).elim (hm.hub.goodPc a pc') fun heq => heq ▸ hpc
  rw [List.map_set, ← hm.hub.threads a ha] at hrun
  exact hm.moves hrun

theorem launch (hm : LinkMirror K C ρ s t) {o : Option ℕ} (ho : ∀ a, o = some a → a < t.hub.next) :
    LinkMoves K C ρ s t ρ (s.launch (o.map ρ)) (t.launch o) := by
  cases o with
  | none => exact hm.refl
  | some a =>
    have hrun := hm.hub.moves_run (ho a rfl) fun pc (h : pc ∈ t.sends a ++ [.entry]) =>
      show LinkSend.Within K t.hub.next pc from
        (List.mem_append.mp h).elim (hm.hub.goodPc a pc) fun heq => List.mem_singleton.mp heq ▸ trivial
    rw [List.map_append, ← hm.hub.threads a (ho a rfl)] at hrun
    exact hm.moves hrun

theorem crash (hm : LinkMirror K C ρ s t) :
    LinkMoves K C ρ s t ρ { s with crashed := true } { t with crashed := true } :=
  ⟨hm.hub.moves_refl, hm.socks, fun _ _ => rfl, fun _ => rfl⟩

/-- Something is written to a connection of the session, or it is closed. -/
theorem sock (hm : LinkMirror K C ρ s t) {c : ℕ} (hc : c ∈ C) (x : Sock) :
    LinkMoves K C ρ s t ρ { s with socks := Function.update s.socks c x }
      { t with socks := Function.update t.socks c x } where
  hub := hm.hub.moves_refl
  socks := by
    intro c' hc'
    dsimp only
    by_cases hcc : c' = c
    · rw [hcc, Function.update_self, Function.update_self]
    · rw [Function.update_of_ne hcc, Function.update_of_ne hcc, hm.socks c' hc']
  others := fun c' hc' => Function.update_of_ne (by rintro rfl; exact hc' hc) _ _
  crashed := fun h => h

/-! ### The methods of the hub -/

/-- `h.trySend(masterID, conn)`, with the launch it may cause. -/
theorem trySend (hm : LinkMirror K C ρ s t) (hK : m ∈ K) (conn : Option ℕ) (hc : ∀ c, conn = some c → c ∈ C) :
    LinkMoves K C ρ s t ρ
      (({ s with hub := (LinkHub.trySend s.hub m conn).1 } : Links KSUID).launch (LinkHub.trySend s.hub m conn).2)
      (({ t with hub := (LinkHub.trySend t.hub m conn).1 } : Links KSUID).launch
        (LinkHub.trySend t.hub m conn).2) := by
  have href := hm.hub.ref m hK
  cases hr : t.hub.ref? m with
  | none =>
    rw [hr, Option.map_none] at href
    rw [LinkHub.trySend_missing href, LinkHub.trySend_missing hr]
    exact hm.refl
  | some r =>
    rw [hr, Option.map_some] at href
    have hlt := Registry.ref?_lt hr
    have hlaunch : ∀ {b : Prop} [Decidable b] {u v : Links KSUID}, LinkMirror K C ρ u v → r < v.hub.next →
        LinkMoves K C ρ u v ρ (u.launch (if b then some (ρ r) else none)) (v.launch (if b then some r else none)) := by
      intro b _ u v huv hrv
      have := huv.launch (o := if b then some r else none) fun a ha => by
        split_ifs at ha
        exact Option.some.inj ha ▸ hrv
      rwa [apply_ite (Option.map ρ), Option.map_some, Option.map_none] at this
    cases conn with
    | none =>
      rw [LinkHub.trySend_none_hub, LinkHub.trySend_none_hub, LinkHub.trySend_none_launch href,
        LinkHub.trySend_none_launch hr, hm.obj_eq hlt]
      exact hlaunch hm hlt
    | some c =>
      obtain ⟨hg1, hg2, -⟩ := hm.good hlt
      have hmod : LinkMoves K C ρ s t ρ _ _ := hm.modify hlt (f := fun l => { l with conn := some c })
        ⟨hg1, hg2, fun c' hc' => hc c' hc'⟩
      rw [LinkHub.trySend_some_hub href, LinkHub.trySend_some_hub hr, LinkHub.trySend_some_launch href,
        LinkHub.trySend_some_launch hr, hm.obj_eq hlt]
      exact hmod.trans (hlaunch hmod.mirror hlt)

theorem drop (hm : LinkMirror K C ρ s t) (hK : id ∈ K) :
    LinkMoves K C ρ s t ρ { s with hub := LinkHub.drop s.hub id } { t with hub := LinkHub.drop t.hub id } := by
  have href := hm.hub.ref id hK
  unfold LinkHub.drop
  cases hr : t.hub.ref? id with
  | none =>
    simp only [href, hr, Option.map_none]
    exact hm.refl
  | some r =>
    simp only [href, hr, Option.map_some]
    have hlt := Registry.ref?_lt hr
    have hgood : (linkPart K C).good (t.hub.obj r).close := by
      unfold Link.close
      split_ifs <;> exact hm.good hlt
    have hmod := hm.modify hlt hgood
    exact hmod.trans (hmod.mirror.moves (hmod.mirror.hub.moves_erase hK))

/-- The loop of `RemoveAll`. -/
theorem dropList (hm : LinkMirror K C ρ s t) (m : KSUID) {l : List KSUID} (hK : ∀ k ∈ l, k ∈ K) :
    LinkMoves K C ρ s t ρ { s with hub := LinkHub.dropList s.hub m l }
      { t with hub := LinkHub.dropList t.hub m l } := by
  induction l generalizing s t with
  | nil => exact hm.refl
  | cons k l ih =>
    have hrest : ∀ k ∈ l, k ∈ K := fun k hk => hK k (List.mem_cons_of_mem _ hk)
    simp only [LinkHub.dropList, List.foldl_cons]
    split_ifs
    · exact ih hm hrest
    · have hdrop := hm.drop (hK k List.mem_cons_self)
      exact hdrop.trans (ih hdrop.mirror hrest)

theorem removeAll (hm : LinkMirror K C ρ s t) (hK : m ∈ K) :
    LinkMoves K C ρ s t ρ (s.removeAll m) (t.removeAll m) := by
  have href := hm.hub.ref m hK
  unfold Links.removeAll
  cases hr : t.hub.ref? m with
  | none =>
    rw [hr, Option.map_none] at href
    rw [LinkHub.removeAll_missing href, LinkHub.removeAll_missing hr]
    exact hm.refl
  | some r =>
    rw [hr, Option.map_some] at href
    have hlt := Registry.ref?_lt hr
    rw [LinkHub.removeAll_eq href, LinkHub.removeAll_eq hr, hm.obj_eq hlt]
    have hloop := hm.dropList m (hm.good hlt).2.1
    exact hloop.trans (hloop.mirror.drop hK)

theorem setSort (hm : LinkMirror K C ρ s t) (hK : m ∈ K) {sort : List KSUID} (hsort : ∀ k ∈ sort, k ∈ K) :
    ∃ ρ', LinkMoves K C ρ s t ρ' (s.setSort m sort) (t.setSort m sort) := by
  have href := hm.hub.ref m hK
  unfold Links.setSort LinkHub.setSort
  cases hr : t.hub.ref? m with
  | none =>
    simp only [href, hr, Option.map_none]
    exact ⟨_, hm.moves (hm.hub.moves_create hK ⟨hK, hsort, nofun⟩)⟩
  | some r =>
    simp only [href, hr, Option.map_some]
    have hlt := Registry.ref?_lt hr
    obtain ⟨hg1, -, hg3⟩ := hm.good hlt
    exact ⟨ρ, hm.modify hlt (f := fun x => { x with sorted := sort }) ⟨hg1, hsort, hg3⟩⟩

theorem add (hm : LinkMirror K C ρ s t) (hid : id ∈ K) (hK : m ∈ K) :
    ∃ ρ', LinkMoves K C ρ s t ρ' (s.add id m) (t.add id m) := by
  have hnew : (linkPart K C).good (newLink m) := ⟨hK, nofun, nofun⟩
  obtain ⟨ρ₁, hm₁⟩ := hm.hub.moves_ensure hK hnew
  obtain ⟨ρ₂, hm₂⟩ := hm₁.mirrors.moves_ensure hid hnew
  have hens := hm₁.trans hm₂
  -- the master's link is there now, on both sides
  obtain ⟨r, hr⟩ : ∃ r, ((t.hub.ensure m (newLink m)).ensure id (newLink m)).ref? m = some r := by
    have hm : ∃ r, (t.hub.ensure m (newLink m)).ref? m = some r :=
      ⟨_, by rw [Registry.ref?_ensure, if_pos rfl]⟩
    rw [Registry.ref?_ensure]
    split_ifs
    · exact ⟨_, rfl⟩
    · exact hm
  have href := hens.mirrors.ref m hK
  rw [hr, Option.map_some] at href
  have hlt := Registry.ref?_lt hr
  have hmod := hens.mirrors.moves_modify hlt (f := fun l => { l with counter := l.counter + 1 })
    (hens.mirrors.good r hlt)
  have hcount := hm.moves (hens.trans hmod)
  have htry := hcount.mirror.trySend hK none nofun
  refine ⟨ρ₂, ?_⟩
  unfold Links.add LinkHub.add
  simp only [href, hr]
  exact hcount.trans htry

/-! ### Steps through a pointer -/

theorem push (hm : LinkMirror K C ρ s t) (ha : a < t.hub.next) {b : Buffer} {r : Links KSUID × Bool}
    (h : s.push (ρ a) b = some r) : ∃ r', t.push a b = some r' ∧ LinkMoves K C ρ s t ρ r.1 r'.1 := by
  rw [Links.push, hm.obj_eq ha, Option.map_eq_some_iff] at h
  obtain ⟨c, hc, rfl⟩ := h
  refine ⟨_, by rw [Links.push, hc]; rfl, ?_⟩
  cases c with
  | none => exact hm.refl
  | some c => exact hm.modify ha (hm.good ha)

theorem getElem?_sends (hm : LinkMirror K C ρ s t) (ha : a < t.hub.next) (i : ℕ) :
    (s.sends (ρ a))[i]? = ((t.sends a)[i]?).map (SendPc.mapSrc ρ) := by
  rw [hm.sends_eq ha, List.getElem?_map]

theorem handoff (hm : LinkMirror K C ρ s t) (ha : a < t.hub.next) (h : s.handoff (ρ a) i = some s') :
    ∃ t', t.handoff a i = some t' ∧ LinkMoves K C ρ s t ρ s' t' := by
  have hsends := hm.getElem?_sends ha i
  cases hpc : (t.sends a)[i]? with
  | none => simp [Links.handoff, hsends, hpc] at h
  | some pc =>
    cases pc with
    | handoff e =>
      simp only [Links.handoff, hsends, hpc, Option.map_some, SendPc.mapSrc, hm.obj_eq ha] at h ⊢
      split_ifs at h ⊢
      cases h
      exact ⟨_, rfl, hm.goto ha i (.closeDone e) trivial⟩
    | _ => simp [Links.handoff, hsends, hpc, SendPc.mapSrc] at h

/-- A step of `Send` depends on the goroutine, its link, the links of the session's ids and its connection
only. -/
theorem send (hm : LinkMirror K C ρ s t) (ha : a < t.hub.next) {o : Outcome} (h : s.send (ρ a) i o = some s') :
    ∃ t', t.send a i o = some t' ∧ LinkMoves K C ρ s t ρ s' t' := by
  have hobj := hm.obj_eq ha
  have hgood := hm.good ha
  have hsends := hm.getElem?_sends ha i
  have hmodify : ∀ (pc : LinkSend KSUID) {r : ℕ} {f : Link KSUID → Link KSUID}, r < t.hub.next →
      (linkPart K C).good (f (t.hub.obj r)) → LinkSend.Within K t.hub.next pc →
      LinkMoves K C ρ s t ρ ((s.modify (ρ r) f).goto (ρ a) i (pc.mapSrc ρ)) ((t.modify r f).goto a i pc) := by
    intro pc r f hr hf hpc
    have hmod := hm.modify hr hf
    exact hmod.trans (hmod.mirror.goto ha i pc hpc)
  cases hpc : (t.sends a)[i]? with
  | none => simp [Links.send, hsends, hpc] at h
  | some pc =>
    have hin : LinkSend.Within K t.hub.next pc := hm.hub.goodPc a pc (List.mem_of_getElem? hpc)
    cases pc with
    | entry =>
      simp only [Links.send, hsends, hpc, hobj, Option.map_some, SendPc.mapSrc] at h ⊢
      split_ifs at h ⊢ <;> cases h
      · exact ⟨_, rfl, hm.goto ha i .refused trivial⟩
      · exact ⟨_, rfl, hmodify .loop ha hgood trivial⟩
    | loop =>
      simp only [Links.send, hsends, hpc, hobj, Option.map_some, SendPc.mapSrc] at h ⊢
      split_ifs at h ⊢ <;> cases h
      · exact ⟨_, rfl, hm.goto ha i (.ret (some .closedPipe)) trivial⟩
      · exact ⟨_, rfl, hm.goto ha i (.pass (t.hub.obj a).sorted) hgood.2.1⟩
    | pass rest =>
      cases rest with
      | nil =>
        simp only [Links.send, hsends, hpc, Option.map_some, SendPc.mapSrc] at h ⊢
        cases h
        exact ⟨_, rfl, hm.goto ha i .loop trivial⟩
      | cons id rest =>
        have hrest : ∀ k ∈ rest, k ∈ K := fun k hk => hin k (List.mem_cons_of_mem _ hk)
        have href := hm.hub.ref id (hin id List.mem_cons_self)
        simp only [Links.send, hsends, hpc, Option.map_some, SendPc.mapSrc, href] at h ⊢
        cases hr : t.hub.ref? id with
        | none =>
          simp only [hr, Option.map_none] at h ⊢
          cases h
          exact ⟨_, rfl, hm.goto ha i (.ret (some .notFound)) trivial⟩
        | some l =>
          simp only [hr, Option.map_some] at h ⊢
          cases h
          exact ⟨_, rfl, hm.goto ha i (.read l rest) ⟨Registry.ref?_lt hr, hrest⟩⟩
    | read l rest =>
      cases o with
      | ok =>
        simp only [Links.send, hsends, hpc, Option.map_some, SendPc.mapSrc, hm.obj_eq hin.1,
          Option.map_eq_some_iff] at h ⊢
        obtain ⟨r, hr, rfl⟩ := h
        exact ⟨_, ⟨r, hr, rfl⟩, hmodify (.write l r.1 rest) hin.1 (hm.good hin.1) hin⟩
      | timeout =>
        simp only [Links.send, hsends, hpc, Option.map_some, SendPc.mapSrc] at h ⊢
        cases h
        exact ⟨_, rfl, hm.goto ha i (.ret (some .timeout)) trivial⟩
      | fail n => simp [Links.send, hsends, hpc, SendPc.mapSrc] at h
    | write l b rest =>
      simp only [Links.send, hsends, hpc, Option.map_some, SendPc.mapSrc, hobj] at h ⊢
      cases hconn : (t.hub.obj a).conn with
      | none =>
        simp only [hconn] at h ⊢
        cases h
        exact ⟨_, rfl, hm.goto ha i (.ret (some .connClosed)) trivial⟩
      | some c =>
        have hc : c ∈ C := hgood.2.2 c hconn
        simp only [hconn, hm.socks c hc, Option.map_eq_some_iff] at h ⊢
        obtain ⟨r, hr, rfl⟩ := h
        have hsock := hm.sock hc r.1
        refine ⟨_, ⟨r, hr, rfl⟩, hsock.trans ?_⟩
        have hpc' : ∀ pc, pc = (if !r.2 then .ret (some .write) else if b.eof then .ret none else .pass rest :
            LinkSend KSUID) → LinkSend.Within K t.hub.next pc ∧ pc.mapSrc ρ = pc := by
          rintro pc rfl
          split_ifs
          · exact ⟨trivial, rfl⟩
          · exact ⟨trivial, rfl⟩
          · exact ⟨hin.2, rfl⟩
        have hgoto := hsock.mirror.goto ha i _ (hpc' _ rfl).1
        rwa [(hpc' _ rfl).2] at hgoto
    | ret e =>
      simp only [Links.send, hsends, hpc, Option.map_some, SendPc.mapSrc] at h ⊢
      cases h
      exact ⟨_, rfl, hmodify (.handoff e) ha hgood trivial⟩
    | handoff e =>
      simp only [Links.send, hsends, hpc, hobj, Option.map_some, SendPc.mapSrc] at h ⊢
      split_ifs at h ⊢
      cases h
      exact ⟨_, rfl, hm.crash⟩
    | closeDone e =>
      simp only [Links.send, hsends, hpc, hobj, Option.map_some, SendPc.mapSrc] at h ⊢
      split_ifs at h ⊢ <;> cases h
      · exact ⟨_, rfl, hm.crash⟩
      · exact ⟨_, rfl, hmodify (.exit e) ha hgood trivial⟩
    | exit e | refused => simp [Links.send, hsends, hpc, SendPc.mapSrc] at h

end LinkMirror

/-- The ids that an action names. -/
def LinkAct.keys : LinkAct KSUID → List KSUID
  | .add id m => [id, m]
  | .setSort m ids => m :: ids
  | .trySend m _ | .removeAll m => [m]
  | .sort _ ids => ids
  | .launch _ | .conn _ _ | .send _ _ _ | .wait _ _ | .write _ _ | .closeConn _ => []

/-- The pointer through which an action goes. -/
def LinkAct.ptr : LinkAct KSUID → Option ℕ
  | .launch q | .sort q _ | .conn q _ | .send q _ _ | .wait q _ | .write q _ => some q
  | .add _ _ | .setSort _ _ | .trySend _ _ | .removeAll _ | .closeConn _ => none

/-- The connection that an action names. -/
def LinkAct.sock : LinkAct KSUID → Option ℕ
  | .trySend _ c | .conn _ c | .closeConn c => some c
  | .add _ _ | .setSort _ _ | .removeAll _ | .launch _ | .sort _ _ | .send _ _ _ | .wait _ _ | .write _ _ => none

/-- The same action with its pointer at another address. -/
def LinkAct.rename (ρ : ℕ → ℕ) : LinkAct KSUID → LinkAct KSUID
  | .launch q => .launch (ρ q)
  | .sort q ids => .sort (ρ q) ids
  | .conn q c => .conn (ρ q) c
  | .send q i o => .send (ρ q) i o
  | .wait q i => .wait (ρ q) i
  | .write q b => .write (ρ q) b
  | .add id m => .add id m
  | .setSort m ids => .setSort m ids
  | .trySend m c => .trySend m c
  | .removeAll m => .removeAll m
  | .closeConn c => .closeConn c

omit [DecidableEq KSUID] in
theorem LinkAct.rename_congr {b : LinkAct KSUID} (h : ∀ q, b.ptr = some q → ρ' q = ρ q) :
    b.rename ρ' = b.rename ρ := by
  cases b <;> first | rfl | simp only [LinkAct.rename, h _ rfl]

/-- An action of the session with the ids `K` and the connections `C`. -/
structure LinkAct.Of (K : Set KSUID) (C : Set ℕ) (s : Links KSUID) (x : LinkAct KSUID) : Prop where
  keys : ∀ k ∈ x.keys, k ∈ K
  ptr : ∀ q, x.ptr = some q → q < s.hub.next ∧ (s.hub.obj q).master ∈ K
  sock : ∀ c, x.sock = some c → c ∈ C

/-- An action of the session can be taken in its own hub as well. -/
theorem LinkMirror.act {x : LinkAct KSUID} (hm : LinkMirror K C ρ s t) (ht : t.crashed = false)
    (hx : x.Of K C s) (h : s.act x = some s') :
    ∃ ρ' y t', x = y.rename ρ ∧ (∀ q, y.ptr = some q → q < t.hub.next) ∧ t.act y = some t' ∧
      LinkMoves K C ρ s t ρ' s' t' := by
  have hptr : ∀ q, x.ptr = some q → ∃ r < t.hub.next, ρ r = q := by
    intro q hq
    obtain ⟨hlt, hown⟩ := hx.ptr q hq
    exact hm.hub.surj q hlt hown
  unfold Links.act at h
  split at h
  · cases h
  cases x with
  | add id m =>
    obtain ⟨ρ', hmoves⟩ := hm.add (hx.keys id (by simp [LinkAct.keys])) (hx.keys m (by simp [LinkAct.keys]))
    cases h
    exact ⟨ρ', .add id m, _, rfl, nofun, by simp [Links.act, ht], hmoves⟩
  | setSort m sort =>
    obtain ⟨ρ', hmoves⟩ := hm.setSort (hx.keys m (by simp [LinkAct.keys]))
      fun k (hk : k ∈ sort) => hx.keys k (by simp [LinkAct.keys, hk])
    cases h
    exact ⟨ρ', .setSort m sort, _, rfl, nofun, by simp [Links.act, ht], hmoves⟩
  | trySend m c =>
    cases h
    refine ⟨ρ, .trySend m c, _, rfl, nofun, by simp [Links.act, ht]; rfl, ?_⟩
    exact hm.trySend (hx.keys m (by simp [LinkAct.keys])) (some c) fun c' hc' => hx.sock c' hc'
  | removeAll m =>
    cases h
    exact ⟨ρ, .removeAll m, _, rfl, nofun, by simp [Links.act, ht],
      hm.removeAll (hx.keys m (by simp [LinkAct.keys]))⟩
  | launch q =>
    obtain ⟨r, hr, rfl⟩ := hptr q rfl
    simp only [Option.ite_none_right_eq_some, Option.some.injEq] at h
    obtain ⟨-, rfl⟩ := h
    refine ⟨ρ, .launch r, t.launch (some r), rfl, fun q hq => Option.some.inj hq ▸ hr,
      by simp [Links.act, ht, hr], ?_⟩
    exact hm.launch (o := some r) fun q hq => Option.some.inj hq ▸ hr
  | sort q ids =>
    obtain ⟨r, hr, rfl⟩ := hptr q rfl
    cases h
    obtain ⟨hg1, -, hg3⟩ := hm.good hr
    exact ⟨ρ, .sort r ids, _, rfl, fun q hq => Option.some.inj hq ▸ hr, by simp [Links.act, ht],
      hm.modify hr ⟨hg1, hx.keys, hg3⟩⟩
  | conn q c =>
    obtain ⟨r, hr, rfl⟩ := hptr q rfl
    cases h
    obtain ⟨hg1, hg2, -⟩ := hm.good hr
    exact ⟨ρ, .conn r c, _, rfl, fun q hq => Option.some.inj hq ▸ hr, by simp [Links.act, ht],
      hm.modify hr ⟨hg1, hg2, fun c' hc' => hx.sock c' hc'⟩⟩
  | send q i o =>
    obtain ⟨r, hr, rfl⟩ := hptr q rfl
    obtain ⟨t', hsend, hmoves⟩ := hm.send hr h
    exact ⟨ρ, .send r i o, t', rfl, fun q hq => Option.some.inj hq ▸ hr, by simp [Links.act, ht, hsend], hmoves⟩
  | wait q i =>
    obtain ⟨r, hr, rfl⟩ := hptr q rfl
    obtain ⟨t', hwait, hmoves⟩ := hm.handoff hr h
    exact ⟨ρ, .wait r i, t', rfl, fun q hq => Option.some.inj hq ▸ hr, by simp [Links.act, ht, hwait], hmoves⟩
  | write q b =>
    obtain ⟨r, hr, rfl⟩ := hptr q rfl
    obtain ⟨u, hu, rfl⟩ := Option.map_eq_some_iff.mp h
    obtain ⟨t', hpush, hmoves⟩ := hm.push hr hu
    exact ⟨ρ, .write r b, t'.1, rfl, fun q hq => Option.some.inj hq ▸ hr, by simp [Links.act, ht, hpush], hmoves⟩
  | closeConn c =>
    cases h
    have hc : c ∈ C := hx.sock c rfl
    refine ⟨ρ, .closeConn c, t.closeConn c, rfl, nofun, by simp [Links.act, ht], ?_⟩
    unfold Links.closeConn
    rw [hm.socks c hc]
    exact hm.sock hc _

end Links

/-! ## Both hubs -/

section Hubs

variable {S KSUID W : Type} [DecidableEq S] [DecidableEq KSUID]

/-- `serverQueueHub` and `serverLinkHub`. -/
structure Hubs (KSUID W : Type) [DecidableEq KSUID] where
  queues : Queues KSUID W
  links : Links KSUID

/-- The hubs of a program that has just started. -/
def Hubs.init [Inhabited KSUID] : Hubs KSUID W := ⟨.init, .init⟩

inductive HubAct (KSUID W : Type) where
  | queue (x : QueueAct KSUID W)
  | link (x : LinkAct KSUID)

/-- One action on either hub, unless a goroutine has panicked and ended the program. -/
def Hubs.act (s : Hubs KSUID W) (x : HubAct KSUID W) : Option (Hubs KSUID W) :=
  if s.queues.crashed || s.links.crashed then none
  else match x with
    | .queue x => (s.queues.act x).map fun q => { s with queues := q }
    | .link x => (s.links.act x).map fun l => { s with links := l }

/-- The sessions of a server, with the ids and the connections of each. -/
structure Sessions (S KSUID : Type) where
  ids : S → Set KSUID
  conns : S → Set ℕ
  ids_disjoint : Pairwise (Function.onFun Disjoint ids)
  conns_disjoint : Pairwise (Function.onFun Disjoint conns)

/-- A step of a session: it uses its own ids, pointers and connections. -/
def Sessions.Of (P : Sessions S KSUID) (s : Hubs KSUID W) (l : S × HubAct KSUID W) : Prop :=
  match l.2 with
  | .queue x => x.Of (P.ids l.1) s.queues
  | .link x => x.Of (P.ids l.1) (P.conns l.1) s.links

/-- A step of any session. -/
def Hubs.step (s : Hubs KSUID W) (l : S × HubAct KSUID W) : Option (Hubs KSUID W) := s.act l.2

/-- The steps of one session, in their order. -/
def ownActs (σ : S) (ls : List (S × HubAct KSUID W)) : List (HubAct KSUID W) :=
  (ls.filter (·.1 = σ)).map Prod.snd

/-- The same action with its pointer at another address of its hub. -/
def HubAct.rename (ρ ρ' : ℕ → ℕ) : HubAct KSUID W → HubAct KSUID W
  | .queue x => .queue (x.rename ρ)
  | .link x => .link (x.rename ρ')

/-- The entry of an id. -/
def Queues.entry (s : Queues KSUID W) (id : KSUID) : Option (Queue KSUID W) := (s.hub.ref? id).map s.hub.obj

def Links.entry (s : Links KSUID) (id : KSUID) : Option (Link KSUID) := (s.hub.ref? id).map s.hub.obj

/-- The pointer of an action is one that the hubs have given out. -/
def HubAct.Within (t : Hubs KSUID W) : HubAct KSUID W → Prop
  | .queue x => ∀ q, x.ptr = some q → q < t.queues.hub.next
  | .link x => ∀ q, x.ptr = some q → q < t.links.hub.next

variable {P : Sessions S KSUID} {σ τ : S} {s s' t t' : Hubs KSUID W} {ρ ρ' ρ₁ ρ₂ : ℕ → ℕ}
  {ls : List (S × HubAct KSUID W)} {ys : List (HubAct KSUID W)} {x y : HubAct KSUID W}

/-- After the steps `ls`, the steps `ys` of the session `σ` alone have led to hubs that mirror its part. -/
structure Alone [Inhabited KSUID] (P : Sessions S KSUID) (σ : S) (ls : List (S × HubAct KSUID W)) (s : Hubs KSUID W)
    (ρ ρ' : ℕ → ℕ) (ys : List (HubAct KSUID W)) (t : Hubs KSUID W) : Prop where
  run : Run Hubs.act anyStep Hubs.init ys t
  acts : ownActs σ ls = ys.map (HubAct.rename ρ ρ')
  within : ∀ y ∈ ys, y.Within t
  queues : QueueMirror (P.ids σ) ρ s.queues t.queues
  links : LinkMirror (P.ids σ) (P.conns σ) ρ' s.links t.links
  crashed : (t.queues.crashed || t.links.crashed) = true → (s.queues.crashed || s.links.crashed) = true

theorem HubAct.Within.mono (h : y.Within t) (hq : t.queues.hub.next ≤ t'.queues.hub.next)
    (hl : t.links.hub.next ≤ t'.links.hub.next) : y.Within t' := by
  cases y with
  | queue x => exact fun q hx => lt_of_lt_of_le (h q hx) hq
  | link x => exact fun q hx => lt_of_lt_of_le (h q hx) hl

theorem HubAct.rename_congr (h : y.Within t) (hq : Extends t.queues.hub.next ρ ρ₁)
    (hl : Extends t.links.hub.next ρ' ρ₂) : y.rename ρ₁ ρ₂ = y.rename ρ ρ' := by
  cases y with
  | queue x => exact congrArg _ (QueueAct.rename_congr fun q hx => hq q (h q hx))
  | link x => exact congrArg _ (LinkAct.rename_congr fun q hx => hl q (h q hx))

omit [DecidableEq KSUID] in
theorem ownActs_snoc_self : ownActs σ (ls ++ [(σ, x)]) = ownActs σ ls ++ [x] := by
  simp [ownActs]

omit [DecidableEq KSUID] in
theorem ownActs_snoc_ne (h : τ ≠ σ) : ownActs σ (ls ++ [(τ, x)]) = ownActs σ ls := by
  simp [ownActs, h]

theorem Alone.init [Inhabited KSUID] : Alone P σ [] (Hubs.init : Hubs KSUID W) id id [] Hubs.init where
  run := .nil _
  acts := rfl
  within := nofun
  queues := Mirrors.empty
  links := ⟨Mirrors.empty, fun _ _ => rfl⟩
  crashed := fun h => h

/-- The session takes the step `y` alone as well. -/
theorem Alone.own [Inhabited KSUID] (h : Alone P σ ls s ρ ρ' ys t) (hx : x = y.rename ρ ρ') (hy : y.Within t)
    (hact : t.act y = some t') (hq : Extends t.queues.hub.next ρ ρ₁) (hl : Extends t.links.hub.next ρ' ρ₂)
    (hq' : t.queues.hub.next ≤ t'.queues.hub.next) (hl' : t.links.hub.next ≤ t'.links.hub.next)
    (hqueues : QueueMirror (P.ids σ) ρ₁ s'.queues t'.queues)
    (hlinks : LinkMirror (P.ids σ) (P.conns σ) ρ₂ s'.links t'.links)
    (hcrashed : (t'.queues.crashed || t'.links.crashed) = true → (s'.queues.crashed || s'.links.crashed) = true) :
    Alone P σ (ls ++ [(σ, x)]) s' ρ₁ ρ₂ (ys ++ [y]) t' where
  run := .snoc h.run trivial hact
  acts := by
    have hys : ys.map (HubAct.rename ρ₁ ρ₂) = ys.map (HubAct.rename ρ ρ') :=
      List.map_congr_left fun z hz => HubAct.rename_congr (h.within z hz) hq hl
    rw [ownActs_snoc_self, h.acts, List.map_append, hys, List.map_singleton, HubAct.rename_congr hy hq hl, hx]
  within := by
    intro z hz
    rcases List.mem_append.mp hz with hz | hz
    · exact (h.within z hz).mono hq' hl'
    · exact List.mem_singleton.mp hz ▸ hy.mono hq' hl'
  queues := hqueues
  links := hlinks
  crashed := hcrashed

/-- Another session takes a step. -/
theorem Alone.other [Inhabited KSUID] (h : Alone P σ ls s ρ ρ' ys t) (hne : τ ≠ σ)
    (hrunning : (s.queues.crashed || s.links.crashed) = false)
    (hqueues : QueueMirror (P.ids σ) ρ s'.queues t.queues)
    (hlinks : LinkMirror (P.ids σ) (P.conns σ) ρ' s'.links t.links) :
    Alone P σ (ls ++ [(τ, x)]) s' ρ ρ' ys t where
  run := h.run
  acts := by rw [ownActs_snoc_ne hne, h.acts]
  within := h.within
  queues := hqueues
  links := hlinks
  crashed := fun hc => by
    rw [h.crashed hc] at hrunning
    cases hrunning

omit [DecidableEq S] in
theorem Sessions.queuePart_disjoint (P : Sessions S KSUID) (hne : τ ≠ σ) :
    (queuePart (P.ids τ) : Part KSUID (Queue KSUID W) _).Disjoint (queuePart (P.ids σ)) :=
  ⟨fun _ hk hk' => Set.disjoint_left.mp (P.ids_disjoint hne) hk hk',
    fun hx hx' => Set.disjoint_left.mp (P.ids_disjoint hne) hx hx'⟩

omit [DecidableEq S] [DecidableEq KSUID] in
theorem Sessions.linkPart_disjoint (P : Sessions S KSUID) (hne : τ ≠ σ) :
    (linkPart (P.ids τ) (P.conns τ)).Disjoint (linkPart (P.ids σ) (P.conns σ)) :=
  ⟨fun _ hk hk' => Set.disjoint_left.mp (P.ids_disjoint hne) hk hk',
    fun hx hx' => Set.disjoint_left.mp (P.ids_disjoint hne) hx hx'⟩

/-- One step of one session, for all sessions. -/
theorem Alone.step [Inhabited KSUID] (h : ∀ σ, ∃ ρ ρ' ys t, Alone P σ ls s ρ ρ' ys t)
    {l : S × HubAct KSUID W} (hl : P.Of s l) (hstep : s.step l = some s') (σ : S) :
    ∃ ρ ρ' ys t, Alone P σ (ls ++ [l]) s' ρ ρ' ys t := by
  obtain ⟨τ, x⟩ := l
  obtain ⟨ρ, ρ', ys, t, hτ⟩ := h τ
  replace hstep : s.act x = some s' := hstep
  unfold Hubs.act at hstep
  split at hstep
  · cases hstep
  next hrunning =>
  have hs : s.queues.crashed = false ∧ s.links.crashed = false := by simpa using hrunning
  have ht : t.queues.crashed = false ∧ t.links.crashed = false := by
    have : ¬ (t.queues.crashed || t.links.crashed) = true := fun hc => hrunning (hτ.crashed hc)
    simpa using this
  have htrun : (t.queues.crashed || t.links.crashed) = false := by simp [ht]
  cases x with
  | queue x =>
    obtain ⟨q, hq, rfl⟩ := Option.map_eq_some_iff.mp hstep
    obtain ⟨ρ₁, y, t', hy, hwithin, hact, hmoves⟩ := hτ.queues.act ht.1 hl hq
    by_cases hne : τ = σ
    · subst hne
      have hx : HubAct.queue x = (HubAct.queue y).rename ρ ρ' := congrArg _ hy
      have hact' : t.act (.queue y) = some { t with queues := t' } := by simp [Hubs.act, htrun, hact]
      refine ⟨ρ₁, ρ', _, _, hτ.own hx hwithin hact' hmoves.hub.agree (fun _ _ => rfl) hmoves.hub.le le_rfl
        hmoves.mirror hτ.links fun hc => ?_⟩
      rwa [← hmoves.crashed (hs.1.trans ht.1.symm), ht.2, ← hs.2] at hc
    · obtain ⟨ρσ, ρσ', zs, u, hσ⟩ := h σ
      exact ⟨ρσ, ρσ', zs, u, hσ.other hne (by simpa using hrunning)
        (hσ.queues.apart (hmoves.hub.apart _ (P.queuePart_disjoint hne))) hσ.links⟩
  | link x =>
    obtain ⟨q, hq, rfl⟩ := Option.map_eq_some_iff.mp hstep
    obtain ⟨ρ₁, y, t', hy, hwithin, hact, hmoves⟩ := hτ.links.act ht.2 hl hq
    by_cases hne : τ = σ
    · subst hne
      have hx : (HubAct.link x : HubAct KSUID W) = (HubAct.link y).rename ρ ρ' := congrArg _ hy
      have hact' : t.act (.link y) = some { t with links := t' } := by simp [Hubs.act, htrun, hact]
      refine ⟨ρ, ρ₁, _, _, hτ.own hx hwithin hact' (fun _ _ => rfl) hmoves.hub.agree le_rfl hmoves.hub.le
        hτ.queues hmoves.mirror fun hc => ?_⟩
      rwa [← hmoves.crashed (hs.2.trans ht.2.symm), ht.1, ← hs.1] at hc
    · obtain ⟨ρσ, ρσ', zs, u, hσ⟩ := h σ
      refine ⟨ρσ, ρσ', zs, u, hσ.other hne (by simpa using hrunning) hσ.queues
        ⟨hσ.links.hub.apart (hmoves.hub.apart _ (P.linkPart_disjoint hne)), fun c hc => ?_⟩⟩
      rw [hmoves.others c (Set.disjoint_right.mp (P.conns_disjoint hne) hc), hσ.links.socks c hc]

/-- The entry under a key of the part. -/
theorem entry_eq {α Pc : Type} {p : Part KSUID α Pc} {g h : Registry KSUID α} {ts us : ℕ → List Pc}
    (hm : Mirrors p ρ g ts h us) {k : KSUID} (hk : k ∈ p.keys) : (g.ref? k).map g.obj = (h.ref? k).map h.obj := by
  rw [hm.ref k hk]
  cases hr : h.ref? k with
  | none => rfl
  | some r => rw [Option.map_some, Option.map_some, Option.map_some, hm.obj r (Registry.ref?_lt hr)]

/-- The entries under the ids of a session and what was written to its connections are those of a run of its own
steps alone, in their order. Only the addresses of its pipes are others. -/
theorem sessions_isolated [Inhabited KSUID] (P : Sessions S KSUID) (h : Run Hubs.step P.Of Hubs.init ls s) (σ : S) :
    ∃ (ρ ρ' : ℕ → ℕ) (ys : List (HubAct KSUID W)) (t : Hubs KSUID W),
      ownActs σ ls = ys.map (HubAct.rename ρ ρ') ∧
      Set.InjOn ρ {a | a < t.queues.hub.next} ∧ Set.InjOn ρ' {a | a < t.links.hub.next} ∧
      Run Hubs.act anyStep Hubs.init ys t ∧
      (∀ id ∈ P.ids σ, s.queues.entry id = t.queues.entry id ∧ s.links.entry id = t.links.entry id) ∧
      ∀ c ∈ P.conns σ, s.links.socks c = t.links.socks c := by
  have hall : ∀ σ, ∃ ρ ρ' ys t, Alone P σ ls s ρ ρ' ys t := by
    refine h.trace_invariant (I := fun ls s => ∀ σ, ∃ ρ ρ' ys t, Alone P σ ls s ρ ρ' ys t) ?_ ?_
    · exact fun σ => ⟨id, id, [], Hubs.init, Alone.init⟩
    · exact fun ls a l b ih hl hstep => Alone.step ih hl hstep
  obtain ⟨ρ, ρ', ys, t, hσ⟩ := hall σ
  exact ⟨ρ, ρ', ys, t, hσ.acts, fun a ha b hb => hσ.queues.inj a ha b hb,
    fun a ha b hb => hσ.links.hub.inj a ha b hb, hσ.run,
    fun id hid => ⟨entry_eq hσ.queues hid, entry_eq hσ.links.hub hid⟩, hσ.links.socks⟩

/-! ### Two sessions -/

instance {K : Set KSUID} [DecidablePred (· ∈ K)] {s : Queues KSUID W} {x : QueueAct KSUID W} :
    Decidable (x.Of K s) :=
  decidable_of_iff ((∀ k ∈ x.keys, k ∈ K) ∧ ∀ q ∈ x.ptr, q < s.hub.next ∧ (s.hub.obj q).masterID ∈ K)
    ⟨fun h => ⟨h.1, h.2⟩, fun h => ⟨h.keys, h.ptr⟩⟩

instance {K : Set KSUID} {C : Set ℕ} [DecidablePred (· ∈ K)] [DecidablePred (· ∈ C)] {s : Links KSUID}
    {x : LinkAct KSUID} : Decidable (x.Of K C s) :=
  decidable_of_iff ((∀ k ∈ x.keys, k ∈ K) ∧ (∀ q ∈ x.ptr, q < s.hub.next ∧ (s.hub.obj q).master ∈ K) ∧
      ∀ c ∈ x.sock, c ∈ C)
    ⟨fun h => ⟨h.1, h.2.1, h.2.2⟩, fun h => ⟨h.keys, h.ptr, h.sock⟩⟩

instance {P : Sessions S KSUID} [∀ σ, DecidablePred (· ∈ P.ids σ)] [∀ σ, DecidablePred (· ∈ P.conns σ)]
    {s : Hubs KSUID W} {l : S × HubAct KSUID W} : Decidable (P.Of s l) :=
  match l with
  | (σ, .queue x) => inferInstanceAs (Decidable (x.Of (P.ids σ) s.queues))
  | (σ, .link x) => inferInstanceAs (Decidable (x.Of (P.ids σ) (P.conns σ) s.links))

theorem toNat_inj : ∀ {a b : Bool}, a.toNat = b.toNat → a = b := by decide

/-- A session with the even ids and connections, and one with the odd ones. -/
def twoSessions : Sessions Bool ℕ where
  ids b := {k | k % 2 = b.toNat}
  conns b := {c | c % 2 = b.toNat}
  ids_disjoint := fun _ _ hab => Set.disjoint_left.mpr fun _ ha hb => hab (toNat_inj (ha.symm.trans hb))
  conns_disjoint := fun _ _ hab => Set.disjoint_left.mpr fun _ ha hb => hab (toNat_inj (ha.symm.trans hb))

instance {b : Bool} : DecidablePred (· ∈ twoSessions.ids b) := fun k => inferInstanceAs (Decidable (k % 2 = b.toNat))

instance {b : Bool} : DecidablePred (· ∈ twoSessions.conns b) :=
  fun k => inferInstanceAs (Decidable (k % 2 = b.toNat))

/-- Each of the sessions has a lane and a connection and sends one byte; their steps alternate. -/
def alternate : List (Bool × HubAct ℕ Unit) :=
  [(false, .link (.add 2 2)), (true, .link (.add 1 1)), (true, .link (.setSort 1 [1])),
   (false, .link (.setSort 2 [2])), (true, .link (.trySend 1 1)), (false, .link (.trySend 2 0)),
   (false, .link (.write 0 ⟨false, [7]⟩)), (true, .link (.write 1 ⟨false, [8]⟩)),
   (true, .link (.send 1 0 .ok)), (false, .link (.send 0 0 .ok)), (true, .link (.send 1 0 .ok)),
   (false, .link (.send 0 0 .ok)), (true, .link (.send 1 0 .ok)), (true, .link (.send 1 0 .ok)),
   (true, .link (.send 1 0 .ok)), (true, .link (.removeAll 1)), (false, .queue (.add 2 2 ()))]

set_option maxRecDepth 100000 in
/-- The session with the odd ids, while the other one is at work. -/
theorem sessions_isolated_two :
    ∃ s : Hubs ℕ Unit, Run Hubs.step twoSessions.Of Hubs.init alternate s ∧
      (s.links.socks 1).out = [.data [8]] ∧
      ∃ (ρ ρ' : ℕ → ℕ) (ys : List (HubAct ℕ Unit)) (t : Hubs ℕ Unit),
        ownActs true alternate = ys.map (HubAct.rename ρ ρ') ∧
        Set.InjOn ρ {a | a < t.queues.hub.next} ∧ Set.InjOn ρ' {a | a < t.links.hub.next} ∧
        Run Hubs.act anyStep Hubs.init ys t ∧
        (∀ id ∈ twoSessions.ids true,
          s.queues.entry id = t.queues.entry id ∧ s.links.entry id = t.links.entry id) ∧
        ∀ c ∈ twoSessions.conns true, s.links.socks c = t.links.socks c := by
  have hexec : (exec Hubs.step (fun s l => decide (twoSessions.Of s l)) Hubs.init alternate).map
      (fun s => (s.links.socks 1).out) = some [.data [8]] := by decide +kernel
  obtain ⟨s, hrun, hout⟩ := exists_run_of_exec hexec
  have hrun' : Run Hubs.step twoSessions.Of Hubs.init alternate s := hrun.mono fun _ _ h => of_decide_eq_true h
  exact ⟨s, hrun', hout, sessions_isolated twoSessions hrun' true⟩

end Hubs

end Wssocks.Pipe

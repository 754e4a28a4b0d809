import Wssocks.Pipe.Isolation
import Wssocks.Wss.ClientSteps

/-!
# A call of `transData` on hubs that it shares

A call on hubs that other calls use, too, does what it does on hubs of its own: only the addresses of its queues and
links are others. `CallMirror ids ρ ρ' s t` tells that the call `s` on shared hubs is where the call `t` is, which
has hubs of its own.

Results:

* `CallMirror.step`: a step of a call on the shared hubs is a step on its own hubs that sends the same message.
-/

namespace Wssocks.Pipe

open Wssocks.Lib

variable {KSUID W : Type} [DecidableEq KSUID] {K : Set KSUID} {ρ : ℕ → ℕ} {s s' t : Queues KSUID W}
  {a : ℕ} {c c' : Copy}

/-- A step of `CopyBuffer` depends on its own queue only. -/
theorem QueueMirror.copyStep (hm : QueueMirror K ρ s t) (ha : a < t.hub.next) (h : c.step s (ρ a) = some (c', s')) :
    ∃ t', c.step t a = some (c', t') ∧ QueueMoves K ρ s t ρ s' t' := by
  unfold Copy.step at h ⊢
  rw [hm.obj_eq ha] at h
  cases hpc : c.pc with
  | check data er | eofCheck er =>
    simp only [hpc] at h ⊢
    split_ifs at h ⊢ <;> cases h <;> exact ⟨t, rfl, hm.refl⟩
  | select data er | eofSelect er =>
    simp only [hpc] at h ⊢
    obtain ⟨r, hr, hc⟩ := Option.map_eq_some_iff.mp h
    obtain ⟨t', ht, hmoves⟩ := hm.push ha hr
    rw [ht, Option.map_some]
    first
    | cases hc; exact ⟨t', rfl, hmoves⟩
    | split_ifs at hc ⊢ <;> cases hc <;> exact ⟨t', rfl, hmoves⟩
  | idle | read | done =>
    simp only [hpc] at h
    cases h

theorem QueueMirror.copyTimeout (hm : QueueMirror K ρ s t) (ha : a < t.hub.next) (c : Copy) :
    c.timeout s (ρ a) = c.timeout t a := by
  rw [Copy.timeout, Copy.timeout, hm.obj_eq ha]

end Wssocks.Pipe

namespace Wssocks.Wss

open Wssocks.Lib Wssocks.Pipe

variable {KSUID : Type} [DecidableEq KSUID]

/-! ## Pointers at other addresses -/

/-- The same place with pointers to queues and links at other addresses. -/
def TransPc.rename (ρ ρ' : ℕ → ℕ) : TransPc → TransPc
  | .setQueueSort q => .setQueueSort (ρ q)
  | .goSend q => .goSend (ρ q)
  | .goCopy q => .goCopy (ρ q)
  | .setConn o => .setConn (ρ' o)
  | .setLinkSort o => .setLinkSort (ρ' o)
  | .goLinkSend o => .goLinkSend (ρ' o)
  | .wait o => .wait (ρ' o)
  | pc => pc

/-- The pointers are ones that hubs with `n` queues and `m` links have given out, and the lanes are lanes. -/
def TransPc.Within (ids : List KSUID) (n m : ℕ) : TransPc → Prop
  | .sayID i | .queueAdd i | .linkAdd i => i < ids.length
  | .setQueueSort q | .goSend q | .goCopy q => q < n
  | .setConn o | .setLinkSort o | .goLinkSend o | .wait o => o < m
  | _ => True

@[inherit_doc TransPc.rename]
def ClientReader.rename (ρ' : ℕ → ℕ) : ClientReader KSUID → ClientReader KSUID
  | .check q b => .check (ρ' q) b
  | .select q b => .select (ρ' q) b
  | pc => pc

@[inherit_doc TransPc.Within]
def ClientReader.Within (ids : List KSUID) (m : ℕ) : ClientReader KSUID → Prop
  | .idle => True
  | .check q _ | .select q _ => q < m
  | .remove id _ => id ∈ ids

/-- The same step with its pointer at another address. -/
def ClientLabel.rename (ρ ρ' : ℕ → ℕ) : ClientLabel → ClientLabel
  | .queueSend q i o => .queueSend (ρ q) i o
  | .linkSend q i o => .linkSend (ρ' q) i o
  | .linkDone q i => .linkDone (ρ' q) i
  | l => l

section Rename

variable {ids : List KSUID} {n m n' m' : ℕ} {ρ ρ' ρ₁ ρ₂ : ℕ → ℕ}

omit [DecidableEq KSUID] in
theorem TransPc.rename_congr {pc : TransPc} (h : pc.Within ids n m) (hq : Extends n ρ ρ₁) (hl : Extends m ρ' ρ₂) :
    pc.rename ρ₁ ρ₂ = pc.rename ρ ρ' := by
  cases pc with
  | setQueueSort q | goSend q | goCopy q => simp only [TransPc.rename, hq q h]
  | setConn o | setLinkSort o | goLinkSend o | wait o => simp only [TransPc.rename, hl o h]
  | _ => rfl

omit [DecidableEq KSUID] in
theorem TransPc.Within.mono {pc : TransPc} (h : pc.Within ids n m) (hn : n ≤ n') (hm : m ≤ m') :
    pc.Within ids n' m' := by
  cases pc with
  | setQueueSort q | goSend q | goCopy q => exact lt_of_lt_of_le h hn
  | setConn o | setLinkSort o | goLinkSend o | wait o => exact lt_of_lt_of_le h hm
  | _ => exact h

omit [DecidableEq KSUID] in
theorem ClientReader.rename_congr {r : ClientReader KSUID} (h : r.Within ids m) (hl : Extends m ρ' ρ₂) :
    r.rename ρ₂ = r.rename ρ' := by
  cases r with
  | check q b | select q b => simp only [ClientReader.rename, hl q h]
  | _ => rfl

omit [DecidableEq KSUID] in
theorem ClientReader.Within.mono {r : ClientReader KSUID} (h : r.Within ids m) (hm : m ≤ m') : r.Within ids m' := by
  cases r with
  | check q b | select q b => exact lt_of_lt_of_le h hm
  | _ => exact h

end Rename

/-! ## A call on shared hubs and on its own -/

/-- The call `s` on shared hubs is where the call `t` is, which has hubs of its own; `ρ` and `ρ'` tell where its queues
    and links are in the shared hubs. Its connection is its own on both sides. -/
structure CallMirror (ids : List KSUID) (ρ ρ' : ℕ → ℕ) (s t : Client KSUID) : Prop where
  queues : QueueMirror {k | k ∈ ids} ρ s.queues t.queues
  links : LinkMirror {k | k ∈ ids} Set.univ ρ' s.links t.links
  pc : s.pc = t.pc.rename ρ ρ'
  pcIn : t.pc.Within ids t.queues.hub.next t.links.hub.next
  reader : ∀ i, s.reader i = (t.reader i).rename ρ'
  readerIn : ∀ i, (t.reader i).Within ids t.links.hub.next
  qq : t.copy.pc ≠ .idle → t.qq < t.queues.hub.next ∧ s.qq = ρ t.qq
  copy : s.copy = t.copy
  err : s.err = t.err
  removed : s.removed = t.removed
  inbox : s.inbox = t.inbox
  registered : s.registered = t.registered
  cancelled : s.cancelled = t.cancelled
  told : s.told = t.told
  queuesCrashed : t.queues.crashed = true → s.queues.crashed = true
  linksCrashed : t.links.crashed = true → s.links.crashed = true

/-- A step of the call, on both sides. -/
structure CallMoves (ids : List KSUID) (ρ ρ' : ℕ → ℕ) (s t : Client KSUID) (ρ₁ ρ₂ : ℕ → ℕ) (s' t' : Client KSUID) :
    Prop where
  mirror : CallMirror ids ρ₁ ρ₂ s' t'
  queues : QueueMoves {k | k ∈ ids} ρ s.queues t.queues ρ₁ s'.queues t'.queues
  links : LinkMoves {k | k ∈ ids} Set.univ ρ' s.links t.links ρ₂ s'.links t'.links

/-- No goroutine has panicked. -/
structure Client.Running (s : Client KSUID) : Prop where
  queues : s.queues.crashed = false
  links : s.links.crashed = false

section Steps

variable {ids : List KSUID} {ρ ρ' ρ₁ ρ₂ : ℕ → ℕ} {s s' t t' : Client KSUID} {out : Option (ℕ × Msg KSUID)} {i : ℕ}

namespace CallMirror

theorem refl (h : CallMirror ids ρ ρ' s t) : CallMoves ids ρ ρ' s t ρ ρ' s t := ⟨h, h.queues.refl, h.links.refl⟩

theorem running (h : CallMirror ids ρ ρ' s t) (hrun : s.Running) : t.Running where
  queues := Bool.eq_false_of_not_eq_true fun ht => absurd (h.queuesCrashed ht) (by simp [hrun.queues])
  links := Bool.eq_false_of_not_eq_true fun ht => absurd (h.linksCrashed ht) (by simp [hrun.links])

/-- The call uses the queues. -/
theorem moveQueues {qs qt : Queues KSUID (WsWriter ℕ KSUID)} (h : CallMirror ids ρ ρ' s t) (hrun : s.Running)
    (hq : QueueMoves {k | k ∈ ids} ρ s.queues t.queues ρ₁ qs qt) :
    CallMoves ids ρ ρ' s t ρ₁ ρ' { s with queues := qs } { t with queues := qt } where
  mirror :=
    { h with
      queues := hq.mirror
      pc := h.pc.trans (TransPc.rename_congr h.pcIn hq.hub.agree fun _ _ => rfl).symm
      pcIn := h.pcIn.mono hq.hub.le le_rfl
      qq := by
        intro hc
        obtain ⟨hlt, heq⟩ := h.qq hc
        exact ⟨lt_of_lt_of_le hlt hq.hub.le, heq.trans (hq.hub.agree _ hlt).symm⟩
      queuesCrashed := by
        intro hc
        rwa [← hq.crashed (hrun.queues.trans (h.running hrun).queues.symm)] at hc }
  queues := hq
  links := h.links.refl

/-- The call uses the links. -/
theorem moveLinks {ls lt : Links KSUID} (h : CallMirror ids ρ ρ' s t) (hrun : s.Running)
    (hl : LinkMoves {k | k ∈ ids} Set.univ ρ' s.links t.links ρ₂ ls lt) :
    CallMoves ids ρ ρ' s t ρ ρ₂ { s with links := ls } { t with links := lt } where
  mirror :=
    { h with
      links := hl.mirror
      pc := h.pc.trans (TransPc.rename_congr h.pcIn (fun _ _ => rfl) hl.hub.agree).symm
      pcIn := h.pcIn.mono le_rfl hl.hub.le
      reader := fun i => (h.reader i).trans (ClientReader.rename_congr (h.readerIn i) hl.hub.agree).symm
      readerIn := fun i => (h.readerIn i).mono hl.hub.le
      linksCrashed := by
        intro hc
        rwa [← hl.crashed (hrun.links.trans (h.running hrun).links.symm)] at hc }
  queues := h.queues.refl
  links := hl

/-- Lane `i` is entered into `proxies` of its websocket, or taken out. -/
theorem register (h : CallMirror ids ρ ρ' s t) (i : ℕ) (b : Bool) :
    CallMoves ids ρ ρ' s t ρ ρ' { s with registered := Function.update s.registered i b }
      { t with registered := Function.update t.registered i b } :=
  ⟨{ h with registered := by rw [h.registered] }, h.queues.refl, h.links.refl⟩

theorem fail (h : CallMirror ids ρ ρ' s t) (e : TransErr) :
    CallMoves ids ρ ρ' s t ρ ρ' { s with err := some e } { t with err := some e } :=
  ⟨{ h with err := rfl }, h.queues.refl, h.links.refl⟩

end CallMirror

/-- `transData` goes on to `pc`. -/
theorem CallMoves.goto (hm : CallMoves ids ρ ρ' s t ρ₁ ρ₂ s' t') (pc : TransPc)
    (hpc : pc.Within ids t'.queues.hub.next t'.links.hub.next) :
    CallMoves ids ρ ρ' s t ρ₁ ρ₂ { s' with pc := pc.rename ρ₁ ρ₂ } { t' with pc := pc } :=
  ⟨{ hm.mirror with pc := rfl, pcIn := hpc }, hm.queues, hm.links⟩

/-- A reader moves. -/
theorem CallMoves.goReader (hm : CallMoves ids ρ ρ' s t ρ₁ ρ₂ s' t') (r : ClientReader KSUID)
    (hr : r.Within ids t'.links.hub.next) :
    CallMoves ids ρ ρ' s t ρ₁ ρ₂ (s'.goReader i (r.rename ρ₂)) (t'.goReader i r) where
  mirror :=
    { hm.mirror with
      reader := by
        intro j
        simp only [Client.goReader]
        by_cases hj : j = i
        · rw [hj, Function.update_self, Function.update_self]
        · rw [Function.update_of_ne hj, Function.update_of_ne hj, hm.mirror.reader j]
      readerIn := by
        intro j
        simp only [Client.goReader]
        by_cases hj : j = i
        · rwa [hj, Function.update_self]
        · rw [Function.update_of_ne hj]
          exact hm.mirror.readerIn j }
  queues := hm.queues
  links := hm.links

namespace CallMirror

/-! ### The operations of `transData` -/

theorem removeStep {id : KSUID} (h : CallMirror ids ρ ρ' s t) (hrun : s.Running) (hid : id ∈ ids) (a : RemoveAt) :
    (s.removeStep id a).2 = (t.removeStep id a).2 ∧
      CallMoves ids ρ ρ' s t ρ ρ' (s.removeStep id a).1 (t.removeStep id a).1 := by
  cases a with
  | test =>
    rw [Client.removeStep, Client.removeStep, h.removed]
    split_ifs
    · exact ⟨rfl, h.refl⟩
    · exact ⟨rfl, { h with removed := rfl }, h.queues.refl, h.links.refl⟩
  | queue => exact ⟨rfl, h.moveQueues hrun (h.queues.remove hid)⟩
  | links => exact ⟨rfl, h.moveLinks hrun (h.links.removeAll hid)⟩

omit [DecidableEq KSUID] in
theorem masterID_mem [Inhabited KSUID] (hpos : 0 < ids.length) : Client.masterID ids ∈ ids := by
  cases ids with
  | nil => cases hpos
  | cons k ids => exact List.mem_cons_self

/-- The next operation of `transData`. -/
theorem transStep [Inhabited KSUID] (h : CallMirror ids ρ ρ' s t) (hrun : s.Running) (hpos : 0 < ids.length)
    (hs : s.transStep ids = some (s', out)) :
    ∃ ρ₁ ρ₂ t', t.transStep ids = some (t', out) ∧ CallMoves ids ρ ρ' s t ρ₁ ρ₂ s' t' := by
  have hmaster : Client.masterID ids ∈ ids := masterID_mem hpos
  have hin := h.pcIn
  unfold Client.transStep at hs ⊢
  rw [h.pc] at hs
  cases hpc : t.pc with
  | newProxy i =>
    simp only [hpc, TransPc.rename] at hs ⊢
    split_ifs at hs ⊢ with hi <;> cases hs
    · exact ⟨ρ, ρ', _, rfl, (h.register i true).goto (.sayID i) hi⟩
    · exact ⟨ρ, ρ', _, rfl, h.refl.goto .establish trivial⟩
  | sayID i =>
    rw [hpc] at hin
    simp only [hpc, TransPc.rename] at hs ⊢
    cases hs
    exact ⟨ρ, ρ', _, rfl, h.refl.goto (.queueAdd i) hin⟩
  | queueAdd i =>
    rw [hpc] at hin
    simp only [hpc, TransPc.rename] at hs ⊢
    cases hs
    obtain ⟨ρ₁, hq⟩ := h.queues.add hmaster (ids.getD i default) ⟨i, ids.getD i default⟩
    exact ⟨ρ₁, ρ', _, rfl, (h.moveQueues hrun hq).goto (.linkAdd i) hin⟩
  | linkAdd i =>
    rw [hpc] at hin
    have hid : ids.getD i default ∈ ids := List.mem_of_getElem? (getElem?_getD hin)
    simp only [hpc, TransPc.rename] at hs ⊢
    cases hs
    obtain ⟨ρ₂, hl⟩ := h.links.add hid hmaster
    exact ⟨ρ, ρ₂, _, rfl, (h.moveLinks hrun hl).goto (.newProxy (i + 1)) trivial⟩
  | establish =>
    simp only [hpc, TransPc.rename] at hs ⊢
    cases hs
    exact ⟨ρ, ρ', _, rfl, h.refl.goto .getQueue trivial⟩
  | getQueue =>
    simp only [hpc, TransPc.rename, h.queues.ref _ hmaster] at hs ⊢
    cases hr : t.queues.hub.ref? (Client.masterID ids) with
    | none =>
      simp only [hr, Option.map_none] at hs ⊢
      cases hs
      exact ⟨ρ, ρ', _, rfl, (h.fail .queueNotFound).goto (.remove .test) trivial⟩
    | some q =>
      simp only [hr, Option.map_some] at hs ⊢
      cases hs
      exact ⟨ρ, ρ', _, rfl, h.refl.goto (.setQueueSort q) (Registry.ref?_lt hr)⟩
  | setQueueSort q =>
    rw [hpc] at hin
    simp only [hpc, TransPc.rename] at hs ⊢
    cases hs
    have hq := h.queues.modify hin (f := fun x => { x with sorted := ids }) rfl
    exact ⟨ρ, ρ', _, rfl, (h.moveQueues hrun hq).goto (.goSend q) hin⟩
  | goSend q =>
    rw [hpc] at hin
    simp only [hpc, TransPc.rename] at hs ⊢
    cases hs
    have hq := h.queues.launch (o := some q) fun a ha => Option.some.inj ha ▸ hin
    exact ⟨ρ, ρ', _, rfl, (h.moveQueues hrun hq).goto (.goCopy q) hin⟩
  | goCopy q =>
    rw [hpc] at hin
    simp only [hpc, TransPc.rename] at hs ⊢
    cases hs
    have hcopy : CallMoves ids ρ ρ' s t ρ ρ' { s with copy := { pc := .read }, qq := ρ q }
        { t with copy := { pc := .read }, qq := q } :=
      ⟨{ h with copy := rfl, qq := fun _ => ⟨hin, rfl⟩ }, h.queues.refl, h.links.refl⟩
    exact ⟨ρ, ρ', _, rfl, hcopy.goto .getLink trivial⟩
  | getLink =>
    simp only [hpc, TransPc.rename, h.links.hub.ref _ hmaster] at hs ⊢
    cases hr : t.links.hub.ref? (Client.masterID ids) with
    | none =>
      simp only [hr, Option.map_none] at hs ⊢
      cases hs
      exact ⟨ρ, ρ', _, rfl, (h.fail .linkNotFound).goto (.remove .test) trivial⟩
    | some o =>
      simp only [hr, Option.map_some] at hs ⊢
      cases hs
      exact ⟨ρ, ρ', _, rfl, h.refl.goto (.setConn o) (Registry.ref?_lt hr)⟩
  | setConn o =>
    rw [hpc] at hin
    simp only [hpc, TransPc.rename] at hs ⊢
    cases hs
    obtain ⟨hown, hsorted, -⟩ := h.links.good hin
    have hl := h.links.modify hin (f := fun x => { x with conn := some 0 }) ⟨hown, hsorted, fun _ _ => trivial⟩
    exact ⟨ρ, ρ', _, rfl, (h.moveLinks hrun hl).goto (.setLinkSort o) hin⟩
  | setLinkSort o =>
    rw [hpc] at hin
    simp only [hpc, TransPc.rename] at hs ⊢
    cases hs
    obtain ⟨hown, -, hconn⟩ := h.links.good hin
    have hl := h.links.modify hin (f := fun x => { x with sorted := ids }) ⟨hown, fun _ hk => hk, hconn⟩
    exact ⟨ρ, ρ', _, rfl, (h.moveLinks hrun hl).goto (.goLinkSend o) hin⟩
  | goLinkSend o =>
    rw [hpc] at hin
    simp only [hpc, TransPc.rename] at hs ⊢
    cases hs
    have hl := h.links.launch (o := some o) fun a ha => Option.some.inj ha ▸ hin
    exact ⟨ρ, ρ', _, rfl, (h.moveLinks hrun hl).goto (.wait o) hin⟩
  | wait o =>
    rw [hpc] at hin
    simp only [hpc, TransPc.rename, h.links.obj_eq hin] at hs ⊢
    split_ifs at hs ⊢
    cases hs
    exact ⟨ρ, ρ', _, rfl, h.refl.goto (.remove .test) trivial⟩
  | remove a =>
    obtain ⟨hat, hm⟩ := h.removeStep hrun hmaster a
    simp only [hpc, TransPc.rename, hat] at hs ⊢
    cases hs
    cases (t.removeStep (Client.masterID ids) a).2 with
    | none => exact ⟨ρ, ρ', _, rfl, hm.goto (.cancel ids.length) trivial⟩
    | some b => exact ⟨ρ, ρ', _, rfl, hm.goto (.remove b) trivial⟩
  | cancel i =>
    cases i with
    | zero =>
      simp only [hpc, TransPc.rename] at hs ⊢
      cases hs
      exact ⟨ρ, ρ', _, rfl, h.refl.goto .returned trivial⟩
    | succ i =>
      simp only [hpc, TransPc.rename] at hs ⊢
      cases hs
      have hcancel : CallMoves ids ρ ρ' s t ρ ρ' { s with cancelled := Function.update s.cancelled i true }
          { t with cancelled := Function.update t.cancelled i true } :=
        ⟨{ h with cancelled := by rw [h.cancelled] }, h.queues.refl, h.links.refl⟩
      exact ⟨ρ, ρ', _, rfl, hcancel.goto (.rmProxy i) trivial⟩
  | rmProxy i =>
    simp only [hpc, TransPc.rename] at hs ⊢
    cases hs
    exact ⟨ρ, ρ', _, rfl, (h.register i false).goto (.cancel i) trivial⟩
  | returned =>
    simp only [hpc, TransPc.rename] at hs
    cases hs

theorem transFail (h : CallMirror ids ρ ρ' s t) (hs : s.transFail = some s') :
    ∃ t', t.transFail = some t' ∧ CallMoves ids ρ ρ' s t ρ ρ' s' t' := by
  have hin := h.pcIn
  unfold Client.transFail at hs ⊢
  rw [h.pc] at hs
  cases hpc : t.pc with
  | sayID i =>
    rw [hpc] at hin
    simp only [hpc, TransPc.rename] at hs ⊢
    cases hs
    exact ⟨_, rfl, h.refl.goto (.queueAdd i) hin⟩
  | establish =>
    simp only [hpc, TransPc.rename] at hs ⊢
    cases hs
    exact ⟨_, rfl, (h.fail .establish).goto (.remove .test) trivial⟩
  | _ =>
    simp only [hpc, TransPc.rename] at hs
    cases hs

/-! ### The readers -/

theorem dispatch (h : CallMirror ids ρ ρ' s t) (i : ℕ) (m : Msg KSUID) :
    CallMoves ids ρ ρ' s t ρ ρ' (s.dispatch ids i m) (t.dispatch ids i m) := by
  cases m with
  | data id tag bytes =>
    unfold Client.dispatch
    dsimp only
    rw [h.registered]
    split_ifs with hid
    · rw [h.links.hub.ref id (List.mem_of_getElem? hid.2)]
      cases hr : t.links.hub.ref? id with
      | none => exact h.refl
      | some q =>
        cases tag with
        | data => exact h.refl.goReader (.check q ⟨false, bytes⟩) (Registry.ref?_lt hr)
        | eof => exact h.refl.goReader (.check q ⟨true, []⟩) (Registry.ref?_lt hr)
        | estOk | estErr | noMore | handshake => exact h.refl
    · exact h.refl
  | finish id =>
    rw [Client.dispatch, Client.dispatch, h.registered]
    split_ifs with hid
    · exact h.refl.goReader (.remove id .test) (List.mem_of_getElem? hid.2)
    · exact h.refl
  | _ => exact h.refl

theorem readerStep (h : CallMirror ids ρ ρ' s t) (hrun : s.Running) (hs : s.readerStep i = some s') :
    ∃ t', t.readerStep i = some t' ∧ CallMoves ids ρ ρ' s t ρ ρ' s' t' := by
  have hin := h.readerIn i
  unfold Client.readerStep at hs ⊢
  rw [h.reader i] at hs
  cases hr : t.reader i with
  | idle =>
    simp only [hr, ClientReader.rename] at hs
    cases hs
  | check q b =>
    rw [hr] at hin
    simp only [hr, ClientReader.rename, h.links.obj_eq hin] at hs ⊢
    split_ifs at hs ⊢ <;> cases hs
    · exact ⟨_, rfl, h.refl.goReader .idle trivial⟩
    · exact ⟨_, rfl, h.refl.goReader (.select q b) hin⟩
  | select q b =>
    rw [hr] at hin
    simp only [hr, ClientReader.rename] at hs ⊢
    obtain ⟨r, hpush, rfl⟩ := Option.map_eq_some_iff.mp hs
    obtain ⟨r', hpush', hl⟩ := h.links.push hin hpush
    rw [hpush']
    exact ⟨_, rfl, (h.moveLinks hrun hl).goReader .idle trivial⟩
  | remove id a =>
    rw [hr] at hin
    obtain ⟨hat, hm⟩ := h.removeStep hrun hin a
    simp only [hr, ClientReader.rename, hat] at hs ⊢
    cases hs
    cases (t.removeStep id a).2 with
    | none => exact ⟨_, rfl, hm.goReader .idle trivial⟩
    | some b => exact ⟨_, rfl, hm.goReader (.remove id b) hin⟩

theorem recv (h : CallMirror ids ρ ρ' s t) (x : Msg KSUID) (xs : List (Msg KSUID)) :
    CallMoves ids ρ ρ' s t ρ ρ' ({ s with inbox := Function.update s.inbox i xs }.dispatch ids i x)
      ({ t with inbox := Function.update t.inbox i xs }.dispatch ids i x) := by
  have hinbox : CallMirror ids ρ ρ' { s with inbox := Function.update s.inbox i xs }
      { t with inbox := Function.update t.inbox i xs } := { h with inbox := by rw [h.inbox] }
  obtain ⟨hm, hq, hl⟩ := hinbox.dispatch i x
  exact ⟨hm, hq, hl⟩

/-! ### `CopyBuffer` -/

theorem setCopy {c : Copy} (h : CallMirror ids ρ ρ' s t) (hne : t.copy.pc ≠ .idle) :
    CallMoves ids ρ ρ' s t ρ ρ' { s with copy := c } { t with copy := c } :=
  ⟨{ h with copy := rfl, qq := fun _ => h.qq hne }, h.queues.refl, h.links.refl⟩

theorem copyRead {c : Copy} {data : List UInt8} {er : ReadEnd} (h : CallMirror ids ρ ρ' s t)
    (hc : s.copy.read data er = some c) :
    t.copy.read data er = some c ∧ CallMoves ids ρ ρ' s t ρ ρ' { s with copy := c } { t with copy := c } := by
  rw [h.copy] at hc
  refine ⟨hc, h.setCopy fun hidle => ?_⟩
  rw [Copy.read, hidle] at hc
  cases hc

theorem copyStep {c : Copy} {qs : Queues KSUID (WsWriter ℕ KSUID)} (h : CallMirror ids ρ ρ' s t) (hrun : s.Running)
    (hc : s.copy.step s.queues s.qq = some (c, qs)) :
    ∃ qt, t.copy.step t.queues t.qq = some (c, qt) ∧
      CallMoves ids ρ ρ' s t ρ ρ' { s with copy := c, queues := qs } { t with copy := c, queues := qt } := by
  rw [h.copy] at hc
  have hne : t.copy.pc ≠ .idle := by
    intro hidle
    rw [Copy.step, hidle] at hc
    cases hc
  obtain ⟨hlt, hqq⟩ := h.qq hne
  rw [hqq] at hc
  obtain ⟨qt, hc', hq⟩ := h.queues.copyStep hlt hc
  obtain ⟨hm, hq', hl⟩ := h.moveQueues hrun hq
  exact ⟨qt, hc', { hm with copy := rfl, qq := fun _ => hm.qq hne }, hq', hl⟩

theorem copyTimeout {c : Copy} (h : CallMirror ids ρ ρ' s t) (hc : s.copy.timeout s.queues s.qq = some c) :
    t.copy.timeout t.queues t.qq = some c ∧
      CallMoves ids ρ ρ' s t ρ ρ' { s with copy := c } { t with copy := c } := by
  rw [h.copy] at hc
  have hne : t.copy.pc ≠ .idle := by
    intro hidle
    rw [Copy.timeout, hidle] at hc
    obtain ⟨-, hc⟩ := Option.ite_none_right_eq_some.mp hc
    cases hc
  obtain ⟨hlt, hqq⟩ := h.qq hne
  rw [hqq, h.queues.copyTimeout hlt] at hc
  exact ⟨hc, h.setCopy hne⟩

/-! ### The goroutines of `Send` -/

/-- A goroutine on a queue of the call. -/
theorem queueSend {q : ℕ} {o : Outcome} {qs : Queues KSUID (WsWriter ℕ KSUID)}
    {msg : Option (WsWriter ℕ KSUID × Buffer)} (h : CallMirror ids ρ ρ' s t) (hrun : s.Running)
    (hown : (s.queues.hub.obj q).masterID ∈ ids) (hsend : s.queues.send q i o = some (qs, msg)) :
    ∃ r qt, ρ r = q ∧ t.queues.send r i o = some (qt, msg) ∧
      CallMoves ids ρ ρ' s t ρ ρ' { s with queues := qs } { t with queues := qt } := by
  have hlt : q < s.queues.hub.next := by
    refine not_le.mp fun hle => ?_
    rw [Queues.send, h.queues.unborn q hle] at hsend
    cases hsend
  obtain ⟨r, hr, rfl⟩ := h.queues.surj q hlt hown
  obtain ⟨qt, hsend', hq⟩ := h.queues.send hr hsend
  exact ⟨r, qt, rfl, hsend', h.moveQueues hrun hq⟩

/-- A goroutine on a link of the call. -/
theorem linkSend {q : ℕ} {o : Outcome} {ls : Links KSUID} (h : CallMirror ids ρ ρ' s t) (hrun : s.Running)
    (hown : (s.links.hub.obj q).master ∈ ids) (hsend : s.links.send q i o = some ls) :
    ∃ r lt, ρ' r = q ∧ t.links.send r i o = some lt ∧
      CallMoves ids ρ ρ' s t ρ ρ' { s with links := ls } { t with links := lt } := by
  have hlt : q < s.links.hub.next := by
    refine not_le.mp fun hle => ?_
    rw [Links.send, h.links.hub.unborn q hle] at hsend
    cases hsend
  obtain ⟨r, hr, rfl⟩ := h.links.hub.surj q hlt hown
  obtain ⟨lt, hsend', hl⟩ := h.links.send hr hsend
  exact ⟨r, lt, rfl, hsend', h.moveLinks hrun hl⟩

/-- `oo.Wait()` receives. -/
theorem linkDone {q : ℕ} {ls : Links KSUID} (h : CallMirror ids ρ ρ' s t) (hrun : s.Running) (hwait : s.pc = .wait q)
    (hdone : s.links.handoff q i = some ls) :
    ∃ r lt, ρ' r = q ∧ t.pc = .wait r ∧ t.links.handoff r i = some lt ∧
      CallMoves ids ρ ρ' s t ρ ρ' { s with links := ls } { t with links := lt } := by
  have hin := h.pcIn
  have hpc := h.pc
  rw [hwait] at hpc
  obtain ⟨r, hr, rfl⟩ : ∃ r, t.pc = .wait r ∧ ρ' r = q := by
    cases ht : t.pc <;> rw [ht] at hpc <;> cases hpc
    exact ⟨_, rfl, rfl⟩
  rw [hr] at hin
  obtain ⟨lt, hdone', hl⟩ := h.links.handoff hin hdone
  exact ⟨r, lt, rfl, hr, hdone', h.moveLinks hrun hl⟩

end CallMirror

/-! ### One step -/

/-- The goroutines of `Send` that a step of a call concerns run on its own queues and links. -/
def Client.Owns (ids : List KSUID) (s : Client KSUID) : ClientLabel → Prop
  | .queueSend q _ _ => (s.queues.hub.obj q).masterID ∈ ids
  | .linkSend q _ _ => (s.links.hub.obj q).master ∈ ids
  | _ => True

/-- After a panic there are no steps. -/
theorem Client.running_of_step [Inhabited KSUID] {l : ClientLabel} (hs : s.step ids l = some (s', out)) :
    s.Running := by
  obtain ⟨hcr, -⟩ := Option.ite_none_left_eq_some.mp hs
  rw [Bool.not_eq_true, Bool.or_eq_false_iff] at hcr
  exact ⟨hcr.1, hcr.2⟩

/-- What a call does on the shared hubs it does on its own hubs, and it sends the same message. -/
theorem CallMirror.step [Inhabited KSUID] {l : ClientLabel} (h : CallMirror ids ρ ρ' s t) (hpos : 0 < ids.length)
    (hown : s.Owns ids l) (hs : s.step ids l = some (s', out)) :
    ∃ ρ₁ ρ₂ l' t', l = l'.rename ρ ρ' ∧ t.step ids l' = some (t', out) ∧ CallMoves ids ρ ρ' s t ρ₁ ρ₂ s' t' := by
  have hrun : s.Running := Client.running_of_step hs
  obtain ⟨-, hs⟩ := Option.ite_none_left_eq_some.mp hs
  have ht : (t.queues.crashed || t.links.crashed) = false := by
    rw [(h.running hrun).queues, (h.running hrun).links]
    rfl
  have hstep : ∀ l', t.step ids l' = _ := fun l' => if_neg (by rw [ht]; exact Bool.false_ne_true)
  cases l with
  | trans =>
    obtain ⟨ρ₁, ρ₂, t', ht', hm⟩ := h.transStep hrun hpos hs
    exact ⟨ρ₁, ρ₂, .trans, t', rfl, (hstep _).trans ht', hm⟩
  | transFail =>
    obtain ⟨s1, hs1, hs'⟩ := Option.map_eq_some_iff.mp hs
    cases hs'
    obtain ⟨t', ht', hm⟩ := h.transFail hs1
    exact ⟨ρ, ρ', .transFail, t', rfl, (hstep _).trans (by simp only [ht', Option.map_some]), hm⟩
  | recv i =>
    dsimp only at hs
    split at hs
    · rename_i x xs hr hin
      cases hs
      have hidle : t.reader i = .idle := by
        have hri := h.reader i
        rw [hr] at hri
        cases hti : t.reader i <;> rw [hti] at hri <;> cases hri
      refine ⟨ρ, ρ', .recv i, _, rfl, (hstep _).trans ?_, h.recv x xs⟩
      simp only [hidle, ← h.inbox, hin]
    · cases hs
  | reader i =>
    obtain ⟨s1, hs1, hs'⟩ := Option.map_eq_some_iff.mp hs
    cases hs'
    obtain ⟨t', ht', hm⟩ := h.readerStep hrun hs1
    exact ⟨ρ, ρ', .reader i, t', rfl, (hstep _).trans (by simp only [ht', Option.map_some]), hm⟩
  | writeTimeout i =>
    have hin := h.readerIn i
    dsimp only at hs
    rw [h.reader i] at hs
    cases hr : t.reader i with
    | select q b =>
      rw [hr] at hin
      simp only [hr, ClientReader.rename, h.links.obj_eq hin] at hs
      obtain ⟨hfull, hs⟩ := Option.ite_none_right_eq_some.mp hs
      cases hs
      refine ⟨ρ, ρ', .writeTimeout i, _, rfl, (hstep _).trans ?_, h.refl.goReader .idle trivial⟩
      simp only [hr]
      exact if_pos hfull
    | idle | check | remove =>
      simp only [hr, ClientReader.rename] at hs
      cases hs
  | copyRead data er =>
    obtain ⟨c, hc, hs'⟩ := Option.map_eq_some_iff.mp hs
    cases hs'
    obtain ⟨hc', hm⟩ := h.copyRead hc
    exact ⟨ρ, ρ', .copyRead data er, _, rfl, (hstep _).trans (by simp only [hc', Option.map_some]), hm⟩
  | copy =>
    obtain ⟨⟨c, qs⟩, hc, hs'⟩ := Option.map_eq_some_iff.mp hs
    cases hs'
    obtain ⟨qt, hc', hm⟩ := h.copyStep hrun hc
    exact ⟨ρ, ρ', .copy, _, rfl, (hstep _).trans (by simp only [hc', Option.map_some]), hm⟩
  | copyTimeout =>
    obtain ⟨c, hc, hs'⟩ := Option.map_eq_some_iff.mp hs
    cases hs'
    obtain ⟨hc', hm⟩ := h.copyTimeout hc
    exact ⟨ρ, ρ', .copyTimeout, _, rfl, (hstep _).trans (by simp only [hc', Option.map_some]), hm⟩
  | tellClose ok =>
    obtain ⟨hdone, hs⟩ := Option.ite_none_right_eq_some.mp hs
    cases hs
    rw [h.copy, h.told] at hdone
    refine ⟨ρ, ρ', .tellClose ok, { t with told := true }, rfl, (hstep _).trans ?_, { h with told := rfl },
      h.queues.refl, h.links.refl⟩
    rw [h.copy]
    exact if_pos hdone
  | queueSend q j o =>
    obtain ⟨⟨qs, msg⟩, hsend, hs⟩ := Option.bind_eq_some_iff.mp hs
    obtain ⟨r, qt, rfl, hsend', hm⟩ := h.queueSend hrun hown hsend
    refine ⟨ρ, ρ', .queueSend r j o, { t with queues := qt }, rfl, (hstep _).trans ?_, ?_⟩
    · simp only [hsend', Option.bind_some, ← h.cancelled]
      cases msg with
      | none => cases hs; rfl
      | some m =>
        obtain ⟨hlive, hs⟩ := Option.ite_none_left_eq_some.mp hs
        cases hs
        exact if_neg hlive
    · cases msg with
      | none => cases hs; exact hm
      | some m =>
        obtain ⟨-, hs⟩ := Option.ite_none_left_eq_some.mp hs
        cases hs
        exact hm
  | linkSend q j o =>
    obtain ⟨ls, hsend, hs'⟩ := Option.map_eq_some_iff.mp hs
    cases hs'
    obtain ⟨r, lt, rfl, hsend', hm⟩ := h.linkSend hrun hown hsend
    exact ⟨ρ, ρ', .linkSend r j o, _, rfl, (hstep _).trans (by simp only [hsend', Option.map_some]), hm⟩
  | linkDone q j =>
    obtain ⟨hwait, hs⟩ := Option.ite_none_right_eq_some.mp hs
    obtain ⟨ls, hdone, hs'⟩ := Option.map_eq_some_iff.mp hs
    cases hs'
    obtain ⟨r, lt, rfl, hr, hdone', hm⟩ := h.linkDone hrun hwait hdone
    refine ⟨ρ, ρ', .linkDone r j, _, rfl, (hstep _).trans ?_, hm.goto (.remove .test) trivial⟩
    simp only [hr, if_true, hdone', Option.map_some]

end Steps

end Wssocks.Wss

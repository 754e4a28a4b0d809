import Wssocks.Pipe.Life
import Wssocks.Pipe.Ran

/-!
# The way of `Send` to its hand-off

`Send` ends with a hand-off on the unbuffered channel `done`, which only a call of `Wait` takes. Here a
goroutine is followed to this place: what lets it in, what it may do on its way, and that it can always
come there, because every operation on the way has an outcome that makes `Send` return.

Results:

* `Admits.step`: as long as no goroutine has entered `Send`, its entry test is passed.
* `Queues.exists_send`, `Links.exists_send`: a goroutine before its hand-off can take a step that brings
  it closer.
* `Queues.Unwaited.act`: where nobody calls `Wait`, no goroutine gets past its hand-off.
-/

namespace Wssocks.Pipe

open Wssocks.Lib

/-! ## Goroutines of one pipe -/

section Pcs

variable {K S : Type} {bad : Prop} {x x' : Mark} {pcs pcs' : List (SendPc K S)}

/-- `Send` has been waited for. -/
def SendPc.served : SendPc K S → Bool
  | .closeDone _ | .exit _ => true
  | _ => false

/-- How many steps `Send` needs at most to its hand-off, if each operation has the outcome that makes it
    return. -/
def SendPc.way : SendPc K S → ℕ
  | .entry | .pass [] => 5
  | .loop => 4
  | .pass (_ :: _) => 3
  | .read _ _ | .write _ _ _ => 2
  | .ret _ => 1
  | _ => 0

/-- A goroutine that has been waited for stays so. -/
theorem LifeStep.served (h : LifeStep bad x pcs x' pcs') (hlen : pcs'.length = pcs.length)
    (hs : ∀ pc ∈ pcs, pc.served = true) : ∀ pc ∈ pcs', pc.served = true := by
  -- every other step starts from a place that is not served
  have hno : ∀ {i : ℕ} {pc : SendPc K S}, pcs[i]? = some pc → pc.served = true := fun hi => hs _ (List.mem_of_getElem? hi)
  cases h with
  | same | close => exact hs
  | launch => simp at hlen
  | enter hi | reenter hi | refuse hi | start hi | ret hi | handoff hi => cases hno hi
  | @advance i pc pc' hi hr =>
    have hpc := hno hi
    cases pc with
    | closeDone | exit => cases hr
    | _ => cases hpc
  | closeDone hi =>
    intro pc hpc
    rcases List.mem_or_eq_of_mem_set hpc with h1 | rfl
    · exact hs pc h1
    · rfl

/-- As long as no goroutine has entered, the entry test is passed; so a goroutine was sent away only
    because of another one. -/
structure Admits (x : Mark) (pcs : List (SendPc K S)) : Prop where
  fresh : (∀ pc ∈ pcs, pc.entered = false) → ¬ (x.status = .send ∨ x.status = .done)
  refused : .refused ∈ pcs → ∃ pc ∈ pcs, pc.entered = true

theorem Admits.of_entered {pc : SendPc K S} (hpc : pc ∈ pcs) (he : pc.entered = true) : Admits x pcs := by
  refine ⟨fun h => ?_, fun _ => ⟨pc, hpc, he⟩⟩
  rw [h pc hpc] at he
  cases he

theorem Admits.launch (h : Admits x pcs) : Admits x (pcs ++ [.entry]) where
  fresh := fun h1 => h.fresh fun pc hpc => h1 pc (List.mem_append_left _ hpc)
  refused := by
    intro hm
    rcases List.mem_append.mp hm with h1 | h1
    · obtain ⟨pc, hpc, he⟩ := h.refused h1
      exact ⟨pc, List.mem_append_left _ hpc, he⟩
    · simp at h1

theorem Admits.nil : Admits ⟨.wait, false, false⟩ ([] : List (SendPc K S)) := ⟨fun _ => by simp, fun h => (by cases h)⟩

theorem Admits.step (h : Admits x pcs) (hs : LifeStep bad x pcs x' pcs') : Admits x' pcs' := by
  have hset : ∀ {i : ℕ} {pc pc' : SendPc K S}, pcs[i]? = some pc → pc' ∈ pcs.set i pc' := fun hi =>
    List.mem_set (List.getElem?_eq_some_iff.mp hi).1 _
  cases hs with
  | same => exact h
  | launch => exact h.launch
  | close => exact ⟨fun _ => by simp, h.refused⟩
  | enter hi | reenter hi | start hi | ret hi | handoff hi | closeDone hi => exact .of_entered (hset hi) rfl
  | advance hi _ hr' => exact .of_entered (hset hi) (SendPc.entered_of_running hr')
  | @refuse i hi hst =>
    -- the status was set by a goroutine that has entered, and this one stays
    obtain ⟨pc, hpc, he⟩ : ∃ pc ∈ pcs, pc.entered = true := by
      by_contra hno
      push Not at hno
      exact h.fresh (fun pc hpc => by simpa using hno pc hpc) hst
    obtain ⟨j, hj⟩ := List.mem_iff_getElem?.mp hpc
    have hij : i ≠ j := by
      rintro rfl
      rw [hi] at hj
      cases hj
      cases he
    exact .of_entered (List.mem_of_getElem? ((List.getElem?_set_ne hij).trans hj)) he

/-- The only goroutine of a pipe is not sent away. -/
theorem Admits.single {pc : SendPc K S} (h : Admits x [pc]) : pc ≠ .refused := by
  rintro rfl
  obtain ⟨pc, hpc, he⟩ := h.refused List.mem_cons_self
  cases List.mem_singleton.mp hpc
  cases he

end Pcs

/-- Every pipe of a hub admits its first goroutine. -/
theorem HubStep.admits {K S α : Type} [DecidableEq K] {bad : Prop} {mk : α → Mark} {g g' : Registry K α}
    {sends sends' : ℕ → List (SendPc K S)} (hs : HubStep bad mk g g' sends sends')
    (hu : ∀ r, g.next ≤ r → sends r = []) (h : ∀ r < g.next, Admits (mk (g.obj r)) (sends r)) :
    ∀ r < g'.next, Admits (mk (g'.obj r)) (sends' r) := by
  intro r hr
  by_cases hlt : r < g.next
  · exact (h r hlt).step (hs.old r hlt)
  · obtain ⟨h1, h2⟩ := hs.new r (not_lt.mp hlt) hr
    rw [hu r (not_lt.mp hlt)] at h2
    rw [h1]
    rcases h2 with h2 | h2 <;> rw [h2]
    · exact Admits.nil
    · exact Admits.nil.launch

/-! ## Queues -/

section Queues

variable {KSUID V : Type} [DecidableEq KSUID] {s s' : Queues KSUID V} {q i : ℕ} {pc : QueueSend KSUID V}

/-- A goroutine of `queue.Send` that is before its hand-off, and not before the call of a missing writer, can
    take a step towards it that writes nothing. -/
theorem Queues.exists_send (hi : (s.sends q)[i]? = some pc) (hsort : (s.hub.obj q).sorted ≠ [])
    (hentry : pc = .entry → ¬ ((s.hub.obj q).status = .send ∨ (s.hub.obj q).status = .done))
    (hwr : ∀ b rest, pc ≠ .write none b rest) (hway : 0 < pc.way) :
    ∃ o s' pc', s.send q i o = some (s', none) ∧ s'.sends = Function.update s.sends q ((s.sends q).set i pc') ∧
      pc'.way < pc.way ∧ ∀ b rest, pc' ≠ .write none b rest := by
  cases pc with
  | entry => exact ⟨.ok, _, .loop, (SendStep.enter hi (hentry rfl)).send, rfl, by simp [SendPc.way], by simp⟩
  | loop =>
    by_cases hst : (s.hub.obj q).status = .close
    · exact ⟨.ok, _, _, (SendStep.closed hi hst).send, rfl, by simp [SendPc.way], by simp⟩
    · refine ⟨.ok, _, _, (SendStep.round hi hst).send, rfl, ?_, by simp⟩
      cases hs : (s.hub.obj q).sorted with
      | nil => exact absurd hs hsort
      | cons => simp [SendPc.way]
  | pass rest =>
    cases rest with
    | nil => exact ⟨.ok, _, .loop, (SendStep.again hi).send, rfl, by simp [SendPc.way], by simp⟩
    | cons id rest => exact ⟨.ok, _, _, (SendStep.next hi).send, rfl, by simp [SendPc.way], by simp⟩
  | read w rest => exact ⟨.timeout, _, _, (SendStep.timeout hi).send, rfl, by simp [SendPc.way], by simp⟩
  | write w b rest =>
    cases w with
    | none => exact absurd rfl (hwr b rest)
    | some w => exact ⟨.fail 0, _, _, (SendStep.fail hi).send, rfl, by simp [SendPc.way], by simp⟩
  | ret e => exact ⟨.ok, _, _, (SendStep.ret hi).send, rfl, by simp [SendPc.way], by simp⟩
  | refused | handoff | closeDone | exit => cases hway

/-- Nobody has called `Wait`: no goroutine is past its hand-off, and only the call of a missing writer can
    have panicked. -/
structure Queues.Unwaited (s : Queues KSUID V) : Prop where
  unserved : ∀ q, ∀ pc ∈ s.sends q, pc.served = false
  done : ∀ q, (s.hub.obj q).done = false
  crashed : s.crashed = true → ∃ q b rest, .write none b rest ∈ s.sends q

theorem Queues.Unwaited.init [Inhabited KSUID] : (Queues.init : Queues KSUID V).Unwaited :=
  ⟨fun _ _ h => (by cases h), fun _ => rfl, fun h => (by cases h)⟩

theorem Queues.Unwaited.of_hub {h' : QueueHub KSUID V} (h : s.Unwaited) (hc : s.crashed = false)
    (hd : ∀ q, (h'.obj q).done = false) (o : Option ℕ) : (launch { s with hub := h' } o).Unwaited where
  unserved := by
    intro q pc hpc
    rw [Queues.sends_launch] at hpc
    split_ifs at hpc
    · rcases List.mem_append.mp hpc with h1 | h1
      · exact h.unserved q pc h1
      · cases List.mem_singleton.mp h1; rfl
    · exact h.unserved q pc hpc
  done := by rw [Queues.hub_launch]; exact hd
  crashed := by
    intro h1
    rw [Queues.crashed_launch] at h1
    exact absurd h1 (by simp [hc])

/-- A goroutine that is before its hand-off moves on, and `done` stays open. -/
theorem Queues.Unwaited.goto {u : Queue KSUID V → Queue KSUID V} (h : s.Unwaited) (hc : s.crashed = false)
    (hpc : pc.served = false) (hu : (u (s.hub.obj q)).done = (s.hub.obj q).done) :
    ((s.modify q u).goto q i pc).Unwaited where
  unserved := by
    intro r pc' hm
    replace hm : pc' ∈ Function.update s.sends q ((s.sends q).set i pc) r := hm
    by_cases hr : r = q
    · subst hr
      rw [Function.update_self] at hm
      rcases List.mem_or_eq_of_mem_set hm with h1 | rfl
      · exact h.unserved r pc' h1
      · exact hpc
    · rw [Function.update_of_ne hr] at hm
      exact h.unserved r pc' hm
  done := by
    intro r
    show ((s.hub.modify q u).obj r).done = false
    rw [Registry.obj_modify]
    split_ifs
    · rw [hu, h.done]
    · exact h.done r
  crashed := fun h1 => absurd (show s.crashed = true from h1) (by simp [hc])

theorem Queues.Unwaited.send {o : Outcome} {msg : Option (V × Buffer)} (h : s.Unwaited) (hc : s.crashed = false)
    (hs : s.send q i o = some (s', msg)) : s'.Unwaited := by
  have hgoto : ∀ {pc : QueueSend KSUID V}, pc.served = false → (s.goto q i pc).Unwaited := fun hpc => by
    simpa [Queues.modify] using h.goto (i := i) (u := fun x => x) hc hpc rfl
  cases Queues.sendStep_of_send hs with
  | refuse | closed | round | again | next | timeout | fail => exact hgoto rfl
  | enter | read | ret => exact h.goto hc rfl rfl
  | write => refine hgoto ?_; split_ifs <;> rfl
  | noWriter hi => exact ⟨h.unserved, h.done, fun _ => ⟨q, _, _, List.mem_of_getElem? hi⟩⟩
  | panic _ hd => rw [h.done q] at hd; cases hd
  | closeDone hi => cases h.unserved q _ (List.mem_of_getElem? hi)

theorem Queues.Unwaited.act {a : QueueAct KSUID V} (h : s.Unwaited) (hs : s.act a = some s')
    (ha : ∀ q i, a ≠ .wait q i) : s'.Unwaited := by
  unfold Queues.act at hs
  split_ifs at hs with hcr
  have hc : s.crashed = false := by simpa using hcr
  have hmodify : ∀ {q} {u : Queue KSUID V → Queue KSUID V}, (u (s.hub.obj q)).done = (s.hub.obj q).done →
      (s.modify q u).Unwaited := fun {q} u hu => by
    refine h.of_hub hc (fun r => ?_) none
    rw [Registry.obj_modify]
    split_ifs
    · rw [hu, h.done]
    · exact h.done r
  cases a with
  | add m id w =>
    cases hs
    refine h.of_hub hc (fun r => ?_) _
    rw [QueueHub.obj_add]
    split_ifs <;> first | rfl | exact h.done r
  | setSort m sort =>
    cases hs
    refine h.of_hub hc (fun r => ?_) none
    cases hm : s.hub.ref? m with
    | some a =>
      rw [QueueHub.setSort_eq hm, Registry.obj_modify]
      split_ifs
      · exact h.done a
      · exact h.done r
    | none =>
      simp only [QueueHub.setSort, hm, Registry.obj_create]
      split_ifs
      · rfl
      · exact h.done r
  | trySend m => cases hs; exact h.of_hub hc h.done _
  | remove m =>
    cases hs
    refine h.of_hub hc (fun r => ?_) none
    rw [QueueHub.obj_remove]
    split_ifs
    · unfold Queue.close; split_ifs <;> exact h.done r
    · exact h.done r
  | launch q =>
    simp only at hs
    split_ifs at hs
    cases hs
    exact h.of_hub hc h.done (some q)
  | sort q ids => cases hs; exact hmodify rfl
  | send q i o =>
    simp only [Option.map_eq_some_iff] at hs
    obtain ⟨⟨s1, msg⟩, h1, rfl⟩ := hs
    exact h.send hc h1
  | wait q i => exact absurd rfl (ha q i)
  | write q b =>
    simp only [Option.map_eq_some_iff] at hs
    obtain ⟨⟨s1, ok⟩, h1, rfl⟩ := hs
    rcases Queues.push_cases h1 with ⟨-, -, ch, -, -, rfl⟩ | ⟨-, -, rfl⟩
    · exact hmodify rfl
    · exact h

/-- The hub keeps its queues with their orders, and no goroutine is launched. -/
structure Queues.Quiet (s s' : Queues KSUID V) : Prop where
  next : s'.hub.next = s.hub.next
  length : ∀ r, (s'.sends r).length = (s.sends r).length
  sorted : ∀ r, (s'.hub.obj r).sorted = (s.hub.obj r).sorted

theorem Queues.Quiet.refl : Queues.Quiet s s := ⟨rfl, fun _ => rfl, fun _ => rfl⟩

theorem Queues.Quiet.ran (h : Queues.Ran s s') : Queues.Quiet s s' := by
  obtain ⟨q, u, hu, -, -, -, hsort⟩ := h.touched
  refine ⟨by rw [hu]; rfl, h.length_sends, fun r => ?_⟩
  rw [hu, Registry.obj_modify]
  split_ifs with hr
  · rw [hr, hsort]
  · rfl

theorem Queues.Quiet.remove {m : KSUID} : Queues.Quiet s (s.remove m) := by
  refine ⟨QueueHub.next_remove, fun _ => rfl, fun r => ?_⟩
  show ((QueueHub.remove s.hub m).obj r).sorted = _
  rw [QueueHub.obj_remove]
  split_ifs
  · exact Queue.sorted_close _
  · rfl

/-- `Add` to queues without an order launches nothing. -/
theorem Queues.sends_add_unsorted {m id : KSUID} {w : V} (h : ∀ r, (s.hub.obj r).sorted = []) :
    (s.add m id w).sends = s.sends ∧ ∀ r, ((s.add m id w).hub.obj r).sorted = [] := by
  have hobj : ∀ r, ((QueueHub.add s.hub m id w).obj r).sorted = [] := by
    intro r
    rw [QueueHub.obj_add]
    split_ifs <;> first | rfl | exact h r
  refine ⟨?_, by rw [Queues.hub_add]; exact hobj⟩
  have hno : QueueHub.trySend (QueueHub.add s.hub m id w) m = none := by
    have hm : (QueueHub.add s.hub m id w).ref? m = some (s.hub.masterRef m) := by rw [QueueHub.ref?_add, if_pos rfl]
    rw [QueueHub.trySend_eq hm, hobj, if_neg]
    rw [QueueHub.obj_add, if_pos rfl]
    simp [AList.entries_insert]
  show (launch _ (QueueHub.trySend (QueueHub.add s.hub m id w) m)).sends = _
  rw [hno]
  rfl

end Queues

/-! ## Links -/

section Links

variable {KSUID : Type} [DecidableEq KSUID] {s s' : Links KSUID} {q i : ℕ} {pc : LinkSend KSUID}

/-- The action may launch a goroutine. -/
def LinkAct.launches : LinkAct KSUID → Bool
  | .add _ _ | .trySend _ _ | .launch _ => true
  | _ => false

/-- The action may give a link an order. -/
def LinkAct.sorts : LinkAct KSUID → Bool
  | .setSort _ _ | .sort _ _ => true
  | _ => false

theorem Links.length_sends_act {a : LinkAct KSUID} (h : s.act a = some s')
    (ha : a.launches = false) (r : ℕ) : (s'.sends r).length = (s.sends r).length := by
  by_cases hr : a.runs = true
  · exact (Links.Ran.of_act h hr).length_sends r
  · unfold Links.act at h
    split_ifs at h
    cases a with
    | add | trySend | launch => cases ha
    | send | wait | write | closeConn => exact absurd rfl hr
    | setSort | removeAll | sort | conn => cases h; rfl

theorem Links.sorted_act {a : LinkAct KSUID} (h : s.act a = some s') (ha : a.sorts = false)
    {r : ℕ} (hr : r < s.hub.next) : (s'.hub.obj r).sorted = (s.hub.obj r).sorted := by
  by_cases hrun : a.runs = true
  · exact (Links.Ran.of_act h hrun).sorted r
  · unfold Links.act at h
    split_ifs at h
    cases a with
    | setSort | sort => cases ha
    | send | wait | write | closeConn => exact absurd rfl hrun
    | add => cases h; exact Links.sorted_add hr
    | trySend => cases h; exact Links.sorted_trySend
    | removeAll => cases h; exact Links.sorted_removeAll
    | launch a =>
      simp only at h
      split_ifs at h
      cases h
      rfl
    | conn a c =>
      cases h
      rw [Links.hub_modify, Registry.obj_modify]
      split_ifs with h1
      · rw [h1]
      · rfl

/-- The channel `done` of a link is closed by a goroutine that has returned. -/
theorem Links.doneOk_act {a : LinkAct KSUID} (hd : s.DoneOk) (h : s.act a = some s') :
    s'.DoneOk := by
  unfold Links.act at h
  split_ifs at h
  cases a with
  | add id m => cases h; exact hd.add
  | setSort m sort =>
    cases h
    cases hm : s.hub.ref? m with
    | some q => rw [Links.setSort_eq hm]; exact hd.modify rfl
    | none =>
      refine hd.mono (fun r hr => ?_) fun _ _ h1 => h1
      simp only [Links.setSort, LinkHub.setSort, hm, Registry.obj_create] at hr
      split_ifs at hr
      · cases hr
      · exact hr
  | trySend m c =>
    cases h
    cases hm : s.hub.ref? m with
    | some q => rw [Links.trySend_eq hm]; exact (hd.modify rfl).launch _
    | none => rw [Links.trySend, LinkHub.trySend_missing hm]; exact hd
  | removeAll m => cases h; exact hd.removeAll
  | launch q =>
    simp only at h
    split_ifs at h
    cases h
    exact hd.launch _
  | sort q ids => cases h; exact hd.modify rfl
  | conn q c => cases h; exact hd.modify rfl
  | send q i o => exact hd.send h
  | wait q i => exact hd.handoff h
  | write q b =>
    simp only [Option.map_eq_some_iff] at h
    obtain ⟨⟨s1, ok⟩, h1, rfl⟩ := h
    rcases Links.push_cases h1 with ⟨-, -, ch, -, -, rfl⟩ | ⟨-, -, rfl⟩
    · exact hd.modify rfl
    · exact hd
  | closeConn c => cases h; exact hd

/-- A goroutine of `link.Send` that is before its hand-off can take a step towards it. -/
theorem Links.exists_send (hi : (s.sends q)[i]? = some pc) (hsort : (s.hub.obj q).sorted ≠ [])
    (hentry : pc = .entry → ¬ ((s.hub.obj q).status = .send ∨ (s.hub.obj q).status = .done)) (hway : 0 < pc.way) :
    ∃ o s' pc', s.send q i o = some s' ∧ s'.sends = Function.update s.sends q ((s.sends q).set i pc') ∧
      pc'.way < pc.way := by
  cases pc with
  | entry => exact ⟨.ok, _, .loop, (SendStep.enter hi (hentry rfl)).send, rfl, by simp [SendPc.way]⟩
  | loop =>
    by_cases hst : (s.hub.obj q).status = .close
    · exact ⟨.ok, _, _, (SendStep.closed hi hst).send, rfl, by simp [SendPc.way]⟩
    · refine ⟨.ok, _, _, (SendStep.round hi hst).send, rfl, ?_⟩
      cases hs : (s.hub.obj q).sorted with
      | nil => exact absurd hs hsort
      | cons => simp [SendPc.way]
  | pass rest =>
    cases rest with
    | nil => exact ⟨.ok, _, .loop, (SendStep.again hi).send, rfl, by simp [SendPc.way]⟩
    | cons id rest =>
      cases hr : s.hub.ref? id with
      | some r => exact ⟨.ok, _, _, (SendStep.next hi hr).send, rfl, by simp [SendPc.way]⟩
      | none => exact ⟨.ok, _, _, (SendStep.missing hi hr).send, rfl, by simp [SendPc.way]⟩
  | read r rest => exact ⟨.timeout, _, _, (SendStep.timeout hi).send, rfl, by simp [SendPc.way]⟩
  | write r b rest =>
    cases hc : (s.hub.obj q).conn with
    | none => exact ⟨.ok, _, _, (SendStep.noConn hi hc).send, rfl, by simp [SendPc.way]⟩
    | some c =>
      have hfail : ∃ sock, safeWrite (s.socks c) b (.fail 0) = some (sock, false) := by
        simp only [safeWrite]
        split_ifs <;> exact ⟨_, rfl⟩
      obtain ⟨sock, hx⟩ := hfail
      exact ⟨.fail 0, _, _, (SendStep.write hi hc hx).send, rfl, by simp [SendPc.way]⟩
  | ret e => exact ⟨.ok, _, _, (SendStep.ret hi).send, rfl, by simp [SendPc.way]⟩
  | refused | handoff | closeDone | exit => cases hway

/-- Without `Wait` no goroutine gets past its hand-off. -/
theorem Links.unserved_act {a : LinkAct KSUID} (h : s.act a = some s') (ha : ∀ q i, a ≠ .wait q i)
    (hl : a.launches = false) (hs : ∀ pc ∈ s.sends q, pc.served = false) : ∀ pc ∈ s'.sends q, pc.served = false := by
  unfold Links.act at h
  split_ifs at h
  cases a with
  | add | trySend | launch => cases hl
  | wait q i => exact absurd rfl (ha q i)
  | setSort | removeAll | sort | conn | closeConn => cases h; exact hs
  | write r b =>
    simp only [Option.map_eq_some_iff] at h
    obtain ⟨⟨s1, ok⟩, h1, rfl⟩ := h
    rcases Links.push_cases h1 with ⟨-, -, ch, -, -, rfl⟩ | ⟨-, -, rfl⟩ <;> exact hs
  | send r i o =>
    intro pc hpc
    by_cases hr : q = r
    · subst hr
      have hset : ∀ {pc' : LinkSend KSUID}, pc ∈ Function.update s.sends q ((s.sends q).set i pc') q →
          pc'.served = false → pc.served = false := by
        intro pc' h1 h2
        rw [Function.update_self] at h1
        rcases List.mem_or_eq_of_mem_set h1 with h3 | rfl
        · exact hs pc h3
        · exact h2
      cases Links.sendStep_of_send h with
      | refuse | enter | closed | round | again | next | missing | read | timeout | noConn | ret =>
        exact hset hpc rfl
      | write => refine hset hpc ?_; split_ifs <;> rfl
      | panic => exact hs pc hpc
      | closeDone hi => cases hs _ (List.mem_of_getElem? hi)
    · obtain ⟨pc', h1⟩ := (Links.send_moved h).sends
      rw [h1, Function.update_of_ne hr] at hpc
      exact hs pc hpc

/-- Only goroutines that use `done` a second time panic. -/
theorem Links.crashed_act {a : LinkAct KSUID} (h : s.act a = some s') (hd : s.DoneOk)
    (hone : ∀ q, (s.sends q).length ≤ 1) : s'.crashed = false := by
  unfold Links.act at h
  split_ifs at h with hcr
  have hc : s.crashed = false := by simpa using hcr
  cases a with
  | setSort | removeAll | sort | conn | closeConn => cases h; exact hc
  | add id m => cases h; exact Links.crashed_launch.trans hc
  | trySend m c => cases h; exact Links.crashed_launch.trans hc
  | launch q =>
    simp only at h
    split_ifs at h
    cases h
    exact hc
  | wait q i =>
    simp only [Links.handoff] at h
    split at h
    · split_ifs at h
      cases h
      exact hc
    · cases h
  | write r b =>
    simp only [Option.map_eq_some_iff] at h
    obtain ⟨⟨s1, ok⟩, h1, rfl⟩ := h
    rcases Links.push_cases h1 with ⟨-, -, ch, -, -, rfl⟩ | ⟨-, -, rfl⟩ <;> exact hc
  | send q i o =>
    cases Links.sendStep_of_send h with
    | panic hi hdone =>
      -- the goroutine that closed `done` has returned, and it is the only one
      obtain ⟨e, he⟩ := hd q hdone
      have hmem : ∀ {pc}, (s.sends q)[i]? = some pc → pc = .exit e := by
        intro pc hpc
        obtain ⟨x, hx⟩ : ∃ x, s.sends q = [x] :=
          List.length_eq_one_iff.mp (le_antisymm (hone q) (List.length_pos_of_mem he))
        have hpc' := List.mem_of_getElem? hpc
        rw [hx, List.mem_singleton] at he hpc'
        rw [hpc', he]
      rcases hi with hi | hi <;> cases hmem hi
    | _ => exact hc

/-- No link has a connection. -/
def Links.Unwired (s : Links KSUID) : Prop := ∀ r, (s.hub.obj r).conn = none

theorem LinkHub.conn_ensured {h : LinkHub KSUID} {id m : KSUID} (hc : ∀ r, (h.obj r).conn = none) (r : ℕ) :
    ((LinkHub.ensured h id m).obj r).conn = none := by
  unfold LinkHub.ensured
  rw [Registry.obj_ensure, Registry.obj_ensure]
  split_ifs
  · rfl
  · rfl
  · exact hc r

/-- `Add` on links without connections launches nothing. -/
theorem Links.Unwired.sends_add {id m : KSUID} (hc : s.Unwired) :
    (s.add id m).sends = s.sends := by
  have hnone : (LinkHub.add s.hub id m).2 = none := by
    rw [LinkHub.add_launch, LinkHub.conn_ensured hc]
    simp
  rw [Links.add, hnone]
  rfl

theorem Links.Unwired.act {a : LinkAct KSUID} (hc : s.Unwired) (h : s.act a = some s')
    (ha : ∀ q c, a ≠ .conn q c) (ht : ∀ m c, a ≠ .trySend m c) : s'.Unwired := by
  intro r
  by_cases hr : a.runs = true
  · obtain ⟨q, u, hu, -, -, -, hconn, -⟩ := (Links.Ran.of_act h hr).touched
    rw [hu, Registry.obj_modify]
    split_ifs
    · rw [hconn]; exact hc q
    · exact hc r
  · unfold Links.act at h
    split_ifs at h
    cases a with
    | send | wait | write | closeConn => exact absurd rfl hr
    | conn q c => exact absurd rfl (ha q c)
    | trySend m c => exact absurd rfl (ht m c)
    | add id m =>
      cases h
      rw [Links.add, Links.hub_launch]
      show ((LinkHub.add s.hub id m).1.obj r).conn = none
      rw [LinkHub.add_hub, Registry.obj_modify]
      split_ifs
      · exact LinkHub.conn_ensured hc _
      · exact LinkHub.conn_ensured hc r
    | setSort m sort =>
      cases h
      cases hm : s.hub.ref? m with
      | some q =>
        rw [Links.setSort_eq hm, Links.hub_modify, Registry.obj_modify]
        split_ifs
        · exact hc q
        · exact hc r
      | none =>
        simp only [Links.setSort, LinkHub.setSort, hm, Registry.obj_create]
        split_ifs
        · rfl
        · exact hc r
    | removeAll m =>
      cases h
      cases hm : s.hub.ref? m with
      | none => rw [Links.removeAll, LinkHub.removeAll_missing hm]; exact hc r
      | some q =>
        rw [Links.removeAll, LinkHub.obj_removeAll hm]
        split_ifs
        · rw [Link.conn_close]; exact hc r
        · exact hc r
    | launch q =>
      simp only at h
      split_ifs at h
      cases h
      exact hc r
    | sort q ids =>
      cases h
      rw [Links.hub_modify, Registry.obj_modify]
      split_ifs
      · exact hc q
      · exact hc r

end Links

end Wssocks.Pipe

import Wssocks.Lib.Lts
import Wssocks.Pipe.Act
import Wssocks.Pipe.Lanes
import Wssocks.Pipe.QueueLemmas

/-!
# The life cycle of a pipe

`status` is written by the start of `Send`, by its deferred function and by `close`, each
of which overwrites the others, and a goroutine launched with `go q.Send(…)` may execute
its entry test at any later time.

Results:

* `closed_pipe_restarts`: a goroutine that executes its entry test after `close` starts a
  body: a second one beside the first.
* `life_cycle`: if the entry test is only executed on pipes whose status is not `close`, every
  pipe has at most one body, `done` is used once, and a body on a closed pipe ends with its
  pass.
-/

namespace Wssocks.Pipe

open Wssocks.Lib

/-! ## One pipe -/

section Life

variable {K S : Type}

/-- The body of `Send` has not executed its deferred function. -/
def SendPc.running : SendPc K S → Bool
  | .loop | .pass _ | .read _ _ | .write _ _ _ | .ret _ => true
  | _ => false

/-- How many steps `Send` can take in the current pass. -/
def SendPc.rank : SendPc K S → ℕ
  | .write _ _ rest => 3 * rest.length + 3
  | .read _ rest => 3 * rest.length + 4
  | .pass rest => 3 * rest.length + 2
  | .loop => 1
  | _ => 0

/-- The fields of a pipe that its life cycle is about: `closed` tells that `close` has
    closed the buffer, `done` that `Send` has closed the channel `done`. -/
structure Mark where
  status : Status
  closed : Bool
  done : Bool

/-- The life of a pipe with the goroutines `pcs` launched on it. -/
structure Life (x : Mark) (pcs : List (SendPc K S)) : Prop where
  once : pcs.countP SendPc.entered ≤ 1
  fresh : x.status = .wait → pcs.countP SendPc.entered = 0
  running : ∀ pc ∈ pcs, pc.running = true → x.status = .send ∨ x.status = .close
  ended : ∀ pc ∈ pcs, pc.entered = true → pc.running = false → x.status = .done ∨ x.status = .close
  closed : x.closed = true → x.status = .close ∨ x.status = .done
  unclosed : x.status = .close → x.closed = true
  exited : x.done = true → ∃ e, .exit e ∈ pcs

variable {x : Mark} {pcs : List (SendPc K S)} {pc pc' : SendPc K S} {i : ℕ}

theorem Life.nil : Life ⟨.wait, false, false⟩ ([] : List (SendPc K S)) :=
  ⟨by simp, by simp, by simp, by simp, nofun, nofun, nofun⟩

theorem Life.launch (h : Life x pcs) : Life x (pcs ++ [.entry]) where
  once := by simpa [SendPc.entered] using h.once
  fresh := by simpa [SendPc.entered] using h.fresh
  running := by
    intro pc hpc hr
    rcases List.mem_append.mp hpc with h1 | h1
    · exact h.running pc h1 hr
    · cases List.mem_singleton.mp h1; cases hr
  ended := by
    intro pc hpc he hr
    rcases List.mem_append.mp hpc with h1 | h1
    · exact h.ended pc h1 he hr
    · cases List.mem_singleton.mp h1; cases he
  closed := h.closed
  unclosed := h.unclosed
  exited := fun hd => by
    obtain ⟨e, he⟩ := h.exited hd
    exact ⟨e, List.mem_append_left _ he⟩

/-- `close`. -/
theorem Life.close (h : Life x pcs) : Life ⟨.close, true, x.done⟩ pcs :=
  ⟨h.once, nofun, fun _ _ _ => .inr rfl, fun _ _ _ _ => .inr rfl, fun _ => .inl rfl, fun _ => rfl, h.exited⟩

/-- The number of bodies when one goroutine moves. -/
theorem countP_set_entered (hi : pcs[i]? = some pc) (he : pc'.entered = pc.entered) :
    (pcs.set i pc').countP SendPc.entered = pcs.countP SendPc.entered := by
  obtain ⟨hlt, rfl⟩ := List.getElem?_eq_some_iff.mp hi
  rw [List.countP_set hlt, he]
  have hle : (if pcs[i].entered = true then 1 else 0) ≤ pcs.countP SendPc.entered := by
    split_ifs with h1
    · exact List.countP_pos_iff.mpr ⟨_, List.getElem_mem hlt, h1⟩
    · exact Nat.zero_le _
  omega

/-- The exits stay when another goroutine moves. -/
theorem exited_set (hd : ∃ e, .exit e ∈ pcs) (hi : pcs[i]? = some pc) (hx : ∀ e, pc ≠ .exit e) :
    ∃ e, .exit e ∈ pcs.set i pc' := by
  obtain ⟨e, he⟩ := hd
  obtain ⟨j, hj⟩ := List.mem_iff_getElem?.mp he
  refine ⟨e, List.mem_iff_getElem?.mpr ⟨j, ?_⟩⟩
  rw [List.getElem?_set_ne, hj]
  rintro rfl
  rw [hi] at hj
  exact hx e (Option.some.inj hj)

/-- A goroutine that is not at its entry moves on, and `status` stays. -/
theorem Life.move (h : Life x pcs) (hi : pcs[i]? = some pc) (he : pc'.entered = pc.entered)
    (hr : pc'.running = pc.running) (hx : ∀ e, pc ≠ .exit e) : Life x (pcs.set i pc') := by
  have hmem : pc ∈ pcs := List.mem_of_getElem? hi
  have hset : ∀ {z}, z ∈ pcs.set i pc' → z ∈ pcs ∨ z = pc' := List.mem_or_eq_of_mem_set
  refine ⟨?_, ?_, fun z hz hz' => ?_, fun z hz hz1 hz2 => ?_, h.closed, h.unclosed,
    fun hd => exited_set (h.exited hd) hi hx⟩
  · rw [countP_set_entered hi he]; exact h.once
  · rw [countP_set_entered hi he]; exact h.fresh
  · rcases hset hz with h1 | rfl
    · exact h.running z h1 hz'
    · exact h.running pc hmem (hr ▸ hz')
  · rcases hset hz with h1 | rfl
    · exact h.ended z h1 hz1 hz2
    · exact h.ended pc hmem (he ▸ hz1) (hr ▸ hz2)

/-- The entry test passes. -/
theorem Life.enter (h : Life x pcs) (hi : pcs[i]? = some .entry)
    (hs : ¬ (x.status = .send ∨ x.status = .done)) (hc : x.status ≠ .close) :
    Life { x with status := .send } (pcs.set i .loop) := by
  have hw : x.status = .wait := by
    cases hx : x.status <;> simp_all
  have hnone : ∀ z ∈ pcs, z.entered = false := by
    intro z hz
    by_contra h1
    have h2 := List.countP_pos_iff.mpr ⟨z, hz, by simpa using h1⟩
    rw [h.fresh hw] at h2
    omega
  obtain ⟨hlt, hi'⟩ := List.getElem?_eq_some_iff.mp hi
  refine ⟨?_, nofun, fun _ _ _ => .inl rfl, fun z hz hz1 hz2 => ?_, fun h1 => ?_, nofun,
    fun hd => exited_set (h.exited hd) hi (by simp)⟩
  · rw [List.countP_set hlt, hi', h.fresh hw]; simp [SendPc.entered]
  · rcases List.mem_or_eq_of_mem_set hz with h1 | rfl
    · rw [hnone z h1] at hz1; cases hz1
    · cases hz2
  · have := h.closed h1
    rw [hw] at this
    simp at this

/-- At most one goroutine has entered. -/
theorem Life.unique (h : Life x pcs) {j : ℕ} {z : SendPc K S} (hi : pcs[i]? = some pc)
    (he : pc.entered = true) (hj : pcs[j]? = some z) (hz : z.entered = true) : i = j := by
  obtain ⟨hlt, hi'⟩ := List.getElem?_eq_some_iff.mp hi
  by_contra hij
  have h1 : (pcs.set i .entry)[j]? = some z := by rw [List.getElem?_set_ne hij, hj]
  have h2 : 0 < (pcs.set i .entry).countP SendPc.entered :=
    List.countP_pos_iff.mpr ⟨z, List.mem_of_getElem? h1, hz⟩
  have h3 : (pcs.set i .entry).countP SendPc.entered = pcs.countP SendPc.entered - 1 := by
    rw [List.countP_set hlt, hi', he]; simp [SendPc.entered]
  have := h.once
  omega

/-- The deferred function sets `status`. -/
theorem Life.ret {e : Option SendErr} (h : Life x pcs) (hi : pcs[i]? = some (.ret e)) :
    Life { x with status := .done } (pcs.set i (.handoff e)) := by
  have hother : ∀ z ∈ pcs.set i (.handoff e), z.running = false := by
    intro z hz
    obtain ⟨j, hj⟩ := List.mem_iff_getElem?.mp hz
    by_cases hij : i = j
    · subst hij
      rw [List.getElem?_set_self (List.getElem?_eq_some_iff.mp hi).1] at hj
      cases hj
      rfl
    · rw [List.getElem?_set_ne hij] at hj
      by_contra h1
      refine hij (h.unique hi rfl hj ?_)
      cases z <;> first | rfl | simp [SendPc.running] at h1
  refine ⟨?_, nofun, fun z hz h1 => ?_, fun _ _ _ _ => .inl rfl, fun _ => .inr rfl, nofun,
    fun hd => exited_set (h.exited hd) hi (by simp)⟩
  · have hc := countP_set_entered hi (show (SendPc.handoff e).entered = _ from rfl)
    exact hc ▸ h.once
  · rw [hother z hz] at h1; cases h1

/-- `close(q.done)`. -/
theorem Life.closeDone {e : Option SendErr} (h : Life x pcs) (hi : pcs[i]? = some (.closeDone e)) :
    Life { x with done := true } (pcs.set i (.exit e)) := by
  have hm : Life x (pcs.set i (.exit e)) := h.move hi rfl rfl (by simp)
  refine { hm with exited := fun _ => ⟨e, ?_⟩ }
  exact List.mem_of_getElem? (List.getElem?_set_self (List.getElem?_eq_some_iff.mp hi).1)

/-- Once `done` is closed nobody is at it. -/
theorem Life.done_once (h : Life x pcs) (hd : x.done = true) (hpc : pc ∈ pcs) :
    (∀ e, pc ≠ .handoff e) ∧ ∀ e, pc ≠ .closeDone e := by
  obtain ⟨e', he'⟩ := h.exited hd
  obtain ⟨i, hi⟩ := List.mem_iff_getElem?.mp he'
  obtain ⟨j, hj⟩ := List.mem_iff_getElem?.mp hpc
  constructor
  · rintro e rfl
    have hij := h.unique hi rfl hj rfl
    subst hij
    rw [hi] at hj
    cases hj
  · rintro e rfl
    have hij := h.unique hi rfl hj rfl
    subst hij
    rw [hi] at hj
    cases hj

/-! ## One step -/

/-- What a step of the program does to one pipe; a goroutine passes its entry test on a
    pipe with the status `close` only if `bad`. -/
inductive LifeStep (bad : Prop) (x : Mark) (pcs : List (SendPc K S)) : Mark → List (SendPc K S) → Prop
  | same : LifeStep bad x pcs x pcs
  | launch : LifeStep bad x pcs x (pcs ++ [.entry])
  | close : LifeStep bad x pcs ⟨.close, true, x.done⟩ pcs
  | enter {i : ℕ} (hi : pcs[i]? = some .entry) (hs : x.status = .wait) :
      LifeStep bad x pcs { x with status := .send } (pcs.set i .loop)
  | reenter {i : ℕ} (hi : pcs[i]? = some .entry) (hb : bad) :
      LifeStep bad x pcs { x with status := .send } (pcs.set i .loop)
  | refuse {i : ℕ} (hi : pcs[i]? = some .entry) (hs : x.status = .send ∨ x.status = .done) :
      LifeStep bad x pcs x (pcs.set i .refused)
  | start {i : ℕ} {ids : List K} (hi : pcs[i]? = some .loop) (hs : x.status ≠ .close) :
      LifeStep bad x pcs x (pcs.set i (.pass ids))
  | advance {i : ℕ} {pc pc' : SendPc K S} (hi : pcs[i]? = some pc) (hr : pc.running = true)
      (hr' : pc'.running = true) (hlt : pc'.rank < pc.rank) : LifeStep bad x pcs x (pcs.set i pc')
  | ret {i : ℕ} {e : Option SendErr} (hi : pcs[i]? = some (.ret e)) :
      LifeStep bad x pcs { x with status := .done } (pcs.set i (.handoff e))
  | handoff {i : ℕ} {e : Option SendErr} (hi : pcs[i]? = some (.handoff e)) :
      LifeStep bad x pcs x (pcs.set i (.closeDone e))
  | closeDone {i : ℕ} {e : Option SendErr} (hi : pcs[i]? = some (.closeDone e)) :
      LifeStep bad x pcs { x with done := true } (pcs.set i (.exit e))

theorem SendPc.entered_of_running (h : pc.running = true) : pc.entered = true := by
  cases pc <;> first | rfl | cases h

variable {bad : Prop} {x' : Mark} {pcs' : List (SendPc K S)}

theorem Life.step (h : Life x pcs) (hs : LifeStep bad x pcs x' pcs') (hb : ¬ bad) : Life x' pcs' := by
  cases hs with
  | same => exact h
  | launch => exact h.launch
  | close => exact h.close
  | enter hi hs => exact h.enter hi (by simp [hs]) (by simp [hs])
  | reenter hi hbad => exact absurd hbad hb
  | refuse hi => exact h.move hi rfl rfl (by simp)
  | start hi hs => exact h.move hi rfl rfl (by simp)
  | @advance i pc pc' hi hr hr' hlt =>
    refine h.move hi ?_ (hr'.trans hr.symm) (by rintro e rfl; cases hr)
    rw [SendPc.entered_of_running hr, SendPc.entered_of_running hr']
  | ret hi => exact h.ret hi
  | handoff hi => exact h.move hi rfl rfl (by simp)
  | closeDone hi => exact h.closeDone hi

/-- What the life cycle promises of a pipe: one body at most, and `done`, once it is closed, is
    neither sent to nor closed again. -/
structure Lived (x : Mark) (pcs : List (SendPc K S)) : Prop where
  once : pcs.countP SendPc.entered ≤ 1
  done_once : x.done = true → ∀ pc ∈ pcs, (∀ e, pc ≠ .handoff e) ∧ ∀ e, pc ≠ .closeDone e

/-- What it promises of a step that takes the goroutines of a pipe from `pcs` to `pcs'`: on a
    closed pipe no body starts, and a body inside its loop comes closer to the end of its
    pass, where it returns. -/
structure Ends (x : Mark) (pcs pcs' : List (SendPc K S)) : Prop where
  starts : x.closed = true → pcs'.countP SendPc.entered = pcs.countP SendPc.entered
  returns : x.closed = true → ∀ (i : ℕ) (pc pc' : SendPc K S), pcs[i]? = some pc →
    pcs'[i]? = some pc' → 0 < pc.rank → pc' = pc ∨ pc'.rank < pc.rank

theorem Life.lived (h : Life x pcs) : Lived x pcs := ⟨h.once, fun hd _ hpc => h.done_once hd hpc⟩

/-- A goroutine other than the one that moved stays. -/
theorem Ends.of_set (hi : pcs[i]? = some pc)
    (he : x.closed = true → pc'.entered = pc.entered)
    (hr : x.closed = true → 0 < pc.rank → pc'.rank < pc.rank) : Ends x pcs (pcs.set i pc') where
  starts := fun hc => countP_set_entered hi (he hc)
  returns := by
    intro hc j z z' hz hz' hpos
    by_cases hij : i = j
    · subst hij
      rw [List.getElem?_set_self (List.getElem?_eq_some_iff.mp hi).1] at hz'
      rw [hi] at hz
      cases hz
      cases hz'
      exact .inr (hr hc hpos)
    · rw [List.getElem?_set_ne hij, hz] at hz'
      exact .inl (Option.some.inj hz').symm

theorem Life.ends (h : Life x pcs) (hs : LifeStep bad x pcs x' pcs') (hb : ¬ bad) : Ends x pcs pcs' := by
  have hsame : Ends x pcs pcs := ⟨fun _ => rfl, fun _ i pc pc' h1 h2 _ => .inl (by simpa [h1] using h2.symm)⟩
  cases hs with
  | same | close => exact hsame
  | launch =>
    refine ⟨fun _ => by simp [SendPc.entered], fun _ i pc pc' h1 h2 _ => .inl ?_⟩
    rw [List.getElem?_append_left (List.getElem?_eq_some_iff.mp h1).1, h1] at h2
    exact (Option.some.inj h2).symm
  | enter hi hs =>
    refine .of_set hi (fun hc => ?_) fun _ => nofun
    have := h.closed hc
    rw [hs] at this
    simp at this
  | reenter hi hbad => exact absurd hbad hb
  | refuse hi => exact .of_set hi (fun _ => rfl) fun _ => nofun
  | start hi hs =>
    refine .of_set hi (fun _ => rfl) fun hc => ?_
    -- On a closed pipe the status of a running body is `close`.
    rcases h.closed hc with h1 | h1
    · exact absurd h1 hs
    · rcases h.running _ (List.mem_of_getElem? hi) rfl with h2 | h2 <;> rw [h1] at h2 <;> cases h2
  | advance hi hr hr' hlt =>
    refine .of_set hi (fun _ => ?_) fun _ _ => hlt
    rw [SendPc.entered_of_running hr, SendPc.entered_of_running hr']
  | ret hi | handoff hi | closeDone hi => exact .of_set hi (fun _ => rfl) fun _ => nofun

/-- A goroutine that passes its entry test on a closed pipe breaks the promise. -/
theorem not_ends_of_reenter (hi : pcs[i]? = some .entry) (hc : x.closed = true)
    (hset : pcs' = pcs.set i .loop) : ¬ Ends x pcs pcs' := by
  intro h
  have h1 := h.starts hc
  obtain ⟨hlt, hi'⟩ := List.getElem?_eq_some_iff.mp hi
  rw [hset, List.countP_set hlt, hi'] at h1
  simp [SendPc.entered] at h1

end Life

/-! ## The pipes of a hub -/

section Hub

variable {K S α : Type} [DecidableEq K] {mk : α → Mark} {g g' : Registry K α}
  {sends sends' : ℕ → List (SendPc K S)} {bad : Prop} {q i : ℕ} {u : α → α} {pc : SendPc K S}

/-- Every pipe of a hub lives by `Life`; `mk` reads the fields of a pipe. -/
structure Alive (mk : α → Mark) (g : Registry K α) (sends : ℕ → List (SendPc K S)) : Prop where
  life : ∀ q < g.next, Life (mk (g.obj q)) (sends q)
  unborn : ∀ q, g.next ≤ q → sends q = []

/-- What a step of the program does to the pipes of a hub. -/
structure HubStep (bad : Prop) (mk : α → Mark) (g g' : Registry K α)
    (sends sends' : ℕ → List (SendPc K S)) : Prop where
  le : g.next ≤ g'.next
  old : ∀ q < g.next, LifeStep bad (mk (g.obj q)) (sends q) (mk (g'.obj q)) (sends' q)
  new : ∀ q, g.next ≤ q → q < g'.next →
    mk (g'.obj q) = ⟨.wait, false, false⟩ ∧ (sends' q = sends q ∨ sends' q = sends q ++ [.entry])
  unborn : ∀ q, g'.next ≤ q → sends' q = sends q

theorem Alive.step (h : Alive mk g sends) (hs : HubStep bad mk g g' sends sends') (hb : ¬ bad) :
    Alive mk g' sends' where
  life := by
    intro q hq
    by_cases hlt : q < g.next
    · exact (h.life q hlt).step (hs.old q hlt) hb
    · obtain ⟨h1, h2⟩ := hs.new q (not_lt.mp hlt) hq
      rw [h.unborn q (not_lt.mp hlt)] at h2
      rw [h1]
      rcases h2 with h2 | h2 <;> rw [h2]
      · exact Life.nil
      · exact Life.nil.launch
  unborn := fun q hq => by rw [hs.unborn q hq, h.unborn q (hs.le.trans hq)]

theorem Alive.lived (h : Alive mk g sends) (q : ℕ) : Lived (mk (g.obj q)) (sends q) := by
  by_cases hlt : q < g.next
  · exact (h.life q hlt).lived
  · rw [h.unborn q (not_lt.mp hlt)]
    exact ⟨by simp, by simp⟩

theorem Alive.ends (h : Alive mk g sends) (hs : HubStep bad mk g g' sends sends') (hb : ¬ bad) (q : ℕ) :
    Ends (mk (g.obj q)) (sends q) (sends' q) := by
  by_cases hlt : q < g.next
  · exact (h.life q hlt).ends (hs.old q hlt) hb
  · have hnil := h.unborn q (not_lt.mp hlt)
    refine ⟨fun _ => ?_, fun _ i pc pc' h1 => by rw [hnil] at h1; simp at h1⟩
    by_cases hq : q < g'.next
    · rcases (hs.new q (not_lt.mp hlt) hq).2 with h2 | h2 <;> rw [h2]
      simp [SendPc.entered]
    · rw [hs.unborn q (not_lt.mp hq)]

/-- A goroutine belongs to a pipe the hub has created. -/
theorem lt_of_unborn (h : ∀ q, g.next ≤ q → sends q = []) (hi : (sends q)[i]? = some pc) : q < g.next := by
  by_contra hlt
  rw [h q (not_lt.mp hlt)] at hi
  cases hi

/-- An operation of the hub that keeps what it finds, with the launch it may cause. -/
theorem HubStep.hub {o : Option ℕ} (hle : g.next ≤ g'.next)
    (hold : ∀ q < g.next, mk (g'.obj q) = mk (g.obj q))
    (hnew : ∀ q, g.next ≤ q → q < g'.next → mk (g'.obj q) = ⟨.wait, false, false⟩)
    (hl : ∀ q, o = some q → q < g'.next)
    (hs : ∀ q, sends' q = if o = some q then sends q ++ [.entry] else sends q) :
    HubStep bad mk g g' sends sends' where
  le := hle
  old := by
    intro q hq
    rw [hold q hq, hs q]
    split_ifs
    · exact .launch
    · exact .same
  new := by
    intro q h1 h2
    refine ⟨hnew q h1 h2, ?_⟩
    rw [hs q]
    split_ifs
    · exact .inr rfl
    · exact .inl rfl
  unborn := by
    intro q hq
    rw [hs q, if_neg]
    intro h1
    have := hl q h1
    omega

theorem HubStep.same : HubStep bad mk g g sends sends :=
  HubStep.hub (o := none) le_rfl (fun _ _ => rfl) (fun _ h1 h2 => absurd h2 (not_lt.mpr h1)) nofun
    fun _ => rfl

/-- A pipe changes in other fields. -/
theorem HubStep.modify (hu : mk (u (g.obj q)) = mk (g.obj q)) : HubStep bad mk g (g.modify q u) sends sends := by
  refine HubStep.hub (o := none) le_rfl (fun r _ => ?_) (fun _ h1 h2 => absurd h2 (not_lt.mpr h1)) nofun
    fun _ => rfl
  rw [Registry.obj_modify]
  split_ifs with hr
  · rw [hu, hr]
  · rfl

/-- Some pipes are closed. -/
theorem HubStep.close (hn : g'.next = g.next)
    (hq : ∀ q, mk (g'.obj q) = mk (g.obj q) ∨ mk (g'.obj q) = ⟨.close, true, (mk (g.obj q)).done⟩) :
    HubStep bad mk g g' sends sends where
  le := hn.ge
  old := by
    intro q _
    rcases hq q with h | h <;> rw [h]
    · exact .same
    · exact .close
  new := fun r h1 h2 => by omega
  unborn := fun _ _ => rfl

/-- A goroutine of the pipe `q` moves. -/
theorem HubStep.move (hq : q < g.next) (hn : g'.next = g.next)
    (hm : ∀ r, r ≠ q → mk (g'.obj r) = mk (g.obj r))
    (h : LifeStep bad (mk (g.obj q)) (sends q) (mk (g'.obj q)) ((sends q).set i pc)) :
    HubStep bad mk g g' sends (Function.update sends q ((sends q).set i pc)) where
  le := hn.ge
  old := by
    intro r _
    by_cases hr : r = q
    · subst hr; rw [Function.update_self]; exact h
    · rw [hm r hr, Function.update_of_ne hr]; exact .same
  new := fun r h1 h2 => by omega
  unborn := fun r hr => Function.update_of_ne (by omega) _ _

theorem HubStep.goto (hq : q < g.next)
    (h : LifeStep bad (mk (g.obj q)) (sends q) (mk (u (g.obj q))) ((sends q).set i pc)) :
    HubStep bad mk g (g.modify q u) sends (Function.update sends q ((sends q).set i pc)) := by
  refine HubStep.move hq rfl (fun r hr => by rw [Registry.obj_modify_ne hr]) ?_
  rw [Registry.obj_modify_self]
  exact h

end Hub

/-! ## Queues -/

section Queues

variable {KSUID V : Type} [DecidableEq KSUID]

/-- No goroutine executes its entry test on a queue with the status `close`. -/
def QueueAct.fair (s : Queues KSUID V) : QueueAct KSUID V → Prop
  | .send q i _ => (s.sends q)[i]? = some .entry → (s.hub.obj q).status ≠ .close
  | _ => True

def Queue.mark (q : Queue KSUID V) : Mark := ⟨q.status, q.buffer.closed, q.done⟩

variable {s s' : Queues KSUID V} {m id : KSUID} {q i : ℕ} {bad : Prop}

theorem Queues.sends_launch {o : Option ℕ} (r : ℕ) :
    (s.launch o).sends r = if o = some r then s.sends r ++ [.entry] else s.sends r := by
  cases o with
  | none => simp [Queues.launch]
  | some a =>
    by_cases hr : a = r
    · subst hr; simp [Queues.launch]
    · rw [Queues.sends_launch_ne (by simpa using hr), if_neg (by simpa using hr)]

theorem QueueHub.trySend_lt {h : QueueHub KSUID V} (hq : QueueHub.trySend h m = some q) : q < h.next := by
  unfold QueueHub.trySend at hq
  split at hq
  · cases hq
  · rename_i r hr
    split_ifs at hq
    cases hq
    exact Registry.ref?_lt hr

theorem Queues.hubStep_modify {u : Queue KSUID V → Queue KSUID V} (hu : (u (s.hub.obj q)).mark = (s.hub.obj q).mark) :
    HubStep bad Queue.mark s.hub (s.modify q u).hub s.sends (s.modify q u).sends := HubStep.modify hu

theorem Queues.hubStep_add {w : V} :
    HubStep bad Queue.mark s.hub (QueueHub.add s.hub m id w) s.sends (s.add m id w).sends := by
  refine HubStep.hub ?_ (fun r hr => ?_) (fun r h1 h2 => ?_) (fun r hr => QueueHub.trySend_lt hr)
    fun r => Queues.sends_launch r
  · rw [QueueHub.add_eq]; exact Registry.next_le_ensure
  · rw [QueueHub.add_eq, Registry.obj_modify, Registry.obj_ensure_of_lt hr]
    split_ifs with h1
    · rw [← h1, Registry.obj_ensure_of_lt hr]; rfl
    · rfl
  · rw [QueueHub.add_eq, Registry.next_modify, Registry.next_ensure] at h2
    split_ifs at h2 with h3
    · omega
    · have hr : r = s.hub.next := by omega
      have hnone : s.hub.ref? m = none := by simpa using h3
      rw [QueueHub.obj_add, if_pos (by rw [QueueHub.masterRef, hnone]; exact hr), if_pos hnone]
      rfl

theorem Queues.hubStep_setSort {sort : List KSUID} :
    HubStep bad Queue.mark s.hub (QueueHub.setSort s.hub m sort) s.sends s.sends := by
  cases hm : s.hub.ref? m with
  | some a =>
    rw [QueueHub.setSort_eq hm]
    exact HubStep.modify rfl
  | none =>
    have he : QueueHub.setSort s.hub m sort = s.hub.create m { newQueue m with sorted := sort } := by
      simp only [QueueHub.setSort, hm]
    rw [he]
    refine HubStep.hub (o := none) (Nat.le_succ _) (fun r hr => ?_) (fun r h1 h2 => ?_) nofun fun _ => rfl
    · rw [Registry.obj_create, if_neg (by omega)]
    · rw [Registry.next_create] at h2
      rw [Registry.obj_create, if_pos (by omega)]
      rfl

/-- `close` on a queue that is closed already changes nothing. -/
theorem Queue.mark_close (x : Queue KSUID V) :
    x.close.mark = x.mark ∨ x.close.mark = ⟨.close, true, x.mark.done⟩ := by
  unfold Queue.close
  split_ifs
  · exact .inl rfl
  · exact .inr rfl

theorem Queues.hubStep_remove :
    HubStep bad Queue.mark s.hub (QueueHub.remove s.hub m) s.sends s.sends := by
  refine HubStep.close QueueHub.next_remove fun r => ?_
  rw [QueueHub.obj_remove]
  split_ifs
  · exact Queue.mark_close _
  · exact .inl rfl

/-- One step of `Send`. -/
theorem Queues.hubStep_send {o : Outcome} {msg : Option (V × Buffer)} (hq : q < s.hub.next)
    (h : s.send q i o = some (s', msg)) :
    HubStep (¬ QueueAct.fair s (.send q i o)) Queue.mark s.hub s'.hub s.sends s'.sends := by
  have hmove : ∀ {pc}, LifeStep (¬ QueueAct.fair s (.send q i o)) (s.hub.obj q).mark (s.sends q)
      (s.hub.obj q).mark ((s.sends q).set i pc) →
      HubStep (¬ QueueAct.fair s (.send q i o)) Queue.mark s.hub s.hub s.sends (s.goto q i pc).sends :=
    HubStep.move hq rfl fun _ _ => rfl
  have hgoto : ∀ {pc} {u : Queue KSUID V → Queue KSUID V}, LifeStep (¬ QueueAct.fair s (.send q i o))
      (s.hub.obj q).mark (s.sends q) (u (s.hub.obj q)).mark ((s.sends q).set i pc) →
      HubStep (¬ QueueAct.fair s (.send q i o)) Queue.mark s.hub ((s.modify q u).goto q i pc).hub s.sends
        ((s.modify q u).goto q i pc).sends :=
    HubStep.goto hq
  cases Queues.sendStep_of_send h with
  | refuse hi hst => exact hmove (.refuse hi hst)
  | enter hi hst =>
    refine hgoto ?_
    by_cases hc : (s.hub.obj q).status = .close
    · exact .reenter hi fun hf => hf hi hc
    · refine .enter hi ?_
      show (s.hub.obj q).status = .wait
      cases hx : (s.hub.obj q).status <;> simp_all
  | closed hi => exact hmove (.advance hi rfl rfl (by simp [SendPc.rank]))
  | round hi hst => exact hmove (.start hi hst)
  | again hi => exact hmove (.advance hi rfl rfl (by simp [SendPc.rank]))
  | next hi => exact hmove (.advance hi rfl rfl (by simp [SendPc.rank]; omega))
  | @read w rest x hi hx =>
    refine hgoto ?_
    have hm : ({ s.hub.obj q with buffer := x.2 } : Queue KSUID V).mark = (s.hub.obj q).mark := by
      simp only [Queue.mark, Chan.closed_recv? hx]
    rw [hm]
    exact .advance hi rfl rfl (by simp [SendPc.rank])
  | timeout hi => exact hmove (.advance hi rfl rfl (by simp [SendPc.rank]))
  | @write w b rest hi =>
    refine hmove ?_
    cases b.eof
    · exact .advance hi rfl rfl (by simp [SendPc.rank])
    · exact .advance hi rfl rfl (by simp [SendPc.rank])
  | fail hi => exact hmove (.advance hi rfl rfl (by simp [SendPc.rank]))
  | noWriter | panic => exact HubStep.same
  | ret hi => exact hgoto (.ret hi)
  | closeDone hi => exact hgoto (.closeDone hi)

theorem Queues.hubStep_wait (hq : q < s.hub.next) (h : s.handoff q i = some s') :
    HubStep bad Queue.mark s.hub s'.hub s.sends s'.sends := by
  unfold Queues.handoff at h
  split at h
  · rename_i e hi
    split_ifs at h
    cases h
    exact HubStep.move hq rfl (fun _ _ => rfl) (.handoff hi)
  · cases h

/-- The queues of the hub after an action. -/
theorem Queues.hubStep_act {a : QueueAct KSUID V} (hu : ∀ q, s.hub.next ≤ q → s.sends q = [])
    (h : s.act a = some s') :
    HubStep (¬ QueueAct.fair s a) Queue.mark s.hub s'.hub s.sends s'.sends := by
  unfold Queues.act at h
  split_ifs at h
  cases a with
  | add m id w => cases h; rw [Queues.hub_add]; exact Queues.hubStep_add
  | setSort m sort => cases h; exact Queues.hubStep_setSort
  | trySend m =>
    cases h
    rw [Queues.hub_trySend]
    exact HubStep.hub le_rfl (fun _ _ => rfl) (fun r h1 h2 => absurd h2 (not_lt.mpr h1))
      (fun r hr => QueueHub.trySend_lt hr) fun r => Queues.sends_launch r
  | remove m => cases h; exact Queues.hubStep_remove
  | launch q =>
    simp only at h
    split_ifs at h with hq
    cases h
    exact HubStep.hub (o := some q) le_rfl (fun _ _ => rfl) (fun r h1 h2 => absurd h2 (not_lt.mpr h1))
      (fun r hr => Option.some.inj hr ▸ hq) fun r => Queues.sends_launch r
  | sort q ids =>
    cases h
    exact Queues.hubStep_modify rfl
  | send q i o =>
    simp only [Option.map_eq_some_iff] at h
    obtain ⟨⟨s1, msg⟩, h1, rfl⟩ := h
    cases hi : (s.sends q)[i]? with
    | none => simp [Queues.send, hi] at h1
    | some pc => exact Queues.hubStep_send (lt_of_unborn hu hi) h1
  | wait q i =>
    cases hi : (s.sends q)[i]? with
    | none => simp [Queues.handoff, hi] at h
    | some pc => exact Queues.hubStep_wait (lt_of_unborn hu hi) h
  | write q b =>
    simp only [Option.map_eq_some_iff] at h
    obtain ⟨⟨s1, ok⟩, h1, rfl⟩ := h
    rcases Queues.push_cases h1 with ⟨-, hcl, ch, -, hcl', rfl⟩ | ⟨-, -, rfl⟩
    · exact Queues.hubStep_modify (by simp only [Queue.mark, hcl, hcl'])
    · exact HubStep.same

theorem Queues.alive [Inhabited KSUID] {ls : List (QueueAct KSUID V)}
    (h : Run Queues.act QueueAct.fair (Queues.init : Queues KSUID V) ls s) :
    Alive Queue.mark s.hub s.sends := by
  have h0 : Alive Queue.mark (Queues.init : Queues KSUID V).hub (Queues.init : Queues KSUID V).sends :=
    ⟨nofun, fun _ _ => rfl⟩
  exact h.invariant (I := fun s => Alive Queue.mark s.hub s.sends) h0 fun a x b ha hok hx =>
    ha.step (Queues.hubStep_act ha.unborn hx) (not_not.mpr hok)

theorem Queues.sends_goto_self {pc : QueueSend KSUID V} : (s.goto q i pc).sends q = (s.sends q).set i pc :=
  Function.update_self _ _ _

/-- The condition is exact: a step keeps the promise only if it meets it. -/
theorem Queues.fair_of_ends {a : QueueAct KSUID V} (ha : Alive Queue.mark s.hub s.sends)
    (h : s.act a = some s') (he : ∀ q, Ends (s.hub.obj q).mark (s.sends q) (s'.sends q)) :
    QueueAct.fair s a := by
  cases a with
  | add | setSort | trySend | remove | launch | sort | wait | write => trivial
  | send q i o =>
    intro hi hc
    unfold Queues.act at h
    split_ifs at h
    simp only [Queues.send, hi, hc, Option.map_eq_some_iff] at h
    obtain ⟨r, hr, rfl⟩ := h
    cases hr
    exact not_ends_of_reenter hi ((ha.life q (lt_of_unborn ha.unborn hi)).unclosed hc) Queues.sends_goto_self (he q)

instance (s : Queues KSUID ℕ) (a : QueueAct KSUID ℕ) : Decidable (QueueAct.fair s a) := by
  cases a <;> unfold QueueAct.fair <;> infer_instance

end Queues

/-! ## Links -/

section Links

variable {KSUID : Type} [DecidableEq KSUID]

/-- No goroutine executes its entry test on a link with the status `close`. -/
def LinkAct.fair (s : Links KSUID) : LinkAct KSUID → Prop
  | .send q i _ => (s.sends q)[i]? = some .entry → (s.hub.obj q).status ≠ .close
  | _ => True

def Link.mark (q : Link KSUID) : Mark := ⟨q.status, q.buffer.closed, q.done⟩

variable {s s' : Links KSUID} {m id : KSUID} {q i : ℕ} {bad : Prop}

theorem LinkHub.trySend_lt {h : LinkHub KSUID} {conn : Option ℕ}
    (hq : (LinkHub.trySend h m conn).2 = some q) : q < h.next := by
  unfold LinkHub.trySend at hq
  split at hq
  · cases hq
  · rename_i r hr
    simp only at hq
    split_ifs at hq
    cases hq
    exact Registry.ref?_lt hr

theorem Links.hubStep_modify {u : Link KSUID → Link KSUID} (hu : (u (s.hub.obj q)).mark = (s.hub.obj q).mark) :
    HubStep bad Link.mark s.hub (s.modify q u).hub s.sends (s.modify q u).sends := HubStep.modify hu

theorem Links.hubStep_add :
    HubStep bad Link.mark s.hub (LinkHub.add s.hub id m).1 s.sends (s.add id m).sends := by
  refine HubStep.hub LinkHub.next_le_add (fun r hr => ?_) (fun r h1 h2 => ?_) (fun r hr => ?_)
    fun r => Links.sends_launch r
  · rw [LinkHub.obj_add_of_lt hr]
    split_ifs <;> rfl
  · rw [Tracks.obj_add_new h1 h2]; rfl
  · rw [LinkHub.add_launch] at hr
    split_ifs at hr
    cases hr
    exact Registry.ref?_lt (k := m) (by rw [LinkHub.ref?_add, if_pos rfl])

theorem Links.hubStep_setSort {sort : List KSUID} :
    HubStep bad Link.mark s.hub (LinkHub.setSort s.hub m sort) s.sends s.sends := by
  refine HubStep.hub (o := none) LinkHub.next_le_setSort (fun r hr => ?_) (fun r h1 h2 => ?_) nofun
    fun _ => rfl
  · rw [LinkHub.obj_setSort_of_lt hr]
    split_ifs <;> rfl
  · cases hm : s.hub.ref? m with
    | some a =>
      simp only [LinkHub.setSort, hm, Registry.next_modify] at h2
      omega
    | none =>
      simp only [LinkHub.setSort, hm, Registry.next_create] at h2
      have hr : r = s.hub.next := by omega
      rw [hr, LinkHub.obj_setSort_new hm]
      rfl

theorem Links.hubStep_trySend {c : ℕ} :
    HubStep bad Link.mark s.hub (LinkHub.trySend s.hub m (some c)).1 s.sends (s.trySend m c).sends := by
  refine HubStep.hub (LinkHub.next_trySend _).ge (fun r _ => ?_) (fun r h1 h2 => ?_)
    (fun r hr => ?_) fun r => Links.sends_launch r
  · cases hm : s.hub.ref? m with
    | none => rw [LinkHub.trySend_missing hm]
    | some a =>
      rw [LinkHub.trySend_some_hub hm, Registry.obj_modify]
      split_ifs with hr
      · rw [hr]; rfl
      · rfl
  · rw [LinkHub.next_trySend] at h2; omega
  · rw [LinkHub.next_trySend]; exact LinkHub.trySend_lt hr

omit [DecidableEq KSUID] in
theorem Link.mark_close (x : Link KSUID) :
    x.close.mark = x.mark ∨ x.close.mark = ⟨.close, true, x.mark.done⟩ := by
  unfold Link.close
  split_ifs
  · exact .inl rfl
  · exact .inr rfl

theorem Links.hubStep_removeAll :
    HubStep bad Link.mark s.hub (LinkHub.removeAll s.hub m) s.sends s.sends := by
  refine HubStep.close LinkHub.next_removeAll fun r => ?_
  cases hm : s.hub.ref? m with
  | none => rw [LinkHub.removeAll_missing hm]; exact .inl rfl
  | some a =>
    rw [LinkHub.obj_removeAll hm]
    split_ifs
    · exact Link.mark_close _
    · exact .inl rfl

/-- One step of `Send`; it may take a chunk from the link of another lane. -/
theorem Links.hubStep_send {o : Outcome} (hq : q < s.hub.next) (h : s.send q i o = some s') :
    HubStep (¬ LinkAct.fair s (.send q i o)) Link.mark s.hub s'.hub s.sends s'.sends := by
  have hmove : ∀ {pc}, LifeStep (¬ LinkAct.fair s (.send q i o)) (s.hub.obj q).mark (s.sends q)
      (s.hub.obj q).mark ((s.sends q).set i pc) →
      HubStep (¬ LinkAct.fair s (.send q i o)) Link.mark s.hub s.hub s.sends (s.goto q i pc).sends :=
    HubStep.move hq rfl fun _ _ => rfl
  have hgoto : ∀ {pc} {u : Link KSUID → Link KSUID}, LifeStep (¬ LinkAct.fair s (.send q i o))
      (s.hub.obj q).mark (s.sends q) (u (s.hub.obj q)).mark ((s.sends q).set i pc) →
      HubStep (¬ LinkAct.fair s (.send q i o)) Link.mark s.hub ((s.modify q u).goto q i pc).hub s.sends
        ((s.modify q u).goto q i pc).sends :=
    HubStep.goto hq
  cases Links.sendStep_of_send h with
  | refuse hi hst => exact hmove (.refuse hi hst)
  | enter hi hst =>
    refine hgoto ?_
    by_cases hc : (s.hub.obj q).status = .close
    · exact .reenter hi fun hf => hf hi hc
    · refine .enter hi ?_
      show (s.hub.obj q).status = .wait
      cases hx : (s.hub.obj q).status <;> simp_all
  | closed hi | again hi | missing hi | timeout hi | noConn hi =>
    exact hmove (.advance hi rfl rfl (by simp [SendPc.rank]))
  | round hi hst => exact hmove (.start hi hst)
  | next hi => exact hmove (.advance hi rfl rfl (by simp [SendPc.rank]; omega))
  | @read l _ x hi hx =>
    have hm : ∀ a, ((s.hub.modify l fun y => { y with buffer := x.2 }).obj a).mark = (s.hub.obj a).mark := by
      intro a
      rw [Registry.obj_modify]
      split_ifs with ha
      · rw [ha]; simp only [Link.mark, Chan.closed_recv? hx]
      · rfl
    refine HubStep.move hq rfl (fun a _ => hm a) ?_
    show LifeStep _ _ _ ((s.hub.modify l fun y => { y with buffer := x.2 }).obj q).mark _
    rw [hm q]
    exact .advance hi rfl rfl (by simp [SendPc.rank])
  | write hi =>
    refine hmove (.advance hi rfl ?_ ?_)
    · split_ifs <;> rfl
    · split_ifs <;> simp [SendPc.rank]
  | ret hi => exact hgoto (.ret hi)
  | panic => exact HubStep.same
  | closeDone hi => exact hgoto (.closeDone hi)

theorem Links.hubStep_wait (hq : q < s.hub.next) (h : s.handoff q i = some s') :
    HubStep bad Link.mark s.hub s'.hub s.sends s'.sends := by
  unfold Links.handoff at h
  split at h
  · rename_i e hi
    split_ifs at h
    cases h
    exact HubStep.move hq rfl (fun _ _ => rfl) (.handoff hi)
  · cases h

/-- The links of the hub after an action. -/
theorem Links.hubStep_act {a : LinkAct KSUID} (hu : ∀ q, s.hub.next ≤ q → s.sends q = [])
    (h : s.act a = some s') :
    HubStep (¬ LinkAct.fair s a) Link.mark s.hub s'.hub s.sends s'.sends := by
  unfold Links.act at h
  split_ifs at h
  cases a with
  | add id m =>
    cases h
    rw [Links.add, Links.hub_launch]
    exact Links.hubStep_add
  | setSort m sort => cases h; exact Links.hubStep_setSort
  | trySend m c =>
    cases h
    rw [Links.trySend, Links.hub_launch]
    exact Links.hubStep_trySend
  | removeAll m => cases h; exact Links.hubStep_removeAll
  | launch q =>
    simp only at h
    split_ifs at h with hq
    cases h
    exact HubStep.hub (o := some q) le_rfl (fun _ _ => rfl) (fun r h1 h2 => absurd h2 (not_lt.mpr h1))
      (fun r hr => Option.some.inj hr ▸ hq) fun r => Links.sends_launch r
  | sort q ids | conn q c =>
    cases h
    exact Links.hubStep_modify rfl
  | send q i o =>
    cases hi : (s.sends q)[i]? with
    | none => simp [Links.send, hi] at h
    | some pc => exact Links.hubStep_send (lt_of_unborn hu hi) h
  | wait q i =>
    cases hi : (s.sends q)[i]? with
    | none => simp [Links.handoff, hi] at h
    | some pc => exact Links.hubStep_wait (lt_of_unborn hu hi) h
  | write q b =>
    simp only [Option.map_eq_some_iff] at h
    obtain ⟨⟨s1, ok⟩, h1, rfl⟩ := h
    rcases Links.push_cases h1 with ⟨-, hcl, ch, -, hcl', rfl⟩ | ⟨-, -, rfl⟩
    · exact Links.hubStep_modify (by simp only [Link.mark, hcl, hcl'])
    · exact HubStep.same
  | closeConn c => cases h; exact HubStep.same

theorem Links.alive [Inhabited KSUID] {ls : List (LinkAct KSUID)}
    (h : Run Links.act LinkAct.fair (Links.init : Links KSUID) ls s) :
    Alive Link.mark s.hub s.sends := by
  have h0 : Alive Link.mark (Links.init : Links KSUID).hub (Links.init : Links KSUID).sends :=
    ⟨nofun, fun _ _ => rfl⟩
  exact h.invariant (I := fun s => Alive Link.mark s.hub s.sends) h0 fun a x b ha hok hx =>
    ha.step (Links.hubStep_act ha.unborn hx) (not_not.mpr hok)

/-- The condition is exact: a step keeps the promise only if it meets it. -/
theorem Links.fair_of_ends {a : LinkAct KSUID} (ha : Alive Link.mark s.hub s.sends)
    (h : s.act a = some s') (he : ∀ q, Ends (s.hub.obj q).mark (s.sends q) (s'.sends q)) :
    LinkAct.fair s a := by
  cases a with
  | add | setSort | trySend | removeAll | launch | sort | conn | wait | write | closeConn => trivial
  | send q i o =>
    intro hi hc
    unfold Links.act at h
    split_ifs at h
    simp only [Links.send, hi, hc] at h
    cases h
    exact not_ends_of_reenter hi ((ha.life q (lt_of_unborn ha.unborn hi)).unclosed hc) Links.sends_goto_self (he q)

instance (s : Links KSUID) (a : LinkAct KSUID) : Decidable (LinkAct.fair s a) := by
  cases a <;> unfold LinkAct.fair <;> infer_instance

end Links

/-! ## The law -/

/-- Two goroutines are launched on the queue of `7` (by `Add` after `SetSort`, and by `TrySend`); the
    first one enters. -/
def twoSends : List (QueueAct ℕ ℕ) := [.setSort 7 [7], .add 7 7 1, .trySend 7, .send 0 0 .ok]

/-- The same for the link of `7`. -/
def twoLinkSends : List (LinkAct ℕ) :=
  [.setSort 7 [7], .add 7 7, .trySend 7 0, .trySend 7 0, .send 0 0 .ok]

/-- `close` overwrites the status that kept the second goroutine out: it passes its entry test
    beside the body that is running. -/
theorem closed_pipe_restarts :
    (∃ (ls : List (QueueAct ℕ ℕ)) (s : Queues ℕ ℕ), Run Queues.act anyStep Queues.init ls s ∧
      (s.sends 0).countP SendPc.entered = 2) ∧
    ∃ (ls : List (LinkAct ℕ)) (s : Links ℕ), Run Links.act anyStep Links.init ls s ∧
      (s.sends 0).countP SendPc.entered = 2 := by
  have hq : (exec Queues.act (fun _ _ => true) Queues.init
      (twoSends ++ [.remove 7, .send 0 1 .ok])).map
        (fun s => (s.sends 0).countP SendPc.entered) = some 2 := by
    decide +kernel
  have hl : (exec Links.act (fun _ _ => true) Links.init
      (twoLinkSends ++ [.removeAll 7, .send 0 1 .ok])).map
        (fun s => (s.sends 0).countP SendPc.entered) = some 2 := by
    decide +kernel
  obtain ⟨s, hs, h2⟩ := exists_run_of_exec hq
  obtain ⟨t, ht, h3⟩ := exists_run_of_exec hl
  exact ⟨⟨_, s, hs.mono fun _ _ _ => trivial, h2⟩, _, t, ht.mono fun _ _ _ => trivial, h3⟩

/-- In every run in which the entry test is executed only on pipes whose status is not `close`, every
    queue and every link has at most one body, and its `done` is used once; and a next step that
    meets the condition, and only such a step, starts no body on a closed pipe and takes a body
    there closer to the end of its pass. -/
theorem life_cycle {KSUID V : Type} [DecidableEq KSUID] [Inhabited KSUID] :
    (∀ ls (s : Queues KSUID V), Run Queues.act QueueAct.fair Queues.init ls s →
      (∀ q, Lived (s.hub.obj q).mark (s.sends q)) ∧
      ∀ a s', s.act a = some s' →
        (QueueAct.fair s a ↔ ∀ q, Ends (s.hub.obj q).mark (s.sends q) (s'.sends q))) ∧
    ∀ ls (s : Links KSUID), Run Links.act LinkAct.fair Links.init ls s →
      (∀ q, Lived (s.hub.obj q).mark (s.sends q)) ∧
      ∀ a s', s.act a = some s' →
        (LinkAct.fair s a ↔ ∀ q, Ends (s.hub.obj q).mark (s.sends q) (s'.sends q)) := by
  refine ⟨fun ls s h => ?_, fun ls s h => ?_⟩
  · have ha := Queues.alive h
    refine ⟨ha.lived, fun a s' hs => ⟨fun hf => ?_, Queues.fair_of_ends ha hs⟩⟩
    exact ha.ends (Queues.hubStep_act ha.unborn hs) (not_not.mpr hf)
  · have ha := Links.alive h
    refine ⟨ha.lived, fun a s' hs => ⟨fun hf => ?_, Links.fair_of_ends ha hs⟩⟩
    exact ha.ends (Links.hubStep_act ha.unborn hs) (not_not.mpr hf)

/-- The second goroutine of `twoSends` executes its test before the close, and is refused. -/
theorem life_cycle_two_sends :
    (∃ (ls : List (QueueAct ℕ ℕ)) (s : Queues ℕ ℕ), Run Queues.act QueueAct.fair Queues.init ls s ∧
      (s.hub.obj 0).buffer.closed = true ∧ s.sends 0 = [.ret (some .closedPipe), .refused] ∧
      ∀ q, Lived (s.hub.obj q).mark (s.sends q)) ∧
    ∃ (ls : List (LinkAct ℕ)) (s : Links ℕ), Run Links.act LinkAct.fair Links.init ls s ∧
      (s.hub.obj 0).buffer.closed = true ∧ s.sends 0 = [.ret (some .closedPipe), .refused] ∧
      ∀ q, Lived (s.hub.obj q).mark (s.sends q) := by
  have hq : (exec Queues.act (fun s a => decide (QueueAct.fair s a)) Queues.init
      (twoSends ++ [.send 0 1 .ok, .remove 7, .send 0 0 .ok])).map
        (fun s => ((s.hub.obj 0).buffer.closed, s.sends 0)) =
      some (true, [.ret (some .closedPipe), .refused]) := by
    decide +kernel
  have hl : (exec Links.act (fun s a => decide (LinkAct.fair s a)) Links.init
      (twoLinkSends ++ [.send 0 1 .ok, .removeAll 7, .send 0 0 .ok])).map
        (fun s => ((s.hub.obj 0).buffer.closed, s.sends 0)) =
      some (true, [.ret (some .closedPipe), .refused]) := by
    decide +kernel
  obtain ⟨s, hs, h2⟩ := exists_run_of_exec hq
  obtain ⟨t, ht, h3⟩ := exists_run_of_exec hl
  have hs' := hs.mono fun _ _ h => of_decide_eq_true h
  have ht' := ht.mono fun _ _ h => of_decide_eq_true h
  simp only [Prod.mk.injEq] at h2 h3
  exact ⟨⟨_, s, hs', h2.1, h2.2, (life_cycle.1 _ s hs').1⟩, _, t, ht', h3.1, h3.2,
    ((life_cycle (V := ℕ)).2 _ t ht').1⟩

end Wssocks.Pipe

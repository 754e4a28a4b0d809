import Wssocks.Wss.ClientOps

/-!
# What a call of `transData` leaves behind

`transData` registers `n` lanes and releases them in the closure `remove`, which is run by its deferred
call or by a `finish` from the server, whichever comes first. `RemoveAll` finds the lanes through the
field `sorted` of the master's link.

Results:

* `failed_establish_leaks`: when `Establish` fails, the links of all lanes but the master's stay.
* `lanes_released`: if `RemoveAll` runs after `oo.SetSort(sorted)`, or there is one lane only, nothing is
  left when `transData` has returned.
-/

namespace Wssocks.Wss

open Wssocks.Lib Wssocks.Pipe

variable {KSUID : Type} [DecidableEq KSUID] [Inhabited KSUID]

variable {ids : List KSUID} {m : KSUID} {s s' : Client KSUID} {l : ClientLabel} {c : Call KSUID}
  {ls : List (Call KSUID)} {out : Option (ℕ × Msg KSUID)} {pc : TransPc} {e : Option TransErr}
  {r : ClientReader KSUID}

/-! ## The entries of the lanes -/

/-- `transData` is adding its lanes. -/
def TransPc.adding : TransPc → Bool
  | .newProxy _ | .sayID _ | .queueAdd _ | .linkAdd _ => true
  | _ => false

/-- How many lanes `clientLinkHub.Add` was called for. -/
def TransPc.added (n : ℕ) : TransPc → ℕ
  | .newProxy i | .sayID i | .queueAdd i | .linkAdd i => i
  | _ => n

/-- The deferred `remove` has returned. -/
def TransPc.released : TransPc → Bool
  | .cancel _ | .rmProxy _ | .returned => true
  | _ => false

/-- The reader is between the test of `status` and the end of `remove`. -/
def ClientReader.removing : ClientReader KSUID → Bool
  | .remove _ .queue | .remove _ .links => true
  | _ => false

/-- The operation of `remove` that a step executes. -/
def Client.removal (s : Client KSUID) : ClientLabel → Option RemoveAt
  | .trans => match s.pc with
    | .remove a => some a
    | _ => none
  | .reader i => match s.reader i with
    | .remove _ a => some a
    | _ => none
  | _ => none

/-- The operations of `remove` in a step. -/
def Call.removals (s : Client KSUID) : Call KSUID → List RemoveAt
  | .act l => (s.removal l).toList
  | .arrive _ _ => []

/-- The link of the master has the order of the lanes. -/
def Client.linksSorted (ids : List KSUID) (s : Client KSUID) : Bool :=
  (s.links.hub.ref? (Client.masterID ids)).all fun r => decide ((s.links.hub.obj r).sorted = ids)

/-- Only the master is finished; `remove` does its work after the lanes were added, and `RemoveAll` after the
    master's link was given their order, if there are several; and the deferred `remove` does not return
    before another call of `remove` has done its work. -/
def Call.tidy (ids : List KSUID) (s : Client KSUID) : Call KSUID → Bool
  | .arrive _ (.finish id) => decide (id = Client.masterID ids)
  | .arrive _ _ => true
  | .act l =>
    match s.removal l with
    | some .test => !(decide (l = .trans) && s.removed && (s.reader 0).removing)
    | some .queue => !s.pc.adding
    | some .links => !s.pc.adding && (decide (ids.length = 1) || s.linksSorted ids)
    | none => true

theorem TransMove.adding (h : TransMove ids s l pc e) (ha : s.pc.adding = false) : pc.adding = false := by
  cases h with
  | same => exact ha
  | newProxy hpc | lanesDone hpc | sayID hpc => rw [hpc] at ha; cases ha
  | queueAdd _ hpc | linkAdd _ hpc => rw [hpc] at ha; cases ha
  | _ => rfl

theorem TransMove.added (h : TransMove ids s l pc e) (hn : 0 < ids.length) (ha : 0 < pc.added ids.length) :
    0 < s.pc.added ids.length ∨ ∃ i, l = .trans ∧ s.pc = .linkAdd i := by
  cases h with
  | same => exact .inl ha
  | newProxy hpc | sayID hpc => rw [hpc]; exact .inl ha
  | queueAdd _ hpc => rw [hpc]; exact .inl ha
  | lanesDone hpc hi => rw [hpc]; left; exact lt_of_lt_of_le hn hi
  | linkAdd hl hpc => exact .inr ⟨_, hl, hpc⟩
  | establish hpc | gotQueue hpc | goCopy hpc | gotLink hpc | setConn hpc | waited hpc | cancel hpc
    | rmProxy hpc | leave hpc => rw [hpc]; exact .inl hn
  | setQueueSort _ hpc | goSend _ hpc | setLinkSort _ hpc | goLinkSend _ hpc | removeTest _ hpc | removeSkip _ hpc
    | removeQueue _ hpc | removeLinks _ hpc =>
    rw [hpc]; exact .inl hn
  | @failed e hpc => cases e <;> (rw [hpc]; exact .inl hn)

/-- A call of `remove` in `transData` goes on by steps of `transData`. -/
theorem TransMove.remove_stays {a : RemoveAt} (h : TransMove ids s l pc e) (hpc : s.pc = .remove a)
    (hl : l ≠ .trans) : pc = .remove a := by
  cases h with
  | same => exact hpc
  | removeTest h1 | removeSkip h1 | removeQueue h1 | removeLinks h1 | queueAdd h1 | linkAdd h1 | setQueueSort h1
    | goSend h1 | setLinkSort h1 | goLinkSend h1 => exact absurd h1 hl
  | waited h1 => rw [hpc] at h1; cases h1
  | @failed e h1 => rw [hpc] at h1; cases e <;> cases h1
  | newProxy h1 | lanesDone h1 | sayID h1 | establish h1 | gotQueue h1 | goCopy h1 | gotLink h1 | setConn h1
    | cancel h1 | rmProxy h1 | leave h1 => rw [hpc] at h1; cases h1

/-- What `transData` does next in `remove`. -/
theorem TransMove.remove_next {a : RemoveAt} (h : TransMove ids s .trans pc e) (hpc : s.pc = .remove a) :
    pc = (s.removeNext a).elim (.cancel ids.length) .remove := by
  cases h with
  | same h1 => exact absurd rfl h1
  | removeTest _ h1 h2 => rw [hpc] at h1; cases h1; simp [Client.removeNext, h2]
  | removeSkip _ h1 h2 => rw [hpc] at h1; cases h1; simp [Client.removeNext, h2]
  | removeQueue _ h1 => rw [hpc] at h1; cases h1; rfl
  | removeLinks _ h1 => rw [hpc] at h1; cases h1; rfl
  | waited h1 => rw [hpc] at h1; cases h1
  | queueAdd _ h1 | linkAdd _ h1 | setQueueSort _ h1 | goSend _ h1 | setLinkSort _ h1
    | goLinkSend _ h1 => rw [hpc] at h1; cases h1
  | @failed e h1 => rw [hpc] at h1; cases e <;> cases h1
  | newProxy h1 | lanesDone h1 | sayID h1 | establish h1 | gotQueue h1 | goCopy h1 | gotLink h1 | setConn h1
    | cancel h1 | rmProxy h1 | leave h1 => rw [hpc] at h1; cases h1

theorem TransMove.links_back (h : TransMove ids s l pc e) (hpc : pc = .remove .links) :
    s.pc = .remove .links ∨ (l = .trans ∧ s.pc = .remove .queue) := by
  cases h with
  | same => exact .inl hpc
  | removeQueue hl h1 => exact .inr ⟨hl, h1⟩
  | _ => cases hpc

theorem TransMove.released_back (h : TransMove ids s l pc e) (hpc : pc.released = true) :
    s.pc.released = true ∨ (l = .trans ∧ s.pc = .remove .links) ∨
      (l = .trans ∧ s.pc = .remove .test ∧ s.removed = true) := by
  cases h with
  | same => exact .inl hpc
  | removeSkip hl h1 h2 => exact .inr (.inr ⟨hl, h1, h2⟩)
  | removeLinks hl h1 => exact .inr (.inl ⟨hl, h1⟩)
  | cancel h1 | rmProxy h1 | leave h1 => rw [h1]; exact .inl rfl
  | _ => cases hpc

omit [Inhabited KSUID] in
/-- A call of `remove` in a reader was there before, has just been made, or has executed an operation. -/
theorem ClientReaderMove.remove_back {i : ℕ} {id : KSUID} {a : RemoveAt} (h : ClientReaderMove ids s l i r)
    (hr : r = .remove id a) : s.reader i = .remove id a ∨
      (a = .test ∧ .finish id ∈ s.inbox i ∧ ids[i]? = some id) ∨
      (l = .reader i ∧ ∃ a', s.reader i = .remove id a' ∧ s.removeNext a' = some a) := by
  cases h with
  | same => exact .inl hr
  | @take x _ hin =>
    right; left
    cases x with
    | finish id' =>
      simp only [Client.takes] at hr
      split_ifs at hr with h1
      cases hr
      exact ⟨rfl, hin, h1.2⟩
    | data id' tag b =>
      simp only [Client.takes] at hr
      split_ifs at hr
      split at hr <;> cases hr
    | _ => cases hr
  | test | write => cases hr
  | @remove id' a' hl h1 =>
    right; right
    cases hn : s.removeNext a' with
    | none => rw [hn] at hr; cases hr
    | some b => rw [hn] at hr; cases hr; exact ⟨hl, a', h1, hn⟩

omit [Inhabited KSUID] in
theorem ClientReaderMove.remove_stays {i : ℕ} {id : KSUID} {a : RemoveAt} (h : ClientReaderMove ids s l i r)
    (hr : s.reader i = .remove id a) (hl : l ≠ .reader i) : r = .remove id a := by
  cases h with
  | same => exact hr
  | take h1 => rw [hr] at h1; cases h1
  | test h1 => rw [hr] at h1; cases h1
  | write h1 => rw [hr] at h1; rcases h1 with h1 | h1 <;> cases h1
  | remove h1 => exact absurd h1 hl

omit [Inhabited KSUID] in
theorem ClientReaderMove.remove_next {i : ℕ} {id : KSUID} {a : RemoveAt}
    (h : ClientReaderMove ids s (.reader i) i r) (hr : s.reader i = .remove id a) :
    r = (s.removeNext a).elim .idle (.remove id) := by
  cases h with
  | same h1 => exact absurd rfl h1
  | take h1 => rw [hr] at h1; cases h1
  | test h1 => rw [hr] at h1; cases h1
  | write h1 => rw [hr] at h1; rcases h1 with h1 | h1 <;> cases h1
  | remove _ h1 => rw [hr] at h1; cases h1; rfl

/-- A call of `remove` is at work. -/
def Client.Removing (s : Client KSUID) : Prop :=
  s.pc = .remove .queue ∨ s.pc = .remove .links ∨ (s.reader 0).removing = true

/-- What the call has registered and released so far, after the operations `log` of `remove`. -/
structure Leaves (ids : List KSUID) (m : KSUID) (log : List RemoveAt) (s : Client KSUID) : Prop where
  valid : s.pc.Valid s
  mail : ∀ {i id}, .finish id ∈ s.inbox i → id = m
  reader : ∀ {i id a}, s.reader i = .remove id a → i = 0 ∧ id = m
  queue : .queue ∈ log → s.pc.adding = false ∧ s.queues.hub.ref? m = none
  links : .links ∈ log → s.pc.adding = false ∧ ∀ id ∈ ids, s.links.hub.ref? id = none
  master : .links ∉ log → 0 < s.pc.added ids.length → ∃ r, s.links.hub.ref? m = some r
  half : s.pc = .remove .links ∨ s.reader 0 = .remove m .links → .queue ∈ log
  removed : s.removed = true → (.queue ∈ log ∧ .links ∈ log) ∨ s.Removing
  released : s.pc.released = true → .queue ∈ log ∧ .links ∈ log

theorem Leaves.init : Leaves ids m [] (Client.init : Client KSUID) where
  valid := trivial
  mail := nofun
  reader := nofun
  queue := nofun
  links := nofun
  master := nofun
  half := by simp [Client.init]
  removed := nofun
  released := nofun

/-- A removal is of the master id. -/
theorem Leaves.removes {log : List RemoveAt} {id : KSUID} {a : RemoveAt} (h : Leaves ids m log s)
    (hm : Client.masterID ids = m) (hr : s.Removes ids l id a) : id = m ∧ s.removal l = some a := by
  rcases hr with ⟨rfl, hpc, hid⟩ | ⟨i, rfl, hr⟩
  · exact ⟨hid.trans hm, by simp [Client.removal, hpc]⟩
  · exact ⟨(h.reader hr).2, by simp [Client.removal, hr]⟩

/-- The operation that `removal` names. -/
theorem Client.removes_of_removal (ids : List KSUID) {a : RemoveAt} (h : s.removal l = some a) :
    ∃ id, s.Removes ids l id a := by
  cases l with
  | trans =>
    simp only [Client.removal] at h
    split at h
    · rename_i hpc; cases h; exact ⟨_, .inl ⟨rfl, hpc, rfl⟩⟩
    · cases h
  | reader i =>
    simp only [Client.removal] at h
    split at h
    · rename_i hr; cases h; exact ⟨_, .inr ⟨i, rfl, hr⟩⟩
    · cases h
  | _ => cases h

section
variable {log : List RemoveAt}

theorem Leaves.queue_step (h : Leaves ids m log s) (hm : Client.masterID ids = m)
    (hok : (Call.act l).tidy ids s = true) (hs : s.step ids l = some (s', out))
    (hmem : .queue ∈ log ++ (s.removal l).toList) :
    s'.pc.adding = false ∧ s'.queues.hub.ref? m = none := by
  have hmove := (Client.moves_of_step hs).trans
  by_cases hx : s.removal l = some .queue
  · -- the queue is removed now
    have hadd : s.pc.adding = false := by simpa [Call.tidy, hx] using hok
    obtain ⟨id, hr⟩ := Client.removes_of_removal ids hx
    rw [Client.queues_of_removes h.valid hs hr, (h.removes hm hr).1, Queues.remove, QueueHub.ref?_remove,
      if_pos rfl]
    exact ⟨hmove.adding hadd, rfl⟩
  · have hold : .queue ∈ log := by
      rcases List.mem_append.mp hmem with h1 | h1
      · exact h1
      · exact absurd (Option.mem_toList.mp h1) hx
    obtain ⟨hadd, href⟩ := h.queue hold
    refine ⟨hmove.adding hadd, ?_⟩
    rcases Client.queues_of_step h.valid hs with h1 | ⟨i, -, hpc, -⟩ | ⟨id, hr, -⟩
    · rw [h1.2, href]
    · rw [hpc] at hadd; cases hadd
    · exact absurd (h.removes hm hr).2 hx

theorem Leaves.links_step (h : Leaves ids m log s) (h0 : ids[0]? = some m) (hm : Client.masterID ids = m)
    (hok : (Call.act l).tidy ids s = true) (hs : s.step ids l = some (s', out))
    (hmem : .links ∈ log ++ (s.removal l).toList) :
    s'.pc.adding = false ∧ ∀ id ∈ ids, s'.links.hub.ref? id = none := by
  have hmove := (Client.moves_of_step hs).trans
  have hmaster : m ∈ ids := List.mem_of_getElem? h0
  have hn : 0 < ids.length := List.length_pos_of_mem hmaster
  by_cases hold : .links ∈ log
  · obtain ⟨hadd, href⟩ := h.links hold
    refine ⟨hmove.adding hadd, fun id hid => ?_⟩
    rcases Client.links_of_step h.valid hs with h1 | ⟨i, -, hpc, -⟩ | ⟨id', hr, h1⟩
    · rw [h1.2, href id hid]
    · rw [hpc] at hadd; cases hadd
    · rw [h1, (h.removes hm hr).1, Links.removeAll, LinkHub.removeAll_missing (href m hmaster), href id hid]
  · -- the links are removed now
    have hx : s.removal l = some .links := by
      rcases List.mem_append.mp hmem with h1 | h1
      · exact absurd h1 hold
      · exact Option.mem_toList.mp h1
    have hok' : s.pc.adding = false ∧ (ids.length = 1 ∨ s.linksSorted ids = true) := by
      simpa [Call.tidy, hx] using hok
    refine ⟨hmove.adding hok'.1, fun id hid => ?_⟩
    obtain ⟨id', hr⟩ := Client.removes_of_removal ids hx
    have hadded : 0 < s.pc.added ids.length := by
      have hadd := hok'.1
      cases hpc : s.pc with
      | newProxy | sayID | queueAdd | linkAdd => rw [hpc] at hadd; cases hadd
      | _ => exact hn
    obtain ⟨q, hq⟩ := h.master hold hadded
    rw [Client.links_of_removes h.valid hs hr, (h.removes hm hr).1, Links.removeAll, LinkHub.ref?_removeAll hq]
    refine if_pos ?_
    rcases hok'.2 with hone | hsorted
    · left
      obtain ⟨x, hx⟩ := List.length_eq_one_iff.mp hone
      rw [hx, List.mem_singleton] at hid hmaster
      rw [hid, hmaster]
    · right
      simp only [Client.linksSorted, hm, hq, Option.all_some, decide_eq_true_eq] at hsorted
      rw [hsorted]
      exact hid

theorem Leaves.master_step (h : Leaves ids m log s) (hn : 0 < ids.length) (hm : Client.masterID ids = m)
    (hs : s.step ids l = some (s', out)) (hmem : .links ∉ log ++ (s.removal l).toList)
    (hadded : 0 < s'.pc.added ids.length) : ∃ r, s'.links.hub.ref? m = some r := by
  have hold : .links ∉ log := fun h1 => hmem (List.mem_append_left _ h1)
  have hadd : ∀ i, s'.links = s.links.add (ids.getD i default) (Client.masterID ids) →
      ∃ r, s'.links.hub.ref? m = some r := by
    intro i h1
    rw [h1, Links.add, Links.hub_launch, LinkHub.ref?_add, hm, if_pos rfl]
    exact ⟨_, rfl⟩
  rcases Client.links_of_step h.valid hs with h1 | ⟨i, -, -, h1⟩ | ⟨id, hr, -⟩
  · rcases (Client.moves_of_step hs).trans.added hn hadded with h2 | ⟨i, rfl, hpc⟩
    · rw [h1.2]
      exact h.master hold h2
    · have hact := (Client.acts_of_step h.valid hs).2
      simp only [Client.linkAct, hpc, Acts, Links.act] at hact
      split_ifs at hact
      exact hadd i (Option.some.inj hact).symm
  · exact hadd i h1
  · refine absurd (List.mem_append_right _ ?_) hmem
    rw [(h.removes hm hr).2]
    exact List.mem_singleton_self _

/-- A step moves no call of `remove` that is at work, or it executes an operation of it. -/
theorem Leaves.removing_step (h : Leaves ids m log s) (hs : s.step ids l = some (s', out))
    (hr : s.Removing) :
    (.queue ∈ log ++ (s.removal l).toList ∧ .links ∈ log ++ (s.removal l).toList) ∨ s'.Removing := by
  have hmove := Client.moves_of_step hs
  have hlast : s.removal l = some .links → .queue ∈ log →
      .queue ∈ log ++ (s.removal l).toList ∧ .links ∈ log ++ (s.removal l).toList := by
    intro hx hq
    rw [hx]
    exact ⟨List.mem_append_left _ hq, List.mem_append_right _ (List.mem_singleton_self _)⟩
  rcases hr with hpc | hpc | hrd
  · by_cases hl : l = .trans
    · subst hl
      exact .inr (.inr (.inl (hmove.trans.remove_next hpc)))
    · exact .inr (.inl (hmove.trans.remove_stays hpc hl))
  · by_cases hl : l = .trans
    · subst hl
      exact .inl (hlast (by simp [Client.removal, hpc]) (h.half (.inl hpc)))
    · exact .inr (.inr (.inl (hmove.trans.remove_stays hpc hl)))
  · cases hr0 : s.reader 0 with
    | idle | check | select => rw [hr0] at hrd; cases hrd
    | remove id a =>
      by_cases hl : l = .reader 0
      · subst hl
        have hnext := (hmove.reader 0).remove_next hr0
        cases a with
        | test => rw [hr0] at hrd; cases hrd
        | queue => right; right; right; rw [hnext]; rfl
        | links =>
          refine .inl (hlast (by simp [Client.removal, hr0]) (h.half (.inr ?_)))
          rw [hr0, (h.reader hr0).2]
      · right; right; right
        rw [(hmove.reader 0).remove_stays hr0 hl, ← hr0]
        exact hrd

theorem Leaves.step (h : Leaves ids m log s) (hnd : ids.Nodup) (h0 : ids[0]? = some m)
    (hm : Client.masterID ids = m) (hok : c.tidy ids s = true) (hs : s.serve ids c = some s') :
    Leaves ids m (log ++ c.removals s) s' := by
  cases c with
  | arrive i x =>
    cases hs
    simp only [Call.removals, List.append_nil]
    refine ⟨?_, fun {j id} hj => ?_, h.reader, h.queue, h.links, h.master, h.half, h.removed, h.released⟩
    · have hv := h.valid
      show TransPc.Valid (s.arrive i x) s.pc
      cases hpc : s.pc <;> rw [hpc] at hv <;> exact hv
    · by_cases hji : j = i
      · subst hji
        simp only [Client.arrive, Function.update_self, List.mem_append, List.mem_singleton] at hj
        rcases hj with h1 | rfl
        · exact h.mail h1
        · rw [← hm]; simpa [Call.tidy] using hok
      · simp only [Client.arrive, Function.update_of_ne hji] at hj
        exact h.mail hj
  | act l =>
    obtain ⟨out, h1⟩ := Client.serve_act hs
    have hmove := Client.moves_of_step h1
    have hn : 0 < ids.length := (List.getElem?_eq_some_iff.mp h0).1
    have hop : ∀ {a}, s.removal l = some a → a ∈ log ++ (s.removal l).toList := by
      intro a hx
      rw [hx]
      exact List.mem_append_right _ (List.mem_singleton_self a)
    refine ⟨Client.valid_of_step h.valid h1, fun hj => h.mail (hmove.inbox hj), fun {i id a} hr => ?_,
      h.queue_step hm hok h1, h.links_step h0 hm hok h1, h.master_step hn hm h1, fun hh => ?_, fun hr => ?_,
      fun hrel => ?_⟩
    · rcases (hmove.reader i).remove_back hr with h2 | ⟨-, h2, h3⟩ | ⟨-, a', h2, -⟩
      · exact h.reader h2
      · have hid := h.mail h2
        subst hid
        exact ⟨(index_inj hnd h3 h0).mp rfl, rfl⟩
      · exact h.reader h2
    · rcases hh with hpc | hr
      · rcases hmove.trans.links_back hpc with h2 | ⟨rfl, h2⟩
        · exact List.mem_append_left _ (h.half (.inl h2))
        · exact hop (by simp [Client.removal, h2])
      · rcases (hmove.reader 0).remove_back hr with h2 | ⟨h2, -⟩ | ⟨rfl, a', h2, h3⟩
        · exact List.mem_append_left _ (h.half (.inr h2))
        · cases h2
        · refine hop ?_
          cases a' with
          | test => simp only [Client.removeNext] at h3; split_ifs at h3; cases h3
          | queue => simp [Client.removal, h2]
          | links => cases h3
    · by_cases hold : s.removed = true
      · rcases h.removed hold with h2 | h2
        · exact .inl ⟨List.mem_append_left _ h2.1, List.mem_append_left _ h2.2⟩
        · exact h.removing_step h1 h2
      · -- the call of `remove` that sets `status` begins its work
        have hnext : s.removeNext .test = some .queue := by simp [Client.removeNext, hold]
        rcases hmove.removed.mp hr with h2 | ⟨rfl, h2⟩ | ⟨i, id, rfl, h2⟩
        · exact absurd h2 hold
        · have h3 := hmove.trans.remove_next h2
          rw [hnext] at h3
          exact .inr (.inl h3)
        · obtain ⟨rfl, -⟩ := h.reader h2
          have h3 := (hmove.reader 0).remove_next h2
          rw [hnext] at h3
          right; right; right
          rw [h3]
          rfl
    · rcases hmove.trans.released_back hrel with h2 | ⟨rfl, h2⟩ | ⟨rfl, h2, h3⟩
      · exact ⟨List.mem_append_left _ (h.released h2).1, List.mem_append_left _ (h.released h2).2⟩
      · exact ⟨List.mem_append_left _ (h.half (.inl h2)), hop (by simp [Client.removal, h2])⟩
      · have hidle : (s.reader 0).removing = false := by
          simpa [Call.tidy, Client.removal, h2, h3] using hok
        rcases h.removed h3 with h4 | h4 | h4 | h4
        · exact ⟨List.mem_append_left _ h4.1, List.mem_append_left _ h4.2⟩
        · rw [h2] at h4; cases h4
        · rw [h2] at h4; cases h4
        · rw [hidle] at h4; cases h4

end

/-- The hubs hold nothing of the call: no queue of the master, no link of a lane. -/
def Client.Clean (ids : List KSUID) (s : Client KSUID) : Prop :=
  s.queues.hub.ref? (Client.masterID ids) = none ∧ ∀ id ∈ ids, s.links.hub.ref? id = none

instance (s : Client KSUID) : Decidable (s.Clean ids) := by
  unfold Client.Clean
  infer_instance

/-- A call in which `remove` does its work after the lanes were added and, if there are several, after the
    master's link got their order, leaves nothing behind. -/
theorem lanes_released (hnd : ids.Nodup) (hne : ids ≠ [])
    (h : Run (Client.serve ids) (fun s c => c.tidy ids s = true) Client.init ls s) (hpc : s.pc = .returned) :
    s.Clean ids := by
  have h0 : ids[0]? = some (Client.masterID ids) := by
    cases ids with
    | nil => exact absurd rfl hne
    | cons id rest => rfl
  have hleft : Leaves ids (Client.masterID ids) (history (Client.serve ids) (fun s c => c.removals s) Client.init ls) s :=
    h.history_invariant Leaves.init fun _ _ _ _ h1 hok hs => h1.step hnd h0 rfl hok hs
  obtain ⟨hq, hl⟩ := hleft.released (by rw [hpc]; rfl)
  exact ⟨(hleft.queue hq).2, (hleft.links hl).2⟩

set_option maxRecDepth 100000 in
/-- Two lanes, and `Establish` fails: the link of the second lane stays. -/
theorem failed_establish_leaks : ∃ s, Run (Client.serve [7, 8]) anyStep Client.init
      (List.replicate 9 (.act .trans) ++ [.act .transFail] ++ List.replicate 8 (.act .trans)) s ∧
    s.pc = .returned ∧ s.err = some .establish ∧ ¬ s.Clean [7, 8] := by
  have hexec : (exec (Client.serve [7, 8]) (fun _ _ => true) Client.init
      (List.replicate 9 (.act .trans) ++ [.act .transFail] ++ List.replicate 8 (.act .trans))).map
      (fun s => decide (s.pc = .returned ∧ s.err = some .establish ∧ ¬ s.Clean [7, 8])) = some true := by
    decide +kernel
  obtain ⟨s, hrun, hobs⟩ := exists_run_of_exec hexec
  exact ⟨s, hrun.mono fun _ _ _ => trivial, of_decide_eq_true hobs⟩

/-- Two lanes up to `oo.Wait()`. -/
def calling : List (Call ℕ) := List.replicate 18 (.act .trans)

/-- The end of the call after `link.Send` timed out. -/
def hangUp : List (Call ℕ) :=
  List.replicate 3 (Call.act (.linkSend 0 0 .ok)) ++ [Call.act (.linkSend 0 0 .timeout), .act (.linkSend 0 0 .ok),
    .act (.linkDone 0 0)] ++ List.replicate 8 (Call.act .trans)

set_option maxRecDepth 100000 in
/-- A call of two lanes that goes through. -/
theorem lanes_released_two_lanes : ∃ s, Run (Client.serve [7, 8]) (fun s c => c.tidy [7, 8] s = true) Client.init
      (calling ++ hangUp) s ∧ s.pc = .returned ∧ s.Clean [7, 8] := by
  have hexec : (exec (Client.serve [7, 8]) (fun s c => c.tidy [7, 8] s) Client.init (calling ++ hangUp)).map
      (fun s => s.pc) = some .returned := by decide +kernel
  obtain ⟨s, hrun, hobs⟩ := exists_run_of_exec hexec
  exact ⟨s, hrun, hobs, lanes_released (by decide) (by decide) hrun hobs⟩

end Wssocks.Wss

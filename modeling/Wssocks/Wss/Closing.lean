import Wssocks.Wss.Control
import Wssocks.Wss.Session
import Wssocks.Wss.Traffic

/-!
# Closing a session while it is established

A session is closed by `finish`, by `hub.Close` and by `establish` itself; the first two look the
instance up in the connection pool, which `establish` fills between its steps. `Close` may so run
between any two steps of `establish`.

Results:

* `establish_waits_on_nil`: a `finish` between `addNewProxy` and `serverQueueHub.Get` makes the
  server panic.
* `establish_finds_queue`: if no queue is removed while an `establish` of its id is on the way to
  `Get`, `writer.Wait()` is never called on nil.
* `Closings.step`: an instance that is marked as closed has been closed, or a `Close` is at it.
-/

namespace Wssocks.Wss

open Wssocks.Lib Wssocks.Pipe

variable {W KSUID : Type} [DecidableEq W] [DecidableEq KSUID]

variable {s s' : Server W KSUID} {l : Traffic W KSUID} {ls : List (Traffic W KSUID)} {e : ℕ}
  {a : ServerLabel W KSUID} {x : Est W KSUID} {out : Option (W × Msg KSUID)}

omit [DecidableEq W] in
/-- The entry of `k` stays unless `Remove(k)` runs. -/
theorem QueuesDid.ref?_stays {q q' : Queues KSUID (WsWriter W KSUID)} {o : Option (HubOp W KSUID)}
    {k : KSUID} {r : ℕ} (h : QueuesDid q q' o) (ho : o ≠ some (.queueRemove k)) (hk : q.hub.ref? k = some r) :
    q'.hub.ref? k = some r := by
  by_cases hrm : ∃ y, o = some y ∧ y.removes = true
  · obtain ⟨y, rfl, hy⟩ := hrm
    cases y with
    | queueRemove m =>
      have hne : k ≠ m := fun h1 => ho (by rw [h1])
      rw [show q' = q.remove m from h, Queues.remove, QueueHub.ref?_remove, if_neg hne, hk]
    | linkRemove m =>
      rw [show q'.hub.ref? k = q.hub.ref? k from Queues.Ran.ref? h k, hk]
    | _ => cases hy
  · refine h.ref?_mono (fun y hy => ?_) hk
    by_contra h1
    exact hrm ⟨y, hy, by simpa using h1⟩

/-! ## `establish` and its queue -/

/-- No queue is removed while an `establish` of its id, or the `est` that starts one, is on the way
    to `serverQueueHub.Get`. -/
def Traffic.spares (s : Server W KSUID) : Traffic W KSUID → Prop
  | .act l => ∀ m, s.op l = some (.queueRemove m) →
      (∀ e < s.nextEst, (s.ests e).id = m → (s.ests e).pc.beforeWait = false) ∧
      ∀ w sorted, s.reader w ≠ .est m sorted
  | _ => True

/-- Every `establish` on its way to `Get` finds its queue. -/
structure Wanted (s : Server W KSUID) : Prop where
  reader : ∀ w m sorted, s.reader w = .est m sorted → ∃ q, s.queues.hub.ref? m = some q
  before : ∀ e < s.nextEst, (s.ests e).pc.beforeWait = true → ∃ q, s.queues.hub.ref? (s.ests e).id = some q
  wait : ∀ e < s.nextEst, (s.ests e).pc = .wait → ∃ q, (s.ests e).writer = some q
  alive : s.crashed = false

omit [DecidableEq W] in
theorem Wanted.init [Inhabited KSUID] [Inhabited W] : Wanted (Server.init : Server W KSUID) :=
  ⟨nofun, nofun, nofun, rfl⟩

omit [DecidableEq W] in
/-- What an instance that exists does on its way to `Wait`. -/
theorem EstMove.back (h : EstMove s a e x) (he : e < s.nextEst) : x.id = (s.ests e).id ∧
    (x.pc.beforeWait = true → (s.ests e).pc.beforeWait = true) ∧
    (x.pc = .wait → ((s.ests e).pc = .wait ∧ x.writer = (s.ests e).writer) ∨
      ((s.ests e).pc = .get ∧ x.writer = s.queues.hub.ref? (s.ests e).id)) := by
  cases h with
  | same | mark | waiter | copy => exact ⟨rfl, fun h => h, fun h => .inl ⟨h, rfl⟩⟩
  | spawn hl hr hn => omega
  | dial hl hpc => exact ⟨rfl, fun _ => by rw [hpc]; rfl, fun h => by split_ifs at h⟩
  | get hl hpc => exact ⟨rfl, nofun, fun _ => .inr ⟨hpc, rfl⟩⟩
  | linkTry hl hpc | addProxy hl hpc | queueTry hl hpc => exact ⟨rfl, fun _ => by rw [hpc]; rfl, nofun⟩
  | wake | removeProxy | connClose | closeTest | closeSkip | closeLinks | closeQueue | tell =>
    exact ⟨rfl, nofun, nofun⟩

omit [DecidableEq W] in
/-- A reader that is in the middle of `est` was so before, or has just set the order of the queue. -/
theorem ReaderMove.est_back {w : W} {r : Reader KSUID} {m : KSUID} {sorted : List KSUID}
    (h : ReaderMove s a w r) (hr : r = .est m sorted) :
    s.reader w = .est m sorted ∨ s.op a = some (.queueSort m sorted) := by
  cases h with
  | same => exact .inl hr
  | @take x xs hl _ hin =>
    right
    cases x with
    | beats => cases hr
    | sayhi id m => cases hr
    | est id so => cases hr; rw [hl, Server.op, hin]; rfl
    | finish id => simp only [Server.takes] at hr; cases hp : (s.pool w).lookup id <;> rw [hp] at hr <;> cases hr
    | data id tag b =>
      simp only [Server.takes] at hr
      cases hp : s.links.hub.ref? id <;> rw [hp] at hr <;> cases hr
  | @close i id c hl _ => cases hn : s.closeNext i c <;> rw [hn] at hr <;> cases hr
  | @hubCloseAt i id c hl _ => cases hn : s.closeNext i c <;> rw [hn] at hr <;> cases hr
  | shake | test | write | disconnect | hubClose | stop => cases hr

omit [DecidableEq W] in
theorem ref?_of_setSort {q : Queues KSUID (WsWriter W KSUID)} {m : KSUID} {sort : List KSUID} :
    ∃ r, (q.setSort m sort).hub.ref? m = some r := by
  cases hm : q.hub.ref? m with
  | some r => rw [Queues.setSort_eq hm]; exact ⟨r, hm⟩
  | none =>
    refine ⟨q.hub.next, ?_⟩
    simp only [Queues.setSort, QueueHub.setSort, hm]
    rw [Registry.ref?_create, if_pos rfl]

theorem Wanted.step (h : Wanted s) (hsp : l.spares s) (hs : s.serve l = some s') : Wanted s' := by
  cases l with
  | arrive w x => cases hs; exact ⟨h.reader, h.before, h.wait, h.alive⟩
  | act a =>
    obtain ⟨out, h1⟩ := Server.serve_act hs
    have hm := Server.moves_of_step h1
    have hq := (Server.did_of_step h1).1
    have hkeep : ∀ {k r}, s.queues.hub.ref? k = some r → s.op a ≠ some (.queueRemove k) →
        ∃ q, s'.queues.hub.ref? k = some q := fun hk ho => ⟨_, hq.ref?_stays ho hk⟩
    have hreader : ∀ w m sorted, s.reader w = .est m sorted → ∃ q, s'.queues.hub.ref? m = some q := by
      intro w m sorted hr
      obtain ⟨q, hk⟩ := h.reader w m sorted hr
      exact hkeep hk fun ho => (hsp m ho).2 w sorted hr
    have hbefore : ∀ e < s.nextEst, (s.ests e).pc.beforeWait = true →
        ∃ q, s'.queues.hub.ref? (s.ests e).id = some q := by
      intro e he hb
      obtain ⟨q, hk⟩ := h.before e he hb
      refine hkeep hk fun ho => ?_
      rw [(hsp _ ho).1 e he rfl] at hb
      cases hb
    -- an instance of the new state is one of the old state, or has just been created
    have hcases : ∀ e < s'.nextEst, e < s.nextEst ∨
        ∃ w id sorted, s.reader w = .est id sorted ∧ s'.ests e = newEst w id := by
      intro e he
      rcases hm.next with h2 | ⟨w, id, sorted, -, hr, h2, h3⟩
      · exact .inl (h2 ▸ he)
      · by_cases hn : e = s.nextEst
        · exact .inr ⟨w, id, sorted, hr, hn ▸ h3⟩
        · left; omega
    refine ⟨fun w m sorted hr => ?_, fun e he hb => ?_, fun e he hw => ?_, ?_⟩
    · rcases (hm.reader w).est_back hr with h2 | h2
      · exact hreader w m sorted h2
      · rw [h2] at hq
        rw [show s'.queues = s.queues.setSort m sorted from hq]
        exact ref?_of_setSort
    · rcases hcases e he with h2 | ⟨w, id, sorted, hr, h2⟩
      · obtain ⟨h3, h4, -⟩ := (hm.est e).back h2
        rw [h3]
        exact hbefore e h2 (h4 hb)
      · rw [h2]
        exact hreader w id sorted hr
    · rcases hcases e he with h2 | ⟨w, id, sorted, hr, h2⟩
      · rcases ((hm.est e).back h2).2.2 hw with ⟨h3, h4⟩ | ⟨h3, h4⟩
        · rw [h4]; exact h.wait e h2 h3
        · rw [h4]; exact h.before e h2 (by rw [h3]; rfl)
      · rw [h2] at hw; cases hw
    · by_contra hc
      rcases hm.crashed (by simpa using hc) with h2 | ⟨e, -, he, hpc, hw⟩
      · rw [h.alive] at h2; cases h2
      · obtain ⟨q, hq⟩ := h.wait e he hpc
        rw [hw] at hq
        cases hq

/-- If no queue is removed while an `establish` of its id is on the way to `Get`, every `establish` that
    waits has a queue to wait on, and the server does not panic there. -/
theorem establish_finds_queue [Inhabited KSUID] [Inhabited W]
    (h : Run Server.serve (fun s l => l.spares s) (Server.init : Server W KSUID) ls s) :
    (∀ e < s.nextEst, (s.ests e).pc = .wait → (s.ests e).writer ≠ none) ∧ s.crashed = false := by
  have hw : Wanted s := h.invariant Wanted.init fun _ _ _ h1 hsp hs => h1.step hsp hs
  refine ⟨fun e he hpc hnone => ?_, hw.alive⟩
  obtain ⟨q, hq⟩ := hw.wait e he hpc
  rw [hnone] at hq
  cases hq

/-- The session `7` on websocket `0`, up to `addNewProxy`. -/
def toAddProxy : List (Traffic ℕ ℕ) :=
  [.arrive 0 (.sayhi 7 7), .arrive 0 (.est 7 [7]), .act (.recv 0), .act (.reader 0), .act (.recv 0),
    .act (.reader 0), .act (.dial 0 .connected), .act (.est 0), .act (.est 0)]

/-- The handling of a `finish` for `7` that finds the instance in the pool. -/
def closeByFinish : List (Traffic ℕ ℕ) :=
  [.arrive 0 (.finish 7), .act (.recv 0), .act (.reader 0), .act (.reader 0), .act (.reader 0)]

set_option maxRecDepth 100000 in
/-- The `finish` is handled between `addNewProxy` and `serverQueueHub.Get`: `establish` calls `Wait` on a
    nil queue. -/
theorem establish_waits_on_nil :
    (∃ s, Run Server.serve anyStep Server.init (toAddProxy ++ closeByFinish ++ [.act (.est 0), .act (.est 0)]) s ∧
      (s.ests 0).pc = .wait ∧ (s.ests 0).writer = none) ∧
    ∃ s, Run Server.serve anyStep Server.init
        (toAddProxy ++ closeByFinish ++ [.act (.est 0), .act (.est 0), .act (.est 0)]) s ∧ s.crashed = true := by
  have hwait : (exec Server.serve (fun _ _ => true) Server.init
      (toAddProxy ++ closeByFinish ++ [.act (.est 0), .act (.est 0)])).map
      (fun s => ((s.ests 0).pc, (s.ests 0).writer)) = some (.wait, none) := by decide +kernel
  have hcrash : (exec Server.serve (fun _ _ => true) Server.init
      (toAddProxy ++ closeByFinish ++ [.act (.est 0), .act (.est 0), .act (.est 0)])).map
      (fun s => s.crashed) = some true := by decide +kernel
  obtain ⟨s, hrun, hobs⟩ := exists_run_of_exec hwait
  obtain ⟨t, hrunt, hobst⟩ := exists_run_of_exec hcrash
  simp only [Prod.mk.injEq] at hobs
  exact ⟨⟨s, hrun.mono fun _ _ _ => trivial, hobs⟩, t, hrunt.mono fun _ _ _ => trivial, hobst⟩

/-- The traffic is on websocket `w` alone, and there it spares the queues. -/
def Traffic.sparesOn (w : W) (s : Server W KSUID) : Traffic W KSUID → Bool
  | .act l =>
    (match l with
      | .recv v | .disconnect v => decide (v = w)
      | _ => true) &&
    match s.op l with
    | some (.queueRemove m) =>
      (List.range s.nextEst).all (fun e => !(decide ((s.ests e).id = m) && (s.ests e).pc.beforeWait)) &&
        !(s.reader w).shakes
    | _ => true
  | _ => true

/-- The other readers are idle. -/
theorem Traffic.idle_of_sparesOn {w : W} (hidle : ∀ v, v ≠ w → s.reader v = .idle) (h : l.sparesOn w s = true)
    (hs : s.serve l = some s') : ∀ v, v ≠ w → s'.reader v = .idle := by
  cases l with
  | arrive v x => cases hs; exact hidle
  | act a =>
    obtain ⟨out, h1⟩ := Server.serve_act hs
    intro v hv
    have hi := hidle v hv
    generalize hr : s'.reader v = r
    have hm := (Server.moves_of_step h1).reader v
    rw [hr] at hm
    simp only [Traffic.sparesOn, Bool.and_eq_true] at h
    cases hm with
    | same => exact hi
    | take hl => rw [hl] at h; exact absurd (of_decide_eq_true h.1) hv
    | disconnect hl => rw [hl] at h; exact absurd (of_decide_eq_true h.1) hv
    | shake | write => rfl
    | test hl hw | close hl hw | hubCloseAt hl hw => rw [hi] at hw; cases hw
    | hubClose hw | stop hw => rw [hi] at hw; cases hw

theorem Traffic.spares_of_sparesOn {w : W} (hidle : ∀ v, v ≠ w → s.reader v = .idle)
    (h : l.sparesOn w s = true) : l.spares s := by
  cases l with
  | arrive v x => trivial
  | act a =>
    intro m hm
    simp only [Traffic.sparesOn, hm, Bool.and_eq_true, List.all_eq_true, List.mem_range] at h
    refine ⟨fun e he hid => ?_, fun v sorted hr => ?_⟩
    · simpa [hid] using h.2.1 e he
    · by_cases hv : v = w
      · rw [← hv, hr] at h
        simp [Reader.shakes] at h
      · rw [hidle v hv] at hr
        cases hr

set_option maxRecDepth 100000 in
/-- The `finish` is handled after `serverQueueHub.Get`: the queue is removed from the hub, and `establish`
    waits on it still. -/
theorem establish_finds_queue_one_lane : ∃ s, Run Server.serve (fun s l => l.spares s) Server.init
      (toAddProxy ++ [.act (.est 0), .act (.est 0)] ++ closeByFinish) s ∧ (s.ests 0).pc = .wait ∧
    0 < s.nextEst ∧ s.queues.hub.ref? 7 = none ∧ (s.ests 0).writer ≠ none := by
  have hexec : (exec Server.serve (fun s l => l.sparesOn 0 s) Server.init
      (toAddProxy ++ [.act (.est 0), .act (.est 0)] ++ closeByFinish)).map
      (fun s => decide ((s.ests 0).pc = .wait ∧ 0 < s.nextEst ∧ s.queues.hub.ref? 7 = none)) = some true := by
    decide +kernel
  obtain ⟨s, hrun, hobs⟩ := exists_run_of_exec hexec
  obtain ⟨hpc, hlt, hnone⟩ := of_decide_eq_true hobs
  have hrun' : Run Server.serve (fun s l => l.spares s) Server.init _ s :=
    (hrun.mono_of_invariant (I := fun s => ∀ v, v ≠ 0 → s.reader v = .idle) (fun _ _ => rfl)
      (fun _ _ _ h1 h2 h3 => Traffic.idle_of_sparesOn h1 h2 h3)
      fun _ _ h1 h2 => Traffic.spares_of_sparesOn h1 h2).1
  exact ⟨s, hrun', hpc, hlt, hnone, (establish_finds_queue hrun').1 0 hlt hpc⟩

/-! ## Calls of `Close` -/

/-- The pools and the calls of `Close` are about the right instances. -/
structure Pooled (s : Server W KSUID) : Prop where
  pool : ∀ {w id e}, (s.pool w).lookup id = some e → e < s.nextEst ∧ (s.ests e).ws = w ∧ (s.ests e).id = id
  reader : ∀ {w e id c}, (s.reader w).closing = some (e, id, c) → e < s.nextEst ∧ (s.ests e).ws = w ∧
    (s.ests e).id = id ∧ (c ≠ .test → (s.ests e).closed = true)
  hub : ∀ {w e id c}, s.reader w = .hubCloseAt e id c → (s.pool w).lookup id = some e

omit [DecidableEq W] in
theorem Pooled.init [Inhabited KSUID] [Inhabited W] : Pooled (Server.init : Server W KSUID) :=
  ⟨by simp [Server.init], nofun, nofun⟩

/-- An instance that exists keeps its websocket and its id, and stays closed. -/
theorem EstMove.keeps (h : EstMove s a e x) (he : e < s.nextEst) :
    x.ws = (s.ests e).ws ∧ x.id = (s.ests e).id ∧ ((s.ests e).closed = true → x.closed = true) := by
  cases h with
  | spawn hl hr hn => omega
  | closeTest | mark => exact ⟨rfl, rfl, fun _ => rfl⟩
  | _ => exact ⟨rfl, rfl, fun h => h⟩

omit [DecidableEq W] in
theorem Moves.next_le (h : Moves s a s') : s.nextEst ≤ s'.nextEst := by
  rcases h.next with h1 | ⟨-, -, -, -, -, h1, -⟩ <;> omega

omit [DecidableEq W] in
/-- A call of `Close` in a reader: it was there before, it has just been made, or it has executed an
    operation. -/
theorem ReaderMove.closing_back {w : W} {r : Reader KSUID} {id : KSUID} {c : CloseAt}
    (h : ReaderMove s a w r) (hr : r.closing = some (e, id, c)) :
    (r = s.reader w) ∨ (c = .test ∧ (s.pool w).lookup id = some e) ∨
      (a = .reader w ∧ ∃ c', (s.reader w).closing = some (e, id, c') ∧ s.closeNext e c' = some c ∧
        (∀ i x y, r = .hubCloseAt i x y → s.reader w = .hubCloseAt e id c')) := by
  cases h with
  | same => exact .inl rfl
  | @take x xs hl _ hin =>
    right; left
    cases x with
    | finish i =>
      simp only [Server.takes] at hr
      cases hp : (s.pool w).lookup i with
      | none => rw [hp] at hr; cases hr
      | some j => rw [hp] at hr; cases hr; exact ⟨rfl, hp⟩
    | data i tag b => simp only [Server.takes] at hr; cases hp : s.links.hub.ref? i <;> rw [hp] at hr <;> cases hr
    | _ => cases hr
  | @close i x d hl hrw =>
    right; right
    cases hn : s.closeNext i d with
    | none => rw [hn] at hr; cases hr
    | some d' =>
      rw [hn] at hr
      cases hr
      exact ⟨hl, d, by rw [hrw]; rfl, hn, fun _ _ _ hx => by cases hx⟩
  | @hubCloseAt i x d hl hrw =>
    right; right
    cases hn : s.closeNext i d with
    | none => rw [hn] at hr; cases hr
    | some d' =>
      rw [hn] at hr
      cases hr
      exact ⟨hl, d, by rw [hrw]; rfl, hn, fun _ _ _ _ => hrw⟩
  | hubClose _ hp => cases hr; exact .inr (.inl ⟨rfl, hp⟩)
  | shake | test | write | disconnect | stop => cases hr

theorem Server.goReader_self {w : W} {r : Reader KSUID} : (s.goReader w r).reader w = r :=
  Function.update_self _ _ _

/-- What a reader in a call of `Close` does next. -/
theorem Server.close_of_step {w : W} {out : Option (W × Msg KSUID)} {id : KSUID} {c : CloseAt}
    (h : s.step (.reader w) = some (s', out)) (hr : (s.reader w).closing = some (e, id, c)) :
    (s'.reader w).closing = (s.closeNext e c).map (e, id, ·) ∧ (c = .test → (s'.ests e).closed = true) := by
  have hmark : ∀ i x, ((s.closeStep i x .test).1.ests i).closed = true := by
    intro i x
    simp only [Server.closeStep]
    split_ifs with hc
    · exact hc
    · show (Function.update s.ests i _ i).closed = true
      rw [Function.update_self]
  cases ServerStep.of_step h with
  | reader h1 =>
    cases h1 with
    | @close i x d hw =>
      rw [hw] at hr
      cases hr
      refine ⟨?_, fun hc => by subst hc; exact hmark e id⟩
      rw [Server.goReader_self]
      cases s.closeNext e c <;> rfl
    | @hubClose i x d d' hw hn =>
      rw [hw] at hr
      cases hr
      refine ⟨?_, fun hc => by subst hc; exact hmark e id⟩
      rw [Server.goReader_self, hn]
      rfl
    | @hubDelete i x d hw hn =>
      rw [hw] at hr
      cases hr
      refine ⟨?_, fun hc => by subst hc; exact hmark e id⟩
      rw [Server.goReader_self, hn]
      rfl
    | hi hw | est hw | refuse hw | test hw | write hw => rw [hw] at hr; cases hr

theorem Pooled.step {out : Option (W × Msg KSUID)} (h : Pooled s) (hs : s.step a = some (s', out)) :
    Pooled s' := by
  have hm := Server.moves_of_step hs
  have hle := hm.next_le
  have hkeep : ∀ {w id e}, (e < s.nextEst ∧ (s.ests e).ws = w ∧ (s.ests e).id = id) →
      e < s'.nextEst ∧ (s'.ests e).ws = w ∧ (s'.ests e).id = id := by
    intro w id e h1
    obtain ⟨h2, h3, -⟩ := (hm.est e).keeps h1.1
    exact ⟨by omega, h2.trans h1.2.1, h3.trans h1.2.2⟩
  have hestlt : ∀ {i}, a = .est i → i < s.nextEst := by
    rintro i rfl
    exact (Server.dialing_of_est hs).1
  refine ⟨fun {w id e} hp => ?_, fun {w e id c} hr => ?_, fun {w e id c} hr => ?_⟩
  · generalize hpool : s'.pool w = p at hp
    have hpm := hm.pool w
    rw [hpool] at hpm
    cases hpm with
    | same => exact hkeep (h.pool hp)
    | @add i hl hpc hw hlock =>
      by_cases hid : id = (s.ests i).id
      · rw [hid, AList.lookup_insert] at hp
        cases hp
        exact hkeep ⟨hestlt hl, hw, hid.symm⟩
      · rw [AList.lookup_insert_ne hid] at hp
        exact hkeep (h.pool hp)
    | @remove i hl hpc hw hlock =>
      by_cases hid : id = (s.ests i).id
      · rw [hid] at hp; simp at hp
      · rw [AList.lookup_erase_ne hid] at hp
        exact hkeep (h.pool hp)
    | @drop i x d hl hr hn =>
      by_cases hid : id = x
      · rw [hid] at hp; simp at hp
      · rw [AList.lookup_erase_ne hid] at hp
        exact hkeep (h.pool hp)
  · rcases (hm.reader w).closing_back hr with h1 | ⟨rfl, h1⟩ | ⟨rfl, c', h1, h2, -⟩
    · rw [h1] at hr
      obtain ⟨h2, h3, h4, h5⟩ := h.reader hr
      obtain ⟨h6, h7, h8⟩ := hkeep ⟨h2, h3, h4⟩
      exact ⟨h6, h7, h8, fun h9 => ((hm.est e).keeps h2).2.2 (h5 h9)⟩
    · obtain ⟨h6, h7, h8⟩ := hkeep (h.pool h1)
      exact ⟨h6, h7, h8, fun h9 => absurd rfl h9⟩
    · obtain ⟨h3, h4, h5, h6⟩ := h.reader h1
      obtain ⟨h7, h8, h9⟩ := hkeep ⟨h3, h4, h5⟩
      refine ⟨h7, h8, h9, fun _ => ?_⟩
      by_cases hc : c' = .test
      · exact (Server.close_of_step hs h1).2 hc
      · exact ((hm.est e).keeps h3).2.2 (h6 hc)
  · -- the reader holds the lock, so the pool is its own
    have hpool : (s.reader w).locked = true →
        (∀ i x d, a = .reader w → s.reader w = .hubCloseAt i x d → s.closeNext i d ≠ none) →
        s'.pool w = s.pool w := by
      intro hlk hnx
      generalize hp : s'.pool w = p
      have hpm := hm.pool w
      rw [hp] at hpm
      cases hpm with
      | same => rfl
      | add hl hpc hw hlock => rw [hlk] at hlock; cases hlock
      | remove hl hpc hw hlock => rw [hlk] at hlock; cases hlock
      | drop hl hrd hn => exact absurd hn (hnx _ _ _ hl hrd)
    have hclo : (s'.reader w).closing = some (e, id, c) := by rw [hr]; rfl
    generalize hrd : s'.reader w = r at hr
    have hrm := hm.reader w
    rw [hrd] at hrm
    cases hrm with
    | same =>
      rw [hpool (by rw [hr]; rfl) fun i x d ha hi hn => ?_]
      · exact h.hub hr
      · subst ha
        rw [(Server.close_of_step hs (show (s.reader w).closing = some (i, x, d) by rw [hi]; rfl)).1, hn] at hclo
        cases hclo
    | @take x xs hl _ hin =>
      cases x with
      | finish i => simp only [Server.takes] at hr; cases hp : (s.pool w).lookup i <;> rw [hp] at hr <;> cases hr
      | data i tag b =>
        simp only [Server.takes] at hr; cases hp : s.links.hub.ref? i <;> rw [hp] at hr <;> cases hr
      | _ => cases hr
    | @close i x d hl hrw => cases hn : s.closeNext i d <;> rw [hn] at hr <;> cases hr
    | @hubCloseAt i x d hl hrw =>
      cases hn : s.closeNext i d with
      | none => rw [hn] at hr; cases hr
      | some d' =>
        rw [hn] at hr
        cases hr
        rw [hpool (by rw [hrw]; rfl) fun i' x' d'' _ hi hn' => ?_]
        · exact h.hub hrw
        · rw [hrw] at hi
          cases hi
          rw [hn] at hn'
          cases hn'
    | hubClose hrw hp =>
      cases hr
      rw [hpool (by rw [hrw]; rfl) fun i' x' d'' _ hi => by rw [hrw] at hi; cases hi]
      exact hp
    | shake | test | write | disconnect | stop => cases hr

/-- Both operations of `Close` were executed, where `done o` tells that `o` was. -/
def Closed (done : HubOp W KSUID → Prop) (id : KSUID) : Prop := done (.linkRemove id) ∧ done (.queueRemove id)

/-- Only `Close` removes, and only the entries of an instance. -/
theorem Pooled.removes {o : HubOp W KSUID} (h : Pooled s) (hs : s.step a = some (s', out))
    (ho : s.op a = some o) (hr : o.removes = true) :
    ∃ e < s.nextEst, o = .linkRemove (s.ests e).id ∨ o = .queueRemove (s.ests e).id := by
  have hclose : ∀ {id : KSUID} {c : CloseAt}, c.op id = some o → o = .linkRemove id ∨ o = .queueRemove id := by
    intro id c hc
    cases c with
    | test => cases hc
    | links => cases hc; exact .inl rfl
    | queue => cases hc; exact .inr rfl
  cases a with
  | recv w =>
    simp only [Server.op, Option.bind_eq_some_iff] at ho
    obtain ⟨x, -, hx⟩ := ho
    cases x <;> cases hx <;> cases hr
  | reader w =>
    simp only [Server.op] at ho
    cases hw : s.reader w with
    | close i id c | hubCloseAt i id c =>
      rw [hw] at ho
      have hclosing : (s.reader w).closing = some (i, id, c) := by rw [hw]; rfl
      obtain ⟨hi, -, hid, -⟩ := h.reader hclosing
      exact ⟨i, hi, hid ▸ hclose ho⟩
    | hi id x | est id x => rw [hw] at ho; cases ho; cases hr
    | _ => rw [hw] at ho; cases ho
  | est e =>
    refine ⟨e, (Server.dialing_of_est hs).1, ?_⟩
    simp only [Server.op] at ho
    cases hpc : (s.ests e).pc with
    | close c => rw [hpc] at ho; exact hclose ho
    | linkTrySend | queueTrySend => rw [hpc] at ho; cases ho; cases hr
    | _ => rw [hpc] at ho; cases ho
  | _ => cases ho

/-- Who is closing instance `e`, and how far the call is. -/
def ClosingBy (s : Server W KSUID) (done : HubOp W KSUID → Prop) (e : ℕ) : Prop :=
  ∃ c, c ≠ .test ∧ (c = .queue → done (.linkRemove (s.ests e).id)) ∧
    ((s.reader (s.ests e).ws).closing = some (e, (s.ests e).id, c) ∨ (s.ests e).pc = .close c)

/-- An instance that is marked as closed has been closed, or somebody is at it. -/
structure Closings (done : HubOp W KSUID → Prop) (s : Server W KSUID) : Prop where
  pooled : Pooled s
  closed : ∀ e < s.nextEst, (s.ests e).closed = true → Closed done (s.ests e).id ∨ ClosingBy s done e

omit [DecidableEq W] in
theorem Closings.init [Inhabited KSUID] [Inhabited W] {done : HubOp W KSUID → Prop} :
    Closings done (Server.init : Server W KSUID) :=
  ⟨Pooled.init, nofun⟩

omit [DecidableEq W] in
/-- A call of `Close` in a reader waits for its reader. -/
theorem ReaderMove.closing_stays {w : W} {r : Reader KSUID} {y : ℕ × KSUID × CloseAt}
    (h : ReaderMove s a w r) (hr : (s.reader w).closing = some y) (ha : a ≠ .reader w) : r = s.reader w := by
  cases h with
  | same => rfl
  | take _ h1 | disconnect _ h1 | hubClose h1 | stop h1 => rw [h1] at hr; cases hr
  | write h1 => rcases h1 with h1 | h1 <;> rw [h1] at hr <;> cases hr
  | shake hl | test hl | close hl | hubCloseAt hl => exact absurd hl ha

omit [DecidableEq W] in
/-- `hub.Close` keeps the lock until the pool is empty. -/
theorem ReaderMove.locked_stays {w : W} {r : Reader KSUID} (h : ReaderMove s a w r)
    (hr : (s.reader w).locked = true) : r.locked = true ∨ (s.pool w).entries = [] := by
  cases h with
  | same => exact .inl hr
  | take _ h1 | disconnect _ h1 => rw [h1] at hr; cases hr
  | shake _ h1 => cases hx : s.reader w <;> simp_all [Reader.locked, Reader.shakes]
  | test _ h1 => rw [h1] at hr; cases hr
  | write h1 => rcases h1 with h1 | h1 <;> rw [h1] at hr <;> cases hr
  | close _ h1 => rw [h1] at hr; cases hr
  | @hubCloseAt i x d _ h1 => left; cases s.closeNext i d <;> rfl
  | hubClose => exact .inl rfl
  | stop _ hp => exact .inr hp

omit [DecidableEq W] in
/-- The deferred `Close` of `establish` is not interrupted. -/
theorem EstMove.close_stays {c : CloseAt} (h : EstMove s a e x) (hpc : (s.ests e).pc = .close c)
    (ha : a ≠ .est e) (he : e < s.nextEst) : x.pc = .close c := by
  cases h with
  | same | mark | waiter | copy => exact hpc
  | spawn _ _ hn => omega
  | dial _ h1 | tell _ h1 => rw [hpc] at h1; cases h1
  | wake h1 => rw [hpc] at h1; cases h1
  | linkTry hl | addProxy hl | queueTry hl | get hl | removeProxy hl | connClose hl | closeTest hl | closeSkip hl
  | closeLinks hl | closeQueue hl => exact absurd hl ha

theorem Server.est_close_of_step {out : Option (W × Msg KSUID)} (h : s.step (.est e) = some (s', out))
    (hpc : (s.ests e).pc = .close .links) : (s'.ests e).pc = .close .queue := by
  cases ServerStep.of_step h with
  | est he h1 =>
    cases h1 with
    | close hc =>
      rw [hpc] at hc
      cases hc
      show (Function.update s.ests e _ e).pc = _
      rw [Function.update_self]
      rfl
    | linkTrySend hc | addProxy hc | queueTrySend hc | get hc | nilWait hc | wake hc | removeProxy hc
    | connClose hc => rw [hpc] at hc; cases hc

variable {done done' : HubOp W KSUID → Prop}

omit [DecidableEq W] in
/-- The operation that a call of `Close` in a reader executes. -/
theorem Server.op_of_closing {w : W} {id : KSUID} {c : CloseAt} (h : (s.reader w).closing = some (e, id, c)) :
    s.op (.reader w) = c.op id := by
  rw [Server.op]
  cases hr : s.reader w with
  | close | hubCloseAt => rw [hr] at h; cases h; rfl
  | _ => rw [hr] at h; cases h

/-- An instance that a `Close` was working on. -/
theorem ClosingBy.step (h : ClosingBy s done e) (he : e < s.nextEst) (hs : s.step a = some (s', out))
    (hmono : ∀ o, done o → done' o) (hdid : ∀ o, s.op a = some o → done' o) :
    Closed done' (s'.ests e).id ∨ ClosingBy s' done' e := by
  have hm := Server.moves_of_step hs
  obtain ⟨hws, hid, -⟩ := (hm.est e).keeps he
  obtain ⟨c, hc, hlink, hby⟩ := h
  unfold Closed ClosingBy
  rw [hws, hid]
  rcases hby with hr | hpc
  · by_cases ha : a = .reader (s.ests e).ws
    · have hnext := (Server.close_of_step (ha ▸ hs) hr).1
      rw [ha, Server.op_of_closing hr] at hdid
      cases c with
      | test => exact absurd rfl hc
      | links => exact .inr ⟨.queue, nofun, fun _ => hdid _ rfl, .inl hnext⟩
      | queue => exact .inl ⟨hmono _ (hlink rfl), hdid _ rfl⟩
    · have hsame := (hm.reader (s.ests e).ws).closing_stays hr ha
      exact .inr ⟨c, hc, fun h1 => hmono _ (hlink h1), .inl (by rw [hsame]; exact hr)⟩
  · by_cases ha : a = .est e
    · rw [ha, Server.op, hpc] at hdid
      cases c with
      | test => exact absurd rfl hc
      | links =>
        exact .inr ⟨.queue, nofun, fun _ => hdid _ rfl, .inr (Server.est_close_of_step (ha ▸ hs) hpc)⟩
      | queue => exact .inl ⟨hmono _ (hlink rfl), hdid _ rfl⟩
    · exact .inr ⟨c, hc, fun h1 => hmono _ (hlink h1), .inr ((hm.est e).close_stays hpc ha he)⟩

/-- An instance that a step closes. -/
theorem Pooled.closes (h : Pooled s) (he : e < s.nextEst) (hs : s.step a = some (s', out))
    (hc : (s.ests e).closed = false) (hc' : (s'.ests e).closed = true) : ClosingBy s' done' e := by
  have hm := Server.moves_of_step hs
  obtain ⟨hws, hid, -⟩ := (hm.est e).keeps he
  unfold ClosingBy
  rw [hws, hid]
  generalize hx : s'.ests e = x at hc'
  have hem := hm.est e
  rw [hx] at hem
  cases hem with
  | closeTest => exact ⟨.links, nofun, nofun, .inr rfl⟩
  | @mark w id hl hr _ =>
    obtain ⟨-, h2, h3, -⟩ := h.reader hr
    subst hl
    have hnext := (Server.close_of_step hs hr).1
    rw [h2, h3]
    refine ⟨.links, nofun, nofun, .inl ?_⟩
    rw [hnext]
    simp [Server.closeNext, hc]
  | spawn => cases hc'
  | _ => rw [hc] at hc'; cases hc'

theorem Closings.step (h : Closings done s) (hs : s.step a = some (s', out)) (hmono : ∀ o, done o → done' o)
    (hdid : ∀ o, s.op a = some o → done' o) : Closings done' s' := by
  have hm := Server.moves_of_step hs
  refine ⟨h.pooled.step hs, fun e he hc => ?_⟩
  by_cases hlt : e < s.nextEst
  · by_cases hold : (s.ests e).closed = true
    · rcases h.closed e hlt hold with h2 | h2
      · rw [((hm.est e).keeps hlt).2.1]
        exact .inl ⟨hmono _ h2.1, hmono _ h2.2⟩
      · exact h2.step hlt hs hmono hdid
    · exact .inr (h.pooled.closes hlt hs (by simpa using hold) hc)
  · rcases hm.next with h2 | ⟨w, id, sorted, -, -, h2, h3⟩
    · omega
    · have hn : e = s.nextEst := by omega
      rw [hn, h3] at hc
      cases hc

end Wssocks.Wss

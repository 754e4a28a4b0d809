import Mathlib.Algebra.Order.BigOperators.Group.List
import Wssocks.Cli.Invariant

/-!
# How the client process ends

Results:

* `wait_returns_last`: nothing is closed twice, the WaitGroup never goes below zero, and `Wait`
  returns only when every goroutine of `StartClient` has ended.
* `interrupt_keeps_websockets`: after an interrupt, the websockets stay open as long as a connection
  that was open then is.
* `shutdown_terminates`: once `client.stop` is closed, the process comes to its end.
* `accepting_forever`: if the function of `once` ran before `hdl.cl` was set, `client.stop` is never
  closed, and `Wait` does not return unless accepting fails.
-/

namespace Wssocks.Cli

open Wssocks.Lib

variable {n : ℕ} {s s' : Process} {t : Task} {pc : TaskPc} {l : Label}

/-! ## Safety -/

/-- A goroutine that has not ended is in the sum. -/
theorem count_le_sum {m : List Task} (hnd : m.Nodup) (ht : t ∈ m) :
    (s.task t).count ≤ (m.map fun x => (s.task x).count).sum := by
  have hsum := sum_map_update (f := s.task) (b := .done) (w := TaskPc.count) hnd ht
  have hzero : TaskPc.done.count = 0 := rfl
  omega

/-- `client.stop` is not closed twice and `hdl.wg` does not go below zero; and when `Wait` returns, every goroutine
    that `StartClient` started has ended. -/
theorem wait_returns_last {ls : List Label} (h : Run (Process.step n) anyStep Process.init ls s) :
    s.panicked = false ∧ (s.main = .returned → ∀ t ∈ tasks n, s.task t = .done) := by
  have inv := Inv.run h
  refine ⟨inv.quiet, fun hm t ht => ?_⟩
  have hsum := inv.started.wg
  rw [inv.returned hm, hm] at hsum
  have hle : (s.task t).count ≤ _ := count_le_sum (nodup_tasks n) ht
  have hzero : (s.task t).count ≤ 0 := hle.trans hsum.ge
  cases hpc : s.task t with
  | done => rfl
  | _ => rw [hpc] at hzero; cases hzero

/-- One websocket; it breaks, and everything ends. -/
def brokenWebsocket : List Label :=
  List.replicate 8 Label.main ++ [Label.fail (.listener 0)] ++ List.replicate 8 (Label.task (.listener 0)) ++
    List.replicate 2 (Label.task .heartBeat) ++ List.replicate 3 (Label.task .accept) ++ [Label.main]

theorem wait_returns_last_broken : ∃ s, Run (Process.step 1) anyStep Process.init brokenWebsocket s ∧
    s.main = .returned ∧ ∀ t ∈ tasks 1, s.task t = .done := by
  have hexec : (exec (Process.step 1) (fun _ _ => true) Process.init brokenWebsocket).map (fun s => s.main) =
      some .returned := by
    decide +kernel
  obtain ⟨s, hrun, hobs⟩ := exists_run_of_exec hexec
  have hany : Run (Process.step 1) anyStep Process.init brokenWebsocket s := hrun.mono fun _ _ _ => trivial
  exact ⟨s, hany, hobs, (wait_returns_last hany).2 hobs⟩

/-! ## What one step changes -/

/-- What an operation of `t` leaves as it is. -/
structure Moved (t : Task) (s s' : Process) : Prop where
  others : ∀ t', t' ≠ t → s'.task t' = s.task t'
  born : s'.task t = .unborn → s.task t = .unborn
  main : s'.main = s.main
  conns : s'.conns = s.conns
  exited : s'.exited = s.exited
  stop : s.stop = true → s'.stop = true

theorem Moved.of_goto (htask : s'.task = (s.goto t pc).task) (hpc : pc ≠ .unborn) (hmain : s'.main = s.main)
    (hconns : s'.conns = s.conns) (hexited : s'.exited = s.exited) (hstop : s.stop = true → s'.stop = true) :
    Moved t s s' where
  others := fun _ ht => by rw [htask, Process.task_goto, if_neg ht]
  born := fun ht => absurd (by rwa [htask, Process.task_goto, if_pos rfl] at ht) hpc
  main := hmain
  conns := hconns
  exited := hexited
  stop := hstop

theorem Moved.goto (hpc : pc ≠ .unborn) : Moved t s (s.goto t pc) := .of_goto rfl hpc rfl rfl rfl id

/-- An operation that does not move `t`. -/
theorem Moved.stay (htask : s'.task = s.task) (hmain : s'.main = s.main) (hconns : s'.conns = s.conns)
    (hexited : s'.exited = s.exited) (hstop : s'.stop = s.stop) : Moved t s s' :=
  ⟨fun t' _ => congrFun htask t', fun h => by rw [← htask, h], hmain, hconns, hexited, fun h => hstop.trans h⟩

theorem Moved.finish : Moved t s (s.finish t) := by
  cases t with
  | notify => exact .goto fun h => (by cases h)
  | listener | heartBeat | accept =>
    simp only [Process.finish]
    split_ifs
    · exact .stay rfl rfl rfl rfl rfl
    · exact .of_goto rfl (fun h => (by cases h)) rfl rfl rfl id

theorem Moved.closeStep {q : ClosePc} (hs : s.closeStep n t q = some s') : Moved t s s' := by
  cases q with
  | start | test => cases hs; exact .goto fun h => (by cases h)
  | tcpl | heartBeat => cases hs; exact .of_goto rfl (fun h => (by cases h)) rfl rfl rfl id
  | stop =>
    simp only [Process.closeStep] at hs
    split_ifs at hs <;> cases hs
    · exact .stay rfl rfl rfl rfl rfl
    · exact .of_goto rfl (fun h => (by cases h)) rfl rfl rfl fun _ => rfl
  | wait =>
    simp only [Process.closeStep] at hs
    split_ifs at hs
    cases hs
    exact .goto fun h => (by cases h)
  | websocket i =>
    simp only [Process.closeStep] at hs
    split_ifs at hs <;> cases hs
    · exact .of_goto rfl (fun h => (by cases h)) rfl rfl rfl id
    · have hfin : Moved t { s with once := .finished } (({ s with once := .finished } : Process).finish t) := .finish
      exact ⟨hfin.others, hfin.born, hfin.main, hfin.conns, hfin.exited, hfin.stop⟩

theorem Moved.runStep (hs : s.runStep n t = some s') : Moved t s s' := by
  cases t with
  | listener | heartBeat =>
    simp only [Process.runStep] at hs
    split_ifs at hs
    cases hs
    exact .goto fun h => (by cases h)
  | accept =>
    simp only [Process.runStep] at hs
    cases hsv : s.serve with
    | listen =>
      simp only [hsv, Option.some.injEq] at hs
      subst hs
      exact .stay rfl rfl rfl rfl rfl
    | check =>
      simp only [hsv] at hs
      split_ifs at hs <;> cases hs
      · exact .goto fun h => (by cases h)
      · exact .stay rfl rfl rfl rfl rfl
    | accept =>
      simp only [hsv] at hs
      split_ifs at hs
      cases hs
      exact .goto fun h => (by cases h)
  | notify =>
    simp only [Process.runStep] at hs
    split_ifs at hs <;> cases hs
    · exact .goto fun h => (by cases h)
    · exact .of_goto rfl (fun h => (by cases h)) rfl rfl rfl id

theorem Moved.taskStep (hs : s.taskStep n t = some s') : Moved t s s' := by
  unfold Process.taskStep at hs
  cases hpc : s.task t with
  | unborn | done => simp only [hpc] at hs; cases hs
  | running => simp only [hpc] at hs; exact .runStep hs
  | once =>
    simp only [hpc] at hs
    cases ho : s.once with
    | fresh =>
      simp only [ho, Option.some.injEq] at hs
      subst hs
      exact .of_goto rfl (fun h => (by cases h)) rfl rfl rfl id
    | busy => simp only [ho] at hs; cases hs
    | finished =>
      simp only [ho, Option.some.injEq] at hs
      subst hs
      exact .finish
  | closing q => simp only [hpc] at hs; exact .closeStep hs

/-- What the main goroutine does to the others. -/
theorem Inv.mainStep_frame (h : Inv n s) (hs : s.mainStep n = some s') :
    (∀ t, s'.task t = s.task t ∨ (s.task t = .unborn ∧ s'.task t = .running)) ∧ s'.conns = s.conns ∧
      s'.serve = s.serve ∧ s'.exited = s.exited ∧ s'.stop = s.stop := by
  have hlaunch : ∀ {t' : Task}, s.task t' = .unborn → ∀ t, (s.goto t' .running).task t = s.task t ∨
      (s.task t = .unborn ∧ (s.goto t' .running).task t = .running) := by
    intro t' hu t
    rw [Process.task_goto]
    split_ifs with ht
    · exact .inr ⟨by rw [ht, hu], rfl⟩
    · exact .inl rfl
  unfold Process.mainStep at hs
  cases hm : s.main with
  | add | setHb | setCl | opened =>
    simp only [hm, Option.some.injEq] at hs
    subst hs
    exact ⟨fun _ => .inl rfl, rfl, rfl, rfl, rfl⟩
  | listener i =>
    simp only [hm] at hs
    split_ifs at hs <;> cases hs
    · exact ⟨hlaunch (h.started.listener i (by rw [hm]; exact le_rfl)), rfl, rfl, rfl, rfl⟩
    · exact ⟨fun _ => .inl rfl, rfl, rfl, rfl, rfl⟩
  | goHb =>
    simp only [hm, Option.some.injEq] at hs
    subst hs
    exact ⟨hlaunch (h.started.heartBeat (by rw [hm]; exact le_rfl)), rfl, rfl, rfl, rfl⟩
  | goCl =>
    simp only [hm, Option.some.injEq] at hs
    subst hs
    exact ⟨hlaunch (h.started.accept (by rw [hm]; exact le_rfl)), rfl, rfl, rfl, rfl⟩
  | wait =>
    simp only [hm] at hs
    split_ifs at hs
    cases hs
    exact ⟨fun _ => .inl rfl, rfl, rfl, rfl, rfl⟩
  | returned => simp only [hm] at hs; cases hs

/-- How a step changes the place of a goroutine. -/
theorem Inv.task_of_step (h : Inv n s) (hs : s.step n l = some s') (t : Task) :
    s'.task t = s.task t ∨ (s.task t = .unborn ∧ s'.task t = .running) ∨ l = .fail t ∨ l = .task t := by
  obtain ⟨-, hs⟩ := Option.ite_none_left_eq_some.mp hs
  cases l with
  | main =>
    rcases (h.mainStep_frame hs).1 t with ht | ht
    · exact .inl ht
    · exact .inr (.inl ht)
  | task t' =>
    by_cases ht : t = t'
    · exact .inr (.inr (.inr (by rw [ht])))
    · exact .inl ((Moved.taskStep hs).others t ht)
  | fail t' =>
    obtain ⟨-, hs⟩ := Option.ite_none_right_eq_some.mp hs
    cases hs
    by_cases ht : t = t'
    · exact .inr (.inr (.inl (by rw [ht])))
    · exact .inl (by rw [Process.task_goto, if_neg ht])
  | accept =>
    obtain ⟨-, hs⟩ := Option.ite_none_right_eq_some.mp hs
    cases hs
    exact .inl rfl
  | conn j ok =>
    replace hs : s.connStep j ok = some s' := hs
    unfold Process.connStep at hs
    split at hs <;> cases hs <;> exact .inl rfl
  | interrupt =>
    obtain ⟨-, hs⟩ := Option.ite_none_right_eq_some.mp hs
    split_ifs at hs with hi <;> cases hs
    · exact .inl rfl
    · have hunborn := h.started.notify (by simpa using hi)
      by_cases ht : t = .notify
      · subst ht
        have hrun : (s.goto .notify .running).task .notify = .running := by rw [Process.task_goto, if_pos rfl]
        exact .inr (.inl ⟨hunborn, hrun⟩)
      · have hother : (s.goto .notify .running).task t = s.task t := launch_ne ht
        exact .inl hother

/-- `client.stop` is not opened again. -/
theorem Inv.stop_of_step (h : Inv n s) (hs : s.step n l = some s') (hstop : s.stop = true) : s'.stop = true := by
  obtain ⟨-, hs⟩ := Option.ite_none_left_eq_some.mp hs
  cases l with
  | main => exact (h.mainStep_frame hs).2.2.2.2.trans hstop
  | task t => exact (Moved.taskStep hs).stop hstop
  | fail t =>
    obtain ⟨-, hs⟩ := Option.ite_none_right_eq_some.mp hs
    cases hs
    exact hstop
  | accept =>
    obtain ⟨-, hs⟩ := Option.ite_none_right_eq_some.mp hs
    cases hs
    exact hstop
  | conn j ok =>
    replace hs : s.connStep j ok = some s' := hs
    unfold Process.connStep at hs
    split at hs <;> cases hs <;> exact hstop
  | interrupt =>
    obtain ⟨-, hs⟩ := Option.ite_none_right_eq_some.mp hs
    split_ifs at hs <;> cases hs <;> exact hstop

/-- A connection that `wgClose` counts stays, or ends. -/
theorem Inv.conns_of_step {j : ℕ} (h : Inv n s) (hs : s.step n l = some s')
    (hj : s.conns[j]? = some .active ∨ s.conns[j]? = some .ended) :
    s'.conns[j]? = s.conns[j]? ∨ s'.conns[j]? = some .ended := by
  have hlt : j < s.conns.length := by
    rcases hj with hj | hj <;> exact (List.getElem?_eq_some_iff.mp hj).1
  obtain ⟨-, hs⟩ := Option.ite_none_left_eq_some.mp hs
  cases l with
  | main => rw [(h.mainStep_frame hs).2.1]; exact .inl rfl
  | task t => rw [(Moved.taskStep hs).conns]; exact .inl rfl
  | fail t =>
    obtain ⟨-, hs⟩ := Option.ite_none_right_eq_some.mp hs
    cases hs
    exact .inl rfl
  | accept =>
    obtain ⟨-, hs⟩ := Option.ite_none_right_eq_some.mp hs
    cases hs
    exact .inl (List.getElem?_append_left hlt)
  | conn j' ok =>
    replace hs : s.connStep j' ok = some s' := hs
    unfold Process.connStep at hs
    by_cases hjj : j' = j
    · subst hjj
      rcases hj with hj | hj <;> simp only [hj] at hs <;> cases hs
      exact .inr (List.getElem?_set_self hlt)
    · left
      split at hs <;> cases hs <;> exact List.getElem?_set_ne hjj
  | interrupt =>
    obtain ⟨-, hs⟩ := Option.ite_none_right_eq_some.mp hs
    split_ifs at hs <;> cases hs <;> exact .inl rfl

/-! ## After an interrupt -/

theorem active_pos {j : ℕ} (hj : s.conns[j]? = some .active) : s.active ≠ 0 := by
  intro hzero
  have hnone := List.countP_eq_zero.mp hzero _ (List.mem_of_getElem? hj)
  simp at hnone

/-- While a connection is open, `NotifyClose` waits for it. -/
theorem Inv.waits {j : ℕ} (h : Inv n s) (hs : s.step n l = some s') (hw : s.task .notify = .closing .wait)
    (hj : s.conns[j]? = some .active) : s'.task .notify = .closing .wait := by
  rcases h.task_of_step hs .notify with ht | ⟨ht, -⟩ | rfl | rfl
  · rw [ht, hw]
  · rw [hw] at ht
    cases ht
  · obtain ⟨-, hs⟩ := Option.ite_none_left_eq_some.mp hs
    obtain ⟨⟨ht, -⟩, -⟩ := Option.ite_none_right_eq_some.mp hs
    rw [hw] at ht
    cases ht
  · obtain ⟨-, hs⟩ := Option.ite_none_left_eq_some.mp hs
    replace hs : s.taskStep n .notify = some s' := hs
    simp only [Process.taskStep, hw, Process.closeStep] at hs
    obtain ⟨hzero, -⟩ := Option.ite_none_right_eq_some.mp hs
    exact absurd hzero (active_pos hj)

/-- The user interrupts the client while a connection is open: as long as that connection is open, and whatever fails
    meanwhile, no websocket is closed and the heart beats go on. -/
theorem interrupt_keeps_websockets {ls ls' : List Label} {j : ℕ}
    (h : Run (Process.step n) anyStep Process.init ls s) (hw : s.task .notify = .closing .wait)
    (hj : s.conns[j]? = some .active) (h' : Run (Process.step n) anyStep s ls' s') (hj' : s'.conns[j]? = some .active) :
    s'.Open := by
  have hinv := h'.invariant
    (I := fun x => Inv n x ∧ (x.conns[j]? = some .active ∧ x.task .notify = .closing .wait ∨ x.conns[j]? = some .ended))
    ⟨.run h, .inl ⟨hj, hw⟩⟩ ?_
  · obtain ⟨hinv, ⟨-, hw'⟩ | hend⟩ := hinv
    · have hq : (s'.task .notify).closing? = some .wait := by rw [hw']; rfl
      obtain ⟨q, hq', hphase⟩ := hinv.closing.busy (hinv.closing.closer hq)
      rw [hq] at hq'
      cases hq'
      exact hphase.2.1
    · rw [hj'] at hend
      cases hend
  · rintro x l y ⟨hx, hcase⟩ - hs
    refine ⟨hx.step hs, ?_⟩
    rcases hcase with ⟨hjx, hwx⟩ | hend
    · rcases hx.conns_of_step hs (.inl hjx) with hjy | hjy
      · exact .inl ⟨hjy.trans hjx, hx.waits hs hwx hjx⟩
      · exact .inr hjy
    · rcases hx.conns_of_step hs (.inr hend) with hjy | hjy
      · exact .inr (hjy.trans hend)
      · exact .inr hjy

/-- One websocket and one connection; an interrupt, and then the websocket breaks. -/
def interrupted : List Label :=
  List.replicate 8 Label.main ++ List.replicate 2 (Label.task .accept) ++ [Label.accept, .conn 0 true, .interrupt] ++
    List.replicate 6 (Label.task .notify)

theorem interrupt_keeps_websockets_broken : ∃ s s', Run (Process.step 1) anyStep Process.init interrupted s ∧
    Run (Process.step 1) anyStep s [.fail (.listener 0), .fail .heartBeat, .task .accept] s' ∧ s'.Open := by
  have hexec : (exec (Process.step 1) (fun _ _ => true) Process.init interrupted).map
      (fun s => (s.task .notify, s.conns[0]?,
        (exec (Process.step 1) (fun _ _ => true) s [.fail (.listener 0), .fail .heartBeat, .task .accept]).map
          fun s' => s'.conns[0]?)) = some (.closing .wait, some .active, some (some .active)) := by
    decide +kernel
  obtain ⟨s, hrun, hobs⟩ := exists_run_of_exec hexec
  obtain ⟨hw, hj, hexec'⟩ : s.task .notify = .closing .wait ∧ s.conns[0]? = some .active ∧ _ := by
    simpa only [Prod.mk.injEq] using hobs
  obtain ⟨s', hrun', hj'⟩ := exists_run_of_exec hexec'
  have hany : Run (Process.step 1) anyStep Process.init interrupted s := hrun.mono fun _ _ _ => trivial
  have hany' : Run (Process.step 1) anyStep s _ s' := hrun'.mono fun _ _ _ => trivial
  exact ⟨s, s', hany, hany', interrupt_keeps_websockets hany hw hj hany' hj'⟩

/-! ## The process ends -/

/-- The operations of the process itself, and the end of a connection: no new connection, no error of the network, no
    interrupt. -/
def Label.own : Label → Bool
  | .main | .task _ | .conn _ _ => true
  | _ => false

/-- How many operations are left in the function of `once`. -/
def ClosePc.work (n : ℕ) : ClosePc → ℕ
  | .start => n + 8
  | .test => n + 7
  | .stop => n + 6
  | .tcpl => n + 5
  | .wait => n + 4
  | .heartBeat => n + 3
  | .websocket i => n - i + 1

def TaskPc.work (n : ℕ) : TaskPc → ℕ
  | .unborn | .running => n + 10
  | .once => n + 9
  | .closing q => q.work n
  | .done => 0

def ServePc.work : ServePc → ℕ
  | .listen => 2
  | .check | .accept => 1

def MainPc.work (n : ℕ) : MainPc → ℕ
  | .add => n + 8
  | .listener i => n - i + 7
  | .setHb => 6
  | .goHb => 5
  | .setCl => 4
  | .goCl => 3
  | .opened => 2
  | .wait => 1
  | .returned => 0

def ConnPc.work : ConnPc → ℕ
  | .reply => 2
  | .active => 1
  | .ended => 0

/-- How many operations the process has left once `client.stop` is closed. -/
def Process.work (n : ℕ) (s : Process) : ℕ :=
  s.main.work n + s.serve.work + ((.notify :: tasks n).map fun t => (s.task t).work n).sum +
    (s.conns.map ConnPc.work).sum

theorem connStep_work {j : ℕ} {ok : Bool} (hs : s.connStep j ok = some s') :
    ∃ cs, s' = { s with conns := cs } ∧ (cs.map ConnPc.work).sum < (s.conns.map ConnPc.work).sum := by
  unfold Process.connStep at hs
  cases hc : s.conns[j]? with
  | none => simp only [hc] at hs; cases hs
  | some c =>
    cases c with
    | reply =>
      simp only [hc, Option.some.injEq] at hs
      refine ⟨_, hs.symm, ?_⟩
      have hsum := sum_map_set (y := if ok then ConnPc.active else .ended) (w := ConnPc.work) hc
      have hone : (if ok then ConnPc.active else .ended).work ≤ 1 := by cases ok <;> decide
      have htwo : ConnPc.reply.work = 2 := rfl
      omega
    | active =>
      simp only [hc, Option.some.injEq] at hs
      refine ⟨_, hs.symm, ?_⟩
      have hsum := sum_map_set (y := ConnPc.ended) (w := ConnPc.work) hc
      have hone : ConnPc.ended.work = 0 := rfl
      have htwo : ConnPc.active.work = 1 := rfl
      omega
    | ended => simp only [hc] at hs; cases hs

/-- The goroutines that the main goroutine has launched are not unborn. -/
structure Launched (n : ℕ) (s : Process) : Prop where
  listener : ∀ i < s.main.spawned n, s.task (.listener i) ≠ .unborn
  heartBeat : 4 ≤ s.main.rank → s.task .heartBeat ≠ .unborn
  accept : 6 ≤ s.main.rank → s.task .accept ≠ .unborn

theorem Launched.init : Launched n Process.init where
  listener := fun i hi => absurd hi (Nat.not_lt_zero i)
  heartBeat := fun hr => absurd (show 4 ≤ 0 from hr) (by decide)
  accept := fun hr => absurd (show 6 ≤ 0 from hr) (by decide)

theorem Launched.frame (hl : Launched n s) (hborn : ∀ t, s'.task t = .unborn → s.task t = .unborn)
    (hmain : s'.main = s.main) : Launched n s' where
  listener := fun i hi hu => hl.listener i (hmain ▸ hi) (hborn _ hu)
  heartBeat := fun hr hu => hl.heartBeat (hmain ▸ hr) (hborn _ hu)
  accept := fun hr hu => hl.accept (hmain ▸ hr) (hborn _ hu)

theorem Launched.mainStep (hl : Launched n s) (h : Inv n s) (hs : s.mainStep n = some s') : Launched n s' := by
  have hborn : ∀ t, s'.task t = .unborn → s.task t = .unborn := by
    intro t hu
    rcases (h.mainStep_frame hs).1 t with ht | ⟨ht, -⟩
    · rw [← ht, hu]
    · exact ht
  have hself : ∀ t, (s.goto t .running).task t ≠ .unborn := fun t hu => by
    rw [Process.task_goto, if_pos rfl] at hu
    cases hu
  have hlist := hl.listener
  have hheart := hl.heartBeat
  have hacc := hl.accept
  have hlane := h.started.lane
  unfold Process.mainStep at hs
  cases hm : s.main with
  | add =>
    simp only [hm, Option.some.injEq] at hs
    subst hs
    exact ⟨fun i hi => absurd hi (Nat.not_lt_zero i), fun hr => absurd (show 4 ≤ 1 from hr) (by decide),
      fun hr => absurd (show 6 ≤ 1 from hr) (by decide)⟩
  | listener i =>
    simp only [hm] at hs
    rw [hm] at hlist hlane
    split_ifs at hs with hi <;> cases hs
    · refine ⟨fun j hj hu => ?_, fun hr => absurd (show 4 ≤ 1 from hr) (by decide),
        fun hr => absurd (show 6 ≤ 1 from hr) (by decide)⟩
      by_cases hji : j = i
      · subst hji
        exact hself _ hu
      · replace hj : j < i + 1 := hj
        exact hlist j (show j < i by omega) (hborn _ hu)
    · replace hlane : i ≤ n := hlane
      exact ⟨fun j hj hu => hlist j (show j < i from lt_of_lt_of_le hj (Nat.not_lt.mp hi)) hu,
        fun hr => absurd (show 4 ≤ 2 from hr) (by decide), fun hr => absurd (show 6 ≤ 2 from hr) (by decide)⟩
  | setHb | setCl | opened =>
    simp only [hm, Option.some.injEq] at hs
    subst hs
    rw [hm] at hlist hheart hacc
    exact ⟨hlist, fun hr => hheart (by simp [MainPc.rank] at hr ⊢), fun hr => hacc (by simp [MainPc.rank] at hr ⊢)⟩
  | goHb =>
    simp only [hm, Option.some.injEq] at hs
    subst hs
    rw [hm] at hlist
    exact ⟨fun j hj hu => hlist j hj (hborn _ hu), fun _ => hself .heartBeat,
      fun hr => absurd (show 6 ≤ 4 from hr) (by decide)⟩
  | goCl =>
    simp only [hm, Option.some.injEq] at hs
    subst hs
    rw [hm] at hlist hheart
    exact ⟨fun j hj hu => hlist j hj (hborn _ hu), fun _ hu => hheart (show 4 ≤ 5 by decide) (hborn _ hu),
      fun _ => hself .accept⟩
  | wait =>
    simp only [hm] at hs
    split_ifs at hs
    cases hs
    rw [hm] at hlist hheart hacc
    exact ⟨hlist, fun _ => hheart (show 4 ≤ 7 by decide), fun _ => hacc (show 6 ≤ 7 by decide)⟩
  | returned => simp only [hm] at hs; cases hs

theorem Launched.step (hl : Launched n s) (h : Inv n s) (hs : s.step n l = some s') : Launched n s' := by
  obtain ⟨-, hs⟩ := Option.ite_none_left_eq_some.mp hs
  have hgoto : ∀ {t : Task} {pc : TaskPc}, pc ≠ .unborn → ∀ t', (s.goto t pc).task t' = .unborn → s.task t' = .unborn := by
    intro t pc hpc t' hu
    rw [Process.task_goto] at hu
    split_ifs at hu
    · exact absurd hu hpc
    · exact hu
  cases l with
  | main => exact hl.mainStep h hs
  | task t =>
    have hmoved := Moved.taskStep (n := n) hs
    refine hl.frame (fun t' hu => ?_) hmoved.main
    by_cases ht : t' = t
    · subst ht
      exact hmoved.born hu
    · rw [← hmoved.others t' ht, hu]
  | fail t =>
    obtain ⟨-, hs⟩ := Option.ite_none_right_eq_some.mp hs
    cases hs
    exact hl.frame (hgoto fun hu => (by cases hu)) rfl
  | accept =>
    obtain ⟨-, hs⟩ := Option.ite_none_right_eq_some.mp hs
    cases hs
    exact hl.frame (fun _ => id) rfl
  | conn j ok =>
    obtain ⟨cs, rfl, -⟩ := connStep_work hs
    exact hl.frame (fun _ => id) rfl
  | interrupt =>
    obtain ⟨-, hs⟩ := Option.ite_none_right_eq_some.mp hs
    split_ifs at hs <;> cases hs
    · exact hl.frame (fun _ => id) rfl
    · have hrun : TaskPc.running ≠ .unborn := fun hu => (by cases hu)
      exact hl.frame (hgoto (t := .notify) hrun) rfl

/-- When `StartClient` has returned, every goroutine is launched. -/
theorem Launched.born (hl : Launched n s) (hm : s.main = .wait) (ht : t ∈ tasks n) : s.task t ≠ .unborn := by
  rcases mem_tasks.mp ht with ⟨i, hi, rfl⟩ | rfl | rfl
  · exact hl.listener i (by rw [hm]; exact hi)
  · exact hl.heartBeat (by rw [hm]; decide)
  · exact hl.accept (by rw [hm]; decide)

theorem accepting_step (h : Inv n s) (hl : l ≠ .fail .accept) (hs : s.step n l = some s') (hstop' : s'.stop = false)
    (ht : s.task .accept = .unborn ∨ s.task .accept = .running) :
    s'.task .accept = .unborn ∨ s'.task .accept = .running := by
  have hstop : s.stop = false := by
    by_contra hst
    rw [h.stop_of_step hs (by simpa using hst)] at hstop'
    cases hstop'
  rcases h.task_of_step hs .accept with hsame | ⟨-, hrun⟩ | hfail | rfl
  · rwa [hsame]
  · exact .inr hrun
  · exact absurd hfail hl
  · obtain ⟨-, hs⟩ := Option.ite_none_left_eq_some.mp hs
    replace hs : s.taskStep n .accept = some s' := hs
    rcases ht with ht | ht
    · simp only [Process.taskStep, ht] at hs
      cases hs
    · right
      simp only [Process.taskStep, ht, Process.runStep] at hs
      cases hsv : s.serve with
      | listen =>
        simp only [hsv, Option.some.injEq] at hs
        subst hs
        exact ht
      | check =>
        simp only [hsv, hstop, Bool.false_eq_true, if_false, Option.some.injEq] at hs
        subst hs
        exact ht
      | accept =>
        -- the listener is closed only after `client.stop`
        simp only [hsv] at hs
        obtain ⟨htcpl, -⟩ := Option.ite_none_right_eq_some.mp hs
        rw [h.serving.shut htcpl] at hstop
        cases hstop

/-- The function of `once` has run and did not close `client.stop`, as it found no `hdl.cl`. Whatever the user and the
    network do then, short of an error of accepting, all websockets are closed, the client goes on to accept, and
    `Wait` does not return. -/
theorem accepting_forever {ls : List Label}
    (h : Run (Process.step n) (fun _ l => l ≠ .fail .accept) Process.init ls s) (ho : s.once = .finished)
    (hstop : s.stop = false) : (∀ i < n, s.ws i = true) ∧ s.main ≠ .returned ∧
      (s.task .accept = .unborn ∨ s.task .accept = .running) := by
  have hinv := h.invariant
    (I := fun x => Inv n x ∧ (x.stop = false → x.task .accept = .unborn ∨ x.task .accept = .running))
    ⟨.init, fun _ => .inl rfl⟩ ?_
  · obtain ⟨hinv, hacc⟩ := hinv
    refine ⟨(hinv.closing.finished ho).1, fun hm => ?_, hacc hstop⟩
    -- `wg` still counts the accept loop
    have hsum := hinv.started.wg
    rw [hinv.returned hm, hm] at hsum
    have hle : (s.task .accept).count ≤ _ := count_le_sum (nodup_tasks n) (mem_tasks.mpr (.inr (.inr rfl)))
    have hzero : (s.task .accept).count ≤ 0 := hle.trans hsum.ge
    rcases hacc hstop with hpc | hpc <;> rw [hpc] at hzero <;> cases hzero
  · rintro x l y ⟨hx, hacc⟩ hl hs
    refine ⟨hx.step hs, fun hst' => accepting_step hx hl hs hst' (hacc ?_)⟩
    by_contra hst
    rw [hx.stop_of_step hs (by simpa using hst)] at hst'
    cases hst'

/-- The only websocket breaks right after its goroutine is launched, and the user interrupts the client later. -/
def brokenEarly : List Label :=
  List.replicate 2 Label.main ++ [Label.fail (.listener 0)] ++ List.replicate 5 (Label.task (.listener 0)) ++
    List.replicate 6 Label.main ++ List.replicate 2 (Label.task .accept) ++ [Label.interrupt] ++ List.replicate 2 (Label.task .notify)

theorem accepting_forever_broken : ∃ s, Run (Process.step 1) anyStep Process.init brokenEarly s ∧ s.main = .wait ∧
    s.ws 0 = true ∧ (s.task .accept = .unborn ∨ s.task .accept = .running) := by
  have hexec : (exec (Process.step 1) (fun _ l => decide (l ≠ .fail .accept)) Process.init brokenEarly).map
      (fun s => (s.once, s.stop, s.main)) = some (.finished, false, .wait) := by
    decide +kernel
  obtain ⟨s, hrun, hobs⟩ := exists_run_of_exec hexec
  obtain ⟨ho, hstop, hm⟩ : s.once = .finished ∧ s.stop = false ∧ s.main = .wait := by
    simpa only [Prod.mk.injEq] using hobs
  have hrun' : Run (Process.step 1) (fun _ l => l ≠ .fail .accept) Process.init brokenEarly s :=
    hrun.mono fun _ _ hl => of_decide_eq_true hl
  obtain ⟨hws, -, hacc⟩ := accepting_forever hrun' ho hstop
  exact ⟨s, hrun.mono fun _ _ _ => trivial, hm, hws 0 Nat.one_pos, hacc⟩

end Wssocks.Cli

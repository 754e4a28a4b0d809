import Wssocks.Cli.Handles
import Wssocks.Lib.Potential

/-!
# The invariant of the client process

Everything that ends goes through one `sync.Once`. `Closing` says who is in its function and what
is closed by then, `Started` which goroutines `StartClient` has launched and counted, `Serving` how
far the accept loop is.

Results:

* `Inv.step`, `Inv.run`: the invariant holds in every state of every run; in particular nothing is
  closed twice and the WaitGroup does not go below zero.
-/

namespace Wssocks.Cli

open Wssocks.Lib

variable {n : ℕ} {s s' : Process} {t : Task} {pc : TaskPc} {l : Label}

/-! ## Who closes what -/

/-- Where a goroutine is in the function of `once`. -/
def TaskPc.closing? : TaskPc → Option ClosePc
  | .closing pc => some pc
  | _ => none

/-- Neither the heart beats nor a websocket was closed. -/
def Process.Open (s : Process) : Prop := s.cancelled = false ∧ ∀ i, s.ws i = false

/-- What is closed when `t` is at a place in the function of `once`. -/
def Phase (s : Process) (t : Task) : ClosePc → Prop
  | .start | .test | .stop => s.stop = false ∧ s.Open
  | .tcpl => s.stop = true ∧ s.Open
  | .wait => s.stop = true ∧ s.Open ∧ t = .notify
  | .heartBeat => s.Open
  | .websocket j => (s.stop = true → s.cancelled = true) ∧ ∀ i < j, s.ws i = true

/-- One goroutine at most is in the function of `once`, and it runs once. -/
structure Closing (n : ℕ) (s : Process) : Prop where
  closer : ∀ {t pc}, (s.task t).closing? = some pc → s.once = .busy t
  busy : ∀ {t}, s.once = .busy t → ∃ pc, (s.task t).closing? = some pc ∧ Phase s t pc
  fresh : s.once = .fresh → s.stop = false ∧ s.Open
  finished : s.once = .finished → (∀ i < n, s.ws i = true) ∧ (s.stop = true → s.cancelled = true)
  sync : s.clClosed = s.stop

theorem Process.task_goto (t t' : Task) (pc : TaskPc) :
    (s.goto t pc).task t' = if t' = t then pc else s.task t' := Function.update_apply ..

theorem Closing.init : Closing n Process.init where
  closer := fun h => (by cases h)
  busy := fun h => (by cases h)
  fresh := fun _ => ⟨rfl, rfl, fun _ => rfl⟩
  finished := fun h => (by cases h)
  sync := rfl

/-- What `Phase` looks at. -/
theorem Phase.congr {q : ClosePc} (h : Phase s t q) (hstop : s'.stop = s.stop) (hcancel : s'.cancelled = s.cancelled)
    (hws : s'.ws = s.ws) : Phase s' t q := by
  have hopen : s.Open → s'.Open := fun ho => ⟨hcancel.trans ho.1, fun i => (congrFun hws i).trans (ho.2 i)⟩
  cases q with
  | start | test | stop => exact ⟨hstop.trans h.1, hopen h.2⟩
  | tcpl => exact ⟨hstop.trans h.1, hopen h.2⟩
  | wait => exact ⟨hstop.trans h.1, hopen h.2.1, h.2.2⟩
  | heartBeat => exact hopen h
  | websocket j => exact ⟨fun hs => hcancel.trans (h.1 (hstop ▸ hs)), fun i hi => (congrFun hws i).trans (h.2 i hi)⟩

/-- A step outside of the function of `once`. -/
theorem Closing.frame (h : Closing n s) (honce : s'.once = s.once) (hstop : s'.stop = s.stop)
    (hcl : s'.clClosed = s.clClosed) (hcancel : s'.cancelled = s.cancelled) (hws : s'.ws = s.ws)
    (htask : ∀ t, (s'.task t).closing? = (s.task t).closing?) : Closing n s' where
  closer := fun hp => honce.trans (h.closer ((htask _).symm.trans hp))
  busy := by
    intro t hb
    obtain ⟨pc, hpc, hphase⟩ := h.busy (honce.symm.trans hb)
    exact ⟨pc, (htask t).trans hpc, hphase.congr hstop hcancel hws⟩
  fresh := by
    intro hf
    obtain ⟨h1, h2, h3⟩ := h.fresh (honce.symm.trans hf)
    exact ⟨hstop.trans h1, hcancel.trans h2, fun i => (congrFun hws i).trans (h3 i)⟩
  finished := by
    intro hf
    obtain ⟨h1, h2⟩ := h.finished (honce.symm.trans hf)
    exact ⟨fun i hi => (congrFun hws i).trans (h1 i hi), fun hs => hcancel.trans (h2 (hstop ▸ hs))⟩
  sync := by rw [hcl, hstop, h.sync]

/-- A goroutine that is not in the function moves on outside of it. -/
theorem closing?_goto (h : (s.task t).closing? = none) (hpc : pc.closing? = none) (t' : Task) :
    ((s.goto t pc).task t').closing? = (s.task t').closing? := by
  rw [Process.task_goto]
  split_ifs with ht
  · rw [ht, h, hpc]
  · rfl

/-- The goroutine in the function moves on in it. -/
theorem Closing.advance {q q' : ClosePc} (h : Closing n s) (ht : (s.task t).closing? = some q)
    (htask : ∀ t', (s'.task t').closing? = if t' = t then some q' else (s.task t').closing?)
    (honce : s'.once = s.once) (hsync : s'.clClosed = s'.stop) (hphase : Phase s' t q') : Closing n s' := by
  have hbusy := h.closer ht
  refine ⟨fun {t' pc} hp => ?_, fun {t'} hb => ?_, fun hf => ?_, fun hf => ?_, hsync⟩
  · rw [htask] at hp
    split_ifs at hp with he
    · rw [honce, hbusy, he]
    · exact honce.trans (h.closer hp)
  · rw [honce, hbusy] at hb
    cases hb
    exact ⟨q', by rw [htask, if_pos rfl], hphase⟩
  · rw [honce, hbusy] at hf
    cases hf
  · rw [honce, hbusy] at hf
    cases hf

theorem closing?_advance {q : ClosePc} (t' : Task) :
    ((s.goto t (.closing q)).task t').closing? = if t' = t then some q else (s.task t').closing? := by
  rw [Process.task_goto]
  split_ifs <;> rfl

/-- The function of `once`, step by step. -/
theorem Closing.closeStep {q : ClosePc} (h : Closing n s) (ht : s.task t = .closing q) (hhb : s.cl = true → s.hb = true)
    (hcl : s.stop = true → s.cl = true) {w : ℕ}
    (hfinish : ({ s with once := .finished } : Process).finish t = { s.goto t .done with once := .finished, wg := w })
    (hstep : s.closeStep n t q = some s') : Closing n s' := by
  have hq : (s.task t).closing? = some q := by rw [ht]; rfl
  have hbusy := h.closer hq
  obtain ⟨q1, hq1, hphase⟩ := h.busy hbusy
  rw [hq] at hq1
  cases hq1
  cases q with
  | start =>
    cases hstep
    refine h.advance hq closing?_advance rfl h.sync ?_
    split_ifs
    · exact hphase
    · exact hphase.2
  | test =>
    have hnot : s.clClosed = false := h.sync.trans hphase.1
    simp only [Process.closeStep, hnot, Bool.false_eq_true, if_false, Option.some.injEq] at hstep
    subst hstep
    exact h.advance hq closing?_advance rfl h.sync hphase
  | stop =>
    simp only [Process.closeStep, hphase.1, Bool.false_eq_true, if_false, Option.some.injEq] at hstep
    subst hstep
    exact h.advance hq closing?_advance rfl rfl ⟨rfl, hphase.2⟩
  | tcpl =>
    cases hstep
    refine h.advance hq closing?_advance rfl h.sync ?_
    split_ifs with hn
    · exact ⟨hphase.1, hphase.2, hn⟩
    · exact hphase.2
  | wait =>
    simp only [Process.closeStep] at hstep
    split_ifs at hstep
    cases hstep
    exact h.advance hq closing?_advance rfl h.sync hphase.2.1
  | heartBeat =>
    cases hstep
    refine h.advance hq closing?_advance rfl h.sync ⟨fun hst => ?_, fun i hi => absurd hi (Nat.not_lt_zero i)⟩
    show (s.cancelled || s.hb) = true
    rw [hhb (hcl hst), Bool.or_true]
  | websocket j =>
    simp only [Process.closeStep] at hstep
    split_ifs at hstep with hj
    · cases hstep
      refine h.advance hq closing?_advance rfl h.sync ⟨hphase.1, fun i hi => ?_⟩
      show Function.update s.ws j true i = true
      by_cases hij : i = j
      · rw [hij, Function.update_self]
      · rw [Function.update_of_ne hij]
        exact hphase.2 i (by omega)
    · -- the function returns
      rw [hfinish] at hstep
      cases hstep
      refine ⟨fun {t' pc} hc => ?_, fun hb => (by cases hb), fun hf => (by cases hf), fun _ => ⟨fun i hi => ?_, hphase.1⟩,
        h.sync⟩
      · replace hc : ((s.goto t .done).task t').closing? = some pc := hc
        rw [Process.task_goto] at hc
        split_ifs at hc with he
        · cases hc
        · have hother := h.closer hc
          rw [hbusy] at hother
          cases hother
          exact absurd rfl he
      · exact hphase.2 i (by omega)

/-! ## What `StartClient` has started -/

/-- How far `StartClient` is. -/
def MainPc.rank : MainPc → ℕ
  | .add => 0
  | .listener _ => 1
  | .setHb => 2
  | .goHb => 3
  | .setCl => 4
  | .goCl => 5
  | .opened => 6
  | .wait => 7
  | .returned => 8

/-- How many goroutines for websockets are started. -/
def MainPc.spawned (n : ℕ) : MainPc → ℕ
  | .add => 0
  | .listener i => i
  | _ => n

/-- The goroutines of `StartClient` over `n` websockets. -/
def tasks (n : ℕ) : List Task := (List.range n).map Task.listener ++ [Task.heartBeat, .accept]

/-- The goroutines that `wg` counts. -/
def MainPc.added (n : ℕ) (m : MainPc) : List Task := if m = .add then [] else tasks (m.spawned n)

/-- What a goroutine adds to `wg`. -/
def TaskPc.count : TaskPc → ℕ
  | .done => 0
  | _ => 1

/-- What is set and launched when `StartClient` is at its place. -/
structure Started (n : ℕ) (s : Process) : Prop where
  hb : s.hb = decide (3 ≤ s.main.rank)
  cl : s.cl = decide (5 ≤ s.main.rank)
  lane : s.main.spawned n ≤ n
  listener : ∀ i, s.main.spawned n ≤ i → s.task (.listener i) = .unborn
  heartBeat : s.main.rank ≤ 3 → s.task .heartBeat = .unborn
  accept : s.main.rank ≤ 5 → s.task .accept = .unborn
  notify : s.interrupted = false → s.task .notify = .unborn
  wg : s.wg = ((s.main.added n).map fun t => (s.task t).count).sum

theorem nodup_tasks (n : ℕ) : (tasks n).Nodup := by
  have hinj : Function.Injective Task.listener := fun a b h => (by cases h; rfl)
  refine List.Nodup.append (List.nodup_range.map hinj) (by decide) ?_
  intro t ht ht'
  obtain ⟨i, -, rfl⟩ := List.mem_map.mp ht
  simp at ht'

theorem mem_tasks : t ∈ tasks n ↔ (∃ i < n, t = .listener i) ∨ t = .heartBeat ∨ t = .accept := by
  simp [tasks, eq_comm]

theorem nodup_added (n : ℕ) (m : MainPc) : (m.added n).Nodup := by
  unfold MainPc.added
  split_ifs
  · exact List.nodup_nil
  · exact nodup_tasks _

theorem Started.init : Started n Process.init where
  hb := rfl
  cl := rfl
  lane := Nat.zero_le n
  listener := fun _ _ => rfl
  heartBeat := fun _ => rfl
  accept := fun _ => rfl
  notify := fun _ => rfl
  wg := rfl

/-- A goroutine that runs is counted. -/
theorem Started.mem_added (h : Started n s) (ht : s.task t ≠ .unborn) (hn : t ≠ .notify) : t ∈ s.main.added n := by
  have hadd : s.main ≠ .add := by
    intro he
    have hrank : s.main.rank = 0 := by rw [he]; rfl
    have hspawned : s.main.spawned n = 0 := by rw [he]; rfl
    cases t with
    | listener i => exact ht (h.listener i (by omega))
    | heartBeat => exact ht (h.heartBeat (by omega))
    | accept => exact ht (h.accept (by omega))
    | notify => exact hn rfl
  rw [MainPc.added, if_neg hadd, mem_tasks]
  cases t with
  | listener i =>
    refine .inl ⟨i, ?_, rfl⟩
    by_contra hlt
    exact ht (h.listener i (by omega))
  | heartBeat => exact .inr (.inl rfl)
  | accept => exact .inr (.inr rfl)
  | notify => exact absurd rfl hn

/-- What `Started` does not look at. -/
theorem Started.congr (h : Started n s) (hmain : s'.main = s.main) (htask : s'.task = s.task) (hhb : s'.hb = s.hb)
    (hcl : s'.cl = s.cl) (hint : s'.interrupted = s.interrupted) (hwg : s'.wg = s.wg) : Started n s' where
  hb := by rw [hhb, hmain, h.hb]
  cl := by rw [hcl, hmain, h.cl]
  lane := hmain ▸ h.lane
  listener := fun i hi => by rw [htask]; exact h.listener i (hmain ▸ hi)
  heartBeat := fun hr => by rw [htask]; exact h.heartBeat (hmain ▸ hr)
  accept := fun hr => by rw [htask]; exact h.accept (hmain ▸ hr)
  notify := fun hi => by rw [htask]; exact h.notify (hint ▸ hi)
  wg := by rw [hwg, hmain, htask, h.wg]

/-- A goroutine that runs stays started. -/
theorem unborn_goto (ht : s.task t ≠ .unborn) {t' : Task} (ht' : s.task t' = .unborn) :
    (s.goto t pc).task t' = .unborn := by
  rw [Process.task_goto, if_neg, ht']
  rintro rfl
  exact ht ht'

theorem Started.goto (h : Started n s) (ht : s.task t ≠ .unborn) (hpc : pc.count = (s.task t).count) :
    Started n (s.goto t pc) where
  hb := h.hb
  cl := h.cl
  lane := h.lane
  listener := fun i hi => unborn_goto ht (h.listener i hi)
  heartBeat := fun hr => unborn_goto ht (h.heartBeat hr)
  accept := fun hr => unborn_goto ht (h.accept hr)
  notify := fun hi => unborn_goto ht (h.notify hi)
  wg := by
    rw [show (s.goto t pc).wg = s.wg from rfl, h.wg]
    by_cases hmem : t ∈ s.main.added n
    · have := sum_map_update (f := s.task) (b := pc) (w := TaskPc.count) (nodup_added n s.main) hmem
      show _ = ((s.main.added n).map fun x => (Function.update s.task t pc x).count).sum
      omega
    · exact (sum_map_update_of_notMem (f := s.task) (b := pc) (w := TaskPc.count) hmem).symm

/-- `wg.Done()` of a goroutine that was counted. -/
theorem Started.finish_eq (h : Started n s) (ht : s.task t ≠ .unborn) (hd : s.task t ≠ .done) :
    s.finish t = { s.goto t .done with wg := if t = .notify then s.wg else s.wg - 1 } := by
  by_cases hn : t = .notify
  · subst hn
    rfl
  · have hmem := h.mem_added ht hn
    have hsum := sum_map_update (f := s.task) (b := .done) (w := TaskPc.count) (nodup_added n s.main) hmem
    have hcount : (s.task t).count = 1 := by
      cases hpc : s.task t with
      | done => exact absurd hpc hd
      | _ => rfl
    have hzero : TaskPc.done.count = 0 := rfl
    have hwg := h.wg
    have hpos : s.wg ≠ 0 := by omega
    rw [if_neg hn]
    cases t with
    | notify => exact absurd rfl hn
    | listener | heartBeat | accept => exact if_neg hpos

theorem Started.finish (h : Started n s) (ht : s.task t ≠ .unborn) (hd : s.task t ≠ .done) :
    Started n { s.goto t .done with wg := if t = .notify then s.wg else s.wg - 1 } where
  hb := h.hb
  cl := h.cl
  lane := h.lane
  listener := fun i hi => unborn_goto ht (h.listener i hi)
  heartBeat := fun hr => unborn_goto ht (h.heartBeat hr)
  accept := fun hr => unborn_goto ht (h.accept hr)
  notify := fun hi => unborn_goto ht (h.notify hi)
  wg := by
    show (if t = .notify then s.wg else s.wg - 1) =
      ((s.main.added n).map fun x => (Function.update s.task t .done x).count).sum
    have hwg := h.wg
    by_cases hn : t = .notify
    · have hnot : t ∉ s.main.added n := by
        rw [hn, MainPc.added]
        split_ifs
        · exact List.not_mem_nil
        · simp [mem_tasks]
      rw [if_pos hn, sum_map_update_of_notMem (f := s.task) (b := .done) (w := TaskPc.count) hnot, hwg]
    · have hsum := sum_map_update (f := s.task) (b := .done) (w := TaskPc.count) (nodup_added n s.main)
        (h.mem_added ht hn)
      have hcount : (s.task t).count = 1 := by
        cases hpc : s.task t with
        | done => exact absurd hpc hd
        | _ => rfl
      have hzero : TaskPc.done.count = 0 := rfl
      rw [if_neg hn]
      omega

/-- A goroutine is launched: it was counted before, or is now. -/
theorem Started.launch_wg (ht : s.task t = .unborn) (m : List Task) (hnd : m.Nodup) :
    (m.map fun x => ((s.goto t .running).task x).count).sum = (m.map fun x => (s.task x).count).sum := by
  by_cases hmem : t ∈ m
  · have hsum := sum_map_update (f := s.task) (b := .running) (w := TaskPc.count) hnd hmem
    have hcount : (s.task t).count = TaskPc.running.count := by rw [ht]; rfl
    show (m.map fun x => (Function.update s.task t .running x).count).sum = _
    omega
  · exact sum_map_update_of_notMem (f := s.task) (b := .running) (w := TaskPc.count) hmem

theorem launch_ne {t' : Task} (h : t' ≠ t) : (s.goto t .running).task t' = s.task t' := by
  rw [Process.task_goto, if_neg h]

theorem Started.mainStep (h : Started n s) (hs : s.mainStep n = some s') : Started n s' := by
  unfold Process.mainStep at hs
  cases hm : s.main with
  | add =>
    simp only [hm, Option.some.injEq] at hs
    subst hs
    have hrank : s.main.rank = 0 := by rw [hm]; rfl
    have hspawned : s.main.spawned n = 0 := by rw [hm]; rfl
    have hwg := h.wg
    rw [hm] at hwg
    refine ⟨by rw [h.hb, hrank]; rfl, by rw [h.cl, hrank]; rfl, Nat.zero_le n, fun i _ => h.listener i (by omega),
      fun _ => h.heartBeat (by omega), fun _ => h.accept (by omega), h.notify, ?_⟩
    show s.wg + 2 = ((tasks 0).map fun t => (s.task t).count).sum
    rw [hwg]
    simp [tasks, MainPc.added, h.heartBeat (by omega), h.accept (by omega), TaskPc.count]
  | listener i =>
    simp only [hm] at hs
    have hrank : s.main.rank = 1 := by rw [hm]; rfl
    have hspawned : s.main.spawned n = i := by rw [hm]; rfl
    have hwg : s.wg = ((tasks i).map fun t => (s.task t).count).sum := by
      have := h.wg
      rw [hm] at this
      exact this
    have hlane := h.lane
    split_ifs at hs with hi <;> cases hs
    · have hunborn := h.listener i (by omega)
      have hhb : s.hb = false := by rw [h.hb, hrank]; rfl
      have hcl : s.cl = false := by rw [h.cl, hrank]; rfl
      refine ⟨hhb, hcl, hi,
        fun j hj => ?_, fun _ => ?_, fun _ => ?_, fun hint => ?_, ?_⟩
      · have hne : Task.listener j ≠ .listener i := fun he => by cases he; exact absurd hj (Nat.not_succ_le_self i)
        exact (launch_ne hne).trans (h.listener j (by rw [hspawned]; exact Nat.le_of_succ_le hj))
      · exact (launch_ne (t := .listener i) fun he => (by cases he)).trans (h.heartBeat (by omega))
      · exact (launch_ne (t := .listener i) fun he => (by cases he)).trans (h.accept (by omega))
      · exact (launch_ne (t := .listener i) fun he => (by cases he)).trans (h.notify hint)
      · show s.wg + 1 = ((tasks (i + 1)).map fun t => ((s.goto (.listener i) .running).task t).count).sum
        rw [Started.launch_wg hunborn _ (nodup_tasks _), hwg]
        simp only [tasks, List.range_succ, List.map_append, List.map_cons, List.map_nil, List.sum_append, List.sum_cons,
          List.sum_nil, hunborn, TaskPc.count]
        omega
    · have hin : i = n := by omega
      refine ⟨by rw [h.hb, hrank]; rfl, by rw [h.cl, hrank]; rfl, le_rfl, fun j hj => ?_, fun _ => h.heartBeat (by omega),
        fun _ => h.accept (by omega), h.notify, ?_⟩
      · exact h.listener j (by rw [hspawned, hin]; exact hj)
      · rw [← hin]
        exact hwg
  | setHb | setCl | opened =>
    simp only [hm, Option.some.injEq] at hs
    subst hs
    have hwg := h.wg
    have hlist := h.listener
    have hhb := h.hb
    have hcl := h.cl
    have hheart := h.heartBeat
    have hacc := h.accept
    rw [hm] at hwg hlist hhb hcl hheart hacc
    exact ⟨by first | rfl | exact hhb, by first | rfl | exact hcl, le_rfl, hlist,
      fun hr => hheart (by simp [MainPc.rank] at hr ⊢), fun hr => hacc (by simp [MainPc.rank] at hr ⊢), h.notify, hwg⟩
  | goHb =>
    simp only [hm, Option.some.injEq] at hs
    subst hs
    have hrank : s.main.rank = 3 := by rw [hm]; rfl
    have hspawned : s.main.spawned n = n := by rw [hm]; rfl
    have hunborn := h.heartBeat (by omega)
    have hhb : s.hb = true := by rw [h.hb, hrank]; rfl
    have hcl : s.cl = false := by rw [h.cl, hrank]; rfl
    refine ⟨hhb, hcl, le_rfl,
      fun j hj => ?_, fun hr => absurd (show 4 ≤ 3 from hr) (by decide), fun _ => ?_, fun hint => ?_, ?_⟩
    · exact (launch_ne (t := .heartBeat) fun he => (by cases he)).trans (h.listener j (by rw [hspawned]; exact hj))
    · exact (launch_ne (t := .heartBeat) fun he => (by cases he)).trans (h.accept (by omega))
    · exact (launch_ne (t := .heartBeat) fun he => (by cases he)).trans (h.notify hint)
    · have hwg := h.wg
      rw [hm] at hwg
      exact hwg.trans (Started.launch_wg hunborn _ (nodup_added n _)).symm
  | goCl =>
    simp only [hm, Option.some.injEq] at hs
    subst hs
    have hrank : s.main.rank = 5 := by rw [hm]; rfl
    have hspawned : s.main.spawned n = n := by rw [hm]; rfl
    have hunborn := h.accept (by omega)
    have hhb : s.hb = true := by rw [h.hb, hrank]; rfl
    have hcl : s.cl = true := by rw [h.cl, hrank]; rfl
    refine ⟨hhb, hcl, le_rfl,
      fun j hj => ?_, fun hr => absurd (show 6 ≤ 3 from hr) (by decide),
      fun hr => absurd (show 6 ≤ 5 from hr) (by decide), fun hint => ?_, ?_⟩
    · exact (launch_ne (t := .accept) fun he => (by cases he)).trans (h.listener j (by rw [hspawned]; exact hj))
    · exact (launch_ne (t := .accept) fun he => (by cases he)).trans (h.notify hint)
    · have hwg := h.wg
      rw [hm] at hwg
      exact hwg.trans (Started.launch_wg hunborn _ (nodup_added n _)).symm
  | wait =>
    simp only [hm] at hs
    split_ifs at hs
    cases hs
    have hwg := h.wg
    have hlist := h.listener
    have hhb := h.hb
    have hcl := h.cl
    rw [hm] at hwg hlist hhb hcl
    exact ⟨hhb, hcl, le_rfl, hlist, fun hr => absurd (show 8 ≤ 3 from hr) (by decide),
      fun hr => absurd (show 8 ≤ 5 from hr) (by decide), h.notify, hwg⟩
  | returned => simp only [hm] at hs; cases hs

/-! ## The invariant -/

/-- How far the accept loop is, and what `cl.Close` does to it. -/
structure Serving (s : Process) : Prop where
  listens : s.serve ≠ .listen → s.tcpl.isSome = true
  shut : s.tcpl = some true → s.stop = true
  /-- Who closed `stop` closes the listener next. -/
  cut : s.stop = true → s.serve = .accept → s.tcpl = some true ∨ ∃ t, (s.task t).closing? = some .tcpl
  /-- `cl.Close` is called on a client. -/
  guard : ∀ {t q}, (s.task t).closing? = some q → q = .test ∨ q = .stop → s.cl = true
  stopped : s.stop = true → s.cl = true

theorem Serving.init : Serving Process.init where
  listens := fun h => absurd rfl h
  shut := fun h => (by cases h)
  cut := fun h => (by cases h)
  guard := fun h => (by cases h)
  stopped := fun h => (by cases h)

theorem Serving.frame (h : Serving s) (hserve : s'.serve = s.serve) (htcpl : s'.tcpl = s.tcpl) (hstop : s'.stop = s.stop)
    (hcl : s.cl = true → s'.cl = true) (htask : ∀ t, (s'.task t).closing? = (s.task t).closing?) : Serving s' where
  listens := fun hn => by rw [htcpl]; exact h.listens (hserve ▸ hn)
  shut := fun ht => by rw [hstop]; exact h.shut (htcpl ▸ ht)
  cut := by
    intro hst hs
    rcases h.cut (hstop ▸ hst) (hserve ▸ hs) with ht | ⟨t, ht⟩
    · exact .inl (htcpl.trans ht)
    · exact .inr ⟨t, (htask t).trans ht⟩
  guard := fun hc hq => hcl (h.guard ((htask _).symm.trans hc) hq)
  stopped := fun hst => hcl (h.stopped (hstop ▸ hst))

/-- The invariant of the process. -/
structure Inv (n : ℕ) (s : Process) : Prop where
  quiet : s.panicked = false
  closing : Closing n s
  started : Started n s
  serving : Serving s
  returned : s.main = .returned → s.wg = 0

theorem Inv.init : Inv n Process.init := ⟨rfl, .init, .init, .init, fun h => (by cases h)⟩

/-- A step that neither closes anything nor moves a goroutine in the function of `once`. -/
theorem Inv.frame (h : Inv n s) (hstarted : Started n s') (hserving : Serving s') (hquiet : s'.panicked = s.panicked)
    (honce : s'.once = s.once) (hstop : s'.stop = s.stop) (hclc : s'.clClosed = s.clClosed)
    (hcancel : s'.cancelled = s.cancelled) (hws : s'.ws = s.ws)
    (htask : ∀ t, (s'.task t).closing? = (s.task t).closing?) (hret : s'.main = .returned → s'.wg = 0) : Inv n s' :=
  ⟨hquiet.trans h.quiet, h.closing.frame honce hstop hclc hcancel hws htask, hstarted, hserving, hret⟩

/-- A goroutine moves on outside of the function of `once`. -/
theorem Inv.goto (h : Inv n s) (hrun : s.main ≠ .returned) (ht : s.task t ≠ .unborn) (hc : (s.task t).closing? = none)
    (hpc : pc.closing? = none) (hcount : pc.count = (s.task t).count) : Inv n (s.goto t pc) :=
  h.frame (h.started.goto ht hcount) (h.serving.frame rfl rfl rfl id (closing?_goto hc hpc)) rfl rfl rfl rfl rfl rfl
    (closing?_goto hc hpc) fun hm => absurd hm hrun

/-- `once.Do` returns in a goroutine that did not run the function. -/
theorem Inv.finish (h : Inv n s) (hrun : s.main ≠ .returned) (ht : s.task t ≠ .unborn) (hd : s.task t ≠ .done)
    (hc : (s.task t).closing? = none) : Inv n (s.finish t) := by
  rw [h.started.finish_eq ht hd]
  exact h.frame (h.started.finish ht hd) (h.serving.frame rfl rfl rfl id (closing?_goto hc rfl)) rfl rfl rfl rfl rfl rfl
    (closing?_goto hc rfl) fun hm => absurd hm hrun

theorem Inv.runStep (h : Inv n s) (hrun : s.main ≠ .returned) (ht : s.task t = .running)
    (hs : s.runStep n t = some s') : Inv n s' := by
  have hborn : s.task t ≠ .unborn := by rw [ht]; exact fun he => (by cases he)
  have hnone : (s.task t).closing? = none := by rw [ht]; rfl
  have honce : TaskPc.once.count = (s.task t).count := by rw [ht]; rfl
  cases t with
  | listener i =>
    simp only [Process.runStep] at hs
    split_ifs at hs
    cases hs
    exact h.goto hrun hborn hnone rfl honce
  | heartBeat =>
    simp only [Process.runStep] at hs
    split_ifs at hs
    cases hs
    exact h.goto hrun hborn hnone rfl honce
  | accept =>
    simp only [Process.runStep] at hs
    cases hsv : s.serve with
    | listen =>
      simp only [hsv, Option.some.injEq] at hs
      subst hs
      refine h.frame (h.started.congr rfl rfl rfl rfl rfl rfl) ?_ rfl rfl rfl rfl rfl rfl (fun _ => rfl)
        fun hm => absurd hm hrun
      exact ⟨fun _ => rfl, fun hst => (by cases hst), fun _ hsv => (by cases hsv), h.serving.guard, h.serving.stopped⟩
    | check =>
      simp only [hsv] at hs
      split_ifs at hs with hstop <;> cases hs
      · exact h.goto hrun hborn hnone rfl honce
      · refine h.frame (h.started.congr rfl rfl rfl rfl rfl rfl) ?_ rfl rfl rfl rfl rfl rfl (fun _ => rfl)
          fun hm => absurd hm hrun
        exact ⟨fun _ => h.serving.listens (by rw [hsv]; exact fun he => (by cases he)), h.serving.shut,
          fun hst => absurd hst hstop, h.serving.guard, h.serving.stopped⟩
    | accept =>
      simp only [hsv] at hs
      split_ifs at hs
      cases hs
      exact h.goto hrun hborn hnone rfl honce
  | notify =>
    simp only [Process.runStep] at hs
    split_ifs at hs <;> cases hs
    · -- a `NotifyClose` on closed handles returns
      have := h.finish hrun hborn (by rw [ht]; exact fun he => (by cases he)) hnone
      exact this
    · have hg : Inv n (s.goto .notify .once) := h.goto hrun hborn hnone rfl honce
      exact hg.frame (hg.started.congr rfl rfl rfl rfl rfl rfl) (hg.serving.frame rfl rfl rfl id fun _ => rfl) rfl rfl rfl
        rfl rfl rfl (fun _ => rfl) fun hm => absurd hm hrun

/-- `Serving` in the function of `once`, but for `cl.Close`. -/
theorem Serving.advance {q : ClosePc} (h : Serving s) (ht : s.task t = .closing q) (hq : q ≠ .tcpl)
    (hserve : s'.serve = s.serve) (htcpl : s'.tcpl = s.tcpl) (hstop : s'.stop = s.stop) (hcl : s'.cl = s.cl)
    (htask : ∀ t', s'.task t' = if t' = t then pc else s.task t')
    (hguard : ∀ q', pc.closing? = some q' → q' = .test ∨ q' = .stop → s.cl = true) : Serving s' where
  listens := fun hn => by rw [htcpl]; exact h.listens (hserve ▸ hn)
  shut := fun ht => by rw [hstop]; exact h.shut (htcpl ▸ ht)
  cut := by
    intro hst hs
    rcases h.cut (hstop ▸ hst) (hserve ▸ hs) with h1 | ⟨t', h1⟩
    · exact .inl (htcpl.trans h1)
    · refine .inr ⟨t', ?_⟩
      rw [htask, if_neg, h1]
      rintro rfl
      rw [ht] at h1
      exact hq (Option.some.inj h1)
  guard := by
    intro t' q' hc hq'
    rw [hcl]
    rw [htask] at hc
    split_ifs at hc
    · exact hguard q' hc hq'
    · exact h.guard hc hq'
  stopped := fun hst => by rw [hcl]; exact h.stopped (hstop ▸ hst)

theorem Inv.closeStep {q : ClosePc} (h : Inv n s) (hrun : s.main ≠ .returned) (ht : s.task t = .closing q)
    (hs : s.closeStep n t q = some s') : Inv n s' := by
  have hborn : s.task t ≠ .unborn := by rw [ht]; exact fun he => (by cases he)
  have hnd : s.task t ≠ .done := by rw [ht]; exact fun he => (by cases he)
  have hq : (s.task t).closing? = some q := by rw [ht]; rfl
  have hcount : ∀ q', (TaskPc.closing q').count = (s.task t).count := fun q' => by rw [ht]; rfl
  obtain ⟨q1, hq1, hphase⟩ := h.closing.busy (h.closing.closer hq)
  rw [hq] at hq1
  cases hq1
  have hhb : s.cl = true → s.hb = true := by
    intro hc
    rw [h.started.cl, decide_eq_true_eq] at hc
    rw [h.started.hb, decide_eq_true_eq]
    omega
  have hfin := ({ h.started with } : Started n { s with once := .finished }).finish_eq hborn hnd
  have hclosing := h.closing.closeStep ht hhb h.serving.stopped hfin hs
  have hret : ∀ {p : Prop}, s.main = .returned → p := fun hm => absurd hm hrun
  have hgoto := fun q' => h.started.goto hborn (hcount q')
  cases q with
  | start =>
    cases hs
    refine ⟨h.quiet, hclosing, hgoto _, ?_, hret⟩
    refine h.serving.advance ht (fun he => (by cases he)) rfl rfl rfl rfl (Process.task_goto t · _) fun q' hc hq' => ?_
    by_contra hcl
    rw [if_neg hcl] at hc
    cases hc
    rcases hq' with hq' | hq' <;> cases hq'
  | test =>
    cases hs
    refine ⟨h.quiet, hclosing, hgoto _, ?_, hret⟩
    exact h.serving.advance ht (fun he => (by cases he)) rfl rfl rfl rfl (Process.task_goto t · _)
      fun _ _ _ => h.serving.guard hq (.inl rfl)
  | stop =>
    have hcl := h.serving.guard hq (.inr rfl)
    simp only [Process.closeStep, hphase.1, Bool.false_eq_true, if_false, Option.some.injEq] at hs
    subst hs
    refine ⟨h.quiet, hclosing, (hgoto .tcpl).congr rfl rfl rfl rfl rfl rfl, ?_, hret⟩
    refine ⟨h.serving.listens, fun _ => rfl, fun _ _ => .inr ⟨t, ?_⟩, fun _ _ => hcl, fun _ => hcl⟩
    exact (closing?_advance t).trans (if_pos rfl)
  | tcpl =>
    cases hs
    refine ⟨h.quiet, hclosing, (hgoto _).congr rfl rfl rfl rfl rfl rfl, ?_, hret⟩
    refine ⟨fun hn => ?_, fun _ => hphase.1, fun _ hs => ?_, fun {t' q'} hc hq' => h.serving.stopped hphase.1,
      fun _ => h.serving.stopped hphase.1⟩
    · rw [Option.isSome_map]
      exact h.serving.listens hn
    · replace hs : s.serve = .accept := hs
      obtain ⟨b, hb⟩ := Option.isSome_iff_exists.mp (h.serving.listens (by rw [hs]; exact fun he => (by cases he)))
      left
      show s.tcpl.map (fun _ => true) = some true
      rw [hb]
      rfl
  | wait =>
    simp only [Process.closeStep] at hs
    split_ifs at hs
    cases hs
    refine ⟨h.quiet, hclosing, hgoto _, ?_, hret⟩
    refine h.serving.advance ht (fun he => (by cases he)) rfl rfl rfl rfl (Process.task_goto t · _) fun q' hc hq' => ?_
    cases hc
    rcases hq' with hq' | hq' <;> cases hq'
  | heartBeat =>
    cases hs
    refine ⟨h.quiet, hclosing, (hgoto _).congr rfl rfl rfl rfl rfl rfl, ?_, hret⟩
    refine h.serving.advance ht (fun he => (by cases he)) rfl rfl rfl rfl (Process.task_goto t · (.closing (.websocket 0)))
      fun q' hc hq' => ?_
    cases hc
    rcases hq' with hq' | hq' <;> cases hq'
  | websocket j =>
    simp only [Process.closeStep] at hs
    split_ifs at hs with hj
    · cases hs
      refine ⟨h.quiet, hclosing, (hgoto _).congr rfl rfl rfl rfl rfl rfl, ?_, hret⟩
      refine h.serving.advance ht (fun he => (by cases he)) rfl rfl rfl rfl
        (Process.task_goto t · (.closing (.websocket (j + 1)))) fun q' hc hq' => ?_
      cases hc
      rcases hq' with hq' | hq' <;> cases hq'
    · rw [hfin] at hs
      cases hs
      refine ⟨h.quiet, hclosing, (h.started.finish hborn hnd).congr rfl rfl rfl rfl rfl rfl, ?_, hret⟩
      exact h.serving.advance ht (fun he => (by cases he)) rfl rfl rfl rfl (Process.task_goto t · .done)
        fun q' hc => (by cases hc)

/-- The goroutine that comes first runs the function. -/
theorem Inv.enter (h : Inv n s) (hrun : s.main ≠ .returned) (ht : s.task t = .once) (ho : s.once = .fresh) :
    Inv n { s.goto t (.closing .start) with once := .busy t } := by
  have hborn : s.task t ≠ .unborn := by rw [ht]; exact fun he => (by cases he)
  have hnone : ∀ t', (s.task t').closing? = none := by
    intro t'
    rw [Option.eq_none_iff_forall_ne_some]
    intro q hq
    have := h.closing.closer hq
    rw [ho] at this
    cases this
  have htask : ∀ t', ((s.goto t (.closing .start)).task t').closing? = if t' = t then some .start else none := by
    intro t'
    rw [closing?_advance, hnone t']
  refine ⟨h.quiet, ⟨fun {t' q} hc => ?_, fun {t'} hb => ?_, fun hf => (by cases hf), fun hf => (by cases hf),
    h.closing.sync⟩, ?_, ?_, fun hm => absurd hm hrun⟩
  · rw [htask] at hc
    split_ifs at hc with he
    rw [he]
  · cases hb
    exact ⟨.start, (htask t).trans (if_pos rfl), h.closing.fresh ho⟩
  · have hgoto : Started n (s.goto t (.closing .start)) := h.started.goto hborn (by rw [ht]; rfl)
    exact hgoto.congr rfl rfl rfl rfl rfl rfl
  · refine ⟨h.serving.listens, h.serving.shut, fun hst => ?_, fun {t' q} hc hq => ?_, h.serving.stopped⟩
    · have hopen : s.stop = false := (h.closing.fresh ho).1
      cases hopen.symm.trans hst
    · rw [htask] at hc
      split_ifs at hc
      cases hc
      rcases hq with hq | hq <;> cases hq

theorem Inv.taskStep (h : Inv n s) (hrun : s.main ≠ .returned) (hs : s.taskStep n t = some s') : Inv n s' := by
  unfold Process.taskStep at hs
  cases ht : s.task t with
  | unborn | done => simp only [ht] at hs; cases hs
  | running => simp only [ht] at hs; exact h.runStep hrun ht hs
  | closing q => simp only [ht] at hs; exact h.closeStep hrun ht hs
  | once =>
    simp only [ht] at hs
    cases ho : s.once with
    | fresh =>
      simp only [ho, Option.some.injEq] at hs
      subst hs
      exact h.enter hrun ht ho
    | busy t' => simp only [ho] at hs; cases hs
    | finished =>
      simp only [ho, Option.some.injEq] at hs
      subst hs
      exact h.finish hrun (by rw [ht]; exact fun he => (by cases he)) (by rw [ht]; exact fun he => (by cases he))
        (by rw [ht]; rfl)

/-- The main goroutine launches a goroutine. -/
theorem closing?_launch (ht : s.task t = .unborn) (t' : Task) :
    ((s.goto t .running).task t').closing? = (s.task t').closing? :=
  closing?_goto (by rw [ht]; rfl) rfl t'

theorem Inv.mainStep (h : Inv n s) (hs : s.mainStep n = some s') : Inv n s' := by
  have hstarted := h.started.mainStep hs
  unfold Process.mainStep at hs
  cases hm : s.main with
  | add | setHb | opened =>
    simp only [hm, Option.some.injEq] at hs
    subst hs
    exact h.frame hstarted (h.serving.frame rfl rfl rfl id fun _ => rfl) rfl rfl rfl rfl rfl rfl (fun _ => rfl)
      fun hr => (by cases hr)
  | setCl =>
    simp only [hm, Option.some.injEq] at hs
    subst hs
    exact h.frame hstarted (h.serving.frame rfl rfl rfl (fun _ => rfl) fun _ => rfl) rfl rfl rfl rfl rfl rfl (fun _ => rfl)
      fun hr => (by cases hr)
  | listener i =>
    simp only [hm] at hs
    split_ifs at hs <;> cases hs
    · have hunborn := h.started.listener i (by rw [hm]; exact le_rfl)
      exact h.frame hstarted (h.serving.frame rfl rfl rfl id (closing?_launch hunborn)) rfl rfl rfl rfl rfl rfl
        (closing?_launch hunborn) fun hr => (by cases hr)
    · exact h.frame hstarted (h.serving.frame rfl rfl rfl id fun _ => rfl) rfl rfl rfl rfl rfl rfl (fun _ => rfl)
        fun hr => (by cases hr)
  | goHb =>
    simp only [hm, Option.some.injEq] at hs
    subst hs
    have hunborn := h.started.heartBeat (by rw [hm]; exact le_rfl)
    exact h.frame hstarted (h.serving.frame rfl rfl rfl id (closing?_launch hunborn)) rfl rfl rfl rfl rfl rfl
      (closing?_launch hunborn) fun hr => (by cases hr)
  | goCl =>
    simp only [hm, Option.some.injEq] at hs
    subst hs
    have hunborn := h.started.accept (by rw [hm]; exact le_rfl)
    exact h.frame hstarted (h.serving.frame rfl rfl rfl id (closing?_launch hunborn)) rfl rfl rfl rfl rfl rfl
      (closing?_launch hunborn) fun hr => (by cases hr)
  | wait =>
    simp only [hm] at hs
    split_ifs at hs with hwg
    cases hs
    exact h.frame hstarted (h.serving.frame rfl rfl rfl id fun _ => rfl) rfl rfl rfl rfl rfl rfl (fun _ => rfl)
      fun _ => hwg
  | returned => simp only [hm] at hs; cases hs

/-- Every step keeps the invariant. -/
theorem Inv.step (h : Inv n s) (hs : s.step n l = some s') : Inv n s' := by
  obtain ⟨hgo, hs⟩ := Option.ite_none_left_eq_some.mp hs
  have hrun : s.main ≠ .returned := by
    intro hm
    simp [hm] at hgo
  have hret : ∀ {p : Prop}, s.main = .returned → p := fun hm => absurd hm hrun
  cases l with
  | main => exact h.mainStep hs
  | task t => exact h.taskStep hrun hs
  | fail t =>
    obtain ⟨⟨ht, -⟩, hs⟩ := Option.ite_none_right_eq_some.mp hs
    cases hs
    exact h.goto hrun (by rw [ht]; exact fun he => (by cases he)) (by rw [ht]; rfl) rfl (by rw [ht]; rfl)
  | accept =>
    obtain ⟨⟨-, hsv, -⟩, hs⟩ := Option.ite_none_right_eq_some.mp hs
    cases hs
    refine h.frame (h.started.congr rfl rfl rfl rfl rfl rfl) ?_ rfl rfl rfl rfl rfl rfl (fun _ => rfl) hret
    exact ⟨fun _ => h.serving.listens (by rw [hsv]; exact fun he => (by cases he)), h.serving.shut,
      fun _ hc => (by cases hc), h.serving.guard, h.serving.stopped⟩
  | conn j ok =>
    have hconns : ∃ cs, s' = { s with conns := cs } := by
      replace hs : s.connStep j ok = some s' := hs
      unfold Process.connStep at hs
      split at hs <;> cases hs <;> exact ⟨_, rfl⟩
    obtain ⟨cs, rfl⟩ := hconns
    exact h.frame (h.started.congr rfl rfl rfl rfl rfl rfl) (h.serving.frame rfl rfl rfl id fun _ => rfl) rfl rfl rfl rfl
      rfl rfl (fun _ => rfl) hret
  | interrupt =>
    obtain ⟨hm, hs⟩ := Option.ite_none_right_eq_some.mp hs
    split_ifs at hs with hi <;> cases hs
    · exact h.frame (h.started.congr rfl rfl rfl rfl rfl rfl) (h.serving.frame rfl rfl rfl id fun _ => rfl) rfl rfl rfl
        rfl rfl rfl (fun _ => rfl) hret
    · have hunborn := h.started.notify (by simpa using hi)
      refine h.frame ?_ (h.serving.frame rfl rfl rfl id (closing?_launch hunborn)) rfl rfl rfl rfl rfl rfl
        (closing?_launch hunborn) hret
      have hne : ∀ t', t' ≠ .notify → (s.goto .notify .running).task t' = s.task t' := fun t' ht' => launch_ne ht'
      refine ⟨h.started.hb, h.started.cl, h.started.lane, fun i hi => ?_, fun hr => ?_, fun hr => ?_,
        fun hc => (by cases hc), ?_⟩
      · exact (hne _ fun he => (by cases he)).trans (h.started.listener i hi)
      · exact (hne _ fun he => (by cases he)).trans (h.started.heartBeat hr)
      · exact (hne _ fun he => (by cases he)).trans (h.started.accept hr)
      · exact h.started.wg.trans (Started.launch_wg hunborn _ (nodup_added n _)).symm

theorem Inv.run {ls : List Label} (h : Run (Process.step n) anyStep Process.init ls s) : Inv n s :=
  h.invariant .init fun _ _ _ ha _ hs => ha.step hs

end Wssocks.Cli

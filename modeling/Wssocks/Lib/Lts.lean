import Mathlib.Data.List.Basic

/-!
# Runs of a labelled transition system

A system is a partial step function `step : S → L → Option S`; the label fixes
every choice of the environment and of the scheduler, and `none` means that the
label is not enabled. `Run step ok s ls s'` is a run from `s` to `s'` over the
labels `ls`, each of whose steps satisfies the side condition `ok` in the state
it is taken from.

Results:
* `Run.invariant`: a predicate kept by every step of a run is kept by the run.
* `Run.mono`, `Run.trans`: weakening the side condition, composing runs.
* `exec_run`: a run found by evaluation is a run.
* `Run.simulate`: a system each of whose steps is at most one step of another one has its runs
  among those of the other.
-/

namespace Wssocks.Lib

section Runs

variable {S L : Type}

/-- A run from `s` over the labels `ls`, extended at its end. -/
inductive Run (step : S → L → Option S) (ok : S → L → Prop) : S → List L → S → Prop
  | nil (s : S) : Run step ok s [] s
  | snoc {s s' s'' : S} {ls : List L} {l : L} : Run step ok s ls s' → ok s' l →
      step s' l = some s'' → Run step ok s (ls ++ [l]) s''

/-- The side condition that every step meets. -/
def anyStep : S → L → Prop := fun _ _ => True

variable {step : S → L → Option S} {ok ok' : S → L → Prop} {s s' s'' : S} {ls ls' : List L}

/-- A predicate that holds at the start of a run and that every step of the run
    keeps holds at its end. -/
theorem Run.invariant {I : S → Prop} (h : Run step ok s ls s') (h0 : I s)
    (hstep : ∀ a l b, I a → ok a l → step a l = some b → I b) : I s' := by
  induction h with
  | nil => exact h0
  | snoc _ hok hst ih => exact hstep _ _ _ ih hok hst

/-- The same for a predicate on the labels taken so far and the state. -/
theorem Run.trace_invariant {I : List L → S → Prop} (h : Run step ok s ls s') (h0 : I [] s)
    (hstep : ∀ t a l b, I t a → ok a l → step a l = some b → I (t ++ [l]) b) : I ls s' := by
  induction h with
  | nil => exact h0
  | snoc _ hok hst ih => exact hstep _ _ _ _ ih hok hst

theorem Run.trans (h : Run step ok s ls s') (h' : Run step ok s' ls' s'') :
    Run step ok s (ls ++ ls') s'' := by
  induction h' with
  | nil => simpa using h
  | snoc _ hok hst ih => rw [← List.append_assoc]; exact .snoc ih hok hst

theorem Run.single {l : L} (hok : ok s l) (h : step s l = some s') : Run step ok s [l] s' :=
  .snoc (.nil s) hok h

theorem Run.mono (h : Run step ok s ls s') (hok : ∀ a l, ok a l → ok' a l) :
    Run step ok' s ls s' := by
  induction h with
  | nil => exact .nil _
  | snoc _ h1 hst ih => exact .snoc ih (hok _ _ h1) hst

/-- Weakening the side condition with the help of an invariant of the run. -/
theorem Run.mono_of_invariant {I : S → Prop} (h : Run step ok s ls s') (h0 : I s)
    (hstep : ∀ a l b, I a → ok a l → step a l = some b → I b)
    (hok : ∀ a l, I a → ok a l → ok' a l) : Run step ok' s ls s' ∧ I s' := by
  induction h with
  | nil => exact ⟨.nil _, h0⟩
  | snoc _ h1 hst ih =>
    obtain ⟨hr, hi⟩ := ih
    exact ⟨.snoc hr (hok _ _ hi h1) hst, hstep _ _ _ hi h1 hst⟩

/-- Evaluates a list of labels, testing the side condition before each step. -/
def exec (step : S → L → Option S) (ok : S → L → Bool) : S → List L → Option S
  | s, [] => some s
  | s, l :: ls => if ok s l then (step s l).bind fun s' => exec step ok s' ls else none

theorem exec_run {okb : S → L → Bool} (h : exec step okb s ls = some s') :
    Run step (fun a l => okb a l = true) s ls s' := by
  induction ls generalizing s with
  | nil => cases h; exact .nil _
  | cons l ls ih =>
    simp only [exec] at h
    split at h
    · rename_i hok
      obtain ⟨a, ha, hr⟩ := Option.bind_eq_some_iff.mp h
      have h1 : Run step (fun a l => okb a l = true) s [l] a := Run.single hok ha
      simpa using h1.trans (ih hr)
    · cases h

/-- A run found by evaluation, with what was observed at its end. -/
theorem exists_run_of_exec {O : Type} {okb : S → L → Bool} {obs : S → O} {x : O}
    (h : (exec step okb s ls).map obs = some x) :
    ∃ s', Run step (fun a l => okb a l = true) s ls s' ∧ obs s' = x := by
  obtain ⟨s', h1, h2⟩ := Option.map_eq_some_iff.mp h
  exact ⟨s', exec_run h1, h2⟩

/-- The events of a run, where a step from `s` with label `l` causes `ev s l`. -/
def history {E : Type} (step : S → L → Option S) (ev : S → L → List E) : S → List L → List E
  | _, [] => []
  | s, l :: ls => ev s l ++ (step s l).elim [] fun s' => history step ev s' ls

theorem history_append {E : Type} {ev : S → L → List E} (h : Run step ok s ls s') (ls' : List L) :
    history step ev s (ls ++ ls') = history step ev s ls ++ history step ev s' ls' := by
  induction h generalizing ls' with
  | nil => rfl
  | snoc _ _ hst ih => rw [List.append_assoc, ih, ih]; simp [history, hst]

/-- A predicate on the events so far and the state that every step keeps. -/
theorem Run.history_invariant {E : Type} {ev : S → L → List E} {I : List E → S → Prop}
    (h : Run step ok s ls s') (h0 : I [] s)
    (hstep : ∀ t a l b, I t a → ok a l → step a l = some b → I (t ++ ev a l) b) :
    I (history step ev s ls) s' := by
  induction h with
  | nil => exact h0
  | snoc hr hok hst ih =>
    rw [history_append hr]
    simpa [history, hst] using hstep _ _ _ _ ih hok hst

/-- At most one step: the one with the label `a`, or none. -/
def Acts (step : S → L → Option S) (s s' : S) : Option L → Prop
  | some a => step s a = some s'
  | none => s' = s

/-- The view `f` of a run is a run, if the view of every step is at most one step. -/
theorem Run.simulate {T A : Type} {act : T → A → Option T} {okA : T → A → Prop} {f : S → T}
    {lab : S → L → Option A} (h : Run step ok s ls s')
    (hstep : ∀ a l b, ok a l → step a l = some b → Acts act (f a) (f b) (lab a l))
    (hok : ∀ a l x, ok a l → lab a l = some x → okA (f a) x) :
    ∃ as, Run act okA (f s) as (f s') := by
  induction h with
  | nil => exact ⟨[], .nil _⟩
  | @snoc a b _ l _ h1 hst ih =>
    obtain ⟨as, hr⟩ := ih
    have h2 := hstep a l b h1 hst
    cases hx : lab a l with
    | none =>
      rw [hx] at h2
      have h3 : f b = f a := h2
      exact ⟨as, h3 ▸ hr⟩
    | some x =>
      rw [hx] at h2
      exact ⟨as ++ [x], .snoc hr (hok a l x h1 hx) h2⟩

end Runs

end Wssocks.Lib

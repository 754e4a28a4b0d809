import Mathlib.Algebra.BigOperators.Intervals
import Mathlib.Algebra.GroupWithZero.Nat
import Wssocks.Lib.Lts

/-!
# Potentials of runs

A potential is a number that the steps of one kind use up and the steps of another
kind supply. It bounds how many steps of the first kind there are in a run, and from
a state on they come to an end.

The potential of a system with many parts is a sum over their numbers, of which a
step changes one or two terms.

Results:

* `Run.count_le`: the number of steps that use the potential, by those that supply it.
* `exists_run_to_end`: steps that use the potential can be taken until none is possible.
* `exists_run_to`: if outside a goal some step uses the potential, a run leads to the goal.
* `sum_range_exchange`, `sum_range_grow`, `sum_map_set`, `sum_map_update`: a sum of which one term changes, or which
  gets terms that are zero.
-/

namespace Wssocks.Lib

section Runs

variable {S L : Type} {step : S → L → Option S} {ok : S → L → Prop} {s s' : S} {ls : List L} {I : S → Prop}

/-- A step that satisfies `p` adds at most `c` to the potential, every other one uses at least one. -/
theorem Run.count_le (pot : S → ℕ) {p : L → Bool} {c : ℕ} (h : Run step ok s ls s') (h0 : I s)
    (hkeep : ∀ a l b, I a → ok a l → step a l = some b → I b)
    (hsupply : ∀ a l b, I a → ok a l → step a l = some b → p l = true → pot b ≤ pot a + c)
    (huse : ∀ a l b, I a → ok a l → step a l = some b → p l = false → pot b + 1 ≤ pot a) :
    ls.countP (fun l => !p l) + pot s' ≤ pot s + c * ls.countP p := by
  suffices hall : I s' ∧ ls.countP (fun l => !p l) + pot s' ≤ pot s + c * ls.countP p from hall.2
  refine h.trace_invariant (I := fun ls a => I a ∧ ls.countP (fun l => !p l) + pot a ≤ pot s + c * ls.countP p)
    ⟨h0, by simp⟩ ?_
  rintro ls a l b ⟨ha, hle⟩ hok hst
  refine ⟨hkeep a l b ha hok hst, ?_⟩
  rw [List.countP_append, List.countP_append]
  cases hp : p l with
  | true =>
    have := hsupply a l b ha hok hst hp
    simp only [List.countP_cons, List.countP_nil, hp, Bool.not_true, Bool.false_eq_true, if_true, if_false, Nat.mul_add,
      Nat.mul_one, Nat.zero_add, Nat.add_zero]
    omega
  | false =>
    have := huse a l b ha hok hst hp
    simp only [List.countP_cons, List.countP_nil, hp, Bool.not_false, Bool.false_eq_true, if_true, if_false, Nat.zero_add,
      Nat.add_zero]
    omega

/-- If every step uses the potential, a run comes to a state where no step is possible. -/
theorem exists_run_to_end (step : S → L → Option S) (ok : S → L → Prop) (pot : S → ℕ) (h0 : I s)
    (hkeep : ∀ a l b, I a → ok a l → step a l = some b → I b)
    (huse : ∀ a l b, I a → ok a l → step a l = some b → pot b < pot a) :
    ∃ ls s', Run step ok s ls s' ∧ I s' ∧ ∀ l, ok s' l → step s' l = none := by
  generalize hn : pot s = n
  induction n using Nat.strong_induction_on generalizing s with
  | _ n ih =>
    by_cases hend : ∀ l, ok s l → step s l = none
    · exact ⟨[], s, .nil s, h0, hend⟩
    · push Not at hend
      obtain ⟨l, hok, hne⟩ := hend
      obtain ⟨s1, hs1⟩ := Option.ne_none_iff_exists'.mp hne
      have hlt := huse s l s1 h0 hok hs1
      obtain ⟨ls, s', hrun, hI, hend⟩ := ih (pot s1) (hn ▸ hlt) (hkeep s l s1 h0 hok hs1) rfl
      exact ⟨_, s', (Run.single hok hs1).trans hrun, hI, hend⟩

/-- If outside the goal some step uses the potential, a run leads to the goal. -/
theorem exists_run_to (step : S → L → Option S) (ok : S → L → Prop) (pot : S → ℕ) {goal : S → Prop} (h0 : I s)
    (huse : ∀ a, I a → ¬ goal a → ∃ l b, ok a l ∧ step a l = some b ∧ I b ∧ pot b < pot a) :
    ∃ ls s', Run step ok s ls s' ∧ goal s' := by
  generalize hn : pot s = n
  induction n using Nat.strong_induction_on generalizing s with
  | _ n ih =>
    by_cases hgoal : goal s
    · exact ⟨[], s, .nil s, hgoal⟩
    · obtain ⟨l, s1, hok, hs1, hI, hlt⟩ := huse s h0 hgoal
      obtain ⟨ls, s', hrun, hend⟩ := ih (pot s1) (hn ▸ hlt) hI rfl
      exact ⟨_, s', (Run.single hok hs1).trans hrun, hend⟩

end Runs

section Sums

open Finset

variable {f g : ℕ → ℕ} {i n m : ℕ}

/-- One term changes. -/
theorem sum_range_exchange (hi : i < n) (h : ∀ j, j ≠ i → g j = f j) :
    ∑ j ∈ range n, g j + f i = ∑ j ∈ range n, f j + g i := by
  have hmem : i ∈ range n := mem_range.mpr hi
  have hrest : ∑ j ∈ (range n).erase i, g j = ∑ j ∈ (range n).erase i, f j :=
    sum_congr rfl fun j hj => h j (ne_of_mem_erase hj)
  rw [← add_sum_erase _ f hmem, ← add_sum_erase _ g hmem, hrest]
  omega

/-- The new terms are zero. -/
theorem sum_range_grow (hn : n ≤ m) (hold : ∀ j < n, g j = f j) (hnew : ∀ j, n ≤ j → j < m → g j = 0) :
    ∑ j ∈ range m, g j = ∑ j ∈ range n, f j := by
  rw [← sum_range_add_sum_Ico _ hn, sum_congr rfl fun j hj => hold j (mem_range.mp hj),
    sum_eq_zero fun j hj => hnew j (mem_Ico.mp hj).1 (mem_Ico.mp hj).2, add_zero]

theorem sum_map_set {α : Type} {xs : List α} {x y : α} {w : α → ℕ} (h : xs[i]? = some x) :
    ((xs.set i y).map w).sum + w x = (xs.map w).sum + w y := by
  induction xs generalizing i with
  | nil => cases h
  | cons a xs ih =>
    cases i with
    | zero =>
      obtain rfl := Option.some.inj h
      simp only [List.set_cons_zero, List.map_cons, List.sum_cons]
      omega
    | succ i =>
      have := ih (i := i) h
      simp only [List.set_cons_succ, List.map_cons, List.sum_cons]
      omega

/-- One part of a system changes. -/
theorem sum_map_update {α β : Type} [DecidableEq α] {xs : List α} {f : α → β} {a : α} {b : β} {w : β → ℕ}
    (hnd : xs.Nodup) (ha : a ∈ xs) :
    (xs.map fun x => w (Function.update f a b x)).sum + w (f a) = (xs.map fun x => w (f x)).sum + w b := by
  induction xs with
  | nil => cases ha
  | cons x xs ih =>
    obtain ⟨hx, hnd⟩ := List.nodup_cons.mp hnd
    simp only [List.map_cons, List.sum_cons]
    by_cases hax : a = x
    · subst hax
      have hrest : (xs.map fun y => w (Function.update f a b y)) = xs.map fun y => w (f y) :=
        List.map_congr_left fun y hy => by rw [Function.update_of_ne (fun h : y = a => hx (h ▸ hy))]
      rw [Function.update_self, hrest]
      omega
    · have := ih hnd ((List.mem_cons.mp ha).resolve_left hax)
      rw [Function.update_of_ne fun h : x = a => hax h.symm]
      omega

theorem sum_map_update_of_notMem {α β : Type} [DecidableEq α] {xs : List α} {f : α → β} {a : α} {b : β} {w : β → ℕ}
    (ha : a ∉ xs) : (xs.map fun x => w (Function.update f a b x)).sum = (xs.map fun x => w (f x)).sum := by
  refine congrArg List.sum (List.map_congr_left fun x hx => ?_)
  rw [Function.update_of_ne fun h : x = a => ha (h ▸ hx)]

end Sums

end Wssocks.Lib

import Mathlib.Data.Finset.Card

/-!
# Counting marks

`tally p n` is the number of `k < n` with the mark `p k`. A counter that is
incremented once for each new mark holds the tally, so it has reached `n` exactly
when every `k < n` is marked.
-/

namespace Wssocks.Lib

/-- How many `k < n` are marked. -/
def tally (p : ℕ → Bool) (n : ℕ) : ℕ := ((Finset.range n).filter fun k => p k = true).card

variable {p : ℕ → Bool} {n k : ℕ}

theorem tally_eq_iff : tally p n = n ↔ ∀ k < n, p k = true := by
  have h := Finset.card_filter_eq_iff (s := Finset.range n) (p := fun k => p k = true)
  rw [Finset.card_range] at h
  unfold tally
  rw [h]
  simp

theorem tally_eq_zero (h : ∀ k, p k = false) : tally p n = 0 := by
  rw [tally, Finset.card_eq_zero, Finset.filter_eq_empty_iff]
  intro k _
  simp [h k]

/-- A new mark counts one more. -/
theorem tally_update (hk : k < n) (h : p k = false) :
    tally (Function.update p k true) n = tally p n + 1 := by
  have hins : ((Finset.range n).filter fun j => Function.update p k true j = true) =
      insert k ((Finset.range n).filter fun j => p j = true) := by
    ext j
    by_cases hj : j = k
    · subst hj; simp [hk]
    · simp [hj]
  rw [tally, hins, Finset.card_insert_of_notMem (by simp [h])]
  rfl

end Wssocks.Lib

import Mathlib.Algebra.GroupWithZero.Nat
import Mathlib.Data.List.AList

/-!
# Maps of counts

A map from keys to numbers. `total m` is the sum of its entries. `Counts m f`: the map holds the numbers `f`,
without an entry where the number is zero.

`total_insert`, `total_erase`: what an assignment and a deletion do to the sum.
`Counts.insert`, `Counts.erase`: what they do to the numbers.
-/

namespace Wssocks.Lib

section CountMap

variable {K : Type} [DecidableEq K]

/-- The sum of all entries. -/
def total (m : AList fun _ : K => ℕ) : ℕ := (m.entries.map Sigma.snd).sum

/-- Without its first entry for `k`, a list has a sum that is less by this entry. -/
theorem sum_kerase (k : K) (l : List (Sigma fun _ : K => ℕ)) :
    ((l.kerase k).map Sigma.snd).sum + (l.dlookup k).getD 0 = (l.map Sigma.snd).sum := by
  induction l with
  | nil => rfl
  | cons e l ih =>
    obtain ⟨k', n⟩ := e
    by_cases hk : k = k'
    · subst hk
      have herase : List.kerase k (⟨k, n⟩ :: l) = l := List.kerase_cons_eq rfl
      rw [herase, List.dlookup_cons_eq, Option.getD_some, List.map_cons, List.sum_cons]
      exact Nat.add_comm _ _
    · have herase : List.kerase k (⟨k', n⟩ :: l) = ⟨k', n⟩ :: l.kerase k := List.kerase_cons_ne hk
      have hlookup : List.dlookup k (⟨k', n⟩ :: l) = l.dlookup k := List.dlookup_cons_ne l ⟨k', n⟩ hk
      rw [herase, hlookup, List.map_cons, List.map_cons, List.sum_cons, List.sum_cons, Nat.add_assoc, ih]

theorem total_erase (m : AList fun _ : K => ℕ) (k : K) : total (m.erase k) + (m.lookup k).getD 0 = total m :=
  sum_kerase k m.entries

theorem total_insert (m : AList fun _ : K => ℕ) (k : K) (n : ℕ) :
    total (m.insert k n) + (m.lookup k).getD 0 = total m + n := by
  have herase := total_erase m k
  have hinsert : total (m.insert k n) = n + total (m.erase k) := by
    rw [total, AList.entries_insert, List.map_cons, List.sum_cons]
    rfl
  omega

/-- The map holds the numbers `f`, and no zero. -/
def Counts (m : AList fun _ : K => ℕ) (f : K → ℕ) : Prop :=
  ∀ k, m.lookup k = if f k = 0 then none else some (f k)

variable {m : AList fun _ : K => ℕ} {f : K → ℕ}

theorem counts_empty : Counts (∅ : AList fun _ : K => ℕ) fun _ => 0 := fun k => by simp

theorem Counts.getD (h : Counts m f) (k : K) : (m.lookup k).getD 0 = f k := by
  rw [h k]
  split_ifs with h0
  · exact h0.symm
  · rfl

theorem Counts.le_total (h : Counts m f) (k : K) : f k ≤ total m := by
  have herase := total_erase m k
  rw [h.getD] at herase
  omega

theorem Counts.insert (h : Counts m f) (k : K) {n : ℕ} (hn : n ≠ 0) :
    Counts (m.insert k n) (Function.update f k n) := by
  intro k'
  by_cases hk : k' = k
  · subst hk
    rw [AList.lookup_insert, Function.update_self, if_neg hn]
  · rw [AList.lookup_insert_ne hk, Function.update_of_ne hk, h k']

theorem Counts.erase (h : Counts m f) (k : K) : Counts (m.erase k) (Function.update f k 0) := by
  intro k'
  by_cases hk : k' = k
  · subst hk
    rw [AList.lookup_erase, Function.update_self, if_pos rfl]
  · rw [AList.lookup_erase_ne hk, Function.update_of_ne hk, h k']

end CountMap

end Wssocks.Lib

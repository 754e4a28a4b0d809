import Mathlib.Data.Int.CardIntervalMod

/-!
# Splitting a sequence round-robin and merging it back

A sequence is dealt to `n` lanes in turn: item `i` goes to lane `i % n`, where it
has position `i / n`.

* `Splits n lanes xs`: the lanes hold exactly the items of `xs`, dealt in turn.
* `Merges n lanes xs`: `xs` was taken from the lanes in turn, one item each.
* `taken n k t`: how many of the first `t` items are of lane `k`.

`Merges.prefix_of_splits`: what a merger takes from the lanes a splitter fills is
a prefix of what the splitter dealt, whatever part of each lane has arrived.
-/

namespace Wssocks.Lib

section RoundRobin

variable {α : Type} {n k t : ℕ} {lanes lanes' : ℕ → List α} {xs : List α}

/-- How many of the items `0, …, t - 1` go to lane `k`. -/
def taken (n k t : ℕ) : ℕ := Nat.count (fun i => i % n = k) t

@[simp] theorem taken_zero : taken n k 0 = 0 := rfl

theorem taken_succ_self (h : t % n = k) : taken n k (t + 1) = taken n k t + 1 := by
  simp [taken, Nat.count_succ, h]

theorem taken_succ_ne (h : t % n ≠ k) : taken n k (t + 1) = taken n k t := by
  simp [taken, Nat.count_succ, h]

/-- The next item of the lane whose turn it is has position `t / n`. -/
theorem taken_turn (hn : 0 < n) : taken n (t % n) t = t / n := by
  have h := Nat.count_modEq_card t hn t
  rw [if_neg (lt_irrefl _), Nat.add_zero] at h
  exact h

/-- Two items of one lane with the same position. -/
theorem turn_inj {t' : ℕ} (h : t' % n = t % n) : t' / n = t / n ↔ t' = t := by
  refine ⟨fun hdiv => ?_, fun heq => by rw [heq]⟩
  rw [← Nat.div_add_mod t' n, hdiv, h, Nat.div_add_mod]

/-- An item of lane `k` that is not among the first `t`. -/
theorem le_of_taken_le {p : ℕ} (hk : k < n) (h : taken n k t ≤ p) : t ≤ n * p + k := by
  by_contra hlt
  have hmod : (n * p + k) % n = k := by rw [Nat.mul_add_mod, Nat.mod_eq_of_lt hk]
  have hturn : taken n k (n * p + k) = p := by
    have hdiv : (n * p + k) / n = p := by rw [Nat.mul_add_div (by omega), Nat.div_eq_of_lt hk, Nat.add_zero]
    have htaken := taken_turn (t := n * p + k) (n := n) (by omega)
    rwa [hmod, hdiv] at htaken
  have hmono : taken n k (n * p + k + 1) ≤ taken n k t := Nat.count_monotone _ (by omega)
  rw [taken_succ_self hmod, hturn] at hmono
  omega

/-- The lanes hold the items of `xs`, dealt in turn. -/
def Splits (n : ℕ) (lanes : ℕ → List α) (xs : List α) : Prop :=
  ∀ k < n, ∀ m, (lanes k)[m]? = xs[m * n + k]?

/-- `xs` was taken from the lanes in turn. -/
def Merges (n : ℕ) (lanes : ℕ → List α) (xs : List α) : Prop :=
  ∀ i b, xs[i]? = some b → (lanes (i % n))[i / n]? = some b

theorem splits_nil : Splits n (fun _ => ([] : List α)) [] := by
  intro k _ m; simp

theorem merges_nil : Merges n lanes ([] : List α) := by
  intro i b h; simp at h

/-- The lane whose turn it is holds `xs.length / n` items. -/
theorem Splits.length_turn (h : Splits n lanes xs) (hn : 0 < n) :
    (lanes (xs.length % n)).length = xs.length / n := by
  have hk := h (xs.length % n) (Nat.mod_lt _ hn)
  have hdiv := Nat.div_add_mod xs.length n
  apply le_antisymm
  · have h1 : (lanes (xs.length % n))[xs.length / n]? = none := by
      rw [hk, Nat.mul_comm, hdiv]; simp
    simpa using h1
  · by_contra hlt
    have h2 := hk (lanes (xs.length % n)).length
    rw [List.getElem?_eq_none le_rfl, eq_comm, List.getElem?_eq_none_iff] at h2
    have h3 : (lanes (xs.length % n)).length * n + n ≤ xs.length / n * n := by
      have : (lanes (xs.length % n)).length + 1 ≤ xs.length / n := by omega
      calc (lanes (xs.length % n)).length * n + n
          = ((lanes (xs.length % n)).length + 1) * n := (Nat.succ_mul _ _).symm
        _ ≤ xs.length / n * n := Nat.mul_le_mul_right _ this
    have h4 : xs.length / n * n + xs.length % n = xs.length := by rw [Nat.mul_comm]; exact hdiv
    omega

/-- Dealing one more item appends it to the lane whose turn it is. -/
theorem Splits.push (h : Splits n lanes xs) (hn : 0 < n) (b : α) :
    Splits n (Function.update lanes (xs.length % n) (lanes (xs.length % n) ++ [b])) (xs ++ [b]) := by
  intro k hk m
  have hlen := h.length_turn hn
  have hdiv : xs.length / n * n + xs.length % n = xs.length := by
    rw [Nat.mul_comm]; exact Nat.div_add_mod _ _
  rw [List.getElem?_append]
  by_cases hkt : k = xs.length % n
  · subst hkt
    rw [Function.update_self, List.getElem?_append, hlen]
    rcases lt_trichotomy m (xs.length / n) with hm | hm | hm
    · have : (m + 1) * n ≤ xs.length / n * n := Nat.mul_le_mul_right _ hm
      rw [if_pos hm, if_pos (by rw [Nat.succ_mul] at this; omega)]
      exact h _ hk m
    · subst hm
      simp [hdiv]
    · have : (xs.length / n + 1) * n ≤ m * n := Nat.mul_le_mul_right _ hm
      rw [Nat.succ_mul] at this
      rw [if_neg (by omega), if_neg (by omega)]
      have e1 : ([b] : List α)[m - xs.length / n]? = none := by simp; omega
      have e2 : ([b] : List α)[m * n + xs.length % n - xs.length]? = none := by simp; omega
      rw [e1, e2]
  · rw [Function.update_of_ne hkt, h k hk m]
    split_ifs with hlt
    · rfl
    · have hne : m * n + k ≠ xs.length := by
        intro he
        apply hkt
        rw [← he, Nat.mul_comm, Nat.mul_add_mod, Nat.mod_eq_of_lt hk]
      rw [List.getElem?_eq_none (by omega), eq_comm, List.getElem?_eq_none_iff]
      simp; omega

/-- Taking the next item of the lane whose turn it is. -/
theorem Merges.push (h : Merges n lanes xs) {b : α}
    (hb : (lanes (xs.length % n))[xs.length / n]? = some b) : Merges n lanes (xs ++ [b]) := by
  intro i c hi
  rw [List.getElem?_append] at hi
  split_ifs at hi with hlt
  · exact h i c hi
  · have hi0 : i = xs.length := by
      have := (List.getElem?_eq_some_iff.mp hi).1
      simp at this; omega
    subst hi0
    simp at hi
    rw [← hi]; exact hb

/-- No more is taken from a lane than it holds. -/
theorem Merges.taken_le (h : Merges n lanes xs) (hn : 0 < n) (k : ℕ) :
    taken n k xs.length ≤ (lanes k).length := by
  suffices hle : ∀ t ≤ xs.length, taken n k t ≤ (lanes k).length from hle _ le_rfl
  intro t
  induction t with
  | zero => intro _; simp
  | succ t ih =>
    intro ht
    by_cases hk : t % n = k
    · have hb := h t xs[t] (List.getElem?_eq_getElem ht)
      rw [hk] at hb
      rw [taken_succ_self hk, ← hk, taken_turn hn, hk]
      exact (List.getElem?_eq_some_iff.mp hb).1
    · rw [taken_succ_ne hk]; exact ih (by omega)

/-- A merger does not see what arrives on the lanes later. -/
theorem Merges.mono (h : Merges n lanes xs) (hn : 0 < n)
    (hl : ∀ k < n, lanes k <+: lanes' k) : Merges n lanes' xs := by
  intro i b hi
  obtain ⟨hlt, rfl⟩ := List.getElem?_eq_some_iff.mp (h i b hi)
  exact List.prefix_iff_getElem?.mp (hl (i % n) (Nat.mod_lt _ hn)) _ hlt

/-- What is merged from parts of the lanes is a prefix of what was dealt. -/
theorem Merges.prefix_of_splits {ys : List α} (hm : Merges n lanes ys) (hs : Splits n lanes' xs)
    (hn : 0 < n) (hl : ∀ k < n, lanes k <+: lanes' k) : ys <+: xs := by
  have hm' := hm.mono hn hl
  rw [List.prefix_iff_getElem?]
  intro i hi
  have h1 := hm' i ys[i] (List.getElem?_eq_getElem hi)
  rw [hs _ (Nat.mod_lt _ hn), Nat.mul_comm, Nat.div_add_mod] at h1
  exact h1

end RoundRobin

end Wssocks.Lib

import Mathlib.Data.List.Basic

/-!
# Buffered channels

A buffered Go channel of capacity `cap`: a bounded FIFO with a closed flag. The
bound is a field, so a channel that holds more than its capacity cannot be
built.

* `Chan.send?` is the send half of a `select`: `none` while the send blocks (the
  buffer is full). A send on a closed channel panics; the caller tests `closed`.
* `Chan.recv?` is the receive: the head of the buffer, the zero value once a
  closed channel is drained, `none` while the receive blocks.
-/

namespace Wssocks.Lib

/-- A buffered channel of capacity `cap`. -/
structure Chan (α : Type) (cap : ℕ) where
  items : List α
  closed : Bool
  length_le : items.length ≤ cap

namespace Chan

variable {α : Type} {cap : ℕ}

/-- `make(chan α, cap)`. -/
def empty : Chan α cap := ⟨[], false, Nat.zero_le _⟩

instance : Inhabited (Chan α cap) := ⟨empty⟩

/-- The buffer has no free slot: a send blocks. -/
def full (c : Chan α cap) : Bool := decide (c.items.length = cap)

/-- `c <- x` on an open channel; `none` while it blocks. -/
def send? (c : Chan α cap) (x : α) : Option (Chan α cap) :=
  if h : c.items.length < cap then
    some ⟨c.items ++ [x], c.closed, by rw [List.length_append]; exact h⟩
  else none

/-- `<-c`; `none` while it blocks. -/
def recv? [Inhabited α] (c : Chan α cap) : Option (α × Chan α cap) :=
  match h : c.items with
  | x :: xs => some (x, ⟨xs, c.closed, by have := c.length_le; rw [h] at this; exact Nat.le_of_succ_le this⟩)
  | [] => if c.closed then some (default, c) else none

/-- `close(c)`. -/
def close (c : Chan α cap) : Chan α cap := ⟨c.items, true, c.length_le⟩

@[simp] theorem items_empty : (empty : Chan α cap).items = [] := rfl

@[simp] theorem closed_empty : (empty : Chan α cap).closed = false := rfl

theorem send?_eq_some {c c' : Chan α cap} {x : α} (h : c.send? x = some c') :
    c'.items = c.items ++ [x] ∧ c'.closed = c.closed ∧ c.full = false := by
  unfold send? at h
  split at h
  · rename_i hlt
    cases h
    exact ⟨rfl, rfl, by simp [full]; omega⟩
  · cases h

theorem send?_isSome (c : Chan α cap) (x : α) : (c.send? x).isSome = !c.full := by
  have := c.length_le
  unfold send? full
  split <;> simp <;> omega

/-- A receive takes the head, or the zero value from a drained closed channel. -/
theorem recv?_eq_some [Inhabited α] {c c' : Chan α cap} {x : α} (h : c.recv? = some (x, c')) :
    (c.items = x :: c'.items ∧ c'.closed = c.closed) ∨
      (c.items = [] ∧ c.closed = true ∧ x = default ∧ c' = c) := by
  unfold recv? at h
  split at h
  · rename_i y ys hc
    cases h
    exact .inl ⟨hc, rfl⟩
  · rename_i hc
    split at h
    · rename_i hcl
      cases h
      exact .inr ⟨hc, hcl, rfl, rfl⟩
    · cases h

theorem closed_recv? [Inhabited α] {c : Chan α cap} {r : α × Chan α cap} (h : c.recv? = some r) :
    r.2.closed = c.closed := by
  rcases recv?_eq_some h with ⟨-, h1⟩ | ⟨-, -, -, h1⟩
  · exact h1
  · rw [h1]

theorem recv?_isSome [Inhabited α] (c : Chan α cap) (h : c.items ≠ []) : (c.recv?).isSome := by
  unfold recv?
  split
  · rfl
  · rename_i hc; exact absurd hc h

end Chan

end Wssocks.Lib

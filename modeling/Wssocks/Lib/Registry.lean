import Mathlib.Data.List.AList
import Mathlib.Data.List.Nodup

/-!
# Registries of heap objects

A registry is a map from keys to pointers together with the heap of the objects
it created: what a hub `map[K]*T` behind a lock is. An object outlives its entry,
because other goroutines may still hold the pointer.

Two invariants are fields: every pointer in the map is allocated, and no object
is registered under two keys.
-/

namespace Wssocks.Lib

/-- A map of pointers (addresses in `ℕ`) with the heap behind it. -/
structure Registry (K α : Type) [DecidableEq K] where
  index : AList (fun _ : K => ℕ)
  obj : ℕ → α
  next : ℕ
  valid : ∀ k r, index.lookup k = some r → r < next
  inj : ∀ k k' r, index.lookup k = some r → index.lookup k' = some r → k = k'

namespace Registry

variable {K α : Type} [DecidableEq K]

/-- The empty registry. -/
def empty [Inhabited α] : Registry K α where
  index := ∅
  obj := fun _ => default
  next := 0
  valid := by simp
  inj := by simp

/-- `m[k]`. -/
def ref? (g : Registry K α) (k : K) : Option ℕ := g.index.lookup k

/-- `m[k] = &a` with a fresh object. -/
def create (g : Registry K α) (k : K) (a : α) : Registry K α where
  index := g.index.insert k g.next
  obj := Function.update g.obj g.next a
  next := g.next + 1
  valid := by
    intro k' r h
    by_cases hk : k' = k
    · subst hk
      rw [AList.lookup_insert] at h
      cases h; exact Nat.lt_succ_self _
    · rw [AList.lookup_insert_ne hk] at h
      exact Nat.lt_succ_of_lt (g.valid _ _ h)
  inj := by
    intro k1 k2 r h1 h2
    by_cases hk1 : k1 = k <;> by_cases hk2 : k2 = k
    · rw [hk1, hk2]
    · subst hk1
      rw [AList.lookup_insert] at h1
      rw [AList.lookup_insert_ne hk2] at h2
      cases h1; exact absurd (g.valid _ _ h2) (lt_irrefl _)
    · subst hk2
      rw [AList.lookup_insert] at h2
      rw [AList.lookup_insert_ne hk1] at h1
      cases h2; exact absurd (g.valid _ _ h1) (lt_irrefl _)
    · rw [AList.lookup_insert_ne hk1] at h1
      rw [AList.lookup_insert_ne hk2] at h2
      exact g.inj _ _ _ h1 h2

/-- `*r = f(*r)`. -/
def modify (g : Registry K α) (r : ℕ) (f : α → α) : Registry K α :=
  { g with obj := Function.update g.obj r (f (g.obj r)) }

/-- `delete(m, k)`. -/
def erase (g : Registry K α) (k : K) : Registry K α where
  index := g.index.erase k
  obj := g.obj
  next := g.next
  valid := by
    intro k' r h
    by_cases hk : k' = k
    · subst hk; simp at h
    · rw [AList.lookup_erase_ne hk] at h; exact g.valid _ _ h
  inj := by
    intro k1 k2 r h1 h2
    by_cases hk1 : k1 = k
    · subst hk1; simp at h1
    by_cases hk2 : k2 = k
    · subst hk2; simp at h2
    rw [AList.lookup_erase_ne hk1] at h1
    rw [AList.lookup_erase_ne hk2] at h2
    exact g.inj _ _ _ h1 h2

/-- `if _, ok := m[k]; !ok { m[k] = &a }`. -/
def ensure (g : Registry K α) (k : K) (a : α) : Registry K α :=
  if (g.ref? k).isSome then g else g.create k a

variable {g : Registry K α} {k k' : K} {a : α} {r r' : ℕ} {f : α → α}

theorem ref?_lt (h : g.ref? k = some r) : r < g.next := g.valid k r h

theorem ref?_inj (h : g.ref? k = some r) (h' : g.ref? k' = some r) : k = k' := g.inj k k' r h h'

@[simp] theorem ref?_empty [Inhabited α] : (empty : Registry K α).ref? k = none := by
  simp [empty, ref?]

@[simp] theorem next_empty [Inhabited α] : (empty : Registry K α).next = 0 := rfl

theorem ref?_create : (g.create k a).ref? k' = if k' = k then some g.next else g.ref? k' := by
  unfold create ref?
  split_ifs with h
  · subst h; simp
  · simp [AList.lookup_insert_ne h]

@[simp] theorem next_create : (g.create k a).next = g.next + 1 := rfl

theorem obj_create : (g.create k a).obj r = if r = g.next then a else g.obj r := by
  simp [create, Function.update_apply]

@[simp] theorem ref?_modify : (g.modify r f).ref? k = g.ref? k := rfl

@[simp] theorem next_modify : (g.modify r f).next = g.next := rfl

theorem obj_modify : (g.modify r f).obj r' = if r' = r then f (g.obj r) else g.obj r' := by
  simp [modify, Function.update_apply]

@[simp] theorem obj_modify_self : (g.modify r f).obj r = f (g.obj r) := by simp [modify]

theorem obj_modify_ne (h : r' ≠ r) : (g.modify r f).obj r' = g.obj r' := by
  simp [obj_modify, h]

@[simp] theorem modify_id : g.modify r (fun x => x) = g := by
  unfold modify
  rw [Function.update_eq_self]

theorem ref?_erase : (g.erase k).ref? k' = if k' = k then none else g.ref? k' := by
  unfold erase ref?
  split_ifs with h
  · subst h; simp
  · simp [AList.lookup_erase_ne h]

@[simp] theorem obj_erase : (g.erase k).obj = g.obj := rfl

/-- What `ensure` leaves under a key: the old object, or the fresh one. -/
theorem ref?_ensure : (g.ensure k a).ref? k' =
    if k' = k then some ((g.ref? k).getD g.next) else g.ref? k' := by
  unfold ensure
  split_ifs with h1 h2 h2
  · subst h2
    obtain ⟨r, hr⟩ := Option.isSome_iff_exists.mp h1
    simp [hr]
  · rfl
  · subst h2
    simp [ref?_create, Option.not_isSome_iff_eq_none.mp h1]
  · simp [ref?_create, h2]

theorem next_ensure : (g.ensure k a).next = if (g.ref? k).isSome then g.next else g.next + 1 := by
  unfold ensure; split_ifs <;> rfl

theorem obj_ensure : (g.ensure k a).obj r =
    if g.ref? k = none ∧ r = g.next then a else g.obj r := by
  unfold ensure
  split_ifs with h1 h2 h2
  · rw [h2.1] at h1; cases h1
  · rfl
  · rw [obj_create, if_pos h2.2]
  · rw [obj_create, if_neg]
    intro h
    exact h2 ⟨by simpa using h1, h⟩

/-- `ensure` leaves every allocated object as it was. -/
theorem obj_ensure_of_lt (h : r < g.next) : (g.ensure k a).obj r = g.obj r := by
  rw [obj_ensure, if_neg]
  rintro ⟨-, rfl⟩
  exact lt_irrefl _ h

theorem next_le_ensure : g.next ≤ (g.ensure k a).next := by
  rw [next_ensure]; split_ifs <;> omega

end Registry

/-- In a list of distinct keys a key decides its index. -/
theorem index_inj {K : Type} {ks : List K} (hnd : ks.Nodup) {j k : ℕ} {x y : K}
    (hj : ks[j]? = some x) (hk : ks[k]? = some y) : x = y ↔ j = k := by
  constructor
  · rintro rfl
    exact (List.getElem?_inj (List.getElem?_eq_some_iff.mp hj).1 hnd).mp (hj.trans hk.symm)
  · rintro rfl
    exact Option.some.inj (hj.symm.trans hk)

end Wssocks.Lib

import Wssocks.Lib.Registry

/-!
# Objects that are closed when they leave the registry

The objects of a registry hold something that has to be closed once. `live` and `dead` tell of an object that it
is not closed and that it is. `Ledger live dead g`: what is registered is live, and what was created and is not
registered any more is dead. `Settles live dead g g' rs`: from `g` to `g'` the objects `rs` were closed, each once,
and what was dead stayed dead.

`Settles.trans`: such changes compose, and their lists of closed objects are appended.
`Ledger.release`, `Ledger.releaseAll`: closing registered objects and deleting their entries.
-/

namespace Wssocks.Lib

section Ledger

variable {K α : Type} [DecidableEq K]

/-- Registered objects are live, all others that were created are dead. -/
structure Ledger (live dead : α → Prop) (g : Registry K α) : Prop where
  held : ∀ {k r}, g.ref? k = some r → live (g.obj r)
  gone : ∀ {r}, r < g.next → (∀ k, g.ref? k ≠ some r) → dead (g.obj r)

/-- A change from `g` to `g'` that closes the objects `rs`. -/
structure Settles (live dead : α → Prop) (g g' : Registry K α) (rs : List ℕ) : Prop where
  ledger : Ledger live dead g'
  next : g.next ≤ g'.next
  stays : ∀ r < g.next, dead (g.obj r) → dead (g'.obj r)
  once : rs.Nodup
  closed : ∀ r ∈ rs, r < g'.next ∧ dead (g'.obj r) ∧ (r < g.next → ¬ dead (g.obj r))

variable {live dead : α → Prop} {g g' g'' : Registry K α} {rs rs' : List ℕ} {k : K} {r : ℕ} {a : α} {f : α → α}

theorem ledger_empty [Inhabited α] : Ledger live dead (Registry.empty : Registry K α) where
  held := by simp
  gone := by simp

/-- An object is registered exactly if it was created and is not closed. -/
theorem Ledger.registered_iff (h : Ledger live dead g) (hld : ∀ x, live x → ¬ dead x) :
    (∃ k, g.ref? k = some r) ↔ r < g.next ∧ ¬ dead (g.obj r) := by
  constructor
  · rintro ⟨k, hk⟩
    exact ⟨Registry.ref?_lt hk, hld _ (h.held hk)⟩
  · rintro ⟨hlt, hnd⟩
    by_contra hno
    exact hnd (h.gone hlt fun k hk => hno ⟨k, hk⟩)

theorem Settles.refl (h : Ledger live dead g) : Settles live dead g g [] :=
  ⟨h, Nat.le_refl _, fun _ _ hd => hd, List.nodup_nil, by simp⟩

theorem Settles.trans (h : Settles live dead g g' rs) (h' : Settles live dead g' g'' rs') :
    Settles live dead g g'' (rs ++ rs') where
  ledger := h'.ledger
  next := Nat.le_trans h.next h'.next
  stays := fun r hr hd => h'.stays r (Nat.lt_of_lt_of_le hr h.next) (h.stays r hr hd)
  once := by
    refine List.nodup_append.mpr ⟨h.once, h'.once, ?_⟩
    rintro r hr r' hr' rfl
    obtain ⟨hlt, hd, -⟩ := h.closed r hr
    exact (h'.closed r hr').2.2 hlt hd
  closed := by
    intro r hr
    rcases List.mem_append.mp hr with h1 | h1
    · obtain ⟨hlt, hd, hnd⟩ := h.closed r h1
      exact ⟨Nat.lt_of_lt_of_le hlt h'.next, h'.stays r hlt hd, hnd⟩
    · obtain ⟨hlt, hd, hnd⟩ := h'.closed r h1
      exact ⟨hlt, hd, fun hr hd0 => hnd (Nat.lt_of_lt_of_le hr h.next) (h.stays r hr hd0)⟩

/-- A change of one object that closes nothing. -/
theorem settles_modify (h : Ledger live dead g) (hl : live (g.obj r) → live (f (g.obj r)))
    (hd : dead (g.obj r) → dead (f (g.obj r))) : Settles live dead g (g.modify r f) [] := by
  refine ⟨⟨?_, ?_⟩, Nat.le_refl _, ?_, List.nodup_nil, by simp⟩
  · intro k r' hk
    have hlive := h.held hk
    rw [Registry.obj_modify]
    split_ifs with hr
    · rw [hr] at hlive
      exact hl hlive
    · exact hlive
  · intro r' hlt hno
    have hdead := h.gone hlt hno
    rw [Registry.obj_modify]
    split_ifs with hr
    · rw [hr] at hdead
      exact hd hdead
    · exact hdead
  · intro r' _ hdead
    rw [Registry.obj_modify]
    split_ifs with hr
    · rw [hr] at hdead
      exact hd hdead
    · exact hdead

/-- A new object for a key that has none. -/
theorem settles_create (h : Ledger live dead g) (hk : g.ref? k = none) (ha : live a) :
    Settles live dead g (g.create k a) [] := by
  have hold : ∀ r < g.next, (g.create k a).obj r = g.obj r := by
    intro r hr
    rw [Registry.obj_create, if_neg (Nat.ne_of_lt hr)]
  refine ⟨⟨?_, ?_⟩, Nat.le_succ _, fun r hr hd => by rwa [hold r hr], List.nodup_nil, by simp⟩
  · intro k' r hr
    rw [Registry.ref?_create] at hr
    split_ifs at hr
    · cases hr
      rwa [Registry.obj_create, if_pos rfl]
    · rw [hold r (Registry.ref?_lt hr)]
      exact h.held hr
  · intro r hlt hno
    have hne : r ≠ g.next := by
      rintro rfl
      exact hno k (by rw [Registry.ref?_create, if_pos rfl])
    have hr : r < g.next := Nat.lt_of_le_of_ne (Nat.le_of_lt_succ hlt) hne
    rw [hold r hr]
    refine h.gone hr fun k' hk' => hno k' ?_
    rw [Registry.ref?_create, if_neg, hk']
    rintro rfl
    rw [hk] at hk'
    cases hk'

theorem settles_ensure (h : Ledger live dead g) (ha : live a) : Settles live dead g (g.ensure k a) [] := by
  unfold Registry.ensure
  split_ifs with hk
  · exact .refl h
  · exact settles_create h (Option.not_isSome_iff_eq_none.mp hk) ha

/-! ## Closing -/

/-- `x.close(); delete(m, k)` for the object `x` at `r`. The close of an object panics (`none`) or gives the object
    and whether it closed something. -/
def release (close : α → Option (α × Bool)) (g : Registry K α) (r : ℕ) (k : K) : Option (Registry K α × List ℕ) :=
  (close (g.obj r)).map fun x => ((g.modify r fun _ => x.1).erase k, if x.2 then [r] else [])

/-- A registered object is closed and its entry deleted: there is no panic. -/
theorem Ledger.release {close : α → Option (α × Bool)} {b : α} (h : Ledger live dead g)
    (hld : ∀ x, live x → ¬ dead x) (hr : g.ref? k = some r) (hclose : close (g.obj r) = some (b, true))
    (hb : dead b) :
    release close g r k = some ((g.modify r fun _ => b).erase k, [r]) ∧
      Settles live dead g ((g.modify r fun _ => b).erase k) [r] := by
  have hobj : ∀ r', ((g.modify r fun _ => b).erase k).obj r' = if r' = r then b else g.obj r' := by
    intro r'
    rw [Registry.obj_erase, Registry.obj_modify]
  refine ⟨by simp [Lib.release, hclose], ⟨?_, ?_⟩, Nat.le_refl _, ?_, List.nodup_singleton r, ?_⟩
  · intro k' r' hk'
    rw [Registry.ref?_erase, Registry.ref?_modify] at hk'
    split_ifs at hk' with hkk
    rw [hobj, if_neg]
    · exact h.held hk'
    · rintro rfl
      exact hkk (Registry.ref?_inj hk' hr)
  · intro r' hlt hno
    rw [hobj]
    split_ifs with hrr
    · exact hb
    · refine h.gone hlt fun k' hk' => hno k' ?_
      rw [Registry.ref?_erase, if_neg, Registry.ref?_modify, hk']
      rintro rfl
      exact hrr (Option.some.inj (hk'.symm.trans hr))
  · intro r' _ hd
    rw [hobj]
    split_ifs
    · exact hb
    · exact hd
  · intro r' hr'
    obtain rfl := List.mem_singleton.mp hr'
    have hlt : r' < g.next := Registry.ref?_lt hr
    exact ⟨hlt, by rwa [hobj, if_pos rfl], fun _ => hld _ (h.held hr)⟩

/-- The same for one key after the other; an entry that is missing is a nil pointer. -/
def releaseAll (close : α → Option (α × Bool)) (g : Registry K α) : List K → Option (Registry K α × List ℕ)
  | [] => some (g, [])
  | k :: ks => (g.ref? k).bind fun r => (release close g r k).bind fun x =>
      (releaseAll close x.1 ks).map fun y => (y.1, x.2 ++ y.2)

/-- Distinct registered keys are released without a panic. -/
theorem Ledger.releaseAll {close : α → Option (α × Bool)} {ks : List K} (h : Ledger live dead g)
    (hld : ∀ x, live x → ¬ dead x) (hclose : ∀ x, live x → ∃ b, close x = some (b, true) ∧ dead b)
    (hks : ks.Nodup) (hreg : ∀ k ∈ ks, (g.ref? k).isSome) :
    ∃ g' rs, releaseAll close g ks = some (g', rs) ∧ Settles live dead g g' rs := by
  induction ks generalizing g with
  | nil => exact ⟨g, [], rfl, .refl h⟩
  | cons k ks ih =>
    obtain ⟨hk, hnd⟩ := List.nodup_cons.mp hks
    obtain ⟨r, hr⟩ := Option.isSome_iff_exists.mp (hreg k List.mem_cons_self)
    obtain ⟨b, hcl, hb⟩ := hclose _ (h.held hr)
    obtain ⟨hrel, hset⟩ := h.release hld hr hcl hb
    have hreg' : ∀ k' ∈ ks, (((g.modify r fun _ => b).erase k).ref? k').isSome := by
      intro k' hk'
      rw [Registry.ref?_erase, if_neg (ne_of_mem_of_not_mem hk' hk), Registry.ref?_modify]
      exact hreg k' (List.mem_cons_of_mem _ hk')
    obtain ⟨g', rs, hall, hsets⟩ := ih hset.ledger hnd hreg'
    exact ⟨g', r :: rs, by simp [Lib.releaseAll, hr, hrel, hall], hset.trans hsets⟩

end Ledger

end Wssocks.Lib

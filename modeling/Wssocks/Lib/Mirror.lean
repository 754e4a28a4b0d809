import Mathlib.Data.Set.Basic
import Wssocks.Lib.Registry

/-!
# The part of a registry that belongs to one owner

A registry whose objects have threads running on them is shared by several owners, each of which uses keys of
its own. `Mirrors p ρ g ts h us` says that the registry `h` with the threads `us` is the part `p` of the
registry `g` with the threads `ts`: `ρ` tells where in `g` each object of `h` is.

* `Mirrors.modify`, `create`, `erase`, `run`: an operation of the owner, done on both sides.
* `Apart p g ts g' ts'`: what happened between the two states did not touch the part `p`;
  `Mirrors.apart`: the part is still the same.
* `Moves`: an operation of the owner, done on both sides, that leaves all other parts alone. It composes.
-/

namespace Wssocks.Lib

variable {K α P : Type} [DecidableEq K]

/-- A part of a registry: its keys, the objects that are recognised as its own, what is known of these objects and of
the threads on them, and how a thread changes when the objects it refers to are elsewhere. `goodPc n` allows
references under `n`. -/
structure Part (K α P : Type) where
  keys : Set K
  own : α → Prop
  good : α → Prop
  rename : (ℕ → ℕ) → P → P
  goodPc : ℕ → P → Prop
  good_own : ∀ {x}, good x → own x
  mono : ∀ {n m pc}, n ≤ m → goodPc n pc → goodPc m pc
  congr : ∀ {n pc ρ ρ'}, goodPc n pc → (∀ a < n, ρ' a = ρ a) → rename ρ' pc = rename ρ pc

/-- `h` with `us` is the part `p` of `g` with `ts`. -/
structure Mirrors (p : Part K α P) (ρ : ℕ → ℕ) (g : Registry K α) (ts : ℕ → List P) (h : Registry K α)
    (us : ℕ → List P) : Prop where
  inj : ∀ a < h.next, ∀ b < h.next, ρ a = ρ b → a = b
  lt : ∀ a < h.next, ρ a < g.next
  ref : ∀ k ∈ p.keys, g.ref? k = (h.ref? k).map ρ
  obj : ∀ a < h.next, g.obj (ρ a) = h.obj a
  good : ∀ a < h.next, p.good (h.obj a)
  keyed : ∀ k q, g.ref? k = some q → k ∉ p.keys → ¬ p.own (g.obj q)
  surj : ∀ q < g.next, p.own (g.obj q) → ∃ a < h.next, ρ a = q
  threads : ∀ a < h.next, ts (ρ a) = (us a).map (p.rename ρ)
  goodPc : ∀ a, ∀ pc ∈ us a, p.goodPc h.next pc
  unborn : ∀ q, g.next ≤ q → ts q = []
  unborn' : ∀ a, h.next ≤ a → us a = []

variable {p : Part K α P} {ρ : ℕ → ℕ} {g g' g'' h : Registry K α} {ts ts' ts'' us : ℕ → List P}
  {a i : ℕ} {k : K} {x : α} {f : α → α}

theorem Mirrors.empty [Inhabited α] :
    Mirrors p id (Registry.empty : Registry K α) (fun _ => []) Registry.empty (fun _ => []) where
  inj := nofun
  lt := nofun
  ref := fun k _ => by simp
  obj := nofun
  good := nofun
  keyed := fun k q hk => by simp at hk
  surj := nofun
  threads := nofun
  goodPc := nofun
  unborn := fun _ _ => rfl
  unborn' := fun _ _ => rfl

/-- An object of the part in the shared registry. -/
theorem Mirrors.own (hm : Mirrors p ρ g ts h us) (ha : a < h.next) : p.own (g.obj (ρ a)) := by
  rw [hm.obj a ha]
  exact p.good_own (hm.good a ha)

theorem Mirrors.ne (hm : Mirrors p ρ g ts h us) (ha : a < h.next) {q : ℕ} (hq : ¬ p.own (g.obj q)) : ρ a ≠ q :=
  fun heq => hq (heq ▸ hm.own ha)

/-! ## Operations of the owner -/

theorem Mirrors.modify (hm : Mirrors p ρ g ts h us) (ha : a < h.next) (hf : p.good (f (h.obj a))) :
    Mirrors p ρ (g.modify (ρ a) f) ts (h.modify a f) us where
  inj := hm.inj
  lt := hm.lt
  ref := hm.ref
  obj := by
    intro b hb
    rw [Registry.obj_modify, Registry.obj_modify, hm.obj a ha]
    by_cases hab : b = a
    · rw [if_pos (by rw [hab]), if_pos hab]
    · rw [if_neg fun heq => hab (hm.inj b hb a ha heq), if_neg hab, hm.obj b hb]
  good := by
    intro b hb
    rw [Registry.obj_modify]
    split_ifs
    · exact hf
    · exact hm.good b hb
  keyed := by
    intro k q hq hk
    have hown := hm.keyed k q hq hk
    rwa [Registry.obj_modify_ne (hm.ne ha hown).symm]
  surj := by
    intro q hq hown
    by_cases hqa : q = ρ a
    · exact ⟨a, ha, hqa.symm⟩
    · rw [Registry.obj_modify_ne hqa] at hown
      exact hm.surj q hq hown
  threads := hm.threads
  goodPc := hm.goodPc
  unborn := hm.unborn
  unborn' := hm.unborn'

theorem Mirrors.erase (hm : Mirrors p ρ g ts h us) (k : K) : Mirrors p ρ (g.erase k) ts (h.erase k) us where
  inj := hm.inj
  lt := hm.lt
  ref := by
    intro k' hk'
    rw [Registry.ref?_erase, Registry.ref?_erase, hm.ref k' hk']
    split_ifs <;> rfl
  obj := hm.obj
  good := hm.good
  keyed := by
    intro k' q hq hk'
    rw [Registry.ref?_erase] at hq
    split_ifs at hq
    exact hm.keyed k' q hq hk'
  surj := hm.surj
  threads := hm.threads
  goodPc := hm.goodPc
  unborn := hm.unborn
  unborn' := hm.unborn'

/-- A new object is found at the next address of each side. -/
theorem Mirrors.create (hm : Mirrors p ρ g ts h us) (hk : k ∈ p.keys) (hx : p.good x) :
    Mirrors p (Function.update ρ h.next g.next) (g.create k x) ts (h.create k x) us := by
  have hold : ∀ a < h.next, Function.update ρ h.next g.next a = ρ a :=
    fun a ha => Function.update_of_ne (by omega) _ _
  have hcases : ∀ {a}, a < (h.create k x).next → a < h.next ∨ a = h.next := fun ha => by
    rw [Registry.next_create] at ha
    omega
  refine ⟨?_, ?_, ?_, ?_, ?_, ?_, ?_, ?_, ?_, ?_, ?_⟩
  · intro a ha b hb heq
    rcases hcases ha with ha | rfl <;> rcases hcases hb with hb | rfl
    · rw [hold a ha, hold b hb] at heq
      exact hm.inj a ha b hb heq
    · rw [hold a ha, Function.update_self] at heq
      have := hm.lt a ha
      omega
    · rw [hold b hb, Function.update_self] at heq
      have := hm.lt b hb
      omega
    · rfl
  · intro a ha
    rw [Registry.next_create]
    rcases hcases ha with ha | rfl
    · rw [hold a ha]
      have := hm.lt a ha
      omega
    · rw [Function.update_self]
      omega
  · intro k' hk'
    rw [Registry.ref?_create, Registry.ref?_create]
    split_ifs with heq
    · rw [Option.map_some, Function.update_self]
    · rw [hm.ref k' hk']
      cases hr : h.ref? k' with
      | none => rfl
      | some r => rw [Option.map_some, Option.map_some, hold r (Registry.ref?_lt hr)]
  · intro a ha
    rw [Registry.obj_create, Registry.obj_create]
    rcases hcases ha with ha | rfl
    · rw [hold a ha, if_neg (by have := hm.lt a ha; omega), if_neg (by omega), hm.obj a ha]
    · rw [Function.update_self, if_pos rfl, if_pos rfl]
  · intro a ha
    rw [Registry.obj_create]
    split_ifs with heq
    · exact hx
    · exact hm.good a ((hcases ha).resolve_right heq)
  · intro k' q hq hk'
    rw [Registry.ref?_create, if_neg (by rintro rfl; exact hk' hk)] at hq
    have hlt := Registry.ref?_lt hq
    rw [Registry.obj_create, if_neg (by omega)]
    exact hm.keyed k' q hq hk'
  · intro q hq hown
    rw [Registry.next_create] at hq
    by_cases hqn : q = g.next
    · exact ⟨h.next, by rw [Registry.next_create]; omega, by rw [Function.update_self, hqn]⟩
    · rw [Registry.obj_create, if_neg hqn] at hown
      obtain ⟨a, ha, haq⟩ := hm.surj q (by omega) hown
      exact ⟨a, by rw [Registry.next_create]; omega, by rw [hold a ha, haq]⟩
  · intro a ha
    rcases hcases ha with ha | rfl
    · rw [hold a ha, hm.threads a ha]
      exact List.map_congr_left fun pc hpc => (p.congr (hm.goodPc a pc hpc) hold).symm
    · rw [Function.update_self, hm.unborn _ le_rfl, hm.unborn' _ le_rfl, List.map_nil]
  · intro a pc hpc
    exact p.mono (by rw [Registry.next_create]; omega) (hm.goodPc a pc hpc)
  · intro q hq
    rw [Registry.next_create] at hq
    exact hm.unborn q (by omega)
  · intro a ha
    rw [Registry.next_create] at ha
    exact hm.unborn' a (by omega)

/-- `ρ'` places every object under `n` where `ρ` does. -/
def Extends (n : ℕ) (ρ ρ' : ℕ → ℕ) : Prop := ∀ a < n, ρ' a = ρ a

/-- The threads of an object of the part take their steps on both sides. -/
theorem Mirrors.run (hm : Mirrors p ρ g ts h us) (ha : a < h.next) {pcs : List P}
    (hpcs : ∀ pc ∈ pcs, p.goodPc h.next pc) :
    Mirrors p ρ g (Function.update ts (ρ a) (pcs.map (p.rename ρ))) h (Function.update us a pcs) where
  inj := hm.inj
  lt := hm.lt
  ref := hm.ref
  obj := hm.obj
  good := hm.good
  keyed := hm.keyed
  surj := hm.surj
  threads := by
    intro b hb
    by_cases hab : b = a
    · rw [hab, Function.update_self, Function.update_self]
    · rw [Function.update_of_ne fun heq => hab (hm.inj b hb a ha heq), Function.update_of_ne hab,
        hm.threads b hb]
  goodPc := by
    intro b pc hpc
    by_cases hab : b = a
    · rw [hab, Function.update_self] at hpc
      exact hpcs pc hpc
    · rw [Function.update_of_ne hab] at hpc
      exact hm.goodPc b pc hpc
  unborn := by
    intro q hq
    have := hm.lt a ha
    rw [Function.update_of_ne (by omega), hm.unborn q hq]
  unborn' := by
    intro b hb
    rw [Function.update_of_ne (by omega), hm.unborn' b hb]

/-! ## What others do -/

/-- From `g` with `ts` to `g'` with `ts'` the part `p` was left alone. -/
structure Apart (p : Part K α P) (g : Registry K α) (ts : ℕ → List P) (g' : Registry K α) (ts' : ℕ → List P) :
    Prop where
  ref : ∀ k ∈ p.keys, g'.ref? k = g.ref? k
  refs : ∀ k q, g'.ref? k = some q → g.ref? k = some q ∨ g.next ≤ q
  le : g.next ≤ g'.next
  obj : ∀ q < g.next, p.own (g.obj q) → g'.obj q = g.obj q
  own : ∀ q < g'.next, p.own (g'.obj q) → q < g.next ∧ p.own (g.obj q)
  threads : ∀ q < g.next, p.own (g.obj q) → ts' q = ts q
  unborn : ∀ q, g'.next ≤ q → ts' q = ts q

theorem Apart.refl : Apart p g ts g ts where
  ref := fun _ _ => rfl
  refs := fun _ _ hq => .inl hq
  le := le_rfl
  obj := fun _ _ _ => rfl
  own := fun _ hq hown => ⟨hq, hown⟩
  threads := fun _ _ _ => rfl
  unborn := fun _ _ => rfl

theorem Apart.trans (h₁ : Apart p g ts g' ts') (h₂ : Apart p g' ts' g'' ts'') : Apart p g ts g'' ts'' where
  ref := fun k hk => (h₂.ref k hk).trans (h₁.ref k hk)
  refs := by
    intro k q hq
    rcases h₂.refs k q hq with h | h
    · exact h₁.refs k q h
    · exact .inr (h₁.le.trans h)
  le := h₁.le.trans h₂.le
  obj := by
    intro q hq hown
    have hobj := h₁.obj q hq hown
    rw [h₂.obj q (lt_of_lt_of_le hq h₁.le) (hobj ▸ hown), hobj]
  own := by
    intro q hq hown
    obtain ⟨hq', hown'⟩ := h₂.own q hq hown
    exact h₁.own q hq' hown'
  threads := by
    intro q hq hown
    rw [h₂.threads q (lt_of_lt_of_le hq h₁.le) (h₁.obj q hq hown ▸ hown), h₁.threads q hq hown]
  unborn := fun q hq => (h₂.unborn q hq).trans (h₁.unborn q (h₂.le.trans hq))

/-- Objects of others change. -/
theorem Apart.modify {q : ℕ} (hq : ¬ p.own (g.obj q)) (hf : ¬ p.own (f (g.obj q))) :
    Apart p g ts (g.modify q f) ts where
  ref := fun _ _ => rfl
  refs := fun _ _ h => .inl h
  le := le_rfl
  obj := fun r _ hown => Registry.obj_modify_ne (by rintro rfl; exact hq hown)
  own := by
    intro r hr hown
    refine ⟨hr, ?_⟩
    rw [Registry.obj_modify] at hown
    split_ifs at hown
    · exact absurd hown hf
    · exact hown
  threads := fun _ _ _ => rfl
  unborn := fun _ _ => rfl

theorem Apart.create (hk : k ∉ p.keys) (hx : ¬ p.own x) : Apart p g ts (g.create k x) ts where
  ref := by
    intro k' hk'
    rw [Registry.ref?_create, if_neg]
    rintro rfl
    exact hk hk'
  refs := by
    intro k' q hq
    rw [Registry.ref?_create] at hq
    split_ifs at hq
    · exact .inr (Option.some.inj hq).le
    · exact .inl hq
  le := by rw [Registry.next_create]; omega
  obj := by
    intro q hq _
    rw [Registry.obj_create, if_neg (by omega)]
  own := by
    intro q hq hown
    rw [Registry.next_create] at hq
    rw [Registry.obj_create] at hown
    split_ifs at hown with heq
    · exact absurd hown hx
    · exact ⟨by omega, hown⟩
  threads := fun _ _ _ => rfl
  unborn := fun _ _ => rfl

theorem Apart.erase (hk : k ∉ p.keys) : Apart p g ts (g.erase k) ts where
  ref := by
    intro k' hk'
    rw [Registry.ref?_erase, if_neg]
    rintro rfl
    exact hk hk'
  refs := by
    intro k' q hq
    rw [Registry.ref?_erase] at hq
    split_ifs at hq
    exact .inl hq
  le := le_rfl
  obj := fun _ _ _ => rfl
  own := fun _ hq hown => ⟨hq, hown⟩
  threads := fun _ _ _ => rfl
  unborn := fun _ _ => rfl

/-- Threads on an object of others take their steps. -/
theorem Apart.run {q : ℕ} (hlt : q < g.next) (hq : ¬ p.own (g.obj q)) (pcs : List P) :
    Apart p g ts g (Function.update ts q pcs) :=
  { (Apart.refl : Apart p g ts g ts) with
    threads := fun r _ hown => Function.update_of_ne (by rintro rfl; exact hq hown) _ _
    unborn := fun r hr => Function.update_of_ne (by omega) _ _ }

/-- An entry that is not of the part leads to an object that is not. -/
theorem Apart.keyed (ha : Apart p g ts g' ts') (hkeyed : ∀ k q, g.ref? k = some q → k ∉ p.keys → ¬ p.own (g.obj q))
    {q : ℕ} (hq : g'.ref? k = some q) (hk : k ∉ p.keys) : ¬ p.own (g'.obj q) := by
  intro hown
  obtain ⟨hlt, hown'⟩ := ha.own q (Registry.ref?_lt hq) hown
  rcases ha.refs k q hq with h | h
  · exact hkeyed k q h hk hown'
  · omega

theorem Mirrors.apart (hm : Mirrors p ρ g ts h us) (ha : Apart p g ts g' ts') : Mirrors p ρ g' ts' h us where
  inj := hm.inj
  lt := fun a hlt => lt_of_lt_of_le (hm.lt a hlt) ha.le
  ref := fun k hk => (ha.ref k hk).trans (hm.ref k hk)
  obj := fun a hlt => (ha.obj _ (hm.lt a hlt) (hm.own hlt)).trans (hm.obj a hlt)
  good := hm.good
  keyed := fun _ _ hq hk => ha.keyed hm.keyed hq hk
  surj := by
    intro q hq hown
    obtain ⟨hlt, hown'⟩ := ha.own q hq hown
    exact hm.surj q hlt hown'
  threads := fun a hlt => (ha.threads _ (hm.lt a hlt) (hm.own hlt)).trans (hm.threads a hlt)
  goodPc := hm.goodPc
  unborn := fun q hq => (ha.unborn q hq).trans (hm.unborn q (ha.le.trans hq))
  unborn' := hm.unborn'

/-! ## What an owner does -/

/-- No key and no object belongs to both parts. -/
structure Part.Disjoint (p p' : Part K α P) : Prop where
  keys : ∀ k ∈ p.keys, k ∉ p'.keys
  own : ∀ {x}, p.own x → ¬ p'.own x

/-- The owner of `p` takes `g` with `ts` to `g'` with `ts'` and, in the mirror, `h` with `us` to `h'` with `us'`,
and leaves alone what belongs to others. -/
structure Moves (p : Part K α P) (ρ : ℕ → ℕ) (g : Registry K α) (ts : ℕ → List P) (h : Registry K α)
    (us : ℕ → List P) (ρ' : ℕ → ℕ) (g' : Registry K α) (ts' : ℕ → List P) (h' : Registry K α)
    (us' : ℕ → List P) : Prop where
  mirrors : Mirrors p ρ' g' ts' h' us'
  agree : Extends h.next ρ ρ'
  le : h.next ≤ h'.next
  apart : ∀ p', p.Disjoint p' → Apart p' g ts g' ts'

variable {ρ' ρ'' : ℕ → ℕ} {h' h'' : Registry K α} {us' us'' : ℕ → List P}

theorem Mirrors.moves_refl (hm : Mirrors p ρ g ts h us) : Moves p ρ g ts h us ρ g ts h us :=
  ⟨hm, fun _ _ => rfl, le_rfl, fun _ _ => .refl⟩

theorem Moves.trans (h₁ : Moves p ρ g ts h us ρ' g' ts' h' us')
    (h₂ : Moves p ρ' g' ts' h' us' ρ'' g'' ts'' h'' us'') : Moves p ρ g ts h us ρ'' g'' ts'' h'' us'' where
  mirrors := h₂.mirrors
  agree := fun a ha => (h₂.agree a (lt_of_lt_of_le ha h₁.le)).trans (h₁.agree a ha)
  le := h₁.le.trans h₂.le
  apart := fun p' hp' => (h₁.apart p' hp').trans (h₂.apart p' hp')

theorem Mirrors.moves_modify (hm : Mirrors p ρ g ts h us) (ha : a < h.next) (hf : p.good (f (h.obj a))) :
    Moves p ρ g ts h us ρ (g.modify (ρ a) f) ts (h.modify a f) us where
  mirrors := hm.modify ha hf
  agree := fun _ _ => rfl
  le := le_rfl
  apart := fun p' hp' => .modify (hp'.own (hm.own ha)) (hp'.own (p.good_own (by rwa [hm.obj a ha])))

theorem Mirrors.moves_erase (hm : Mirrors p ρ g ts h us) (hk : k ∈ p.keys) :
    Moves p ρ g ts h us ρ (g.erase k) ts (h.erase k) us where
  mirrors := hm.erase k
  agree := fun _ _ => rfl
  le := le_rfl
  apart := fun _ hp' => .erase (hp'.keys k hk)

theorem Mirrors.moves_create (hm : Mirrors p ρ g ts h us) (hk : k ∈ p.keys) (hx : p.good x) :
    Moves p ρ g ts h us (Function.update ρ h.next g.next) (g.create k x) ts (h.create k x) us where
  mirrors := hm.create hk hx
  agree := fun _ ha => Function.update_of_ne (by omega) _ _
  le := by rw [Registry.next_create]; omega
  apart := fun _ hp' => .create (hp'.keys k hk) (hp'.own (p.good_own hx))

theorem Mirrors.moves_ensure (hm : Mirrors p ρ g ts h us) (hk : k ∈ p.keys) (hx : p.good x) :
    ∃ ρ', Moves p ρ g ts h us ρ' (g.ensure k x) ts (h.ensure k x) us := by
  have hsome : (g.ref? k).isSome = (h.ref? k).isSome := by rw [hm.ref k hk, Option.isSome_map]
  unfold Registry.ensure
  rw [hsome]
  split_ifs
  · exact ⟨ρ, hm.moves_refl⟩
  · exact ⟨_, hm.moves_create hk hx⟩

theorem Mirrors.moves_run (hm : Mirrors p ρ g ts h us) (ha : a < h.next) {pcs : List P}
    (hpcs : ∀ pc ∈ pcs, p.goodPc h.next pc) :
    Moves p ρ g ts h us ρ g (Function.update ts (ρ a) (pcs.map (p.rename ρ))) h (Function.update us a pcs) where
  mirrors := hm.run ha hpcs
  agree := fun _ _ => rfl
  le := le_rfl
  apart := fun _ hp' => .run (hm.lt a ha) (hp'.own (hm.own ha)) _

end Wssocks.Lib

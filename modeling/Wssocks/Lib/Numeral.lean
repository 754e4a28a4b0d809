import Mathlib.Data.Nat.Digits.Lemmas

/-!
# Numbers written as text

A number is printed as its digits in some base, most significant first and without leading zeros, and
read back by a scanner that stops at the first byte that is no digit.

* `numeral b n`: the text of `n` in base `b`.
* `scan val b lim s`: the number at the front of `s` and what follows it, if it has a digit and stays
  under `lim`.
* `bigEndian s`: the number whose big-endian bytes are `s`, with `compareBytes`, the order of byte strings.

`scan_numeral`: scanning a printed number gives the number and what followed it.
`compareBytes_le_iff`: byte strings of one length are ordered as the numbers they are the bytes of.
-/

namespace Wssocks.Lib

/-! ## Printing -/

/-- The byte of a digit: `0` to `9`, then `a` to `f`. -/
def digitByte (d : ℕ) : UInt8 := UInt8.ofNat (if d < 10 then 48 + d else 87 + d)

/-- The digits of `n`, most significant first; a single `0` for zero. -/
def figures (b n : ℕ) : List ℕ := if n = 0 then [0] else (Nat.digits b n).reverse

/-- The text of `n` in base `b`. -/
def numeral (b n : ℕ) : List UInt8 := (figures b n).map digitByte

theorem figures_ne_nil (b n : ℕ) : figures b n ≠ [] := by
  unfold figures
  split_ifs with h
  · simp
  · simpa [Nat.digits_eq_nil_iff_eq_zero] using h

theorem figures_lt {b n d : ℕ} (hb : 1 < b) (hd : d ∈ figures b n) : d < b := by
  unfold figures at hd
  split_ifs at hd
  · have : d = 0 := by simpa using hd
    omega
  · exact Nat.digits_lt_base hb (by simpa using hd)

theorem foldl_figures (b n : ℕ) : (figures b n).foldl (fun v d => b * v + d) 0 = n := by
  unfold figures
  split_ifs with h
  · simp [h]
  · rw [List.foldl_reverse]
    calc (Nat.digits b n).foldr (fun d v => b * v + d) 0
        = Nat.ofDigits b (Nat.digits b n) := by
          rw [Nat.ofDigits_eq_foldr]
          congr 1
          funext d v
          simp [add_comm]
      _ = n := Nat.ofDigits_digits b n

theorem exists_digit_of_mem {b n : ℕ} {c : UInt8} (hb : 1 < b) (hc : c ∈ numeral b n) :
    ∃ d < b, c = digitByte d := by
  obtain ⟨d, hd, rfl⟩ := List.mem_map.mp hc
  exact ⟨d, figures_lt hb hd, rfl⟩

/-- A printed number starts with a digit. -/
theorem exists_numeral_cons {b : ℕ} (hb : 1 < b) (n : ℕ) :
    ∃ d < b, ∃ s, numeral b n = digitByte d :: s := by
  unfold numeral
  cases h : figures b n with
  | nil => exact absurd h (figures_ne_nil b n)
  | cons d ds => exact ⟨d, figures_lt (n := n) hb (by rw [h]; simp), ds.map digitByte, rfl⟩

/-! ## Reading -/

section Scan

variable (val : UInt8 → Option ℕ) (b lim : ℕ)

/-- Read digits as long as there are any, from the value `v` read so far. -/
def scanFrom : ℕ → List UInt8 → Option (ℕ × List UInt8)
  | v, [] => some (v, [])
  | v, c :: s =>
    match val c with
    | none => some (v, c :: s)
    | some d => if lim ≤ b * v + d then none else scanFrom (b * v + d) s

/-- Read a number of at least one digit. -/
def scan : List UInt8 → Option (ℕ × List UInt8)
  | [] => none
  | c :: s => if (val c).isSome then scanFrom val b lim 0 (c :: s) else none

variable {val b lim}

theorem le_foldl (hb : 0 < b) (v : ℕ) (ds : List ℕ) : v ≤ ds.foldl (fun v d => b * v + d) v := by
  induction ds generalizing v with
  | nil => exact le_rfl
  | cons d ds ih =>
    calc v ≤ b * v := Nat.le_mul_of_pos_left v hb
      _ ≤ b * v + d := Nat.le_add_right _ _
      _ ≤ _ := ih _

/-- The scanner reads all digits and stops where they stop. -/
theorem scanFrom_digits {ds : List ℕ} {v : ℕ} {rest : List UInt8} (hb : 0 < b)
    (hval : ∀ d ∈ ds, val (digitByte d) = some d)
    (hlim : ds.foldl (fun v d => b * v + d) v < lim)
    (hrest : ∀ c ∈ rest.head?, val c = none) :
    scanFrom val b lim v (ds.map digitByte ++ rest) =
      some (ds.foldl (fun v d => b * v + d) v, rest) := by
  induction ds generalizing v with
  | nil =>
    cases rest with
    | nil => rfl
    | cons c s =>
      have hc : val c = none := hrest c rfl
      simp [scanFrom, hc]
  | cons d ds ih =>
    have hd : val (digitByte d) = some d := hval d (by simp)
    have hlt : b * v + d < lim := lt_of_le_of_lt (le_foldl hb _ ds) hlim
    simp only [List.map_cons, List.cons_append, scanFrom, hd, if_neg (not_le.mpr hlt)]
    exact ih (fun e he => hval e (by simp [he])) hlim

theorem scan_numeral {n : ℕ} {rest : List UInt8} (hb : 1 < b)
    (hval : ∀ d < b, val (digitByte d) = some d) (hlim : n < lim)
    (hrest : ∀ c ∈ rest.head?, val c = none) :
    scan val b lim (numeral b n ++ rest) = some (n, rest) := by
  have hscan : scanFrom val b lim 0 (numeral b n ++ rest) = some (n, rest) := by
    rw [numeral, scanFrom_digits (by omega) (fun d hd => hval d (figures_lt hb hd))
      (by rwa [foldl_figures]) hrest, foldl_figures]
  obtain ⟨d, hd, s, hs⟩ := exists_numeral_cons hb n
  rw [hs, List.cons_append] at hscan ⊢
  rw [scan, hval d hd, if_pos (by rfl), hscan]

theorem scan_cons_eq_none {c : UInt8} {s : List UInt8} (h : val c = none) :
    scan val b lim (c :: s) = none := by
  simp [scan, h]

end Scan

/-! ## Bytes as digits -/

/-- The number whose bytes, most significant first, are `s`. -/
def bigEndian (s : List UInt8) : ℕ := s.foldl (fun v c => 256 * v + c.toNat) 0

/-- The order of byte strings: the first difference decides, a proper beginning comes first. -/
def compareBytes : List UInt8 → List UInt8 → Ordering
  | [], [] => .eq
  | [], _ :: _ => .lt
  | _ :: _, [] => .gt
  | a :: s, c :: t => if a < c then .lt else if c < a then .gt else compareBytes s t

theorem compareBytes_append_left (p s t : List UInt8) :
    compareBytes (p ++ s) (p ++ t) = compareBytes s t := by
  induction p with
  | nil => rfl
  | cons c p ih =>
    have hc : ¬ c < c := UInt8.lt_irrefl c
    rw [List.cons_append, List.cons_append, compareBytes, if_neg hc, if_neg hc, ih]

theorem foldl_bytes (v : ℕ) (s : List UInt8) :
    s.foldl (fun v c => 256 * v + c.toNat) v = 256 ^ s.length * v + bigEndian s := by
  unfold bigEndian
  induction s generalizing v with
  | nil => simp
  | cons c s ih =>
    rw [List.foldl_cons, List.foldl_cons, ih (256 * v + c.toNat), ih (256 * 0 + c.toNat),
      List.length_cons]
    ring

theorem bigEndian_cons (c : UInt8) (s : List UInt8) :
    bigEndian (c :: s) = 256 ^ s.length * c.toNat + bigEndian s := by
  rw [bigEndian, List.foldl_cons, foldl_bytes]
  simp

theorem bigEndian_lt (s : List UInt8) : bigEndian s < 256 ^ s.length := by
  induction s with
  | nil => simp [bigEndian]
  | cons c s ih =>
    have hc : c.toNat ≤ 255 := Nat.le_of_lt_succ c.toNat_lt
    rw [bigEndian_cons, List.length_cons, pow_succ]
    calc 256 ^ s.length * c.toNat + bigEndian s
        < 256 ^ s.length * c.toNat + 256 ^ s.length := Nat.add_lt_add_left ih _
      _ = 256 ^ s.length * (c.toNat + 1) := by ring
      _ ≤ 256 ^ s.length * 256 := Nat.mul_le_mul_left _ (by omega)

/-- Strings of one length are ordered as the numbers they denote. -/
theorem compareBytes_eq_compare {s t : List UInt8} (h : s.length = t.length) :
    compareBytes s t = compare (bigEndian s) (bigEndian t) := by
  induction s generalizing t with
  | nil =>
    cases t with
    | nil => rfl
    | cons c t => simp at h
  | cons a s ih =>
    cases t with
    | nil => simp at h
    | cons c t =>
      have hlen : s.length = t.length := by simpa using h
      have hs := bigEndian_lt s
      have ht := bigEndian_lt t
      rw [compareBytes, bigEndian_cons, bigEndian_cons, hlen]
      rw [hlen] at hs
      -- a smaller first byte outweighs all that follows
      have hstep : ∀ {x y : UInt8} {u w : ℕ}, x < y → u < 256 ^ t.length →
          256 ^ t.length * x.toNat + u < 256 ^ t.length * y.toNat + w := by
        intro x y u w hxy hu
        have hxy' : x.toNat + 1 ≤ y.toNat := UInt8.lt_iff_toNat_lt.mp hxy
        calc 256 ^ t.length * x.toNat + u
            < 256 ^ t.length * (x.toNat + 1) := by rw [mul_add, mul_one]; omega
          _ ≤ 256 ^ t.length * y.toNat := Nat.mul_le_mul_left _ hxy'
          _ ≤ _ := Nat.le_add_right _ _
      split_ifs with hac hca
      · exact (compare_lt_iff_lt.mpr (hstep hac hs)).symm
      · exact (compare_gt_iff_gt.mpr (hstep hca ht)).symm
      · have : a = c := UInt8.le_antisymm (UInt8.not_lt.mp hca) (UInt8.not_lt.mp hac)
        subst this
        rw [ih hlen]
        rcases lt_trichotomy (bigEndian s) (bigEndian t) with hlt | heq | hgt
        · rw [compare_lt_iff_lt.mpr hlt, compare_lt_iff_lt.mpr (by omega)]
        · rw [heq]
          simp
        · rw [compare_gt_iff_gt.mpr hgt, compare_gt_iff_gt.mpr (by omega)]

theorem compareBytes_le_iff {s t : List UInt8} (h : s.length = t.length) :
    (compareBytes s t).isLE ↔ bigEndian s ≤ bigEndian t := by
  rw [compareBytes_eq_compare h, Nat.isLE_compare]

theorem compareBytes_ge_iff {s t : List UInt8} (h : s.length = t.length) :
    (compareBytes s t).isGE ↔ bigEndian t ≤ bigEndian s := by
  rw [compareBytes_eq_compare h, Nat.isGE_compare]

end Wssocks.Lib

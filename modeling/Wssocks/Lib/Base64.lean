import Mathlib.Data.List.Basic

/-!
# Base64

Standard Base64 with padding, as `base64.StdEncoding` of Go writes and reads it: line
breaks are ignored wherever they are, and the bits of the last character that belong to
no byte may be anything.

`base64Decode_encode`: what is written is read back.
`length_base64Encode`: four bytes for every three.
-/

namespace Wssocks.Lib

/-- The byte of a digit. -/
def base64Digit (d : ℕ) : UInt8 :=
  UInt8.ofNat (if d < 26 then 65 + d else if d < 52 then 71 + d else if d < 62 then d - 4 else if d = 62 then 43 else 47)

/-- The digit of a byte. -/
def base64Val? (c : UInt8) : Option ℕ :=
  if 65 ≤ c ∧ c ≤ 90 then some (c.toNat - 65)
  else if 97 ≤ c ∧ c ≤ 122 then some (c.toNat - 71)
  else if 48 ≤ c ∧ c ≤ 57 then some (c.toNat + 4)
  else if c = 43 then some 62
  else if c = 47 then some 63
  else none

/-- Three bytes make four digits; the last group is filled up with `=`. -/
def base64Encode : List UInt8 → List UInt8
  | [] => []
  | [a] => [base64Digit (a.toNat / 4), base64Digit (a.toNat % 4 * 16), 0x3D, 0x3D]
  | [a, b] =>
    [base64Digit (a.toNat / 4), base64Digit (a.toNat % 4 * 16 + b.toNat / 16), base64Digit (b.toNat % 16 * 4), 0x3D]
  | a :: b :: c :: s =>
    base64Digit (a.toNat / 4) :: base64Digit (a.toNat % 4 * 16 + b.toNat / 16) ::
      base64Digit (b.toNat % 16 * 4 + c.toNat / 64) :: base64Digit (c.toNat % 64) :: base64Encode s

/-- The bytes of groups of four digits. -/
def base64Groups : List UInt8 → Option (List UInt8)
  | [] => some []
  | a :: b :: c :: d :: s => do
    let a ← base64Val? a
    let b ← base64Val? b
    if c = 0x3D then
      if d = 0x3D ∧ s = [] then some [UInt8.ofNat (a * 4 + b / 16)] else none
    else
      let c ← base64Val? c
      if d = 0x3D then
        if s = [] then some [UInt8.ofNat (a * 4 + b / 16), UInt8.ofNat (b % 16 * 16 + c / 4)] else none
      else
        let d ← base64Val? d
        let rest ← base64Groups s
        some (UInt8.ofNat (a * 4 + b / 16) :: UInt8.ofNat (b % 16 * 16 + c / 4) :: UInt8.ofNat (c % 4 * 64 + d) :: rest)
  | _ => none

/-- The bytes of a text, or `none` if it is no Base64. -/
def base64Decode (s : List UInt8) : Option (List UInt8) :=
  base64Groups (s.filter fun c => c ≠ 0x0A ∧ c ≠ 0x0D)

section RoundTrip

theorem base64Val?_digit : ∀ d < 64, base64Val? (base64Digit d) = some d := by decide

theorem base64Digit_ne_pad : ∀ d < 64, base64Digit d ≠ 0x3D := by decide

/-- A byte that is put together again. -/
theorem ofNat_eq_of_toNat {a : UInt8} {n : ℕ} (h : n = a.toNat) : UInt8.ofNat n = a := by
  rw [h, UInt8.ofNat_toNat]

theorem base64Groups_encode (s : List UInt8) : base64Groups (base64Encode s) = some s := by
  fun_induction base64Encode s with
  | case1 => rfl
  | case2 a =>
    have ha := a.toNat_lt
    simp only [base64Groups, base64Val?_digit _ (by omega : a.toNat / 4 < 64),
      base64Val?_digit _ (by omega : a.toNat % 4 * 16 < 64), Option.bind_eq_bind, Option.bind_some, and_self, if_true]
    rw [ofNat_eq_of_toNat (a := a) (by omega)]
  | case3 a b =>
    have ha := a.toNat_lt
    have hb := b.toNat_lt
    simp only [base64Groups, base64Val?_digit _ (by omega : a.toNat / 4 < 64),
      base64Val?_digit _ (by omega : a.toNat % 4 * 16 + b.toNat / 16 < 64),
      base64Val?_digit _ (by omega : b.toNat % 16 * 4 < 64), base64Digit_ne_pad _ (by omega : b.toNat % 16 * 4 < 64),
      Option.bind_eq_bind, Option.bind_some, if_true, if_false]
    rw [ofNat_eq_of_toNat (a := a) (by omega), ofNat_eq_of_toNat (a := b) (by omega)]
  | case4 a b c s ih =>
    have ha := a.toNat_lt
    have hb := b.toNat_lt
    have hc := c.toNat_lt
    simp only [base64Groups, base64Val?_digit _ (by omega : a.toNat / 4 < 64),
      base64Val?_digit _ (by omega : a.toNat % 4 * 16 + b.toNat / 16 < 64),
      base64Val?_digit _ (by omega : b.toNat % 16 * 4 + c.toNat / 64 < 64),
      base64Val?_digit _ (by omega : c.toNat % 64 < 64),
      base64Digit_ne_pad _ (by omega : b.toNat % 16 * 4 + c.toNat / 64 < 64),
      base64Digit_ne_pad _ (by omega : c.toNat % 64 < 64), ih, Option.bind_eq_bind, Option.bind_some, if_false]
    rw [ofNat_eq_of_toNat (a := a) (by omega), ofNat_eq_of_toNat (a := b) (by omega),
      ofNat_eq_of_toNat (a := c) (by omega)]

/-- What holds of all digits and of `=` holds of a text that is written. -/
theorem forall_mem_base64Encode {p : UInt8 → Prop} (hdigit : ∀ d < 64, p (base64Digit d)) (hpad : p 0x3D)
    (s : List UInt8) : ∀ c ∈ base64Encode s, p c := by
  intro x hx
  fun_induction base64Encode s with
  | case1 => cases hx
  | case2 a =>
    have ha := a.toNat_lt
    simp only [List.mem_cons, List.not_mem_nil, or_false] at hx
    rcases hx with rfl | rfl | rfl | rfl
    · exact hdigit _ (by omega)
    · exact hdigit _ (by omega)
    · exact hpad
    · exact hpad
  | case3 a b =>
    have ha := a.toNat_lt
    have hb := b.toNat_lt
    simp only [List.mem_cons, List.not_mem_nil, or_false] at hx
    rcases hx with rfl | rfl | rfl | rfl
    · exact hdigit _ (by omega)
    · exact hdigit _ (by omega)
    · exact hdigit _ (by omega)
    · exact hpad
  | case4 a b c s ih =>
    have ha := a.toNat_lt
    have hb := b.toNat_lt
    have hc := c.toNat_lt
    simp only [List.mem_cons] at hx
    rcases hx with rfl | rfl | rfl | rfl | hx
    · exact hdigit _ (by omega)
    · exact hdigit _ (by omega)
    · exact hdigit _ (by omega)
    · exact hdigit _ (by omega)
    · exact ih hx

theorem base64Encode_lt (s : List UInt8) : ∀ c ∈ base64Encode s, c.toNat < 128 :=
  forall_mem_base64Encode (by decide) (by decide) s

/-- A text that is written has no line breaks. -/
theorem base64Encode_filter (s : List UInt8) :
    (base64Encode s).filter (fun c => c ≠ 0x0A ∧ c ≠ 0x0D) = base64Encode s :=
  List.filter_eq_self.mpr (forall_mem_base64Encode (by decide) (by decide) s)

theorem base64Decode_encode (s : List UInt8) : base64Decode (base64Encode s) = some s := by
  rw [base64Decode, base64Encode_filter, base64Groups_encode]

theorem length_base64Encode (s : List UInt8) : (base64Encode s).length = 4 * ((s.length + 2) / 3) := by
  fun_induction base64Encode s with
  | case1 => rfl
  | case2 a => simp
  | case3 a b => simp
  | case4 a b c s ih =>
    simp only [List.length_cons, ih]
    omega

end RoundTrip

end Wssocks.Lib

import Mathlib.Data.List.Basic

/-!
# Byte strings as texts

A byte string is read one character at a time. A byte at which no character begins is
taken for itself, as U+FFFD, and reading goes on behind it. Programs in Go read strings
this way.

* `runes s`: the characters of `s`, with `none` for each byte that belongs to none.
* `clean s`: `s` with U+FFFD in the place of these bytes.

`runes_utf8`: a text that is written in UTF-8 is read back.
`clean_eq_self_iff`: cleaning changes exactly the byte strings that are not UTF-8.
-/

namespace Wssocks.Lib

/-- The characters in UTF-8. -/
def utf8 (cs : List Char) : List UInt8 := cs.flatMap String.utf8EncodeChar

/-- The bytes of a string literal. -/
def text (s : String) : List UInt8 := utf8 s.toList

/-- The character at the front of a byte string and what follows it. -/
def decodeRune? (s : List UInt8) : Option (Char × List UInt8) :=
  (s.toByteArray.utf8DecodeChar? 0).map fun c => (c, s.drop c.utf8Size)

variable {c : Char} {b : UInt8} {s rest : List UInt8}

theorem decodeRune?_append (c : Char) (s : List UInt8) :
    decodeRune? (String.utf8EncodeChar c ++ s) = some (c, s) := by
  rw [decodeRune?, List.toByteArray_append, ByteArray.utf8DecodeChar?_utf8EncodeChar_append, Option.map_some,
    ← String.length_utf8EncodeChar, List.drop_left]

theorem eq_of_decodeRune? (h : decodeRune? s = some (c, rest)) : s = String.utf8EncodeChar c ++ rest := by
  obtain ⟨c', hc, heq⟩ := Option.map_eq_some_iff.mp h
  cases heq
  obtain ⟨l, hl⟩ := ByteArray.exists_of_utf8DecodeChar?_eq_some hc
  have hs : s = String.utf8EncodeChar c ++ l.data.toList := by
    simpa [List.toList_data_toByteArray] using congrArg (fun b => b.data.toList) hl
  rw [hs, ← String.length_utf8EncodeChar, List.drop_left]

theorem length_lt_of_decodeRune? (h : decodeRune? s = some (c, rest)) : rest.length < s.length := by
  have hpos := c.utf8Size_pos
  rw [eq_of_decodeRune? h, List.length_append, String.length_utf8EncodeChar]
  omega

/-- The characters of a byte string, with `none` for a byte that belongs to none. -/
def runes : List UInt8 → List (Option Char)
  | [] => []
  | b :: s =>
    match _h : decodeRune? (b :: s) with
    | some (c, rest) => some c :: runes rest
    | none => none :: runes s
termination_by s => s.length
decreasing_by
  · exact length_lt_of_decodeRune? _h
  · exact Nat.lt_succ_self _

theorem runes_nil : runes [] = [] := by rw [runes]

theorem runes_of_decodeRune? (h : decodeRune? s = some (c, rest)) : runes s = some c :: runes rest := by
  cases s with
  | nil => exact absurd (length_lt_of_decodeRune? h) (Nat.not_lt_zero _)
  | cons b s =>
    rw [runes]
    split
    · rename_i h'
      obtain ⟨rfl, rfl⟩ := Prod.mk.inj (Option.some.inj (h'.symm.trans h))
      rfl
    · rename_i h'
      rw [h] at h'
      cases h'

theorem runes_append (c : Char) (s : List UInt8) : runes (String.utf8EncodeChar c ++ s) = some c :: runes s :=
  runes_of_decodeRune? (decodeRune?_append c s)

theorem runes_of_none (h : decodeRune? (b :: s) = none) : runes (b :: s) = none :: runes s := by
  rw [runes]
  split
  · rename_i h'
    rw [h] at h'
    cases h'
  · rfl

/-- Reading a byte string from the front. -/
@[elab_as_elim]
theorem runes_induction {P : List UInt8 → Prop} (nil : P []) (char : ∀ c s, P s → P (String.utf8EncodeChar c ++ s))
    (byte : ∀ b s, decodeRune? (b :: s) = none → P s → P (b :: s)) (s : List UInt8) : P s := by
  induction hn : s.length using Nat.strongRecOn generalizing s with
  | _ n ih =>
    cases s with
    | nil => exact nil
    | cons b s =>
      cases h : decodeRune? (b :: s) with
      | none => exact byte b s h (ih s.length (by rw [← hn]; exact Nat.lt_succ_self _) s rfl)
      | some r =>
        obtain ⟨c, rest⟩ := r
        rw [eq_of_decodeRune? h]
        exact char c rest (ih rest.length (by rw [← hn]; exact length_lt_of_decodeRune? h) rest rfl)

theorem runes_utf8 (cs : List Char) : runes (utf8 cs) = cs.map some := by
  induction cs with
  | nil => exact runes_nil
  | cons c cs ih =>
    show runes (String.utf8EncodeChar c ++ utf8 cs) = _
    rw [runes_append, ih, List.map_cons]

/-- The character that stands for a byte that belongs to none. -/
def replacement : Char := Char.ofNat 0xFFFD

/-- The byte string with U+FFFD in the place of each byte that belongs to no character. -/
def clean (s : List UInt8) : List UInt8 := utf8 ((runes s).map fun r => r.getD replacement)

theorem clean_utf8 (cs : List Char) : clean (utf8 cs) = utf8 cs := by
  rw [clean, runes_utf8, List.map_map]
  exact congrArg utf8 (List.map_id' _)

theorem clean_eq_self_iff : clean s = s ↔ ∃ cs, s = utf8 cs := by
  constructor
  · exact fun h => ⟨_, h.symm⟩
  · rintro ⟨cs, rfl⟩
    exact clean_utf8 cs

theorem utf8EncodeChar_of_lt (hc : c.toNat < 128) : String.utf8EncodeChar c = [UInt8.ofNat c.toNat] :=
  if_pos (Nat.le_of_lt_succ hc)

theorem utf8EncodeChar_byte (hb : b.toNat < 128) : String.utf8EncodeChar (Char.ofNat b.toNat) = [b] := by
  have hvalid : b.toNat.isValidChar := .inl (by omega)
  have hnat : (Char.ofNat b.toNat).toNat = b.toNat := by rw [Char.ofNat, dif_pos hvalid]; rfl
  rw [utf8EncodeChar_of_lt (by omega), hnat, UInt8.ofNat_toNat]

/-- Bytes below 128 are characters. -/
theorem clean_of_lt (h : ∀ b ∈ s, b.toNat < 128) : clean s = s := by
  refine clean_eq_self_iff.mpr ⟨s.map fun b => Char.ofNat b.toNat, ?_⟩
  induction s with
  | nil => rfl
  | cons b s ih =>
    show b :: s = String.utf8EncodeChar (Char.ofNat b.toNat) ++ utf8 (s.map fun b => Char.ofNat b.toNat)
    rw [utf8EncodeChar_byte (h b List.mem_cons_self), ← ih fun c hc => h c (List.mem_cons_of_mem _ hc)]
    rfl

/-- A byte below 128 is in the code of its own character only. -/
theorem eq_singleton_of_mem_utf8EncodeChar (h : b ∈ String.utf8EncodeChar c) (hb : b.toNat < 128) :
    String.utf8EncodeChar c = [b] := by
  have hhigh : ∀ {n : ℕ}, b = UInt8.ofNat n → 128 ≤ n → n < 256 → False := by
    rintro n rfl hlo hhi
    rw [UInt8.toNat_ofNat', Nat.mod_eq_of_lt hhi] at hb
    omega
  unfold String.utf8EncodeChar at h ⊢
  dsimp only at h ⊢
  split_ifs at h ⊢
  · rw [List.mem_singleton.mp h]
  all_goals simp only [List.mem_cons, List.not_mem_nil, or_false] at h
  · rcases h with h | h <;> exact (hhigh h (by omega) (by omega)).elim
  · rcases h with h | h | h <;> exact (hhigh h (by omega) (by omega)).elim
  · rcases h with h | h | h | h <;> exact (hhigh h (by omega) (by omega)).elim

/-- A byte below 128 ends the character before it. -/
theorem runes_append_byte (hb : b.toNat < 128) (s t : List UInt8) :
    runes (s ++ b :: t) = runes s ++ some (Char.ofNat b.toNat) :: runes t := by
  induction s using runes_induction with
  | nil =>
    have hone := runes_append (Char.ofNat b.toNat) t
    rw [utf8EncodeChar_byte hb] at hone
    rw [runes_nil]
    exact hone
  | char c s ih => rw [List.append_assoc, runes_append, ih, runes_append, List.cons_append]
  | byte b0 s hnone ih =>
    have hnone' : decodeRune? (b0 :: (s ++ b :: t)) = none := by
      by_contra hsome
      obtain ⟨⟨c, rest⟩, hr⟩ := Option.ne_none_iff_exists'.mp hsome
      rcases List.append_eq_append_iff.mp (eq_of_decodeRune? hr : b0 :: s ++ b :: t = _) with
        ⟨m, hm, hrest⟩ | ⟨m, hm, -⟩
      · cases m with
        | nil =>
          rw [List.append_nil] at hm
          rw [← hm, ← List.append_nil (String.utf8EncodeChar c), decodeRune?_append] at hnone
          cases hnone
        | cons b1 m =>
          -- the character would reach beyond the byte
          obtain rfl : b = b1 := (List.cons.inj hrest).1
          have hsingle := eq_singleton_of_mem_utf8EncodeChar (c := c) (by rw [hm]; simp) hb
          rw [hsingle] at hm
          have hlen := congrArg List.length hm
          simp at hlen
      · rw [hm, decodeRune?_append] at hnone
        cases hnone
    rw [List.cons_append, runes_of_none hnone', ih, runes_of_none hnone, List.cons_append]

theorem clean_append_byte (hb : b.toNat < 128) (s t : List UInt8) : clean (s ++ b :: t) = clean s ++ b :: clean t := by
  rw [clean, runes_append_byte hb, List.map_append, List.map_cons, utf8, List.flatMap_append, List.flatMap_cons,
    Option.getD_some, utf8EncodeChar_byte hb]
  rfl

end Wssocks.Lib

import Mathlib.Data.Int.Basic
import Mathlib.Data.List.TakeWhile
import Wssocks.Lib.Numeral
import Wssocks.Lib.Utf8

/-!
# JSON texts

Reading JSON as `encoding/json` of Go does it, and the texts it writes. Strings are
byte strings: what is not UTF-8 in them is read and written as U+FFFD. `<`, `>`, `&`,
U+2028 and U+2029 are written as escapes. A number stays the text that it was.

* `Json.parse`: the value of a text. `Json.value` and the functions beside it read a
  value from the front of a text; their first argument bounds the number of calls, and
  each call but that of an array or object for its contents has at least one more byte
  behind it. Their second argument is how much deeper arrays and objects may be nested.
* `Reads k t v`: the text `t` is read as `v`, with `k` levels of arrays and objects, whatever
  follows that may follow a value.
* `decodeStruct`, `decodeSlice`: reading a value into a struct or a slice of Go.

`reads_quote`, `reads_int`, `reads_array`, `reads_object`: the texts that are written are
read as the values they are written for, with strings cleaned.
-/

namespace Wssocks.Lib

/-- A JSON value. -/
inductive Json where
  | null
  | bool (b : Bool)
  | num (digits : List UInt8)
  | str (s : List UInt8)
  | arr (xs : List Json)
  | obj (ms : List (List UInt8 × Json))

namespace Json

/-! ## Strings -/

/-- The value of a hexadecimal digit. -/
def hexVal? (c : UInt8) : Option ℕ :=
  if 0x30 ≤ c ∧ c ≤ 0x39 then some (c.toNat - 0x30)
  else if 0x61 ≤ c ∧ c ≤ 0x66 then some (c.toNat - 0x61 + 10)
  else if 0x41 ≤ c ∧ c ≤ 0x46 then some (c.toNat - 0x41 + 10)
  else none

/-- The four digits of a `\u` escape. -/
def hex4? : List UInt8 → Option (ℕ × List UInt8)
  | a :: b :: c :: d :: s => do
    let a ← hexVal? a
    let b ← hexVal? b
    let c ← hexVal? c
    let d ← hexVal? d
    some (((a * 16 + b) * 16 + c) * 16 + d, s)
  | _ => none

/-- The second half of a surrogate pair that begins with `n`: the character, and what follows the pair. -/
def lowSurrogate? (n : ℕ) : List UInt8 → Option (Char × List UInt8)
  | 0x5C :: 0x75 :: s =>
    (hex4? s).bind fun r =>
      if n < 0xDC00 ∧ 0xDC00 ≤ r.1 ∧ r.1 < 0xE000 then
        some (Char.ofNat (0x10000 + (n - 0xD800) * 0x400 + (r.1 - 0xDC00)), r.2)
      else none
  | _ => none

/-- What the escape `\u` with the number `n` stands for, when `s` follows it. A half of a surrogate pair
    without the other half is U+FFFD. -/
def unicode (n : ℕ) (s : List UInt8) : Char × List UInt8 :=
  if 0xD800 ≤ n ∧ n < 0xE000 then (lowSurrogate? n s).getD (replacement, s) else (Char.ofNat n, s)

/-- What the other escapes stand for. -/
def escaped? (c : UInt8) : Option UInt8 :=
  if c = 0x22 ∨ c = 0x5C ∨ c = 0x2F then some c
  else if c = 0x62 then some 0x08
  else if c = 0x66 then some 0x0C
  else if c = 0x6E then some 0x0A
  else if c = 0x72 then some 0x0D
  else if c = 0x74 then some 0x09
  else none

/-- The first character or escape of a string: what it stands for, and what follows it. -/
def unquote : List UInt8 → Option (List UInt8 × List UInt8)
  | [] => none
  | 0x5C :: 0x75 :: s => (hex4? s).map fun r => (String.utf8EncodeChar (unicode r.1 r.2).1, (unicode r.1 r.2).2)
  | 0x5C :: s => s.head?.bind fun c => (escaped? c).map fun b => ([b], s.tail)
  | c :: s =>
    if c < 0x20 then none
    else match decodeRune? (c :: s) with
      | some (r, rest) => some (String.utf8EncodeChar r, rest)
      | none => some (String.utf8EncodeChar replacement, s)

/-- The rest of a string, up to its closing quote. -/
def string : ℕ → List UInt8 → Option (List UInt8 × List UInt8)
  | 0, _ => none
  | n + 1, s =>
    if s.head? = some 0x22 then some ([], s.tail)
    else (unquote s).bind fun r => (string n r.2).map fun r' => (r.1 ++ r'.1, r'.2)

/-- A `\u` escape. -/
def unicodeEscape (n : ℕ) : List UInt8 :=
  [0x5C, 0x75, digitByte (n / 4096 % 16), digitByte (n / 256 % 16), digitByte (n / 16 % 16), digitByte (n % 16)]

/-- How a character of a string is written; `none` is a byte that belongs to no character. -/
def escape : Option Char → List UInt8
  | none => unicodeEscape 0xFFFD
  | some c =>
    if c.toNat = 0x22 ∨ c.toNat = 0x5C then [0x5C, UInt8.ofNat c.toNat]
    else if c.toNat = 0x0A then [0x5C, 0x6E]
    else if c.toNat = 0x0D then [0x5C, 0x72]
    else if c.toNat = 0x09 then [0x5C, 0x74]
    -- control characters, and `<`, `>`, `&`, U+2028, U+2029
    else if c.toNat < 0x20 ∨ c.toNat ∈ [0x3C, 0x3E, 0x26, 0x2028, 0x2029] then unicodeEscape c.toNat
    else String.utf8EncodeChar c

/-- A string as it is written. -/
def quote (s : List UInt8) : List UInt8 := 0x22 :: ((runes s).flatMap escape ++ [0x22])

section Strings

variable {c : Char} {s : List UInt8}

theorem hexVal?_digitByte : ∀ d < 16, hexVal? (digitByte d) = some d := by decide

theorem hex4?_unicodeEscape (n : ℕ) (hn : n < 65536) (s : List UInt8) :
    hex4? ((unicodeEscape n).drop 2 ++ s) = some (n, s) := by
  have hval : ((n / 4096 % 16 * 16 + n / 256 % 16) * 16 + n / 16 % 16) * 16 + n % 16 = n := by omega
  simp only [unicodeEscape, List.drop_succ_cons, List.drop_zero, List.cons_append, List.nil_append, hex4?,
    hexVal?_digitByte _ (Nat.mod_lt _ (by decide : 0 < 16)), Option.bind_eq_bind, Option.bind_some, hval]

theorem unquote_unicodeEscape (n : ℕ) (hn : n < 0xD800 ∨ 0xE000 ≤ n ∧ n < 65536) (s : List UInt8) :
    unquote (unicodeEscape n ++ s) = some (String.utf8EncodeChar (Char.ofNat n), s) := by
  have hhex := hex4?_unicodeEscape n (by omega) s
  have hplain : unicode n s = (Char.ofNat n, s) := if_neg (by omega)
  show (hex4? ((unicodeEscape n).drop 2 ++ s)).map _ = _
  rw [hhex, Option.map_some, hplain]

/-- A first byte below 128 is the character. -/
theorem exists_utf8EncodeChar (c : Char) :
    ∃ b rest, String.utf8EncodeChar c = b :: rest ∧ (b.toNat < 128 → b.toNat = c.toNat) := by
  have hval : c.val.toNat = c.toNat := rfl
  unfold String.utf8EncodeChar
  simp only [hval]
  split_ifs with h1 h2 h3
  · exact ⟨_, _, rfl, fun _ => by rw [UInt8.toNat_ofNat_of_lt' (by show _ < 256; omega)]⟩
  all_goals
    refine ⟨_, _, rfl, fun hlt => ?_⟩
    rw [UInt8.toNat_ofNat_of_lt' (by show _ < 256; omega)] at hlt
    omega

/-- A character that needs no escape. -/
theorem unquote_plain (hc : c.toNat ≠ 0x5C) (hge : 0x20 ≤ c.toNat) (s : List UInt8) :
    unquote (String.utf8EncodeChar c ++ s) = some (String.utf8EncodeChar c, s) := by
  have hdecode := decodeRune?_append c s
  obtain ⟨b, rest, hb, hchar⟩ := exists_utf8EncodeChar c
  rw [hb, List.cons_append] at hdecode ⊢
  have hne : b ≠ 0x5C := by
    rintro rfl
    exact hc (hchar (by decide)).symm
  have hctl : ¬ b < 0x20 := by
    intro hlt
    have hlt' : b.toNat < 0x20 := hlt
    have := hchar (by omega)
    omega
  unfold unquote
  split
  · rename_i h; cases h
  · rename_i h; exact absurd (List.cons.inj h).1 hne
  · rename_i h; exact absurd (List.cons.inj h).1 hne
  · rename_i h
    obtain ⟨rfl, rfl⟩ := List.cons.inj h
    rw [if_neg hctl, hdecode]
    exact congrArg (fun x => some (x, s)) hb

theorem unquote_escape (r : Option Char) (s : List UInt8) :
    unquote (escape r ++ s) = some (String.utf8EncodeChar (r.getD replacement), s) := by
  cases r with
  | none => exact unquote_unicodeEscape 0xFFFD (by decide) s
  | some c =>
    simp only [escape, Option.getD_some]
    split_ifs with h1 h2 h3 h4 h5
    · rw [utf8EncodeChar_of_lt (by omega)]
      rcases h1 with h1 | h1 <;> rw [h1] <;> rfl
    · rw [utf8EncodeChar_of_lt (by omega), h2]
      rfl
    · rw [utf8EncodeChar_of_lt (by omega), h3]
      rfl
    · rw [utf8EncodeChar_of_lt (by omega), h4]
      rfl
    · have hn : c.toNat < 0xD800 := by
        simp only [List.mem_cons, List.not_mem_nil, or_false] at h5
        omega
      rw [unquote_unicodeEscape _ (.inl hn), Char.ofNat_toNat]
    · exact unquote_plain (fun h => h1 (.inr h)) (by omega) s

theorem head?_escape (r : Option Char) (s : List UInt8) : (escape r ++ s).head? ≠ some 0x22 := by
  cases r with
  | none => simp [escape, unicodeEscape]
  | some c =>
    simp only [escape]
    split_ifs with h1
    iterate 5 (· simp [unicodeEscape])
    · obtain ⟨b, rest, hb, hchar⟩ := exists_utf8EncodeChar c
      rw [hb]
      intro h
      obtain rfl : b = 0x22 := Option.some.inj h
      exact h1 (.inl (hchar (by decide)).symm)

/-- What is written for a string is read as the string, cleaned. -/
theorem string_escape {rs : List (Option Char)} {n : ℕ} (hn : rs.length < n) (s : List UInt8) :
    string n (rs.flatMap escape ++ 0x22 :: s) = some (utf8 (rs.map fun r => r.getD replacement), s) := by
  induction rs generalizing n with
  | nil =>
    cases n with
    | zero => cases hn
    | succ n => rfl
  | cons r rs ih =>
    cases n with
    | zero => cases hn
    | succ n =>
      rw [List.flatMap_cons, List.append_assoc, string, if_neg (head?_escape r _), unquote_escape, Option.bind_some,
        ih (Nat.lt_of_succ_lt_succ hn)]
      rfl

theorem length_le_escape (rs : List (Option Char)) : rs.length ≤ (rs.flatMap escape).length := by
  induction rs with
  | nil => exact le_rfl
  | cons r rs ih =>
    have hpos : 1 ≤ (escape r).length := by
      refine List.length_pos_iff.mpr fun hnil => ?_
      have := unquote_escape r []
      rw [hnil] at this
      cases this
    rw [List.flatMap_cons, List.length_append, List.length_cons]
    omega

/-- A character takes six bytes at most, `\u` and four digits, unless it has more than that many anyway. -/
theorem length_escape_le (c : Char) : (escape (some c)).length ≤ 6 * (String.utf8EncodeChar c).length := by
  have hpos := Char.utf8Size_pos c
  rw [String.length_utf8EncodeChar]
  simp only [escape]
  split_ifs
  · exact show 2 ≤ 6 * c.utf8Size by omega
  · exact show 2 ≤ 6 * c.utf8Size by omega
  · exact show 2 ≤ 6 * c.utf8Size by omega
  · exact show 2 ≤ 6 * c.utf8Size by omega
  · exact show 6 ≤ 6 * c.utf8Size by omega
  · rw [String.length_utf8EncodeChar]
    omega

theorem length_quote_le (s : List UInt8) : (quote s).length ≤ 6 * s.length + 2 := by
  have hbody : ((runes s).flatMap escape).length ≤ 6 * s.length := by
    induction s using runes_induction with
    | nil => rw [runes_nil]; exact le_rfl
    | char c s ih =>
      have hc := length_escape_le c
      rw [runes_append, List.flatMap_cons, List.length_append, List.length_append]
      omega
    | byte b s hb ih =>
      have hesc : (escape none).length = 6 := rfl
      rw [runes_of_none hb, List.flatMap_cons, List.length_append, List.length_cons, hesc]
      omega
  rw [quote, List.length_cons, List.length_append, List.length_singleton]
  omega

end Strings

/-! ## Numbers -/

def isDigit (c : UInt8) : Bool := 0x30 ≤ c ∧ c ≤ 0x39

/-- An exponent, if there is one: what it is, and what follows it. -/
def exponent (s : List UInt8) : Option (List UInt8 × List UInt8) :=
  if s.head? = some 0x65 ∨ s.head? = some 0x45 then
    let signed := s.tail.head? = some 0x2B ∨ s.tail.head? = some 0x2D
    let digits := (s.drop (if signed then 2 else 1)).takeWhile isDigit
    if digits = [] then none
    else some (s.take (if signed then 2 else 1) ++ digits, (s.drop (if signed then 2 else 1)).dropWhile isDigit)
  else some ([], s)

/-- A fraction, if there is one. -/
def fraction (s : List UInt8) : Option (List UInt8 × List UInt8) :=
  if s.head? = some 0x2E then
    if s.tail.takeWhile isDigit = [] then none
    else some (0x2E :: s.tail.takeWhile isDigit, s.tail.dropWhile isDigit)
  else some ([], s)

/-- The integer part, without sign: no digit follows a leading zero. -/
def integer (s : List UInt8) : Option (List UInt8 × List UInt8) :=
  if s.head? = some 0x30 then some ([0x30], s.tail)
  else if s.takeWhile isDigit = [] then none
  else some (s.takeWhile isDigit, s.dropWhile isDigit)

def sign (s : List UInt8) : List UInt8 × List UInt8 :=
  if s.head? = some 0x2D then ([0x2D], s.tail) else ([], s)

/-- A number at the front of a text, and what follows it. -/
def number (s : List UInt8) : Option (List UInt8 × List UInt8) := do
  let i ← integer (sign s).2
  let f ← fraction i.2
  let e ← exponent f.2
  some ((sign s).1 ++ i.1 ++ f.1 ++ e.1, e.2)

/-- An integer as it is written. -/
def intText (i : ℤ) : List UInt8 := if i < 0 then 0x2D :: numeral 10 i.natAbs else numeral 10 i.natAbs

/-- What may follow a value: nothing that would continue a number. -/
def Follows (s : List UInt8) : Prop :=
  ∀ c, s.head? = some c → isDigit c = false ∧ c ≠ 0x2E ∧ c ≠ 0x65 ∧ c ≠ 0x45

section Numbers

variable {n : ℕ} {s : List UInt8}

theorem isDigit_digitByte : ∀ d < 10, isDigit (digitByte d) = true := by decide

theorem isDigit_of_mem_numeral {c : UInt8} (hc : c ∈ numeral 10 n) : isDigit c = true := by
  obtain ⟨d, hd, rfl⟩ := exists_digit_of_mem (by decide) hc
  exact isDigit_digitByte d hd

/-- A printed number has no leading zero. -/
theorem head?_numeral (hn : n ≠ 0) : (numeral 10 n).head? ≠ some 0x30 := by
  have hne : Nat.digits 10 n ≠ [] := Nat.digits_ne_nil_iff_ne_zero.mpr hn
  have hlast := Nat.getLast_digit_ne_zero 10 hn
  have hlt : (Nat.digits 10 n).getLast hne < 10 := Nat.digits_lt_base (by decide) (List.getLast_mem hne)
  rw [numeral, figures, if_neg hn, List.head?_map, List.head?_reverse, List.getLast?_eq_getLast_of_ne_nil hne]
  intro h
  have hdigit : ∀ d < 10, digitByte d = 0x30 → d = 0 := by decide
  exact hlast (hdigit _ hlt (Option.some.inj h))

theorem Follows.takeWhile (h : Follows s) : s.takeWhile isDigit = [] := by
  cases s with
  | nil => rfl
  | cons c s => rw [List.takeWhile_cons, (h c rfl).1]; rfl

theorem Follows.dropWhile (h : Follows s) : s.dropWhile isDigit = s := by
  cases s with
  | nil => rfl
  | cons c s => rw [List.dropWhile_cons, (h c rfl).1]; rfl

theorem integer_numeral (hs : Follows s) : integer (numeral 10 n ++ s) = some (numeral 10 n, s) := by
  obtain ⟨d, -, ds, hds⟩ := exists_numeral_cons (b := 10) (by decide) n
  by_cases hn : n = 0
  · subst hn
    rfl
  · have hhead : (numeral 10 n ++ s).head? ≠ some 0x30 := by
      have := head?_numeral hn
      rwa [hds] at this ⊢
    have htake : (numeral 10 n ++ s).takeWhile isDigit = numeral 10 n := by
      rw [List.takeWhile_append_of_pos fun _ => isDigit_of_mem_numeral, hs.takeWhile, List.append_nil]
    have hdrop : (numeral 10 n ++ s).dropWhile isDigit = s := by
      rw [List.dropWhile_append_of_pos fun _ => isDigit_of_mem_numeral, hs.dropWhile]
    have hne : numeral 10 n ≠ [] := by rw [hds]; exact List.cons_ne_nil _ _
    rw [integer, if_neg hhead, htake, hdrop, if_neg hne]

theorem Follows.fraction (h : Follows s) : fraction s = some ([], s) :=
  if_neg fun hc => (h _ hc).2.1 rfl

theorem Follows.exponent (h : Follows s) : exponent s = some ([], s) :=
  if_neg fun hc => hc.elim (fun hc => (h _ hc).2.2.1 rfl) fun hc => (h _ hc).2.2.2 rfl

theorem sign_intText (i : ℤ) (s : List UInt8) :
    sign (intText i ++ s) = (if i < 0 then [0x2D] else [], numeral 10 i.natAbs ++ s) := by
  unfold intText
  split_ifs with hi
  · rfl
  · refine if_neg ?_
    obtain ⟨d, hd, ds, hds⟩ := exists_numeral_cons (b := 10) (by decide) i.natAbs
    rw [hds]
    intro h
    have hdigit : ∀ d < 10, digitByte d ≠ 0x2D := by decide
    exact hdigit d hd (Option.some.inj h)

theorem number_intText (i : ℤ) (hs : Follows s) : number (intText i ++ s) = some (intText i, s) := by
  simp only [number, sign_intText, integer_numeral hs, hs.fraction, hs.exponent, Option.bind_eq_bind, Option.bind_some,
    List.append_nil]
  unfold intText
  split_ifs <;> rfl

end Numbers

/-! ## Values -/

def isSpace (c : UInt8) : Bool := c = 0x20 ∨ c = 0x09 ∨ c = 0x0A ∨ c = 0x0D

/-- The text after the spaces at its front. -/
def skip (s : List UInt8) : List UInt8 := s.dropWhile isSpace

/-- The text after the word `w` at its front. -/
def word? (w s : List UInt8) : Option (List UInt8) := if w.isPrefixOf s then some (s.drop w.length) else none

mutual

/-- The value at the front of a text, and what follows it. -/
def value : ℕ → ℕ → List UInt8 → Option (Json × List UInt8)
  | 0, _, _ => none
  | n + 1, d, s =>
    match skip s with
    | [] => none
    | 0x22 :: s => (string s.length s).map fun r => (str r.1, r.2)
    | 0x5B :: s =>
      if d = 0 then none
      else if (skip s).head? = some 0x5D then some (arr [], (skip s).tail)
      else (elements n (d - 1) s).map fun r => (arr r.1, r.2)
    | 0x7B :: s =>
      if d = 0 then none
      else if (skip s).head? = some 0x7D then some (obj [], (skip s).tail)
      else (members n (d - 1) s).map fun r => (obj r.1, r.2)
    | 0x74 :: s => (word? (text "rue") s).map fun s => (bool true, s)
    | 0x66 :: s => (word? (text "alse") s).map fun s => (bool false, s)
    | 0x6E :: s => (word? (text "ull") s).map fun s => (null, s)
    | c :: s => (number (c :: s)).map fun r => (num r.1, r.2)

/-- The elements of an array, up to its end. -/
def elements : ℕ → ℕ → List UInt8 → Option (List Json × List UInt8)
  | 0, _, _ => none
  | n + 1, d, s =>
    (value n d s).bind fun x =>
      match skip x.2 with
      | 0x5D :: s => some ([x.1], s)
      | 0x2C :: s => (elements n d s).map fun r => (x.1 :: r.1, r.2)
      | _ => none

/-- The members of an object, up to its end. -/
def members : ℕ → ℕ → List UInt8 → Option (List (List UInt8 × Json) × List UInt8)
  | 0, _, _ => none
  | n + 1, d, s =>
    match skip s with
    | 0x22 :: s =>
      (string s.length s).bind fun k =>
        match skip k.2 with
        | 0x3A :: s =>
          (value n d s).bind fun x =>
            match skip x.2 with
            | 0x7D :: s => some ([(k.1, x.1)], s)
            | 0x2C :: s => (members n d s).map fun r => ((k.1, x.1) :: r.1, r.2)
            | _ => none
        | _ => none
    | _ => none

end

/-- How deep arrays and objects may be nested in a text. -/
def maxNestingDepth : ℕ := 10000

/-- The value of a text, which may have spaces around it. -/
def parse (s : List UInt8) : Option Json :=
  (value (s.length + 1) maxNestingDepth s).bind fun r => if skip r.2 = [] then some r.1 else none

/-! ## What is written -/

/-- The elements after the first one, up to the end of the array. -/
def elementsText : List (List UInt8) → List UInt8
  | [] => [0x5D]
  | t :: ts => 0x2C :: (t ++ elementsText ts)

/-- An array with the texts `ts` of its elements. -/
def arrayText : List (List UInt8) → List UInt8
  | [] => [0x5B, 0x5D]
  | t :: ts => 0x5B :: (t ++ elementsText ts)

theorem length_elementsText_le {c : ℕ} {ts : List (List UInt8)} (h : ∀ t ∈ ts, t.length ≤ c) :
    (elementsText ts).length ≤ (c + 1) * ts.length + 1 := by
  induction ts with
  | nil => exact le_rfl
  | cons t ts ih =>
    have ht := h t List.mem_cons_self
    have hts := ih fun x hx => h x (List.mem_cons_of_mem _ hx)
    rw [elementsText, List.length_cons, List.length_append, List.length_cons, Nat.mul_succ]
    omega

theorem length_arrayText_le {c : ℕ} {ts : List (List UInt8)} (h : ∀ t ∈ ts, t.length ≤ c) :
    (arrayText ts).length ≤ (c + 1) * ts.length + 2 := by
  cases ts with
  | nil => exact le_rfl
  | cons t ts =>
    have ht := h t List.mem_cons_self
    have hts := length_elementsText_le fun x hx => h x (List.mem_cons_of_mem t hx)
    rw [arrayText, List.length_cons, List.length_append, List.length_cons, Nat.mul_succ]
    omega

/-- A member of an object. -/
def memberText (m : List UInt8 × List UInt8) : List UInt8 := quote m.1 ++ 0x3A :: m.2

def membersText : List (List UInt8 × List UInt8) → List UInt8
  | [] => [0x7D]
  | m :: ms => 0x2C :: (memberText m ++ membersText ms)

/-- An object with the texts of its members. -/
def objectText : List (List UInt8 × List UInt8) → List UInt8
  | [] => [0x7B, 0x7D]
  | m :: ms => 0x7B :: (memberText m ++ membersText ms)

/-- The text `t` is read as `v`, where arrays and objects are nested `k` deep at most. -/
def Reads (k : ℕ) (t : List UInt8) (v : Json) : Prop :=
  ∀ n d s, t.length ≤ n → k ≤ d → Follows s → value n d (t ++ s) = some (v, s)

section Reads

variable {t s : List UInt8} {v : Json} {n d k : ℕ}

theorem Reads.mono {k' : ℕ} (h : Reads k t v) (hk : k ≤ k') : Reads k' t v :=
  fun n d s hn hd hs => h n d s hn (hk.trans hd) hs

theorem skip_cons {c : UInt8} (h : isSpace c = false) (s : List UInt8) : skip (c :: s) = c :: s := by
  rw [skip, List.dropWhile_cons, h]
  rfl

theorem reads_null : Reads 0 (text "null") null := by
  intro n d s hn _ _
  cases n with
  | zero => cases hn
  | succ n => rfl

theorem string_quote (k s : List UInt8) :
    string ((runes k).flatMap escape ++ 0x22 :: s).length ((runes k).flatMap escape ++ 0x22 :: s) = some (clean k, s) := by
  have hlen := length_le_escape (runes k)
  exact string_escape (by simp only [List.length_append, List.length_cons]; omega) s

theorem quote_append (k s : List UInt8) : quote k ++ s = 0x22 :: ((runes k).flatMap escape ++ 0x22 :: s) := by
  rw [quote, List.cons_append, List.append_assoc]
  rfl

theorem reads_quote (s : List UInt8) : Reads 0 (quote s) (str (clean s)) := by
  intro n d r hn _ _
  cases n with
  | zero => cases hn
  | succ n =>
    rw [quote_append]
    show (string _ _).map _ = _
    rw [string_quote]
    rfl

theorem reads_bool (b : Bool) : Reads 0 (if b then text "true" else text "false") (bool b) := by
  intro n d s hn _ _
  cases n with
  | zero => cases b <;> cases hn
  | succ n => cases b <;> rfl

/-- Where a number begins, a number is read. -/
theorem value_number {c : UInt8} (hc : isDigit c = true ∨ c = 0x2D) (s : List UInt8) :
    value (n + 1) d (c :: s) = (number (c :: s)).map fun r => (num r.1, r.2) := by
  have hne : ∀ e, isDigit e = false ∧ e ≠ 0x2D → c ≠ e := by
    rintro e ⟨h1, h2⟩ rfl
    rcases hc with hc | hc
    · rw [h1] at hc
      cases hc
    · exact h2 hc
  have hspace : isSpace c = false := by
    have h1 := hne 0x20 (by decide)
    have h2 := hne 0x09 (by decide)
    have h3 := hne 0x0A (by decide)
    have h4 := hne 0x0D (by decide)
    simp [isSpace, h1, h2, h3, h4]
  rw [value, skip_cons hspace]
  split
  · rename_i h; cases h
  · rename_i h; exact absurd (List.cons.inj h).1 (hne _ (by decide))
  · rename_i h; exact absurd (List.cons.inj h).1 (hne _ (by decide))
  · rename_i h; exact absurd (List.cons.inj h).1 (hne _ (by decide))
  · rename_i h; exact absurd (List.cons.inj h).1 (hne _ (by decide))
  · rename_i h; exact absurd (List.cons.inj h).1 (hne _ (by decide))
  · rename_i h; exact absurd (List.cons.inj h).1 (hne _ (by decide))
  · rename_i h
    obtain ⟨rfl, rfl⟩ := List.cons.inj h
    rfl

theorem exists_intText (i : ℤ) : ∃ c ds, intText i = c :: ds ∧ (isDigit c = true ∨ c = 0x2D) := by
  unfold intText
  split_ifs
  · exact ⟨_, _, rfl, .inr rfl⟩
  · obtain ⟨d, hd, ds, hds⟩ := exists_numeral_cons (b := 10) (by decide) i.natAbs
    exact ⟨_, _, hds, .inl (isDigit_digitByte d hd)⟩

theorem reads_int (i : ℤ) : Reads 0 (intText i) (num (intText i)) := by
  intro n d s hn _ hs
  obtain ⟨c, ds, htext, hc⟩ := exists_intText i
  have hnum := number_intText i hs
  cases n with
  | zero => rw [htext] at hn; cases hn
  | succ n =>
    rw [htext, List.cons_append] at hnum ⊢
    rw [value_number hc, hnum]
    rfl

/-- No value begins with a closing bracket. -/
theorem value_closing (h : (skip s).head? = some 0x5D) : value n d s = none := by
  cases n with
  | zero => rfl
  | succ n =>
    cases hs : skip s with
    | nil => rw [hs] at h; cases h
    | cons c s' =>
      rw [hs] at h
      obtain rfl := Option.some.inj h
      rw [value, hs]
      rfl

theorem Reads.head?_skip (h : Reads k t v) (hs : Follows s) : (skip (t ++ s)).head? ≠ some 0x5D := by
  intro hc
  have := h t.length k s le_rfl le_rfl hs
  rw [value_closing hc] at this
  cases this

theorem Reads.length_pos (h : Reads k t v) : 0 < t.length := by
  refine Nat.pos_of_ne_zero fun h0 => ?_
  have := h 0 k [] h0.le le_rfl fun c hc => by cases hc
  cases this

theorem follows_cons {c : UInt8} (h : isDigit c = false ∧ c ≠ 0x2E ∧ c ≠ 0x65 ∧ c ≠ 0x45) (s : List UInt8) :
    Follows (c :: s) := by
  intro d hd
  obtain rfl := Option.some.inj hd
  exact h

theorem follows_elementsText (ts : List (List UInt8)) (s : List UInt8) : Follows (elementsText ts ++ s) := by
  cases ts with
  | nil => exact follows_cons (by decide) _
  | cons => exact follows_cons (by decide) _

theorem follows_membersText (ms : List (List UInt8 × List UInt8)) (s : List UInt8) : Follows (membersText ms ++ s) := by
  cases ms with
  | nil => exact follows_cons (by decide) _
  | cons => exact follows_cons (by decide) _

theorem elements_elementsText {ts : List (List UInt8)} {vs : List Json} (h : Reads k t v)
    (hts : List.Forall₂ (Reads k) ts vs) (hn : (t ++ elementsText ts).length ≤ n) (hd : k ≤ d) (s : List UInt8) :
    elements n d (t ++ (elementsText ts ++ s)) = some (v :: vs, s) := by
  induction hts generalizing t v n with
  | nil =>
    cases n with
    | zero => simp [elementsText] at hn
    | succ n =>
      simp only [elementsText, List.length_append, List.length_singleton] at hn
      rw [elements, h n d _ (by omega) hd (follows_elementsText [] s), Option.bind_some]
      rfl
  | @cons t' v' ts vs h' _ ih =>
    cases n with
    | zero => simp [elementsText] at hn
    | succ n =>
      have hpos := h.length_pos
      simp only [elementsText, List.length_append, List.length_cons] at hn
      rw [elements, h n d _ (by omega) hd (follows_elementsText _ s), Option.bind_some]
      show (elements n d (t' ++ elementsText ts ++ s)).map _ = _
      rw [List.append_assoc, ih h' (by rw [List.length_append]; omega)]
      rfl

/-- Arrays. -/
theorem reads_array {ts : List (List UInt8)} (vs : List Json) (h : List.Forall₂ (Reads k) ts vs) :
    Reads (k + 1) (arrayText ts) (arr vs) := by
  intro n d s hn hd hs
  have hd0 : d ≠ 0 := by omega
  cases n with
  | zero => cases ts <;> cases hn
  | succ n =>
    cases h with
    | nil => exact if_neg hd0
    | @cons t v ts vs hv hvs =>
      have hlen : (t ++ elementsText ts).length ≤ n := Nat.le_of_succ_le_succ hn
      rw [arrayText, List.cons_append, List.append_assoc, value, skip_cons (by decide)]
      refine (if_neg hd0).trans ((if_neg (hv.head?_skip (follows_elementsText ts s))).trans ?_)
      rw [elements_elementsText hv hvs hlen (Nat.le_sub_one_of_lt hd)]
      rfl

theorem skip_quote (k s : List UInt8) : skip (quote k ++ s) = quote k ++ s := skip_cons (by decide) _

/-- One member, and what follows it. -/
theorem members_memberText {m : List UInt8 × List UInt8} (h : Reads k m.2 v) (hn : m.2.length ≤ n) (hd : k ≤ d)
    (hs : Follows s) :
    members (n + 1) d (memberText m ++ s) =
      match skip s with
      | 0x7D :: s => some ([(clean m.1, v)], s)
      | 0x2C :: s => (members n d s).map fun r => ((clean m.1, v) :: r.1, r.2)
      | _ => none := by
  rw [memberText, List.append_assoc, quote_append, members, skip_cons (by decide)]
  show (string _ _).bind _ = _
  rw [string_quote, Option.bind_some]
  show (value n d (m.2 ++ s)).bind _ = _
  rw [h n d s hn hd hs, Option.bind_some]

theorem members_membersText {m : List UInt8 × List UInt8} {ms : List (List UInt8 × List UInt8)} {vs : List Json}
    (h : Reads k m.2 v) (hms : List.Forall₂ (fun m v => Reads k m.2 v) ms vs)
    (hn : (memberText m ++ membersText ms).length ≤ n) (hd : k ≤ d) (s : List UInt8) :
    members n d (memberText m ++ (membersText ms ++ s)) =
      some (List.zip ((m :: ms).map fun m => clean m.1) (v :: vs), s) := by
  induction hms generalizing m v n with
  | nil =>
    cases n with
    | zero => simp [membersText] at hn
    | succ n =>
      simp only [memberText, membersText, List.length_append, List.length_cons, List.length_nil] at hn
      rw [members_memberText (n := n) h (by omega) hd (follows_membersText [] s)]
      rfl
  | @cons m' v' ms vs h' _ ih =>
    cases n with
    | zero => simp [membersText] at hn
    | succ n =>
      have hlen : m.2.length + (memberText m' ++ membersText ms).length < n + 1 := by
        simp only [memberText, membersText, List.length_append, List.length_cons] at hn ⊢
        omega
      rw [members_memberText (n := n) h (by omega) hd (follows_membersText _ s)]
      show (members n d (memberText m' ++ membersText ms ++ s)).map _ = _
      rw [List.append_assoc, ih h' (by omega)]
      rfl

/-- Objects. -/
theorem reads_object (ms : List (List UInt8 × List UInt8)) {vs : List Json}
    (h : List.Forall₂ (fun m v => Reads k m.2 v) ms vs) :
    Reads (k + 1) (objectText ms) (obj (List.zip (ms.map fun m => clean m.1) vs)) := by
  intro n d s hn hd hs
  have hd0 : d ≠ 0 := by omega
  cases n with
  | zero => cases ms <;> cases hn
  | succ n =>
    cases h with
    | nil => exact if_neg hd0
    | @cons m v ms vs hv hvs =>
      have hlen : (memberText m ++ membersText ms).length ≤ n := Nat.le_of_succ_le_succ hn
      have hskip : (skip (memberText m ++ (membersText ms ++ s))).head? ≠ some 0x7D := by
        rw [memberText, List.append_assoc, skip_quote, quote_append]
        simp
      rw [objectText, List.cons_append, List.append_assoc, value, skip_cons (by decide)]
      refine (if_neg hd0).trans ((if_neg hskip).trans ?_)
      rw [members_membersText hv hvs hlen (Nat.le_sub_one_of_lt hd)]
      rfl

/-- A text that is written, with spaces behind it, is read. -/
theorem Reads.parse (h : Reads k t v) (hk : k ≤ maxNestingDepth) (hs : skip s = []) : parse (t ++ s) = some v := by
  have hfollow : Follows s := by
    cases s with
    | nil => exact fun c hc => by cases hc
    | cons c s =>
      refine follows_cons ?_ s
      have hspace : isSpace c = true := by
        by_contra hc
        rw [skip_cons (Bool.eq_false_of_not_eq_true hc)] at hs
        cases hs
      simp only [isSpace, decide_eq_true_eq] at hspace
      rcases hspace with rfl | rfl | rfl | rfl <;> decide
  rw [Json.parse, h _ _ s (by rw [List.length_append]; omega) hk hfollow, Option.bind_some, if_pos hs]

end Reads

/-! ## Values of Go types -/

/-- A key as it is compared with the names of fields: without case. Besides the letters of ASCII, U+017F is an
    `s` and U+212A is a `k`. -/
def foldKey : List UInt8 → List UInt8
  | [] => []
  | 0xC5 :: 0xBF :: s => 0x73 :: foldKey s
  | 0xE2 :: 0x84 :: 0xAA :: s => 0x6B :: foldKey s
  | c :: s => (if 0x41 ≤ c ∧ c ≤ 0x5A then c + 0x20 else c) :: foldKey s

/-- Reading a struct: `fields` are the names of its fields, and what a value does to the struct. Members that
    match no field are skipped, and `null` leaves the struct as it is. -/
def decodeStruct {σ : Type} (fields : List (List UInt8 × (σ → Json → Option σ))) (x : σ) : Json → Option σ
  | null => some x
  | obj ms => ms.foldlM (fun x m =>
      match fields.find? fun f => foldKey f.1 = foldKey m.1 with
      | some f => f.2 x m.2
      | none => some x) x
  | _ => none

section Struct

variable {σ : Type} {fields : List (List UInt8 × (σ → Json → Option σ))} {x : σ} {k : List UInt8} {v : Json}
  {ms : List (List UInt8 × Json)} {f : List UInt8 × (σ → Json → Option σ)} {i : ℕ}

theorem decodeStruct_nil : decodeStruct fields x (obj []) = some x := rfl

theorem find?_field (hk : (fields.map fun f => foldKey f.1).idxOf (foldKey k) = i) (hf : fields[i]? = some f) :
    fields.find? (fun f => foldKey f.1 = foldKey k) = some f := by
  induction fields generalizing i with
  | nil => cases hf
  | cons g fields ih =>
    rw [List.map_cons, List.idxOf_cons] at hk
    by_cases hg : foldKey g.1 = foldKey k
    · rw [hg, beq_self_eq_true, cond_true] at hk
      subst hk
      rw [List.find?_cons_of_pos (by simpa using hg)]
      exact hf
    · rw [beq_false_of_ne hg, cond_false] at hk
      subst hk
      rw [List.find?_cons_of_neg (by simpa using hg)]
      exact ih rfl hf

/-- A member that belongs to field number `i`. -/
theorem decodeStruct_cons (hk : (fields.map fun f => foldKey f.1).idxOf (foldKey k) = i) (hf : fields[i]? = some f) :
    decodeStruct fields x (obj ((k, v) :: ms)) = (f.2 x v).bind fun x => decodeStruct fields x (obj ms) := by
  simp only [decodeStruct, List.foldlM_cons, find?_field hk hf, Option.bind_eq_bind]

end Struct

/-- A `string`; `null` leaves the old one. -/
def decodeString (old : List UInt8) : Json → Option (List UInt8)
  | str s => some s
  | null => some old
  | _ => none

def decodeBool (old : Bool) : Json → Option Bool
  | bool b => some b
  | null => some old
  | _ => none

/-- The value of a decimal digit. -/
def decimal? (c : UInt8) : Option ℕ := if isDigit c then some (c.toNat - 0x30) else none

/-- `strconv.ParseInt(text, 10, 64)`. -/
def parseInt (t : List UInt8) : Option ℤ :=
  match scan decimal? 10 (2 ^ 64) (sign t).2 with
  | some (n, []) =>
    if (sign t).1 = [] then if n < 2 ^ 63 then some n else none
    else if n ≤ 2 ^ 63 then some (-n) else none
  | _ => none

/-- An `int`. -/
def decodeInt (old : ℤ) : Json → Option ℤ
  | num t => parseInt t
  | null => some old
  | _ => none

theorem decimal?_digitByte : ∀ d < 10, decimal? (digitByte d) = some d := by decide

theorem parseInt_intText {i : ℤ} (hlo : -2 ^ 63 ≤ i) (hhi : i < 2 ^ 63) : parseInt (intText i) = some i := by
  have hscan : scan decimal? 10 (2 ^ 64) (numeral 10 i.natAbs) = some (i.natAbs, []) := by
    have hrest : scan decimal? 10 (2 ^ 64) (numeral 10 i.natAbs ++ []) = some (i.natAbs, []) :=
      scan_numeral (by decide) decimal?_digitByte (by omega) (by simp)
    rwa [List.append_nil] at hrest
  have hsign := sign_intText i []
  rw [List.append_nil, List.append_nil] at hsign
  unfold parseInt
  rw [hsign]
  simp only [hscan]
  by_cases hi : i < 0
  · rw [if_pos hi, if_neg (List.cons_ne_nil _ _), if_pos (by omega)]
    exact congrArg some (by omega)
  · rw [if_neg hi, if_pos rfl, if_pos (by omega)]
    exact congrArg some (by omega)

/-- A slice: its elements, and what its array holds behind them. -/
structure Slice (α : Type) where
  elems : List α := []
  behind : List α := []
  deriving DecidableEq, Repr

/-- The elements of an array, each read into what is at its place in the array of the slice; where the array of the
    slice grows, that is the zero value. -/
def decodeElems {α : Type} [Inhabited α] (decode : α → Json → Option α) : List α → List Json → Option (List α)
  | _, [] => some []
  | old, x :: xs => (decode (old.head?.getD default) x).bind fun a => (decodeElems decode old.tail xs).map (a :: ·)

/-- A slice. A shorter array leaves the other elements behind the new ones; `null` and an array of no elements make a
    new slice. -/
def decodeSlice {α : Type} [Inhabited α] (decode : α → Json → Option α) (old : Slice α) : Json → Option (Slice α)
  | null | arr [] => some {}
  | arr xs => (decodeElems decode (old.elems ++ old.behind) xs).map fun as =>
      ⟨as, (old.elems ++ old.behind).drop xs.length⟩
  | _ => none

/-- Elements that are read as they were written, whatever is at their places. -/
theorem decodeElems_map {α : Type} [Inhabited α] {f : α → Json → Option α} {g : α → Json}
    (h : ∀ old a, f old (g a) = some a) (as old : List α) : decodeElems f old (as.map g) = some as := by
  induction as generalizing old with
  | nil => rfl
  | cons a as ih =>
    rw [List.map_cons, decodeElems, h, Option.bind_some, ih]
    rfl

end Json

end Wssocks.Lib

import Mathlib.Data.List.TakeWhile
import Wssocks.Lib.Numeral

/-!
# IP addresses as text

`IP.To4`, `IP.String` and `ParseIP` of Go's `net` package, in the version of `go.mod`. A string is the list
of its bytes and an IP address is the slice of its 4 or 16 bytes, as in Go.

Results:

* `parseIP_ipString`: the text of an address is parsed as that address.
* `length_parseIP`: what `ParseIP` returns has 16 bytes.
-/

namespace Wssocks.Net

open Wssocks.Lib

/-- A Go string or byte slice. -/
abbrev Bytes := List UInt8

/-- The bytes of a string literal. -/
def ascii (s : String) : Bytes := s.toList.map fun c => UInt8.ofNat c.toNat

/-- `':'` -/
abbrev colon : UInt8 := 58

/-- `'.'` -/
abbrev dot : UInt8 := 46

/-- `'['` -/
abbrev bracket : UInt8 := 91

/-! ## Numbers -/

/-- `strconv.Itoa` on a number that is not negative. -/
def itoa (n : ℕ) : Bytes := numeral 10 n

/-- `net.appendHex`: lower case, without leading zeros. -/
def hex (n : ℕ) : Bytes := numeral 16 n

/-- The value of a decimal digit. -/
def decVal (c : UInt8) : Option ℕ := if 48 ≤ c ∧ c ≤ 57 then some (c.toNat - 48) else none

/-- The value of a hexadecimal digit. -/
def hexVal (c : UInt8) : Option ℕ :=
  if 48 ≤ c ∧ c ≤ 57 then some (c.toNat - 48)
  else if 97 ≤ c ∧ c ≤ 102 then some (c.toNat - 87)
  else if 65 ≤ c ∧ c ≤ 70 then some (c.toNat - 55)
  else none

/-- `net.dtoi`: a decimal number under `0xFFFFFF` at the front of `s`, and what follows it. -/
def dtoi (s : Bytes) : Option (ℕ × Bytes) := scan decVal 10 0xFFFFFF s

/-- `net.xtoi`: the same in hexadecimal. -/
def xtoi (s : Bytes) : Option (ℕ × Bytes) := scan hexVal 16 0xFFFFFF s

theorem decVal_digitByte : ∀ d < 10, decVal (digitByte d) = some d := by decide

theorem hexVal_digitByte : ∀ d < 16, hexVal (digitByte d) = some d := by decide

theorem colon_ne_dot : colon ≠ dot := by decide

theorem digitByte_ne : ∀ d < 16, digitByte d ≠ colon ∧ digitByte d ≠ dot := by decide

theorem dtoi_itoa {n : ℕ} {rest : Bytes} (hn : n < 0xFFFFFF) (hrest : ∀ c ∈ rest.head?, decVal c = none) :
    dtoi (itoa n ++ rest) = some (n, rest) :=
  scan_numeral (by omega) decVal_digitByte hn hrest

theorem xtoi_hex {n : ℕ} {rest : Bytes} (hn : n < 0xFFFFFF) (hrest : ∀ c ∈ rest.head?, hexVal c = none) :
    xtoi (hex n ++ rest) = some (n, rest) :=
  scan_numeral (by omega) hexVal_digitByte hn hrest

theorem notMem_itoa (n : ℕ) : colon ∉ itoa n ∧ dot ∉ itoa n := by
  constructor <;>
  · intro hc
    obtain ⟨d, hd, h⟩ := exists_digit_of_mem (by omega) hc
    have hne := digitByte_ne d (by omega)
    simp [← h] at hne

theorem ne_dot_of_mem_hex {n : ℕ} {c : UInt8} (hc : c ∈ hex n) : c ≠ dot := by
  obtain ⟨d, hd, rfl⟩ := exists_digit_of_mem (by omega) hc
  exact (digitByte_ne d hd).2

theorem exists_hex_cons (n : ℕ) : ∃ c s, hex n = c :: s ∧ c ≠ colon := by
  obtain ⟨d, hd, s, h⟩ := exists_numeral_cons (by omega : 1 < 16) n
  exact ⟨digitByte d, s, h, (digitByte_ne d hd).1⟩

/-- The text of a number under `0xFFFFFF` determines it. -/
theorem itoa_inj {m n : ℕ} (hm : m < 0xFFFFFF) (hn : n < 0xFFFFFF) (h : itoa m = itoa n) : m = n := by
  have h₁ : dtoi (itoa m ++ []) = some (m, []) := dtoi_itoa hm (by simp)
  have h₂ : dtoi (itoa n ++ []) = some (n, []) := dtoi_itoa hn (by simp)
  rw [h, h₂] at h₁
  simpa using h₁.symm

/-! ## The text of an address -/

/-- `v4InV6Prefix`, what precedes the four bytes of an IPv4 address written in 16 bytes. -/
def mapped : Bytes := [0, 0, 0, 0, 0, 0, 0, 0, 0, 0, 255, 255]

/-- `IP.To4` -/
def to4 (ip : Bytes) : Option Bytes :=
  if ip.length = 4 then some ip
  else if ip.length = 16 ∧ ip.take 12 = mapped then some (ip.drop 12)
  else none

/-- `IP.To16` of a valid address. -/
def to16 (ip : Bytes) : Bytes := if ip.length = 4 then mapped ++ ip else ip

/-- The 16-bit groups of an address. -/
def groups : Bytes → List ℕ
  | a :: b :: t => (256 * a.toNat + b.toNat) :: groups t
  | _ => []

/-- `d.d.d.d` -/
def dotted (q : Bytes) : Bytes := [dot].intercalate (q.map fun b => itoa b.toNat)

/-- Groups in hexadecimal, separated by colons. -/
def coloned (gs : List ℕ) : Bytes := [colon].intercalate (gs.map hex)

/-- How many zeros `gs` starts with. -/
def zeros (gs : List ℕ) : ℕ := (gs.takeWhile (· = 0)).length

/-- The loop of `IP.String` that looks for the longest run of zeros, from group `i` on, where `e` is the
longest one so far. -/
def longest (gs : List ℕ) : ℕ → ℕ → ℕ × ℕ → ℕ × ℕ
  | 0, _, e => e
  | fuel + 1, i, e =>
    let j := i + zeros (gs.drop i)
    if i < j ∧ e.2 - e.1 < j - i then longest gs fuel (j + 1) (i, j) else longest gs fuel (i + 1) e

/-- The run that is written as `::`. A single group is not shortened. -/
def shortened (gs : List ℕ) : Option (ℕ × ℕ) :=
  let e := longest gs gs.length 0 (0, 0)
  if e.2 - e.1 ≤ 1 then none else some e

/-- An IPv6 address as text. -/
def v6String (gs : List ℕ) : Bytes :=
  match shortened gs with
  | none => coloned gs
  | some e => coloned (gs.take e.1) ++ colon :: colon :: coloned (gs.drop e.2)

/-- `IP.String` -/
def ipString (ip : Bytes) : Bytes :=
  if ip = [] then ascii "<nil>"
  else match to4 ip with
    | some q => dotted q
    | none =>
      if ip.length ≠ 16 then ascii "?" ++ ip.flatMap fun b => [digitByte (b.toNat / 16), digitByte (b.toNat % 16)]
      else v6String (groups ip)

/-! ## Parsing an address -/

/-- A decimal number of at most `0xFF`. -/
def octet (s : Bytes) : Option (UInt8 × Bytes) :=
  match dtoi s with
  | some (n, t) => if 0xFF < n then none else some (UInt8.ofNat n, t)
  | none => none

/-- A dot and an octet. -/
def dotOctet : Bytes → Option (UInt8 × Bytes)
  | [] => none
  | c :: s => if c = dot then octet s else none

/-- `net.parseIPv4`, the four bytes only. -/
def parseIPv4 (s : Bytes) : Option Bytes := do
  let (a, s) ← octet s
  let (b, s) ← dotOctet s
  let (c, s) ← dotOctet s
  let (d, s) ← dotOctet s
  if s = [] then some [a, b, c, d] else none

/-- A group as two bytes. -/
def pair (n : ℕ) : Bytes := [UInt8.ofNat (n / 256), UInt8.ofNat (n % 256)]

/-- The loop of `net.parseIPv6`: with `k` groups to go, `ip` holds the bytes parsed so far, `e` is where in them the
ellipsis was and `s` is the text still to be parsed. -/
def parseGroups : ℕ → Bytes → Option ℕ → Bytes → Option (Bytes × Option ℕ × Bytes)
  | 0, ip, e, s => some (ip, e, s)
  | k + 1, ip, e, s =>
    match xtoi s with
    | none => none
    | some (n, t) =>
      if 0xFFFF < n then none
      -- a number followed by a dot may be an IPv4 address at the end
      else if t.head? = some dot then
        if e = none ∧ ip.length ≠ 12 then none
        else if 16 < ip.length + 4 then none
        else (parseIPv4 s).map fun q => (ip ++ q, e, [])
      else match t with
        | [] => some (ip ++ pair n, e, [])
        | [_] => none
        | c :: c' :: t' =>
          if c ≠ colon then none
          else if c' ≠ colon then parseGroups k (ip ++ pair n) e (c' :: t')
          else if e.isSome then none
          else if t' = [] then some (ip ++ pair n, some (ip.length + 2), [])
          else parseGroups k (ip ++ pair n) (some (ip.length + 2)) t'

/-- The end of `net.parseIPv6`: all text must be used and an ellipsis stands for at least one group. -/
def expand : Bytes × Option ℕ × Bytes → Option Bytes
  | (ip, e, s) =>
    if s ≠ [] then none
    else if ip.length < 16 then
      e.map fun p => ip.take p ++ List.replicate (16 - ip.length) 0 ++ ip.drop p
    else if e.isSome then none
    else some ip

/-- `net.parseIPv6` -/
def parseIPv6 (s : Bytes) : Option Bytes :=
  if s.take 2 = [colon, colon] then
    if s.drop 2 = [] then some (List.replicate 16 0)
    else (parseGroups 8 [] (some 0) (s.drop 2)).bind expand
  else (parseGroups 8 [] none s).bind expand

/-- `net.ParseIP`: the first dot or colon decides what the text is parsed as. -/
def parseIP (s : Bytes) : Option Bytes :=
  match s.find? fun c => c = dot ∨ c = colon with
  | none => none
  | some c => if c = dot then (parseIPv4 s).map (mapped ++ ·) else parseIPv6 s

/-! ## IPv4 text -/

theorem octet_itoa (b : UInt8) {rest : Bytes} (hrest : ∀ c ∈ rest.head?, decVal c = none) :
    octet (itoa b.toNat ++ rest) = some (b, rest) := by
  have hb : b.toNat < 256 := b.toNat_lt
  rw [octet, dtoi_itoa (by omega) hrest]
  simp only [if_neg (show ¬ 0xFF < b.toNat by omega), UInt8.ofNat_toNat]

theorem dotted_four (a b c d : UInt8) :
    dotted [a, b, c, d] =
      itoa a.toNat ++ dot :: (itoa b.toNat ++ dot :: (itoa c.toNat ++ dot :: (itoa d.toNat ++ []))) := by
  simp [dotted, List.intercalate_cons_cons, List.intercalate_singleton]

theorem parseIPv4_dotted (a b c d : UInt8) : parseIPv4 (dotted [a, b, c, d]) = some [a, b, c, d] := by
  have hdot : ∀ (b : UInt8) {rest : Bytes}, (∀ c ∈ rest.head?, decVal c = none) →
      dotOctet (dot :: (itoa b.toNat ++ rest)) = some (b, rest) := by
    intro b rest hrest
    rw [dotOctet, if_pos rfl, octet_itoa b hrest]
  have hnext : ∀ (t : Bytes), ∀ c ∈ (dot :: t).head?, decVal c = none := by
    intro t c hc
    obtain rfl : dot = c := by simpa using hc
    rfl
  rw [parseIPv4, dotted_four, octet_itoa a (hnext _)]
  simp only [Option.bind_eq_bind, Option.bind_some]
  rw [hdot b (hnext _), Option.bind_some, hdot c (hnext _), Option.bind_some, hdot d (by simp),
    Option.bind_some, if_pos rfl]

/-! ## IPv6 text -/

/-- The bytes of groups. -/
def bytesOf (gs : List ℕ) : Bytes := gs.flatMap pair

@[simp] theorem bytesOf_nil : bytesOf [] = [] := rfl

theorem bytesOf_cons (g : ℕ) (gs : List ℕ) : bytesOf (g :: gs) = pair g ++ bytesOf gs := rfl

theorem bytesOf_append (gs hs : List ℕ) : bytesOf (gs ++ hs) = bytesOf gs ++ bytesOf hs := by
  simp [bytesOf]

theorem length_bytesOf (gs : List ℕ) : (bytesOf gs).length = 2 * gs.length := by
  induction gs with
  | nil => rfl
  | cons g gs ih =>
    rw [bytesOf_cons, List.length_append, ih, List.length_cons, pair]
    simp only [List.length_cons, List.length_nil]
    omega

theorem bytesOf_zeros (n : ℕ) : bytesOf (List.replicate n 0) = List.replicate (2 * n) 0 := by
  induction n with
  | zero => rfl
  | succ n ih =>
    rw [List.replicate_succ, bytesOf_cons, ih]
    rfl

theorem pair_group (a b : UInt8) : pair (256 * a.toNat + b.toNat) = [a, b] := by
  have hb : b.toNat < 256 := b.toNat_lt
  rw [pair, show (256 * a.toNat + b.toNat) / 256 = a.toNat by omega,
    show (256 * a.toNat + b.toNat) % 256 = b.toNat by omega, UInt8.ofNat_toNat, UInt8.ofNat_toNat]

theorem group_lt (a b : UInt8) : 256 * a.toNat + b.toNat < 65536 := by
  have ha : a.toNat < 256 := a.toNat_lt
  have hb : b.toNat < 256 := b.toNat_lt
  omega

theorem bytesOf_groups {k : ℕ} {ip : Bytes} (h : ip.length = 2 * k) : bytesOf (groups ip) = ip := by
  induction k generalizing ip with
  | zero =>
    obtain rfl : ip = [] := by simpa using h
    rfl
  | succ k ih =>
    match ip, h with
    | a :: b :: t, h =>
      have ht : t.length = 2 * k := by
        simp only [List.length_cons] at h
        omega
      rw [groups, bytesOf_cons, ih ht, pair_group]
      rfl

theorem groups_lt {ip : Bytes} {g : ℕ} (h : g ∈ groups ip) : g < 65536 := by
  induction ip using groups.induct with
  | case1 a b t ih =>
    rw [groups, List.mem_cons] at h
    rcases h with rfl | h
    · exact group_lt a b
    · exact ih h
  | case2 t ht =>
    rw [groups] at h
    · simp at h
    · exact ht

/-- What is written as `::` is a run of zeros. -/
structure ZeroRun (gs : List ℕ) (e : ℕ × ℕ) : Prop where
  le : e.1 ≤ e.2
  le_length : e.2 ≤ gs.length
  split : gs = gs.take e.1 ++ List.replicate (e.2 - e.1) 0 ++ gs.drop e.2

theorem ZeroRun.zeros {gs : List ℕ} {i : ℕ} (hi : i ≤ gs.length) :
    ZeroRun gs (i, i + zeros (gs.drop i)) := by
  have hrep : (gs.drop i).takeWhile (· = 0) = List.replicate (Net.zeros (gs.drop i)) 0 := by
    refine List.eq_replicate_iff.mpr ⟨rfl, fun g hg => ?_⟩
    simpa using List.mem_takeWhile_imp hg
  have hle : Net.zeros (gs.drop i) ≤ gs.length - i := by
    have := (List.takeWhile_sublist (fun g : ℕ => decide (g = 0)) (l := gs.drop i)).length_le
    simpa [Net.zeros] using this
  refine ⟨Nat.le_add_right _ _, by simp only; omega, ?_⟩
  have hdrop : gs.drop i = List.replicate (Net.zeros (gs.drop i)) 0 ++ gs.drop (i + Net.zeros (gs.drop i)) := by
    calc gs.drop i = (gs.drop i).take (Net.zeros (gs.drop i)) ++ (gs.drop i).drop (Net.zeros (gs.drop i)) :=
          (List.take_append_drop _ _).symm
      _ = _ := by
          rw [List.drop_drop, ← hrep]
          congr 1
          exact (List.prefix_iff_eq_take.mp (List.takeWhile_prefix _)).symm
  calc gs = gs.take i ++ gs.drop i := (List.take_append_drop i gs).symm
    _ = gs.take i ++ (List.replicate (Net.zeros (gs.drop i)) 0 ++ gs.drop (i + Net.zeros (gs.drop i))) := by
        rw [← hdrop]
    _ = _ := by simp

theorem ZeroRun.longest {gs : List ℕ} {fuel i : ℕ} {e : ℕ × ℕ} (he : ZeroRun gs e) :
    ZeroRun gs (longest gs fuel i e) := by
  induction fuel generalizing i e with
  | zero => exact he
  | succ fuel ih =>
    rw [Net.longest]
    split_ifs with h
    · refine ih (ZeroRun.zeros ?_)
      -- a run that is not empty starts inside the groups
      by_contra hi
      rw [List.drop_eq_nil_of_le (by omega)] at h
      simp [Net.zeros] at h
    · exact ih he

theorem ZeroRun.shortened {gs : List ℕ} {e : ℕ × ℕ} (h : shortened gs = some e) :
    ZeroRun gs e ∧ e.1 < e.2 := by
  simp only [Net.shortened, Option.ite_none_left_eq_some, Option.some.injEq] at h
  obtain ⟨hlt, rfl⟩ := h
  exact ⟨ZeroRun.longest ⟨le_rfl, Nat.zero_le _, by simp⟩, by omega⟩

/-- The bytes around the run and zeros in its place are the bytes of the address. -/
theorem ZeroRun.bytesOf {gs : List ℕ} {e : ℕ × ℕ} (h : ZeroRun gs e) :
    bytesOf gs = bytesOf (gs.take e.1) ++ List.replicate (2 * (e.2 - e.1)) 0 ++ bytesOf (gs.drop e.2) := by
  rw [← bytesOf_zeros, ← bytesOf_append, ← bytesOf_append, ← h.split]

/-! ### The parser on this text -/

theorem coloned_cons_cons (g h : ℕ) (gs : List ℕ) :
    coloned (g :: h :: gs) = hex g ++ colon :: coloned (h :: gs) := by
  simp [coloned, List.intercalate_cons_cons]

theorem coloned_singleton (g : ℕ) : coloned [g] = hex g := by
  simp [coloned, List.intercalate_singleton]

theorem exists_coloned_cons {gs : List ℕ} (hgs : gs ≠ []) : ∃ c s, coloned gs = c :: s ∧ c ≠ colon := by
  match gs, hgs with
  | [g], _ =>
    rw [coloned_singleton]
    exact exists_hex_cons g
  | g :: h :: gs, _ =>
    obtain ⟨c, s, hc, hne⟩ := exists_hex_cons g
    exact ⟨c, s ++ colon :: coloned (h :: gs), by rw [coloned_cons_cons, hc]; rfl, hne⟩

theorem hexVal_colon (t : Bytes) : ∀ c ∈ (colon :: t).head?, hexVal c = none := by
  intro c hc
  obtain rfl : colon = c := by simpa using hc
  rfl

/-- One group, up to the end of the text. -/
theorem parseGroups_hex {k g : ℕ} {ip : Bytes} {e : Option ℕ} (hg : g < 65536) :
    parseGroups (k + 1) ip e (hex g) = some (ip ++ pair g, e, []) := by
  have hx : xtoi (hex g ++ []) = some (g, []) := xtoi_hex (by omega) (by simp)
  rw [List.append_nil] at hx
  rw [parseGroups, hx]
  simp [show ¬ 65535 < g by omega]

/-- One group, up to a colon. -/
theorem parseGroups_hex_colon {k g : ℕ} {ip t : Bytes} {c : UInt8} {e : Option ℕ} (hg : g < 65536)
    (hc : c ≠ colon) :
    parseGroups (k + 1) ip e (hex g ++ colon :: c :: t) = parseGroups k (ip ++ pair g) e (c :: t) := by
  rw [parseGroups, xtoi_hex (by omega) (hexVal_colon _)]
  simp [show ¬ 65535 < g by omega, hc, colon_ne_dot]

/-- One group, up to the ellipsis. -/
theorem parseGroups_hex_ellipsis {k g : ℕ} {ip t : Bytes} (hg : g < 65536) :
    parseGroups (k + 1) ip none (hex g ++ colon :: colon :: t) =
      if t = [] then some (ip ++ pair g, some (ip.length + 2), [])
      else parseGroups k (ip ++ pair g) (some (ip.length + 2)) t := by
  rw [parseGroups, xtoi_hex (by omega) (hexVal_colon _)]
  simp [show ¬ 65535 < g by omega, colon_ne_dot]

/-- Groups up to the end of the text. -/
theorem parseGroups_coloned {gs : List ℕ} {k : ℕ} {ip : Bytes} {e : Option ℕ} (hne : gs ≠ [])
    (hlt : ∀ g ∈ gs, g < 65536) (hk : gs.length ≤ k) :
    parseGroups k ip e (coloned gs) = some (ip ++ bytesOf gs, e, []) := by
  induction gs generalizing k ip with
  | nil => exact absurd rfl hne
  | cons g gs ih =>
    have hg : g < 65536 := hlt g (by simp)
    obtain ⟨k, rfl⟩ : ∃ k', k = k' + 1 := ⟨k - 1, by simp only [List.length_cons] at hk; omega⟩
    cases gs with
    | nil => rw [coloned_singleton, parseGroups_hex hg, bytesOf_cons, bytesOf_nil, List.append_nil]
    | cons h gs =>
      obtain ⟨c, s, hc, hcol⟩ := exists_coloned_cons (List.cons_ne_nil h gs)
      rw [coloned_cons_cons, hc, parseGroups_hex_colon hg hcol, ← hc,
        ih (by simp) (fun g hg => hlt g (by simp [hg])) (by simpa using hk), bytesOf_cons g,
        List.append_assoc]

/-- Groups up to the ellipsis. -/
theorem parseGroups_coloned_ellipsis {gs : List ℕ} {k : ℕ} {ip t : Bytes} (hne : gs ≠ [])
    (hlt : ∀ g ∈ gs, g < 65536) (hk : gs.length ≤ k) :
    parseGroups k ip none (coloned gs ++ colon :: colon :: t) =
      if t = [] then some (ip ++ bytesOf gs, some (ip.length + 2 * gs.length), [])
      else parseGroups (k - gs.length) (ip ++ bytesOf gs) (some (ip.length + 2 * gs.length)) t := by
  induction gs generalizing k ip with
  | nil => exact absurd rfl hne
  | cons g gs ih =>
    have hg : g < 65536 := hlt g (by simp)
    obtain ⟨k, rfl⟩ : ∃ k', k = k' + 1 := ⟨k - 1, by simp only [List.length_cons] at hk; omega⟩
    cases gs with
    | nil =>
      rw [coloned_singleton, parseGroups_hex_ellipsis hg, bytesOf_cons, bytesOf_nil, List.append_nil]
      simp
    | cons h gs =>
      obtain ⟨c, s, hc, hcol⟩ := exists_coloned_cons (List.cons_ne_nil h gs)
      have hlen : (ip ++ pair g).length = ip.length + 2 := by simp [pair]
      have hpos : ip.length + 2 + 2 * (h :: gs).length = ip.length + 2 * (g :: h :: gs).length := by
        simp only [List.length_cons]
        omega
      have hleft : k - (h :: gs).length = k + 1 - (g :: h :: gs).length := by
        simp only [List.length_cons]
        omega
      rw [coloned_cons_cons, hc, List.append_assoc, List.cons_append, List.cons_append,
        parseGroups_hex_colon hg hcol, ← List.cons_append, ← hc,
        ih (by simp) (fun g hg => hlt g (by simp [hg])) (by simpa using hk), hlen, hpos, hleft,
        bytesOf_cons g, List.append_assoc]

/-- An ellipsis is replaced by as many zeros as are missing. -/
theorem expand_ellipsis {p z : ℕ} {l r : Bytes} (hp : l.length = p) (hlen : l.length + z + r.length = 16)
    (hz : 0 < z) : expand (l ++ r, some p, []) = some (l ++ List.replicate z 0 ++ r) := by
  subst hp
  have hmissing : 16 - (l ++ r).length = z := by
    rw [List.length_append]
    omega
  have hlt : (l ++ r).length < 16 := by
    rw [List.length_append]
    omega
  simp only [expand, ne_eq, not_true_eq_false, if_false, if_pos hlt, hmissing, Option.map_some,
    List.take_left, List.drop_left]

/-- Text that starts with a group does not start with an ellipsis. -/
theorem parseIPv6_of_ne {c : UInt8} {s : Bytes} (hc : c ≠ colon) :
    parseIPv6 (c :: s) = (parseGroups 8 [] none (c :: s)).bind expand := by
  rw [parseIPv6, if_neg]
  intro h
  cases s <;> simp_all

theorem parseIPv6_ellipsis (t : Bytes) :
    parseIPv6 (colon :: colon :: t) =
      if t = [] then some (List.replicate 16 0) else (parseGroups 8 [] (some 0) t).bind expand := rfl

theorem coloned_eq_nil {gs : List ℕ} : coloned gs = [] ↔ gs = [] := by
  constructor
  · intro h
    by_contra hne
    obtain ⟨c, s, hc, -⟩ := exists_coloned_cons hne
    simp [hc] at h
  · rintro rfl
    rfl

/-- Text without an ellipsis. -/
theorem parseIPv6_coloned {gs : List ℕ} (hlen : gs.length = 8) (hlt : ∀ g ∈ gs, g < 65536) :
    parseIPv6 (coloned gs) = some (bytesOf gs) := by
  have hne : gs ≠ [] := by
    rintro rfl
    simp at hlen
  obtain ⟨c, s, hc, hcol⟩ := exists_coloned_cons hne
  rw [hc, parseIPv6_of_ne hcol, ← hc, parseGroups_coloned hne hlt (by omega), Option.bind_some,
    List.nil_append]
  simp [expand, length_bytesOf, hlen]

/-- Text with an ellipsis, between the groups `l` and the groups `r`. -/
theorem parseIPv6_coloned_ellipsis {l r : List ℕ} (hl : ∀ g ∈ l, g < 65536) (hr : ∀ g ∈ r, g < 65536)
    (hlen : l.length + r.length < 8) :
    parseIPv6 (coloned l ++ colon :: colon :: coloned r) =
      expand (bytesOf l ++ bytesOf r, some (2 * l.length), []) := by
  have hlast : ∀ {k : ℕ} {ip : Bytes} {p : Option ℕ}, r ≠ [] → r.length ≤ k →
      parseGroups k ip p (coloned r) = some (ip ++ bytesOf r, p, []) :=
    fun hne hk => parseGroups_coloned hne hr hk
  by_cases hne : l = []
  · subst hne
    rw [show coloned [] = [] from rfl, List.nil_append, parseIPv6_ellipsis]
    split_ifs with hd
    · -- nothing but the ellipsis
      rw [coloned_eq_nil] at hd
      subst hd
      rfl
    · rw [hlast (fun h => hd (coloned_eq_nil.mpr h)) (by omega)]
      rfl
  · obtain ⟨c, s, hc, hcol⟩ := exists_coloned_cons hne
    rw [hc, List.cons_append, parseIPv6_of_ne hcol, ← List.cons_append, ← hc,
      parseGroups_coloned_ellipsis hne hl (by omega)]
    simp only [List.nil_append, List.length_nil, Nat.zero_add]
    split_ifs with hd
    · rw [coloned_eq_nil] at hd
      rw [hd, bytesOf_nil, List.append_nil, Option.bind_some]
    · rw [hlast (fun h => hd (coloned_eq_nil.mpr h)) (by omega), Option.bind_some]

/-- The text of an IPv6 address is parsed as that address. -/
theorem parseIPv6_v6String {gs : List ℕ} (hlen : gs.length = 8) (hlt : ∀ g ∈ gs, g < 65536) :
    parseIPv6 (v6String gs) = some (bytesOf gs) := by
  unfold v6String
  split
  · exact parseIPv6_coloned hlen hlt
  · next e he =>
    obtain ⟨hrun, hlt'⟩ := ZeroRun.shortened he
    have hle := hrun.le_length
    have htake : (gs.take e.1).length = e.1 := by
      rw [List.length_take]
      omega
    have hdrop : (gs.drop e.2).length = 8 - e.2 := by
      rw [List.length_drop, hlen]
    rw [parseIPv6_coloned_ellipsis (fun g hg => hlt g (List.mem_of_mem_take hg))
      (fun g hg => hlt g (List.mem_of_mem_drop hg)) (by omega), hrun.bytesOf]
    apply expand_ellipsis
    · rw [length_bytesOf]
    · rw [length_bytesOf, length_bytesOf, htake, hdrop]
      omega
    · omega

/-! ## The round trip -/

theorem length_to4 {ip q : Bytes} (h : to4 ip = some q) : q.length = 4 := by
  unfold to4 at h
  split_ifs at h with h4 h16
  · exact Option.some.inj h ▸ h4
  · rw [← Option.some.inj h, List.length_drop]
    omega

/-- An address that has four bytes is written in 16 with `v4InV6Prefix`. -/
theorem to16_of_to4 {ip q : Bytes} (h : to4 ip = some q) : to16 ip = mapped ++ q := by
  unfold to4 at h
  unfold to16
  split_ifs at h ⊢ with h4 h16
  · rw [Option.some.inj h]
  · rw [← Option.some.inj h, ← h16.2, List.take_append_drop]

theorem parseIP_dotted {q : Bytes} (hq : q.length = 4) : parseIP (dotted q) = some (mapped ++ q) := by
  match q, hq with
  | [a, b, c, d], _ =>
    have hfirst : (dotted [a, b, c, d]).find? (fun c => c = dot ∨ c = colon) = some dot := by
      have hnone : (itoa a.toNat).find? (fun c => c = dot ∨ c = colon) = none := by
        rw [List.find?_eq_none]
        rintro x hx
        have := notMem_itoa a.toNat
        simp only [decide_eq_true_eq, not_or]
        exact ⟨fun h => this.2 (h ▸ hx), fun h => this.1 (h ▸ hx)⟩
      rw [dotted_four, List.find?_append, hnone]
      rfl
    rw [parseIP, hfirst]
    simp only [if_true]
    rw [parseIPv4_dotted, Option.map_some]

theorem ne_dot_of_mem_coloned {gs : List ℕ} {c : UInt8} (hc : c ∈ coloned gs) : c ≠ dot := by
  induction gs with
  | nil => simp [coloned] at hc
  | cons g gs ih =>
    cases gs with
    | nil =>
      rw [coloned_singleton] at hc
      exact ne_dot_of_mem_hex hc
    | cons h gs =>
      rw [coloned_cons_cons, List.mem_append, List.mem_cons] at hc
      rcases hc with hc | rfl | hc
      · exact ne_dot_of_mem_hex hc
      · exact colon_ne_dot
      · exact ih hc

/-- The text of an IPv6 address has a colon and no dot. -/
theorem find?_v6String {gs : List ℕ} (hlen : gs.length = 8) :
    (v6String gs).find? (fun c => c = dot ∨ c = colon) = some colon := by
  have hdot : dot ∉ v6String gs := by
    unfold v6String
    split
    · exact fun h => ne_dot_of_mem_coloned h rfl
    · intro h
      rw [List.mem_append, List.mem_cons, List.mem_cons] at h
      rcases h with h | h | h | h
      · exact ne_dot_of_mem_coloned h rfl
      · exact colon_ne_dot h.symm
      · exact colon_ne_dot h.symm
      · exact ne_dot_of_mem_coloned h rfl
  have hcolon : colon ∈ v6String gs := by
    unfold v6String
    split
    · match gs, hlen with
      | g :: h :: gs, _ => simp [coloned_cons_cons]
    · simp
  have hsome : ((v6String gs).find? (fun c => c = dot ∨ c = colon)).isSome :=
    List.find?_isSome.mpr ⟨colon, hcolon, by simp⟩
  obtain ⟨c, hc⟩ := Option.isSome_iff_exists.mp hsome
  have hor : c = dot ∨ c = colon := by simpa using List.find?_some hc
  rcases hor with rfl | rfl
  · exact absurd (List.mem_of_find?_eq_some hc) hdot
  · exact hc

theorem parseIP_ipString {ip : Bytes} (h : ip.length = 4 ∨ ip.length = 16) :
    parseIP (ipString ip) = some (to16 ip) := by
  have hne : ip ≠ [] := by
    rintro rfl
    simp at h
  rw [ipString, if_neg hne]
  split
  · next q hq => rw [parseIP_dotted (length_to4 hq), to16_of_to4 hq]
  · next hq =>
    have h4 : ip.length ≠ 4 := fun h4 => by simp [to4, h4] at hq
    have h16 : ip.length = 16 := h.resolve_left h4
    have hbytes : bytesOf (groups ip) = ip := bytesOf_groups (k := 8) h16
    have hgs : (groups ip).length = 8 := by
      have := length_bytesOf (groups ip)
      rw [hbytes] at this
      omega
    rw [if_neg (not_not.mpr h16), parseIP, find?_v6String hgs]
    simp only [if_neg colon_ne_dot]
    rw [parseIPv6_v6String hgs (fun g => groups_lt), hbytes, to16, if_neg h4]

/-! ## What is accepted -/

theorem length_parseIPv4 {s q : Bytes} (h : parseIPv4 s = some q) : q.length = 4 := by
  simp only [parseIPv4, Option.bind_eq_bind, Option.bind_eq_some_iff, Prod.exists,
    Option.ite_none_right_eq_some, Option.some.injEq] at h
  obtain ⟨a, -, -, b, -, -, c, -, -, d, -, -, -, rfl⟩ := h
  rfl

/-- The loop stays within 16 bytes. -/
theorem length_parseGroups {k : ℕ} {ip ip' s s' : Bytes} {e e' : Option ℕ} (hlen : ip.length + 2 * k = 16)
    (h : parseGroups k ip e s = some (ip', e', s')) : ip'.length ≤ 16 := by
  induction k generalizing ip e s with
  | zero =>
    simp only [parseGroups, Option.some.injEq, Prod.mk.injEq] at h
    rw [← h.1]
    omega
  | succ k ih =>
    have hpair : ∀ n, (ip ++ pair n).length = ip.length + 2 := fun n => by simp [pair]
    rw [parseGroups] at h
    split at h
    · cases h
    · next n t _ =>
      rw [Option.ite_none_left_eq_some] at h
      obtain ⟨-, h⟩ := h
      split at h
      · -- an IPv4 address at the end, if it fits
        rw [Option.ite_none_left_eq_some, Option.ite_none_left_eq_some] at h
        obtain ⟨-, hfit, h⟩ := h
        obtain ⟨q, hq, heq⟩ := Option.map_eq_some_iff.mp h
        rw [← (Prod.mk.inj heq).1, List.length_append, length_parseIPv4 hq]
        omega
      · split at h
        · rw [← (Prod.mk.inj (Option.some.inj h)).1, hpair]
          omega
        · cases h
        · split_ifs at h
          · exact ih (by rw [hpair]; omega) h
          · rw [← (Prod.mk.inj (Option.some.inj h)).1, hpair]
            omega
          · exact ih (by rw [hpair]; omega) h

theorem length_expand {ip s ip' : Bytes} {e : Option ℕ} (hlen : ip.length ≤ 16)
    (h : expand (ip, e, s) = some ip') : ip'.length = 16 := by
  rw [expand] at h
  split_ifs at h with _ hlt _
  · obtain ⟨p, -, rfl⟩ := Option.map_eq_some_iff.mp h
    simp only [List.length_append, List.length_take, List.length_replicate, List.length_drop]
    omega
  · rw [← Option.some.inj h]
    omega

theorem length_parseIPv6 {s ip : Bytes} (h : parseIPv6 s = some ip) : ip.length = 16 := by
  have hloop : ∀ {e : Option ℕ} {t : Bytes}, (parseGroups 8 [] e t).bind expand = some ip →
      ip.length = 16 := by
    intro e t h
    obtain ⟨⟨ip', e', s'⟩, hgroups, hexp⟩ := Option.bind_eq_some_iff.mp h
    exact length_expand (length_parseGroups rfl hgroups) hexp
  rw [parseIPv6] at h
  split_ifs at h
  · rw [← Option.some.inj h, List.length_replicate]
  · exact hloop h
  · exact hloop h

theorem length_parseIP {s ip : Bytes} (h : parseIP s = some ip) : ip.length = 16 := by
  rw [parseIP] at h
  split at h
  · cases h
  · split_ifs at h
    · obtain ⟨q, hq, rfl⟩ := Option.map_eq_some_iff.mp h
      rw [List.length_append, length_parseIPv4 hq]
      rfl
    · exact length_parseIPv6 h

/-- Text that starts with a bracket is no address. -/
theorem parseIP_bracket (s : Bytes) : parseIP (bracket :: s) = none := by
  have h4 : parseIPv4 (bracket :: s) = none := by
    rw [parseIPv4, octet, dtoi, scan_cons_eq_none (by decide)]
    rfl
  have h6 : parseIPv6 (bracket :: s) = none := by
    rw [parseIPv6_of_ne (by decide), parseGroups, xtoi, scan_cons_eq_none (by decide)]
    rfl
  rw [parseIP]
  split
  · rfl
  · split_ifs
    · rw [h4, Option.map_none]
    · exact h6

end Wssocks.Net

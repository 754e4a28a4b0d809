import Wssocks.Wss.Socks5

/-!
# The guard against private addresses

`checkAddrPrivite` (`privite.go`, 32-64) looks up the host of an address and refuses it if one of its
addresses is private. `establish` (`proxy_server.go`, 171-189) calls it before it dials.

Results:

* `checkIpPrivite_ipString`: the check of a single address is exact.
* `checkIpPrivite_range`: it compares byte strings, which is membership of the number in one of the ranges.
* `examines_iff`: the guard examines the host that is dialled exactly if the host has no colon.
-/

namespace Wssocks.Wss

open Wssocks.Lib Wssocks.Net

/-! ## The code -/

/-- A range of addresses. -/
structure IpBlock where
  ip1 : Bytes
  ip2 : Bytes

/-- `priviteIps`, as `init` fills it. A text that is no address would be parsed as `nil`. -/
def priviteIps : List IpBlock :=
  [⟨(parseIP (ascii "10.0.0.0")).getD [], (parseIP (ascii "10.255.255.255")).getD []⟩,
   ⟨(parseIP (ascii "172.16.0.0")).getD [], (parseIP (ascii "172.31.255.255")).getD []⟩,
   ⟨(parseIP (ascii "192.168.0.0")).getD [], (parseIP (ascii "192.168.255.255")).getD []⟩]

/-- `checkIpPrivite` -/
def checkIpPrivite (ip : Bytes) : Bool :=
  if ip = ascii "127.0.0.1" then true
  else
    let trial := (parseIP ip).getD []
    if to4 trial = none then false
    else priviteIps.any fun p => (compareBytes trial p.ip1).isGE && (compareBytes trial p.ip2).isLE

/-- `net.LookupIP`, for one fixed state of the name service. It returns addresses of 4 or 16 bytes, none if
it fails, and an IP literal is its own address. -/
structure Resolver where
  lookup : Bytes → List Bytes
  valid : ∀ host, ∀ ip ∈ lookup host, ip.length = 4 ∨ ip.length = 16
  literal : ∀ host ip, parseIP host = some ip → lookup host = [ip]

/-- `checkAddrPrivite` -/
def checkAddrPrivite (R : Resolver) (addr : Bytes) : Bool :=
  (R.lookup (beforeColon addr)).any fun ip => checkIpPrivite (ipString ip)

/-- The beginning of `establish`: the address that is dialled, or "visit privite network, dial deny". -/
def establishDial (R : Resolver) (addr : Bytes) : Option Bytes :=
  if checkAddrPrivite R addr then none else some addr

/-! ## Private addresses -/

/-- `q` lies in the network of the address `net` with a mask of `len` bits. -/
def InNet (net : Bytes) (len : ℕ) (q : Bytes) : Prop :=
  bigEndian q / 2 ^ (32 - len) = bigEndian net / 2 ^ (32 - len)

/-- `127.0.0.1`, `10.0.0.0/8`, `172.16.0.0/12` and `192.168.0.0/16`. -/
def Private (ip : Bytes) : Prop :=
  ∃ q, to4 ip = some q ∧ (q = [127, 0, 0, 1] ∨ InNet [10, 0, 0, 0] 8 q ∨ InNet [172, 16, 0, 0] 12 q ∨
    InNet [192, 168, 0, 0] 16 q)

theorem to4_mapped {q : Bytes} (hq : q.length = 4) : to4 (mapped ++ q) = some q := by
  have hlen : (mapped ++ q).length = 16 := by
    rw [List.length_append, hq]
    rfl
  have hdrop : (mapped ++ q).drop 12 = q := List.drop_left' rfl
  rw [to4, if_neg (by omega), if_pos ⟨hlen, List.take_left' rfl⟩, hdrop]

theorem to16_of_to4_none {ip : Bytes} (h : to4 ip = none) : to16 ip = ip :=
  if_neg fun h4 => by simp [to4, h4] at h

theorem ipString_of_to4 {ip q : Bytes} (h : to4 ip = some q) : ipString ip = dotted q := by
  have hne : ip ≠ [] := by
    rintro rfl
    simp [to4] at h
  rw [ipString, if_neg hne, h]

/-- The text `127.0.0.1` is that of this address only. -/
theorem ipString_eq_loopback {ip : Bytes} (hip : ip.length = 4 ∨ ip.length = 16) :
    ipString ip = ascii "127.0.0.1" ↔ to4 ip = some [127, 0, 0, 1] := by
  have htext : dotted [127, 0, 0, 1] = ascii "127.0.0.1" := by decide +kernel
  constructor
  · intro h
    have hparse := parseIP_ipString hip
    rw [h, ← htext, parseIP_dotted rfl, Option.some.injEq] at hparse
    cases hto : to4 ip with
    | none =>
      rw [to16_of_to4_none hto] at hparse
      rw [← hparse, to4_mapped rfl] at hto
      cases hto
    | some q =>
      rw [to16_of_to4 hto] at hparse
      rw [List.append_cancel_left hparse]
  · intro h
    rw [ipString_of_to4 h, htext]

/-- A range of IPv4 addresses between two ends. -/
theorem compareBytes_mapped {q a b : Bytes} (hq : q.length = 4) (ha : a.length = 4) (hb : b.length = 4) :
    ((compareBytes (mapped ++ q) (mapped ++ a)).isGE && (compareBytes (mapped ++ q) (mapped ++ b)).isLE) = true ↔
      bigEndian a ≤ bigEndian q ∧ bigEndian q ≤ bigEndian b := by
  rw [Bool.and_eq_true, compareBytes_append_left, compareBytes_append_left,
    compareBytes_ge_iff (hq.trans ha.symm), compareBytes_le_iff (hq.trans hb.symm)]

theorem priviteIps_eq : priviteIps =
    [⟨mapped ++ [10, 0, 0, 0], mapped ++ [10, 255, 255, 255]⟩,
     ⟨mapped ++ [172, 16, 0, 0], mapped ++ [172, 31, 255, 255]⟩,
     ⟨mapped ++ [192, 168, 0, 0], mapped ++ [192, 168, 255, 255]⟩] := by
  rfl

/-- The ranges, as ranges of numbers. -/
theorem any_priviteIps_between {q : Bytes} (hq : q.length = 4) :
    (priviteIps.any fun p =>
      (compareBytes (mapped ++ q) p.ip1).isGE && (compareBytes (mapped ++ q) p.ip2).isLE) = true ↔
    (bigEndian [10, 0, 0, 0] ≤ bigEndian q ∧ bigEndian q ≤ bigEndian [10, 255, 255, 255]) ∨
      (bigEndian [172, 16, 0, 0] ≤ bigEndian q ∧ bigEndian q ≤ bigEndian [172, 31, 255, 255]) ∨
      (bigEndian [192, 168, 0, 0] ≤ bigEndian q ∧ bigEndian q ≤ bigEndian [192, 168, 255, 255]) := by
  rw [priviteIps_eq]
  simp only [List.any_cons, List.any_nil, Bool.or_false, Bool.or_eq_true]
  rw [compareBytes_mapped hq rfl rfl, compareBytes_mapped hq rfl rfl, compareBytes_mapped hq rfl rfl]

/-- The ranges are the networks. -/
theorem any_priviteIps {q : Bytes} (hq : q.length = 4) :
    (priviteIps.any fun p =>
      (compareBytes (mapped ++ q) p.ip1).isGE && (compareBytes (mapped ++ q) p.ip2).isLE) = true ↔
    InNet [10, 0, 0, 0] 8 q ∨ InNet [172, 16, 0, 0] 12 q ∨ InNet [192, 168, 0, 0] 16 q := by
  rw [any_priviteIps_between hq]
  have h10 : bigEndian [10, 0, 0, 0] = 167772160 ∧ bigEndian [10, 255, 255, 255] = 184549375 := by decide
  have h172 : bigEndian [172, 16, 0, 0] = 2886729728 ∧ bigEndian [172, 31, 255, 255] = 2887778303 := by decide
  have h192 : bigEndian [192, 168, 0, 0] = 3232235520 ∧ bigEndian [192, 168, 255, 255] = 3232301055 := by
    decide
  rw [InNet, InNet, InNet, h10.1, h10.2, h172.1, h172.2, h192.1, h192.2]
  omega

theorem checkIpPrivite_ipString {ip : Bytes} (hip : ip.length = 4 ∨ ip.length = 16) :
    checkIpPrivite (ipString ip) = true ↔ Private ip := by
  rw [checkIpPrivite]
  by_cases hloop : ipString ip = ascii "127.0.0.1"
  · rw [if_pos hloop]
    simp only [true_iff]
    exact ⟨_, (ipString_eq_loopback hip).mp hloop, .inl rfl⟩
  · rw [if_neg hloop, parseIP_ipString hip, Option.getD_some]
    rw [ipString_eq_loopback hip] at hloop
    dsimp only
    cases hto : to4 ip with
    | none =>
      rw [to16_of_to4_none hto, hto, if_pos rfl]
      simp [Private, hto]
    | some q =>
      have hq := length_to4 hto
      rw [to16_of_to4 hto, to4_mapped hq, if_neg (by simp), any_priviteIps hq]
      rw [hto, Option.some.injEq] at hloop
      simp [Private, hto, hloop]

/-- The 32-bit number of the address `a.b.c.d`. -/
def ipNumber (a b c d : UInt8) : ℕ := a.toNat * 2 ^ 24 + b.toNat * 2 ^ 16 + c.toNat * 2 ^ 8 + d.toNat

/-- The numbers from `10.0.0.0` to `10.255.255.255`, from `172.16.0.0` to `172.31.255.255` and from `192.168.0.0`
to `192.168.255.255`, and that of `127.0.0.1`. -/
def PrivateNumber (n : ℕ) : Prop :=
  (ipNumber 10 0 0 0 ≤ n ∧ n ≤ ipNumber 10 255 255 255) ∨
  (ipNumber 172 16 0 0 ≤ n ∧ n ≤ ipNumber 172 31 255 255) ∨
  (ipNumber 192 168 0 0 ≤ n ∧ n ≤ ipNumber 192 168 255 255) ∨ n = ipNumber 127 0 0 1

theorem bigEndian_four (a b c d : UInt8) : bigEndian [a, b, c, d] = ipNumber a b c d := by
  simp only [bigEndian, List.foldl_cons, List.foldl_nil, ipNumber]
  ring

theorem ipNumber_inj {a b c d a' b' c' d' : UInt8} :
    ipNumber a b c d = ipNumber a' b' c' d' ↔ [a, b, c, d] = [a', b', c', d'] := by
  constructor
  · intro h
    have := b.toNat_lt
    have := c.toNat_lt
    have := d.toNat_lt
    have := b'.toNat_lt
    have := c'.toNat_lt
    have := d'.toNat_lt
    unfold ipNumber at h
    have ha : a = a' := UInt8.toNat_inj.mp (by omega)
    have hb : b = b' := UInt8.toNat_inj.mp (by omega)
    have hc : c = c' := UInt8.toNat_inj.mp (by omega)
    have hd : d = d' := UInt8.toNat_inj.mp (by omega)
    rw [ha, hb, hc, hd]
  · intro h
    simp only [List.cons.injEq, and_true] at h
    obtain ⟨rfl, rfl, rfl, rfl⟩ := h
    rfl

/-- A text that denotes no IPv4 address fails the check. -/
theorem checkIpPrivite_of_not_ipv4 {s : Bytes} (h : ∀ a b c d, parseIP s ≠ some (mapped ++ [a, b, c, d])) :
    checkIpPrivite s = false := by
  have hloop : s ≠ ascii "127.0.0.1" := by
    rintro rfl
    exact h 127 0 0 1 (by decide +kernel)
  have hto : to4 ((parseIP s).getD []) = none := by
    cases hparse : parseIP s with
    | none => rfl
    | some ip =>
      by_contra hsome
      obtain ⟨q, hq⟩ := Option.ne_none_iff_exists'.mp hsome
      rw [Option.getD_some] at hq
      -- the address has 16 bytes, so it is the mapped form of these four
      have hip : ip = mapped ++ q := by
        rw [← to16_of_to4 hq, to16, if_neg (by rw [length_parseIP hparse]; decide)]
      obtain ⟨a, b, c, d, rfl⟩ := List.length_eq_four.mp (length_to4 hq)
      exact h a b c d (hparse.trans (congrArg some hip))
  rw [checkIpPrivite, if_neg hloop]
  dsimp only
  rw [if_pos hto]

/-- The check of an IPv4 address is membership of its number in the private ranges, and no other text passes. -/
theorem checkIpPrivite_range :
    (∀ a b c d : UInt8, checkIpPrivite (ipString [a, b, c, d]) = true ↔ PrivateNumber (ipNumber a b c d)) ∧
    ∀ s : Bytes, (∀ a b c d, parseIP s ≠ some (mapped ++ [a, b, c, d])) → checkIpPrivite s = false := by
  refine ⟨fun a b c d => ?_, fun s h => checkIpPrivite_of_not_ipv4 h⟩
  have hq : [a, b, c, d].length = 4 := rfl
  rw [checkIpPrivite_ipString (.inl hq), PrivateNumber, ipNumber_inj, ← bigEndian_four, ← bigEndian_four,
    ← bigEndian_four, ← bigEndian_four, ← bigEndian_four, ← bigEndian_four, ← bigEndian_four,
    ← or_assoc, ← or_assoc, or_assoc (a := _ ∧ _), ← any_priviteIps_between hq, any_priviteIps hq]
  have hto : to4 [a, b, c, d] = some [a, b, c, d] := if_pos rfl
  simp only [Private, hto, Option.some.injEq, exists_eq_left']
  exact or_comm

/-- `172.32.0.0` is just past its range, and `::1` is no IPv4 address. -/
theorem checkIpPrivite_range_edges :
    checkIpPrivite (ipString [172, 31, 255, 255]) = true ∧ checkIpPrivite (ipString [172, 32, 0, 0]) ≠ true ∧
      checkIpPrivite (ascii "::1") = false := by
  refine ⟨(checkIpPrivite_range.1 172 31 255 255).mpr (by unfold PrivateNumber; decide), ?_, ?_⟩
  · rw [Ne, checkIpPrivite_range.1]
    unfold PrivateNumber
    decide
  · refine checkIpPrivite_range.2 _ fun a b c d h => ?_
    have hparse : (parseIP (ascii "::1")).bind to4 = none := by decide +kernel
    rw [h, Option.bind_some, to4_mapped rfl] at hparse
    cases hparse

/-! ## The guard -/

/-- The guard for a host: whatever the name service says and whatever the port is, it refuses the address exactly
if the host has a private address, so that no private address is dialled. -/
def Examines (host : Bytes) : Prop :=
  ∀ (R : Resolver) (port : UInt16),
    (checkAddrPrivite R (joinHostPort host (itoa port.toNat)) = true ↔ ∃ ip ∈ R.lookup host, Private ip) ∧
    ((∃ ip ∈ R.lookup host, Private ip) → establishDial R (joinHostPort host (itoa port.toNat)) = none)

theorem checkAddrPrivite_iff (R : Resolver) (addr : Bytes) :
    checkAddrPrivite R addr = true ↔ ∃ ip ∈ R.lookup (beforeColon addr), Private ip := by
  rw [checkAddrPrivite, List.any_eq_true]
  constructor
  · rintro ⟨ip, hip, hcheck⟩
    exact ⟨ip, hip, (checkIpPrivite_ipString (R.valid _ ip hip)).mp hcheck⟩
  · rintro ⟨ip, hip, hpriv⟩
    exact ⟨ip, hip, (checkIpPrivite_ipString (R.valid _ ip hip)).mpr hpriv⟩

/-- A name service that knows one name and its address. -/
def Resolver.only (name : Bytes) (ip : Bytes) (hip : ip.length = 4) : Resolver where
  lookup host :=
    match parseIP host with
    | some a => [a]
    | none => if host = name then [ip] else []
  valid host a ha := by
    split at ha
    · next b hb => exact .inr (List.mem_singleton.mp ha ▸ length_parseIP hb)
    · split_ifs at ha
      · exact .inl (List.mem_singleton.mp ha ▸ hip)
      · simp at ha
  literal host a ha := by rw [ha]

theorem Resolver.only_self {name ip : Bytes} {hip : ip.length = 4} (h : parseIP name = none) :
    (Resolver.only name ip hip).lookup name = [ip] := by
  simp [Resolver.only, h]

theorem Resolver.only_other {name host ip : Bytes} {hip : ip.length = 4} (h : parseIP host = none)
    (hne : host ≠ name) : (Resolver.only name ip hip).lookup host = [] := by
  simp [Resolver.only, h, hne]

theorem private_ten : Private [10, 0, 0, 1] := ⟨_, rfl, .inr (.inl rfl)⟩

/-- With brackets before it the host is looked up under another name, and nothing ties the addresses of the two
together. -/
theorem not_examines {host : Bytes} (hcolon : colon ∈ host) : ¬ Examines host := by
  intro h
  have hname : parseIP (bracket :: beforeColon host) = none := parseIP_bracket _
  have hne : bracket :: beforeColon host ≠ host := by
    intro heq
    have hmem : colon ∈ bracket :: beforeColon host := by rw [heq]; exact hcolon
    rcases List.mem_cons.mp hmem with hb | hb
    · exact absurd hb (by decide)
    · exact colon_notMem_beforeColon host hb
  have hsame : ∀ R : Resolver,
      (∃ ip ∈ R.lookup (bracket :: beforeColon host), Private ip) ↔ ∃ ip ∈ R.lookup host, Private ip := by
    intro R
    have := (h R 80).1
    rwa [checkAddrPrivite_iff, beforeColon_joinHostPort_of_mem hcolon] at this
  cases hparse : parseIP host with
  | none =>
    -- the name has a private address and what is looked up has none
    have := hsame (.only host [10, 0, 0, 1] rfl)
    rw [Resolver.only_self hparse, Resolver.only_other hname hne] at this
    simpa using this.mpr ⟨_, by simp, private_ten⟩
  | some ip =>
    by_cases hpriv : Private ip
    · have := hsame (.only [] [10, 0, 0, 1] rfl)
      rw [Resolver.literal _ _ _ hparse, Resolver.only_other hname (by simp)] at this
      simpa using this.mpr ⟨ip, by simp, hpriv⟩
    · -- a public literal is refused if what is looked up has a private address
      have := hsame (.only (bracket :: beforeColon host) [10, 0, 0, 1] rfl)
      rw [Resolver.literal _ _ _ hparse, Resolver.only_self hname] at this
      obtain ⟨a, ha, hprivate⟩ := this.mp ⟨_, by simp, private_ten⟩
      exact hpriv (List.mem_singleton.mp ha ▸ hprivate)

/-- The guard examines the host that is dialled exactly if the host has no colon. -/
theorem examines_iff (host : Bytes) : Examines host ↔ colon ∉ host := by
  constructor
  · exact fun h hcolon => not_examines hcolon h
  · intro hcolon R port
    have hcheck : checkAddrPrivite R (joinHostPort host (itoa port.toNat)) = true ↔
        ∃ ip ∈ R.lookup host, Private ip := by
      rw [checkAddrPrivite_iff, beforeColon_joinHostPort hcolon]
    exact ⟨hcheck, fun hpriv => if_pos (hcheck.mpr hpriv)⟩

/-- A request for the domain `::ffff:10.0.0.1` makes the server dial `10.0.0.1`, with a name service that knows
no more than that a literal is its own address. -/
theorem private_literal_dialled :
    ¬ ∀ (t : Dest) (p : UInt16) (R : Resolver) (addr : Bytes),
      parseHeader ⟨[connect 0 t p], true⟩ = .ok addr →
        (checkAddrPrivite R addr = true ↔ ∃ ip ∈ R.lookup t.host, Private ip) ∧
        ((∃ ip ∈ R.lookup t.host, Private ip) → establishDial R addr = none) := by
  intro h
  let t : Dest := .domain (ascii "::ffff:10.0.0.1") (by decide)
  have hparse : parseHeader ⟨[connect 0 t 80], true⟩ = .ok (t.addr 80) := by
    rw [parseHeader_cons (length_connect 0 t 80).2, parseRequest_connect]
  have hpriv : ∃ ip ∈ (Resolver.only [] [10, 0, 0, 1] rfl).lookup t.host, Private ip :=
    ⟨mapped ++ [10, 0, 0, 1], by decide +kernel, [10, 0, 0, 1], rfl, .inr (.inl rfl)⟩
  have hdial : establishDial (Resolver.only [] [10, 0, 0, 1] rfl) (t.addr 80) ≠ none := by decide +kernel
  exact hdial ((h t 80 _ _ hparse).2 hpriv)

end Wssocks.Wss

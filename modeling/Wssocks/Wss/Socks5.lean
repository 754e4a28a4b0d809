import Mathlib.Combinatorics.Enumerative.Composition
import Mathlib.Data.List.SplitLengths
import Wssocks.Net.HostPort

/-!
# The SOCKS5 handshake of the client

`Client.Reply` (`wssocks_client.go`, 44-83) and `Socks5Client` (`proxy_client_socks5.go`, 12-87): the
greeting of the application is read, answered, and the address is taken from its request. Each of the two
messages is what a single `conn.Read` into a zeroed buffer of 1024 bytes returns.

Against it stands RFC 1928: `Greeting.encode` and `connect` are the two messages as an application has to
write them.

Results:

* `parseHeader_only_requests`: what is taken for a request.
* `parseHeader_connect`: the request for an address yields this address and no two addresses are mixed up.
* `reply_segmented`: which ways of cutting the messages into reads leave the address as it is.
-/

namespace Wssocks.Wss

open Wssocks.Lib Wssocks.Net

/-! ## The code -/

/-- What `Reply` fails with: an error of the connection, `io.ErrUnexpectedEOF`, "not a socks protocol" or
"only socks5 proxy". -/
inductive ReplyErr where
  | io | unexpectedEOF | notSocks | onlySocks5
deriving DecidableEq

/-- The constants `ProxyTypeSocks5`, `ProxyTypeHttp` and `ProxyTypeHttps`. -/
inductive ProxyType where
  | socks5 | http | https
deriving DecidableEq

/-- The length of `buffer`. -/
abbrev bufferLen : ℕ := 1024

/-- The connection of the application: what it sends, in the segments that reads find, and whether it can be
written to. -/
structure Conn where
  segments : List Bytes
  writable : Bool

/-- `conn.Read(buffer[:])`: the next segment, as far as the buffer holds it. -/
def Conn.read (conn : Conn) : Except ReplyErr (Bytes × Conn) :=
  match conn.segments with
  | [] => .error .io
  | s :: rest =>
    if s.length ≤ bufferLen then .ok (s, { conn with segments := rest })
    else .ok (s.take bufferLen, { conn with segments := s.drop bufferLen :: rest })

/-- `buffer` after `m` was read into it. -/
def fill (m : Bytes) : Bytes := m ++ List.replicate (bufferLen - m.length) 0

/-- `io.ReadAtLeast` on a reader of `src`, for a slice of `n` bytes. -/
def readAtLeast (src : Bytes) (n : ℕ) : Except ReplyErr Bytes :=
  if src.length < n then .error .unexpectedEOF else .ok (src.take n)

/-- The host in a request, by its address type. Another type leaves `host` empty. -/
def requestHost (buffer : Bytes) : Except ReplyErr Bytes :=
  match buffer.getD 3 0 with
  | 0x01 => (readAtLeast (buffer.drop 4) 4).map ipString
  | 0x04 => (readAtLeast (buffer.drop 4) 16).map ipString
  | 0x03 => readAtLeast (buffer.drop 5) (buffer.getD 4 0).toNat
  | _ => .ok []

/-- `(int(port[0])<<8)|int(port[1])` -/
def portNumber (port : Bytes) : ℕ := (port.getD 0 0).toNat <<< 8 ||| (port.getD 1 0).toNat

/-- What `ParseHeader` makes of the bytes `m` that its read returned. -/
def parseRequest (m : Bytes) : Except ReplyErr Bytes :=
  if m.length < 6 then .error .notSocks
  else do
    let host ← requestHost (fill m)
    let port ← readAtLeast (((fill m).take m.length).drop (m.length - 2)) 2
    return joinHostPort host (itoa (portNumber port))

/-- `Socks5Client.ParseHeader`: the method reply is written, then the request is read. -/
def parseHeader (conn : Conn) : Except ReplyErr Bytes :=
  if conn.writable then do
    let (m, _) ← conn.read
    parseRequest m
  else .error .io

/-- `Socks5Client.Trigger` -/
def trigger (data : Bytes) : Bool := 2 ≤ data.length && data.getD 0 0 = 0x05

/-- What `Reply` returns: the data to send first, the type of proxy and the address. -/
structure Replied where
  firstSendData : Option Bytes
  proxyType : ProxyType
  addr : Bytes
deriving DecidableEq

/-- `Client.Reply` -/
def reply (conn : Conn) : Except ReplyErr Replied := do
  let (m, conn) ← conn.read
  if trigger m then
    let addr ← parseHeader conn
    return { firstSendData := none, proxyType := .socks5, addr := addr }
  else .error .onlySocks5

/-! ## The messages of RFC 1928 -/

/-- The destination of a request. -/
inductive Dest where
  | ipv4 (b : Bytes) (h : b.length = 4)
  | ipv6 (b : Bytes) (h : b.length = 16)
  | domain (d : Bytes) (h : d.length ≤ 255)

/-- `ATYP` and `DST.ADDR` -/
def Dest.encode : Dest → Bytes
  | .ipv4 b _ => 1 :: b
  | .ipv6 b _ => 4 :: b
  | .domain d _ => 3 :: UInt8.ofNat d.length :: d

/-- The host as text. -/
def Dest.host : Dest → Bytes
  | .ipv4 b _ => ipString b
  | .ipv6 b _ => ipString b
  | .domain d _ => d

/-- A port in network order. -/
def portBytes (p : UInt16) : Bytes := [UInt8.ofNat (p.toNat / 256), UInt8.ofNat (p.toNat % 256)]

/-- A `CONNECT` request, with `rsv` in the reserved byte. -/
def connect (rsv : UInt8) (t : Dest) (p : UInt16) : Bytes := 5 :: 1 :: rsv :: t.encode ++ portBytes p

/-- The address that a request asks for. -/
def Dest.addr (t : Dest) (p : UInt16) : Bytes := joinHostPort t.host (itoa p.toNat)

/-- The methods that a greeting offers. -/
structure Greeting where
  methods : Bytes
  pos : 0 < methods.length
  le : methods.length ≤ 255

def Greeting.encode (g : Greeting) : Bytes := 5 :: UInt8.ofNat g.methods.length :: g.methods

/-! ## Requests -/

theorem readAtLeast_append {s t : Bytes} {n : ℕ} (hs : s.length = n) : readAtLeast (s ++ t) n = .ok s := by
  subst hs
  rw [readAtLeast, if_neg (by rw [List.length_append]; omega), List.take_left]

theorem readAtLeast_of_le {s : Bytes} {n : ℕ} (h : n ≤ s.length) : readAtLeast s n = .ok (s.take n) :=
  if_neg (by omega)

theorem length_fill {m : Bytes} (h : m.length ≤ bufferLen) : (fill m).length = bufferLen := by
  rw [fill, List.length_append, List.length_replicate]
  omega

theorem portNumber_pair (a b : UInt8) : portNumber [a, b] = 256 * a.toNat + b.toNat := by
  have hb : b.toNat < 2 ^ 8 := b.toNat_lt
  calc portNumber [a, b] = a.toNat <<< 8 ||| b.toNat := rfl
    _ = a.toNat <<< 8 + b.toNat := (Nat.shiftLeft_add_eq_or_of_lt hb _).symm
    _ = 256 * a.toNat + b.toNat := by rw [Nat.shiftLeft_eq]; omega

theorem toNat_ofNat {n : ℕ} (h : n < 256) : (UInt8.ofNat n).toNat = n := UInt8.toNat_ofNat_of_lt h

theorem portNumber_portBytes (p : UInt16) : portNumber (portBytes p) = p.toNat := by
  have hp : p.toNat < 65536 := p.toNat_lt
  have hhi : (UInt8.ofNat (p.toNat / 256)).toNat = p.toNat / 256 := toNat_ofNat (by omega)
  have hlo : (UInt8.ofNat (p.toNat % 256)).toNat = p.toNat % 256 := toNat_ofNat (by omega)
  rw [portBytes, portNumber_pair, hhi, hlo]
  omega

/-- The buffer is so long that a host can be read from it whatever was received. -/
theorem exists_requestHost {buffer : Bytes} (h : buffer.length = bufferLen) :
    ∃ host, requestHost buffer = .ok host := by
  have hlen : (buffer.getD 4 0).toNat < 256 := (buffer.getD 4 0).toNat_lt
  replace h : buffer.length = 1024 := h
  unfold requestHost
  split
  · rw [readAtLeast_of_le (by rw [List.length_drop]; omega)]
    exact ⟨_, rfl⟩
  · rw [readAtLeast_of_le (by rw [List.length_drop]; omega)]
    exact ⟨_, rfl⟩
  · rw [readAtLeast_of_le (by rw [List.length_drop]; omega)]
    exact ⟨_, rfl⟩
  · exact ⟨_, rfl⟩

/-- Six bytes are enough: the host is read from the buffer, the port is the last two bytes received. -/
theorem parseRequest_eq {m : Bytes} (h6 : 6 ≤ m.length) (hm : m.length ≤ bufferLen) :
    ∃ host, requestHost (fill m) = .ok host ∧
      parseRequest m = .ok (joinHostPort host (itoa (portNumber (m.drop (m.length - 2))))) := by
  obtain ⟨host, hhost⟩ := exists_requestHost (length_fill hm)
  have hport : readAtLeast (((fill m).take m.length).drop (m.length - 2)) 2 =
      .ok (m.drop (m.length - 2)) := by
    have hlen : (m.drop (m.length - 2)).length = 2 := by
      rw [List.length_drop]
      omega
    rw [fill, List.take_left, readAtLeast_of_le (by omega), List.take_of_length_le (by omega)]
  refine ⟨host, hhost, ?_⟩
  rw [parseRequest, if_neg (by omega), hhost, hport]
  rfl

theorem parseRequest_short {m : Bytes} (h : m.length < 6) : parseRequest m = .error .notSocks :=
  if_pos h

theorem length_connect (rsv : UInt8) (t : Dest) (p : UInt16) :
    6 ≤ (connect rsv t p).length ∧ (connect rsv t p).length ≤ bufferLen := by
  cases t <;> simp [connect, Dest.encode, portBytes, bufferLen] <;> omega

theorem requestHost_connect (rsv : UInt8) (t : Dest) (p : UInt16) (z : Bytes) :
    requestHost (connect rsv t p ++ z) = .ok t.host := by
  cases t with
  | ipv4 b h =>
    change (readAtLeast (b ++ portBytes p ++ z) 4).map ipString = _
    rw [List.append_assoc, readAtLeast_append h]
    rfl
  | ipv6 b h =>
    change (readAtLeast (b ++ portBytes p ++ z) 16).map ipString = _
    rw [List.append_assoc, readAtLeast_append h]
    rfl
  | domain d h =>
    change readAtLeast (d ++ portBytes p ++ z) (UInt8.ofNat d.length).toNat = _
    have hlen : (UInt8.ofNat d.length).toNat = d.length := toNat_ofNat (by omega)
    rw [List.append_assoc, readAtLeast_append hlen.symm]
    rfl

theorem drop_connect (rsv : UInt8) (t : Dest) (p : UInt16) :
    (connect rsv t p).drop ((connect rsv t p).length - 2) = portBytes p := by
  rw [connect, List.length_append, show (portBytes p).length = 2 from rfl, Nat.add_sub_cancel,
    List.drop_left]

/-- A request yields the address it asks for. -/
theorem parseRequest_connect (rsv : UInt8) (t : Dest) (p : UInt16) :
    parseRequest (connect rsv t p) = .ok (t.addr p) := by
  obtain ⟨h6, hm⟩ := length_connect rsv t p
  obtain ⟨host, hhost, hparse⟩ := parseRequest_eq h6 hm
  rw [fill, requestHost_connect] at hhost
  rw [hparse, ← Except.ok.inj hhost, drop_connect, portNumber_portBytes, Dest.addr]

/-- Addresses of hosts and ports determine the host and the port. -/
theorem joinHostPort_itoa_inj {host host' : Bytes} {n n' : ℕ} (hn : n < 65536) (hn' : n' < 65536)
    (h : joinHostPort host (itoa n) = joinHostPort host' (itoa n')) : host = host' ∧ n = n' := by
  obtain ⟨hhost, hport⟩ := joinHostPort_inj (notMem_itoa n).1 (notMem_itoa n').1 h
  exact ⟨hhost, itoa_inj (by omega) (by omega) hport⟩

theorem Conn.read_cons {m : Bytes} (h : m.length ≤ bufferLen) (rest : List Bytes) (w : Bool) :
    Conn.read ⟨m :: rest, w⟩ = .ok (m, ⟨rest, w⟩) :=
  if_pos h

theorem parseHeader_cons {m : Bytes} (h : m.length ≤ bufferLen) (rest : List Bytes) :
    parseHeader ⟨m :: rest, true⟩ = parseRequest m := by
  rw [parseHeader, if_pos rfl, Conn.read_cons h]
  rfl

/-! ## What is accepted -/

/-- Whatever is shorter than six bytes is refused and all that is longer is accepted, so what is accepted is a
request only for what was a request in the first place. -/
theorem parseHeader_only_requests (m : Bytes) (rest : List Bytes) (hm : 1 ≤ m.length ∧ m.length ≤ bufferLen) :
    (∀ a, parseHeader ⟨m :: rest, true⟩ = .ok a → ∃ rsv t p, m = connect rsv t p ∧ a = t.addr p) ↔
      m.length < 6 ∨ ∃ rsv t p, m = connect rsv t p := by
  rw [parseHeader_cons hm.2]
  constructor
  · intro h
    by_cases h6 : m.length < 6
    · exact .inl h6
    · obtain ⟨host, -, hparse⟩ := parseRequest_eq (not_lt.mp h6) hm.2
      obtain ⟨rsv, t, p, hconnect, -⟩ := h _ hparse
      exact .inr ⟨rsv, t, p, hconnect⟩
  · rintro (h6 | ⟨rsv, t, p, rfl⟩) a ha
    · rw [parseRequest_short h6] at ha
      cases ha
    · rw [parseRequest_connect] at ha
      exact ⟨rsv, t, p, rfl, (Except.ok.inj ha).symm⟩

/-- A request for `10.0.0.1:80` is accepted, as this request. -/
theorem parseHeader_only_requests_ipv4 :
    parseHeader ⟨[[5, 1, 0, 1, 10, 0, 0, 1, 0, 80]], true⟩ = .ok (ascii "10.0.0.1:80") ∧
      ∃ rsv t p, [5, 1, 0, 1, 10, 0, 0, 1, 0, 80] = connect rsv t p ∧ ascii "10.0.0.1:80" = t.addr p := by
  have hparse : parseHeader ⟨[[5, 1, 0, 1, 10, 0, 0, 1, 0, 80]], true⟩ = .ok (ascii "10.0.0.1:80") := by
    decide +kernel
  exact ⟨hparse, (parseHeader_only_requests [5, 1, 0, 1, 10, 0, 0, 1, 0, 80] [] (by decide)).mpr
    (.inr ⟨0, .ipv4 [10, 0, 0, 1] rfl, 80, rfl⟩) _ hparse⟩

/-- Six zero bytes are accepted, for the address `:0`. -/
theorem parseHeader_accepts_zeros :
    ¬ ∀ (m : Bytes) (rest : List Bytes), 1 ≤ m.length → m.length ≤ bufferLen →
      ∀ a, parseHeader ⟨m :: rest, true⟩ = .ok a → ∃ rsv t p, m = connect rsv t p ∧ a = t.addr p := by
  intro h
  have hparse : parseHeader ⟨[[0, 0, 0, 0, 0, 0]], true⟩ = .ok (ascii ":0") := rfl
  obtain ⟨rsv, t, p, hconnect, -⟩ := h [0, 0, 0, 0, 0, 0] [] (by decide) (by decide) _ hparse
  simp [connect] at hconnect

/-- Every request yields the address it asks for, and different hosts or ports yield different addresses. -/
theorem parseHeader_connect (rest : List Bytes) :
    (∀ (t : Dest) (p : UInt16),
      parseHeader ⟨connect 0 t p :: rest, true⟩ = .ok (joinHostPort t.host (itoa p.toNat))) ∧
    ∀ (t t' : Dest) (p p' : UInt16),
      parseHeader ⟨connect 0 t p :: rest, true⟩ = parseHeader ⟨connect 0 t' p' :: rest, true⟩ ↔
        t.host = t'.host ∧ p = p' := by
  have hparse : ∀ (t : Dest) (p : UInt16), parseHeader ⟨connect 0 t p :: rest, true⟩ = .ok (t.addr p) := by
    intro t p
    rw [parseHeader_cons (length_connect 0 t p).2, parseRequest_connect]
  refine ⟨hparse, fun t t' p p' => ?_⟩
  rw [hparse, hparse, Except.ok.injEq]
  constructor
  · intro h
    obtain ⟨hhost, hport⟩ := joinHostPort_itoa_inj p.toNat_lt p'.toNat_lt h
    exact ⟨hhost, UInt16.toNat_inj.mp hport⟩
  · rintro ⟨hhost, rfl⟩
    rw [Dest.addr, Dest.addr, hhost]

/-! ## Segmentation -/

/-- The two messages of a handshake, cut into reads. -/
def segmented (g : Greeting) (t : Dest) (p : UInt16) (c d : List ℕ) : Conn :=
  ⟨c.splitLengths g.encode ++ d.splitLengths (connect 0 t p), true⟩

/-- The two messages of a handshake, each in one read. -/
def whole (g : Greeting) (t : Dest) (p : UInt16) : Conn := ⟨[g.encode, connect 0 t p], true⟩

theorem Greeting.length_encode (g : Greeting) : g.encode.length = g.methods.length + 2 := rfl

theorem Greeting.length_encode_le (g : Greeting) : g.encode.length ≤ bufferLen := by
  have hle := g.le
  rw [g.length_encode]
  change g.methods.length + 2 ≤ 1024
  omega

theorem trigger_encode (g : Greeting) : trigger g.encode = true := by
  simp [trigger, Greeting.encode]

/-- A first read that is recognised hands the connection on. -/
theorem reply_cons {m : Bytes} {rest : List Bytes} (hm : m.length ≤ bufferLen) (h : trigger m = true) :
    reply ⟨m :: rest, true⟩ =
      (parseHeader ⟨rest, true⟩).map fun addr => ⟨none, .socks5, addr⟩ := by
  rw [reply, Conn.read_cons hm]
  change (if trigger m = true then _ else _) = _
  rw [if_pos h]
  cases parseHeader ⟨rest, true⟩ <;> rfl

theorem reply_not_trigger {m : Bytes} {rest : List Bytes} (hm : m.length ≤ bufferLen) (h : trigger m = false) :
    reply ⟨m :: rest, true⟩ = .error .onlySocks5 := by
  rw [reply, Conn.read_cons hm]
  change (if trigger m = true then _ else _) = _
  rw [if_neg (by simp [h])]

/-- What is read as the request alone decides about the address. -/
theorem reply_cons_cons {m r : Bytes} {rest : List Bytes} (hm : m.length ≤ bufferLen)
    (hr : r.length ≤ bufferLen) (h : trigger m = true) :
    reply ⟨m :: r :: rest, true⟩ = (parseRequest r).map fun addr => ⟨none, .socks5, addr⟩ := by
  rw [reply_cons hm h, parseHeader_cons hr]

theorem reply_ne_of_parseRequest {m r a : Bytes} {rest : List Bytes} (hm : m.length ≤ bufferLen)
    (hr : r.length ≤ bufferLen) (h : trigger m = true) (hne : parseRequest r ≠ .ok a) :
    reply ⟨m :: r :: rest, true⟩ ≠ .ok ⟨none, .socks5, a⟩ := by
  rw [reply_cons_cons hm hr h]
  cases hparse : parseRequest r with
  | error e => simp [Except.map]
  | ok addr =>
    rw [hparse] at hne
    simpa [Except.map] using hne

theorem reply_whole (g : Greeting) (t : Dest) (p : UInt16) :
    reply (whole g t p) = .ok ⟨none, .socks5, t.addr p⟩ := by
  rw [whole, reply_cons_cons g.length_encode_le (length_connect 0 t p).2 (trigger_encode g), parseRequest_connect]
  rfl

/-- A read of the request that yields the address has its port at the end. -/
theorem port_of_parseRequest {r : Bytes} {t : Dest} {p : UInt16} (hr : r.length ≤ bufferLen)
    (h : parseRequest r = .ok (t.addr p)) :
    6 ≤ r.length ∧ portNumber (r.drop (r.length - 2)) = p.toNat := by
  by_cases h6 : r.length < 6
  · rw [parseRequest_short h6] at h
    cases h
  · obtain ⟨host, -, hparse⟩ := parseRequest_eq (not_lt.mp h6) hr
    rw [h, Except.ok.injEq] at hparse
    have hpair : ∃ a b, r.drop (r.length - 2) = [a, b] := by
      apply List.length_eq_two.mp
      rw [List.length_drop]
      omega
    obtain ⟨a, b, hab⟩ := hpair
    have ha : a.toNat < 256 := a.toNat_lt
    have hb : b.toNat < 256 := b.toNat_lt
    have hlt : portNumber (r.drop (r.length - 2)) < 65536 := by
      rw [hab, portNumber_pair]
      omega
    exact ⟨not_lt.mp h6, (joinHostPort_itoa_inj p.toNat_lt hlt hparse).2.symm⟩

/-! ### A handshake that no cut leaves as it is -/

/-- A greeting with the method `0` only. -/
def plain (n : ℕ) (hn : 0 < n ∧ n ≤ 255) : Greeting where
  methods := List.replicate n 0
  pos := by simpa using hn.1
  le := by simpa using hn.2

/-- A domain that consists of its own length byte. -/
def probe (n : ℕ) (hn : n ≤ 255) : Dest := .domain (List.replicate n (UInt8.ofNat n)) (by simpa using hn)

/-- A port whose first byte is not this length byte. -/
def probePort (n : ℕ) : UInt16 := UInt16.ofNat (256 * ((n + 1) % 256) + 1)

theorem toNat_probePort (n : ℕ) : (probePort n).toNat = 256 * ((n + 1) % 256) + 1 := by
  have : 256 * ((n + 1) % 256) + 1 < 65536 := by omega
  exact UInt16.toNat_ofNat_of_lt this

theorem connect_probe {n : ℕ} (hn : n ≤ 255) (p : UInt16) :
    connect 0 (probe n hn) p = [5, 1, 0, 3] ++ (List.replicate (n + 1) (UInt8.ofNat n) ++ portBytes p) := by
  simp [connect, probe, Dest.encode, List.replicate_succ]

/-- A beginning of the request does not end with its port. -/
theorem parseRequest_take_probe {n j : ℕ} (hn : n ≤ 255) (hj : j < n + 7) :
    parseRequest ((connect 0 (probe n hn) (probePort n)).take j) ≠ .ok ((probe n hn).addr (probePort n)) := by
  intro h
  have hlen : (connect 0 (probe n hn) (probePort n)).length = n + 7 := by
    rw [connect_probe]
    simp [portBytes]
  have hread : ((connect 0 (probe n hn) (probePort n)).take j).length = j := by
    rw [List.length_take]
    omega
  obtain ⟨h6, hport⟩ := port_of_parseRequest (by rw [hread]; change j ≤ 1024; omega) h
  rw [hread] at h6 hport
  -- the byte before the last is still one of the domain, or its length
  have hlast : ∃ b, ((connect 0 (probe n hn) (probePort n)).take j).drop (j - 2) = [UInt8.ofNat n, b] := by
    obtain ⟨i, rfl⟩ : ∃ i, j = 6 + i := ⟨j - 6, by omega⟩
    obtain ⟨r, hr⟩ : ∃ r, n + 1 = i + (r + 1) := ⟨n - i, by omega⟩
    have hdrop : (connect 0 (probe n hn) (probePort n)).drop (6 + i - 2) =
        UInt8.ofNat n :: (List.replicate r (UInt8.ofNat n) ++ portBytes (probePort n)) := by
      rw [connect_probe, show 6 + i - 2 = [5, 1, 0, (3 : UInt8)].length + i by simp; omega,
        List.drop_length_add_append, hr, List.replicate_add, List.append_assoc,
        List.drop_left' (List.length_replicate ..)]
      rfl
    rw [List.drop_take, hdrop, show 6 + i - (6 + i - 2) = 2 by omega]
    cases r with
    | zero => exact ⟨_, rfl⟩
    | succ r => exact ⟨_, rfl⟩
  obtain ⟨b, hb⟩ := hlast
  have hlt : b.toNat < 256 := b.toNat_lt
  rw [hb, portNumber_pair, toNat_ofNat (by omega), toNat_probePort] at hport
  omega

/-- Methods that are read as a request do not yield the address. -/
theorem parseRequest_zeros {n j : ℕ} (hn : n ≤ 255) (hj : j ≤ 255) :
    parseRequest (List.replicate j 0) ≠ .ok ((probe n hn).addr (probePort n)) := by
  intro h
  obtain ⟨h6, hport⟩ := port_of_parseRequest
    (by rw [List.length_replicate]; change j ≤ 1024; omega) h
  rw [List.length_replicate] at h6 hport
  rw [List.drop_replicate, show j - (j - 2) = 2 by omega, toNat_probePort] at hport
  have : portNumber (List.replicate 2 0) = 0 := rfl
  omega

/-- A greeting that is cut: its first piece is not recognised, or the second one is taken for the request. -/
theorem reply_cut_greeting {n a b : ℕ} {rest : List Bytes} {cs : List ℕ} {g : Greeting} (hn : n ≤ 255)
    (hg : ∀ x ∈ g.methods, x = 0) (ha : 0 < a) (hcut : a + b ≤ g.encode.length) :
    reply ⟨(a :: b :: cs).splitLengths g.encode ++ rest, true⟩ ≠
      .ok ⟨none, .socks5, (probe n hn).addr (probePort n)⟩ := by
  have hlen := g.length_encode
  have hle := g.le
  have hread : ∀ m : Bytes, m.length ≤ 1024 → m.length ≤ bufferLen := fun _ h => h
  rw [List.splitLengths_cons, List.splitLengths_cons, List.cons_append, List.cons_append]
  have hfst : (g.encode.take a).length = a := by
    rw [List.length_take]
    omega
  have hsnd : ((g.encode.drop a).take b).length = b := by
    rw [List.length_take, List.length_drop]
    omega
  by_cases ha2 : a < 2
  · have htrigger : trigger (g.encode.take a) = false := by
      simp [trigger, hfst, show ¬ 2 ≤ a by omega]
    rw [reply_not_trigger (hread _ (by omega)) htrigger]
    simp
  · obtain ⟨i, rfl⟩ : ∃ i, a = i + 2 := ⟨a - 2, by omega⟩
    have htrigger : trigger (g.encode.take (i + 2)) = true := by
      simp [trigger, Greeting.encode]
    have hzeros : (g.encode.drop (i + 2)).take b = List.replicate b 0 := by
      refine List.eq_replicate_iff.mpr ⟨hsnd, fun x hx => hg x ?_⟩
      have hx' := List.mem_of_mem_take hx
      rw [Greeting.encode, List.drop_succ_cons, List.drop_succ_cons] at hx'
      exact List.mem_of_mem_drop hx'
    refine reply_ne_of_parseRequest (hread _ (by omega)) (hread _ (by omega)) htrigger ?_
    rw [hzeros]
    exact parseRequest_zeros hn (show b ≤ 255 by omega)

/-- A request that is cut: the first piece is taken for the request. -/
theorem reply_cut_request {n j : ℕ} {rest : List Bytes} {g : Greeting} (hn : n ≤ 255) (hj : j < n + 7) :
    reply ⟨g.encode :: (connect 0 (probe n hn) (probePort n)).take j :: rest, true⟩ ≠
      .ok ⟨none, .socks5, (probe n hn).addr (probePort n)⟩ := by
  have hr : ((connect 0 (probe n hn) (probePort n)).take j).length ≤ 1024 := by
    rw [List.length_take]
    omega
  exact reply_ne_of_parseRequest g.length_encode_le hr (trigger_encode g) (parseRequest_take_probe hn hj)

theorem splitLengths_singleton {m : Bytes} {n : ℕ} (h : m.length = n) : [n].splitLengths m = [m] := by
  subst h
  simp

/-- A cut leaves the address of all handshakes as it is exactly if it is none: each message arrives in one read.
The lengths are all that greetings and requests can have. -/
theorem reply_segmented {n k : ℕ} (hn : 3 ≤ n ∧ n ≤ 257) (hk : 7 ≤ k ∧ k ≤ 262) (c : Composition n)
    (d : Composition k) :
    (∀ g t p, g.encode.length = n → (connect 0 t p).length = k →
      reply (segmented g t p c.blocks d.blocks) = reply (whole g t p)) ↔
    c.length = 1 ∧ d.length = 1 := by
  have hcsum := c.blocks_sum
  have hdsum := d.blocks_sum
  constructor
  · intro h
    obtain ⟨n, rfl⟩ : ∃ n', n = n' + 2 := ⟨n - 2, by omega⟩
    obtain ⟨k, rfl⟩ : ∃ k', k = k' + 7 := ⟨k - 7, by omega⟩
    have hmethods : 0 < n ∧ n ≤ 255 := by omega
    have hdomain : k ≤ 255 := by omega
    have hglen : (plain n hmethods).encode.length = n + 2 := by
      rw [Greeting.length_encode, plain, List.length_replicate]
    have htlen : (connect 0 (probe k hdomain) (probePort k)).length = k + 7 := by
      rw [connect_probe]
      simp [portBytes]
    have hsame := h (plain n hmethods) (probe k hdomain) (probePort k) hglen htlen
    rw [reply_whole, segmented] at hsame
    have hc : c.blocks = [n + 2] := by
      match hblocks : c.blocks with
      | [] =>
        rw [hblocks, List.sum_nil] at hcsum
        omega
      | [a] =>
        rw [hblocks, List.sum_singleton] at hcsum
        rw [hcsum]
      | a :: b :: cs =>
        have ha : 0 < a := c.blocks_pos (by rw [hblocks]; simp)
        rw [hblocks, List.sum_cons, List.sum_cons] at hcsum
        rw [hblocks] at hsame
        refine absurd hsame (reply_cut_greeting hdomain ?_ ha (by omega))
        intro x hx
        exact List.eq_of_mem_replicate hx
    refine ⟨congrArg List.length hc, ?_⟩
    rw [hc, splitLengths_singleton hglen] at hsame
    match hblocks : d.blocks with
    | [] =>
      rw [hblocks, List.sum_nil] at hdsum
      omega
    | [a] => exact congrArg List.length hblocks
    | a :: b :: ds =>
      have hb : 0 < b := d.blocks_pos (by rw [hblocks]; simp)
      rw [hblocks, List.sum_cons, List.sum_cons] at hdsum
      rw [hblocks, List.splitLengths_cons] at hsame
      exact absurd hsame (reply_cut_request hdomain (by omega))
  · rintro ⟨hc, hd⟩ g t p hg ht
    have hone : ∀ {i : ℕ} (e : Composition i), e.length = 1 → e.blocks = [i] := by
      intro i e he
      obtain ⟨a, ha⟩ := List.length_eq_one_iff.mp he
      have hsum := e.blocks_sum
      rw [ha, List.sum_singleton] at hsum
      rw [ha, hsum]
    rw [segmented, hone c hc, hone d hd, splitLengths_singleton hg, splitLengths_singleton ht]
    rfl

/-- A request for `1.2.3.4:80` in one read after a greeting in one read. -/
theorem reply_segmented_ipv4 :
    reply (segmented ⟨[0], by decide, by decide⟩ (.ipv4 [1, 2, 3, 4] rfl) 80 [3] [10]) =
      reply (whole ⟨[0], by decide, by decide⟩ (.ipv4 [1, 2, 3, 4] rfl) 80) :=
  (reply_segmented (by decide) (by decide) (Composition.single 3 (by decide))
    (Composition.single 10 (by decide))).mpr ⟨rfl, rfl⟩ _ _ _ rfl rfl

/-- A request for `1.2.3.4:80` of which the first eight bytes are read is taken for one for `1.2.3.4:772`. -/
theorem reply_depends_on_segments :
    ¬ ∀ (g : Greeting) (t : Dest) (p : UInt16) (c : Composition g.encode.length)
      (d : Composition (connect 0 t p).length),
      reply (segmented g t p c.blocks d.blocks) = reply (whole g t p) := by
  intro h
  have hsame := h ⟨[0], by decide, by decide⟩ (.ipv4 [1, 2, 3, 4] rfl) 80 ⟨[3], by decide, by decide⟩
    ⟨[8, 2], by decide, by decide⟩
  revert hsame
  decide +kernel

end Wssocks.Wss

import Wssocks.Wss.Privite
import Wssocks.Wss.Wire

/-!
# The way of an address (wss/wssocks_client.go:108-147, wss/proxy_server.go:93-109, 171-191)

An address comes with the request of the application, is looked up by the client, and is visited by
the client itself or put into an `est` message. The server reads it from the message, looks it up
again and dials it. The two may know different name services.

Results:

* `request_routed`: who dials what for a host name, in terms of the two name services.
* `address_kept`: the server is told the address of the request exactly if its host is UTF-8.
-/

namespace Wssocks.Wss

open Wssocks.Lib Wssocks.Net

/-! ## The code -/

section Code

variable {KSUID : Type} [Inhabited KSUID] (K : KsuidLib KSUID) (L : WebsocketLib)

/-- What the goroutine of an accepted connection does with the address: `localVisit` dials it, or `transData` sends a
    frame. -/
inductive Handled where
  | visit (addr : Bytes)
  | frame (f : Frame)
  deriving DecidableEq

/-- The goroutine of an accepted connection (wss/wssocks_client.go:113-147), for a session with the lanes `sorted`. -/
def handle (R : Resolver) (id : KSUID) (sorted : List KSUID) (conn : Conn) : Except ReplyErr Handled := do
  let r ← reply conn
  if checkAddrPrivite R r.addr then return .visit r.addr
  else return .frame (establish K L id r.firstSendData r.addr sorted)

/-- The address in an `est` message (wss/proxy_server.go:93-109). -/
def Incoming.addr? : Incoming KSUID → Option Bytes
  | .est _ addr _ _ => some addr
  | _ => none

/-- What becomes of a request: the client or the server dials an address, or the server refuses to. -/
inductive Route where
  | visit (addr : Bytes)
  | dial (addr : Bytes)
  | refused
  /-- The server cannot read the message. -/
  | lost
  deriving DecidableEq

/-- A request, from the accepted connection to the dial. The client uses the name service `Rc`, the server `Rs`. -/
def route (Rc Rs : Resolver) (id : KSUID) (sorted : List KSUID) (conn : Conn) : Except ReplyErr Route :=
  (handle K L Rc id sorted conn).map fun
    | .visit addr => .visit addr
    | .frame f =>
      match (if f.isText then (readMessage K f.data).toOption else none).bind Incoming.addr? with
      | some addr => (establishDial Rs addr).elim .refused .dial
      | none => .lost

end Code

/-! ## The address on the wire -/

section Text

variable {host s t : Bytes} {b : UInt8}

/-- Digits, dots and colons are characters. -/
theorem digitByte_lt : ∀ d < 16, (digitByte d).toNat < 128 := by decide

theorem lt_of_mem_numeral {base n : ℕ} (hbase : 1 < base ∧ base ≤ 16) (hb : b ∈ numeral base n) : b.toNat < 128 := by
  obtain ⟨d, hd, rfl⟩ := exists_digit_of_mem hbase.1 hb
  exact digitByte_lt d (by omega)

theorem clean_itoa (n : ℕ) : clean (itoa n) = itoa n :=
  clean_of_lt fun _ hb => lt_of_mem_numeral (by decide) hb

/-- What is put between texts, or is in one of them. -/
theorem mem_intercalate {sep : Bytes} {xs : List Bytes} (h : b ∈ sep.intercalate xs) : b ∈ sep ∨ ∃ x ∈ xs, b ∈ x := by
  rw [List.intercalate, List.mem_flatten] at h
  obtain ⟨x, hx, hb⟩ := h
  induction xs with
  | nil => simp at hx
  | cons y ys ih =>
    cases ys with
    | nil =>
      rw [List.intersperse_singleton, List.mem_singleton] at hx
      exact .inr ⟨y, List.mem_cons_self, hx ▸ hb⟩
    | cons z zs =>
      rw [List.intersperse_cons_cons, List.mem_cons, List.mem_cons] at hx
      rcases hx with rfl | rfl | hx
      · exact .inr ⟨x, List.mem_cons_self, hb⟩
      · exact .inl hb
      · rcases ih hx with h | ⟨w, hw, hbw⟩
        · exact .inl h
        · exact .inr ⟨w, List.mem_cons_of_mem _ hw, hbw⟩

theorem lt_of_mem_coloned {gs : List ℕ} (hb : b ∈ coloned gs) : b.toNat < 128 := by
  rcases mem_intercalate hb with h | ⟨x, hx, h⟩
  · rw [List.mem_singleton.mp h]
    decide
  · obtain ⟨g, -, rfl⟩ := List.mem_map.mp hx
    exact lt_of_mem_numeral (by decide) h

/-- The text of an address is UTF-8. -/
theorem clean_ipString {ip : Bytes} (hip : ip.length = 4 ∨ ip.length = 16) : clean (ipString ip) = ipString ip := by
  refine clean_of_lt fun b hb => ?_
  have hne : ip ≠ [] := by
    rintro rfl
    simp at hip
  rw [ipString, if_neg hne] at hb
  cases hto : to4 ip with
  | some q =>
    rw [hto] at hb
    rcases mem_intercalate hb with h | ⟨x, hx, h⟩
    · rw [List.mem_singleton.mp h]
      decide
    · obtain ⟨c, -, rfl⟩ := List.mem_map.mp hx
      exact lt_of_mem_numeral (by decide) h
  | none =>
    have hlen : ip.length = 16 := by
      rcases hip with h4 | h16
      · simp [to4, h4] at hto
      · exact h16
    simp only [hto, hlen, ne_eq, not_true_eq_false, if_false, v6String] at hb
    split at hb
    · exact lt_of_mem_coloned hb
    · rw [List.mem_append, List.mem_cons, List.mem_cons] at hb
      rcases hb with hb | rfl | rfl | hb
      · exact lt_of_mem_coloned hb
      · decide
      · decide
      · exact lt_of_mem_coloned hb

/-- What stands before a byte below 128 and a text is a text if the whole is one. -/
theorem clean_before_byte (hb : b.toNat < 128) (ht : clean t = t) :
    clean (s ++ b :: t) = s ++ b :: t ↔ clean s = s := by
  rw [clean_append_byte hb, ht]
  exact List.append_left_inj _

theorem clean_cons (hb : b.toNat < 128) : clean (b :: t) = b :: t ↔ clean t = t := by
  have hnil : clean [] = [] := clean_utf8 []
  have h := clean_append_byte hb [] t
  rw [List.nil_append, hnil, List.nil_append] at h
  rw [h, List.cons_inj_right]

/-- An address is UTF-8 exactly if its host is. -/
theorem clean_joinHostPort (host : Bytes) (n : ℕ) :
    clean (joinHostPort host (itoa n)) = joinHostPort host (itoa n) ↔ clean host = host := by
  have hcolon : colon.toNat < 128 := by decide
  have hport : clean (colon :: itoa n) = colon :: itoa n := (clean_cons hcolon).mpr (clean_itoa n)
  unfold joinHostPort
  split_ifs
  · rw [List.cons_append, clean_cons (by decide), clean_before_byte (by decide) hport]
  · rw [clean_before_byte hcolon (clean_itoa n)]

end Text

/-! ## Results -/

variable {KSUID : Type} [Inhabited KSUID] {K : KsuidLib KSUID} {L : WebsocketLib} {Rc Rs : Resolver} {g : Greeting}
  {t : Dest} {p : UInt16} {id : KSUID} {sorted : List KSUID}

/-- What the server reads from the frame of an address. -/
theorem addr?_establish (addr : Bytes) :
    (readMessage K (establish K L id none addr sorted).data).toOption.bind Incoming.addr? = some (clean addr) := by
  rw [readMessage_establish]
  rfl

omit [Inhabited KSUID] in
theorem handle_whole (g : Greeting) (t : Dest) (p : UInt16) :
    handle K L Rc id sorted (whole g t p) = .ok (if checkAddrPrivite Rc (t.addr p) then .visit (t.addr p)
      else .frame (establish K L id none (t.addr p) sorted)) := by
  rw [handle, reply_whole]
  show (if _ then _ else _) = _
  split_ifs <;> rfl

theorem clean_addr_iff (t : Dest) (p : UInt16) : clean (t.addr p) = t.addr p ↔ ∃ cs, t.host = utf8 cs := by
  rw [Dest.addr, clean_joinHostPort, clean_eq_self_iff]

/-- The server is told the address of the request exactly if its host is UTF-8; the host of a request for an IP address
    always is. Every other byte of a domain comes as U+FFFD. -/
theorem address_kept (K : KsuidLib KSUID) (L : WebsocketLib) (t : Dest) (p : UInt16) (id : KSUID)
    (sorted : List KSUID) :
    ((readMessage K (establish K L id none (t.addr p) sorted).data).toOption.bind Incoming.addr? = some (t.addr p) ↔
      ∃ cs, t.host = utf8 cs) ∧ ((∀ d h, t ≠ .domain d h) → ∃ cs, t.host = utf8 cs) := by
  refine ⟨?_, fun hdomain => ?_⟩
  · rw [addr?_establish, Option.some.injEq, clean_addr_iff]
  · rw [← clean_eq_self_iff]
    cases t with
    | ipv4 b h => exact clean_ipString (.inl h)
    | ipv6 b h => exact clean_ipString (.inr h)
    | domain d h => exact absurd rfl (hdomain d h)

/-- A request for a name in UTF-8, without a colon, that arrives in two reads: the client visits the address itself
    exactly if its name service has a private address for the name; otherwise the server dials the very address of the
    request, unless its own name service has a private address for the name. -/
theorem request_routed (K : KsuidLib KSUID) (L : WebsocketLib) (Rc Rs : Resolver) (id : KSUID)
    (sorted : List KSUID) (g : Greeting) (p : UInt16) (hutf8 : ∃ cs, t.host = utf8 cs) (hcolon : colon ∉ t.host) :
    ∃ r, route K L Rc Rs id sorted (whole g t p) = .ok r ∧
      (r = .visit (t.addr p) ↔ ∃ ip ∈ Rc.lookup t.host, Private ip) ∧
      (r = .refused ↔ (¬ ∃ ip ∈ Rc.lookup t.host, Private ip) ∧ ∃ ip ∈ Rs.lookup t.host, Private ip) ∧
      (r = .dial (t.addr p) ↔ (¬ ∃ ip ∈ Rc.lookup t.host, Private ip) ∧ ¬ ∃ ip ∈ Rs.lookup t.host, Private ip) := by
  have hkept := (clean_addr_iff t p).mpr hutf8
  have hcheck : ∀ R : Resolver, checkAddrPrivite R (t.addr p) = true ↔ ∃ ip ∈ R.lookup t.host, Private ip := by
    intro R
    rw [checkAddrPrivite_iff, Dest.addr, beforeColon_joinHostPort hcolon]
  rw [← hcheck, ← hcheck, route, handle_whole]
  by_cases hc : checkAddrPrivite Rc (t.addr p) = true
  · refine ⟨.visit (t.addr p), by rw [if_pos hc]; rfl, ?_⟩
    simp [hc]
  · refine ⟨(establishDial Rs (t.addr p)).elim .refused .dial, ?_, ?_⟩
    · rw [if_neg hc]
      have htext : (establish K L id none (t.addr p) sorted).isText = true := L.isText_write _
      simp only [Except.map, htext, if_true, addr?_establish, hkept]
    · by_cases hs : checkAddrPrivite Rs (t.addr p) = true <;> simp [establishDial, hc, hs]

/-- The name service of the client knows a public address for `a.b`, that of the server a private one. -/
theorem request_routed_refused :
    route .digit .newline (.only (ascii "a.b") [8, 8, 8, 8] rfl) (.only (ascii "a.b") [10, 0, 0, 1] rfl) 1 [1]
      (whole (plain 1 (by decide)) (.domain (ascii "a.b") (by decide)) 80) = .ok .refused := by
  have hname : parseIP (ascii "a.b") = none := by decide +kernel
  obtain ⟨r, hr, -, href, -⟩ := request_routed .digit .newline (.only (ascii "a.b") [8, 8, 8, 8] rfl)
    (.only (ascii "a.b") [10, 0, 0, 1] rfl) 1 [1] (plain 1 (by decide)) 80 (t := .domain (ascii "a.b") (by decide))
    ⟨"a.b".toList, by decide +kernel⟩ (by decide +kernel)
  rw [hr, href.mpr ⟨?_, ?_⟩]
  · show ¬ ∃ ip ∈ (Resolver.only (ascii "a.b") [8, 8, 8, 8] rfl).lookup (ascii "a.b"), Private ip
    rw [Resolver.only_self hname]
    rintro ⟨ip, hip, hpriv⟩
    rw [List.mem_singleton.mp hip] at hpriv
    obtain ⟨q, hq, hpriv⟩ := hpriv
    cases hq
    revert hpriv
    unfold InNet
    decide
  · exact ⟨_, by rw [show Dest.host _ = ascii "a.b" from rfl, Resolver.only_self hname]; exact List.mem_singleton_self _,
      private_ten⟩

end Wssocks.Wss

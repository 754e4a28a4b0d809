import Wssocks.Lib.Lts
import Wssocks.Pipe.CopyBuffer
import Wssocks.Pipe.Stream

/-!
# Connections that the client makes itself (wss/wssocks_client.go:155-179, pipe/tcp.go)

For an address in a private network the client dials the destination and relays: one `CopyBuffer`
for each direction, with a `tcp` as its writer, and a WaitGroup for both. What a `conn.Read`
returns, and how much of a `conn.Write` is done when it fails, is the environment's choice. The
data that comes with the request is left out: it is empty for SOCKS5, and anything else panics.

Results:

* `local_visit_relays`: each side is given what was read from the other, in order and without a
  gap, and `CloseWrite` only after all of it, whatever fails.
* `local_visit_complete`: if no write fails, both sides have been given everything when
  `localVisit` returns, and until then neither connection is closed.
-/

namespace Wssocks.Pipe

open Wssocks.Lib

/-- `conn.Write(data)` by a `tcp` (pipe/tcp.go:18-20): its two results are the number of bytes, which is that of the
    data if the error is nil, and whether it is. -/
def tcpWrite (sock : Sock) (data : List UInt8) : Outcome → Option (Sock × ℕ × Bool)
  | .ok => if sock.closed then none else some ({ sock with out := sock.out ++ [.data data] }, data.length, true)
  | .fail n =>
    if sock.closed then some (sock, 0, false)
    else if n < data.length then some ({ sock with out := sock.out ++ [.data (data.take n)] }, n, false)
    else none
  | .timeout => none

/-- `conn.CloseWrite()` (pipe/tcp.go:23-25); its error is dropped. -/
def tcpWriteEOF (sock : Sock) : Outcome → Option Sock
  | .ok => if sock.closed then none else some { sock with out := sock.out ++ [.closeWrite] }
  | .fail _ => some sock
  | .timeout => none

/-- The call of `pw.Write` or `pw.WriteEOF` in `CopyBuffer` with a `tcp` as `pw` (pipe/func.go:77-110). -/
def Copy.tcpStep (c : Copy) (sock : Sock) (o : Outcome) : Option (Copy × Sock) :=
  match c.pc with
  | .check data er => (tcpWrite sock data o).map fun r =>
      let c := { c with written := c.written + r.2.1 }
      if r.2.2 = false then (c.abort .write, r.1)
      else if data.length ≠ r.2.1 then (c.abort .short, r.1)
      else (c.afterWrite er, r.1)
  | .eofCheck er => (tcpWriteEOF sock o).map fun sock' => (c.finish er, sock')
  | _ => none

end Wssocks.Pipe

namespace Wssocks.Wss

open Wssocks.Lib Wssocks.Pipe

/-- The two directions. -/
inductive Dir where
  /-- From the application to the destination. -/
  | request
  | response
  deriving DecidableEq, Repr

/-- The direction that writes where this one reads. -/
def Dir.back : Dir → Dir
  | .request => .response
  | .response => .request

/-- Where `localVisit` is. -/
inductive LocalVisitPc where
  /-- At `net.DialTimeout`. -/
  | dial
  /-- At `wg.Wait()`. -/
  | wait
  /-- Returned, before the deferred `conn.Close()` of its caller (wss/wssocks_client.go:116). -/
  | returned
  | closed
  deriving DecidableEq, Repr

/-- A visit: `copy d` is the goroutine of a direction, `sock d` the connection it writes to. -/
structure LocalVisit where
  pc : LocalVisitPc
  copy : Dir → Copy
  sock : Dir → Sock

/-- The labels. -/
inductive LocalVisitLabel where
  | dial (ok : Bool)
  /-- `conn.Read` of a direction returns. -/
  | read (d : Dir) (data : List UInt8) (er : ReadEnd)
  /-- `pw.Write` or `pw.WriteEOF` of a direction. -/
  | write (d : Dir) (o : Outcome)
  /-- `wg.Wait()` and `remote.Close()`. -/
  | ret
  | close
  deriving DecidableEq

namespace LocalVisit

/-- Before the dial; the application's connection is there. -/
def init : LocalVisit := ⟨.dial, fun _ => {}, fun _ => {}⟩

variable (v : LocalVisit)

/-- What a direction reads from is closed. -/
def sourceClosed (d : Dir) : Bool := (v.sock d.back).closed

/-- `Close()` on the connection that `d` writes to. -/
def shut (d : Dir) : Dir → Sock := Function.update v.sock d { v.sock d with closed := true }

/-- One step. -/
def step : LocalVisitLabel → Option LocalVisit
  | .dial ok =>
    if v.pc = .dial then
      if ok then some { v with pc := .wait, copy := fun _ => { pc := .read } } else some { v with pc := .returned }
    else none
  | .read d data er =>
    -- a read of a closed connection fails
    if v.sourceClosed d ∧ ¬ (data = [] ∧ er = .err) then none
    else ((v.copy d).read data er).map fun c => { v with copy := Function.update v.copy d c }
  | .write d o => ((v.copy d).tcpStep (v.sock d) o).map fun r =>
      { v with copy := Function.update v.copy d r.1, sock := Function.update v.sock d r.2 }
  | .ret =>
    if v.pc = .wait ∧ (v.copy .request).pc = .done ∧ (v.copy .response).pc = .done then
      some { v with pc := .returned, sock := v.shut .request }
    else none
  | .close => if v.pc = .returned then some { v with pc := .closed, sock := v.shut .response } else none

end LocalVisit

/-- The chunk that a label reads in direction `d`. -/
def LocalVisitLabel.chunk (d : Dir) : LocalVisitLabel → List (List UInt8)
  | .read d' data _ => if d' = d ∧ data ≠ [] then [data] else []
  | _ => []

/-- What was read in direction `d`. -/
def received (d : Dir) (ls : List LocalVisitLabel) : List (List UInt8) := ls.flatMap (LocalVisitLabel.chunk d)

/-- A read of direction `d` returned the end of the stream or an error. -/
def readEnded (d : Dir) (ls : List LocalVisitLabel) : Prop := ∃ data er, er ≠ .more ∧ .read d data er ∈ ls

/-- A write of direction `d` failed. -/
def writeFailed (d : Dir) (ls : List LocalVisitLabel) : Prop := ∃ o, o ≠ .ok ∧ .write d o ∈ ls

variable {v v' : LocalVisit} {ls : List LocalVisitLabel} {l : LocalVisitLabel} {d : Dir}

/-! ## One direction -/

section Direction

variable {reads : List (List UInt8)} {ended failed ended' failed' : Prop} {out : List ConnEvent} {c c' : Copy}
  {sock sock' : Sock} {o : Outcome}

/-- What a direction has written where its goroutine is. -/
def RelayAt (reads : List (List UInt8)) (ended failed : Prop) (out : List ConnEvent) : CopyPc → Prop
  | .idle => reads = [] ∧ out = []
  | .read => payloads out = reads ∧ .closeWrite ∉ out
  | .check data er => ∃ rs, reads = rs ++ [data] ∧ payloads out = rs ∧ .closeWrite ∉ out ∧ data ≠ [] ∧
      (er ≠ .more → ended)
  | .eofCheck _ => payloads out = reads ∧ .closeWrite ∉ out ∧ ended
  | .done => Delivered out reads ended ∧ (failed ∨ ∃ pre, out = pre ++ [.closeWrite] ∧ payloads pre = reads)
  | _ => False

theorem RelayAt.mono {pc : CopyPc} (h : RelayAt reads ended failed out pc) (hended : ended → ended')
    (hfailed : failed → failed') : RelayAt reads ended' failed' out pc := by
  cases pc with
  | idle | read => exact h
  | check data er =>
    obtain ⟨rs, h1, h2, h3, h4, h5⟩ := h
    exact ⟨rs, h1, h2, h3, h4, fun he => hended (h5 he)⟩
  | eofCheck er => exact ⟨h.1, h.2.1, hended h.2.2⟩
  | done =>
    refine ⟨⟨h.1.cut, fun pre post he => ?_⟩, h.2.imp_left hfailed⟩
    obtain ⟨h1, h2, h3⟩ := h.1.closeWrite pre post he
    exact ⟨h1, h2, hended h3⟩
  | select | eofSelect => exact h.elim

theorem cut_of_eq (h : payloads out = reads) : Cut (payloads out) reads :=
  .of_isPrefix (h ▸ List.prefix_refl _)

/-- Nothing was closed yet. -/
theorem delivered_of_open (hcut : Cut (payloads out) reads) (hopen : .closeWrite ∉ out) :
    Delivered out reads ended where
  cut := hcut
  closeWrite := by
    intro pre post he
    rw [he] at hopen
    simp at hopen

theorem RelayAt.delivered {pc : CopyPc} (h : RelayAt reads ended failed out pc) : Delivered out reads ended := by
  cases pc with
  | idle =>
    obtain ⟨rfl, rfl⟩ := h
    exact delivered_of_open (.of_isPrefix (List.prefix_refl _)) (by simp)
  | read => exact delivered_of_open (cut_of_eq h.1) h.2
  | check data er =>
    obtain ⟨rs, rfl, hpay, hopen, -⟩ := h
    exact delivered_of_open (.of_isPrefix (by rw [hpay]; exact List.prefix_append _ _)) hopen
  | eofCheck er => exact delivered_of_open (cut_of_eq h.1) h.2.1
  | done => exact h.1
  | select | eofSelect => exact h.elim

/-- The turn of the loop ends after the write. -/
theorem RelayAt.afterWrite {er : ReadEnd} (hpay : payloads out = reads) (hopen : .closeWrite ∉ out)
    (hend : er ≠ .more → ended) : RelayAt reads ended failed out (c.afterWrite er).pc := by
  cases er with
  | more => exact ⟨hpay, hopen⟩
  | eof => exact ⟨hpay, hopen, hend fun h => (by cases h)⟩
  | err => exact ⟨hpay, hopen, hend fun h => (by cases h)⟩

/-- `conn.Read` returned. -/
theorem RelayAt.read {data : List UInt8} {er : ReadEnd} (h : RelayAt reads ended failed out c.pc)
    (hs : c.read data er = some c') :
    RelayAt (reads ++ if data ≠ [] then [data] else []) (ended ∨ er ≠ .more) failed out c'.pc := by
  obtain ⟨hpc, hs⟩ := Option.ite_none_right_eq_some.mp hs
  rw [hpc] at h
  obtain ⟨hpay, hopen⟩ := h
  by_cases hd : data = []
  · rw [if_pos hd, Option.some.injEq] at hs
    rw [if_neg (not_not_intro hd), List.append_nil, ← hs]
    exact .afterWrite hpay hopen .inr
  · rw [if_neg hd, Option.some.injEq] at hs
    rw [if_pos hd, ← hs]
    exact ⟨reads, rfl, hpay, hopen, hd, .inr⟩

/-- The part of a chunk that a failed write gave to the connection. -/
theorem cut_take {rs : List (List UInt8)} {data : List UInt8} (hpay : payloads out = rs) (n : ℕ) :
    Cut (payloads (out ++ [.data (data.take n)])) (rs ++ [data]) := by
  rw [payloads_append, hpay]
  by_cases hn : data.take n = []
  · refine .of_isPrefix ?_
    have hnone : payloads [.data (data.take n)] = [] := by simp [payloads, ConnEvent.bytes, hn]
    rw [hnone, List.append_nil]
    exact List.prefix_append _ _
  · have hone : payloads [.data (data.take n)] = [data.take n] := by simp [payloads, ConnEvent.bytes, hn]
    refine ⟨rs.length, [data.take n], by rw [hone, List.take_left], .inr ⟨_, data, rfl, ?_, List.take_prefix _ _⟩⟩
    simp

theorem payloads_write {data : List UInt8} (hd : data ≠ []) : payloads [.data data] = [data] := by
  simp [payloads, ConnEvent.bytes, hd]

/-- `pw.Write` or `pw.WriteEOF` returned. -/
theorem RelayAt.tcpStep (h : RelayAt reads ended failed sock.out c.pc) (hs : c.tcpStep sock o = some (c', sock')) :
    RelayAt reads ended (failed ∨ o ≠ .ok) sock'.out c'.pc := by
  unfold Copy.tcpStep at hs
  cases hpc : c.pc with
  | check data er =>
    rw [hpc] at h
    obtain ⟨rs, rfl, hpay, hopen, hd, hend⟩ := h
    simp only [hpc] at hs
    obtain ⟨⟨sock1, n, ok⟩, hw, hs⟩ := Option.map_eq_some_iff.mp hs
    cases o with
    | ok =>
      obtain ⟨-, hw⟩ := Option.ite_none_left_eq_some.mp hw
      cases hw
      simp only [Bool.true_eq_false, if_false, ne_eq, not_true_eq_false, Prod.mk.injEq] at hs
      obtain ⟨rfl, rfl⟩ := hs
      refine .afterWrite ?_ (by simp [hopen]) hend
      rw [payloads_append, hpay, payloads_write hd]
    | fail k =>
      -- the loop is left without `WriteEOF`
      have hleft : ok = false ∧ c'.pc = .done ∧ sock' = sock1 := by
        simp only [tcpWrite] at hw
        split_ifs at hw <;> cases hw <;>
          · simp only [if_true, Prod.mk.injEq] at hs
            obtain ⟨rfl, rfl⟩ := hs
            exact ⟨rfl, rfl, rfl⟩
      obtain ⟨rfl, hdone, rfl⟩ := hleft
      have hcut : Cut (payloads sock'.out) (rs ++ [data]) ∧ .closeWrite ∉ sock'.out := by
        simp only [tcpWrite] at hw
        split_ifs at hw <;> cases hw
        · exact ⟨.of_isPrefix (by rw [hpay]; exact List.prefix_append _ _), hopen⟩
        · exact ⟨cut_take hpay _, by simp [hopen]⟩
      rw [hdone]
      exact ⟨delivered_of_open hcut.1 hcut.2, .inl (.inr fun he => (by cases he))⟩
    | timeout => cases hw
  | eofCheck er =>
    rw [hpc] at h
    obtain ⟨hpay, hopen, hend⟩ := h
    simp only [hpc] at hs
    obtain ⟨sock1, hw, hs⟩ := Option.map_eq_some_iff.mp hs
    cases hs
    cases o with
    | ok =>
      obtain ⟨-, hw⟩ := Option.ite_none_left_eq_some.mp hw
      cases hw
      have hall : payloads (sock.out ++ [.closeWrite]) = reads := by
        rw [payloads_append, payloads_closeWrite, List.append_nil, hpay]
      refine ⟨⟨cut_of_eq hall, fun pre post he => ?_⟩, .inr ⟨_, rfl, hpay⟩⟩
      obtain ⟨h1, h2, -⟩ := append_cons_eq_concat he.symm hopen
      exact ⟨h1, by rw [h2, hpay], hend⟩
    | fail k =>
      cases hw
      exact ⟨delivered_of_open (cut_of_eq hpay) hopen, .inl (.inr fun he => (by cases he))⟩
    | timeout => cases hw
  | _ => simp only [hpc] at hs; cases hs

end Direction

/-! ## The visit -/

/-- The invariant of a run. -/
structure LocalVisitInv (ls : List LocalVisitLabel) (v : LocalVisit) : Prop where
  relay : ∀ d, RelayAt (received d ls) (readEnded d ls) (writeFailed d ls) (v.sock d).out (v.copy d).pc
  dial : v.pc = .dial → ∀ d, (v.copy d).pc = .idle
  started : v.pc = .wait → ∀ d, (v.copy d).pc ≠ .idle
  ended : v.pc = .returned ∨ v.pc = .closed → (∀ d, (v.copy d).pc = .done) ∨ .dial false ∈ ls
  opened : v.pc = .dial ∨ v.pc = .wait → ∀ d, (v.sock d).closed = false

theorem received_append (ls : List LocalVisitLabel) (l : LocalVisitLabel) :
    received d (ls ++ [l]) = received d ls ++ LocalVisitLabel.chunk d l := by
  simp [received]

theorem readEnded_append (h : readEnded d ls) : readEnded d (ls ++ [l]) := by
  obtain ⟨data, er, he, hm⟩ := h
  exact ⟨data, er, he, List.mem_append_left _ hm⟩

theorem writeFailed_append (h : writeFailed d ls) : writeFailed d (ls ++ [l]) := by
  obtain ⟨o, ho, hm⟩ := h
  exact ⟨o, ho, List.mem_append_left _ hm⟩

/-- A label of another direction, or of the visit itself. -/
theorem RelayAt.other {out : List ConnEvent} {pc : CopyPc} (hl : LocalVisitLabel.chunk d l = [])
    (h : RelayAt (received d ls) (readEnded d ls) (writeFailed d ls) out pc) :
    RelayAt (received d (ls ++ [l])) (readEnded d (ls ++ [l])) (writeFailed d (ls ++ [l])) out pc := by
  rw [received_append, hl, List.append_nil]
  exact h.mono readEnded_append writeFailed_append

theorem LocalVisitInv.init : LocalVisitInv [] LocalVisit.init where
  relay := fun _ => ⟨rfl, rfl⟩
  dial := fun _ _ => rfl
  started := fun h => (by cases h)
  ended := fun h => (by rcases h with h | h <;> cases h)
  opened := fun _ _ => rfl

theorem copy_read_ne {c c' : Copy} {data : List UInt8} {er : ReadEnd} (h : c.read data er = some c') :
    c.pc = .read ∧ c'.pc ≠ .idle := by
  obtain ⟨hpc, h⟩ := Option.ite_none_right_eq_some.mp h
  refine ⟨hpc, ?_⟩
  split_ifs at h <;> cases h
  · cases er <;> exact fun he => (by cases he)
  · exact fun he => (by cases he)

theorem copy_tcpStep_ne {c c' : Copy} {sock sock' : Sock} {o : Outcome} (h : c.tcpStep sock o = some (c', sock')) :
    c.pc ≠ .idle ∧ c.pc ≠ .done ∧ c'.pc ≠ .idle ∧ sock'.closed = sock.closed := by
  unfold Copy.tcpStep at h
  cases hpc : c.pc with
  | check data er =>
    simp only [hpc] at h
    obtain ⟨⟨sock1, n, ok⟩, hw, h⟩ := Option.map_eq_some_iff.mp h
    refine ⟨fun he => (by cases he), fun he => (by cases he), ?_, ?_⟩
    · dsimp only at h
      split_ifs at h <;> cases h
      · exact fun he => (by cases he)
      · exact fun he => (by cases he)
      · cases er <;> exact fun he => (by cases he)
    · have hclosed : sock1.closed = sock.closed := by
        cases o <;> simp only [tcpWrite] at hw
        · split_ifs at hw
          cases hw
          rfl
        · cases hw
        · split_ifs at hw <;> cases hw <;> rfl
      dsimp only at h
      split_ifs at h <;> cases h <;> exact hclosed
  | eofCheck er =>
    simp only [hpc] at h
    obtain ⟨sock1, hw, h⟩ := Option.map_eq_some_iff.mp h
    cases h
    refine ⟨fun he => (by cases he), fun he => (by cases he), fun he => (by cases he), ?_⟩
    cases o <;> simp only [tcpWriteEOF] at hw
    · split_ifs at hw
      cases hw
      rfl
    · cases hw
    · cases hw
      rfl
  | _ => simp only [hpc] at h; cases h

/-- A step of direction `d` keeps what is known about the other one. -/
theorem LocalVisitInv.move {c : Copy} (sock : Sock) (inv : LocalVisitInv ls v)
    (hl : ∀ d', d' ≠ d → LocalVisitLabel.chunk d' l = [])
    (hd : RelayAt (received d (ls ++ [l])) (readEnded d (ls ++ [l])) (writeFailed d (ls ++ [l])) sock.out c.pc)
    (hidle : (v.copy d).pc ≠ .idle) (hdone : (v.copy d).pc ≠ .done) (hidle' : c.pc ≠ .idle)
    (hclosed : sock.closed = (v.sock d).closed) :
    LocalVisitInv (ls ++ [l])
      { v with copy := Function.update v.copy d c, sock := Function.update v.sock d sock } where
  relay := by
    intro d'
    by_cases hdd : d' = d
    · subst hdd
      simpa only [Function.update_self] using hd
    · simpa only [Function.update_of_ne hdd] using (inv.relay d').other (hl d' hdd)
  dial := fun hpc => absurd (inv.dial hpc d) hidle
  started := by
    intro hpc d'
    show (Function.update v.copy d c d').pc ≠ .idle
    by_cases hdd : d' = d
    · rw [hdd, Function.update_self]
      exact hidle'
    · rw [Function.update_of_ne hdd]
      exact inv.started hpc d'
  ended := by
    intro hpc
    rcases inv.ended hpc with hall | hfail
    · exact absurd (hall d) hdone
    · exact .inr (List.mem_append_left _ hfail)
  opened := by
    intro hpc d'
    show (Function.update v.sock d sock d').closed = false
    by_cases hdd : d' = d
    · rw [hdd, Function.update_self, hclosed]
      exact inv.opened hpc d
    · rw [Function.update_of_ne hdd]
      exact inv.opened hpc d'

theorem out_shut (d d' : Dir) : (v.shut d d').out = (v.sock d').out := by
  unfold LocalVisit.shut
  by_cases h : d' = d
  · rw [h, Function.update_self]
  · rw [Function.update_of_ne h]

/-- Every step keeps the invariant. -/
theorem LocalVisitInv.step (inv : LocalVisitInv ls v) (hs : v.step l = some v') : LocalVisitInv (ls ++ [l]) v' := by
  cases l with
  | dial ok =>
    obtain ⟨hpc, hs⟩ := Option.ite_none_right_eq_some.mp hs
    have hidle := inv.dial hpc
    have hrelay := fun d => (inv.relay d).other (l := .dial ok) rfl
    cases ok with
    | true =>
      cases hs
      refine ⟨fun d => ?_, fun h => (by cases h), fun _ _ h => (by cases h), fun h => ?_,
        fun _ => inv.opened (.inl hpc)⟩
      · have hd := hrelay d
        rw [hidle d] at hd
        obtain ⟨hreads, hout⟩ := hd
        refine ⟨?_, ?_⟩
        · rw [hreads, hout]
          rfl
        · rw [hout]
          simp
      · rcases h with h | h <;> cases h
    | false =>
      cases hs
      refine ⟨hrelay, fun h => (by cases h), fun h => (by cases h), fun _ => .inr (by simp), fun h => ?_⟩
      rcases h with h | h <;> cases h
  | read d data er =>
    obtain ⟨-, hs⟩ := Option.ite_none_left_eq_some.mp hs
    obtain ⟨c, hc, rfl⟩ := Option.map_eq_some_iff.mp hs
    obtain ⟨hpc, hidle'⟩ := copy_read_ne hc
    have hchunk : LocalVisitLabel.chunk d (.read d data er) = if data ≠ [] then [data] else [] := by
      simp [LocalVisitLabel.chunk]
    have hother : ∀ d', d' ≠ d → LocalVisitLabel.chunk d' (.read d data er) = [] := fun d' hd' =>
      if_neg fun h => hd' h.1.symm
    have hd := (inv.relay d).read hc
    rw [← hchunk, ← received_append] at hd
    have hmove := LocalVisitInv.move (l := .read d data er) (c := c) (v.sock d) inv hother
      (hd.mono ?_ writeFailed_append)
      (by rw [hpc]; exact fun h => (by cases h)) (by rw [hpc]; exact fun h => (by cases h)) hidle' rfl
    · rwa [Function.update_eq_self] at hmove
    · rintro (he | he)
      · exact readEnded_append he
      · exact ⟨data, er, he, by simp⟩
  | write d o =>
    obtain ⟨⟨c, sock⟩, hc, rfl⟩ := Option.map_eq_some_iff.mp hs
    obtain ⟨hidle, hdone, hidle', hclosed⟩ := copy_tcpStep_ne hc
    have hd := (inv.relay d).tcpStep hc
    refine LocalVisitInv.move _ inv (fun _ _ => rfl) ?_ hidle hdone hidle' hclosed
    have hsame : received d (ls ++ [.write d o]) = received d ls := by
      rw [received_append]
      exact List.append_nil _
    rw [hsame]
    refine hd.mono readEnded_append ?_
    rintro (hf | ho)
    · exact writeFailed_append hf
    · exact ⟨o, ho, by simp⟩
  | ret =>
    obtain ⟨⟨hpc, hreq, hresp⟩, hs⟩ := Option.ite_none_right_eq_some.mp hs
    cases hs
    refine ⟨fun d => ?_, fun h => (by cases h), fun h => (by cases h), fun _ => .inl fun d => ?_, fun h => ?_⟩
    · show RelayAt _ _ _ (v.shut .request d).out _
      rw [out_shut]
      exact (inv.relay d).other rfl
    · cases d with
      | request => exact hreq
      | response => exact hresp
    · rcases h with h | h <;> cases h
  | close =>
    obtain ⟨hpc, hs⟩ := Option.ite_none_right_eq_some.mp hs
    cases hs
    refine ⟨fun d => ?_, fun h => (by cases h), fun h => (by cases h), fun _ => ?_, fun h => ?_⟩
    · show RelayAt _ _ _ (v.shut .response d).out _
      rw [out_shut]
      exact (inv.relay d).other rfl
    · rcases inv.ended (.inl hpc) with hall | hfail
      · exact .inl hall
      · exact .inr (List.mem_append_left _ hfail)
    · rcases h with h | h <;> cases h

theorem LocalVisitInv.run {ok : LocalVisit → LocalVisitLabel → Prop}
    (h : Run LocalVisit.step ok LocalVisit.init ls v) : LocalVisitInv ls v :=
  h.trace_invariant .init fun _ _ _ _ ha _ hs => ha.step hs

/-! ## Results -/

/-- In every run, whatever fails, the destination has been given what was read from the application, in order and
    without a gap, the last chunk possibly cut by a failed write, and `CloseWrite` only after all of it and when a read
    ended the stream; and the same for the other direction. -/
theorem local_visit_relays (h : Run LocalVisit.step anyStep LocalVisit.init ls v) (d : Dir) :
    Delivered (v.sock d).out (received d ls) (readEnded d ls) :=
  ((LocalVisitInv.run h).relay d).delivered

/-- The label is neither a failed dial nor a failed write. -/
def LocalVisitLabel.Fine : LocalVisitLabel → Prop
  | .dial ok => ok = true
  | .write _ o => o = .ok
  | _ => True

instance : DecidablePred LocalVisitLabel.Fine
  | .dial ok => inferInstanceAs (Decidable (ok = true))
  | .write _ o => inferInstanceAs (Decidable (o = .ok))
  | .read .. | .ret | .close => inferInstanceAs (Decidable True)

/-- A run without a failed dial or write. -/
theorem fine_of_run (h : Run LocalVisit.step (fun _ l => l.Fine) LocalVisit.init ls v) : ∀ l ∈ ls, l.Fine := by
  refine h.trace_invariant (I := fun ls _ => ∀ l ∈ ls, l.Fine) (fun l hl => (by cases hl)) ?_
  intro ls _ l _ hls hl _ l' hl'
  rcases List.mem_append.mp hl' with hl' | hl'
  · exact hls l' hl'
  · rw [List.mem_singleton.mp hl']
    exact hl

/-- A direction whose connections are open goes on until it has ended. -/
theorem LocalVisitInv.goes_on (inv : LocalVisitInv ls v) (hpc : v.pc = .wait) (d : Dir) :
    (v.copy d).pc = .done ∨ (v.step (.write d .ok)).isSome ∨ ∀ data er, (v.step (.read d data er)).isSome := by
  have hopen := inv.opened (.inr hpc) d
  have hsource : ¬ v.sourceClosed d = true := by
    rw [LocalVisit.sourceClosed, inv.opened (.inr hpc) d.back]
    exact Bool.false_ne_true
  have hrelay := inv.relay d
  cases hc : (v.copy d).pc with
  | idle => exact absurd hc (inv.started hpc d)
  | read =>
    refine .inr (.inr fun data er => ?_)
    have hread : ((v.copy d).read data er).isSome := by
      rw [Copy.read, if_pos hc]
      split_ifs <;> rfl
    rw [LocalVisit.step, if_neg fun h => hsource h.1, Option.isSome_map]
    exact hread
  | check data er =>
    refine .inr (.inl ?_)
    rw [LocalVisit.step, Option.isSome_map, Copy.tcpStep]
    simp only [hc, Option.isSome_map, tcpWrite, hopen, Bool.false_eq_true, if_false, Option.isSome_some]
  | eofCheck er =>
    refine .inr (.inl ?_)
    rw [LocalVisit.step, Option.isSome_map, Copy.tcpStep]
    simp only [hc, Option.isSome_map, tcpWriteEOF, hopen, Bool.false_eq_true, if_false, Option.isSome_some]
  | done => exact .inl rfl
  | select | eofSelect =>
    rw [hc] at hrelay
    exact hrelay.elim

/-- In every run without a failed dial or write: as long as `localVisit` has not returned, both connections are open and
    a direction that has not ended can go on, also when the other one has; and when it has returned, each side has been
    given everything that was read from the other and then `CloseWrite`. -/
theorem local_visit_complete (h : Run LocalVisit.step (fun _ l => l.Fine) LocalVisit.init ls v) (d : Dir) :
    (v.pc = .wait → (v.sock d).closed = false ∧ ((v.copy d).pc = .done ∨ (v.step (.write d .ok)).isSome ∨
      ∀ data er, (v.step (.read d data er)).isSome)) ∧
    (v.pc = .returned ∨ v.pc = .closed →
      ∃ pre, (v.sock d).out = pre ++ [.closeWrite] ∧ payloads pre = received d ls) := by
  have inv := LocalVisitInv.run h
  refine ⟨fun hpc => ⟨inv.opened (.inr hpc) d, inv.goes_on hpc d⟩, fun hpc => ?_⟩
  have hfine := fine_of_run h
  have hdone : ∀ d, (v.copy d).pc = .done := by
    refine (inv.ended hpc).resolve_right fun hdial => ?_
    have : false = true := hfine _ hdial
    cases this
  have hrelay := inv.relay d
  rw [hdone d] at hrelay
  refine hrelay.2.resolve_left ?_
  rintro ⟨o, ho, hm⟩
  exact ho (hfine _ hm)

/-- The application asks, closes its side and is answered after that. -/
def halfClosed : List LocalVisitLabel :=
  [.dial true, .read .request [1, 2] .more, .write .request .ok, .read .request [3] .eof, .write .request .ok,
    .write .request .ok, .read .response [4] .more, .write .response .ok, .read .response [] .eof, .write .response .ok,
    .ret]

theorem local_visit_relays_half_closed : ∃ v, Run LocalVisit.step anyStep LocalVisit.init (halfClosed.take 8) v ∧
    Delivered (v.sock .request).out [[1, 2], [3]] (readEnded .request (halfClosed.take 8)) := by
  have hexec : (exec LocalVisit.step (fun _ _ => true) LocalVisit.init (halfClosed.take 8)).map (fun _ => ()) =
      some () := by
    decide +kernel
  obtain ⟨v, hrun, -⟩ := exists_run_of_exec hexec
  have hany : Run LocalVisit.step anyStep LocalVisit.init (halfClosed.take 8) v := hrun.mono fun _ _ _ => trivial
  exact ⟨v, hany, local_visit_relays hany .request⟩

theorem local_visit_complete_half_closed : ∃ v, Run LocalVisit.step (fun _ l => l.Fine) LocalVisit.init halfClosed v ∧
    v.pc = .returned ∧ ∃ pre, (v.sock .response).out = pre ++ [.closeWrite] ∧ payloads pre = [[4]] := by
  have hexec : (exec LocalVisit.step (fun _ l => decide l.Fine) LocalVisit.init halfClosed).map (fun v => v.pc) =
      some .returned := by
    decide +kernel
  obtain ⟨v, hrun, hpc⟩ := exists_run_of_exec hexec
  have hfine : Run LocalVisit.step (fun _ l => l.Fine) LocalVisit.init halfClosed v :=
    hrun.mono fun _ _ h => of_decide_eq_true h
  exact ⟨v, hfine, hpc, (local_visit_complete hfine .response).2 (.inl hpc)⟩

end Wssocks.Wss

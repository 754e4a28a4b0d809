import Wssocks.Lib.Chan

/-!
# Package `pipe`: shared vocabulary

Types shared by the models of `pipe/link.go`, `pipe/queue.go` and
`pipe/func.go`.

* A `ksuid.KSUID` is a value of a type `KSUID` with decidable equality; the
  code only compares ids and uses them as map keys.
* A `*net.TCPConn` is a number naming a `Sock`: what was written to it, in order.
* A goroutine that runs `Send` is a program counter (`SendPc`). One step of it
  is one access to shared state (a channel operation, a map lookup under the
  hub's lock, a read or write of `status`); the entry test-and-set of `status`
  is one step.
-/

namespace Wssocks.Pipe

open Wssocks.Lib

/-- `StaWait`, `StaSend`, `StaDone`, `StaClose` (pipe/func.go:31-37). -/
inductive Status where
  | wait | send | done | close
  deriving DecidableEq, Repr, Inhabited

/-- `buffer` (pipe/func.go:44-47). Its zero value, which a receive from a drained
    closed channel gives, is `⟨false, []⟩`. -/
structure Buffer where
  eof : Bool
  data : List UInt8
  deriving DecidableEq, Repr, Inhabited

/-- The capacity `makeBuffer` gives every buffer (pipe/func.go:146-151, with
    `pipeDebug = false`). -/
abbrev bufferSize : ℕ := 10

/-- `chan buffer`. -/
abbrev BufChan := Chan Buffer bufferSize

/-- The errors `Send` returns (pipe/link.go:48-92, pipe/queue.go:74-113):
    `io.ErrClosedPipe`, `"time out"`, `"queue not found"`, `"conn is closed"` and
    the error of a write. -/
inductive SendErr where
  | closedPipe | timeout | notFound | connClosed | write
  deriving DecidableEq, Repr

/-- Where a goroutine running `Send` is. `Src` is what the loop body fetched for
    the current id before it reads: the link it reads from, or the writer it will
    write to. -/
inductive SendPc (KSUID Src : Type) where
  /-- Launched with `go`, before the test of `status`. -/
  | entry
  /-- Returned at the entry test. -/
  | refused
  /-- At the head of `for`. -/
  | loop
  /-- In `range q.sorted`, with the ids still to come in this pass. -/
  | pass (rest : List KSUID)
  /-- In `readWithTimeout`. -/
  | read (src : Src) (rest : List KSUID)
  /-- Holding `b`, before the write. -/
  | write (src : Src) (b : Buffer) (rest : List KSUID)
  /-- Returning, before the deferred function. -/
  | ret (err : Option SendErr)
  /-- At `q.done <- struct{}{}`. -/
  | handoff (err : Option SendErr)
  /-- At `close(q.done)`. -/
  | closeDone (err : Option SendErr)
  | exit (err : Option SendErr)
  deriving DecidableEq, Repr

/-- `Send` has left its loop. -/
def SendPc.ended {KSUID Src : Type} : SendPc KSUID Src → Bool
  | .ret _ | .handoff _ | .closeDone _ | .exit _ => true
  | _ => false

/-- `Send` passed its entry test: its body is running or has run. -/
def SendPc.entered {KSUID Src : Type} : SendPc KSUID Src → Bool
  | .entry | .refused => false
  | _ => true

/-- How an operation that the environment decides turns out: it completes, the
    five-minute timer fires first, or it fails, after `n` bytes for a write. -/
inductive Outcome where
  | ok | timeout | fail (n : ℕ)
  deriving DecidableEq, Repr

/-- What is done to a TCP connection: `conn.Write` and `conn.CloseWrite`. -/
inductive ConnEvent where
  | data (bytes : List UInt8)
  | closeWrite
  deriving DecidableEq, Repr

/-- A TCP connection as its writers see it: what was written so far, and whether
    `conn.Close` was called. -/
structure Sock where
  out : List ConnEvent := []
  closed : Bool := false
  deriving Inhabited

/-- `safeWrite` on a connection that is not nil (pipe/func.go:116-131); `none`
    where the outcome is not possible. The flag tells whether it returned nil. -/
def safeWrite (sock : Sock) (b : Buffer) : Outcome → Option (Sock × Bool)
  | .ok =>
    if sock.closed then none
    else if b.eof then some ({ sock with out := sock.out ++ [.closeWrite] }, true)
    else some ({ sock with out := sock.out ++ [.data b.data] }, true)
  | .fail n =>
    if sock.closed || b.eof then some (sock, false)
    else some ({ sock with out := sock.out ++ [.data (b.data.take n)] }, false)
  | .timeout => none

theorem safeWrite_ok {sock : Sock} {b : Buffer} {x : Sock × Bool} (h : safeWrite sock b .ok = some x) :
    x.2 = true := by
  simp only [safeWrite] at h
  split_ifs at h <;> cases h <;> rfl

theorem closed_safeWrite {sock : Sock} {b : Buffer} {o : Outcome} {x : Sock × Bool}
    (h : safeWrite sock b o = some x) : x.1.closed = sock.closed := by
  cases o with
  | ok | fail =>
    simp only [safeWrite] at h
    split_ifs at h <;> cases h <;> rfl
  | timeout => cases h

/-- The `select` of `writeBuf` (pipe/link.go:119-123, pipe/queue.go:65-69) when its
    timer has not fired: `none` while it blocks on a full buffer, `some none` when
    the send panics on a closed channel and the deferred `recover` swallows it. -/
def selectSend (c : BufChan) (b : Buffer) : Option (Option BufChan) :=
  if c.closed then some none else (c.send? b).map some

theorem selectSend_some {c c' : BufChan} {b : Buffer} (h : selectSend c b = some (some c')) :
    c.closed = false ∧ c'.items = c.items ++ [b] ∧ c'.closed = false := by
  unfold selectSend at h
  split at h
  · cases h
  · rename_i hc
    obtain ⟨d, hd, hd'⟩ := Option.map_eq_some_iff.mp h
    cases hd'
    obtain ⟨h1, h2, -⟩ := Chan.send?_eq_some hd
    exact ⟨by simpa using hc, h1, by simpa [h2] using hc⟩

theorem selectSend_none {c : BufChan} {b : Buffer} (h : selectSend c b = some none) :
    c.closed = true := by
  unfold selectSend at h
  split at h
  · assumption
  · simp at h

end Wssocks.Pipe

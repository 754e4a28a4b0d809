import Wssocks.Pipe.Queue

/-!
# `CopyBuffer` (pipe/func.go:50-113) with a queue as its writer

One step of the machine is one `conn.Read`, or one half of a call of `Write` or
`WriteEOF`: the test of the queue's `status`, then the `select` (pipe/queue.go:53-71).
The buffer size, the read deadline and the debug output are left out: what a
`conn.Read` returns is the environment's choice.
-/

namespace Wssocks.Pipe

open Wssocks.Lib

/-- The error `er` a `conn.Read` returns: nil, `io.EOF`, or another one. -/
inductive ReadEnd where
  | more | eof | err
  deriving DecidableEq, Repr, Inhabited

/-- The errors `CopyBuffer` returns, by their number in the source: `#1` of a
    write, `#2` short write, `#3` of a read. -/
inductive CopyErr where
  | write | short | read
  deriving DecidableEq, Repr

/-- Where a goroutine running `CopyBuffer` is. -/
inductive CopyPc where
  /-- Not started. -/
  | idle
  /-- Before `conn.Read`. -/
  | read
  /-- In `pw.Write`, before the test of `status`. -/
  | check (data : List UInt8) (er : ReadEnd)
  /-- In `pw.Write`, at the `select`. -/
  | select (data : List UInt8) (er : ReadEnd)
  /-- In `pw.WriteEOF`, before the test of `status`. -/
  | eofCheck (er : ReadEnd)
  /-- In `pw.WriteEOF`, at the `select`. -/
  | eofSelect (er : ReadEnd)
  | done
  deriving DecidableEq, Repr, Inhabited

/-- `CopyBuffer`: its program counter, its two results, and the chunks it has read
    so far. -/
structure Copy where
  pc : CopyPc := .idle
  written : ℕ := 0
  err : Option CopyErr := none
  reads : List (List UInt8) := []
  deriving Inhabited

namespace Copy

/-- The end of one turn of the loop, after the write (pipe/func.go:99-110). -/
def afterWrite (c : Copy) : ReadEnd → Copy
  | .more => { c with pc := .read }
  | er => { c with pc := .eofCheck er }

/-- After `pw.WriteEOF()`. -/
def finish (c : Copy) (er : ReadEnd) : Copy :=
  { c with pc := .done, err := if er = .err then some .read else c.err }

/-- The loop is left with an error of the write side, without `WriteEOF`. -/
def abort (c : Copy) (e : CopyErr) : Copy := { c with pc := .done, err := some e }

/-- `conn.Read` returns `data` and `er`. -/
def read (c : Copy) (data : List UInt8) (er : ReadEnd) : Option Copy :=
  if c.pc = .read then
    if data = [] then some (c.afterWrite er)
    else some { c with pc := .check data er, reads := c.reads ++ [data] }
  else none

variable {KSUID W : Type} [DecidableEq KSUID] [Inhabited KSUID]

/-- One step inside `pw.Write` or `pw.WriteEOF`, where `pw` is queue `q`. -/
def step (c : Copy) (s : Queues KSUID W) (q : ℕ) : Option (Copy × Queues KSUID W) :=
  match c.pc with
  | .check data er =>
    if (s.hub.obj q).status = .done then some (c.abort .write, s)
    else some ({ c with pc := .select data er }, s)
  | .select data er => (s.push q ⟨false, data⟩).map fun r =>
      if r.2 then (({ c with written := c.written + data.length }).afterWrite er, r.1)
      else (c.abort .short, r.1)
  | .eofCheck er =>
    if (s.hub.obj q).status = .done then some (c.finish er, s)
    else some ({ c with pc := .eofSelect er }, s)
  | .eofSelect er => (s.push q ⟨true, []⟩).map fun r => (c.finish er, r.1)
  | _ => none

/-- The five-minute timer of `writeBuf` fires while the send blocks. -/
def timeout (c : Copy) (s : Queues KSUID W) (q : ℕ) : Option Copy :=
  if (s.hub.obj q).buffer.closed = false ∧ (s.hub.obj q).buffer.full = true then
    match c.pc with
    | .select _ _ => some (c.abort .write)
    | .eofSelect er => some (c.finish er)
    | _ => none
  else none

end Copy

end Wssocks.Pipe

import Wssocks.Lib.Lts
import Mathlib.Logic.Function.Basic

/-!
# The client process (client/client.go)

`StartClient` starts a goroutine for each websocket, one for the heart beats and one that
accepts connections. Each of them ends with `once.Do(closeAll)`, so the first one that ends
closes everything the others need. An interrupt runs `NotifyClose` in one more goroutine, which
does the same under the same `once`, but waits for the open connections in between. `Wait`
returns when all goroutines have ended; a second interrupt exits at once.

A step is an operation on something that two goroutines share. `closeAll` and the function in
`NotifyClose` are the same but for the flag of `cl.Close`, so both are `ClosePc`. The failures of
the network are the label `fail`.
-/

namespace Wssocks.Cli

/-- The goroutines that call `once.Do`. -/
inductive Task where
  /-- `ListenIncomeMsg` on websocket `i`. -/
  | listener (i : ℕ)
  /-- `hb.Start`. -/
  | heartBeat
  /-- `cl.ListenAndServe`. -/
  | accept
  /-- `NotifyClose(once, true)`. -/
  | notify
  deriving DecidableEq, Repr

/-- Where a goroutine is in the function that `once` runs (client/client.go:74-84, 186-196,
    wss/wssocks_client.go:316-327). -/
inductive ClosePc where
  /-- Before `hdl.cl != nil`. -/
  | start
  /-- In `cl.Close`, before the test of `client.closed`. -/
  | test
  /-- At `close(client.stop)`, with the assignment of `client.closed`. -/
  | stop
  /-- At `client.tcpl.Close()`. -/
  | tcpl
  /-- At `client.wgClose.Wait()`. -/
  | wait
  /-- Before `hdl.hb != nil`. -/
  | heartBeat
  /-- At `wsc.Close()` of websocket `i`. -/
  | websocket (i : ℕ)
  deriving DecidableEq, Repr

/-- Where a goroutine is. -/
inductive TaskPc where
  | unborn
  | running
  /-- At `once.Do`. -/
  | once
  | closing (pc : ClosePc)
  | done
  deriving DecidableEq, Repr

/-- Where `ListenAndServe` is while it runs (wss/wssocks_client.go:86-112). -/
inductive ServePc where
  /-- At `net.Listen`. -/
  | listen
  /-- At the test of `client.stop`. -/
  | check
  /-- At `tcpl.Accept()`. -/
  | accept
  deriving DecidableEq, Repr

/-- Where the main goroutine is in `StartClient` and `Wait` (client/client.go:181-287). -/
inductive MainPc where
  /-- `hdl.wg.Add(2)`. -/
  | add
  /-- The loop over the websockets. -/
  | listener (i : ℕ)
  /-- `hdl.hb = heartbeat`. -/
  | setHb
  | goHb
  /-- `hdl.cl = wss.NewClient()`. -/
  | setCl
  | goCl
  /-- `hdl.closed = false`. -/
  | opened
  /-- `hdl.wg.Wait()`. -/
  | wait
  | returned
  deriving DecidableEq, Repr

/-- The goroutine of an accepted connection: in `Reply`, between `wgClose.Add(1)` and `wgClose.Done()`, ended. -/
inductive ConnPc where
  | reply | active | ended
  deriving DecidableEq, Repr

/-- The state of a `sync.Once`. -/
inductive Once where
  | fresh
  /-- `t` runs the function, and the others wait. -/
  | busy (t : Task)
  | finished
  deriving DecidableEq, Repr

/-- The client process. `hb` and `cl` tell that the fields of the handles are set, `tcpl` whether the listener is
    closed, `none` before there is one, `ws i` that websocket `i` is closed. -/
structure Process where
  main : MainPc
  task : Task → TaskPc
  serve : ServePc
  once : Once
  hb : Bool
  cl : Bool
  /-- `hdl.closed`. -/
  closed : Bool
  /-- `client.closed`. -/
  clClosed : Bool
  stop : Bool
  tcpl : Option Bool
  /-- The context of the heart beats is cancelled. -/
  cancelled : Bool
  ws : ℕ → Bool
  wg : ℕ
  conns : List ConnPc
  interrupted : Bool
  exited : Bool
  panicked : Bool

/-- The labels. -/
inductive Label where
  /-- The next operation of `StartClient` or `Wait`. -/
  | main
  /-- The next operation of a goroutine. -/
  | task (t : Task)
  /-- The network ends the loop of a goroutine. -/
  | fail (t : Task)
  /-- A connection is accepted. -/
  | accept
  /-- The next operation of the goroutine of a connection; `Reply` may return an error. -/
  | conn (j : ℕ) (ok : Bool)
  /-- CTRL+C. -/
  | interrupt
  deriving DecidableEq, Repr

namespace Process

/-- The handles of `NewClientHandles` with their websockets. -/
def init : Process where
  main := .add
  task := fun _ => .unborn
  serve := .listen
  once := .fresh
  hb := false
  cl := false
  closed := true
  clClosed := false
  stop := false
  tcpl := none
  cancelled := false
  ws := fun _ => false
  wg := 0
  conns := []
  interrupted := false
  exited := false
  panicked := false

variable (n : ℕ) (s : Process)

/-- A goroutine moves to `pc`. -/
def goto (t : Task) (pc : TaskPc) : Process := { s with task := Function.update s.task t pc }

/-- `once.Do` returned in `t`. Each goroutine of `StartClient` then calls `wg.Done()`, which panics below zero. -/
def finish (t : Task) : Process :=
  match t with
  | .notify => s.goto t .done
  | _ => if s.wg = 0 then { s with panicked := true } else { s.goto t .done with wg := s.wg - 1 }

/-- The number of connections that `wgClose` counts. -/
def active : ℕ := s.conns.countP (· = .active)

/-- The next operation of `t` in the function of `once`. -/
def closeStep (t : Task) : ClosePc → Option Process
  | .start => some (s.goto t (.closing (if s.cl then .test else .heartBeat)))
  | .test => some (s.goto t (.closing (if s.clClosed then .heartBeat else .stop)))
  | .stop =>
    if s.stop then some { s with panicked := true }
    else some { s.goto t (.closing .tcpl) with stop := true, clClosed := true }
  -- `Close` of a nil listener returns an error
  | .tcpl => some { s.goto t (.closing (if t = .notify then .wait else .heartBeat)) with
      tcpl := s.tcpl.map fun _ => true }
  | .wait => if s.active = 0 then some (s.goto t (.closing .heartBeat)) else none
  | .heartBeat => some { s.goto t (.closing (.websocket 0)) with cancelled := s.cancelled || s.hb }
  | .websocket i =>
    if i < n then some { s.goto t (.closing (.websocket (i + 1))) with ws := Function.update s.ws i true }
    else some ({ s with once := .finished }.finish t)

/-- The next operation of the loop of `t`. `Read` fails on a closed websocket; so does a write, and `Start` returns
    the error of the last websocket (wss/heart_beat.go:48-54). -/
def runStep : Task → Option Process
  | .listener i => if s.ws i then some (s.goto (.listener i) .once) else none
  | .heartBeat =>
    if s.cancelled || (decide (0 < n) && s.ws (n - 1)) then some (s.goto .heartBeat .once) else none
  | .accept =>
    match s.serve with
    | .listen => some { s with tcpl := some false, serve := .check }
    | .check => if s.stop then some (s.goto .accept .once) else some { s with serve := .accept }
    | .accept => if s.tcpl = some true then some (s.goto .accept .once) else none
  | .notify => if s.closed then some (s.goto .notify .done) else some { s.goto .notify .once with closed := true }

/-- The next operation of `t`. -/
def taskStep (t : Task) : Option Process :=
  match s.task t with
  | .unborn | .done => none
  | .running => s.runStep n t
  | .once =>
    match s.once with
    | .fresh => some { s.goto t (.closing .start) with once := .busy t }
    | .busy _ => none
    | .finished => some (s.finish t)
  | .closing pc => s.closeStep n t pc

/-- The next operation of the main goroutine. -/
def mainStep : Option Process :=
  match s.main with
  | .add => some { s with wg := s.wg + 2, main := .listener 0 }
  | .listener i =>
    if i < n then some { s.goto (.listener i) .running with wg := s.wg + 1, main := .listener (i + 1) }
    else some { s with main := .setHb }
  | .setHb => some { s with hb := true, main := .goHb }
  | .goHb => some { s.goto .heartBeat .running with main := .setCl }
  | .setCl => some { s with cl := true, main := .goCl }
  | .goCl => some { s.goto .accept .running with main := .opened }
  | .opened => some { s with closed := false, main := .wait }
  | .wait => if s.wg = 0 then some { s with main := .returned } else none
  | .returned => none

/-- The network ends the loop of `t`; the test of `client.stop` cannot fail. -/
def failStep (t : Task) : Option Process :=
  if s.task t = .running ∧ t ≠ .notify ∧ (t = .accept → s.serve ≠ .check) then some (s.goto t .once) else none

/-- The next operation of a connection. -/
def connStep (j : ℕ) (ok : Bool) : Option Process :=
  match s.conns[j]? with
  | some .reply => some { s with conns := s.conns.set j (if ok then .active else .ended) }
  | some .active => some { s with conns := s.conns.set j .ended }
  | _ => none

/-- One step; nothing runs on when the process has ended. -/
def step (l : Label) : Option Process :=
  if s.exited || s.panicked || s.main = .returned then none
  else match l with
  | .main => s.mainStep n
  | .task t => s.taskStep n t
  | .fail t => s.failStep t
  | .accept =>
    if s.task .accept = .running ∧ s.serve = .accept ∧ s.tcpl = some false then
      some { s with conns := s.conns ++ [.reply], serve := .check }
    else none
  | .conn j ok => s.connStep j ok
  -- the handler is installed by `Wait`
  | .interrupt =>
    if s.main = .wait then
      if s.interrupted then some { s with exited := true }
      else some { s.goto .notify .running with interrupted := true }
    else none

end Process

end Wssocks.Cli

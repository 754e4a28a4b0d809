import Wssocks.Wss.Frames
import Wssocks.Wss.Inbox
import Wssocks.Wss.Traffic

/-!
# Servers over frames

The server with frames on its websockets in place of messages, as the bytes that `WsConn.Read`
gives. The server tests nothing about who sends them.

Results:

* `WireServer.serve_abs`: a step of the server over frames is a step of the server over the messages that they
  stand for, and one can be taken exactly if the other can.
* `frames_simulated`: so it is for every run, whatever frames arrive. Only a frame over the read limit makes the
  server end the reading of a websocket.
-/

namespace Wssocks.Wss

open Wssocks.Lib Wssocks.Pipe

variable {W KSUID : Type} [DecidableEq W] [DecidableEq KSUID] [Inhabited KSUID] (K : KsuidLib KSUID) (L : WebsocketLib)

/-- The server, and the frames that wait on each websocket; nothing waits in `server.inbox`. -/
structure WireServer (W KSUID : Type) [DecidableEq KSUID] where
  server : Server W KSUID
  frames : W → List Frame

/-- A frame arrives, or the server takes a step. -/
inductive WireTraffic (W KSUID : Type) where
  | arrive (w : W) (f : Frame)
  | act (l : ServerLabel W KSUID)
  deriving DecidableEq, Repr

namespace WireServer

def init [Inhabited W] : WireServer W KSUID := ⟨Server.init, fun _ => []⟩

/-- A frame arrives on websocket `w`. -/
def arrive (x : WireServer W KSUID) (w : W) (f : Frame) : WireServer W KSUID :=
  { x with frames := Function.update x.frames w (x.frames w ++ [f]) }

/-- One step. Where `wc.Read` fails, the loop of `ServeHTTP` ends (wss/wssocks_server.go:57-68). -/
def step (x : WireServer W KSUID) : ServerLabel W KSUID → Option (WireServer W KSUID × Option (W × Msg KSUID))
  | .recv w =>
    if x.server.crashed || x.server.queues.crashed || x.server.links.crashed then none
    else match x.server.reader w, x.frames w with
    | .idle, f :: fs =>
      if L.refuses serverLimit f then some ({ x with server := x.server.goReader w .hubClose }, none)
      else some (⟨(x.server.dispatchMessage K w f).1, Function.update x.frames w fs⟩, none)
    | _, _ => none
  | l => (x.server.step l).map fun r => (⟨r.1, x.frames⟩, r.2)

/-- One step of the server and its clients; what the server sends is dropped. -/
def serve (x : WireServer W KSUID) : WireTraffic W KSUID → Option (WireServer W KSUID)
  | .arrive w f => some (x.arrive w f)
  | .act l => (x.step K L l).map Prod.fst

/-- The server with the messages that the frames stand for. -/
def abs (x : WireServer W KSUID) : Server W KSUID := x.server.withInbox fun w => (x.frames w).map (serverReads K)

/-- What a step over frames is over messages: to read a frame that `wc.Read` fails on is to lose the websocket. -/
def stands (x : WireServer W KSUID) : WireTraffic W KSUID → Traffic W KSUID
  | .arrive w f => .arrive w (serverReads K f)
  | .act (.recv w) => if (x.frames w).head?.any (L.refuses serverLimit) then .act (.disconnect w) else .act (.recv w)
  | .act l => .act l

variable {K L} {x x' : WireServer W KSUID} {w : W} {l : ServerLabel W KSUID}

theorem step_act (hl : ∀ w, l ≠ .recv w) :
    x.step K L l = (x.server.step l).map fun r => (⟨r.1, x.frames⟩, r.2) := by
  cases l with
  | recv w => exact absurd rfl (hl w)
  | _ => rfl

/-- To take a frame off a websocket is to take its message, or to lose the websocket. -/
theorem recv_abs (w : W) : (x.step K L (.recv w)).map (fun r => (r.1.abs K, r.2)) =
    (x.abs K).step (if (x.frames w).head?.any (L.refuses serverLimit) then .disconnect w else .recv w) := by
  have hfields : (x.abs K).reader = x.server.reader ∧ (x.abs K).inbox = fun w => (x.frames w).map (serverReads K) :=
    ⟨rfl, rfl⟩
  by_cases hc : (x.server.crashed || x.server.queues.crashed || x.server.links.crashed) = true
  · have hnone : ∀ l, (x.abs K).step l = none := fun l => if_pos hc
    rw [hnone, show x.step K L (.recv w) = none from if_pos hc]
    rfl
  have hc' : ¬ ((x.abs K).crashed || (x.abs K).queues.crashed || (x.abs K).links.crashed) = true := hc
  simp only [WireServer.step, if_neg hc]
  cases hf : x.frames w with
  | nil =>
    simp only [List.head?_nil, Option.any_none, Bool.false_eq_true, if_false, Server.step, if_neg hc', hfields, hf,
      List.map_nil]
    cases x.server.reader w <;> rfl
  | cons f fs =>
    simp only [List.head?_cons, Option.any_some]
    by_cases hlim : L.refuses serverLimit f = true
    · simp only [hlim, if_true, Server.step, if_neg hc', hfields]
      cases x.server.reader w with
      | idle => simp only [hlim, if_true, Option.map_some]; rfl
      | _ => rfl
    · simp only [hlim, Bool.false_eq_true, if_false, Server.step, if_neg hc', hfields, hf, List.map_cons]
      cases x.server.reader w <;> try rfl
      simp only [hlim, Bool.false_eq_true, if_false, Option.map_some]
      have htail : (fun v => (Function.update x.frames w fs v).map (serverReads K)) =
          Function.update (fun v => (x.frames v).map (serverReads K)) w (fs.map (serverReads K)) :=
        funext fun v => Function.apply_update (fun _ => List.map (serverReads K)) x.frames w fs v
      show some (((x.server.dispatchMessage K w f).1.withInbox
        fun v => (Function.update x.frames w fs v).map (serverReads K)), none) = _
      rw [Server.dispatchMessage_fst, htail]
      exact congrArg (fun s => some (s, none)) (Server.dispatch_withInbox (s := x.server) (serverReads K f)).symm

theorem arrive_abs (w : W) (f : Frame) : (x.arrive w f).abs K = (x.abs K).arrive w (serverReads K f) := by
  have hinbox : (fun v => (Function.update x.frames w (x.frames w ++ [f]) v).map (serverReads K)) =
      Function.update (fun v => (x.frames v).map (serverReads K)) w
        ((x.frames w).map (serverReads K) ++ [serverReads K f]) := by
    funext v
    rw [Function.apply_update (fun _ => List.map (serverReads K)), List.map_append]
    rfl
  exact congrArg x.server.withInbox hinbox

/-- The two servers can take the same steps, with the same results. -/
theorem serve_abs (t : WireTraffic W KSUID) :
    (x.serve K L t).map (WireServer.abs K) = (x.abs K).serve (x.stands K L t) := by
  cases t with
  | arrive w f => exact congrArg some (arrive_abs w f)
  | act l =>
    by_cases hl : ∀ w, l ≠ .recv w
    · have hstands : x.stands K L (.act l) = .act l := by
        cases l with
        | recv w => exact absurd rfl (hl w)
        | _ => rfl
      rw [hstands, WireServer.serve, WireServer.step_act hl, Server.serve, WireServer.abs, Server.step_withInbox hl,
        Option.map_map, Option.map_map, Option.map_map]
      rfl
    · push Not at hl
      obtain ⟨w, rfl⟩ := hl
      have hserve : (x.abs K).serve (x.stands K L (.act (.recv w))) = ((x.abs K).step
          (if (x.frames w).head?.any (L.refuses serverLimit) then .disconnect w else .recv w)).map Prod.fst := by
        rw [WireServer.stands]
        split_ifs <;> rfl
      rw [hserve, ← recv_abs, WireServer.serve, Option.map_map, Option.map_map]
      rfl

omit [DecidableEq W] in
/-- Only a frame over the limit is not read. -/
theorem limit_lt_of_stands (h : x.stands K L (.act (.recv w)) ≠ .act (.recv w)) :
    ∃ f fs, x.frames w = f :: fs ∧ serverLimit < f.data.length := by
  rw [WireServer.stands] at h
  split_ifs at h with hany
  · cases hf : x.frames w with
    | nil => rw [hf] at hany; cases hany
    | cons f fs =>
      rw [hf, List.head?_cons, Option.any_some] at hany
      exact ⟨f, fs, rfl, L.limit_lt _ _ hany⟩
  · exact absurd rfl h

end WireServer

variable {K L} {x : WireServer W KSUID} {ls : List (WireTraffic W KSUID)}

/-- Whatever the clients send, the server over frames does what the server does over the messages that the frames
    stand for, and can do the same next. It ends the reading of a websocket only for a frame over the limit. -/
theorem frames_simulated [Inhabited W] (h : Run (WireServer.serve K L) anyStep WireServer.init ls x) :
    Run Server.serve anyStep Server.init
      (history (WireServer.serve K L) (fun x t => [x.stands K L t]) WireServer.init ls) (x.abs K) ∧
    (∀ t, (x.serve K L t).map (WireServer.abs K) = (x.abs K).serve (x.stands K L t)) ∧
    ∀ w, x.stands K L (.act (.recv w)) ≠ .act (.recv w) →
      ∃ f fs, x.frames w = f :: fs ∧ serverLimit < f.data.length := by
  refine ⟨?_, WireServer.serve_abs, fun w => WireServer.limit_lt_of_stands⟩
  refine h.history_invariant (I := fun as x => Run Server.serve anyStep Server.init as (x.abs K)) (.nil _) ?_
  intro as x t x' hrun _ hstep
  refine .snoc hrun trivial ?_
  rw [← WireServer.serve_abs, hstep]
  rfl

/-- Bytes that are no JSON, a binary message, an end of stream for nobody, then the first message of a session. -/
def mixedFrames : List (WireTraffic ℕ (Fin 10)) := [
  .arrive 0 ⟨true, [0x7B]⟩, .arrive 0 ⟨false, (sayID .digit .newline (1 : Fin 10) 1).data⟩,
  .arrive 0 (writeProxyMessage .digit .newline 1 5 []), .arrive 0 (sayID .digit .newline 1 1),
  .act (.recv 0), .act (.recv 0), .act (.recv 0), .act (.recv 0), .act (.reader 0)]

/-- The frame `f` is all that has arrived. -/
def waiting (f : Frame) : WireServer ℕ (Fin 10) := ⟨Server.init, Function.update (fun _ => []) 0 [f]⟩

/-- The server ends the reading of websocket 0. -/
def hungUp (f : Frame) : WireServer ℕ (Fin 10) := { waiting f with server := Server.init.goReader 0 .hubClose }

theorem serve_waiting {f : Frame} (hf : serverLimit < f.data.length) :
    (waiting f).serve .digit .newline (.act (.recv 0)) = some (hungUp f) := by
  have hstep : (waiting f).step .digit .newline (.recv 0) = some (hungUp f, none) := if_pos (decide_eq_true hf)
  rw [WireServer.serve, hstep]
  rfl

/-- The server reads `mixedFrames` as messages, and hangs up on a frame that is too long. -/
theorem frames_simulated_mixed :
    (∃ x, Run (WireServer.serve .digit .newline) anyStep WireServer.init mixedFrames x ∧
      x.server.links.hub.ref? 1 = some 0 ∧
      Run Server.serve anyStep Server.init [.arrive 0 .beats, .arrive 0 .beats, .arrive 0 (.data 1 .eof []),
        .arrive 0 (.sayhi 1 1), .act (.recv 0), .act (.recv 0), .act (.recv 0), .act (.recv 0), .act (.reader 0)]
        (x.abs .digit)) ∧
    ∃ f, Run (WireServer.serve .digit .newline) anyStep WireServer.init [.arrive 0 f, .act (.recv 0)] (hungUp f) ∧
      Run Server.serve anyStep Server.init [.arrive 0 (serverReads .digit f), .act (.disconnect 0)]
        ((hungUp f).abs .digit) := by
  constructor
  · have hexec : (exec (WireServer.serve .digit .newline) (fun _ _ => true) WireServer.init mixedFrames).map
        (fun x => x.server.links.hub.ref? 1) = some (some 0) := by
      decide +kernel
    obtain ⟨x, hrun, hobs⟩ := exists_run_of_exec hexec
    have hany : Run (WireServer.serve .digit .newline) anyStep WireServer.init mixedFrames x :=
      hrun.mono fun _ _ _ => trivial
    have hstands : history (WireServer.serve .digit .newline) (fun x t => [x.stands .digit .newline t]) WireServer.init
        mixedFrames = [.arrive 0 .beats, .arrive 0 .beats, .arrive 0 (.data 1 .eof []), .arrive 0 (.sayhi 1 1),
          .act (.recv 0), .act (.recv 0), .act (.recv 0), .act (.recv 0), .act (.reader 0)] := by
      decide +kernel
    exact ⟨x, hany, hobs, hstands ▸ (frames_simulated hany).1⟩
  · obtain ⟨f, hf⟩ : ∃ f : Frame, serverLimit < f.data.length :=
      ⟨⟨true, List.replicate (serverLimit + 1) 0⟩, by rw [List.length_replicate]; exact Nat.lt_succ_self _⟩
    have harrive : (WireServer.init : WireServer ℕ (Fin 10)).serve .digit .newline (.arrive 0 f) =
        some (waiting f) := rfl
    have hrun : Run (WireServer.serve .digit .newline) anyStep WireServer.init [.arrive 0 f, .act (.recv 0)]
        (hungUp f) := .snoc (.snoc (.nil _) trivial harrive) trivial (serve_waiting hf)
    have hstands : (waiting f).stands .digit .newline (.act (.recv 0)) = .act (.disconnect 0) :=
      if_pos (decide_eq_true hf)
    have hsim := (frames_simulated hrun).1
    simp only [history, harrive, serve_waiting hf, hstands, Option.elim_some] at hsim
    exact ⟨f, hrun, hsim⟩

end Wssocks.Wss

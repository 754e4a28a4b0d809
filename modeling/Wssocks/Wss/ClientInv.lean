import Wssocks.Pipe.Transit
import Wssocks.Wss.Client
import Wssocks.Wss.Session

/-!
# The invariant of `transData`

`ClientInv` is what holds in every state of a call of `transData` whose websockets
stay silent until `Establish` has sent the `est` message, whatever the outcome of
writes and timers and whenever `finish` arrives. The ghost values are the
`Source` of the client's queue, the `Flow` of its links, and `est`, which tells that
the `est` message was sent.

`ClientStep` is the effect of a step on the two directions of the session.
-/

namespace Wssocks.Wss

open Wssocks.Lib Wssocks.Pipe

variable {KSUID : Type} [DecidableEq KSUID] [Inhabited KSUID]

/-! ## Where `transData` is -/

/-- How many of the `n` lanes were greeted with `sayhi`. -/
def TransPc.greeted (n : ℕ) : TransPc → ℕ
  | .newProxy i | .sayID i => i
  | .queueAdd i | .linkAdd i => i + 1
  | _ => n

/-- How many of the `n` lanes were registered for messages. -/
def TransPc.proxies (n : ℕ) : TransPc → ℕ
  | .newProxy i => i
  | .sayID i | .queueAdd i | .linkAdd i => i + 1
  | _ => n

/-- `transData` runs its deferred functions. -/
def TransPc.over : TransPc → Bool
  | .remove _ | .cancel _ | .rmProxy _ | .returned => true
  | _ => false

/-- The chunk the reader of a websocket is about to put into a link. -/
def ClientReader.hand : ClientReader KSUID → List Buffer
  | .check _ b | .select _ b => [b]
  | _ => []

/-- The chunks on their way to the link of lane `k`. -/
def Client.pend (s : Client KSUID) (k : ℕ) : List Buffer :=
  (s.reader k).hand ++ (s.inbox k).filterMap Msg.chunk?

/-- The hubs while the lanes are added: `a` writers and `b` links so far. -/
structure Adding (ids : List KSUID) (m : KSUID) (src : Source) (f : Flow)
    (qh : QueueHub KSUID (WsWriter ℕ KSUID)) (lh : LinkHub KSUID) (a b : ℕ) : Prop where
  written : ∀ k, src.lanes.written k = decide (k < a)
  counted : ∀ k, f.lanes.counted k = decide (k < b)
  link : ∀ k, k ≠ 0 → b ≤ k → f.lanes.link k = none
  noSort : src.lanes.sorted = false
  blank : f.lanes.sorted = false ∧ f.lanes.conn = false
  ref? : qh.ref? m = src.lanes.queue
  live : Live ids f lh

/-- Before `go oo.Send(…)`: what the master's link was told. -/
structure Unmerged (f : Flow) (lk : Links KSUID) (conn sorted : Bool) : Prop where
  conn : f.lanes.conn = conn
  sorted : f.lanes.sorted = sorted
  sends : ∀ r, f.lanes.link 0 = some r → lk.sends r = []

/-- What holds where `transData` is. -/
def TransAt (ids : List KSUID) (m : KSUID) (est : Bool) (src : Source) (f : Flow) (s : Client KSUID) :
    TransPc → Prop
  | .newProxy i => est = false ∧ i ≤ ids.length ∧ Adding ids m src f s.queues.hub s.links.hub i i
  | .sayID i | .queueAdd i => est = false ∧ i < ids.length ∧ Adding ids m src f s.queues.hub s.links.hub i i
  | .linkAdd i => est = false ∧ i < ids.length ∧ Adding ids m src f s.queues.hub s.links.hub (i + 1) i
  | .establish => est = false ∧ Adding ids m src f s.queues.hub s.links.hub ids.length ids.length
  | .getQueue => est = true ∧ Unmerged f s.links false false ∧ s.copy.pc = .idle ∧
      ∀ q, s.queues.sends q = []
  | .setQueueSort q => est = true ∧ src.lanes.queue = some q ∧ Unmerged f s.links false false ∧
      s.copy.pc = .idle ∧ ∀ q, s.queues.sends q = []
  | .goSend q => est = true ∧ src.lanes.queue = some q ∧ src.lanes.sorted = true ∧
      Unmerged f s.links false false ∧ s.copy.pc = .idle ∧ ∀ q, s.queues.sends q = []
  | .goCopy q => est = true ∧ src.lanes.queue = some q ∧ Unmerged f s.links false false ∧ s.copy.pc = .idle
  | .getLink => est = true ∧ Unmerged f s.links false false
  | .setConn o => est = true ∧ f.lanes.link 0 = some o ∧ Unmerged f s.links false false
  | .setLinkSort o => est = true ∧ f.lanes.link 0 = some o ∧ Unmerged f s.links true false
  | .goLinkSend o => est = true ∧ f.lanes.link 0 = some o ∧ Unmerged f s.links true true
  | .wait o => est = true ∧ f.lanes.link 0 = some o
  | .remove _ | .cancel _ | .rmProxy _ | .returned =>
      MergerDone f s.links ∨ ∀ r, f.lanes.link 0 = some r → s.links.sends r = []

/-- What the reader of lane `k` may be doing. -/
def ClientReaderAt (ids : List KSUID) (m : KSUID) (f : Flow) (k : ℕ) : ClientReader KSUID → Prop
  | .idle => True
  | .check q _ | .select q _ => k < ids.length ∧ f.lanes.link k = some q
  | .remove id _ => k = 0 ∧ id = m

/-- What the server of the session may send on lane `k`. -/
def Reply (ids : List KSUID) (m : KSUID) (k : ℕ) : Msg KSUID → Prop
  | .data id tag _ => ids[k]? = some id ∧ (tag = .data ∨ tag = .eof)
  | .finish id => k = 0 ∧ id = m
  | _ => False

/-- The invariant of a call of `transData`. -/
structure ClientInv (ids : List KSUID) (m : KSUID) (est : Bool) (src : Source) (f : Flow)
    (s : Client KSUID) : Prop where
  split : SplitInv ids m (laneWriter ids) src s.queues
  merge : MergeInv ids 0 f s.links
  qsolo : ∀ q, src.lanes.queue ≠ some q → s.queues.sends q = []
  qone : ∀ q, (s.queues.sends q).length ≤ 1
  lsolo : ∀ r, f.lanes.link 0 ≠ some r → s.links.sends r = []
  qfirst : ∀ {q}, s.queues.hub.ref? m = some q → src.lanes.queue = some q
  lfirst : ∀ {r}, s.links.hub.ref? m = some r → f.lanes.link 0 = some r
  copy : CopyInv s.copy src.enq
  feeds : s.copy.pc ≠ .idle → src.lanes.queue = some s.qq
  done : s.links.DoneOk
  trans : TransAt ids m est src f s s.pc
  all : est = true → ∀ k < ids.length, src.lanes.written k = true ∧ f.lanes.counted k = true
  registered : s.pc.over = false → ∀ k < s.pc.proxies ids.length, s.registered k = true
  reader : ∀ k, ClientReaderAt ids m f k (s.reader k)
  inbox : ∀ {k x}, x ∈ s.inbox k → Reply ids m k x
  mute : est = false → (∀ k, s.inbox k = [] ∧ s.reader k = .idle) ∧ s.copy.pc = .idle ∧
    (∀ q, s.queues.sends q = []) ∧ ∀ r, s.links.sends r = []

/-! ## What a step of the client does to the two directions -/

/-- The chunks on their way to the client's links are in order, or the links will never
    be drained. -/
def Down (ids : List KSUID) (f : Flow) (s : Client KSUID) (sent : List Buffer) : Prop :=
  Transit ids f s.links s.pend sent ∨
    (s.pc.over = true ∧ ∀ r, f.lanes.link 0 = some r → s.links.sends r = [])

/-- What the client sends, and what it has sent of the handshake then. -/
inductive Speaks (ids : List KSUID) (m : KSUID) (est : Bool) (pc : TransPc) (sent : List Buffer)
    (est' : Bool) (pc' : TransPc) (sent' : List Buffer) : Option (ℕ × Msg KSUID) → Prop
  | nothing (he : est' = est) (hg : pc'.greeted ids.length = pc.greeted ids.length)
      (hs : sent' = sent) : Speaks ids m est pc sent est' pc' sent' none
  | sayhi {k : ℕ} {id : KSUID} (he : est' = est) (hid : ids[k]? = some id)
      (hg : pc.greeted ids.length = k) (hg' : pc'.greeted ids.length = k + 1) (hs : sent' = sent) :
      Speaks ids m est pc sent est' pc' sent' (some (k, .sayhi id m))
  | est (he : est = false) (he' : est' = true) (hg : pc.greeted ids.length = ids.length)
      (hg' : pc'.greeted ids.length = ids.length) (hs : sent' = sent) :
      Speaks ids m est pc sent est' pc' sent' (some (0, .est m ids))
  | chunk {b : Buffer} (he : est = true) (he' : est' = true)
      (hg : pc'.greeted ids.length = pc.greeted ids.length)
      (hs : sent' = sent ++ [b]) (hb : b.eof = true → b.data = []) :
      Speaks ids m est pc sent est' pc' sent'
        (some ((laneWriter ids (sent.length % ids.length)).msg b))
  | finish (he : est = true) (he' : est' = true) (hg : pc'.greeted ids.length = pc.greeted ids.length)
      (hs : sent' = sent) : Speaks ids m est pc sent est' pc' sent' (some (0, .finish m))

/-- The effect of a step on the two directions: no chunk is dropped by a timer while
    the merger runs; and unless a `sayhi` is lost, the client sends what it should. -/
structure ClientStep (ids : List KSUID) (m : KSUID) (est : Bool) (src : Source) (f : Flow)
    (s : Client KSUID) (l : ClientLabel) (est' : Bool) (src' : Source) (f' : Flow) (s' : Client KSUID)
    (out : Option (ℕ × Msg KSUID)) : Prop where
  flow : (∀ w, l = .writeTimeout w → MergerDone f s.links) → ∀ sent, Down ids f s sent → Down ids f' s' sent
  speaks : (l = .transFail → ∀ i, s.pc ≠ .sayID i) →
    Speaks ids m est s.pc src.sent est' s'.pc src'.sent out

end Wssocks.Wss

import Wssocks.Lib.Lts
import Wssocks.Pipe.Transit
import Wssocks.Wss.Server

/-!
# A well-behaved session on the server

`Session` is the server together with a client that keeps to the protocol: on lane
`k`, which is websocket `k`, it sends the `sayhi` of the lane first; on the master
lane, lane 0, `est` follows; after that come data messages of the lane, and on the
master lane also `finish`. The lanes are independent of each other, so the messages
of different lanes arrive in any order. Everything else is the server's own steps.

`SessInv` is what holds in every state of a session, whatever the outcome of the
dial, of writes and of timers, and whenever the session is closed.
-/

namespace Wssocks.Wss

open Wssocks.Lib Wssocks.Pipe

variable {KSUID : Type} [DecidableEq KSUID] [Inhabited KSUID]

/-- The server and what the client has sent of its handshake. -/
structure Session (KSUID : Type) [DecidableEq KSUID] where
  server : Server ℕ KSUID
  hiSent : ℕ → Bool
  estSent : Bool

/-- What a client may send on lane `k` after the handshake; `m` is the master id. -/
def Late (ids : List KSUID) (m : KSUID) (k : ℕ) : Msg KSUID → Prop
  | .data id _ _ => ids[k]? = some id
  | .finish id => k = 0 ∧ id = m
  | .beats => True
  | _ => False

instance (ids : List KSUID) (m : KSUID) (k : ℕ) (x : Msg KSUID) : Decidable (Late ids m k x) := by
  cases x <;> simp only [Late] <;> infer_instance

/-- The labels of a session. -/
inductive SessionLabel (KSUID : Type) where
  | sayhi (k : ℕ)
  | est
  | late (k : ℕ) (x : Msg KSUID)
  | act (l : ServerLabel ℕ KSUID)
  deriving DecidableEq, Repr

namespace Session

/-- Nothing was sent yet. -/
def init : Session KSUID := ⟨Server.init, fun _ => false, false⟩

/-- One step of the session; what the server sends is dropped. -/
def step (ids : List KSUID) (s : Session KSUID) : SessionLabel KSUID → Option (Session KSUID)
  | .sayhi k =>
    match ids[k]? with
    | some id => if s.hiSent k then none else some
        { s with server := s.server.arrive k (.sayhi id (ids.headD default))
                 hiSent := Function.update s.hiSent k true }
    | none => none
  | .est =>
    if s.hiSent 0 ∧ s.estSent = false then
      some { s with server := s.server.arrive 0 (.est (ids.headD default) ids), estSent := true }
    else none
  | .late k x =>
    if s.hiSent k ∧ (k = 0 → s.estSent = true) ∧ Late ids (ids.headD default) k x then
      some { s with server := s.server.arrive k x }
    else none
  | .act l => (s.server.step l).map fun r => { s with server := r.1 }

end Session

omit [DecidableEq KSUID] [Inhabited KSUID] in
theorem exists_master {ids : List KSUID} (hne : ids ≠ []) : ∃ m, ids[0]? = some m := by
  cases ids with
  | nil => exact absurd rfl hne
  | cons a t => exact ⟨a, rfl⟩

/-! ## What is on the way to the links -/

/-- The chunk a data message carries. -/
def Msg.chunk? : Msg KSUID → Option Buffer
  | .data _ tag bytes => some (if tag = .eof then ⟨true, []⟩ else ⟨false, bytes⟩)
  | _ => none

/-- The chunk the reader of a websocket is about to put into a link. -/
def Reader.hand : Reader KSUID → List Buffer
  | .check _ b | .select _ b => [b]
  | _ => []

/-- The chunks on their way to the link of lane `k`. -/
def Server.pend (s : Server ℕ KSUID) (k : ℕ) : List Buffer :=
  (s.reader k).hand ++ (s.inbox k).filterMap Msg.chunk?

/-! ## The invariant -/

/-- Which handshake messages the server has begun to handle. -/
structure Seen where
  hi : ℕ → Bool
  est : Bool

/-- Before `establish` has made the session known to `finish`. -/
def Server.Early (s : Server ℕ KSUID) : Prop :=
  s.nextEst = 0 ∨ (s.ests 0).pc = .dial ∨ (s.ests 0).pc = .linkTrySend ∨ (s.ests 0).pc = .addProxy

/-- Before `serverQueueHub.Get`. -/
def EstPc.beforeWait : EstPc → Bool
  | .dial | .linkTrySend | .addProxy | .queueTrySend | .get => true
  | _ => false

/-- The writer of lane `k`. -/
def laneWriter (ids : List KSUID) (k : ℕ) : WsWriter ℕ KSUID := ⟨k, ids.getD k default⟩

/-- The `sayhi` of lane `k` was handled. -/
def Server.hiDone (s : Server ℕ KSUID) (seen : Seen) (k : ℕ) : Prop :=
  seen.hi k = true ∧ ∀ x y, s.reader k ≠ .hi x y

/-- What the reader of lane `k` may be doing. -/
def ReaderAt (ids : List KSUID) (m : KSUID) (f : Flow) (seen : Seen) (s : Server ℕ KSUID) (k : ℕ) :
    Reader KSUID → Prop
  | .idle | .hubClose | .stopped => True
  | .hi id x => ids[k]? = some id ∧ x = m ∧ seen.hi k = true
  | .est id sorted => k = 0 ∧ id = m ∧ sorted = ids ∧ seen.est = true ∧ s.nextEst = 0
  | .check q _ | .select q _ => k < ids.length ∧ (f.lanes.link k = some q ∨
      (k = 0 ∧ q < s.links.hub.next ∧ (∀ j, f.lanes.link j ≠ some q) ∧ ¬ Live ids f s.links.hub))
  | .close e id _ | .hubCloseAt e id _ => k = 0 ∧ e = 0 ∧ id = m ∧ ¬ s.Early

/-- The messages of lane `k` that were not read yet: the handshake messages that
    were sent and not seen, then later ones. -/
def InboxAt (ids : List KSUID) (m : KSUID) (seen : Seen) (s : Session KSUID) (k : ℕ) : Prop :=
  ∃ rest, s.server.inbox k =
      (if s.hiSent k = true ∧ seen.hi k = false then [.sayhi (ids.getD k default) m] else []) ++
      ((if k = 0 ∧ s.estSent = true ∧ seen.est = false then [.est m ids] else []) ++ rest) ∧
    (∀ x ∈ rest, Late ids m k x) ∧ (rest ≠ [] → s.hiSent k = true ∧ (k = 0 → s.estSent = true))

/-- The messages that were sent are seen or in the inboxes. -/
structure Mail (ids : List KSUID) (m : KSUID) (seen : Seen) (s : Session KSUID) : Prop where
  hi_dom : ∀ {k}, s.hiSent k = true → k < ids.length
  hi_sent : ∀ {k}, seen.hi k = true → s.hiSent k = true
  est_hi : s.estSent = true → s.hiSent 0 = true
  est_sent : seen.est = true → s.estSent = true
  inbox : ∀ k, InboxAt ids m seen s k

/-- The invariant of a session. -/
structure SessInv (ids : List KSUID) (m : KSUID) (g : QueueMap) (f : Flow) (seen : Seen)
    (s : Session KSUID) : Prop extends Mail ids m seen s where
  holds : Holds ids m (laneWriter ids) g s.server.queues.hub
  merge : MergeInv ids 0 f s.server.links
  qsolo : ∀ q, g.queue ≠ some q → s.server.queues.sends q = []
  lsolo : ∀ r, f.lanes.link 0 ≠ some r → s.server.links.sends r = []
  reader : ∀ k, ReaderAt ids m f seen s.server k (s.server.reader k)
  unwritten : ∀ {k}, seen.hi k = false → g.written k = false
  queued : ∀ {k}, seen.hi k = true → g.queue.isSome
  uncounted : ∀ {k}, ¬ s.server.hiDone seen k →
    f.lanes.counted k = false ∧ (k ≠ 0 → f.lanes.link k = none)
  linked : ∀ {k}, s.server.hiDone seen k → (f.lanes.link k).isSome
  early : s.server.Early → s.server.queues.hub.ref? m = g.queue ∧ Live ids f s.server.links.hub
  pool : ∀ {w x e}, (s.server.pool w).lookup x = some e → w = 0 ∧ x = m ∧ e = 0 ∧ ¬ s.server.Early
  estHi : seen.est = true → s.server.hiDone seen 0
  ordered : g.sorted = true → seen.est = true
  noEst : seen.est = false → s.server.nextEst = 0
  blank : s.server.nextEst = 0 → f.lanes.conn = false ∧ (s.server.ests 0).writer = none
  oneEst : s.server.nextEst ≤ 1
  theEst : s.server.nextEst = 1 → (s.server.ests 0).ws = 0 ∧ (s.server.ests 0).id = m ∧
    f.lanes.sorted = true ∧
    ((s.server.ests 0).pc = .dial ∨ (s.server.ests 0).pc = .linkTrySend → f.lanes.conn = false) ∧
    ((s.server.ests 0).pc.beforeWait = true → (s.server.ests 0).writer = none)

/-! ## What a step of the server does to the two directions -/

/-- The chunks on their way to the links stay in order. -/
def Flowed (ids : List KSUID) (f : Flow) (s : Server ℕ KSUID) (f' : Flow) (s' : Server ℕ KSUID) : Prop :=
  ∀ sent, Transit ids f s.links s.pend sent → Transit ids f' s'.links s'.pend sent

/-- `CopyBuffer` feeds the session's first queue, or another one; then nothing was
    put into the first. -/
structure Feeds (ids : List KSUID) (m : KSUID) (src : Source) (s : Server ℕ KSUID) : Prop where
  split : SplitInv ids m (laneWriter ids) src s.queues
  fed : (∃ q, src.lanes.queue = some q ∧ (s.ests 0).writer = some q ∧
      CopyInv (s.ests 0).copy src.enq) ∨
    (src.enq = [] ∧ ∀ q, (s.ests 0).writer = some q → q < s.queues.hub.next ∧ src.lanes.queue ≠ some q)

/-- What the server sends: nothing, the next chunk on the lane whose turn it is, or
    `finish` on the master lane. -/
inductive Emits (ids : List KSUID) (m : KSUID) (sent sent' : List Buffer) : Option (ℕ × Msg KSUID) → Prop
  | nothing (hs : sent' = sent) : Emits ids m sent sent' none
  | chunk {b : Buffer} (hs : sent' = sent ++ [b]) (hb : b.eof = true → b.data = []) :
      Emits ids m sent sent' (some ((laneWriter ids (sent.length % ids.length)).msg b))
  | finish (hs : sent' = sent) : Emits ids m sent sent' (some (0, .finish m))

/-- The effect of a step on the two directions: under the conditions that no chunk
    is dropped by a timer while the merger runs, and that only one body of
    `queue.Send` runs, chunks stay in order. -/
structure SessStep (ids : List KSUID) (m : KSUID) (g : QueueMap) (f : Flow) (s : Server ℕ KSUID)
    (l : ServerLabel ℕ KSUID) (g' : QueueMap) (f' : Flow) (s' : Server ℕ KSUID)
    (out : Option (ℕ × Msg KSUID)) : Prop where
  flow : (∀ w, l = .writeTimeout w → MergerDone f s.links) → Flowed ids f s f' s'
  feed : ∀ src, src.lanes = g → Feeds ids m src s →
    (∀ q i o, l = .queueSend q i o → s.queues.SecondOk q i) →
    ∃ src', src'.lanes = g' ∧ Feeds ids m src' s' ∧ Emits ids m src.sent src'.sent out

end Wssocks.Wss

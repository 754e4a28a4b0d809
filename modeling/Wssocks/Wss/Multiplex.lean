import Wssocks.Pipe.Shared
import Wssocks.Wss.Ops
import Wssocks.Wss.Session

/-!
# Sessions that share the websockets

Any number of sessions send over the same websockets: lane `k` of every session is
websocket `k` (`transData` ranges over the same `wsc` for each of them). The client
of a session sends one message after the other: `sayhi` on each of its lanes, `est`
on the master lane, then its chunks on the lanes in turn, up to an end of stream. A
websocket delivers the messages of all sessions in the order in which they were
sent, and its reader, which handles one at a time, waits in `link.Write` while the
buffer of one session is full. Meanwhile every other session on this websocket waits.

Only the direction from the client to the server is run, every dial succeeds, every
write completes, no timer fires and nothing is closed (`Server.Calm`).

`MuxInv` is the invariant. A `Book` holds what cannot be read off the state: which
messages of whom are on which websocket, and when they were sent.

Results:

* `Posted.post`, `Posted.handle`: the messages on the websockets.
* `Posted.prev_done`: a message that a reader handles is the first one of its session
  on this websocket.
-/

namespace Wssocks.Wss

open Wssocks.Lib Wssocks.Pipe

variable {S KSUID : Type} [DecidableEq KSUID] [Inhabited KSUID]

/-! ## The system -/

/-- The lane on which a client with `n` lanes sends its message number `j`. -/
def laneOf (n j : ℕ) : ℕ := if j < n then j else if j = n then 0 else (j - (n + 1)) % n

/-- Message number `j` of a client; `b` is what it sends if this is a chunk. -/
def script (ids : List KSUID) (j : ℕ) (b : Buffer) : Msg KSUID :=
  if j < ids.length then .sayhi (ids.getD j default) (ids.headD default)
  else if j = ids.length then .est (ids.headD default) ids
  else ((laneWriter ids (laneOf ids.length j)).msg b).2

/-- The server, how many messages each client has sent, and whether the last one was an end of stream. -/
structure Mux (S KSUID : Type) [DecidableEq KSUID] where
  server : Server ℕ KSUID
  sent : S → ℕ
  eof : S → Bool

/-- The labels: a client sends its next message, or the server makes a step. -/
inductive MuxLabel (S KSUID : Type) where
  | post (σ : S) (b : Buffer)
  | act (l : ServerLabel ℕ KSUID)
  deriving DecidableEq, Repr

namespace Mux

/-- Nothing was sent yet. -/
def init : Mux S KSUID := ⟨Server.init, fun _ => 0, fun _ => false⟩

/-- One step; `ids σ` are the lanes of session `σ`. -/
def step [DecidableEq S] (ids : S → List KSUID) (t : Mux S KSUID) : MuxLabel S KSUID → Option (Mux S KSUID)
  | .post σ b =>
    if t.eof σ then none
    else some {
      server := t.server.arrive (laneOf (ids σ).length (t.sent σ)) (script (ids σ) (t.sent σ) b)
      sent := Function.update t.sent σ (t.sent σ + 1)
      eof := Function.update t.eof σ (decide ((ids σ).length < t.sent σ) && b.eof) }
  | .act l => (t.server.step l).map fun r => { t with server := r.1 }

end Mux

/-- The steps of the direction from the client to the server, up to the end of a session: the dial
    succeeds, the write completes, no timer fires. -/
def Server.Calm (s : Server ℕ KSUID) : ServerLabel ℕ KSUID → Prop
  | .recv _ | .reader _ | .waiter _ | .linkDone _ _ _ => True
  | .dial _ o => o = .connected
  | .est e => (s.ests e).pc.beforeWait = true
  | .linkSend _ _ o => o = .ok
  | _ => False

/-- The steps that runs are made of. -/
def Mux.Calm (t : Mux S KSUID) : MuxLabel S KSUID → Prop
  | .post _ _ => True
  | .act l => t.server.Calm l

/-- A message was sent and not handled, or a chunk was not written yet. -/
def Mux.Waiting (ids : S → List KSUID) (t : Mux S KSUID) : Prop :=
  (∃ w, t.server.inbox w ≠ [] ∨ t.server.reader w ≠ .idle) ∨
  ∃ σ, (∃ k q, t.server.links.hub.lane (ids σ) k = some q ∧ (t.server.links.hub.obj q).buffer.items ≠ []) ∨
    ∃ q src b rest, t.server.links.hub.lane (ids σ) 0 = some q ∧ .write src b rest ∈ t.server.links.sends q

/-- The ids of the sessions: all are different, and each session has one for each of the `n` websockets. -/
structure Sessions (ids : S → List KSUID) (n : ℕ) : Prop where
  pos : 0 < n
  length : ∀ σ, (ids σ).length = n
  nodup : ∀ σ, (ids σ).Nodup
  disjoint : ∀ {σ τ}, σ ≠ τ → ∀ k ∈ ids σ, k ∉ ids τ

omit [DecidableEq KSUID] [Inhabited KSUID] in
theorem Sessions.length_pos {ids : S → List KSUID} {n : ℕ} (h : Sessions ids n) (σ : S) : 0 < (ids σ).length := by
  rw [h.length]
  exact h.pos

omit [DecidableEq KSUID] [Inhabited KSUID] in
theorem Sessions.exists_master {ids : S → List KSUID} {n : ℕ} (h : Sessions ids n) (σ : S) :
    ∃ m, (ids σ)[0]? = some m :=
  ⟨_, List.getElem?_eq_getElem (h.length_pos σ)⟩

/-! ## The invariant -/

/-- A message on its way: when it was sent, by whom, its number, and the chunk it carries if it is one. -/
structure Parcel (S : Type) where
  time : ℕ
  owner : S
  number : ℕ
  chunk : Buffer

/-- The history of a run: the messages of each websocket that are not handled yet, the oldest first, the
    time, the links of each session, and whose instance an instance of `establish` is. -/
structure Book (S : Type) where
  wire : ℕ → List (Parcel S)
  clock : ℕ
  flow : S → Flow
  boss : ℕ → Option S

/-- The start of a run. -/
def Book.init : Book S := ⟨fun _ => [], 0, fun _ => Flow.init, fun _ => none⟩

/-- Message number `j` of session `σ` was handled. -/
def Book.Done (b : Book S) (sent : S → ℕ) (σ : S) (j : ℕ) : Prop :=
  j < sent σ ∧ ∀ w, ∀ p ∈ b.wire w, p.owner = σ → p.number ≠ j

/-- The connection number of session `σ` is `c`, or may still become `c`. -/
def Book.Conn (b : Book S) (next : ℕ) (σ : S) (c : ℕ) : Prop :=
  if c < next then b.boss c = some σ else ∀ e < next, b.boss e ≠ some σ

/-- What a reader does with message number `j` of a session. -/
def Handles (ids : List KSUID) (f : Flow) (j : ℕ) (b : Buffer) : Reader KSUID → Prop
  | .hi id m => ids[j]? = some id ∧ ids[0]? = some m
  | .est id sorted => j = ids.length ∧ ids[0]? = some id ∧ sorted = ids
  | .check q x | .select q x => ∃ t, j = ids.length + 1 + t ∧ f.lanes.link (t % ids.length) = some q ∧
      x.eof = b.eof
  | _ => False

/-- The messages of a websocket that are not handled are in the inbox, but the first one may be in the
    hands of the reader. -/
def Lined (ids : S → List KSUID) (flow : S → Flow) (ps : List (Parcel S)) (r : Reader KSUID)
    (inbox : List (Msg KSUID)) : Prop :=
  (r = .idle ∧ inbox = ps.map fun p => script (ids p.owner) p.number p.chunk) ∨
  ∃ p rest, ps = p :: rest ∧ (inbox = rest.map fun p => script (ids p.owner) p.number p.chunk) ∧
    Handles (ids p.owner) (flow p.owner) p.number p.chunk r

/-- The messages that are not handled yet. -/
structure Posted (ids : S → List KSUID) (b : Book S) (sent : S → ℕ) (eof : S → Bool)
    (s : Server ℕ KSUID) : Prop where
  lined : ∀ w, Lined ids b.flow (b.wire w) (s.reader w) (s.inbox w)
  lane : ∀ {w p}, p ∈ b.wire w → laneOf (ids p.owner).length p.number = w
  number_lt : ∀ {w p}, p ∈ b.wire w → p.number < sent p.owner
  time_lt : ∀ {w p}, p ∈ b.wire w → p.time < b.clock
  last : ∀ {w p}, p ∈ b.wire w → (ids p.owner).length < p.number → p.chunk.eof = true →
    eof p.owner = true ∧ sent p.owner = p.number + 1
  order : ∀ w, (b.wire w).Pairwise fun p q => p.time < q.time ∧ (p.owner = q.owner → p.number < q.number)
  program : ∀ {w w' p q}, p ∈ b.wire w → q ∈ b.wire w' → p.owner = q.owner → p.number < q.number →
    p.time < q.time

/-- The instances of `establish`: one for each session whose `est` was handled. -/
structure Staff (ids : S → List KSUID) (b : Book S) (sent : S → ℕ) (s : Server ℕ KSUID) : Prop where
  est : ∀ {e}, e < s.nextEst → ∃ σ, b.boss e = some σ ∧ (ids σ)[0]? = some (s.ests e).id ∧
    b.Done sent σ (ids σ).length ∧ (b.flow σ).lanes.conn = !(s.ests e).pc.dialing
  single : ∀ {e e'}, e < s.nextEst → e' < s.nextEst → b.boss e = b.boss e' → e = e'
  bossed : ∀ {σ}, b.Done sent σ (ids σ).length → ∃ e < s.nextEst, b.boss e = some σ
  hired : ∀ {σ}, (b.flow σ).lanes.conn = true → ∃ e < s.nextEst, b.boss e = some σ

/-- The invariant. -/
structure MuxInv (ids : S → List KSUID) (b : Book S) (sent : S → ℕ) (eof : S → Bool)
    (s : Server ℕ KSUID) : Prop extends Posted ids b sent eof s, Staff ids b sent s where
  seat : ∀ {σ c}, b.Conn s.nextEst σ c →
    Seat (ids σ) (b.Done sent σ) (sent σ) (eof σ) c (b.flow σ) s.links
  owned : ∀ {q}, s.links.sends q ≠ [] → ∃ σ, (b.flow σ).lanes.link 0 = some q
  sound : s.links.Sound
  running : s.crashed = false ∧ s.queues.crashed = false

/-! ## The messages on the websockets -/

/-- The book after a message was sent. -/
def Book.post (b : Book S) (w : ℕ) (σ : S) (j : ℕ) (x : Buffer) : Book S :=
  { b with
    wire := Function.update b.wire w (b.wire w ++ [⟨b.clock, σ, j, x⟩])
    clock := b.clock + 1 }

/-- The book after the first message of websocket `w` was handled. -/
def Book.handle (b : Book S) (w : ℕ) : Book S :=
  { b with wire := Function.update b.wire w (b.wire w).tail }

/-- The book after a step of the links of session `σ`. -/
def Book.go [DecidableEq S] (b : Book S) (σ : S) (f : Flow) : Book S := { b with flow := Function.update b.flow σ f }

/-- The book after instance `e` of `establish` was started for session `σ`. -/
def Book.hire (b : Book S) (e : ℕ) (σ : S) : Book S := { b with boss := Function.update b.boss e (some σ) }

section Posted

variable {ids : S → List KSUID} {b b' : Book S} {sent : S → ℕ} {eof : S → Bool} {s s' : Server ℕ KSUID}
  {p q : Parcel S} {rest : List (Parcel S)} {σ τ : S} {w v j : ℕ} {x : Buffer}

theorem Book.mem_post : p ∈ (b.post w σ j x).wire v ↔ p ∈ b.wire v ∨ (v = w ∧ p = ⟨b.clock, σ, j, x⟩) := by
  by_cases hv : v = w
  · subst hv
    simp [Book.post]
  · simp [Book.post, hv]

theorem Book.wire_handle : (b.handle w).wire w = (b.wire w).tail := Function.update_self ..

theorem Book.wire_handle_of_ne (hv : v ≠ w) : (b.handle w).wire v = b.wire v := Function.update_of_ne hv ..

theorem Book.mem_of_handle (h : p ∈ (b.handle w).wire v) : p ∈ b.wire v := by
  by_cases hv : v = w
  · subst hv
    rw [Book.wire_handle] at h
    exact List.mem_of_mem_tail h
  · rwa [Book.wire_handle_of_ne hv] at h

/-- Sending a message handles none. -/
theorem Book.done_post [DecidableEq S] :
    (b.post w σ (sent σ) x).Done (Function.update sent σ (sent σ + 1)) = b.Done sent := by
  funext τ j
  simp only [Book.Done, Book.mem_post, eq_iff_iff]
  constructor
  · rintro ⟨hj, hwire⟩
    refine ⟨?_, fun v p hp => hwire v p (.inl hp)⟩
    by_cases hτ : τ = σ
    · subst hτ
      have hne : sent τ ≠ j := hwire w _ (.inr ⟨rfl, rfl⟩) rfl
      rw [Function.update_self] at hj
      omega
    · rwa [Function.update_of_ne hτ] at hj
  · rintro ⟨hj, hwire⟩
    constructor
    · by_cases hτ : τ = σ
      · subst hτ
        rw [Function.update_self]
        omega
      · rwa [Function.update_of_ne hτ]
    · rintro v p (hp | ⟨-, rfl⟩) rfl
      · exact hwire v p hp rfl
      · exact hj.ne'

theorem Book.done_handle_of_ne (hw : b.wire w = p :: rest) (hτ : τ ≠ p.owner) :
    (b.handle w).Done sent τ = b.Done sent τ := by
  funext j
  simp only [Book.Done, eq_iff_iff]
  refine and_congr_right fun _ => ⟨fun h v q hq hτ' => ?_, fun h v q hq => h v q (Book.mem_of_handle hq)⟩
  refine h v q ?_ hτ'
  by_cases hv : v = w
  · subst hv
    rw [hw, List.mem_cons] at hq
    rw [Book.wire_handle, hw]
    exact hq.resolve_left fun hqp => hτ (hτ'.symm.trans (congrArg Parcel.owner hqp))
  · rwa [Book.wire_handle_of_ne hv]

theorem Posted.head_mem (hw : b.wire w = p :: rest) : p ∈ b.wire w := by
  rw [hw]
  exact List.mem_cons_self

/-- The first message of a websocket gets handled. -/
theorem Posted.done_handle (h : Posted ids b sent eof s) (hw : b.wire w = p :: rest) :
    (b.handle w).Done sent p.owner = fun j => j = p.number ∨ b.Done sent p.owner j := by
  have hp := Posted.head_mem hw
  have hrest : (b.handle w).wire w = rest := by rw [Book.wire_handle, hw, List.tail_cons]
  funext j
  rw [eq_iff_iff]
  constructor
  · rintro ⟨hj, hwire⟩
    refine or_iff_not_imp_left.mpr fun hne => ⟨hj, fun v q hq hown => ?_⟩
    by_cases hv : v = w
    · subst hv
      rw [hw, List.mem_cons] at hq
      rcases hq with rfl | hq
      · exact fun hj' => hne hj'.symm
      · exact hwire v q (hrest ▸ hq) hown
    · exact hwire v q (by rwa [Book.wire_handle_of_ne hv]) hown
  · rintro (rfl | ⟨hj, hwire⟩)
    · refine ⟨h.number_lt hp, fun v q hq hown hnum => ?_⟩
      -- its lane is the lane of `p`, where later messages have greater numbers
      have hv : v = w := by rw [← h.lane (Book.mem_of_handle hq), ← h.lane hp, hown, hnum]
      subst hv
      rw [hrest] at hq
      have hlt := (List.pairwise_cons.mp (hw ▸ h.order v)).1 q hq
      exact absurd hnum (hlt.2 hown.symm).ne'
    · exact ⟨hj, fun v q hq => hwire v q (Book.mem_of_handle hq)⟩

theorem Posted.not_done (h : p ∈ b.wire w) : ¬ b.Done sent p.owner p.number :=
  fun hd => hd.2 w p h rfl rfl

/-- What a session sent before the first message of a websocket on this websocket was handled. -/
theorem Posted.prev_done (h : Posted ids b sent eof s) (hw : b.wire w = p :: rest) (hj : j < p.number)
    (hlane : laneOf (ids p.owner).length j = w) : b.Done sent p.owner j := by
  have hp := Posted.head_mem hw
  refine ⟨hj.trans (h.number_lt hp), fun v q hq hown hnum => ?_⟩
  have hv : v = w := by rw [← h.lane hq, ← hlane, hown, hnum]
  subst hv
  rw [hw, List.mem_cons] at hq
  rcases hq with rfl | hq
  · exact hj.ne' hnum
  · have hlt := (List.pairwise_cons.mp (hw ▸ h.order v)).1 q hq
    have := hlt.2 hown.symm
    omega

omit [DecidableEq KSUID] [Inhabited KSUID] in
theorem Handles.mono {ks : List KSUID} {f f' : Flow} {r : Reader KSUID} (h : Handles ks f j x r)
    (hlink : ∀ k q, f.lanes.link k = some q → f'.lanes.link k = some q) : Handles ks f' j x r := by
  cases r with
  | hi | est => exact h
  | check q y | select q y =>
    obtain ⟨t, ht, hq, hy⟩ := h
    exact ⟨t, ht, hlink _ _ hq, hy⟩
  | idle | close | hubClose | hubCloseAt | stopped => exact h.elim

omit [DecidableEq KSUID] in
theorem Lined.mono {flow flow' : S → Flow} {ps : List (Parcel S)} {r : Reader KSUID} {inbox : List (Msg KSUID)}
    (h : Lined ids flow ps r inbox)
    (hlink : ∀ σ k q, (flow σ).lanes.link k = some q → (flow' σ).lanes.link k = some q) :
    Lined ids flow' ps r inbox := by
  rcases h with h | ⟨p, rest, hps, hin, hh⟩
  · exact .inl h
  · exact .inr ⟨p, rest, hps, hin, hh.mono (hlink _)⟩

/-- A client sends a message. -/
theorem Posted.post [DecidableEq S] (h : Posted ids b sent eof s) (heof : eof σ = false) :
    Posted ids (b.post (laneOf (ids σ).length (sent σ)) σ (sent σ) x)
      (Function.update sent σ (sent σ + 1))
      (Function.update eof σ (decide ((ids σ).length < sent σ) && x.eof))
      (s.arrive (laneOf (ids σ).length (sent σ)) (script (ids σ) (sent σ) x)) where
  lined := by
    intro v
    by_cases hv : v = laneOf (ids σ).length (sent σ)
    · subst hv
      simp only [Book.post, Server.arrive, Function.update_self]
      rcases h.lined (laneOf (ids σ).length (sent σ)) with ⟨hr, hin⟩ | ⟨p, rest, hps, hin, hh⟩
      · exact .inl ⟨hr, by rw [hin, List.map_append]; rfl⟩
      · exact .inr ⟨p, rest ++ [_], by rw [hps]; rfl, by rw [hin, List.map_append]; rfl, hh⟩
    · simp only [Book.post, Server.arrive, Function.update_of_ne hv]
      exact h.lined v
  lane := by
    intro v p hp
    rcases Book.mem_post.mp hp with hp | ⟨rfl, rfl⟩
    · exact h.lane hp
    · rfl
  number_lt := by
    intro v p hp
    rcases Book.mem_post.mp hp with hp | ⟨rfl, rfl⟩
    · have hlt := h.number_lt hp
      by_cases hσ : p.owner = σ
      · rw [hσ] at hlt ⊢
        rw [Function.update_self]
        omega
      · rwa [Function.update_of_ne hσ]
    · rw [Function.update_self]
      exact Nat.lt_succ_self _
  time_lt := by
    intro v p hp
    rcases Book.mem_post.mp hp with hp | ⟨rfl, rfl⟩
    · exact (h.time_lt hp).trans (Nat.lt_succ_self _)
    · exact Nat.lt_succ_self _
  last := by
    intro v p hp hnum hchunk
    rcases Book.mem_post.mp hp with hp | ⟨rfl, rfl⟩
    · obtain ⟨he, hs⟩ := h.last hp hnum hchunk
      have hσ : p.owner ≠ σ := by
        rintro rfl
        rw [heof] at he
        cases he
      rw [Function.update_of_ne hσ, Function.update_of_ne hσ]
      exact ⟨he, hs⟩
    · dsimp only at hnum hchunk ⊢
      rw [Function.update_self, Function.update_self, decide_eq_true hnum, hchunk]
      exact ⟨rfl, rfl⟩
  order := by
    intro v
    by_cases hv : v = laneOf (ids σ).length (sent σ)
    · subst hv
      simp only [Book.post, Function.update_self]
      refine List.pairwise_append.mpr ⟨h.order _, List.pairwise_singleton _ _, fun p hp q hq => ?_⟩
      obtain rfl := List.mem_singleton.mp hq
      exact ⟨h.time_lt hp, fun hσ => (h.number_lt hp).trans_eq (congrArg sent hσ)⟩
    · simp only [Book.post, Function.update_of_ne hv]
      exact h.order v
  program := by
    intro v v' p q hp hq hown hlt
    rcases Book.mem_post.mp hp with hp | ⟨rfl, rfl⟩ <;> rcases Book.mem_post.mp hq with hq | ⟨rfl, rfl⟩
    · exact h.program hp hq hown hlt
    · exact h.time_lt hp
    · -- it has the greatest number of its session
      have := h.number_lt hq
      rw [← hown] at this
      dsimp only at this hlt
      omega
    · exact absurd hlt (lt_irrefl _)

/-- The reader of `w` has handled its message. -/
theorem Posted.handle (h : Posted ids b sent eof s) (hw : s.reader w ≠ .idle) :
    Posted ids (b.handle w) sent eof (s.goReader w .idle) where
  lined := by
    intro v
    by_cases hv : v = w
    · subst hv
      simp only [Book.handle, Server.goReader, Function.update_self]
      rcases h.lined v with ⟨hr, -⟩ | ⟨p, rest, hps, hin, -⟩
      · exact absurd hr hw
      · rw [hps, List.tail_cons]
        exact .inl ⟨rfl, hin⟩
    · simp only [Book.handle, Server.goReader, Function.update_of_ne hv]
      exact h.lined v
  lane := fun hp => h.lane (Book.mem_of_handle hp)
  number_lt := fun hp => h.number_lt (Book.mem_of_handle hp)
  time_lt := fun hp => h.time_lt (Book.mem_of_handle hp)
  last := fun hp => h.last (Book.mem_of_handle hp)
  order := by
    intro v
    by_cases hv : v = w
    · subst hv
      simp only [Book.handle, Function.update_self]
      exact (h.order v).tail
    · simp only [Book.handle, Function.update_of_ne hv]
      exact h.order v
  program := fun hp hq => h.program (Book.mem_of_handle hp) (Book.mem_of_handle hq)

/-- The readers and the messages are as before, and no session loses a link. -/
theorem Posted.same (h : Posted ids b sent eof s) (hwire : b'.wire = b.wire) (hclock : b'.clock = b.clock)
    (hlink : ∀ σ k q, (b.flow σ).lanes.link k = some q → (b'.flow σ).lanes.link k = some q)
    (hreader : s'.reader = s.reader) (hinbox : s'.inbox = s.inbox) : Posted ids b' sent eof s' where
  lined := by rw [hwire, hreader, hinbox]; exact fun v => (h.lined v).mono hlink
  lane := by rw [hwire]; exact h.lane
  number_lt := by rw [hwire]; exact h.number_lt
  time_lt := by rw [hwire, hclock]; exact h.time_lt
  last := by rw [hwire]; exact h.last
  order := by rw [hwire]; exact h.order
  program := by rw [hwire]; exact h.program

end Posted

end Wssocks.Wss

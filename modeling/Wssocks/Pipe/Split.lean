import Wssocks.Pipe.QueueLemmas
import Wssocks.Pipe.Stream

/-!
# The splitter: `queue.Send` on the queue of one session

`SplitInv` is the invariant of the splitter of a session. A `Source` holds what
cannot be read off the state: all that was ever put into the queue, all that
`Send` has taken out, and all that it has written to the lanes, in order.

`Send` may be launched twice, by `Add` and by `TrySend`; the entry test lets one
body run. `SplitInv.send` therefore asks that no second goroutine passes the test
on a closed queue, where the test does not see the first one.

After `Remove` a receive from the drained buffer gives the zero value, and `Send`
writes an empty chunk; the other end ignores empty chunks.
-/

namespace Wssocks.Pipe

open Wssocks.Lib

variable {KSUID W : Type} [DecidableEq KSUID]

/-- The history of the queue of a session. -/
structure Source where
  lanes : QueueMap
  /-- What was put into the first queue. -/
  enq : List Buffer
  /-- What `Send` took out. -/
  got : List Buffer
  /-- What `Send` wrote to the lanes. -/
  sent : List Buffer

/-- The start of a session. -/
def Source.init : Source := ⟨QueueMap.init, [], [], []⟩

/-- No end of stream. -/
def NoEof (bs : List Buffer) : Prop := ∀ b ∈ bs, b.eof = false

/-- Everything taken was written, and there was no end of stream yet. -/
structure Fair (sent got : List Buffer) : Prop where
  chunks_eq : chunks sent = chunks got
  sent_noEof : NoEof sent
  got_noEof : NoEof got

/-- What was written to the lanes, given what was put into the queue. -/
inductive Sends (enq sent : List Buffer) : Prop
  | part (hs : NoEof sent) (hp : chunks sent <+: chunks enq)
  | whole {bs : List Buffer} {b : Buffer} (hs : sent = bs ++ [b]) (hd : b.data = []) (hbs : NoEof bs)
      (hc : chunks bs = chunks enq) (he : ¬ NoEof enq)

/-- What holds where `Send` is. -/
def SplitterAt (ids : List KSUID) (wr : ℕ → W) (src : Source) : QueueSend KSUID W → Prop
  | .entry | .refused => True
  | .loop => Fair src.sent src.got ∧ src.sent.length % ids.length = 0
  | .pass rest => Fair src.sent src.got ∧ ∃ i ≤ ids.length,
      rest = ids.drop i ∧ src.sent.length % ids.length = i % ids.length
  | .read w rest => Fair src.sent src.got ∧ ∃ i < ids.length,
      rest = ids.drop (i + 1) ∧ w = some (wr i) ∧ src.sent.length % ids.length = i
  | .write w b rest => (∃ i < ids.length,
      rest = ids.drop (i + 1) ∧ w = some (wr i) ∧ src.sent.length % ids.length = i) ∧
      ∃ got, Fair src.sent got ∧ (src.got = got ++ [b] ∨ src.got = got ∧ b = default)
  | .ret _ | .handoff _ | .closeDone _ | .exit _ => Sends src.enq src.sent

/-- The invariant of the queue of a session. -/
structure SplitInv (ids : List KSUID) (m : KSUID) (wr : ℕ → W) (src : Source)
    (s : Queues KSUID W) : Prop where
  holds : Holds ids m wr src.lanes s.hub
  items : ∀ {q}, src.lanes.queue = some q → src.enq = src.got ++ (s.hub.obj q).buffer.items
  unborn : src.lanes.queue = none → src.enq = [] ∧ src.got = [] ∧ src.sent = []
  eofLast : ∀ {pre b post}, src.enq = pre ++ b :: post → b.eof = true → post = []
  eofData : ∀ {b}, b ∈ src.enq → b.eof = true → b.data = []
  one : ∀ {q i j : ℕ} {pc pc' : QueueSend KSUID W}, src.lanes.queue = some q → (s.sends q)[i]? = some pc →
    (s.sends q)[j]? = some pc' → pc.entered = true → pc'.entered = true → i = j
  body : ∀ {q i : ℕ} {pc : QueueSend KSUID W}, src.lanes.queue = some q → (s.sends q)[i]? = some pc → pc.entered = true →
    SplitterAt ids wr src pc
  fresh : ∀ {q}, src.lanes.queue = some q → (∀ pc ∈ s.sends q, pc.entered = false) →
    src.got = [] ∧ src.sent = []
  status : ∀ {q : ℕ} {pc : QueueSend KSUID W}, src.lanes.queue = some q → pc ∈ s.sends q → pc.entered = true →
    (s.hub.obj q).status ≠ .wait
  launched : ∀ {q}, src.lanes.queue = some q → s.sends q ≠ [] →
    src.lanes.sorted = true ∧ ∀ k < ids.length, src.lanes.written k = true

variable {ids : List KSUID} {m : KSUID} {wr : ℕ → W} {src src' : Source} {s s' : Queues KSUID W}
  {q i : ℕ} {pc pc' : QueueSend KSUID W}

theorem fair_nil : Fair [] [] := ⟨rfl, by simp [NoEof], by simp [NoEof]⟩

theorem NoEof.append {bs : List Buffer} {b : Buffer} (h : NoEof bs) (hb : b.eof = false) :
    NoEof (bs ++ [b]) := by
  intro x hx
  rcases List.mem_append.mp hx with h1 | h1
  · exact h x h1
  · rw [List.mem_singleton.mp h1]; exact hb

theorem SplitInv.init [Inhabited KSUID] :
    SplitInv ids m wr Source.init (Queues.init : Queues KSUID W) where
  holds := Holds.init
  items := by simp [Source.init, QueueMap.init]
  unborn := by simp [Source.init]
  eofLast := by simp [Source.init]
  eofData := by simp [Source.init]
  one := by simp [Source.init, QueueMap.init]
  body := by simp [Source.init, QueueMap.init]
  fresh := by simp [Source.init, QueueMap.init]
  status := by simp [Source.init, QueueMap.init]
  launched := by simp [Source.init, QueueMap.init]

/-- What has been written so far, whatever `Send` is doing. -/
theorem SplitInv.sends (inv : SplitInv ids m wr src s) : Sends src.enq src.sent := by
  cases hq : src.lanes.queue with
  | none =>
    obtain ⟨-, -, h3⟩ := inv.unborn hq
    rw [h3]
    exact .part (by simp [NoEof]) (List.nil_prefix)
  | some q =>
    by_cases hall : ∀ pc ∈ s.sends q, pc.entered = false
    · rw [(inv.fresh hq hall).2]
      exact .part (by simp [NoEof]) (List.nil_prefix)
    · push Not at hall
      obtain ⟨pc, hmem, hent⟩ := hall
      obtain ⟨i, hi⟩ := List.mem_iff_getElem?.mp hmem
      have hat := inv.body hq hi (by simpa using hent)
      have hgot : chunks src.got <+: chunks src.enq :=
        chunks_mono ⟨_, (inv.items hq).symm⟩
      have hfair : Fair src.sent src.got → Sends src.enq src.sent := fun hf =>
        .part hf.sent_noEof (hf.chunks_eq ▸ hgot)
      cases pc with
      | entry | refused => exact absurd rfl hent
      | loop => exact hfair hat.1
      | pass rest => exact hfair hat.1
      | read w rest => exact hfair hat.1
      | write w b rest =>
        obtain ⟨-, got, hf, hg⟩ := hat
        refine .part hf.sent_noEof (List.IsPrefix.trans ?_ hgot)
        rw [hf.chunks_eq]
        apply chunks_mono
        rcases hg with h1 | ⟨h1, -⟩ <;> rw [h1]
        exact List.prefix_append _ _
      | ret e | handoff e | closeDone e | exit e => exact hat

/-! ## Steps of `Send` -/

section Send

variable {o : Outcome} {h' : QueueHub KSUID W}

/-- Goroutine `i`, the only one in the body, moves to `pc'`. -/
theorem SplitInv.move (inv : SplitInv ids m wr src s) (hq : src.lanes.queue = some q)
    (hi : (s.sends q)[i]? = some pc)
    (hone : ∀ j pc', (s.sends q)[j]? = some pc' → pc'.entered = true → j = i)
    (hent : pc'.entered = true) (hlanes : src'.lanes = src.lanes) (henq : src'.enq = src.enq)
    (hholds : Holds ids m wr src.lanes h')
    (hitems : src.enq = src'.got ++ (h'.obj q).buffer.items) (hst : (h'.obj q).status ≠ .wait)
    (hat : SplitterAt ids wr src' pc') :
    SplitInv ids m wr src' { s with hub := h', sends := Function.update s.sends q ((s.sends q).set i pc') } := by
  have hlt : i < (s.sends q).length := (List.getElem?_eq_some_iff.mp hi).1
  have hsend : Function.update s.sends q ((s.sends q).set i pc') q = (s.sends q).set i pc' :=
    Function.update_self _ _ _
  -- the goroutines in the body after the move
  have honly : ∀ {j pc''}, ((s.sends q).set i pc')[j]? = some pc'' → pc''.entered = true →
      j = i ∧ pc'' = pc' := by
    intro j pc'' hj hent''
    by_cases hji : j = i
    · subst hji
      rw [List.getElem?_set_self hlt] at hj
      exact ⟨rfl, (Option.some.inj hj).symm⟩
    · rw [List.getElem?_set_ne fun h1 => hji h1.symm] at hj
      exact absurd (hone j pc'' hj hent'') hji
  have hmem : pc' ∈ (s.sends q).set i pc' :=
    List.mem_of_getElem? (List.getElem?_set_self hlt)
  have hqq : ∀ {q'}, src'.lanes.queue = some q' → q' = q := by
    intro q' h1
    rw [hlanes, hq] at h1
    exact (Option.some.inj h1).symm
  constructor
  case holds => rw [hlanes]; exact hholds
  case items => intro q' h1; rw [hqq h1, henq]; exact hitems
  case unborn => intro h1; rw [hlanes, hq] at h1; cases h1
  case eofLast => rw [henq]; exact inv.eofLast
  case eofData => rw [henq]; exact inv.eofData
  case one =>
    intro q' a b pa pb h1 ha hb hea heb
    rw [hqq h1] at ha hb
    dsimp only at ha hb
    rw [hsend] at ha hb
    rw [(honly ha hea).1, (honly hb heb).1]
  case body =>
    intro q' a pa h1 ha hea
    rw [hqq h1] at ha
    dsimp only at ha
    rw [hsend] at ha
    rw [(honly ha hea).2]
    exact hat
  case fresh =>
    intro q' h1 hall
    rw [hqq h1] at hall
    dsimp only at hall
    rw [hsend] at hall
    rw [hall pc' hmem] at hent
    cases hent
  case status => intro q' pa h1 _ _; rw [hqq h1]; exact hst
  case launched =>
    intro q' h1 _
    rw [hlanes]
    exact inv.launched hq (List.ne_nil_of_length_pos (by omega))

/-- The same with a change of the queue by `Send`. -/
theorem SplitInv.move_modify (inv : SplitInv ids m wr src s) (hq : src.lanes.queue = some q)
    (hi : (s.sends q)[i]? = some pc)
    (hone : ∀ j pc', (s.sends q)[j]? = some pc' → pc'.entered = true → j = i)
    (hent : pc'.entered = true) (hlanes : src'.lanes = src.lanes) (henq : src'.enq = src.enq)
    {u : Queue KSUID W → Queue KSUID W}
    (hcl : (u (s.hub.obj q)).buffer.closed = (s.hub.obj q).buffer.closed)
    (hclose : (u (s.hub.obj q)).status = .close → (s.hub.obj q).status = .close)
    (hw : (u (s.hub.obj q)).writers = (s.hub.obj q).writers)
    (hs : (u (s.hub.obj q)).sorted = (s.hub.obj q).sorted)
    (hitems : src.enq = src'.got ++ (u (s.hub.obj q)).buffer.items)
    (hst : (u (s.hub.obj q)).status ≠ .wait) (hat : SplitterAt ids wr src' pc') :
    SplitInv ids m wr src' ((s.modify q u).goto q i pc') := by
  have hobj : (s.modify q u).hub.obj q = u (s.hub.obj q) := Registry.obj_modify_self
  exact inv.move hq hi hone hent hlanes henq (inv.holds.modify_same q u hcl hclose hw hs)
    (by rw [hobj]; exact hitems) (by rw [hobj]; exact hst) hat

/-- No other goroutine is in the body when one is. -/
theorem SplitInv.only (inv : SplitInv ids m wr src s) (hq : src.lanes.queue = some q)
    (hi : (s.sends q)[i]? = some pc) (hent : pc.entered = true) :
    ∀ j pc', (s.sends q)[j]? = some pc' → pc'.entered = true → j = i :=
  fun _ _ hj hej => inv.one hq hj hi hej hent

/-- What a step of `Send` writes: nothing, or one chunk to the lane whose turn it is. -/
inductive Wrote (n : ℕ) (wr : ℕ → W) (src src' : Source) : Option (W × Buffer) → Prop
  | nothing (hs : src'.sent = src.sent) : Wrote n wr src src' none
  | chunk {b : Buffer} (hs : src'.sent = src.sent ++ [b]) (hb : b.eof = true → b.data = []) :
      Wrote n wr src src' (some (wr (src.sent.length % n), b))

/-- A later goroutine is sent away at the entry test. -/
theorem SplitInv.refuse (inv : SplitInv ids m wr src s) (hi : (s.sends q)[i]? = some .entry) :
    SplitInv ids m wr src (s.goto q i .refused) := by
  -- the goroutines in the body are the same
  have hset : ∀ {q' j : ℕ} {pc' : QueueSend KSUID W}, (Function.update s.sends q ((s.sends q).set i .refused) q')[j]? =
      some pc' → pc'.entered = true → (s.sends q')[j]? = some pc' := by
    intro q' j pc' hj hent
    by_cases hq : q' = q
    · subst hq
      rw [Function.update_self] at hj
      by_cases hji : i = j
      · subst hji
        rw [List.getElem?_set_self (List.getElem?_eq_some_iff.mp hi).1] at hj
        cases hj
        cases hent
      · rwa [List.getElem?_set_ne hji] at hj
    · rwa [Function.update_of_ne hq] at hj
  have hmem : ∀ {q' : ℕ} {pc' : QueueSend KSUID W}, pc' ∈ Function.update s.sends q ((s.sends q).set i .refused) q' →
      pc'.entered = true → pc' ∈ s.sends q' := by
    intro q' pc' hm hent
    obtain ⟨j, hj⟩ := List.mem_iff_getElem?.mp hm
    exact List.mem_of_getElem? (hset hj hent)
  refine { inv with one := ?_, body := ?_, fresh := ?_, status := ?_, launched := ?_ }
  · intro q' a b pa pb h1 ha hb hea heb
    exact inv.one h1 (hset ha hea) (hset hb heb) hea heb
  · intro q' a pa h1 ha hea
    exact inv.body h1 (hset ha hea) hea
  · intro q' h1 hall
    refine inv.fresh h1 fun pc' hm => ?_
    by_contra hent
    have hent : pc'.entered = true := by simpa using hent
    obtain ⟨j, hj⟩ := List.mem_iff_getElem?.mp hm
    have hm' : pc' ∈ (s.goto q i .refused).sends q' := by
      show pc' ∈ Function.update s.sends q ((s.sends q).set i .refused) q'
      by_cases hq : q' = q
      · subst hq
        rw [Function.update_self]
        refine List.mem_of_getElem? (i := j) ?_
        rw [List.getElem?_set_ne, hj]
        rintro rfl
        rw [hi] at hj
        cases hj
        cases hent
      · rwa [Function.update_of_ne hq]
    rw [hall pc' hm'] at hent
    cases hent
  · intro q' pa h1 ha hea
    exact inv.status h1 (hmem ha hea) hea
  · intro q' h1 hne
    refine inv.launched h1 fun h0 => hne ?_
    show Function.update s.sends q ((s.sends q).set i .refused) q' = []
    by_cases hq : q' = q
    · subst hq
      rw [h0] at hi
      cases hi
    · rw [Function.update_of_ne hq, h0]

/-- The entry test is passed. -/
theorem SplitInv.enter (inv : SplitInv ids m wr src s) (hq : src.lanes.queue = some q)
    (hi : (s.sends q)[i]? = some .entry)
    (hst : ¬ ((s.hub.obj q).status = .send ∨ (s.hub.obj q).status = .done))
    (hsecond : (s.hub.obj q).status = .close → ∀ pc ∈ s.sends q, pc.entered = false) :
    SplitInv ids m wr src ((s.modify q fun x => { x with status := .send }).goto q i .loop) := by
  have hnone : ∀ pc ∈ s.sends q, pc.entered = false := by
    cases hs : (s.hub.obj q).status with
    | wait =>
      intro pc hm
      by_contra hent
      exact inv.status hq hm (by simpa using hent) hs
    | close => exact hsecond hs
    | send | done => simp [hs] at hst
  obtain ⟨h1, h2⟩ := inv.fresh hq hnone
  have hat : SplitterAt ids wr src .loop := ⟨by rw [h1, h2]; exact fair_nil, by simp [h2]⟩
  refine inv.move_modify hq hi ?_ rfl rfl rfl rfl (by simp) rfl rfl (inv.items hq) (by simp) hat
  intro j pc' hj hent
  rw [hnone pc' (List.mem_of_getElem? hj)] at hent
  cases hent

/-- Goroutine `i` moves and the queue stays as it is. -/
theorem SplitInv.goto (inv : SplitInv ids m wr src s) (hq : src.lanes.queue = some q)
    (hi : (s.sends q)[i]? = some pc) (hent : pc.entered = true) (hent' : pc'.entered = true)
    (hlanes : src'.lanes = src.lanes) (henq : src'.enq = src.enq) (hgot : src'.got = src.got)
    (hat : SplitterAt ids wr src' pc') : SplitInv ids m wr src' (s.goto q i pc') :=
  inv.move hq hi (inv.only hq hi hent) hent' hlanes henq inv.holds (hgot ▸ inv.items hq)
    (inv.status hq (List.mem_of_getElem? hi) hent) hat

/-- `Send` returns with what it has written. -/
theorem SplitInv.giveUp {e : Option SendErr} (inv : SplitInv ids m wr src s) (hq : src.lanes.queue = some q)
    (hi : (s.sends q)[i]? = some pc) (hent : pc.entered = true) : SplitInv ids m wr src (s.goto q i (.ret e)) :=
  inv.goto hq hi hent rfl rfl rfl rfl inv.sends

/-- A pass begins. -/
theorem SplitInv.round (inv : SplitInv ids m wr src s) (hq : src.lanes.queue = some q)
    (hi : (s.sends q)[i]? = some .loop) :
    SplitInv ids m wr src (s.goto q i (.pass (s.hub.obj q).sorted)) := by
  obtain ⟨hf, hpos⟩ := inv.body hq hi rfl
  have hs : (s.hub.obj q).sorted = ids := by
    rw [inv.holds.sorted hq, if_pos]
    exact (inv.launched hq (List.ne_nil_of_mem (List.mem_of_getElem? hi))).1
  exact inv.goto hq hi rfl rfl rfl rfl rfl ⟨hf, 0, Nat.zero_le _, by rw [hs]; rfl, by simpa using hpos⟩

/-- A pass ends. -/
theorem SplitInv.again (inv : SplitInv ids m wr src s) (hq : src.lanes.queue = some q)
    (hi : (s.sends q)[i]? = some (.pass [])) : SplitInv ids m wr src (s.goto q i .loop) := by
  obtain ⟨hf, k, hk, hrest, hpos⟩ := inv.body hq hi rfl
  have hkn : k = ids.length := by
    have := congrArg List.length hrest
    simp at this
    omega
  refine inv.goto hq hi rfl rfl rfl rfl rfl ⟨hf, ?_⟩
  rwa [hkn, Nat.mod_self] at hpos

/-- The next lane has its writer. -/
theorem SplitInv.next {id : KSUID} {rest : List KSUID} (inv : SplitInv ids m wr src s)
    (hq : src.lanes.queue = some q) (hi : (s.sends q)[i]? = some (.pass (id :: rest))) :
    SplitInv ids m wr src (s.goto q i (.read ((s.hub.obj q).writers.lookup id) rest)) := by
  obtain ⟨hf, k, hk, hrest, hpos⟩ := inv.body hq hi rfl
  have hlt : k < ids.length := by
    by_contra hge
    rw [List.drop_eq_nil_of_le (by omega)] at hrest
    cases hrest
  rw [List.drop_eq_getElem_cons hlt] at hrest
  obtain ⟨rfl, rfl⟩ := List.cons.inj hrest
  have hw : (s.hub.obj q).writers.lookup ids[k] = some (wr k) := by
    rw [inv.holds.writers hq (List.getElem?_eq_getElem hlt), if_pos]
    exact (inv.launched hq (List.ne_nil_of_mem (List.mem_of_getElem? hi))).2 k hlt
  refine inv.goto hq hi rfl rfl rfl rfl rfl ⟨hf, k, hlt, rfl, hw, ?_⟩
  rwa [Nat.mod_eq_of_lt hlt] at hpos

/-- A chunk, or the zero value of a closed buffer, is received. -/
theorem SplitInv.read {w : Option W} {rest : List KSUID} {x : Buffer × BufChan}
    (inv : SplitInv ids m wr src s) (hq : src.lanes.queue = some q)
    (hi : (s.sends q)[i]? = some (.read w rest)) (hx : (s.hub.obj q).buffer.recv? = some x) :
    ∃ got, SplitInv ids m wr { src with got := got }
      ((s.modify q fun y => { y with buffer := x.2 }).goto q i (.write w x.1 rest)) := by
  obtain ⟨hf, hpos⟩ := inv.body hq hi rfl
  obtain ⟨b, ch⟩ := x
  have hst : (s.hub.obj q).status ≠ .wait := inv.status hq (List.mem_of_getElem? hi) rfl
  rcases Chan.recv?_eq_some hx with ⟨hitems, hclosed⟩ | ⟨hitems, hclosed, rfl, rfl⟩
  · have hat : SplitterAt ids wr { src with got := src.got ++ [b] } (.write w b rest) :=
      ⟨hpos, src.got, hf, .inl rfl⟩
    refine ⟨src.got ++ [b], ?_⟩
    refine inv.move_modify hq hi (inv.only hq hi rfl) rfl ?_ ?_ (u := fun x => { x with buffer := ch })
      hclosed (fun h1 => h1) rfl rfl ?_ hst hat <;> try rfl
    rw [inv.items hq, hitems]
    simp
  · have hat : SplitterAt ids wr src (.write w default rest) :=
      ⟨hpos, src.got, hf, .inr ⟨rfl, rfl⟩⟩
    exact ⟨src.got, inv.move_modify hq hi (inv.only hq hi rfl) rfl rfl rfl rfl (fun h1 => h1)
      rfl rfl (inv.items hq) hst hat⟩

/-- A chunk is written to the lane whose turn it is. -/
theorem SplitInv.write {w : W} {b : Buffer} {rest : List KSUID} (inv : SplitInv ids m wr src s)
    (hq : src.lanes.queue = some q) (hi : (s.sends q)[i]? = some (.write (some w) b rest)) :
    ∃ sent, SplitInv ids m wr { src with sent := sent } (s.goto q i (if b.eof then .ret none else .pass rest)) ∧
      Wrote ids.length wr src { src with sent := sent } (some (w, b)) := by
  obtain ⟨⟨k, hk, hrest, hw, hpos⟩, got, hf, hgot⟩ := inv.body hq hi rfl
  obtain rfl := Option.some.inj hw
  have hmem : src.got = got ++ [b] → b ∈ src.enq := by
    intro h1
    rw [inv.items hq, h1]; simp
  have hdata : b.eof = true → b.data = [] := by
    intro heof
    rcases hgot with h1 | ⟨-, rfl⟩
    · exact inv.eofData (hmem h1) heof
    · rfl
  refine ⟨src.sent ++ [b], ?_, by rw [← hpos]; exact .chunk rfl hdata⟩
  cases heof : b.eof with
  | true =>
    -- the end of stream is the last thing that was put in
    have hg : src.got = got ++ [b] := by
      rcases hgot with h1 | ⟨-, rfl⟩
      · exact h1
      · cases heof
    have henq : src.enq = got ++ [b] := by
      have h1 := inv.items hq
      rw [hg, List.append_assoc, List.singleton_append] at h1
      rw [h1, inv.eofLast h1 heof]
    refine inv.goto hq hi rfl rfl rfl rfl rfl (.whole rfl (hdata heof) hf.sent_noEof ?_ ?_)
    · show chunks src.sent = chunks src.enq
      rw [henq, chunks_append, hf.chunks_eq]
      simp [chunks, hdata heof]
    · intro hno
      rw [hno b (hmem hg)] at heof
      cases heof
  | false =>
    refine inv.goto hq hi rfl rfl rfl rfl rfl ⟨⟨?_, hf.sent_noEof.append heof, ?_⟩, k + 1, hk, hrest, ?_⟩
    · show chunks (src.sent ++ [b]) = chunks src.got
      rcases hgot with h1 | ⟨h1, rfl⟩
      · rw [h1, chunks_append, chunks_append, hf.chunks_eq]
      · rw [h1, chunks_append, chunks_default, List.append_nil, hf.chunks_eq]
    · rcases hgot with h1 | ⟨h1, -⟩
      · rw [h1]; exact hf.got_noEof.append heof
      · rw [h1]; exact hf.got_noEof
    · show (src.sent ++ [b]).length % ids.length = (k + 1) % ids.length
      rw [List.length_append, List.length_singleton, Nat.add_mod, hpos]
      simp

/-- If goroutine `i` of queue `q` is at the entry test and the queue is closed, no goroutine has
    entered the body before, not even one that has ended: the test would not see it. -/
def Queues.SecondOk (s : Queues KSUID W) (q i : ℕ) : Prop :=
  (s.sends q)[i]? = some .entry → (s.hub.obj q).status = .close → ∀ pc ∈ s.sends q, pc.entered = false

instance Queues.decidableSecondOk [DecidableEq W] (s : Queues KSUID W) (q i : ℕ) : Decidable (s.SecondOk q i) :=
  inferInstanceAs (Decidable (_ → _ → _))

/-- Every step of the session's `Send` keeps the invariant. -/
theorem SplitInv.send {msg : Option (W × Buffer)} (inv : SplitInv ids m wr src s)
    (hq : src.lanes.queue = some q) (hsecond : s.SecondOk q i) (h : s.send q i o = some (s', msg)) :
    ∃ src', SplitInv ids m wr src' s' ∧ src'.lanes = src.lanes ∧ src'.enq = src.enq ∧
      Wrote ids.length wr src src' msg := by
  have same : ∀ {t : Queues KSUID W}, SplitInv ids m wr src t → ∃ src', SplitInv ids m wr src' t ∧
      src'.lanes = src.lanes ∧ src'.enq = src.enq ∧ Wrote ids.length wr src src' none := fun h1 =>
    ⟨src, h1, rfl, rfl, .nothing rfl⟩
  cases Queues.sendStep_of_send h with
  | refuse hi => exact same (inv.refuse hi)
  | enter hi hst => exact same (inv.enter hq hi hst (hsecond hi))
  | closed hi | timeout hi | fail hi => exact same (inv.giveUp hq hi rfl)
  | round hi => exact same (inv.round hq hi)
  | again hi => exact same (inv.again hq hi)
  | next hi => exact same (inv.next hq hi)
  | read hi hx =>
    obtain ⟨got, h1⟩ := inv.read hq hi hx
    exact ⟨_, h1, rfl, rfl, .nothing rfl⟩
  | write hi =>
    obtain ⟨sent, h1, h2⟩ := inv.write hq hi
    exact ⟨_, h1, rfl, rfl, h2⟩
  | noWriter hi =>
    -- the writers of all lanes were there before the launch
    obtain ⟨⟨_, -, -, hw, -⟩, -⟩ := inv.body hq hi rfl
    cases hw
  | ret hi =>
    have hat : Sends src.enq src.sent := inv.body hq hi rfl
    exact same (inv.move_modify hq hi (inv.only hq hi rfl) rfl rfl rfl rfl (by simp) rfl rfl (inv.items hq)
      (by simp) hat)
  | panic => exact same { inv with }
  | closeDone hi =>
    have hat : Sends src.enq src.sent := inv.body hq hi rfl
    exact same (inv.move_modify hq hi (inv.only hq hi rfl) rfl rfl rfl rfl (fun h1 => h1) rfl rfl
      (inv.items hq) (inv.status hq (List.mem_of_getElem? hi) rfl) hat)

end Send

/-! ## Operations on the queue -/

section Ops

variable {k : ℕ} {b : Buffer} {id : KSUID} {g : QueueMap} {h' : QueueHub KSUID W}

/-- A change of the hub that leaves what is buffered in the first queue. -/
theorem SplitInv.of_hub (inv : SplitInv ids m wr src s) (hq : g.queue = src.lanes.queue)
    (hholds : Holds ids m wr g h')
    (hobj : ∀ q, src.lanes.queue = some q →
      (h'.obj q).buffer.items = (s.hub.obj q).buffer.items ∧
      ((s.hub.obj q).status ≠ .wait → (h'.obj q).status ≠ .wait))
    (hs : src.lanes.sorted = true → g.sorted = true)
    (hw : ∀ k, src.lanes.written k = true → g.written k = true) :
    SplitInv ids m wr { src with lanes := g } { s with hub := h' } where
  holds := hholds
  items := by
    intro q h1
    have h1 : src.lanes.queue = some q := hq ▸ h1
    rw [(hobj q h1).1]
    exact inv.items h1
  unborn := fun h1 => inv.unborn (hq ▸ h1)
  eofLast := inv.eofLast
  eofData := inv.eofData
  one := fun h1 => inv.one (hq ▸ h1)
  body := by
    intro q i pc h1 hi hent
    have hat := inv.body (hq ▸ h1) hi hent
    cases pc <;> exact hat
  fresh := fun h1 => inv.fresh (hq ▸ h1)
  status := by
    intro q pc h1 hm hent
    have h1 : src.lanes.queue = some q := hq ▸ h1
    exact (hobj q h1).2 (inv.status h1 hm hent)
  launched := by
    intro q h1 hne
    obtain ⟨h2, h3⟩ := inv.launched (hq ▸ h1) hne
    exact ⟨hs h2, fun k hk => hw k (h3 k hk)⟩

/-- `Remove` of the master. -/
theorem SplitInv.remove (inv : SplitInv ids m wr src s) : SplitInv ids m wr src (s.remove m) := by
  refine inv.of_hub rfl inv.holds.remove ?_ (fun h1 => h1) (fun _ h1 => h1)
  intro q _
  rw [QueueHub.obj_remove]
  split_ifs
  · simp
  · exact ⟨rfl, fun h1 => h1⟩

/-- The first queue learns the order of the lanes through its pointer. -/
theorem SplitInv.setSorted (inv : SplitInv ids m wr src s) (hq : src.lanes.queue = some q) :
    SplitInv ids m wr { src with lanes := { src.lanes with sorted := true } }
      (s.modify q fun x => { x with sorted := ids }) := by
  refine inv.of_hub rfl (inv.holds.modify q (fun x => { x with sorted := ids }) true rfl (fun h1 => h1) rfl
    (fun _ => by simp) (fun h1 => absurd hq h1)) ?_ (fun _ => rfl) (fun _ h1 => h1)
  intro q' h1
  obtain rfl := Option.some.inj (hq.symm.trans h1)
  rw [Registry.obj_modify_self]
  exact ⟨rfl, fun h2 => h2⟩

/-- `SetSort` while the first queue is registered. -/
theorem SplitInv.setSort (inv : SplitInv ids m wr src s) (hq : src.lanes.queue = some q)
    (hr : s.hub.ref? m = some q) :
    SplitInv ids m wr { src with lanes := { src.lanes with sorted := true } } (s.setSort m ids) := by
  rw [Queues.setSort_eq hr]
  exact inv.setSorted hq

/-- `go q.Send()` on the first queue, once it can reach every lane. -/
theorem SplitInv.launch (inv : SplitInv ids m wr src s) (hq : src.lanes.queue = some q)
    (hs : src.lanes.sorted = true) (hw : ∀ k < ids.length, src.lanes.written k = true) :
    SplitInv ids m wr src (s.launch (some q)) := by
  have hsend : (s.launch (some q)).sends q = s.sends q ++ [.entry] := by simp [Queues.launch]
  -- the new goroutine is not in the body
  have hold : ∀ {j : ℕ} {pc : QueueSend KSUID W}, ((s.sends q) ++ [.entry])[j]? = some pc → pc.entered = true →
      (s.sends q)[j]? = some pc := by
    intro j pc hj hent
    by_cases hlt : j < (s.sends q).length
    · rwa [List.getElem?_append_left hlt] at hj
    · rw [List.getElem?_append_right (by omega)] at hj
      have := List.mem_of_getElem? hj
      rw [List.mem_singleton.mp this] at hent
      cases hent
  have hqq : ∀ {q'}, src.lanes.queue = some q' → q' = q := fun h1 =>
    (Option.some.inj (hq.symm.trans h1)).symm
  refine { inv with one := ?_, body := ?_, fresh := ?_, status := ?_, launched := fun _ _ => ⟨hs, hw⟩ }
  · intro q' a b pa pb h1 ha hb hea heb
    rw [hqq h1, hsend] at ha hb
    exact inv.one hq (hold ha hea) (hold hb heb) hea heb
  · intro q' a pa h1 ha hea
    rw [hqq h1, hsend] at ha
    exact inv.body hq (hold ha hea) hea
  · intro q' h1 hall
    rw [hqq h1, hsend] at hall
    exact inv.fresh hq fun pc hm => hall pc (List.mem_append_left _ hm)
  · intro q' pc h1 hm hent
    rw [hqq h1, hsend] at hm
    obtain ⟨j, hj⟩ := List.mem_iff_getElem?.mp hm
    rw [hqq h1]
    exact inv.status hq (List.mem_of_getElem? (hold hj hent)) hent

/-- `TrySend` of the master. -/
theorem SplitInv.trySend (inv : SplitInv ids m wr src s) : SplitInv ids m wr src (s.trySend m) := by
  unfold Queues.trySend
  rw [inv.holds.trySend]
  split_ifs with h1
  · cases hq : src.lanes.queue with
    | none => exact inv
    | some q => exact inv.launch hq h1.2.1 (tally_eq_iff.mp h1.2.2)
  · exact inv

/-- `Add` for a lane that was not added before. -/
theorem SplitInv.add (inv : SplitInv ids m wr src s) (hnd : ids.Nodup) (hid : ids[k]? = some id)
    (hk : src.lanes.written k = false) (hfresh : ∀ q, s.hub.next ≤ q → s.sends q = []) :
    SplitInv ids m wr { src with lanes := Holds.added src.lanes s.hub m k } (s.add m id (wr k)) := by
  have hholds := inv.holds.add hnd hid hk
  refine SplitInv.trySend ?_
  cases hq : src.lanes.queue with
  | some q =>
    refine inv.of_hub ?_ hholds ?_ (fun h1 => h1) ?_
    · simp [Holds.added, hq]
    · intro q' h1
      rw [QueueHub.obj_add]
      obtain rfl := Option.some.inj (hq.symm.trans h1)
      split_ifs with h2 h3
      · -- the queue of a master that has one is not created
        have := inv.holds.queue_lt hq
        rw [h2] at this
        simp [QueueHub.masterRef, h3] at this
      · exact ⟨rfl, fun h4 => h4⟩
      · exact ⟨rfl, fun h4 => h4⟩
    · intro j hj
      simp only [Holds.added]
      split_ifs
      · by_cases hjk : j = k
        · subst hjk; simp
        · rwa [Function.update_of_ne hjk]
      · exact hj
  | none =>
    obtain ⟨he, hg, hsn⟩ := inv.unborn hq
    obtain ⟨hr, -, -⟩ := inv.holds.unborn hq
    have hmr : s.hub.masterRef m = s.hub.next := by simp [QueueHub.masterRef, hr]
    have hq' : ∀ {q}, (Holds.added src.lanes s.hub m k).queue = some q → q = s.hub.next := by
      intro q h1
      simp only [Holds.added, hq, Option.getD_none, Option.some.injEq] at h1
      omega
    have hnil : s.sends s.hub.next = [] := hfresh _ le_rfl
    have hobj : (QueueHub.add s.hub m id (wr k)).obj s.hub.next =
        { (newQueue m : Queue KSUID W) with
          writers := (newQueue m : Queue KSUID W).writers.insert id (wr k) } := by
      rw [QueueHub.obj_add, if_pos hmr.symm]; simp only [hr, if_true]
    constructor
    case holds => exact hholds
    case items => intro q h1; rw [hq' h1, hobj]; simp [he, hg, newQueue]
    case unborn => intro h1; simp [Holds.added] at h1
    case eofLast => exact inv.eofLast
    case eofData => exact inv.eofData
    case one => intro q i j pc pc' h1 hi; rw [hq' h1] at hi; simp [hnil] at hi
    case body => intro q i pc h1 hi; rw [hq' h1] at hi; simp [hnil] at hi
    case fresh => intro q h1 _; exact ⟨hg, hsn⟩
    case status => intro q pc h1 hm; rw [hq' h1] at hm; simp [hnil] at hm
    case launched => intro q h1 hne; rw [hq' h1] at hne; exact absurd hnil hne

theorem Sends.push {enq sent : List Buffer} (h : Sends enq sent) (hno : NoEof enq) (b : Buffer) :
    Sends (enq ++ [b]) sent := by
  cases h with
  | part hs hp => exact .part hs (hp.trans (chunks_mono (List.prefix_append _ _)))
  | whole hs hd hbs hc he => exact absurd hno he

/-- A chunk is put into the first queue, before the end of stream. -/
theorem SplitInv.push (inv : SplitInv ids m wr src s) (hq : src.lanes.queue = some q)
    (hno : NoEof src.enq) (hb : b.eof = true → b.data = []) (h : s.push q b = some (s', true)) :
    SplitInv ids m wr { src with enq := src.enq ++ [b] } s' := by
  rcases Queues.push_cases h with ⟨-, hop, ch, hitems, hcl, rfl⟩ | ⟨h1, -⟩
  · have hobj : (s.modify q fun x => { x with buffer := ch }).hub.obj q =
        { s.hub.obj q with buffer := ch } := by
      show (s.hub.modify q fun x => { x with buffer := ch }).obj q = _
      rw [Registry.obj_modify_self]
    have hqq : ∀ {q'}, src.lanes.queue = some q' → q' = q := fun h1 =>
      (Option.some.inj (hq.symm.trans h1)).symm
    refine { inv with holds := ?_, items := ?_, unborn := ?_, eofLast := ?_, eofData := ?_, body := ?_, status := ?_ }
    · exact inv.holds.modify_same q (fun x => { x with buffer := ch }) (hcl.trans hop.symm)
        (fun h1 => h1) rfl rfl
    · intro q' h1
      rw [hqq h1, hobj]
      show src.enq ++ [b] = src.got ++ ch.items
      rw [hitems, inv.items hq, List.append_assoc]
    · intro h1
      rw [show src.lanes.queue = none from h1] at hq
      cases hq
    · intro pre x post he hx
      -- an end of stream before the last chunk would be an old one
      refine (append_cons_eq_concat (he.symm : pre ++ x :: post = src.enq ++ [b]) fun h1 => ?_).1
      rw [hno x h1] at hx
      cases hx
    · intro x hx
      rcases List.mem_append.mp hx with h1 | h1
      · exact inv.eofData h1
      · rw [List.mem_singleton.mp h1]; exact hb
    · intro q' i pc h1 hi hent
      have hat := inv.body h1 hi hent
      cases pc with
      | ret e | handoff e | closeDone e | exit e => exact hat.push hno b
      | entry | refused | loop | pass | read | write => exact hat
    · intro q' pc h1 hm hent
      rw [hqq h1, hobj]
      exact inv.status hq (hqq h1 ▸ hm) hent
  · cases h1

/-- A chunk is put into another queue. -/
theorem SplitInv.push_other {ok : Bool} (inv : SplitInv ids m wr src s)
    (hq : src.lanes.queue ≠ some q) (h : s.push q b = some (s', ok)) : SplitInv ids m wr src s' := by
  rcases Queues.push_cases h with ⟨-, hop, ch, -, hcl, rfl⟩ | ⟨-, -, rfl⟩
  · refine inv.of_hub rfl (inv.holds.modify_same q (fun x => { x with buffer := ch })
      (hcl.trans hop.symm) (fun h1 => h1) rfl rfl) ?_ (fun h1 => h1) (fun _ h1 => h1)
    intro q' h1
    have hne : q' ≠ q := by rintro rfl; exact hq h1
    rw [Registry.obj_modify_ne hne]
    exact ⟨rfl, fun h2 => h2⟩
  · exact inv

/-- The rendezvous on `done`. -/
theorem SplitInv.handoff (inv : SplitInv ids m wr src s) (hq : src.lanes.queue = some q)
    (h : s.handoff q i = some s') : SplitInv ids m wr src s' := by
  unfold Queues.handoff at h
  cases hi : (s.sends q)[i]? with
  | none => simp [hi] at h
  | some pc =>
    cases pc with
    | handoff e =>
      simp only [hi] at h
      split_ifs at h
      cases h
      have hat : Sends src.enq src.sent := inv.body hq hi rfl
      exact inv.goto hq hi rfl rfl rfl rfl rfl hat
    | _ => simp [hi] at h

end Ops

end Wssocks.Pipe

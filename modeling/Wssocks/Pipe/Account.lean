import Mathlib.Algebra.GroupWithZero.Nat
import Wssocks.Lib.Lts
import Wssocks.Pipe.Act
import Wssocks.Pipe.CopyBuffer
import Wssocks.Pipe.QueueLemmas

/-!
# What `CopyBuffer` accounts for

A call of `CopyBuffer` with a queue as its writer, while the rest of the program does to the hub what
it likes: `Send` may end, the queue may be closed, the timer of a write may fire.

Results:

* `copyBuffer_accounts`: in every state of every run, what was enqueued is a prefix of what was read,
  `written` is its length and `WriteEOF` comes last; when the call has returned, `err` is nil exactly if the
  loop ended on `io.EOF` with everything enqueued, and `WriteEOF` was called exactly if it ended on the read
  side. What was enqueued is neither lost nor doubled: what `Send` received, followed by what the buffer
  still holds, is what the buffer held before followed by what was enqueued.
-/

namespace Wssocks.Pipe

open Wssocks.Lib

variable {KSUID V : Type} [DecidableEq KSUID]

/-- A call of `CopyBuffer` and the hub of its queue. -/
structure Copying (KSUID V : Type) [DecidableEq KSUID] where
  copy : Copy
  queues : Queues KSUID V

/-- `conn.Read` returns, `CopyBuffer` takes a step in `Write` or `WriteEOF`, its timer fires, or the rest
    of the program acts on the hub. -/
inductive CopyLabel (KSUID V : Type) where
  | read (data : List UInt8) (er : ReadEnd)
  | write
  | timeout
  | env (a : QueueAct KSUID V)

/-- One step, where the writer is queue `q`. -/
def Copying.step (q : ℕ) (s : Copying KSUID V) : CopyLabel KSUID V → Option (Copying KSUID V)
  | .read data er => (s.copy.read data er).map fun c => { s with copy := c }
  | .write => (s.copy.step s.queues q).map fun r => ⟨r.1, r.2⟩
  | .timeout => (s.copy.timeout s.queues q).map fun c => { s with copy := c }
  | .env a => (s.queues.act a).map fun qs => { s with queues := qs }

/-- The start of a call. -/
def Copying.start (qs : Queues KSUID V) : Copying KSUID V := ⟨{ pc := .read }, qs⟩

/-! ## The trace -/

/-- What is seen of a call: a result of `conn.Read`, a chunk of `Write` that went into the buffer, a call of
    `WriteEOF` and its chunk in the buffer. And of the queue: a chunk that another writer put into the
    buffer, and a chunk that a goroutine of `Send` received from it. -/
inductive CopyEvent where
  | read (data : List UInt8) (er : ReadEnd)
  | enqueue (data : List UInt8)
  | writeEOF
  | enqueueEOF
  | other (b : Buffer)
  | received (b : Buffer)
  deriving DecidableEq, Repr

/-- The `select` of `writeBuf` goes on, and the buffer of queue `q` then ends with `b`. -/
def Queues.puts (s : Queues KSUID V) (q : ℕ) (b : Buffer) : Bool :=
  (s.push q b).any fun r => decide ((r.1.hub.obj q).buffer.items = (s.hub.obj q).buffer.items ++ [b])

/-- The chunk of the buffer that goroutine `i` of queue `q` holds after its step; the zero value of a
    drained closed channel is none. -/
def Queues.takes (s : Queues KSUID V) (q i : ℕ) (o : Outcome) : List Buffer :=
  match (s.sends q)[i]?, (s.send q i o).bind fun r => (r.1.sends q)[i]? with
  | some (.read _ _), some (.write _ b _) => if (s.hub.obj q).buffer.items = [] then [] else [b]
  | _, _ => []

/-- The events of a step. -/
def Copying.events (q : ℕ) (s : Copying KSUID V) : CopyLabel KSUID V → List CopyEvent
  | .read data er => [.read data er]
  | .write =>
    match s.copy.pc with
    | .select data _ => if s.queues.puts q ⟨false, data⟩ then [.enqueue data] else []
    | .eofCheck _ => [.writeEOF]
    | .eofSelect _ => if s.queues.puts q ⟨true, []⟩ then [.enqueueEOF] else []
    | _ => []
  | .env (.write r b) => if r = q ∧ s.queues.puts q b then [.other b] else []
  | .env (.send r i o) => if r = q then (s.queues.takes q i o).map .received else []
  | _ => []

/-- The results of `Read`, the enqueues and the calls of `WriteEOF`. -/
def CopyEvent.ofCall : CopyEvent → Bool
  | .read _ _ | .enqueue _ | .writeEOF => true
  | _ => false

def calls (log : List CopyEvent) : List CopyEvent := log.filter CopyEvent.ofCall

/-- What went into the buffer. -/
def putInto (log : List CopyEvent) : List Buffer :=
  log.filterMap fun
    | .enqueue data => some ⟨false, data⟩
    | .enqueueEOF => some ⟨true, []⟩
    | .other b => some b
    | _ => none

/-- What `Send` took out of it. -/
def receivedFrom (log : List CopyEvent) : List Buffer :=
  log.filterMap fun
    | .received b => some b
    | _ => none

/-- The chunks that were read. -/
def readChunks (log : List CopyEvent) : List (List UInt8) :=
  log.filterMap fun
    | .read data _ => if data = [] then none else some data
    | _ => none

/-- The chunks that were enqueued. -/
def enqueued (log : List CopyEvent) : List (List UInt8) :=
  log.filterMap fun
    | .enqueue data => some data
    | _ => none

/-- The error that the last `conn.Read` returned. -/
def lastEnd (log : List CopyEvent) : Option ReadEnd :=
  (log.filterMap fun
    | .read _ er => some er
    | _ => none).getLast?

section
variable {log : List CopyEvent} {data : List UInt8} {er : ReadEnd}

@[simp] theorem readChunks_read : readChunks (log ++ [.read data er]) =
    readChunks log ++ if data = [] then [] else [data] := by
  by_cases h : data = [] <;> simp [readChunks, h]

@[simp] theorem readChunks_enqueue : readChunks (log ++ [.enqueue data]) = readChunks log := by simp [readChunks]

@[simp] theorem readChunks_writeEOF : readChunks (log ++ [.writeEOF]) = readChunks log := by simp [readChunks]

@[simp] theorem enqueued_read : enqueued (log ++ [.read data er]) = enqueued log := by simp [enqueued]

@[simp] theorem enqueued_enqueue : enqueued (log ++ [.enqueue data]) = enqueued log ++ [data] := by
  simp [enqueued]

@[simp] theorem enqueued_writeEOF : enqueued (log ++ [.writeEOF]) = enqueued log := by simp [enqueued]

@[simp] theorem lastEnd_read : lastEnd (log ++ [.read data er]) = some er := by simp [lastEnd]

@[simp] theorem lastEnd_enqueue : lastEnd (log ++ [.enqueue data]) = lastEnd log := by simp [lastEnd]

@[simp] theorem lastEnd_writeEOF : lastEnd (log ++ [.writeEOF]) = lastEnd log := by simp [lastEnd]

end

/-! ## The invariant -/

/-- The account while `CopyBuffer` is at `pc`. -/
def AccountAt (log : List CopyEvent) (err : Option CopyErr) : CopyPc → Prop
  | .idle => False
  | .read => enqueued log = readChunks log ∧ .writeEOF ∉ log ∧ err = none
  | .check data er | .select data er =>
    readChunks log = enqueued log ++ [data] ∧ lastEnd log = some er ∧ .writeEOF ∉ log ∧ err = none
  | .eofCheck er => enqueued log = readChunks log ∧ lastEnd log = some er ∧ er ≠ .more ∧ .writeEOF ∉ log ∧
      err = none
  | .eofSelect er => enqueued log = readChunks log ∧ lastEnd log = some er ∧ er ≠ .more ∧
      (∃ pre, log = pre ++ [.writeEOF] ∧ .writeEOF ∉ pre) ∧ err = none
  | .done =>
    -- a write failed, or the read side ended
    ((∃ data, readChunks log = enqueued log ++ [data]) ∧ .writeEOF ∉ log ∧ err ≠ none) ∨
    ∃ er, enqueued log = readChunks log ∧ lastEnd log = some er ∧ er ≠ .more ∧
      (∃ pre, log = pre ++ [.writeEOF] ∧ .writeEOF ∉ pre) ∧ (err = none ↔ er = .eof)

/-- The account of a call. -/
structure Account (log : List CopyEvent) (s : Copying KSUID V) : Prop where
  pc : AccountAt log s.copy.err s.copy.pc
  written : s.copy.written = ((enqueued log).map List.length).sum

variable {q : ℕ} {s s' : Copying KSUID V} {l : CopyLabel KSUID V} {ls : List (CopyLabel KSUID V)}
  {log : List CopyEvent} {qs : Queues KSUID V}

theorem Account.start : Account [] (Copying.start qs) :=
  ⟨⟨rfl, List.not_mem_nil, rfl⟩, rfl⟩

/-- After a write, or a read of nothing. -/
theorem accountAt_afterWrite {c : Copy} {er : ReadEnd} (h : enqueued log = readChunks log)
    (hl : lastEnd log = some er) (hw : .writeEOF ∉ log) (he : c.err = none) :
    AccountAt log (c.afterWrite er).err (c.afterWrite er).pc := by
  cases er with
  | more => exact ⟨h, hw, he⟩
  | eof | err => exact ⟨h, hl, by simp, hw, he⟩

theorem Copy.written_afterWrite {c : Copy} {er : ReadEnd} : (c.afterWrite er).written = c.written := by
  cases er <;> rfl

theorem Account.read {data : List UInt8} {er : ReadEnd} {c : Copy} (h : Account log s)
    (hs : s.copy.read data er = some c) : Account (log ++ [.read data er]) { s with copy := c } := by
  unfold Copy.read at hs
  split_ifs at hs with hpc hd
  · cases hs
    have hat := h.pc
    rw [hpc] at hat
    obtain ⟨h1, h2, h3⟩ := hat
    refine ⟨accountAt_afterWrite (by simp [h1, hd]) lastEnd_read (by simpa using h2) h3, ?_⟩
    rw [enqueued_read]
    show (s.copy.afterWrite er).written = _
    rw [Copy.written_afterWrite, h.written]
  · cases hs
    have hat := h.pc
    rw [hpc] at hat
    obtain ⟨h1, h2, h3⟩ := hat
    refine ⟨⟨?_, lastEnd_read, by simpa using h2, h3⟩, ?_⟩
    · rw [readChunks_read, enqueued_read, if_neg hd, h1]
    · rw [enqueued_read]; exact h.written

/-- The end of a call on the read side. -/
theorem accountAt_finish {c : Copy} {er : ReadEnd} (h : enqueued log = readChunks log)
    (hl : lastEnd log = some er) (her : er ≠ .more) (hw : ∃ pre, log = pre ++ [.writeEOF] ∧ .writeEOF ∉ pre)
    (he : c.err = none) : AccountAt log (c.finish er).err (c.finish er).pc := by
  refine .inr ⟨er, h, hl, her, hw, ?_⟩
  cases er with
  | more => exact absurd rfl her
  | eof => simp [Copy.finish, he]
  | err => simp [Copy.finish]

/-- A chunk is in the buffer exactly if `writeBuf` found the channel open. -/
theorem Queues.puts_of_push {hs hs' : Queues KSUID V} {b : Buffer} {ok : Bool} (h : hs.push q b = some (hs', ok)) :
    hs.puts q b = ok := by
  unfold Queues.puts
  rw [h, Option.any_some]
  rcases Queues.push_cases h with ⟨rfl, -, ch, hitems, -, rfl⟩ | ⟨rfl, -, rfl⟩
  · exact decide_eq_true (by rw [Queues.modify, Registry.obj_modify, if_pos rfl]; exact hitems)
  · exact decide_eq_false fun h1 => absurd (congrArg List.length h1) (by simp)

theorem Account.write (h : Account log s) (hs : s.step q .write = some s') :
    Account (log ++ calls (s.events q .write)) s' := by
  obtain ⟨⟨c, qs⟩, h1, rfl⟩ := Option.map_eq_some_iff.mp hs
  have hat := h.pc
  have hw := h.written
  unfold Copy.step at h1
  cases hpc : s.copy.pc with
  | idle | read | done => simp [hpc] at h1
  | check data er =>
    simp only [hpc] at h1
    rw [show calls (s.events q .write) = [] by simp [Copying.events, hpc, calls], List.append_nil]
    rw [hpc] at hat
    obtain ⟨h2, h3, h4, h5⟩ := hat
    split_ifs at h1 <;> cases h1
    · exact ⟨.inl ⟨⟨data, h2⟩, h4, by simp [Copy.abort]⟩, hw⟩
    · exact ⟨⟨h2, h3, h4, h5⟩, hw⟩
  | select data er =>
    rw [hpc] at hat
    obtain ⟨h2, h3, h4, h5⟩ := hat
    simp only [hpc, Option.map_eq_some_iff] at h1
    obtain ⟨⟨qs1, ok⟩, h6, h7⟩ := h1
    simp only [Copying.events, hpc, Queues.puts_of_push h6]
    cases ok with
    | true =>
      simp only [if_true, Prod.mk.injEq] at h7 ⊢
      obtain ⟨rfl, rfl⟩ := h7
      rw [show calls [.enqueue data] = [.enqueue data] from rfl]
      refine ⟨accountAt_afterWrite (by simp [h2]) (by simpa using h3) (by simpa using h4) h5, ?_⟩
      rw [Copy.written_afterWrite, enqueued_enqueue]
      simp [hw]
    | false =>
      simp only [Bool.false_eq_true, if_false, Prod.mk.injEq] at h7 ⊢
      obtain ⟨rfl, rfl⟩ := h7
      rw [show calls [] = [] from rfl, List.append_nil]
      exact ⟨.inl ⟨⟨data, h2⟩, h4, by simp [Copy.abort]⟩, hw⟩
  | eofCheck er =>
    rw [hpc] at hat
    obtain ⟨h2, h3, h4, h5, h6⟩ := hat
    simp only [hpc] at h1
    rw [show calls (s.events q .write) = [.writeEOF] by simp [Copying.events, hpc, calls, CopyEvent.ofCall]]
    split_ifs at h1 <;> cases h1
    · refine ⟨accountAt_finish (by simpa using h2) (by simpa using h3) h4 ⟨log, rfl, h5⟩ h6, ?_⟩
      rw [enqueued_writeEOF]; exact hw
    · refine ⟨⟨by simpa using h2, by simpa using h3, h4, ⟨log, rfl, h5⟩, h6⟩, ?_⟩
      rw [enqueued_writeEOF]; exact hw
  | eofSelect er =>
    rw [hpc] at hat
    obtain ⟨h2, h3, h4, h5, h6⟩ := hat
    simp only [hpc, Option.map_eq_some_iff, Prod.mk.injEq] at h1
    obtain ⟨⟨qs1, ok⟩, -, rfl, rfl⟩ := h1
    have hno : calls (s.events q .write) = [] := by
      simp only [Copying.events, hpc]
      split_ifs <;> rfl
    rw [hno, List.append_nil]
    exact ⟨accountAt_finish h2 h3 h4 h5 h6, hw⟩

theorem Account.timeout {c : Copy} (h : Account log s) (hs : s.copy.timeout s.queues q = some c) :
    Account log { s with copy := c } := by
  have hat := h.pc
  unfold Copy.timeout at hs
  split_ifs at hs
  cases hpc : s.copy.pc with
  | select data er =>
    rw [hpc] at hat
    simp only [hpc] at hs
    cases hs
    exact ⟨.inl ⟨⟨data, hat.1⟩, hat.2.2.1, by simp [Copy.abort]⟩, h.written⟩
  | eofSelect er =>
    rw [hpc] at hat
    simp only [hpc] at hs
    cases hs
    exact ⟨accountAt_finish hat.1 hat.2.1 hat.2.2.1 hat.2.2.2.1 hat.2.2.2.2, h.written⟩
  | _ => simp [hpc] at hs

/-- The rest of the program is no part of the call. -/
theorem calls_env {a : QueueAct KSUID V} : calls (s.events q (.env a)) = [] := by
  cases a with
  | write r b =>
    simp only [Copying.events]
    split_ifs <;> rfl
  | send r i o =>
    simp only [Copying.events]
    split_ifs
    · simp [calls, CopyEvent.ofCall]
    · rfl
  | _ => rfl

theorem Account.step (h : Account log s) (hs : s.step q l = some s') :
    Account (log ++ calls (s.events q l)) s' := by
  cases l with
  | read data er =>
    obtain ⟨c, h1, rfl⟩ := Option.map_eq_some_iff.mp hs
    exact h.read h1
  | write => exact h.write hs
  | timeout =>
    obtain ⟨c, h1, rfl⟩ := Option.map_eq_some_iff.mp hs
    rw [show calls (s.events q .timeout) = [] from rfl, List.append_nil]
    exact h.timeout h1
  | env a =>
    obtain ⟨qs, -, rfl⟩ := Option.map_eq_some_iff.mp hs
    rw [calls_env, List.append_nil]
    exact ⟨h.pc, h.written⟩

/-- What `CopyBuffer` promises about its trace. -/
structure Accounts (log : List CopyEvent) (c : Copy) : Prop where
  inOrder : enqueued log <+: readChunks log
  written : c.written = ((enqueued log).map List.length).sum
  /-- `WriteEOF` is called at most once, and nothing follows it. -/
  eofLast : ∀ pre post, log = pre ++ .writeEOF :: post → post = []
  err : c.pc = .done → (c.err = none ↔ lastEnd log = some .eof ∧ enqueued log = readChunks log)
  eof : c.pc = .done →
    (.writeEOF ∈ log ↔ (∃ er, lastEnd log = some er ∧ er ≠ .more) ∧ enqueued log = readChunks log)

theorem eofLast_of_not_mem (h : .writeEOF ∉ log) (pre post : List CopyEvent)
    (he : log = pre ++ .writeEOF :: post) : post = [] := by
  subst he
  exact absurd (List.mem_append_right _ List.mem_cons_self) h

theorem eofLast_of_snoc (h : ∃ pre, log = pre ++ [.writeEOF] ∧ .writeEOF ∉ pre) (pre post : List CopyEvent)
    (he : log = pre ++ .writeEOF :: post) : post = [] := by
  obtain ⟨pre', rfl, hno⟩ := h
  rcases List.eq_nil_or_concat post with h1 | ⟨rest, x, rfl⟩
  · exact h1
  · -- the call of `WriteEOF` would be among the earlier events
    have hsnoc : pre' ++ [.writeEOF] = (pre ++ .writeEOF :: rest) ++ [x] := by
      rw [he]
      simp
    refine absurd ?_ hno
    rw [List.append_inj_left' hsnoc rfl]
    exact List.mem_append_right _ List.mem_cons_self

theorem Account.accounts (h : Account log s) : Accounts log s.copy := by
  have hat := h.pc
  have hall : enqueued log = readChunks log → enqueued log <+: readChunks log := fun h1 => h1 ▸ List.prefix_rfl
  cases hpc : s.copy.pc with
  | idle => rw [hpc] at hat; exact hat.elim
  | read =>
    rw [hpc] at hat
    exact ⟨hall hat.1, h.written, eofLast_of_not_mem hat.2.1, by simp [hpc], by simp [hpc]⟩
  | check data er | select data er =>
    rw [hpc] at hat
    exact ⟨⟨[data], hat.1.symm⟩, h.written, eofLast_of_not_mem hat.2.2.1, by simp [hpc], by simp [hpc]⟩
  | eofCheck er =>
    rw [hpc] at hat
    exact ⟨hall hat.1, h.written, eofLast_of_not_mem hat.2.2.2.1, by simp [hpc], by simp [hpc]⟩
  | eofSelect er =>
    rw [hpc] at hat
    exact ⟨hall hat.1, h.written, eofLast_of_snoc hat.2.2.2.1, by simp [hpc], by simp [hpc]⟩
  | done =>
    rw [hpc] at hat
    rcases hat with ⟨⟨data, h1⟩, h2, h3⟩ | ⟨er, h1, h2, h3, h4, h5⟩
    · -- the chunk in hand is missing
      have hne : enqueued log ≠ readChunks log := by
        rw [h1]
        intro h4
        simpa using congrArg List.length h4
      exact ⟨⟨[data], h1.symm⟩, h.written, eofLast_of_not_mem h2,
        fun _ => ⟨fun h4 => absurd h4 h3, fun h4 => absurd h4.2 hne⟩,
        fun _ => ⟨fun h4 => absurd h4 h2, fun h4 => absurd h4.2 hne⟩⟩
    · have hmem : .writeEOF ∈ log := by
        obtain ⟨pre, rfl, -⟩ := h4
        simp
      exact ⟨hall h1, h.written, eofLast_of_snoc h4, fun _ => by rw [h5, h2]; simp [h1],
        fun _ => ⟨fun _ => ⟨⟨er, h2, h3⟩, h1⟩, fun _ => hmem⟩⟩

/-! ## The buffer

One step moves what it puts into the buffer to its end and takes what `Send` receives from its head. -/

section Buffer

variable {us us' : Queues KSUID V} {r i : ℕ}

/-- A change of a queue that leaves its buffer. -/
theorem Queues.items_modify {f : Queue KSUID V → Queue KSUID V}
    (hf : ∀ x, (f x).buffer.items = x.buffer.items) :
    ((us.modify r f).hub.obj q).buffer.items = (us.hub.obj q).buffer.items := by
  rw [Queues.modify, Registry.obj_modify]
  split_ifs with h
  · rw [h, hf]
  · rfl

/-- A new queue has a new place. -/
theorem Queues.items_add {m id : KSUID} {v : V} (hq : q < us.hub.next) :
    ((us.add m id v).hub.obj q).buffer.items = (us.hub.obj q).buffer.items := by
  rw [Queues.hub_add, QueueHub.obj_add]
  split_ifs with h1 h2
  · rw [h1, QueueHub.masterRef, h2] at hq
    exact absurd hq (lt_irrefl _)
  · rfl
  · rfl

theorem Queues.items_setSort {m : KSUID} {sort : List KSUID} (hq : q < us.hub.next) :
    ((us.setSort m sort).hub.obj q).buffer.items = (us.hub.obj q).buffer.items := by
  cases hm : us.hub.ref? m with
  | some c =>
    rw [Queues.setSort_eq hm]
    exact Queues.items_modify fun _ => rfl
  | none =>
    simp only [Queues.setSort, QueueHub.setSort, hm, Registry.obj_create]
    rw [if_neg hq.ne]

theorem Queues.items_remove {m : KSUID} :
    ((us.remove m).hub.obj q).buffer.items = (us.hub.obj q).buffer.items := by
  rw [Queues.remove, QueueHub.obj_remove]
  split_ifs
  · rw [Queue.items_close]
  · rfl

theorem Queues.items_push {b : Buffer} {ok : Bool} (h : us.push r b = some (us', ok)) :
    (us'.hub.obj q).buffer.items = (us.hub.obj q).buffer.items ++ if r = q ∧ us.puts q b then [b] else [] := by
  by_cases hr : r = q
  · subst hr
    rw [Queues.puts_of_push h]
    rcases Queues.push_cases h with ⟨rfl, -, ch, hitems, -, rfl⟩ | ⟨rfl, -, rfl⟩
    · rw [if_pos ⟨rfl, rfl⟩, ← hitems, Queues.modify, Registry.obj_modify, if_pos rfl]
    · simp
  · rw [if_neg fun h1 => hr h1.1, List.append_nil]
    rcases Queues.push_cases h with ⟨-, -, ch, -, -, rfl⟩ | ⟨-, -, rfl⟩
    · rw [Queues.modify, Registry.obj_modify, if_neg fun h1 => hr h1.symm]
    · rfl

theorem Queues.hub_handoff (h : us.handoff r i = some us') : us'.hub = us.hub := by
  unfold Queues.handoff at h
  split at h
  · split_ifs at h
    cases h
    rfl
  · cases h

/-- A step of `Send` on another queue. -/
theorem Queues.items_send_ne {o : Outcome} {msg : Option (V × Buffer)} (h : us.send r i o = some (us', msg))
    (hr : r ≠ q) : us'.hub.obj q = us.hub.obj q := by
  obtain ⟨u, h1, -⟩ := (Queues.send_moved h).hub
  rw [h1, Registry.obj_modify, if_neg fun h2 => hr h2.symm]

/-- A step of `Send` leaves the buffer, or goes from the receive to the write with its head. -/
theorem Queues.items_send {o : Outcome} {msg : Option (V × Buffer)} (h : us.send q i o = some (us', msg)) :
    (us.hub.obj q).buffer.items = us.takes q i o ++ (us'.hub.obj q).buffer.items := by
  have hstay : ∀ {pc}, (us.sends q)[i]? = some pc → (∀ v rest, pc ≠ .read v rest) → us.takes q i o = [] := by
    intro pc hi hpc
    unfold Queues.takes
    rw [hi]
    cases pc with
    | read v rest => exact absurd rfl (hpc v rest)
    | _ => rfl
  cases Queues.sendStep_of_send h with
  | refuse hi | closed hi | round hi | again hi | next hi | write hi | fail hi | noWriter hi =>
    rw [hstay hi (by simp)]
    rfl
  | enter hi | ret hi | closeDone hi =>
    rw [hstay hi (by simp)]
    simp [Queues.goto, Queues.modify]
  | panic hi =>
    rcases hi with hi | hi
    · rw [hstay hi (by simp)]
      rfl
    · rw [hstay hi (by simp)]
      rfl
  | timeout hi =>
    have hno : us.takes q i .timeout = [] := by
      simp [Queues.takes, hi, h, Queues.goto, List.getElem?_set]
    rw [hno]
    rfl
  | @read v rest x hi hx =>
    have hto : ((us.send q i .ok).bind fun p => (p.1.sends q)[i]?) = some (.write v x.1 rest) := by
      obtain ⟨hlt, -⟩ := List.getElem?_eq_some_iff.mp hi
      simp [h, Queues.goto, Queues.modify, hlt]
    have htakes : us.takes q i .ok = if (us.hub.obj q).buffer.items = [] then [] else [x.1] := by
      rw [Queues.takes, hi, hto]
    rw [htakes]
    simp only [Queues.goto, Queues.modify, Registry.obj_modify, if_true]
    rcases Chan.recv?_eq_some hx with ⟨hitems, -⟩ | ⟨hitems, -, -, hch⟩
    · simp [hitems]
    · simp [hitems, hch]

theorem Queues.next_act {a : QueueAct KSUID V} (h : us.act a = some us') : us.hub.next ≤ us'.hub.next := by
  unfold Queues.act at h
  split_ifs at h
  cases a with
  | add m id v =>
    cases h
    rw [Queues.hub_add, QueueHub.add_eq]
    exact Registry.next_le_ensure
  | setSort m sort =>
    cases h
    simp only [Queues.setSort, QueueHub.setSort]
    split <;> simp
  | trySend m =>
    cases h
    rw [Queues.hub_trySend]
  | remove m =>
    cases h
    rw [Queues.remove, QueueHub.next_remove]
  | launch r =>
    simp only at h
    split_ifs at h
    cases h
    rfl
  | sort r ids =>
    cases h
    rfl
  | send r i o =>
    obtain ⟨⟨u, msg⟩, h1, rfl⟩ := Option.map_eq_some_iff.mp h
    exact (Queues.send_moved h1).hub.next.ge
  | wait r i => exact (Queues.handoff_moved h).hub.next.ge
  | write r b =>
    obtain ⟨⟨u, ok⟩, h1, rfl⟩ := Option.map_eq_some_iff.mp h
    exact (Queues.push_touched h1).1.next.ge

/-- What the rest of the program does to the buffer. -/
theorem Queues.items_act {a : QueueAct KSUID V} {c : Copy} (hq : q < us.hub.next) (h : us.act a = some us') :
    (us.hub.obj q).buffer.items ++ putInto (Copying.events q ⟨c, us⟩ (.env a)) =
      receivedFrom (Copying.events q ⟨c, us⟩ (.env a)) ++ (us'.hub.obj q).buffer.items := by
  unfold Queues.act at h
  split_ifs at h
  have hkept : (us'.hub.obj q).buffer.items = (us.hub.obj q).buffer.items →
      (us.hub.obj q).buffer.items ++ putInto [] = receivedFrom [] ++ (us'.hub.obj q).buffer.items := by
    intro h1
    rw [h1]
    simp [putInto, receivedFrom]
  cases a with
  | add m id v =>
    cases h
    exact hkept (Queues.items_add hq)
  | setSort m sort =>
    cases h
    exact hkept (Queues.items_setSort hq)
  | trySend m =>
    cases h
    exact hkept (by rw [Queues.hub_trySend])
  | remove m =>
    cases h
    exact hkept Queues.items_remove
  | launch r =>
    simp only at h
    split_ifs at h
    cases h
    exact hkept rfl
  | sort r ids =>
    cases h
    exact hkept (Queues.items_modify fun _ => rfl)
  | send r i o =>
    obtain ⟨⟨u, msg⟩, h1, rfl⟩ := Option.map_eq_some_iff.mp h
    by_cases hr : r = q
    · subst hr
      simp only [Copying.events, if_true]
      rw [Queues.items_send h1]
      simp [putInto, receivedFrom, List.filterMap_map]
    · simp only [Copying.events, if_neg hr]
      exact hkept (by rw [Queues.items_send_ne h1 hr])
  | wait r i =>
    exact hkept (by rw [Queues.hub_handoff h])
  | write r b =>
    obtain ⟨⟨u, ok⟩, h1, rfl⟩ := Option.map_eq_some_iff.mp h
    simp only [Copying.events]
    rw [Queues.items_push h1]
    split_ifs <;> simp [putInto, receivedFrom]

theorem Copy.next_step {c c' : Copy} (h : c.step us q = some (c', us')) : us.hub.next = us'.hub.next := by
  unfold Copy.step at h
  cases hpc : c.pc with
  | idle | read | done => simp [hpc] at h
  | check data er | eofCheck er =>
    simp only [hpc] at h
    split_ifs at h <;> cases h <;> rfl
  | select data er =>
    simp only [hpc, Option.map_eq_some_iff] at h
    obtain ⟨⟨u, ok⟩, h1, h2⟩ := h
    rw [← (Queues.push_touched h1).1.next]
    cases ok <;> cases h2 <;> rfl
  | eofSelect er =>
    simp only [hpc, Option.map_eq_some_iff, Prod.mk.injEq] at h
    obtain ⟨⟨u, ok⟩, h1, -, rfl⟩ := h
    exact (Queues.push_touched h1).1.next.symm

/-- What the call itself does to the buffer. -/
theorem Copy.items_step {c c' : Copy} (h : c.step us q = some (c', us')) :
    (us.hub.obj q).buffer.items ++ putInto (Copying.events q ⟨c, us⟩ .write) =
      receivedFrom (Copying.events q ⟨c, us⟩ .write) ++ (us'.hub.obj q).buffer.items := by
  unfold Copy.step at h
  cases hpc : c.pc with
  | idle | read | done => simp [hpc] at h
  | check data er | eofCheck er =>
    simp only [hpc] at h
    split_ifs at h <;> cases h <;> simp [Copying.events, hpc, putInto, receivedFrom]
  | select data er =>
    simp only [hpc, Option.map_eq_some_iff] at h
    obtain ⟨⟨u, ok⟩, h1, h2⟩ := h
    have hu : u = us' := by
      cases ok <;> exact congrArg Prod.snd h2
    subst hu
    simp only [Copying.events, hpc]
    rw [Queues.items_push h1]
    cases us.puts q ⟨false, data⟩ <;> simp [putInto, receivedFrom]
  | eofSelect er =>
    simp only [hpc, Option.map_eq_some_iff, Prod.mk.injEq] at h
    obtain ⟨⟨u, ok⟩, h1, -, rfl⟩ := h
    simp only [Copying.events, hpc]
    rw [Queues.items_push h1]
    cases us.puts q ⟨true, []⟩ <;> simp [putInto, receivedFrom]

end Buffer

/-- The buffer of queue `q`, which held `items` at the start: nothing is lost and nothing is doubled. -/
structure Balance (q : ℕ) (items : List Buffer) (log : List CopyEvent) (s : Copying KSUID V) : Prop where
  alloc : q < s.queues.hub.next
  balance : items ++ putInto log = receivedFrom log ++ (s.queues.hub.obj q).buffer.items

theorem Copying.items_step (hq : q < s.queues.hub.next) (h : s.step q l = some s') :
    (s.queues.hub.obj q).buffer.items ++ putInto (s.events q l) =
      receivedFrom (s.events q l) ++ (s'.queues.hub.obj q).buffer.items := by
  cases l with
  | read data er =>
    obtain ⟨c, -, rfl⟩ := Option.map_eq_some_iff.mp h
    simp [Copying.events, putInto, receivedFrom]
  | write =>
    obtain ⟨⟨c, us⟩, h1, rfl⟩ := Option.map_eq_some_iff.mp h
    exact Copy.items_step h1
  | timeout =>
    obtain ⟨c, -, rfl⟩ := Option.map_eq_some_iff.mp h
    simp [Copying.events, putInto, receivedFrom]
  | env a =>
    obtain ⟨us, h1, rfl⟩ := Option.map_eq_some_iff.mp h
    exact Queues.items_act hq h1

theorem Copying.next_step (h : s.step q l = some s') : s.queues.hub.next ≤ s'.queues.hub.next := by
  cases l with
  | read | timeout =>
    obtain ⟨c, -, rfl⟩ := Option.map_eq_some_iff.mp h
    exact le_rfl
  | write =>
    obtain ⟨⟨c, us⟩, h1, rfl⟩ := Option.map_eq_some_iff.mp h
    exact (Copy.next_step h1).le
  | env a =>
    obtain ⟨us, h1, rfl⟩ := Option.map_eq_some_iff.mp h
    exact Queues.next_act h1

theorem Balance.step {items : List Buffer} (h : Balance q items log s) (hs : s.step q l = some s') :
    Balance q items (log ++ s.events q l) s' := by
  refine ⟨h.alloc.trans_le (Copying.next_step hs), ?_⟩
  calc items ++ putInto (log ++ s.events q l)
      = (items ++ putInto log) ++ putInto (s.events q l) := by simp [putInto]
    _ = receivedFrom log ++ ((s.queues.hub.obj q).buffer.items ++ putInto (s.events q l)) := by
        rw [h.balance, List.append_assoc]
    _ = receivedFrom log ++ (receivedFrom (s.events q l) ++ (s'.queues.hub.obj q).buffer.items) := by
        rw [Copying.items_step h.alloc hs]
    _ = receivedFrom (log ++ s.events q l) ++ (s'.queues.hub.obj q).buffer.items := by simp [receivedFrom]

/-- `CopyBuffer` accounts exactly for what it enqueued, and the queue for what was put into it. -/
theorem copyBuffer_accounts (h : Run (Copying.step q) anyStep (Copying.start qs) ls s) :
    Accounts (calls (history (Copying.step q) (Copying.events q) (Copying.start qs) ls)) s.copy ∧
    (q < qs.hub.next →
      (qs.hub.obj q).buffer.items ++
          putInto (history (Copying.step q) (Copying.events q) (Copying.start qs) ls) =
        receivedFrom (history (Copying.step q) (Copying.events q) (Copying.start qs) ls) ++
          (s.queues.hub.obj q).buffer.items) := by
  constructor
  · have ha : Account (calls (history (Copying.step q) (Copying.events q) (Copying.start qs) ls)) s := by
      refine h.history_invariant (I := fun log s => Account (calls log) s) Account.start fun _ _ _ _ h1 _ hs => ?_
      rw [calls, List.filter_append]
      exact h1.step hs
    exact ha.accounts
  · intro hq
    have hf : Balance q (qs.hub.obj q).buffer.items
        (history (Copying.step q) (Copying.events q) (Copying.start qs) ls) s :=
      h.history_invariant ⟨hq, by simp [putInto, receivedFrom, Copying.start]⟩ fun _ _ _ _ h1 _ hs => h1.step hs
    exact hf.balance

/-- One byte, then the end; meanwhile a goroutine of `Send` receives the byte. -/
def oneByte : List (CopyLabel ℕ ℕ) :=
  [.read [1] .more, .write, .env (.setSort 7 [7]), .env (.trySend 7), .env (.send 0 0 .ok), .write,
    .env (.send 0 0 .ok), .env (.send 0 0 .ok), .read [] .eof, .env (.send 0 0 .ok), .write, .write]

set_option maxRecDepth 100000 in
/-- One chunk is enqueued and received, `WriteEOF` is called, and its chunk is in the buffer. -/
theorem copyBuffer_accounts_one_byte : ∃ s : Copying ℕ ℕ,
    Run (Copying.step 0) anyStep (Copying.start (Queues.init.add 7 7 0)) oneByte s ∧
      s.copy.pc = .done ∧ s.copy.err = none ∧
    Accounts (calls (history (Copying.step 0) (Copying.events 0) (Copying.start (Queues.init.add 7 7 0)) oneByte))
      s.copy ∧
    receivedFrom (history (Copying.step 0) (Copying.events 0) (Copying.start (Queues.init.add 7 7 0)) oneByte) =
      [⟨false, [1]⟩] ∧
    (s.queues.hub.obj 0).buffer.items = [⟨true, []⟩] := by
  have hexec : (exec (Copying.step 0) (fun _ _ => true) (Copying.start (Queues.init.add (7 : ℕ) 7 (0 : ℕ)))
      oneByte).map (fun s => decide (s.copy.pc = .done ∧ s.copy.err = none)) = some true := by decide +kernel
  obtain ⟨s, hrun, hobs⟩ := exists_run_of_exec hexec
  obtain ⟨hpc, herr⟩ := of_decide_eq_true hobs
  have hrun' : Run (Copying.step 0) anyStep _ _ s := hrun.mono fun _ _ _ => trivial
  obtain ⟨hacc, hflow⟩ := copyBuffer_accounts hrun'
  have hput : putInto (history (Copying.step 0) (Copying.events 0)
      (Copying.start (Queues.init.add (7 : ℕ) 7 (0 : ℕ))) oneByte) = [⟨false, [1]⟩, ⟨true, []⟩] := by decide +kernel
  have hrec : receivedFrom (history (Copying.step 0) (Copying.events 0)
      (Copying.start (Queues.init.add (7 : ℕ) 7 (0 : ℕ))) oneByte) = [⟨false, [1]⟩] := by decide +kernel
  refine ⟨s, hrun', hpc, herr, hacc, hrec, ?_⟩
  -- what was put into the buffer and not received is still there
  have hbal := hflow (by decide +kernel)
  rw [hput, hrec] at hbal
  exact (List.cons.inj hbal).2.symm

end Wssocks.Pipe

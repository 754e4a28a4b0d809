import Wssocks.Lib.Chan
import Wssocks.Lib.Lts

/-!
# The buffer with a blocking reader (wss/buffered_reader_writer.go)

`BufferedWR` is a byte buffer under a mutex, with a channel `update` of one slot on which `Read` waits while the
buffer is empty. `Write` puts a token into `update` when it finds the buffer empty, and then adds its bytes.
`Read` looks at the length of the buffer without the mutex; only if it is zero, it takes a token.

Any number of goroutines `G` call `Write` and `Close`, and one goroutine calls `Read`. A step is the length
check, an operation on `update`, a part of a section under the mutex between them, or a call. `Critical` tells
which section the mutex protects now, so that two of them cannot be entered at a time.

Results:

* `reads_fifo`: what was read is a beginning of what was written, and no wake-up is lost.
* `early_eof`: a `Read` that finds data leaves the token where it is. When it empties the buffer, the next `Read`
  takes this token, finds nothing and reports the end of the stream.
* `eof_after_close`: this is the only way to an end of the stream before `Close`.
-/

namespace Wssocks.Wss

open Wssocks.Lib

/-! ## The code -/

/-- Where the reader is: outside of `Read`, or in `Read` with a slice of length `n`. -/
inductive ReadPc where
  | idle
  /-- Before the test of `h.buffer.Len()`. -/
  | check (n : ℕ)
  /-- At `<-h.update`. -/
  | wait (n : ℕ)
  /-- At `h.mu.Lock()`. -/
  | lock (n : ℕ)
  /-- In the section under the mutex. -/
  | locked
deriving DecidableEq, Repr

/-- Where another goroutine is: at `h.mu.Lock()` of `Write(p)` or `Close()`, or behind it. -/
inductive CallPc where
  | idle
  | write (p : List UInt8)
  | close
  | locked
deriving DecidableEq, Repr

/-- The section under the mutex. -/
inductive Critical (G : Type) where
  | free
  /-- `Read`, before the test of `h.done`. -/
  | read (n : ℕ)
  /-- `Write`, before the test of `h.done`. -/
  | write (g : G) (p : List UInt8)
  /-- `Write`, at `h.update <- struct{}{}`. -/
  | signal (g : G) (p : List UInt8)
  /-- `Write`, before `h.buffer.Write`. -/
  | append (g : G) (p : List UInt8)
  /-- `Close`, before the test of `h.done`. -/
  | close (g : G)
  /-- `Close`, before `close(h.update)`. -/
  | closeUpdate (g : G)
deriving DecidableEq, Repr

/-- A `BufferedWR` with the goroutines that use it. `crashed` is set by a panic on the channel `update`. -/
structure BufferedWR (G : Type) where
  buffer : List UInt8
  done : Bool
  update : Chan Unit 1
  mu : Critical G
  reader : ReadPc
  calls : G → CallPc
  crashed : Bool

/-- The labels: a call of `Read` with a slice of length `n`, of `Write` or of `Close`, and a step of the reader or
    of another goroutine. -/
inductive BufferedLabel (G : Type) where
  | read (n : ℕ)
  | reader
  | write (g : G) (p : List UInt8)
  | close (g : G)
  | call (g : G)
deriving DecidableEq, Repr

/-- What `Read` returns: bytes, or `io.EOF`. -/
inductive ReadResult where
  | data (bs : List UInt8)
  | eof
deriving DecidableEq, Repr

namespace BufferedWR

variable {G : Type} [DecidableEq G]

/-- `NewBufferWR` -/
def init : BufferedWR G := ⟨[], false, Chan.empty, .free, .idle, fun _ => .idle, false⟩

variable (s : BufferedWR G)

/-- What the section of `Read` returns; `bytes.Buffer.Read` reports the end of an empty buffer. -/
def result (n : ℕ) : ReadResult :=
  if s.done then .eof
  else if s.buffer = [] then if n = 0 then .data [] else .eof
  else .data (s.buffer.take n)

/-- The next step of the reader. -/
def readerStep : Option (BufferedWR G) :=
  match s.reader with
  | .idle => none
  | .check n => some { s with reader := if s.buffer.length = 0 then .wait n else .lock n }
  | .wait n =>
    -- from the closed and empty channel it receives `ok == false`
    s.update.recv?.map fun r => { s with update := r.2, reader := if s.update.items = [] then .idle else .lock n }
  | .lock n => if s.mu = .free then some { s with mu := .read n, reader := .locked } else none
  | .locked =>
    match s.mu with
    | .read n => some { s with
        mu := .free, reader := .idle, buffer := if s.done then s.buffer else s.buffer.drop n }
    | _ => none

/-- Goroutine `g` returns from its call and gives up the mutex. -/
def leave (g : G) : BufferedWR G := { s with mu := .free, calls := Function.update s.calls g .idle }

/-- The next step of goroutine `g` under the mutex. -/
def sectionStep (g : G) : Option (BufferedWR G) :=
  match s.mu with
  | .write g' p =>
    if g' ≠ g then none
    else if s.done then some (s.leave g)
    else if p.length = 0 then some (s.leave g)
    else if s.buffer.length = 0 then some { s with mu := .signal g p }
    else some { s with mu := .append g p }
  | .signal g' p =>
    if g' ≠ g then none
    else if s.update.closed then some { s with crashed := true }
    else (s.update.send? ()).map fun c => { s with update := c, mu := .append g p }
  | .append g' p => if g' ≠ g then none else some ({ s with buffer := s.buffer ++ p }.leave g)
  | .close g' =>
    if g' ≠ g then none
    else if s.done then some (s.leave g)
    else some { s with done := true, mu := .closeUpdate g }
  | .closeUpdate g' =>
    if g' ≠ g then none
    else if s.update.closed then some { s with crashed := true }
    else some ({ s with update := s.update.close }.leave g)
  | _ => none

/-- The next step of goroutine `g`. -/
def callStep (g : G) : Option (BufferedWR G) :=
  match s.calls g with
  | .idle => none
  | .write p =>
    if s.mu = .free then some { s with mu := .write g p, calls := Function.update s.calls g .locked } else none
  | .close =>
    if s.mu = .free then some { s with mu := .close g, calls := Function.update s.calls g .locked } else none
  | .locked => s.sectionStep g

/-- One step. -/
def step (l : BufferedLabel G) : Option (BufferedWR G) :=
  if s.crashed then none
  else match l with
  | .read n => if s.reader = .idle then some { s with reader := .check n } else none
  | .reader => s.readerStep
  | .write g p => if s.calls g = .idle then some { s with calls := Function.update s.calls g (.write p) } else none
  | .close g => if s.calls g = .idle then some { s with calls := Function.update s.calls g .close } else none
  | .call g => s.callStep g

end BufferedWR

/-! ## What is observed -/

/-- The events of a run: `Write` added its bytes, `Read` returned, `Close` was called. -/
inductive BufferedEvent where
  | wrote (p : List UInt8)
  | returned (r : ReadResult)
  | closeCalled
deriving DecidableEq, Repr

section Observed

variable {G : Type} [DecidableEq G]

/-- The events of a step. -/
def BufferedWR.events (s : BufferedWR G) : BufferedLabel G → List BufferedEvent
  | .reader =>
    match s.reader, s.mu with
    | .wait _, _ => if s.update.items = [] then [.returned .eof] else []
    | .locked, .read n => [.returned (s.result n)]
    | _, _ => []
  | .call g =>
    match s.calls g, s.mu with
    | .locked, .append _ p => [.wrote p]
    | _, _ => []
  | .close _ => [.closeCalled]
  | _ => []

/-- The events of a run. -/
def bufferedLog (ls : List (BufferedLabel G)) : List BufferedEvent :=
  history BufferedWR.step BufferedWR.events BufferedWR.init ls

/-- The bytes that were added, in the order of the sections that added them. -/
def writtenBytes : List BufferedEvent → List UInt8
  | [] => []
  | .wrote p :: log => p ++ writtenBytes log
  | _ :: log => writtenBytes log

/-- The bytes that were returned. -/
def readBytes : List BufferedEvent → List UInt8
  | [] => []
  | .returned (.data bs) :: log => bs ++ readBytes log
  | _ :: log => readBytes log

/-- A goroutine is in `Write`. -/
def BufferedWR.Writing (s : BufferedWR G) : Prop :=
  (∃ g p, s.calls g = .write p) ∨ ∃ g p, s.mu = .write g p ∨ s.mu = .signal g p ∨ s.mu = .append g p

/-- The reader sleeps although there is data for it, and nobody is there to wake it. -/
def BufferedWR.LostWakeUp (s : BufferedWR G) : Prop :=
  (∃ n, s.reader = .wait n) ∧ s.update.items = [] ∧ ¬ s.Writing ∧ s.done = false ∧ s.buffer ≠ []

/-- `Close` was called before a `Read` reported the end of the stream. -/
def EofAfterClose (log : List BufferedEvent) : Prop :=
  ∀ before after, log = before ++ .returned .eof :: after → .closeCalled ∈ before

end Observed

/-! ## What a step does -/

section Steps

variable {G : Type} [DecidableEq G]

/-- The steps, with their conditions and their events. -/
inductive BufferedStep (s : BufferedWR G) : BufferedLabel G → BufferedWR G → List BufferedEvent → Prop
  | callRead {n : ℕ} (hr : s.reader = .idle) : BufferedStep s (.read n) { s with reader := .check n } []
  | checkWait {n : ℕ} (hr : s.reader = .check n) (hb : s.buffer = []) :
      BufferedStep s .reader { s with reader := .wait n } []
  | checkLock {n : ℕ} (hr : s.reader = .check n) (hb : s.buffer ≠ []) :
      BufferedStep s .reader { s with reader := .lock n } []
  | wake {n : ℕ} {c : Chan Unit 1} (hr : s.reader = .wait n) (hi : s.update.items ≠ [])
      (hc : c.closed = s.update.closed) : BufferedStep s .reader { s with update := c, reader := .lock n } []
  | waitEof {n : ℕ} (hr : s.reader = .wait n) (hc : s.update.closed = true) :
      BufferedStep s .reader { s with reader := .idle } [.returned .eof]
  | readLock {n : ℕ} (hr : s.reader = .lock n) (hm : s.mu = .free) :
      BufferedStep s .reader { s with mu := .read n, reader := .locked } []
  | readReturn {n : ℕ} (hr : s.reader = .locked) (hm : s.mu = .read n) :
      BufferedStep s .reader { s with
        mu := .free, reader := .idle, buffer := if s.done then s.buffer else s.buffer.drop n }
        [.returned (s.result n)]
  | callWrite {g : G} {p : List UInt8} :
      BufferedStep s (.write g p) { s with calls := Function.update s.calls g (.write p) } []
  | callClose {g : G} : BufferedStep s (.close g) { s with calls := Function.update s.calls g .close } [.closeCalled]
  | writeLock {g : G} {p : List UInt8} (hm : s.mu = .free) :
      BufferedStep s (.call g) { s with mu := .write g p, calls := Function.update s.calls g .locked } []
  | writeLeave {g : G} {p : List UInt8} (hm : s.mu = .write g p) : BufferedStep s (.call g) (s.leave g) []
  | writeSignal {g : G} {p : List UInt8} (hm : s.mu = .write g p) (hd : s.done = false) (hp : p ≠ [])
      (hb : s.buffer = []) : BufferedStep s (.call g) { s with mu := .signal g p } []
  | writeAppend {g : G} {p : List UInt8} (hm : s.mu = .write g p) (hd : s.done = false) (hp : p ≠ [])
      (hb : s.buffer ≠ []) : BufferedStep s (.call g) { s with mu := .append g p } []
  | signal {g : G} {p : List UInt8} {c : Chan Unit 1} (hm : s.mu = .signal g p) (hi : c.items ≠ [])
      (hc : c.closed = s.update.closed) : BufferedStep s (.call g) { s with update := c, mu := .append g p } []
  | signalPanic {g : G} {p : List UInt8} (hm : s.mu = .signal g p) (hc : s.update.closed = true) :
      BufferedStep s (.call g) { s with crashed := true } []
  | append {g : G} {p : List UInt8} (hm : s.mu = .append g p) :
      BufferedStep s (.call g) ({ s with buffer := s.buffer ++ p }.leave g) [.wrote p]
  | closeLock {g : G} (hc : s.calls g = .close) (hm : s.mu = .free) :
      BufferedStep s (.call g) { s with mu := .close g, calls := Function.update s.calls g .locked } []
  | closeLeave {g : G} (hm : s.mu = .close g) : BufferedStep s (.call g) (s.leave g) []
  | closeDone {g : G} (hm : s.mu = .close g) (hd : s.done = false) :
      BufferedStep s (.call g) { s with done := true, mu := .closeUpdate g } []
  | closeUpdate {g : G} (hm : s.mu = .closeUpdate g) :
      BufferedStep s (.call g) ({ s with update := s.update.close }.leave g) []
  | closePanic {g : G} (hm : s.mu = .closeUpdate g) (hc : s.update.closed = true) :
      BufferedStep s (.call g) { s with crashed := true } []

variable {s s' : BufferedWR G} {l : BufferedLabel G}

theorem bufferedStep_reader (h : s.readerStep = some s') : BufferedStep s .reader s' (s.events .reader) := by
  unfold BufferedWR.readerStep at h
  split at h
  · cases h
  · rename_i n hr
    cases h
    rw [show s.events .reader = [] by simp [BufferedWR.events, hr]]
    split_ifs with hb
    · exact .checkWait hr (List.length_eq_zero_iff.mp hb)
    · exact .checkLock hr fun h0 => hb (List.length_eq_zero_iff.mpr h0)
  · rename_i n hr
    obtain ⟨⟨x, c⟩, hrecv, rfl⟩ := Option.map_eq_some_iff.mp h
    rcases Chan.recv?_eq_some hrecv with ⟨hi, hc⟩ | ⟨hi, hc, -, rfl⟩
    · have hne : s.update.items ≠ [] := by simp [hi]
      rw [show s.events .reader = [] by simp [BufferedWR.events, hr, hne], if_neg hne]
      exact .wake hr hne hc
    · rw [show s.events .reader = [.returned .eof] by simp [BufferedWR.events, hr, hi], if_pos hi]
      exact .waitEof hr hc
  · rename_i n hr
    split_ifs at h with hm
    cases h
    rw [show s.events .reader = [] by simp [BufferedWR.events, hr]]
    exact .readLock hr hm
  · rename_i hr
    split at h
    · rename_i n hm
      cases h
      rw [show s.events .reader = [.returned (s.result n)] by simp [BufferedWR.events, hr, hm]]
      exact .readReturn hr hm
    · cases h

theorem bufferedStep_section {g : G} (hl : s.calls g = .locked) (h : s.sectionStep g = some s') :
    BufferedStep s (.call g) s' (s.events (.call g)) := by
  have hquiet : (∀ g' p, s.mu ≠ .append g' p) → s.events (.call g) = [] := by
    intro hne
    simp only [BufferedWR.events, hl]
    split
    · rename_i hm
      exact absurd hm (hne _ _)
    · rfl
  unfold BufferedWR.sectionStep at h
  split at h
  · rename_i g' p hm
    rw [hquiet (by simp [hm])]
    split_ifs at h with hg hd hp hb <;> cases h <;> obtain rfl := not_not.mp hg
    · exact .writeLeave hm
    · exact .writeLeave hm
    · exact .writeSignal hm (by simpa using hd) (fun h0 => hp (by simp [h0])) (List.length_eq_zero_iff.mp hb)
    · exact .writeAppend hm (by simpa using hd) (fun h0 => hp (by simp [h0])) fun h0 => hb (by simp [h0])
  · rename_i g' p hm
    rw [hquiet (by simp [hm])]
    split_ifs at h with hg hc <;> obtain rfl := not_not.mp hg
    · cases h
      exact .signalPanic hm hc
    · obtain ⟨c, hsend, rfl⟩ := Option.map_eq_some_iff.mp h
      obtain ⟨hi, hclosed, -⟩ := Chan.send?_eq_some hsend
      exact .signal hm (by simp [hi]) hclosed
  · rename_i g' p hm
    rw [show s.events (.call g) = [.wrote p] by simp [BufferedWR.events, hl, hm]]
    split_ifs at h with hg
    cases h
    obtain rfl := not_not.mp hg
    exact .append hm
  · rename_i g' hm
    rw [hquiet (by simp [hm])]
    split_ifs at h with hg hd <;> cases h <;> obtain rfl := not_not.mp hg
    · exact .closeLeave hm
    · exact .closeDone hm (by simpa using hd)
  · rename_i g' hm
    rw [hquiet (by simp [hm])]
    split_ifs at h with hg hc <;> cases h <;> obtain rfl := not_not.mp hg
    · exact .closePanic hm hc
    · exact .closeUpdate hm
  · cases h

theorem bufferedStep_of_step (h : s.step l = some s') : BufferedStep s l s' (s.events l) := by
  unfold BufferedWR.step at h
  obtain ⟨-, h⟩ := Option.ite_none_left_eq_some.mp h
  cases l with
  | read n =>
    dsimp only at h
    split_ifs at h with hr
    cases h
    exact .callRead hr
  | reader => exact bufferedStep_reader h
  | write g p =>
    dsimp only at h
    split_ifs at h
    cases h
    exact .callWrite
  | close g =>
    dsimp only at h
    split_ifs at h
    cases h
    exact .callClose
  | call g =>
    replace h : s.callStep g = some s' := h
    unfold BufferedWR.callStep at h
    split at h
    · cases h
    · rename_i p hc
      split_ifs at h with hm
      cases h
      rw [show s.events (.call g) = [] by simp [BufferedWR.events, hc]]
      exact .writeLock hm
    · rename_i hc
      split_ifs at h with hm
      cases h
      rw [show s.events (.call g) = [] by simp [BufferedWR.events, hc]]
      exact .closeLock hc hm
    · rename_i hc
      exact bufferedStep_section hc h

end Steps

/-! ## The token and the buffer -/

section Synced

variable {G : Type}

/-- The section leaves the channel alone. -/
def Critical.plain : Critical G → Bool
  | .signal _ _ | .append _ _ | .closeUpdate _ => false
  | _ => true

/-- How the reader, the token and the buffer go together. -/
structure Synced (s : BufferedWR G) : Prop where
  signal : ∀ {g p}, s.mu = .signal g p → s.buffer = [] ∧ s.done = false ∧ p ≠ []
  /-- The token of a writer that is about to add its bytes is there, or the reader has taken it and waits for the
      mutex. -/
  append : ∀ {g p}, s.mu = .append g p → s.done = false ∧ p ≠ [] ∧
    (s.buffer = [] → s.update.items ≠ [] ∨ ∃ n, s.reader = .lock n)
  waiting : ∀ {n}, s.reader = .wait n → s.buffer ≠ [] → s.update.items ≠ []
  reading : ∀ {n}, s.mu = .read n → s.reader = .locked
  closed_done : s.update.closed = true → s.done = true
  closing : ∀ {g}, s.mu = .closeUpdate g → s.update.closed = false ∧ s.done = true
  alive : s.crashed = false

variable {s s' : BufferedWR G} {log : List BufferedEvent}

theorem Synced.init : Synced (BufferedWR.init : BufferedWR G) :=
  ⟨nofun, nofun, nofun, nofun, nofun, nofun, rfl⟩

/-- The reader moves outside of the mutex. -/
theorem Synced.goReader {r : ReadPc} (h : Synced s) (hr : ∀ n, s.reader ≠ .lock n) (hl : s.reader ≠ .locked)
    (hw : ∀ n, r = .wait n → s.buffer = []) : Synced { s with reader := r } where
  signal := h.signal
  append := by
    intro g p hm
    obtain ⟨hd, hp, htoken⟩ := h.append hm
    refine ⟨hd, hp, fun hb => .inl ((htoken hb).resolve_right ?_)⟩
    rintro ⟨n, hn⟩
    exact hr n hn
  waiting := fun hn hb => absurd (hw _ hn) hb
  reading := fun hm => absurd (h.reading hm) hl
  closed_done := h.closed_done
  closing := h.closing
  alive := h.alive

/-- The mutex changes hands, or a section goes on that leaves the channel alone. -/
theorem Synced.goSection {m : Critical G} {r : ReadPc} {calls : G → CallPc} (h : Synced s)
    (hm : m.plain = true) (hread : ∀ n, m = .read n → r = .locked) (hr : ∀ n, r = .wait n → s.reader = .wait n) :
    Synced { s with mu := m, reader := r, calls := calls } where
  signal := fun h1 => by rw [show m = _ from h1] at hm; cases hm
  append := fun h1 => by rw [show m = _ from h1] at hm; cases hm
  waiting := fun hn hb => h.waiting (hr _ hn) hb
  reading := hread _
  closed_done := h.closed_done
  closing := fun h1 => by rw [show m = _ from h1] at hm; cases hm
  alive := h.alive

variable [DecidableEq G]

theorem Synced.leave (h : Synced s) (g : G) : Synced (s.leave g) := h.goSection rfl (by simp) fun _ hn => hn

theorem Synced.step {l : BufferedLabel G} {ev : List BufferedEvent} (h : Synced s) (hs : BufferedStep s l s' ev) :
    Synced s' := by
  cases hs with
  | callRead hr => exact h.goReader (by simp [hr]) (by simp [hr]) (by simp)
  | checkWait hr hb => exact h.goReader (by simp [hr]) (by simp [hr]) fun _ _ => hb
  | checkLock hr hb => exact h.goReader (by simp [hr]) (by simp [hr]) (by simp)
  | waitEof hr hc => exact h.goReader (by simp [hr]) (by simp [hr]) (by simp)
  | wake hr hi hc =>
    exact {
      signal := h.signal
      append := fun hm => ⟨(h.append hm).1, (h.append hm).2.1, fun _ => .inr ⟨_, rfl⟩⟩
      waiting := nofun
      reading := fun hm => by rw [h.reading hm] at hr; cases hr
      closed_done := fun h1 => h.closed_done (hc.symm.trans h1)
      closing := fun hm => ⟨hc.trans (h.closing hm).1, (h.closing hm).2⟩
      alive := h.alive }
  | readLock hr hm => exact h.goSection rfl (fun _ _ => rfl) (by simp)
  | readReturn hr hm =>
    exact {
      signal := nofun
      append := nofun
      waiting := nofun
      reading := nofun
      closed_done := h.closed_done
      closing := nofun
      alive := h.alive }
  | callWrite | callClose => exact ⟨h.signal, h.append, h.waiting, h.reading, h.closed_done, h.closing, h.alive⟩
  | writeLock hm => exact h.goSection rfl (by simp) fun _ hn => hn
  | closeLock hc hm => exact h.goSection rfl (by simp) fun _ hn => hn
  | writeLeave hm | closeLeave hm => exact h.leave _
  | writeSignal hm hd hp hb =>
    exact {
      signal := by
        intro g p h1
        cases h1
        exact ⟨hb, hd, hp⟩
      append := nofun
      waiting := h.waiting
      reading := nofun
      closed_done := h.closed_done
      closing := nofun
      alive := h.alive }
  | writeAppend hm hd hp hb =>
    exact {
      signal := nofun
      append := by
        intro g p h1
        cases h1
        exact ⟨hd, hp, fun h0 => absurd h0 hb⟩
      waiting := h.waiting
      reading := nofun
      closed_done := h.closed_done
      closing := nofun
      alive := h.alive }
  | signal hm hi hc =>
    obtain ⟨-, hd, hp⟩ := h.signal hm
    exact {
      signal := nofun
      append := by
        intro g p h1
        cases h1
        exact ⟨hd, hp, fun _ => .inl hi⟩
      waiting := fun _ _ => hi
      reading := nofun
      closed_done := fun h1 => h.closed_done (hc.symm.trans h1)
      closing := nofun
      alive := h.alive }
  | @append g p hm =>
    -- with the first bytes a waiting reader has its token
    obtain ⟨hd, hp, htoken⟩ := h.append hm
    have hmid : Synced { s with buffer := s.buffer ++ p, mu := .free } := {
      signal := nofun
      append := nofun
      waiting := by
        intro n hn _
        by_cases hb : s.buffer = []
        · refine (htoken hb).resolve_right ?_
          rintro ⟨n', hn'⟩
          rw [show s.reader = _ from hn] at hn'
          cases hn'
        · exact h.waiting hn hb
      reading := nofun
      closed_done := h.closed_done
      closing := nofun
      alive := h.alive }
    exact hmid.leave _
  | closeDone hm hd =>
    exact {
      signal := nofun
      append := nofun
      waiting := h.waiting
      reading := nofun
      closed_done := fun _ => rfl
      closing := by
        intro g _
        refine ⟨?_, rfl⟩
        by_contra hc
        rw [h.closed_done (by simpa using hc)] at hd
        cases hd
      alive := h.alive }
  | closeUpdate hm =>
    have hmid : Synced { s with update := s.update.close, mu := .free } := {
      signal := nofun
      append := nofun
      waiting := h.waiting
      reading := nofun
      closed_done := fun _ => (h.closing hm).2
      closing := nofun
      alive := h.alive }
    exact hmid.leave _
  | signalPanic hm hc =>
    cases (h.signal hm).2.1.symm.trans (h.closed_done hc)
  | closePanic hm hc => cases (h.closing hm).1.symm.trans hc

end Synced

/-! ## First in, first out -/

section Fifo

variable {G : Type} [DecidableEq G] {s s' : BufferedWR G} {log ev : List BufferedEvent} {l : BufferedLabel G}

theorem writtenBytes_append (log ev : List BufferedEvent) :
    writtenBytes (log ++ ev) = writtenBytes log ++ writtenBytes ev := by
  induction log with
  | nil => rfl
  | cons e log ih => cases e <;> simp [writtenBytes, ih]

theorem readBytes_append (log ev : List BufferedEvent) : readBytes (log ++ ev) = readBytes log ++ readBytes ev := by
  induction log with
  | nil => rfl
  | cons e log ih =>
    cases e with
    | returned r => cases r <;> simp [readBytes, ih]
    | wrote | closeCalled => simp [readBytes, ih]

omit [DecidableEq G] in
/-- `Read` takes what it returns off the buffer. -/
theorem BufferedWR.readBytes_result (s : BufferedWR G) (n : ℕ) :
    readBytes [.returned (s.result n)] ++ (if s.done then s.buffer else s.buffer.drop n) = s.buffer := by
  unfold BufferedWR.result
  split_ifs with hd hb hn
  · rfl
  · simp [readBytes, hb]
  · simp [readBytes, hb]
  · simp [readBytes]

/-- What was written was read or is in the buffer. -/
theorem BufferedStep.balance (h : readBytes log ++ s.buffer = writtenBytes log) (hs : BufferedStep s l s' ev) :
    readBytes (log ++ ev) ++ s'.buffer = writtenBytes (log ++ ev) := by
  rw [readBytes_append, writtenBytes_append, ← h, List.append_assoc, List.append_assoc]
  congr 1
  cases hs with
  | readReturn hr hm => simpa [writtenBytes] using s.readBytes_result _
  | append hm => simp [readBytes, writtenBytes, BufferedWR.leave]
  | waitEof | callClose => simp [readBytes, writtenBytes]
  | callRead | checkWait | checkLock | wake | readLock | callWrite | writeLock | writeLeave | writeSignal
    | writeAppend | signal | signalPanic | closeLock | closeLeave | closeDone | closeUpdate | closePanic =>
    exact (List.append_nil _).symm

/-- What was read is a beginning of what was written, and the reader does not wait when there is data. -/
theorem reads_fifo {ls : List (BufferedLabel G)} (h : Run BufferedWR.step anyStep BufferedWR.init ls s) :
    readBytes (bufferedLog ls) <+: writtenBytes (bufferedLog ls) ∧ ¬ s.LostWakeUp := by
  have hsync : Synced s :=
    h.invariant Synced.init fun _ _ _ ha _ hstep => ha.step (bufferedStep_of_step hstep)
  have hbalance : readBytes (bufferedLog ls) ++ s.buffer = writtenBytes (bufferedLog ls) :=
    h.history_invariant (I := fun log (s : BufferedWR G) => readBytes log ++ s.buffer = writtenBytes log) rfl
      fun _ _ _ _ ha _ hstep => (bufferedStep_of_step hstep).balance ha
  refine ⟨⟨s.buffer, hbalance⟩, ?_⟩
  rintro ⟨⟨n, hn⟩, hempty, -, -, hb⟩
  exact hsync.waiting hn hb hempty

/-- A reader that waits before the first byte comes. -/
def wakeUp : List (BufferedLabel Unit) :=
  [.read 2, .reader, .write () [1, 2, 3], .call (), .call (), .call (), .call (), .reader, .reader, .reader]

theorem reads_fifo_wakeUp : ∃ s, Run BufferedWR.step anyStep BufferedWR.init wakeUp s ∧
    readBytes (bufferedLog wakeUp) = [1, 2] ∧ writtenBytes (bufferedLog wakeUp) = [1, 2, 3] ∧
    readBytes (bufferedLog wakeUp) <+: writtenBytes (bufferedLog wakeUp) ∧ ¬ s.LostWakeUp := by
  have hexec : (exec BufferedWR.step (fun _ _ => true) BufferedWR.init wakeUp).map
      (fun s => s.buffer) = some [3] := by decide +kernel
  obtain ⟨s, hrun, -⟩ := exists_run_of_exec hexec
  have hrun' : Run BufferedWR.step anyStep BufferedWR.init wakeUp s := hrun.mono fun _ _ _ => trivial
  exact ⟨s, hrun', by decide +kernel, by decide +kernel, reads_fifo hrun'⟩

end Fifo

/-! ## The end of the stream -/

section Eof

variable {G : Type} [DecidableEq G] {s s' : BufferedWR G} {log ev : List BufferedEvent} {l : BufferedLabel G}

/-- Every slice given to `Read` has room. -/
def BufferedWR.NonEmptyRead (_ : BufferedWR G) (l : BufferedLabel G) : Prop := ∀ n, l = .read n → 0 < n

/-- A `Read` that finds the token still in `update` leaves data in the buffer. -/
def BufferedWR.LeavesData (s : BufferedWR G) (l : BufferedLabel G) : Prop :=
  l = .reader → ∀ n, s.mu = .read n → s.done = false → s.update.items ≠ [] → n < s.buffer.length

/-- Data is in the buffer, or about to be. -/
def BufferedWR.Stocked (s : BufferedWR G) : Prop := s.buffer ≠ [] ∨ ∃ g p, s.mu = .append g p

/-- The token and the reader's permission to go on stand for data. -/
structure Backed (s : BufferedWR G) : Prop where
  token : s.update.items ≠ [] → s.done = false → s.Stocked
  lock : ∀ {n}, s.reader = .lock n → s.done = false → s.Stocked
  read : ∀ {n}, s.mu = .read n → s.done = false → s.buffer ≠ []
  size : ∀ {n}, s.reader = .check n ∨ s.reader = .wait n ∨ s.reader = .lock n ∨ s.mu = .read n → 0 < n

/-- `Close` was called before anything it does. -/
structure CloseLogged (log : List BufferedEvent) (s : BufferedWR G) : Prop where
  call : ∀ {g}, s.calls g = .close → .closeCalled ∈ log
  mu : ∀ {g}, s.mu = .close g ∨ s.mu = .closeUpdate g → .closeCalled ∈ log
  done : s.done = true → .closeCalled ∈ log

theorem eofAfterClose_nil : EofAfterClose [] := by
  intro before after h
  simp at h

theorem EofAfterClose.concat {e : BufferedEvent} (h : EofAfterClose log)
    (he : e = .returned .eof → .closeCalled ∈ log) : EofAfterClose (log ++ [e]) := by
  intro before after heq
  rcases List.eq_nil_or_concat after with rfl | ⟨after', x, rfl⟩
  · obtain ⟨rfl, h1⟩ := List.append_inj' heq rfl
    exact he (List.cons.inj h1).1
  · rw [List.concat_eq_append, ← List.cons_append, ← List.append_assoc] at heq
    exact h before after' (List.append_inj' heq rfl).1

omit [DecidableEq G] in
theorem CloseLogged.init : CloseLogged [] (BufferedWR.init : BufferedWR G) := ⟨nofun, nofun, nofun⟩

theorem CloseLogged.step (h : CloseLogged log s) (hs : BufferedStep s l s' ev) : CloseLogged (log ++ ev) s' := by
  have hmem : ∀ {e : BufferedEvent}, e ∈ log → e ∈ log ++ ev := List.mem_append_left _
  have hcall : ∀ {g g' : G} {pc : CallPc}, pc ≠ .close → Function.update s.calls g' pc g = .close →
      .closeCalled ∈ log ++ ev := by
    intro g g' pc hpc hg
    by_cases hgg : g = g'
    · rw [hgg, Function.update_self] at hg
      exact absurd hg hpc
    · rw [Function.update_of_ne hgg] at hg
      exact hmem (h.call hg)
  have hdone : s.done = true → .closeCalled ∈ log ++ ev := fun hd => hmem (h.done hd)
  have hmu : ∀ {g : G}, s.mu = .close g ∨ s.mu = .closeUpdate g → .closeCalled ∈ log ++ ev :=
    fun hm => hmem (h.mu hm)
  cases hs with
  | callRead | checkWait | checkLock | wake | waitEof | signalPanic | closePanic =>
    exact ⟨fun hg => hmem (h.call hg), hmu, hdone⟩
  | readLock | readReturn | writeSignal | writeAppend | signal =>
    exact ⟨fun hg => hmem (h.call hg), by simp, hdone⟩
  | callWrite => exact ⟨fun hg => hcall (by simp) hg, hmu, hdone⟩
  | callClose => exact ⟨fun _ => by simp, fun _ => by simp, fun _ => by simp⟩
  | writeLock | writeLeave | append | closeLeave | closeUpdate =>
    exact ⟨fun hg => hcall (by simp) hg, by simp [BufferedWR.leave], hdone⟩
  | closeLock hc hm => exact ⟨fun hg => hcall (by simp) hg, fun _ => hmem (h.call hc), hdone⟩
  | closeDone hm hd => exact ⟨fun hg => hmem (h.call hg), fun _ => hmu (.inl hm), fun _ => hmu (.inl hm)⟩

omit [DecidableEq G] in
theorem Backed.init : Backed (BufferedWR.init : BufferedWR G) :=
  ⟨fun h => absurd rfl h, nofun, nofun, by simp [BufferedWR.init]⟩

omit [DecidableEq G] in
/-- While a section of a writer or of `Close` changes hands, the data stays. -/
theorem Backed.goSection {m : Critical G} {calls : G → CallPc} {done : Bool} (h : Backed s)
    (hm : ∀ g p, s.mu ≠ .append g p) (hread : ∀ n, m ≠ .read n) (hd : s.done = true → done = true) :
    Backed { s with mu := m, calls := calls, done := done } := by
  have hopen : done = false → s.done = false := by
    intro h0
    by_contra h1
    rw [hd (by simpa using h1)] at h0
    cases h0
  have hstock : s.Stocked → ({ s with mu := m, calls := calls, done := done } : BufferedWR G).Stocked := by
    rintro (hb | ⟨g, p, hgp⟩)
    · exact .inl hb
    · exact absurd hgp (hm g p)
  exact {
    token := fun hi h0 => hstock (h.token hi (hopen h0))
    lock := fun hr h0 => hstock (h.lock hr (hopen h0))
    read := fun h1 => absurd h1 (hread _)
    size := by
      rintro n (h1 | h1 | h1 | h1)
      · exact h.size (.inl h1)
      · exact h.size (.inr (.inl h1))
      · exact h.size (.inr (.inr (.inl h1)))
      · exact absurd h1 (hread n) }

omit [DecidableEq G] in
/-- The reader moves outside of the mutex. -/
theorem Backed.goReader {r : ReadPc} (h : Backed s)
    (hsize : ∀ n, r = .check n ∨ r = .wait n ∨ r = .lock n → 0 < n)
    (hlock : ∀ n, r = .lock n → s.done = false → s.Stocked) : Backed { s with reader := r } where
  token := h.token
  lock := hlock _
  read := h.read
  size := by
    rintro n (h1 | h1 | h1 | h1)
    · exact hsize n (.inl h1)
    · exact hsize n (.inr (.inl h1))
    · exact hsize n (.inr (.inr h1))
    · exact h.size (.inr (.inr (.inr h1)))

theorem Backed.step (h : Backed s) (hsync : Synced s) (hs : BufferedStep s l s' ev) (hne : s.NonEmptyRead l)
    (hleave : s.LeavesData l) : Backed s' := by
  cases hs with
  | callRead hr => exact h.goReader (by simpa using hne _ rfl) (by simp)
  | checkWait hr hb => exact h.goReader (by simpa using h.size (.inl hr)) (by simp)
  | checkLock hr hb => exact h.goReader (by simpa using h.size (.inl hr)) fun _ _ _ => .inl hb
  | waitEof hr hc => exact h.goReader (by simp) (by simp)
  | wake hr hi hc =>
    have hmid := h.goReader (r := .lock _) (by simpa using h.size (.inr (.inl hr))) fun _ _ hd => h.token hi hd
    exact ⟨fun _ hd => h.token hi hd, hmid.lock, hmid.read, hmid.size⟩
  | readLock hr hm =>
    -- the mutex was free, so the data is in the buffer
    have hstock : s.Stocked → s.buffer ≠ [] := by
      rintro (hb | ⟨g, p, hgp⟩)
      · exact hb
      · rw [hm] at hgp; cases hgp
    exact {
      token := fun hi hd => .inl (hstock (h.token hi hd))
      lock := nofun
      read := fun _ hd => hstock (h.lock hr hd)
      size := by simpa using h.size (.inr (.inr (.inl hr))) }
  | readReturn hr hm =>
    refine ⟨fun hi hd => .inl ?_, nofun, nofun, by simp⟩
    have hlt := hleave rfl _ hm hd hi
    dsimp only at hd ⊢
    rw [hd, if_neg Bool.false_ne_true, Ne, List.drop_eq_nil_iff]
    omega
  | callWrite | callClose => exact ⟨h.token, h.lock, h.read, h.size⟩
  | writeLock hm => exact h.goSection (by simp [hm]) (by simp) id
  | closeLock hc hm => exact h.goSection (by simp [hm]) (by simp) id
  | writeLeave hm | closeLeave hm => exact h.goSection (by simp [hm]) (by simp) id
  | writeSignal hm hd hp hb => exact h.goSection (by simp [hm]) (by simp) id
  | writeAppend hm hd hp hb => exact h.goSection (by simp [hm]) (by simp) id
  | closeDone hm hd => exact h.goSection (by simp [hm]) (by simp) fun _ => rfl
  | @signal g p c hm hi hc =>
    have hmid : Backed { s with mu := .append g p } := h.goSection (by simp [hm]) (by simp) id
    exact ⟨fun _ _ => .inr ⟨_, _, rfl⟩, fun _ _ => .inr ⟨_, _, rfl⟩, nofun, hmid.size⟩
  | append hm =>
    have hp := (hsync.append hm).2.1
    have hb : s.buffer ++ _ ≠ [] := List.append_ne_nil_of_right_ne_nil _ hp
    exact ⟨fun _ _ => .inl hb, fun _ _ => .inl hb, nofun, by
      rintro n (h1 | h1 | h1 | h1)
      · exact h.size (.inl h1)
      · exact h.size (.inr (.inl h1))
      · exact h.size (.inr (.inr (.inl h1)))
      · cases h1⟩
  | closeUpdate hm =>
    have hmid : Backed { s with mu := .free } := h.goSection (by simp [hm]) (by simp) id
    have hd : s.done = true := (hsync.closing hm).2
    exact ⟨fun _ h0 => (Bool.false_ne_true (h0.symm.trans hd)).elim,
      fun _ h0 => (Bool.false_ne_true (h0.symm.trans hd)).elim, nofun, hmid.size⟩
  | signalPanic hm hc => cases (hsync.signal hm).2.1.symm.trans (hsync.closed_done hc)
  | closePanic hm hc => cases (hsync.closing hm).1.symm.trans hc

/-- A `Read` reports the end only after `Close`. -/
theorem EofAfterClose.step (h : EofAfterClose log) (hlog : CloseLogged log s) (hsync : Synced s) (hb : Backed s)
    (hs : BufferedStep s l s' ev) : EofAfterClose (log ++ ev) := by
  cases hs with
  | waitEof hr hc => exact h.concat fun _ => hlog.done (hsync.closed_done hc)
  | @readReturn n hr hm =>
    refine h.concat fun heof => hlog.done ?_
    by_contra hd
    have hdone : s.done = false := by simpa using hd
    rw [BufferedWR.result, hdone, if_neg Bool.false_ne_true, if_neg (hb.read hm hdone)] at heof
    cases heof
  | append | callClose => exact h.concat nofun
  | callRead | checkWait | checkLock | wake | readLock | callWrite | writeLock | writeLeave | writeSignal
    | writeAppend | signal | signalPanic | closeLock | closeLeave | closeDone | closeUpdate | closePanic =>
    rwa [List.append_nil]

/-- With a token and no data, the next `Read` reports the end. -/
theorem eof_of_stale_token (hal : s.crashed = false) (hr : s.reader = .idle) (hm : s.mu = .free)
    (hb : s.buffer = []) (hd : s.done = false) (hi : s.update.items ≠ []) :
    ∃ s', Run BufferedWR.step BufferedWR.NonEmptyRead s [.read 1, .reader, .reader, .reader, .reader] s' ∧
      history BufferedWR.step BufferedWR.events s [.read 1, .reader, .reader, .reader, .reader] =
        [.returned .eof] := by
  obtain ⟨⟨x, c⟩, hrecv⟩ := Option.isSome_iff_exists.mp (s.update.recv?_isSome hi)
  have h1 : s.step (.read 1) = some { s with reader := .check 1 } := by simp [BufferedWR.step, hal, hr]
  have h2 : ({ s with reader := .check 1 } : BufferedWR G).step .reader = some { s with reader := .wait 1 } := by
    simp [BufferedWR.step, BufferedWR.readerStep, hal, hb]
  have h3 : ({ s with reader := .wait 1 } : BufferedWR G).step .reader =
      some { s with update := c, reader := .lock 1 } := by
    simp [BufferedWR.step, BufferedWR.readerStep, hal, hrecv, hi]
  have h4 : ({ s with update := c, reader := .lock 1 } : BufferedWR G).step .reader =
      some { s with update := c, mu := .read 1, reader := .locked } := by
    simp [BufferedWR.step, BufferedWR.readerStep, hal, hm]
  have h5 : ({ s with update := c, mu := .read 1, reader := .locked } : BufferedWR G).step .reader =
      some { s with update := c, mu := .free, reader := .idle, buffer := [] } := by
    simp [BufferedWR.step, BufferedWR.readerStep, hal, hb, hd]
  have hreader : ∀ a : BufferedWR G, a.NonEmptyRead .reader := fun a n h => by cases h
  refine ⟨_, .snoc (.snoc (.snoc (.snoc (.snoc (.nil s) ?_ h1) (hreader _) h2) (hreader _) h3) (hreader _) h4)
    (hreader _) h5, ?_⟩
  · intro n hn
    cases hn
    exact Nat.one_pos
  · simp only [history, h1, h2, h3, h4, h5, Option.elim_some]
    simp [BufferedWR.events, BufferedWR.result, hi, hb, hd]

/-- No `Read` reports the end before `Close` if those that find the token in `update` leave data in the buffer;
once a `Read` has emptied the buffer and left the token, the next one can. -/
theorem eof_after_close :
    (∀ (ls : List (BufferedLabel G)) (s : BufferedWR G),
      Run BufferedWR.step (fun s l => s.NonEmptyRead l ∧ s.LeavesData l) BufferedWR.init ls s →
        EofAfterClose (bufferedLog ls)) ∧
    ∀ (ls : List (BufferedLabel G)) (l : BufferedLabel G) (s s' : BufferedWR G),
      Run BufferedWR.step BufferedWR.NonEmptyRead BufferedWR.init ls s → .closeCalled ∉ bufferedLog ls →
      s.step l = some s' → ¬ s.LeavesData l →
      ∃ ls' s'', Run BufferedWR.step BufferedWR.NonEmptyRead s' ls' s'' ∧
        ¬ EofAfterClose (bufferedLog (ls ++ l :: ls')) := by
  constructor
  · intro ls s h
    have hinv : EofAfterClose (bufferedLog ls) ∧ CloseLogged (bufferedLog ls) s ∧ Synced s ∧ Backed s := by
      refine h.history_invariant (I := fun log s => EofAfterClose log ∧ CloseLogged log s ∧ Synced s ∧ Backed s)
        ⟨eofAfterClose_nil, .init, .init, .init⟩ ?_
      rintro log a l b ⟨heof, hlog, hsync, hb⟩ ⟨hne, hleave⟩ hstep
      have hs := bufferedStep_of_step hstep
      exact ⟨heof.step hlog hsync hb hs, hlog.step hs, hsync.step hs, hb.step hsync hs hne hleave⟩
    exact hinv.1
  · intro ls l s s' h hclose hstep hdrain
    have hsync : Synced s :=
      h.invariant Synced.init fun _ _ _ ha _ hst => ha.step (bufferedStep_of_step hst)
    obtain ⟨rfl, n, hm, hd, hi, hlen⟩ : l = .reader ∧ ∃ n, s.mu = .read n ∧ s.done = false ∧
        s.update.items ≠ [] ∧ s.buffer.length ≤ n := by
      by_contra hno
      refine hdrain fun hl n hm hd hi => Nat.lt_of_not_le fun hle => hno ?_
      exact ⟨hl, n, hm, hd, hi, hle⟩
    have hr := hsync.reading hm
    have hs' : s' = { s with mu := .free, reader := .idle, buffer := [] } := by
      have hdrop : s.buffer.drop n = [] := List.drop_eq_nil_of_le hlen
      simpa [BufferedWR.step, BufferedWR.readerStep, hsync.alive, hr, hm, hd, hdrop] using hstep.symm
    obtain ⟨s'', hrun, hlog⟩ := eof_of_stale_token (s := s') (by rw [hs']; exact hsync.alive) (by rw [hs'])
      (by rw [hs']) (by rw [hs']) (by rw [hs']; exact hd) (by rw [hs']; exact hi)
    refine ⟨_, s'', hrun, fun heof => hclose ?_⟩
    have hall : bufferedLog (ls ++ .reader :: [.read 1, .reader, .reader, .reader, .reader]) =
        (bufferedLog ls ++ [.returned (s.result n)]) ++ [.returned .eof] := by
      rw [bufferedLog, history_append h, history, hstep, Option.elim_some, hlog, List.append_assoc]
      simp [BufferedWR.events, hr, hm, bufferedLog]
    simpa using heof _ [] hall

/-- The reader that empties the buffer at once. -/
def staleToken : List (BufferedLabel Unit) :=
  [.write () [1], .call (), .call (), .call (), .call (), .read 1, .reader, .reader, .reader,
    .read 1, .reader, .reader, .reader, .reader]

/-- One byte is written and read, and the next `Read` reports the end of the stream. Nobody called `Close`. -/
theorem early_eof :
    ¬ ∀ (ls : List (BufferedLabel Unit)) (s : BufferedWR Unit),
      Run BufferedWR.step BufferedWR.NonEmptyRead BufferedWR.init ls s → EofAfterClose (bufferedLog ls) := by
  intro h
  have hexec : (exec BufferedWR.step (fun _ l => decide (l ≠ .read 0)) BufferedWR.init staleToken).map
      (fun s => s.buffer) = some [] := by decide +kernel
  obtain ⟨s, hrun, -⟩ := exists_run_of_exec hexec
  have hrun' : Run BufferedWR.step BufferedWR.NonEmptyRead BufferedWR.init staleToken s := by
    refine hrun.mono fun a l hl n hn => Nat.pos_of_ne_zero ?_
    rintro rfl
    exact of_decide_eq_true hl hn
  have hlog : bufferedLog staleToken = [.wrote [1], .returned (.data [1])] ++ .returned .eof :: [] := by
    decide +kernel
  have hclose := h staleToken s hrun' _ _ hlog
  simp at hclose

/-- A `Read` that waits for the token takes it, so the next one waits too, until `Close`. -/
def takenToken : List (BufferedLabel Unit) :=
  [.read 1, .reader, .write () [1], .call (), .call (), .call (), .call (), .reader, .reader, .reader,
    .read 1, .reader, .close (), .call (), .call (), .call (), .reader]

theorem eof_after_close_taken : ∃ s, Run BufferedWR.step (fun s l => s.NonEmptyRead l ∧ s.LeavesData l)
      BufferedWR.init takenToken s ∧
    bufferedLog takenToken = [.wrote [1], .returned (.data [1]), .closeCalled, .returned .eof] ∧
    EofAfterClose (bufferedLog takenToken) := by
  have hexec : (exec BufferedWR.step (fun s l => decide (l ≠ .read 0) &&
      match s.mu with
      | .read n => s.update.items.isEmpty || decide (n < s.buffer.length)
      | _ => true) BufferedWR.init takenToken).map (fun s => s.buffer) = some [] := by decide +kernel
  obtain ⟨s, hrun, -⟩ := exists_run_of_exec hexec
  have hrun' : Run BufferedWR.step (fun s l => s.NonEmptyRead l ∧ s.LeavesData l) BufferedWR.init takenToken s := by
    refine hrun.mono fun a l hl => ?_
    obtain ⟨hn, hleave⟩ := Bool.and_eq_true_iff.mp hl
    refine ⟨fun n hn' => Nat.pos_of_ne_zero ?_, fun _ n hm _ hi => ?_⟩
    · rintro rfl
      exact of_decide_eq_true hn hn'
    · rw [hm] at hleave
      rcases Bool.or_eq_true_iff.mp hleave with h0 | h0
      · exact absurd (List.isEmpty_iff.mp h0) hi
      · exact of_decide_eq_true h0
  exact ⟨s, hrun', by decide +kernel, eof_after_close.1 takenToken s hrun'⟩

end Eof

end Wssocks.Wss

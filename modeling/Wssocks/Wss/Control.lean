import Wssocks.Wss.Ops

/-!
# What a step of the server does to its goroutines

One case for each way an `establish` instance, a reader or a pool of connections can change.

Results:

* `Server.moves_of_step`: a step of the server changes each instance, each reader and each pool in
  one of these ways, creates at most one instance, and panics only on a missing queue.
-/

namespace Wssocks.Wss

open Wssocks.Lib Wssocks.Pipe

variable {W KSUID : Type} [DecidableEq W] [DecidableEq KSUID]

/-- The reader is in a call of `Close` on instance `e`. -/
def Reader.closing : Reader KSUID → Option (ℕ × KSUID × CloseAt)
  | .close e id a | .hubCloseAt e id a => some (e, id, a)
  | _ => none

/-- How instance `e` changes by a step with label `l`. -/
inductive EstMove (s : Server W KSUID) (l : ServerLabel W KSUID) (e : ℕ) : Est W KSUID → Prop
  | same : EstMove s l e (s.ests e)
  | spawn {w : W} {id : KSUID} {sorted : List KSUID} (hl : l = .reader w) (hr : s.reader w = .est id sorted)
      (he : e = s.nextEst) : EstMove s l e (newEst w id)
  | dial {o : Dial} (hl : l = .dial e o) (hpc : (s.ests e).pc = .dial) :
      EstMove s l e { s.ests e with pc := if o = .connected then .linkTrySend else .tell }
  | linkTry (hl : l = .est e) (hpc : (s.ests e).pc = .linkTrySend) :
      EstMove s l e { s.ests e with pc := .addProxy, waiter := .get }
  | addProxy (hl : l = .est e) (hpc : (s.ests e).pc = .addProxy)
      (hlock : (s.reader (s.ests e).ws).locked = false) :
      EstMove s l e { s.ests e with pc := .queueTrySend }
  | queueTry (hl : l = .est e) (hpc : (s.ests e).pc = .queueTrySend) :
      EstMove s l e { s.ests e with pc := .get }
  | get {c : Copy} (hl : l = .est e) (hpc : (s.ests e).pc = .get) :
      EstMove s l e { s.ests e with
        pc := .wait, writer := s.queues.hub.ref? (s.ests e).id, copy := c }
  | wake {q : ℕ} (hpc : (s.ests e).pc = .wait) (hw : (s.ests e).writer = some q) :
      EstMove s l e { s.ests e with pc := .removeProxy }
  | removeProxy (hl : l = .est e) (hpc : (s.ests e).pc = .removeProxy)
      (hlock : (s.reader (s.ests e).ws).locked = false) :
      EstMove s l e { s.ests e with pc := .connClose }
  | connClose (hl : l = .est e) (hpc : (s.ests e).pc = .connClose) :
      EstMove s l e { s.ests e with pc := .close .test }
  /-- The deferred `Close` is the first one. -/
  | closeTest (hl : l = .est e) (hpc : (s.ests e).pc = .close .test) (hc : (s.ests e).closed = false) :
      EstMove s l e { s.ests e with pc := .close .links, closed := true }
  /-- The deferred `Close` finds the instance closed. -/
  | closeSkip (hl : l = .est e) (hpc : (s.ests e).pc = .close .test) (hc : (s.ests e).closed = true) :
      EstMove s l e { s.ests e with pc := .tell }
  | closeLinks (hl : l = .est e) (hpc : (s.ests e).pc = .close .links) :
      EstMove s l e { s.ests e with pc := .close .queue }
  | closeQueue (hl : l = .est e) (hpc : (s.ests e).pc = .close .queue) :
      EstMove s l e { s.ests e with pc := .tell }
  /-- A reader closes the instance. -/
  | mark {w : W} {id : KSUID} (hl : l = .reader w) (hr : (s.reader w).closing = some (e, id, .test))
      (hc : (s.ests e).closed = false) : EstMove s l e { s.ests e with closed := true }
  | tell {ok : Bool} (hl : l = .tell e ok) (hpc : (s.ests e).pc = .tell) :
      EstMove s l e { s.ests e with pc := .returned }
  | waiter (x : WaiterPc) : EstMove s l e { s.ests e with waiter := x }
  | copy (c : Copy) : EstMove s l e { s.ests e with copy := c }

/-- Where a reader is after it took the message `x`. -/
def Server.takes (s : Server W KSUID) (w : W) : Msg KSUID → Reader KSUID
  | .beats => .idle
  | .finish id => ((s.pool w).lookup id).elim .idle (.close · id .test)
  | .sayhi id m => .hi id m
  | .est id sorted => .est id sorted
  | .data id tag bytes =>
    (s.links.hub.ref? id).elim .idle (.check · (if tag = .eof then ⟨true, []⟩ else ⟨false, bytes⟩))

/-- How the reader of `w` changes by a step with label `l`. -/
inductive ReaderMove (s : Server W KSUID) (l : ServerLabel W KSUID) (w : W) : Reader KSUID → Prop
  | same : ReaderMove s l w (s.reader w)
  | take {x : Msg KSUID} {xs : List (Msg KSUID)} (hl : l = .recv w) (hr : s.reader w = .idle)
      (hin : s.inbox w = x :: xs) : ReaderMove s l w (s.takes w x)
  | shake (hl : l = .reader w) (hr : (s.reader w).shakes = true) : ReaderMove s l w .idle
  | test {q : ℕ} {b : Buffer} (hl : l = .reader w) (hr : s.reader w = .check q b) :
      ReaderMove s l w (.select q b)
  /-- The chunk was put into its link, or given up. -/
  | write {q : ℕ} {b : Buffer} (hr : s.reader w = .check q b ∨ s.reader w = .select q b) :
      ReaderMove s l w .idle
  | close {e : ℕ} {id : KSUID} {a : CloseAt} (hl : l = .reader w) (hr : s.reader w = .close e id a) :
      ReaderMove s l w ((s.closeNext e a).elim .idle (.close e id))
  | hubCloseAt {e : ℕ} {id : KSUID} {a : CloseAt} (hl : l = .reader w) (hr : s.reader w = .hubCloseAt e id a) :
      ReaderMove s l w ((s.closeNext e a).elim .hubClose (.hubCloseAt e id))
  | disconnect (hl : l = .disconnect w) (hr : s.reader w = .idle) : ReaderMove s l w .hubClose
  | hubClose {e : ℕ} {id : KSUID} (hr : s.reader w = .hubClose) (hp : (s.pool w).lookup id = some e) :
      ReaderMove s l w (.hubCloseAt e id .test)
  | stop (hr : s.reader w = .hubClose) (hp : (s.pool w).entries = []) : ReaderMove s l w .stopped

/-- How the pool of `w` changes by a step with label `l`. -/
inductive PoolMove (s : Server W KSUID) (l : ServerLabel W KSUID) (w : W) : AList (fun _ : KSUID => ℕ) → Prop
  | same : PoolMove s l w (s.pool w)
  | add {e : ℕ} (hl : l = .est e) (hpc : (s.ests e).pc = .addProxy) (hw : (s.ests e).ws = w)
      (hlock : (s.reader w).locked = false) : PoolMove s l w ((s.pool w).insert (s.ests e).id e)
  | remove {e : ℕ} (hl : l = .est e) (hpc : (s.ests e).pc = .removeProxy) (hw : (s.ests e).ws = w)
      (hlock : (s.reader w).locked = false) : PoolMove s l w ((s.pool w).erase (s.ests e).id)
  | drop {e : ℕ} {id : KSUID} {a : CloseAt} (hl : l = .reader w) (hr : s.reader w = .hubCloseAt e id a)
      (hn : s.closeNext e a = none) : PoolMove s l w ((s.pool w).erase id)

variable {s s' : Server W KSUID} {l : ServerLabel W KSUID} {out : Option (W × Msg KSUID)} {w : W} {e : ℕ}

/-- What a step with label `l` does to the goroutines. -/
structure Moves (s : Server W KSUID) (l : ServerLabel W KSUID) (s' : Server W KSUID) : Prop where
  est : ∀ e, EstMove s l e (s'.ests e)
  reader : ∀ w, ReaderMove s l w (s'.reader w)
  pool : ∀ w, PoolMove s l w (s'.pool w)
  next : s'.nextEst = s.nextEst ∨ ∃ w id sorted, l = .reader w ∧ s.reader w = .est id sorted ∧
    s'.nextEst = s.nextEst + 1 ∧ s'.ests s.nextEst = newEst w id
  /-- `writer.Wait()` on a queue that was not found. -/
  crashed : s'.crashed = true → s.crashed = true ∨
    ∃ e, l = .est e ∧ e < s.nextEst ∧ (s.ests e).pc = .wait ∧ (s.ests e).writer = none

omit [DecidableEq W] in
theorem Moves.same (he : s'.ests = s.ests) (hr : s'.reader = s.reader) (hp : s'.pool = s.pool)
    (hn : s'.nextEst = s.nextEst) (hc : s'.crashed = s.crashed) : Moves s l s' where
  est := fun e => by rw [he]; exact .same
  reader := fun w => by rw [hr]; exact .same
  pool := fun w => by rw [hp]; exact .same
  next := .inl hn
  crashed := fun h => .inl (hc ▸ h)

omit [DecidableEq W] in
/-- The instance `i` moves. -/
theorem Moves.setEst {i : ℕ} {u : Est W KSUID → Est W KSUID} {t : Server W KSUID} (ht : Moves s l t)
    (hi : t.ests = s.ests) (hn : t.nextEst = s.nextEst) (h : EstMove s l i (u (s.ests i))) :
    Moves s l (t.setEst i u) where
  est := by
    intro e
    show EstMove s l e (Function.update t.ests i (u (t.ests i)) e)
    rw [hi]
    by_cases he : e = i
    · subst he; rw [Function.update_self]; exact h
    · rw [Function.update_of_ne he]; exact .same
  reader := ht.reader
  pool := ht.pool
  next := .inl hn
  crashed := ht.crashed

/-- The reader of `v` moves. -/
theorem Moves.goReader {v : W} {r : Reader KSUID} {t : Server W KSUID} (ht : Moves s l t)
    (hv : t.reader = s.reader) (h : ReaderMove s l v r) : Moves s l (t.goReader v r) where
  est := ht.est
  reader := by
    intro w
    show ReaderMove s l w (Function.update t.reader v r w)
    rw [hv]
    by_cases hw : w = v
    · subst hw; rw [Function.update_self]; exact h
    · rw [Function.update_of_ne hw]; exact .same
  pool := ht.pool
  next := ht.next
  crashed := ht.crashed

/-- The pool of `v` changes. -/
theorem Moves.setPool {v : W} {p : AList (fun _ : KSUID => ℕ)} {t : Server W KSUID} (ht : Moves s l t)
    (h : PoolMove s l v p) :
    Moves s l { t with pool := Function.update s.pool v p } where
  est := ht.est
  reader := ht.reader
  pool := by
    intro w
    show PoolMove s l w (Function.update s.pool v p w)
    by_cases hw : w = v
    · subst hw; rw [Function.update_self]; exact h
    · rw [Function.update_of_ne hw]; exact .same
  next := ht.next
  crashed := ht.crashed

omit [DecidableEq W] in
theorem reader_closeStep {id : KSUID} (a : CloseAt) : (s.closeStep e id a).1.reader = s.reader := by
  cases a with
  | test => simp only [Server.closeStep]; split_ifs <;> rfl
  | links | queue => rfl

omit [DecidableEq W] in
/-- A reader executes an operation of `Close`. -/
theorem moves_closeStep {id : KSUID} {a : CloseAt} (hr : (s.reader w).closing = some (e, id, a)) :
    Moves s (.reader w) (s.closeStep e id a).1 := by
  cases a with
  | test =>
    simp only [Server.closeStep]
    split_ifs with hc
    · exact .same rfl rfl rfl rfl rfl
    · show Moves s _ (s.setEst e fun x => { x with closed := true })
      exact .setEst (.same rfl rfl rfl rfl rfl) rfl rfl (.mark rfl hr (by simpa using hc))
  | links | queue => exact .same rfl rfl rfl rfl rfl

theorem ReaderStep.moves (h : ReaderStep s w s') : Moves s (.reader w) s' := by
  cases h with
  | hi hw => exact .goReader (.same rfl rfl rfl rfl rfl) rfl (.shake rfl (by rw [hw]; rfl))
  | @est id sorted hw =>
    have hg : Moves s (.reader w) ({ s with links := s.links.setSort id sorted }.goReader w .idle) :=
      .goReader (.same rfl rfl rfl rfl rfl) rfl (.shake rfl (by rw [hw]; rfl))
    refine ⟨fun e => ?_, hg.reader, hg.pool, .inr ⟨w, id, sorted, rfl, hw, rfl, Function.update_self _ _ _⟩,
      hg.crashed⟩
    show EstMove s _ e (Function.update s.ests s.nextEst (newEst w id) e)
    by_cases he : e = s.nextEst
    · rw [he, Function.update_self]; exact .spawn rfl hw rfl
    · rw [Function.update_of_ne he]; exact .same
  | refuse hw => exact .goReader (.same rfl rfl rfl rfl rfl) rfl (.write (.inl hw))
  | test hw => exact .goReader (.same rfl rfl rfl rfl rfl) rfl (.test rfl hw)
  | write hw => exact .goReader (.same rfl rfl rfl rfl rfl) rfl (.write (.inr hw))
  | @close e id a hw =>
    have hc : Moves s (.reader w) (s.closeStep e id a).1 := moves_closeStep (by rw [hw]; rfl)
    exact hc.goReader (reader_closeStep a) (.close rfl hw)
  | @hubClose e id a _ hw hn =>
    have hc : Moves s (.reader w) (s.closeStep e id a).1 := moves_closeStep (by rw [hw]; rfl)
    have hmove : ReaderMove s (.reader w) w ((s.closeNext e a).elim .hubClose (.hubCloseAt e id)) :=
      .hubCloseAt rfl hw
    rw [hn] at hmove
    exact hc.goReader (reader_closeStep a) hmove
  | @hubDelete e id a hw hn =>
    have hc : Moves s (.reader w) (s.closeStep e id a).1 := moves_closeStep (by rw [hw]; rfl)
    have hmove : ReaderMove s (.reader w) w ((s.closeNext e a).elim .hubClose (.hubCloseAt e id)) :=
      .hubCloseAt rfl hw
    rw [hn] at hmove
    exact Moves.goReader (hc.setPool (.drop rfl hw hn)) (reader_closeStep a) hmove

theorem EstStep.moves (h : EstStep s e s') (he : e < s.nextEst) : Moves s (.est e) s' := by
  have hsame : ∀ {q : Queues KSUID (WsWriter W KSUID)} {k : Links KSUID},
      Moves s (.est e) { s with queues := q, links := k } := .same rfl rfl rfl rfl rfl
  cases h with
  | linkTrySend hpc => exact .setEst hsame rfl rfl (.linkTry rfl hpc)
  | queueTrySend hpc => exact .setEst hsame rfl rfl (.queueTry rfl hpc)
  | get hpc => exact .setEst (.same rfl rfl rfl rfl rfl) rfl rfl (.get rfl hpc)
  | connClose hpc => exact .setEst hsame rfl rfl (.connClose rfl hpc)
  | addProxy hpc hlock =>
    exact .setEst (.setPool (.same rfl rfl rfl rfl rfl) (.add rfl hpc rfl hlock)) rfl rfl (.addProxy rfl hpc hlock)
  | removeProxy hpc hlock =>
    exact .setEst (.setPool (.same rfl rfl rfl rfl rfl) (.remove rfl hpc rfl hlock)) rfl rfl
      (.removeProxy rfl hpc hlock)
  | nilWait hpc hw =>
    have h0 : Moves s (.est e) s := .same rfl rfl rfl rfl rfl
    exact ⟨h0.est, h0.reader, h0.pool, h0.next, fun _ => .inr ⟨e, rfl, he, hpc, hw⟩⟩
  | wake hpc hw => exact .setEst (.same rfl rfl rfl rfl rfl) rfl rfl (.wake hpc hw)
  | @close a hpc =>
    cases a with
    | links => exact .setEst hsame rfl rfl (.closeLinks rfl hpc)
    | queue => exact .setEst hsame rfl rfl (.closeQueue rfl hpc)
    | test =>
      by_cases hc : (s.ests e).closed = true
      · simp only [Server.closeStep, Server.closeNext, hc, if_true]
        exact .setEst (.same rfl rfl rfl rfl rfl) rfl rfl (.closeSkip rfl hpc hc)
      · simp only [Server.closeStep, Server.closeNext, if_neg hc]
        -- two changes of the same instance
        have htwo : (s.setEst e fun x => { x with closed := true }).setEst e (fun x =>
            { x with pc := (some CloseAt.links).elim .tell .close }) =
            s.setEst e fun x => { x with closed := true, pc := .close .links } := by
          simp [Server.setEst]
        rw [htwo]
        exact .setEst (.same rfl rfl rfl rfl rfl) rfl rfl (.closeTest rfl hpc (by simpa using hc))

theorem moves_recv {x : Msg KSUID} {xs : List (Msg KSUID)} (hr : s.reader w = .idle)
    (hin : s.inbox w = x :: xs) :
    Moves s (.recv w) ({ s with inbox := Function.update s.inbox w xs }.dispatch w x) := by
  have htake : ReaderMove s (.recv w) w (s.takes w x) := .take rfl hr hin
  have hsame : ∀ {q : Queues KSUID (WsWriter W KSUID)},
      Moves s (.recv w) { s with inbox := Function.update s.inbox w xs, queues := q } :=
    .same rfl rfl rfl rfl rfl
  cases x with
  | beats => exact hsame
  | sayhi id m | est id sorted => exact hsame.goReader rfl htake
  | finish id =>
    simp only [Server.dispatch]
    simp only [Server.takes] at htake
    split
    · rename_i hp
      rw [show (s.pool w).lookup id = some _ from hp] at htake
      exact hsame.goReader rfl htake
    · exact hsame
  | data id tag bytes =>
    simp only [Server.dispatch]
    simp only [Server.takes] at htake
    split
    · rename_i hp
      rw [show s.links.hub.ref? id = some _ from hp] at htake
      exact hsame.goReader rfl htake
    · exact hsame

/-- Every step changes the goroutines in one of these ways. -/
theorem Server.moves_of_step (h : s.step l = some (s', out)) : Moves s l s' := by
  have hsame : ∀ {q : Queues KSUID (WsWriter W KSUID)} {k : Links KSUID},
      Moves s l { s with queues := q, links := k } := .same rfl rfl rfl rfl rfl
  have hself : Moves s l s := .same rfl rfl rfl rfl rfl
  cases ServerStep.of_step h with
  | recv hr hin => exact moves_recv hr hin
  | reader h1 => exact h1.moves
  | est he h1 => exact h1.moves he
  | writeTimeout hr => exact hself.goReader rfl (.write (.inr hr))
  | disconnect hr => exact hself.goReader rfl (.disconnect rfl hr)
  | hubClose hr hp => exact hself.goReader rfl (.hubClose hr hp)
  | stop hr hp => exact hself.goReader rfl (.stop hr hp)
  | dial he hpc => exact hself.setEst rfl rfl (.dial rfl hpc)
  | tell he hpc => exact hself.setEst rfl rfl (.tell rfl hpc)
  | waiter he h1 => cases h1 <;> exact hself.setEst rfl rfl (.waiter _)
  | copyRead | copyTimeout => exact hself.setEst rfl rfl (.copy _)
  | copy => exact .setEst hsame rfl rfl (.copy _)
  | linkSend | queueSend => exact hsame
  | linkDone => exact .setEst hsame rfl rfl (.waiter _)
  | queueDone he hpc hw => exact .setEst hsame rfl rfl (.wake hpc hw)

end Wssocks.Wss

import Wssocks.Wss.Settle
import Wssocks.Wss.Transfer

/-!
# Any number of clients and one server

Each session is a call of `transData` with the goroutines it starts, as in `Client`. All of them write
to the same websockets and to one server. Each call is given hubs of its own. In the client process all calls
share one pair of hubs; as their ids are different this makes no difference, which is shown in `SharedHubs`.

The direction from the applications to the destinations is run on the server (`Server.Calm`). On the
client everything may happen, and whatever is a reply may come back, on each session's own account; only
no `sayhi` is lost and no `finish` is sent (`Fleet.Orderly`).

`Fleet.refines`: the clients keep to the protocol that `Mux` describes.

Results:

* `fleet_in_order`: each destination is given what its own application sent, in order.
* `Fleet.exists_settled`: without further messages the server comes to rest.
* `fleet_complete`: when the server has come to rest, the destination of a session whose end of stream was
  sent has been given everything.
-/

namespace Wssocks.Pipe

/-- Nothing comes after an end of stream. -/
theorem Sends.noEof {enq bs : List Buffer} {b : Buffer} (h : Sends enq (bs ++ [b])) : NoEof bs := by
  cases h with
  | part hs => exact fun x hx => hs x (List.mem_append_left _ hx)
  | whole hs _ hbs =>
    obtain ⟨rfl, -⟩ := List.append_inj' hs rfl
    exact hbs

theorem NoEof.append_iff {bs : List Buffer} {b : Buffer} (h : NoEof bs) : NoEof (bs ++ [b]) ↔ b.eof = false :=
  ⟨fun hall => hall b (by simp), h.append⟩

/-- When the end of stream was sent, so was everything that was read. -/
theorem CopyInv.all_sent {c : Copy} {enq sent : List Buffer} (h : CopyInv c enq) (hs : Sends enq sent)
    (heof : ¬ NoEof sent) : chunks sent = c.reads ∧ c.pc = .done := by
  obtain ⟨hpre, hend⟩ := h.sends hs
  obtain ⟨bs, b, rfl, -, hbs, hpc⟩ := hend heof
  refine ⟨hpre.eq_of_length_le ?_, hpc⟩
  rw [← hbs, chunks_append, List.length_append]
  exact Nat.le_add_right _ _

/-- What is delivered in order of a part is delivered in order of the whole. -/
theorem Delivered.mono {out : List ConnEvent} {reads reads' : List (List UInt8)} {ended ended' : Prop}
    (h : Delivered out reads ended) (hp : reads <+: reads') (he : ended → reads = reads' ∧ ended') :
    Delivered out reads' ended' := by
  refine ⟨h.cut.trans_isPrefix hp, fun pre post hout => ?_⟩
  obtain ⟨hpost, hpay, hend⟩ := h.closeWrite pre post hout
  obtain ⟨rfl, hend'⟩ := he hend
  exact ⟨hpost, hpay, hend'⟩

end Wssocks.Pipe

namespace Wssocks.Wss

open Wssocks.Lib Wssocks.Pipe

variable {S KSUID : Type} [DecidableEq S] [DecidableEq KSUID] [Inhabited KSUID]

/-! ## The system -/

/-- The calls of `transData` and the server. `est σ` and `eof σ` tell that `est` and the end of stream of session `σ`
    were sent. -/
structure Fleet (S KSUID : Type) [DecidableEq KSUID] where
  clients : S → Client KSUID
  server : Server ℕ KSUID
  est : S → Bool
  eof : S → Bool

/-- The labels: a step of a session's client, a message that comes back to it on websocket `k`, a step of the server. -/
inductive FleetLabel (S KSUID : Type) where
  | client (σ : S) (l : ClientLabel)
  | reply (σ : S) (k : ℕ) (x : Msg KSUID)
  | server (l : ServerLabel ℕ KSUID)
  deriving DecidableEq, Repr

/-- `transData` is about to say `sayhi`. -/
def TransPc.greets : TransPc → Bool
  | .sayID _ => true
  | _ => false

def Msg.isEst : Msg KSUID → Bool
  | .est _ _ => true
  | _ => false

def Msg.isEof : Msg KSUID → Bool
  | .data _ tag _ => tag = .eof
  | _ => false

namespace Fleet

/-- Every call of `transData` is at its start. -/
def init : Fleet S KSUID := ⟨fun _ => Client.init, Server.init, fun _ => false, fun _ => false⟩

/-- The client of `σ` moves to `c` and sends a message, if any. -/
def speak (t : Fleet S KSUID) (σ : S) (c : Client KSUID) (out : Option (ℕ × Msg KSUID)) : Fleet S KSUID where
  clients := Function.update t.clients σ c
  server := out.elim t.server fun m => t.server.arrive m.1 m.2
  est := Function.update t.est σ (t.est σ || out.any fun m => m.2.isEst)
  eof := Function.update t.eof σ (t.eof σ || out.any fun m => m.2.isEof)

/-- One step; `ids σ` are the lanes of session `σ`. -/
def step (ids : S → List KSUID) (t : Fleet S KSUID) : FleetLabel S KSUID → Option (Fleet S KSUID)
  | .client σ l => ((t.clients σ).step (ids σ) l).map fun r => t.speak σ r.1 r.2
  | .reply σ k x => some { t with clients := Function.update t.clients σ ((t.clients σ).arrive k x) }
  | .server l => (t.server.step l).map fun r => { t with server := r.1 }

/-- No `sayhi` is lost, no `finish` is sent, replies come after `est`, and the server runs the direction to the
    destinations. -/
def Orderly (ids : S → List KSUID) (t : Fleet S KSUID) : FleetLabel S KSUID → Prop
  | .client σ .transFail => (t.clients σ).pc.greets = false
  | .client σ (.tellClose ok) => ok = true → (t.clients σ).copy.err = none
  | .client _ _ => True
  | .reply σ k x => t.est σ = true ∧ Reply (ids σ) ((ids σ).headD default) k x
  | .server l => t.server.Calm l

end Fleet

/-! ## The clients keep to the protocol -/

section Client

variable {ks : List KSUID} {c c' : Client KSUID} {l : ClientLabel} {out : Option (ℕ × Msg KSUID)} {est eof : Bool}
  {src : Source} {f : Flow} {sent : ℕ} {cs : List Buffer}

/-- What a session of `Mux` has sent when the call of `transData` is where it is. -/
structure Follows (ks : List KSUID) (est eof : Bool) (c : Client KSUID) (src : Source) (f : Flow) (sent : ℕ)
    (cs : List Buffer) : Prop where
  inv : ClientInv ks (ks.headD default) est src f c
  number : sent = if est then ks.length + 1 + src.sent.length else c.pc.greeted ks.length
  chunks : cs = src.sent
  ends : eof = true ↔ ¬ NoEof src.sent

/-- No chunk was sent yet. -/
theorem Follows.handshake (inv : ClientInv ks (ks.headD default) est src f c) (hnil : src.sent = [])
    (hnum : sent = if est then ks.length + 1 else c.pc.greeted ks.length) : Follows ks est false c src f sent [] where
  inv := inv
  number := by
    rw [hnum, hnil]
    rfl
  chunks := hnil.symm
  ends := by simp [hnil, NoEof]

theorem Follows.init : Follows ks false false Client.init Source.init Flow.init 0 [] :=
  .handshake ClientInv.init rfl rfl

/-- The chunks come after the handshake. -/
theorem Follows.fresh (h : Follows ks est eof c src f sent cs) (hcount : cs.length = sent - (ks.length + 1))
    (hle : sent ≤ ks.length) : src.sent = [] ∧ eof = false := by
  have hnil : src.sent = [] := List.eq_nil_of_length_eq_zero (by rw [← h.chunks, hcount]; omega)
  refine ⟨hnil, Bool.eq_false_of_not_eq_true fun he => h.ends.mp he ?_⟩
  rw [hnil]
  exact fun _ hx => (by cases hx)

/-- `finish` is only sent after `CopyBuffer` failed. -/
theorem Client.finish_of_step {k : ℕ} {id : KSUID} (h : c.step ks l = some (c', some (k, .finish id))) :
    l = .tellClose true ∧ c.copy.err ≠ none := by
  obtain ⟨-, h⟩ := Option.ite_none_left_eq_some.mp h
  cases l with
  | tellClose ok =>
    obtain ⟨-, h⟩ := Option.ite_none_right_eq_some.mp h
    obtain ⟨-, h⟩ := Prod.mk.inj (Option.some.inj h)
    obtain ⟨⟨rfl, herr⟩, -⟩ := Option.ite_none_right_eq_some.mp h
    exact ⟨rfl, Option.isSome_iff_ne_none.mp herr⟩
  | trans =>
    dsimp only at h
    unfold Client.transStep at h
    split at h <;> (try split at h) <;> cases h
  | recv i =>
    dsimp only at h
    split at h <;> cases h
  | writeTimeout i =>
    dsimp only at h
    split at h
    · obtain ⟨-, h⟩ := Option.ite_none_right_eq_some.mp h
      cases h
    · cases h
  | queueSend q i o =>
    obtain ⟨⟨qs, msg⟩, -, h⟩ := Option.bind_eq_some_iff.mp h
    cases msg with
    | none => cases h
    | some m =>
      obtain ⟨-, h⟩ := Option.ite_none_left_eq_some.mp h
      cases h
  | linkDone q i =>
    obtain ⟨-, h⟩ := Option.ite_none_right_eq_some.mp h
    obtain ⟨r, -, h⟩ := Option.map_eq_some_iff.mp h
    cases h
  | transFail | reader | copyRead | copy | copyTimeout | linkSend =>
    obtain ⟨r, -, h⟩ := Option.map_eq_some_iff.mp h
    cases h

omit [DecidableEq KSUID] in
theorem isEst_script {j : ℕ} {b : Buffer} : (script ks j b).isEst = decide (j = ks.length) := by
  unfold script
  split_ifs with hlt heq
  · exact (decide_eq_false (Nat.ne_of_lt hlt)).symm
  · exact (decide_eq_true heq).symm
  · exact (decide_eq_false heq).symm

omit [DecidableEq KSUID] in
theorem isEof_script {j : ℕ} {b : Buffer} : (script ks j b).isEof = (decide (ks.length < j) && b.eof) := by
  unfold script
  split_ifs with hlt heq
  · rw [decide_eq_false (Nat.not_lt.mpr hlt.le)]
    rfl
  · rw [decide_eq_false (by omega)]
    rfl
  · rw [decide_eq_true (by omega), Bool.true_and]
    cases hb : b.eof <;> simp [WsWriter.msg, Msg.isEof, hb]

theorem carried_eq {b : Buffer} (hb : b.eof = true → b.data = []) : carried b = b := by
  obtain ⟨e, d⟩ := b
  cases e with
  | false => rfl
  | true => cases hb rfl; rfl

omit [DecidableEq KSUID] in
theorem getElem?_headD (hpos : 0 < ks.length) : ks[0]? = some (ks.headD default) := by
  cases ks with
  | nil => cases hpos
  | cons k ks => rfl

/-- A step of the client is none of the session, or the next message of its script. -/
theorem Follows.step (h : Follows ks est eof c src f sent cs) (hnd : ks.Nodup) (hpos : 0 < ks.length)
    (hs : c.step ks l = some (c', out)) (hhi : l = .transFail → ∀ i, c.pc ≠ .sayID i)
    (hfin : l = .tellClose true → c.copy.err = none) (hcount : cs.length = sent - (ks.length + 1)) :
    ∃ src' f', out = none ∧ Follows ks est eof c' src' f' sent cs ∨
      ∃ b, out = some (laneOf ks.length sent, script ks sent b) ∧ eof = false ∧
        Follows ks (est || (script ks sent b).isEst) (script ks sent b).isEof c' src' f' (sent + 1)
          (if ks.length < sent then cs ++ [carried b] else []) := by
  obtain ⟨est', src', f', inv', hstep⟩ := h.inv.act hnd (getElem?_headD hpos) hs
  refine ⟨src', f', ?_⟩
  cases hstep.speaks hhi with
  | nothing he hg hsent =>
    refine .inl ⟨rfl, he ▸ inv', ?_, by rw [h.chunks, hsent], by rw [h.ends, hsent]⟩
    rw [h.number, hsent, hg]
  | @sayhi k id he hid hg hg' hsent =>
    obtain ⟨hk, -⟩ := List.getElem?_eq_some_iff.mp hid
    obtain rfl := Option.some.inj ((getElem?_getD hk).symm.trans hid)
    have hest : est = false := by
      refine Bool.eq_false_of_not_eq_true fun he => ?_
      have := h.inv.greeted_of_est he
      omega
    subst hest
    have hnum : sent = k := by rw [h.number, if_neg (by simp), hg]
    subst hnum
    obtain ⟨hnil, heof⟩ := h.fresh hcount hk.le
    refine .inr ⟨default, ?_, heof, ?_⟩
    · rw [laneOf, if_pos hk, script, if_pos hk]
    · rw [isEst_script, isEof_script, decide_eq_false (Nat.ne_of_lt hk), decide_eq_false (Nat.not_lt.mpr hk.le),
        if_neg (Nat.not_lt.mpr hk.le), Bool.or_false]
      exact .handshake (he ▸ inv') (hsent.trans hnil) hg'.symm
  | est he he' hg hg' hsent =>
    subst he
    have hnum : sent = ks.length := by rw [h.number, if_neg (by simp), hg]
    obtain ⟨hnil, heof⟩ := h.fresh hcount hnum.le
    refine .inr ⟨default, ?_, heof, ?_⟩
    · rw [hnum, laneOf, script, if_neg (lt_irrefl _), if_pos rfl, if_neg (lt_irrefl _), if_pos rfl]
    · rw [isEst_script, isEof_script, decide_eq_true hnum, hnum, decide_eq_false (lt_irrefl _), if_neg (lt_irrefl _)]
      exact .handshake (he' ▸ inv') (hsent.trans hnil) rfl
  | @chunk b he he' hg hsent hb =>
    subst he
    have hnum : sent = ks.length + 1 + src.sent.length := by rw [h.number, if_pos rfl]
    have hno : NoEof src.sent := (hsent ▸ inv'.split.sends).noEof
    have heof : eof = false := Bool.eq_false_of_not_eq_true fun he => h.ends.mp he hno
    refine .inr ⟨b, ?_, heof, ?_⟩
    · rw [script, if_neg (by omega), if_neg (by omega), hnum, laneOf_chunk]
      rfl
    · rw [isEof_script, Bool.true_or, decide_eq_true (by omega : ks.length < sent), Bool.true_and, if_pos (by omega)]
      refine ⟨he' ▸ inv', ?_, ?_, ?_⟩
      · rw [if_pos rfl, hnum, hsent, List.length_append, List.length_singleton]
        omega
      · rw [h.chunks, hsent, carried_eq hb]
      · rw [hsent, hno.append_iff, Bool.not_eq_false]
  | finish => exact absurd (hfin (Client.finish_of_step hs).1) (Client.finish_of_step hs).2

end Client

/-! ## Whole runs -/

section Run

variable {ids : S → List KSUID} {t t' : Fleet S KSUID} {x x' : Mux S KSUID} {ls : List (FleetLabel S KSUID)}
  {ms : List (MuxLabel S KSUID)} {σ : S} {n e : ℕ}

/-- A run of `Mux` with the same server, in which each session has sent what its client has sent. -/
structure Refines (ids : S → List KSUID) (t : Fleet S KSUID) (ms : List (MuxLabel S KSUID)) (x : Mux S KSUID) :
    Prop where
  run : Run (Mux.step ids) Mux.Calm Mux.init ms x
  server : x.server = t.server
  eof : x.eof = t.eof
  client : ∀ σ, ∃ src f, Follows (ids σ) (t.est σ) (t.eof σ) (t.clients σ) src f (x.sent σ)
    (chunksSent (ids σ).length ms σ)

theorem Refines.init : Refines ids Fleet.init [] Mux.init :=
  ⟨.nil _, rfl, rfl, fun _ => ⟨_, _, Follows.init⟩⟩

/-- A client moves without sending anything. -/
theorem Refines.move {c : Client KSUID} {src : Source} {f : Flow} (h : Refines ids t ms x)
    (hc : Follows (ids σ) (t.est σ) (t.eof σ) c src f (x.sent σ) (chunksSent (ids σ).length ms σ)) :
    Refines ids { t with clients := Function.update t.clients σ c } ms x := by
  refine ⟨h.run, h.server, h.eof, fun τ => ?_⟩
  dsimp only
  by_cases hτ : τ = σ
  · subst hτ
    exact ⟨src, f, by rwa [Function.update_self]⟩
  · rw [Function.update_of_ne hτ]
    exact h.client τ

/-- A step of a client is no step of `Mux`, or its session sends the next message. -/
theorem Refines.speak {l : ClientLabel} {c : Client KSUID} {out : Option (ℕ × Msg KSUID)} (h : Refines ids t ms x)
    (hids : Sessions ids n) (hok : t.Orderly ids (.client σ l)) (hs : (t.clients σ).step (ids σ) l = some (c, out)) :
    ∃ ms' x', Refines ids (t.speak σ c out) ms' x' := by
  obtain ⟨hsent, -⟩ := exists_book hids h.run
  obtain ⟨src, f, hfol⟩ := h.client σ
  have hhi : l = .transFail → ∀ i, (t.clients σ).pc ≠ .sayID i := by
    rintro rfl i hpc
    have hno : (t.clients σ).pc.greets = false := hok
    rw [hpc] at hno
    cases hno
  have hfin : l = .tellClose true → (t.clients σ).copy.err = none := by
    rintro rfl
    exact hok rfl
  obtain ⟨src', f', ⟨rfl, hfol'⟩ | ⟨b, rfl, heof, hfol'⟩⟩ := hfol.step (hids.nodup σ) (hids.length_pos σ) hs hhi hfin
    (by rw [length_chunksSent, hsent.count])
  · have hquiet : t.speak σ c none = { t with clients := Function.update t.clients σ c } := by simp [Fleet.speak]
    exact ⟨ms, x, hquiet ▸ h.move hfol'⟩
  · have hpost : x.step ids (.post σ b) = some _ := if_neg (by rw [h.eof, heof]; simp)
    have hcalm : x.Calm (.post σ b) := trivial
    refine ⟨ms ++ [.post σ b], _, h.run.snoc hcalm hpost, ?_, ?_, fun τ => ?_⟩
    · exact congrArg (fun s => Server.arrive s _ _) h.server
    · rw [h.eof]
      simp only [Fleet.speak, heof, Option.any_some, isEof_script, Bool.false_or]
    · by_cases hτ : τ = σ
      · subst hτ
        refine ⟨src', f', ?_⟩
        simp only [Fleet.speak, Function.update_self, Option.any_some, heof, Bool.false_or, chunksSent_post,
          ← hsent.count]
        exact hfol'
      · simp only [Fleet.speak, Function.update_of_ne hτ, chunksSent_post_of_ne hτ]
        exact h.client τ

/-- The clients with the server are an instance of `Mux`. -/
theorem Fleet.refines (hids : Sessions ids n) (h : Run (Fleet.step ids) (Fleet.Orderly ids) Fleet.init ls t) :
    ∃ ms x, Refines ids t ms x := by
  refine h.invariant (I := fun t => ∃ ms x, Refines ids t ms x) ⟨_, _, Refines.init⟩ ?_
  rintro t a t' ⟨ms, x, hx⟩ hok hstep
  cases a with
  | client σ l =>
    obtain ⟨⟨c, out⟩, hs, rfl⟩ := Option.map_eq_some_iff.mp hstep
    exact hx.speak hids hok hs
  | reply σ k m =>
    cases hstep
    obtain ⟨src, f, hfol⟩ := hx.client σ
    exact ⟨ms, x, hx.move ⟨hfol.inv.arrive hok.1 hok.2, hfol.number, hfol.chunks, hfol.ends⟩⟩
  | server l =>
    obtain ⟨r, hs, rfl⟩ := Option.map_eq_some_iff.mp hstep
    have hact : x.step ids (.act l) = some { x with server := r.1 } := by
      rw [Mux.step, hx.server, hs]
      rfl
    have hcalm : x.Calm (.act l) := by
      rw [Mux.Calm, hx.server]
      exact hok
    refine ⟨ms ++ [.act l], { x with server := r.1 }, hx.run.snoc hcalm hact, rfl, hx.eof, fun τ => ?_⟩
    rw [chunksSent_act]
    exact hx.client τ

instance Reply.decidable (ks : List KSUID) (m : KSUID) (k : ℕ) : (x : Msg KSUID) → Decidable (Reply ks m k x)
  | .data id tag _ => inferInstanceAs (Decidable (ks[k]? = some id ∧ (tag = .data ∨ tag = .eof)))
  | .finish id => inferInstanceAs (Decidable (k = 0 ∧ id = m))
  | .beats | .sayhi _ _ | .est _ _ => isFalse id

instance Fleet.decidableOrderly (ids : S → List KSUID) (t : Fleet S KSUID) :
    (a : FleetLabel S KSUID) → Decidable (t.Orderly ids a)
  | .client σ .transFail => inferInstanceAs (Decidable ((t.clients σ).pc.greets = false))
  | .client σ (.tellClose ok) => inferInstanceAs (Decidable (ok = true → (t.clients σ).copy.err = none))
  | .client _ .trans | .client _ (.recv _) | .client _ (.reader _) | .client _ (.writeTimeout _)
  | .client _ (.copyRead _ _) | .client _ .copy | .client _ .copyTimeout | .client _ (.queueSend _ _ _)
  | .client _ (.linkSend _ _ _) | .client _ (.linkDone _ _) => isTrue trivial
  | .reply σ k x => inferInstanceAs (Decidable (t.est σ = true ∧ Reply (ids σ) ((ids σ).headD default) k x))
  | .server l => inferInstanceAs (Decidable (t.server.Calm l))

/-- The destination of a session is given what its client read, in order. -/
theorem Refines.delivered (hx : Refines ids t ms x) (hids : Sessions ids n) (he : e < t.server.nextEst)
    (hid : (ids σ)[0]? = some (t.server.ests e).id) :
    Delivered (t.server.links.socks e).out (t.clients σ).copy.reads ((t.clients σ).copy.pc = .done) := by
  obtain ⟨src, f, hfol⟩ := hx.client σ
  rw [← hx.server] at he hid ⊢
  have hdel := multiplexed_in_order hids hx.run he hid
  rw [hfol.chunks, hx.eof] at hdel
  have hsends := hfol.inv.split.sends
  exact hdel.mono (hfol.inv.copy.sends hsends).1 fun heof => hfol.inv.copy.all_sent hsends (hfol.ends.mp heof)

/-- Each destination is given what its own application sent, in order, and is half closed only after everything. -/
theorem fleet_in_order (hids : Sessions ids n) (h : Run (Fleet.step ids) (Fleet.Orderly ids) Fleet.init ls t)
    (he : e < t.server.nextEst) (hid : (ids σ)[0]? = some (t.server.ests e).id) :
    Delivered (t.server.links.socks e).out (t.clients σ).copy.reads ((t.clients σ).copy.pc = .done) := by
  obtain ⟨ms, x, hx⟩ := Fleet.refines hids h
  exact hx.delivered hids he hid

/-- The client of a session up to its first two chunks; the other session says `sayhi` on its first lane. -/
def twoChunks : List (FleetLabel Bool ℕ) :=
  List.replicate 2 (FleetLabel.client false .trans) ++ List.replicate 2 (FleetLabel.client true .trans) ++
    List.replicate 12 (FleetLabel.client false .trans) ++
    [FleetLabel.client false (.copyRead [1, 2] .more), .client false .copy, .client false .copy,
      .client false (.copyRead [3] .eof), .client false .copy, .client false .copy] ++
    List.replicate 8 (FleetLabel.client false (.queueSend 0 0 .ok))

/-- The destination of the first session has its first chunk, the second one is on its way. -/
theorem fleet_in_order_first :
    ∃ t, Run (Fleet.step twoSessions) (Fleet.Orderly twoSessions) Fleet.init (twoChunks ++ firstWrite.map .server) t ∧
      (t.server.links.socks 0).out = [.data [1, 2]] ∧
      Delivered (t.server.links.socks 0).out [[1, 2], [3]] ((t.clients false).copy.pc = .done) := by
  have hexec : (exec (Fleet.step twoSessions) (fun t a => decide (t.Orderly twoSessions a)) Fleet.init
      (twoChunks ++ firstWrite.map .server)).map (fun t =>
        ((t.server.links.socks 0).out, (t.clients false).copy.reads, t.server.nextEst, (t.server.ests 0).id)) =
      some ([.data [1, 2]], [[1, 2], [3]], 1, 0) := by
    decide +kernel
  obtain ⟨t, hrun, hobs⟩ := exists_run_of_exec hexec
  obtain ⟨hout, hobs⟩ := Prod.mk.inj hobs
  obtain ⟨hreads, hobs⟩ := Prod.mk.inj hobs
  obtain ⟨hnext, hid⟩ := Prod.mk.inj hobs
  have hok : Run (Fleet.step twoSessions) (Fleet.Orderly twoSessions) Fleet.init
      (twoChunks ++ firstWrite.map .server) t :=
    hrun.mono fun _ _ h => of_decide_eq_true h
  refine ⟨t, hok, hout, ?_⟩
  rw [← hreads]
  exact fleet_in_order (σ := false) sessions_twoSessions hok (hnext ▸ Nat.zero_lt_one) (by rw [hid]; rfl)

/-- The server can do nothing until something is sent. -/
def Fleet.Settled (t : Fleet S KSUID) : Prop := ∀ a, t.server.Calm a → t.server.step a = none

/-- What the server does in `Mux` it can do here. -/
theorem Fleet.run_of_acts {as : List (MuxLabel S KSUID)} (h : Run (Mux.step ids) Mux.Calm x as x')
    (hacts : ∀ a ∈ as, a.isPost = false) (ht : x.server = t.server) :
    ∃ bs, Run (Fleet.step ids) (Fleet.Orderly ids) t bs { t with server := x'.server } := by
  induction h with
  | nil => exact ⟨[], by rw [ht]; exact .nil _⟩
  | @snoc x1 x2 as a hrun hcalm hstep ih =>
    obtain ⟨bs, hbs⟩ := ih fun b hb => hacts b (List.mem_append_left _ hb)
    cases a with
    | post => cases hacts _ (List.mem_append_right _ (List.mem_singleton_self _))
    | act l =>
      obtain ⟨r, hs, rfl⟩ := Option.map_eq_some_iff.mp hstep
      have hok : Fleet.Orderly ids { t with server := x1.server } (.server l) := hcalm
      refine ⟨bs ++ [.server l], hbs.snoc hok ?_⟩
      simp [Fleet.step, hs]

/-- Without further messages the server comes to rest. -/
theorem Fleet.exists_settled (hids : Sessions ids n) (h : Run (Fleet.step ids) (Fleet.Orderly ids) Fleet.init ls t) :
    ∃ bs t', Run (Fleet.step ids) (Fleet.Orderly ids) t bs t' ∧ t'.Settled ∧ t'.clients = t.clients ∧
      t'.eof = t.eof := by
  obtain ⟨ms, x, hx⟩ := Fleet.refines hids h
  obtain ⟨as, x', hrun, hset, -, hacts⟩ := Wss.exists_settled hids hx.run
  obtain ⟨bs, hbs⟩ := Fleet.run_of_acts hrun hacts hx.server
  refine ⟨bs, _, hbs, fun a hcalm => ?_, rfl, rfl⟩
  exact Option.not_isSome_iff_eq_none.mp (hset.step hcalm)

/-- When the server has come to rest, the sessions whose end of stream was sent were delivered completely. -/
theorem fleet_complete (hids : Sessions ids n) (h : Run (Fleet.step ids) (Fleet.Orderly ids) Fleet.init ls t)
    (hset : t.Settled) (heof : t.eof σ = true) :
    ∃ e < t.server.nextEst, (ids σ)[0]? = some (t.server.ests e).id ∧ ∃ pre,
      (t.server.links.socks e).out = pre ++ [.closeWrite] ∧ payloads pre = (t.clients σ).copy.reads := by
  obtain ⟨ms, x, hx⟩ := Fleet.refines hids h
  obtain ⟨src, f, hfol⟩ := hx.client σ
  have hset' : x.Settled ids := by
    intro a hcalm
    rw [Mux.Calm, hx.server] at hcalm
    rw [Mux.step, hx.server, hset a hcalm]
    rfl
  obtain ⟨e, he, hid, pre, hout, hpay⟩ := multiplexed_complete hids hx.run hset' (by rw [hx.eof]; exact heof)
  rw [hx.server] at he hid hout
  refine ⟨e, he, hid, pre, hout, ?_⟩
  rw [hpay, hfol.chunks, (hfol.inv.copy.all_sent hfol.inv.split.sends (hfol.ends.mp heof)).1]

/-- The client of a session that sends two chunks and the end of stream. -/
def wholeStream : List (FleetLabel Bool ℕ) :=
  twoChunks ++ List.replicate 2 (.client false .copy) ++ List.replicate 5 (.client false (.queueSend 0 0 .ok))

/-- From there the server delivers everything. -/
theorem fleet_complete_two :
    ∃ bs t, Run (Fleet.step twoSessions) (Fleet.Orderly twoSessions) Fleet.init (wholeStream ++ bs) t ∧ ∃ e pre,
      (t.server.links.socks e).out = pre ++ [.closeWrite] ∧ payloads pre = [[1, 2], [3]] := by
  have hexec : (exec (Fleet.step twoSessions) (fun t a => decide (t.Orderly twoSessions a)) Fleet.init wholeStream).map
      (fun t => (t.eof false, (t.clients false).copy.reads)) = some (true, [[1, 2], [3]]) := by
    decide +kernel
  obtain ⟨t0, hrun, hobs⟩ := exists_run_of_exec hexec
  obtain ⟨heof, hreads⟩ := Prod.mk.inj hobs
  have hok : Run (Fleet.step twoSessions) (Fleet.Orderly twoSessions) Fleet.init wholeStream t0 :=
    hrun.mono fun _ _ h => of_decide_eq_true h
  obtain ⟨bs, t, hserve, hset, hclients, heof'⟩ := Fleet.exists_settled sessions_twoSessions hok
  obtain ⟨e, -, -, pre, hout, hpay⟩ :=
    fleet_complete (σ := false) sessions_twoSessions (hok.trans hserve) hset (by rw [heof']; exact heof)
  rw [hclients, hreads] at hpay
  exact ⟨bs, t, hok.trans hserve, e, pre, hout, hpay⟩

end Run

end Wssocks.Wss

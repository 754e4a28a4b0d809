import Wssocks.Wss.MultiplexSteps

/-!
# Head-of-line blocking is no deadlock

A reader that waits for the full buffer of one session stops all sessions on its
websocket, and a `Send` that waits for its next chunk, or for its launch, may wait for
a message behind that reader. Such waits do not form a cycle: of the messages that
are not handled yet, the one that was sent first is at the head of its websocket, and
everything its session sent before it was handled. So if its reader waits for a full
buffer, the session's `Send` was launched, or `establish` is on its way to launch it,
and the chunk that `Send` waits for is in its link.

Results:

* `multiplexed_progress`: while a message is not handled, or a chunk is in a link or
  in the hands of `Send`, a step of the server is possible.
-/

namespace Wssocks.Wss

open Wssocks.Lib Wssocks.Pipe

variable {S KSUID : Type} [DecidableEq KSUID] [Inhabited KSUID] {ids : S → List KSUID} {b : Book S} {sent : S → ℕ}
  {eof : S → Bool} {s : Server ℕ KSUID} {σ : S} {n : ℕ}

/-- When a chunk whose turn it is was handled, and so was all that its session sent before it, then
    `establish` or `Send` can go on. -/
theorem MuxInv.turn (inv : MuxInv ids b sent eof s) (hids : Sessions ids n)
    (hturn : ∀ j ≤ (ids σ).length + 1 + (b.flow σ).merged.length, b.Done sent σ j) :
    ∃ a, s.Calm a ∧ (s.step a).isSome := by
  have hpos := hids.length_pos σ
  obtain ⟨e, he, hb⟩ := inv.bossed (hturn _ (by omega))
  obtain ⟨-, -, hconn⟩ := inv.est_of_boss he hb
  have hc : b.Conn s.nextEst σ e := by rwa [Book.Conn, if_pos he]
  cases hpc : (s.ests e).pc with
  | dial => exact ⟨.dial e .connected, rfl, inv.can (.dial he hpc)⟩
  | linkTrySend =>
    exact ⟨.est e, by simp [Server.Calm, hpc, EstPc.beforeWait], inv.can (.est he (.linkTrySend hpc))⟩
  | addProxy | queueTrySend | get | wait | removeProxy | connClose | close | tell | returned =>
    rw [hpc] at hconn
    obtain ⟨r, -, hsend⟩ := (inv.seat hc).send_isSome hpos (fun k hk => hturn k (by omega)) hconn
      (hturn _ le_rfl) (inv.sound.opened e)
    exact ⟨.linkSend r 0 .ok, rfl, inv.can_send hsend⟩

/-- The message that was sent first of those that are not handled. -/
theorem Posted.exists_first (h : Posted ids b sent eof s) (hne : ∃ v, b.wire v ≠ []) :
    ∃ w p rest, b.wire w = p :: rest ∧ ∀ j < p.number, b.Done sent p.owner j := by
  classical
  have hex : ∃ time w p, p ∈ b.wire w ∧ p.time = time := by
    obtain ⟨v, hv⟩ := hne
    obtain ⟨p, hp⟩ := List.exists_mem_of_ne_nil _ hv
    exact ⟨p.time, v, p, hp, rfl⟩
  obtain ⟨w, p, hp, htime⟩ := Nat.find_spec hex
  have hmin : ∀ v q, q ∈ b.wire v → p.time ≤ q.time := by
    intro v q hq
    rw [htime]
    exact Nat.find_min' hex ⟨v, q, hq, rfl⟩
  have hprev : ∀ j < p.number, b.Done sent p.owner j := by
    refine fun j hj => ⟨hj.trans (h.number_lt hp), fun v q hq hown hnum => ?_⟩
    exact absurd (hmin v q hq) (not_le.mpr (h.program hq hp hown (hnum ▸ hj)))
  cases hw : b.wire w with
  | nil =>
    rw [hw] at hp
    cases hp
  | cons p0 rest =>
    have hp0 := Posted.head_mem hw
    rw [hw, List.mem_cons] at hp
    rcases hp with rfl | hp
    · exact ⟨w, p, rest, hw, hprev⟩
    · have hlt := (List.pairwise_cons.mp (hw ▸ h.order w)).1 p hp
      exact absurd (hmin w p0 hp0) (not_le.mpr hlt.1)

/-- While a message is not handled, a step is possible. -/
theorem MuxInv.handles (inv : MuxInv ids b sent eof s) (hids : Sessions ids n) (hne : ∃ v, b.wire v ≠ []) :
    ∃ a, s.Calm a ∧ (s.step a).isSome := by
  obtain ⟨w, p, rest, hw, hprev⟩ := inv.toPosted.exists_first hne
  have hp := Posted.head_mem hw
  rcases inv.lined w with ⟨hidle, hin⟩ | ⟨p', rest', hw', -, hh⟩
  · rw [hw, List.map_cons] at hin
    exact ⟨.recv w, trivial, inv.can (.recv hidle hin)⟩
  obtain ⟨rfl, rfl⟩ := List.cons.inj (hw.symm.trans hw')
  cases hr : s.reader w with
  | hi id m => exact ⟨.reader w, trivial, inv.can (.reader (.hi hr))⟩
  | est id sorted => exact ⟨.reader w, trivial, inv.can (.reader (.est hr))⟩
  | check q x =>
    by_cases hst : (s.links.hub.obj q).status = .done
    · exact ⟨.reader w, trivial, inv.can (.reader (.refuse hr hst))⟩
    · exact ⟨.reader w, trivial, inv.can (.reader (.test hr hst))⟩
  | select q x =>
    cases hpush : s.links.push q x with
    | some r => exact ⟨.reader w, trivial, inv.can (.reader (.write hr hpush))⟩
    | none =>
      -- its buffer is full of chunks that were sent before it, and `Send` has not taken them
      rw [hr] at hh
      obtain ⟨t, hnum, hq, -⟩ := hh
      obtain ⟨c, hc⟩ := b.exists_conn s.nextEst p.owner
      obtain ⟨t', hle, hmod, hdone⟩ := (inv.seat hc).buffered hq (Links.items_of_push_eq_none hpush)
      have hnot : ¬ b.Done sent p.owner ((ids p.owner).length + 1 + t) := hnum ▸ Posted.not_done hp
      have hlt : t' < t := by
        rw [(inv.seat hc).chunk] at hdone hnot
        rw [hmod] at hdone
        exact Nat.lt_of_div_lt_div (hdone.trans_le (not_lt.mp hnot))
      exact inv.turn hids fun j hj => hprev j (by omega)
  | idle | close | hubClose | hubCloseAt | stopped =>
    rw [hr] at hh
    exact hh.elim

/-- When all messages were handled, a chunk that was not written yet can go on. -/
theorem MuxInv.drains (inv : MuxInv ids b sent eof s) (hids : Sessions ids n) (hall : ∀ v, b.wire v = [])
    (hwait : (∃ k q, s.links.hub.lane (ids σ) k = some q ∧ (s.links.hub.obj q).buffer.items ≠ []) ∨
      ∃ q src x rest, s.links.hub.lane (ids σ) 0 = some q ∧ .write src x rest ∈ s.links.sends q) :
    ∃ a, s.Calm a ∧ (s.step a).isSome := by
  have hdone : ∀ j < sent σ, b.Done sent σ j := by
    refine fun j hj => ⟨hj, fun v p hp => ?_⟩
    rw [hall v] at hp
    cases hp
  obtain ⟨c, hc⟩ := b.exists_conn s.nextEst σ
  have hseat := inv.seat hc
  rcases hwait with ⟨k, q, hq, hitems⟩ | ⟨q, src, x, rest, hq, hmem⟩
  · rw [hseat.merge.tracks.live hseat.live] at hq
    obtain ⟨t, hle, -, ht⟩ := hseat.buffered hq hitems
    have := hseat.bound ht
    exact inv.turn hids fun j hj => hdone j (by omega)
  · rw [hseat.merge.tracks.live hseat.live] at hq
    obtain ⟨hs, -, -⟩ := hseat.merge.at_pc hq hmem
    have hsend := hseat.write_isSome hq hs (inv.sound.opened c)
    exact ⟨.linkSend q 0 .ok, rfl, inv.can_send hsend⟩

/-- Sessions that share their websockets do not block each other for ever. -/
theorem multiplexed_progress [DecidableEq S] {ls : List (MuxLabel S KSUID)} {t : Mux S KSUID} (hids : Sessions ids n)
    (h : Run (Mux.step ids) Mux.Calm Mux.init ls t) (hwait : t.Waiting ids) :
    ∃ a t', t.Calm (.act a) ∧ t.step ids (.act a) = some t' := by
  obtain ⟨b, inv⟩ : ∃ b, MuxInv ids b t.sent t.eof t.server := by
    refine h.invariant (I := fun t => ∃ b, MuxInv ids b t.sent t.eof t.server) ⟨_, MuxInv.init⟩ ?_
    rintro t a t' ⟨b, inv⟩ hcalm hstep
    exact inv.step hids hcalm hstep
  obtain ⟨a, hcalm, hstep⟩ : ∃ a, t.server.Calm a ∧ (t.server.step a).isSome := by
    by_cases hne : ∃ v, b.wire v ≠ []
    · exact inv.handles hids hne
    · have hall : ∀ v, b.wire v = [] := fun v => by_contra fun hv => hne ⟨v, hv⟩
      rcases hwait with ⟨w, hbusy⟩ | ⟨σ, hchunk⟩
      · rcases inv.lined w with ⟨hidle, hin⟩ | ⟨p, rest, hw, -⟩
        · rw [hall w] at hin
          exact absurd hidle (hbusy.resolve_left fun h0 => h0 hin)
        · rw [hall w] at hw
          cases hw
      · exact inv.drains hids hall hchunk
  obtain ⟨r, hr⟩ := Option.isSome_iff_exists.mp hstep
  exact ⟨a, { t with server := r.1 }, hcalm, by simp [Mux.step, hr]⟩

/-- Two sessions on two websockets. -/
def twoSessions : Bool → List ℕ
  | false => [0, 1]
  | true => [2, 3]

theorem sessions_twoSessions : Sessions twoSessions 2 where
  pos := by decide
  length := by decide
  nodup := by decide
  disjoint := by decide

/-- The reader of websocket 0 waits for a full buffer. The `sayhi` of the other lane was not handled, so `Send` was
    not launched, and the `sayhi` of the other session is behind the chunk. -/
def fullBuffer : List (MuxLabel Bool ℕ) :=
  List.replicate 24 (MuxLabel.post false ⟨false, [1]⟩) ++ [MuxLabel.post true default] ++
    [MuxLabel.act (.recv 0), .act (.reader 0), .act (.recv 0), .act (.reader 0)] ++
    (List.replicate 10 [MuxLabel.act (.recv 0), .act (.reader 0), .act (.reader 0)]).flatten ++
    [MuxLabel.act (.recv 0), .act (.reader 0)]

theorem multiplexed_progress_full :
    ∃ t, Run (Mux.step twoSessions) Mux.Calm Mux.init fullBuffer t ∧ t.server.step (.reader 0) = none ∧
      ∃ a t', t.Calm (.act a) ∧ t.step twoSessions (.act a) = some t' := by
  let okb : Mux Bool ℕ → MuxLabel Bool ℕ → Bool
    | _, .post _ _ | _, .act (.recv _) | _, .act (.reader _) => true
    | _, _ => false
  have hexec : (exec (Mux.step twoSessions) okb Mux.init fullBuffer).map
      (fun t => ((t.server.step (.reader 0)).isNone, decide (t.server.reader 0 = .idle))) = some (true, false) := by
    decide +kernel
  obtain ⟨t, hrun, hobs⟩ := exists_run_of_exec hexec
  obtain ⟨hnone, hbusy⟩ := Prod.mk.inj hobs
  have hcalm : Run (Mux.step twoSessions) Mux.Calm Mux.init fullBuffer t := by
    refine hrun.mono fun a l hl => ?_
    rcases l with _ | (_ | _ | _) <;> first | exact trivial | cases hl
  exact ⟨t, hcalm, Option.isNone_iff_eq_none.mp hnone, multiplexed_progress sessions_twoSessions hcalm
    (.inl ⟨0, .inr (of_decide_eq_false hbusy)⟩)⟩

end Wssocks.Wss

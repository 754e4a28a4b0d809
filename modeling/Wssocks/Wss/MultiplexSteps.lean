import Wssocks.Wss.Multiplex

/-!
# The steps of sessions that share the websockets

Every step of a calm run is one of a single session: a client sends a message, a
reader takes one or goes on with it, `establish` or its waiter goes on, `Send` takes
or writes a chunk. Each keeps `MuxInv`, for a book that is updated accordingly.

Results:

* `MuxInv.session`: a step of one session keeps the invariant of all.
* `MuxInv.server_step`: every step of the server keeps the invariant and changes the book as `BookStep` tells.
* `MuxInv.step`: every step keeps the invariant.
-/

namespace Wssocks.Wss

open Wssocks.Lib Wssocks.Pipe

variable {S KSUID : Type} [DecidableEq KSUID] [Inhabited KSUID] {ids : S → List KSUID}
  {b b' : Book S} {sent sent' : S → ℕ} {eof : S → Bool} {s s' : Server ℕ KSUID} {l l' : Links KSUID}
  {p : Parcel S} {rest : List (Parcel S)} {σ τ : S} {f : Flow} {n w c e next : ℕ}

/-! ## Connections -/

section Conn

theorem Book.exists_conn (b : Book S) (next : ℕ) (σ : S) : ∃ c, b.Conn next σ c := by
  by_cases h : ∃ e < next, b.boss e = some σ
  · obtain ⟨e, he, hb⟩ := h
    exact ⟨e, by rwa [Book.Conn, if_pos he]⟩
  · refine ⟨next, ?_⟩
    rw [Book.Conn, if_neg (lt_irrefl _)]
    exact fun e he hb => h ⟨e, he, hb⟩

theorem Book.Conn.ne (hc : b.Conn next τ c) (he : e < next) (hb : b.boss e = some σ) (hτ : τ ≠ σ) : c ≠ e := by
  rintro rfl
  rw [Book.Conn, if_pos he, hb] at hc
  exact hτ (Option.some.inj hc).symm

omit [Inhabited KSUID] in
/-- The connection of a session with an instance of `establish` has the number of this instance. -/
theorem Staff.conn_eq (h : Staff ids b sent s) (he : e < s.nextEst) (hb : b.boss e = some σ)
    (hc : b.Conn s.nextEst σ c) : c = e := by
  unfold Book.Conn at hc
  split_ifs at hc with hlt
  · exact h.single hlt he (hc.trans hb.symm)
  · exact absurd hb (hc e he)

omit [Inhabited KSUID] in
theorem Staff.est_of_boss (h : Staff ids b sent s) (he : e < s.nextEst) (hb : b.boss e = some σ) :
    (ids σ)[0]? = some (s.ests e).id ∧ b.Done sent σ (ids σ).length ∧
      (b.flow σ).lanes.conn = !(s.ests e).pc.dialing := by
  obtain ⟨τ, hτ, hest⟩ := h.est he
  obtain rfl := Option.some.inj (hτ.symm.trans hb)
  exact hest

/-- A session gets its instance. -/
theorem Book.Conn.of_hire (h : (b.hire next σ).Conn (next + 1) τ c) (hnew : ∀ e < next, b.boss e ≠ some σ) :
    b.Conn next τ c := by
  have hold : ∀ e < next, (b.hire next σ).boss e = b.boss e := fun e he => Function.update_of_ne he.ne _ _
  unfold Book.Conn at h ⊢
  split_ifs at h with hlt
  · by_cases hc : c = next
    · subst hc
      have hτ : some σ = some τ := by simpa [Book.hire] using h
      rw [if_neg (lt_irrefl _), ← hτ]
      exact hnew
    · have hlt' : c < next := by omega
      rw [if_pos hlt', ← hold c hlt']
      exact h
  · rw [if_neg (by omega)]
    intro e he
    rw [← hold e he]
    exact h e (by omega)

end Conn

/-! ## Steps of one session -/

/-- The step from `l` to `l'` is one of session `σ`, on no connection or on its own. -/
def StepOf (ids : S → List KSUID) (b : Book S) (next : ℕ) (σ : S) (l l' : Links KSUID) : Prop :=
  ∃ m, (ids σ)[0]? = some m ∧ ((∀ d, Confined (ids σ) m d l l') ∨
    ∃ e < next, b.boss e = some σ ∧ Confined (ids σ) m e l l')

omit [Inhabited KSUID] in
theorem StepOf.confined (h : StepOf ids b next σ l l') (hτ : τ ≠ σ) (hc : b.Conn next τ c) :
    ∃ m ∈ ids σ, ∃ d, c ≠ d ∧ Confined (ids σ) m d l l' := by
  obtain ⟨m, hm, hall | ⟨e, he, hb, hcf⟩⟩ := h
  · exact ⟨m, List.mem_of_getElem? hm, c + 1, (Nat.succ_ne_self c).symm, hall _⟩
  · exact ⟨m, List.mem_of_getElem? hm, e, hc.ne he hb hτ, hcf⟩

omit [Inhabited KSUID] in
theorem StepOf.sends (h : StepOf ids b next σ l l') (r : ℕ) :
    l'.sends r = l.sends r ∨ l'.hub.lane (ids σ) 0 = some r := by
  obtain ⟨m, hm, hcf⟩ := h
  have hsends : l'.sends r = l.sends r ∨ l'.hub.ref? m = some r := by
    rcases hcf with hall | ⟨e, -, -, hcf⟩
    · exact (hall 0).sends r
    · exact hcf.sends r
  simpa [LinkHub.lane, hm] using hsends

/-- A step of one session keeps the invariant of all. -/
theorem MuxInv.session (inv : MuxInv ids b sent eof s) (hids : Sessions ids n)
    (hstep : StepOf ids b s.nextEst σ s.links s'.links)
    (hposted : Posted ids b' sent eof s') (hstaff : Staff ids b' sent s')
    (hconn : ∀ {τ c}, b'.Conn s'.nextEst τ c → b.Conn s.nextEst τ c)
    (hflow : ∀ τ, τ ≠ σ → b'.flow τ = b.flow τ)
    (hlink : ∀ r, (b.flow σ).lanes.link 0 = some r → (b'.flow σ).lanes.link 0 = some r)
    (hdone : ∀ τ, τ ≠ σ → b'.Done sent τ = b.Done sent τ)
    (hseat : ∀ {c}, b'.Conn s'.nextEst σ c →
      Seat (ids σ) (b'.Done sent σ) (sent σ) (eof σ) c (b'.flow σ) s'.links)
    (hsound : s'.links.Sound) (hrun : s'.crashed = false ∧ s'.queues.crashed = false) :
    MuxInv ids b' sent eof s' := by
  refine { toPosted := hposted, toStaff := hstaff, seat := ?_, owned := ?_, sound := hsound, running := hrun }
  · intro τ c hc
    by_cases hτ : τ = σ
    · subst hτ
      exact hseat hc
    · obtain ⟨m, hm, d, hcd, hcf⟩ := hstep.confined hτ (hconn hc)
      rw [hflow τ hτ, hdone τ hτ]
      exact (inv.seat (hconn hc)).confined hcf hm (hids.disjoint hτ) hcd
  · intro q hq
    rcases hstep.sends q with hsame | hlane
    · rw [hsame] at hq
      obtain ⟨τ, hτ⟩ := inv.owned hq
      by_cases hτσ : τ = σ
      · subst hτσ
        exact ⟨τ, hlink q hτ⟩
      · exact ⟨τ, by rw [hflow τ hτσ]; exact hτ⟩
    · obtain ⟨c, hc⟩ := b'.exists_conn s'.nextEst σ
      exact ⟨σ, (hseat hc).live.symm.trans hlane⟩

omit [Inhabited KSUID] in
/-- The instances of `establish` are as before. -/
theorem Staff.same (h : Staff ids b sent s) (hboss : b'.boss = b.boss) (hnext : s'.nextEst = s.nextEst)
    (hests : ∀ e, (s'.ests e).id = (s.ests e).id ∧ (s'.ests e).pc.dialing = (s.ests e).pc.dialing)
    (hdone : ∀ σ, b'.Done sent' σ (ids σ).length ↔ b.Done sent σ (ids σ).length)
    (hconn : ∀ σ, (b'.flow σ).lanes.conn = (b.flow σ).lanes.conn) : Staff ids b' sent' s' where
  est := by
    intro e he
    rw [hnext] at he
    obtain ⟨σ, hb, hid, hd, hc⟩ := h.est he
    refine ⟨σ, by rw [hboss, hb], by rw [(hests e).1, hid], (hdone σ).mpr hd, ?_⟩
    rw [hconn, (hests e).2, hc]
  single := by
    rw [hnext, hboss]
    exact h.single
  bossed := by
    intro σ hd
    rw [hnext, hboss]
    exact h.bossed ((hdone σ).mp hd)
  hired := by
    intro σ hc
    rw [hconn] at hc
    rw [hnext, hboss]
    exact h.hired hc

omit [Inhabited KSUID] in
/-- An instance is started for session `σ`. -/
theorem Staff.hire {id : KSUID} (h : Staff ids b sent s) (hnew : ¬ b.Done sent σ (ids σ).length)
    (hm : (ids σ)[0]? = some id) (hboss : b'.boss = Function.update b.boss s.nextEst (some σ))
    (hnext : s'.nextEst = s.nextEst + 1) (hests : s'.ests = Function.update s.ests s.nextEst (newEst w id))
    (hdone : ∀ τ, b'.Done sent τ (ids τ).length ↔ τ = σ ∨ b.Done sent τ (ids τ).length)
    (hconn : ∀ τ, (b'.flow τ).lanes.conn = (b.flow τ).lanes.conn) : Staff ids b' sent s' := by
  have hfree : ∀ e < s.nextEst, b.boss e ≠ some σ := fun e he hb => hnew (h.est_of_boss he hb).2.1
  have hself : b'.boss s.nextEst = some σ := by rw [hboss, Function.update_self]
  have hold : ∀ {e}, e < s.nextEst → b'.boss e = b.boss e := by
    intro e he
    rw [hboss, Function.update_of_ne he.ne]
  have hcases : ∀ {e}, e < s'.nextEst → e = s.nextEst ∨ e < s.nextEst := fun he => by omega
  refine ⟨?_, ?_, ?_, ?_⟩
  · intro e he
    rcases hcases he with rfl | he
    · refine ⟨σ, hself, ?_, (hdone σ).mpr (.inl rfl), ?_⟩
      · rw [hests, Function.update_self, hm]
        rfl
      · rw [hconn, hests, Function.update_self]
        by_contra hc
        obtain ⟨e, he, hb⟩ := h.hired (Bool.eq_true_of_not_eq_false hc)
        exact hfree e he hb
    · obtain ⟨τ, hb, hid, hd, hc⟩ := h.est he
      refine ⟨τ, (hold he).trans hb, ?_, (hdone τ).mpr (.inr hd), ?_⟩
      · rw [hests, Function.update_of_ne he.ne, hid]
      · rw [hconn, hests, Function.update_of_ne he.ne, hc]
  · intro e e' he he' heq
    rcases hcases he with rfl | he <;> rcases hcases he' with rfl | he'
    · rfl
    · rw [hself, hold he'] at heq
      exact absurd heq.symm (hfree e' he')
    · rw [hself, hold he] at heq
      exact absurd heq (hfree e he)
    · rw [hold he, hold he'] at heq
      exact h.single he he' heq
  · intro τ hd
    rcases (hdone τ).mp hd with rfl | hd
    · exact ⟨s.nextEst, by omega, hself⟩
    · obtain ⟨e, he, hb⟩ := h.bossed hd
      exact ⟨e, by omega, (hold he).trans hb⟩
  · intro τ hc
    rw [hconn] at hc
    obtain ⟨e, he, hb⟩ := h.hired hc
    exact ⟨e, by omega, (hold he).trans hb⟩

section Go

variable [DecidableEq S]

/-- What a step of the server from `s` to `s'` does to the book: no message is handled, one of the handshake is,
    or a chunk, which is then the last one that was put into the link of its lane. -/
inductive BookStep (ids : S → List KSUID) (b : Book S) (s s' : Server ℕ KSUID) : Book S → Prop
  | same : BookStep ids b s s' b
  | go {σ : S} {f : Flow} (hf : f.pushed = (b.flow σ).pushed) : BookStep ids b s s' (b.go σ f)
  | handle {w : ℕ} {p : Parcel S} {rest : List (Parcel S)} {f : Flow} {b' : Book S} (hw : b.wire w = p :: rest)
      (hidle : s'.reader w = .idle) (hwire : b'.wire = (b.handle w).wire)
      (hflow : b'.flow = Function.update b.flow p.owner f) (hf : f.pushed = (b.flow p.owner).pushed) :
      BookStep ids b s s' b'
  | push {w q t : ℕ} {x : Buffer} {p : Parcel S} {rest : List (Parcel S)} (hw : b.wire w = p :: rest)
      (hidle : s'.reader w = .idle) (hr : s.reader w = .select q x) (hnum : p.number = (ids p.owner).length + 1 + t)
      (hlen : ((b.flow p.owner).pushed (t % (ids p.owner).length)).length = t / (ids p.owner).length) :
      BookStep ids b s s' ((b.handle w).go p.owner { b.flow p.owner with
        pushed := Function.update (b.flow p.owner).pushed (t % (ids p.owner).length)
          ((b.flow p.owner).pushed (t % (ids p.owner).length) ++ [x]) })

theorem Book.flow_go : (b.go σ f).flow σ = f := Function.update_self ..

theorem Book.flow_go_of_ne (hτ : τ ≠ σ) : (b.go σ f).flow τ = b.flow τ := Function.update_of_ne hτ ..

/-- No session loses a link. -/
theorem Book.link_go (hlink : ∀ k q, (b.flow σ).lanes.link k = some q → f.lanes.link k = some q) (τ : S) (k q : ℕ)
    (h : (b.flow τ).lanes.link k = some q) : ((b.go σ f).flow τ).lanes.link k = some q := by
  by_cases hτ : τ = σ
  · subst hτ
    rw [Book.flow_go]
    exact hlink k q h
  · rwa [Book.flow_go_of_ne hτ]

theorem Book.conn_go (hconn : f.lanes.conn = (b.flow σ).lanes.conn) (τ : S) :
    ((b.go σ f).flow τ).lanes.conn = (b.flow τ).lanes.conn := by
  by_cases hτ : τ = σ
  · subst hτ
    rw [Book.flow_go, hconn]
  · rw [Book.flow_go_of_ne hτ]

/-- A step of the links of a session that handles no message. -/
theorem MuxInv.go (inv : MuxInv ids b sent eof s) (hids : Sessions ids n)
    (hstep : StepOf ids b s.nextEst σ s.links s'.links)
    (hlink : ∀ k q, (b.flow σ).lanes.link k = some q → f.lanes.link k = some q)
    (hreader : s'.reader = s.reader) (hinbox : s'.inbox = s.inbox) (hnext : s'.nextEst = s.nextEst)
    (hstaff : Staff ids (b.go σ f) sent s')
    (hseat : ∀ {c}, b.Conn s.nextEst σ c → Seat (ids σ) (b.Done sent σ) (sent σ) (eof σ) c f s'.links)
    (hsound : s'.links.Sound) (hrun : s'.crashed = false ∧ s'.queues.crashed = false) :
    MuxInv ids (b.go σ f) sent eof s' := by
  refine inv.session hids hstep (inv.toPosted.same rfl rfl (Book.link_go hlink) hreader hinbox) hstaff ?_
    (fun τ hτ => Book.flow_go_of_ne hτ) ?_ (fun _ _ => rfl) ?_ hsound hrun
  · intro τ c hc
    rwa [hnext] at hc
  · exact fun r hr => Book.link_go hlink σ 0 r hr
  · intro c hc
    rw [Book.flow_go]
    rw [hnext] at hc
    exact hseat hc

/-- The reader of `w` handles a message other than `est`. -/
theorem MuxInv.handled (inv : MuxInv ids b sent eof s) (hids : Sessions ids n) (hw : b.wire w = p :: rest)
    (hidle : s.reader w ≠ .idle) (hnum : p.number ≠ (ids p.owner).length)
    (hstep : StepOf ids b s.nextEst p.owner s.links l')
    (hlink : ∀ k q, (b.flow p.owner).lanes.link k = some q → f.lanes.link k = some q)
    (hconn : f.lanes.conn = (b.flow p.owner).lanes.conn)
    (hseat : ∀ {c}, b.Conn s.nextEst p.owner c →
      Seat (ids p.owner) (fun j => j = p.number ∨ b.Done sent p.owner j) (sent p.owner) (eof p.owner) c f l')
    (hsound : l'.Sound) :
    MuxInv ids ((b.handle w).go p.owner f) sent eof ({ s with links := l' }.goReader w .idle) := by
  have hposted : Posted ids (b.handle w) sent eof (s.goReader w .idle) := inv.toPosted.handle hidle
  have hdone : ∀ τ, ((b.handle w).go p.owner f).Done sent τ (ids τ).length ↔ b.Done sent τ (ids τ).length := by
    intro τ
    show (b.handle w).Done sent τ _ ↔ _
    by_cases hτ : τ = p.owner
    · subst hτ
      rw [inv.toPosted.done_handle hw]
      exact or_iff_right hnum.symm
    · rw [Book.done_handle_of_ne hw hτ]
  refine inv.session hids hstep (hposted.same rfl rfl (Book.link_go hlink) rfl rfl)
    (inv.toStaff.same rfl rfl (fun _ => ⟨rfl, rfl⟩) hdone (Book.conn_go hconn)) (fun hc => hc)
    (fun τ hτ => Book.flow_go_of_ne hτ) (fun r hr => Book.link_go hlink _ 0 r hr)
    (fun τ hτ => Book.done_handle_of_ne hw hτ) ?_ hsound inv.running
  intro c hc
  rw [Book.flow_go, show ((b.handle w).go p.owner f).Done sent p.owner = _ from inv.toPosted.done_handle hw]
  exact hseat hc

end Go

/-! ## The readers -/

section Readers

theorem laneOf_chunk {t : ℕ} : laneOf n (n + 1 + t) = t % n := by
  rw [laneOf, if_neg (by omega), if_neg (by omega), Nat.add_sub_cancel_left]

omit [Inhabited KSUID] in
theorem Server.reader_goReader {r : Reader KSUID} : (s.goReader w r).reader w = r := Function.update_self ..

variable {id m : KSUID} {q : ℕ} {x : Buffer}

/-- The message that a busy reader handles. -/
theorem Posted.busy (h : Posted ids b sent eof s) (hr : s.reader w ≠ .idle) :
    ∃ p rest, b.wire w = p :: rest ∧ (s.inbox w = rest.map fun p => script (ids p.owner) p.number p.chunk) ∧
      Handles (ids p.owner) (b.flow p.owner) p.number p.chunk (s.reader w) := by
  rcases h.lined w with ⟨hidle, -⟩ | hbusy
  · exact absurd hidle hr
  · exact hbusy

/-- The reader of `w` has message `p`, and what comes after it is in the inbox. -/
theorem Posted.busy_mk (h : Posted ids b sent eof s) (hw : b.wire w = p :: rest)
    (hreader : ∀ v, v ≠ w → s'.reader v = s.reader v) (hinbox : ∀ v, v ≠ w → s'.inbox v = s.inbox v)
    (hin : s'.inbox w = rest.map fun p => script (ids p.owner) p.number p.chunk)
    (hr : Handles (ids p.owner) (b.flow p.owner) p.number p.chunk (s'.reader w)) : Posted ids b sent eof s' :=
  { h with
    lined := by
      intro v
      by_cases hv : v = w
      · subst hv
        exact .inr ⟨p, rest, hw, hin, hr⟩
      · rw [hreader v hv, hinbox v hv]
        exact h.lined v }

theorem MuxInv.fresh {r : ℕ} (inv : MuxInv ids b sent eof s) (hr : s.links.hub.next ≤ r) : s.links.sends r = [] := by
  by_contra hne
  obtain ⟨σ, hσ⟩ := inv.owned hne
  obtain ⟨c, hc⟩ := b.exists_conn s.nextEst σ
  have := ((inv.seat hc).merge.tracks.link_lt hσ).2
  omega

/-- `sayhi`, after `serverQueueHub.Add`. -/
theorem MuxInv.hi [DecidableEq S] (inv : MuxInv ids b sent eof s) (hids : Sessions ids n)
    (hr : s.reader w = .hi id m) :
    ∃ b', BookStep ids b s ({ s with links := s.links.add id m }.goReader w .idle) b' ∧
      MuxInv ids b' sent eof ({ s with links := s.links.add id m }.goReader w .idle) := by
  have hidle : s.reader w ≠ .idle := by rw [hr]; nofun
  obtain ⟨p, rest, hw, -, hh⟩ := inv.toPosted.busy hidle
  rw [hr] at hh
  obtain ⟨hid, hm⟩ := hh
  have hp := Posted.head_mem hw
  have hlt : p.number < (ids p.owner).length := (List.getElem?_eq_some_iff.mp hid).1
  have hstep : StepOf ids b s.nextEst p.owner s.links (s.links.add id m) :=
    ⟨m, hm, .inl fun _ => confined_add (List.mem_of_getElem? hm) (List.mem_of_getElem? hid)⟩
  obtain ⟨c, hc⟩ := b.exists_conn s.nextEst p.owner
  refine ⟨_, ?_, inv.handled hids hw hidle hlt.ne hstep
    (f := { b.flow p.owner with lanes := Tracks.added (ids p.owner) (b.flow p.owner).lanes s.links.hub p.number m })
    ?_ rfl ?_ inv.sound.add⟩
  · exact .handle hw Server.reader_goReader rfl rfl rfl
  · exact fun k q hq => (inv.seat hc).link_added (Posted.not_done hp) hq
  · exact fun hc => (inv.seat hc).sayhi (hids.nodup _) hm hid (Posted.not_done hp) (inv.number_lt hp)
      fun r hr => inv.fresh hr

/-- `est`, after `serverQueueHub.SetSort`. -/
theorem MuxInv.est_sort [DecidableEq S] {sorted : List KSUID} (inv : MuxInv ids b sent eof s)
    (hids : Sessions ids n) (hr : s.reader w = .est id sorted) :
    ∃ b', BookStep ids b s (({ s with links := s.links.setSort id sorted }.goReader w .idle).spawn w id) b' ∧
      MuxInv ids b' sent eof
        (({ s with links := s.links.setSort id sorted }.goReader w .idle).spawn w id) := by
  have hidle : s.reader w ≠ .idle := by rw [hr]; nofun
  obtain ⟨p, rest, hw, -, hh⟩ := inv.toPosted.busy hidle
  rw [hr] at hh
  obtain ⟨hnum, hm, rfl⟩ := hh
  have hp := Posted.head_mem hw
  have hpos : 0 < (ids p.owner).length := (List.getElem?_eq_some_iff.mp hm).1
  have hnew : ¬ b.Done sent p.owner (ids p.owner).length := hnum ▸ Posted.not_done hp
  -- the `sayhi` of the master lane came before it on this websocket
  have h0 : b.Done sent p.owner 0 := by
    refine inv.toPosted.prev_done hw (by omega) ?_
    rw [← inv.lane hp, hnum]
    simp [laneOf, hpos]
  have hsent : (ids p.owner).length < sent p.owner := hnum ▸ inv.number_lt hp
  obtain ⟨c, hc⟩ := b.exists_conn s.nextEst p.owner
  obtain ⟨r, hlink⟩ := (inv.seat hc).link_of_done hpos h0
  have href := (inv.seat hc).ref?_master hm hlink
  have hdone : (b.handle w).Done sent p.owner = fun j => j = (ids p.owner).length ∨ b.Done sent p.owner j := by
    rw [inv.toPosted.done_handle hw, hnum]
  have hstep : StepOf ids b s.nextEst p.owner s.links (s.links.setSort id (ids p.owner)) := by
    rw [Links.setSort_eq href]
    exact ⟨id, hm, .inl fun _ => .modify ⟨id, List.mem_of_getElem? hm, href⟩⟩
  have hsound : (s.links.setSort id (ids p.owner)).Sound := by
    rw [Links.setSort_eq href]
    exact inv.sound.modify rfl
  let f : Flow := { b.flow p.owner with lanes := { (b.flow p.owner).lanes with sorted := true } }
  have hflow : (((b.handle w).go p.owner f).hire s.nextEst p.owner).flow p.owner = f := Book.flow_go
  have hposted : Posted ids (((b.handle w).go p.owner f).hire s.nextEst p.owner) sent eof
      (({ s with links := s.links.setSort id (ids p.owner) }.goReader w .idle).spawn w id) :=
    (inv.toPosted.handle hidle).same rfl rfl (Book.link_go fun _ _ hq => hq) rfl rfl
  have hstaff : Staff ids (((b.handle w).go p.owner f).hire s.nextEst p.owner) sent
      (({ s with links := s.links.setSort id (ids p.owner) }.goReader w .idle).spawn w id) := by
    refine inv.toStaff.hire hnew hm rfl rfl rfl (fun τ => ?_) (Book.conn_go rfl)
    show (b.handle w).Done sent τ _ ↔ _
    by_cases hτ : τ = p.owner
    · subst hτ
      simp [hdone]
    · rw [Book.done_handle_of_ne hw hτ]
      exact (or_iff_right hτ).symm
  refine ⟨_, ?_, inv.session hids hstep hposted hstaff (fun hc => ?_) (fun τ hτ => Book.flow_go_of_ne hτ)
    (fun r hr => ?_) (fun τ hτ => Book.done_handle_of_ne hw hτ) (fun {c'} hc => ?_) hsound inv.running⟩
  · exact .handle hw Server.reader_goReader rfl rfl rfl
  · exact Book.Conn.of_hire hc fun e he hb => hnew (inv.est_of_boss he hb).2.1
  · rw [hflow]
    exact hr
  · have hc' : b.Conn s.nextEst p.owner c' :=
      Book.Conn.of_hire hc fun e he hb => hnew (inv.est_of_boss he hb).2.1
    have hseat := (inv.seat hc').est hm h0 hsent
    rw [← hdone] at hseat
    rw [hflow]
    exact hseat

/-- `data`, before the test of `status`. -/
theorem MuxInv.check (inv : MuxInv ids b sent eof s) (hr : s.reader w = .check q x) :
    (s.links.hub.obj q).status ≠ .done ∧ MuxInv ids b sent eof (s.goReader w (.select q x)) := by
  have hidle : s.reader w ≠ .idle := by rw [hr]; nofun
  obtain ⟨p, rest, hw, hin, hh⟩ := inv.toPosted.busy hidle
  rw [hr] at hh
  obtain ⟨t, hnum, hq, hx⟩ := hh
  have hp := Posted.head_mem hw
  obtain ⟨c, hc⟩ := b.exists_conn s.nextEst p.owner
  refine ⟨(inv.seat hc).status_ne_done hq (hnum ▸ Posted.not_done hp) (hnum ▸ inv.number_lt hp), ?_⟩
  refine { inv with toPosted := inv.toPosted.busy_mk hw ?_ (fun _ _ => rfl) hin ?_ }
  · exact fun v hv => Function.update_of_ne hv _ _
  · rw [Server.reader_goReader]
    exact ⟨t, hnum, hq, hx⟩

/-- `data`, at the `select`. -/
theorem MuxInv.select [DecidableEq S] {ok : Bool} (inv : MuxInv ids b sent eof s) (hids : Sessions ids n)
    (hr : s.reader w = .select q x) (hpush : s.links.push q x = some (l', ok)) :
    ∃ b', BookStep ids b s ({ s with links := l' }.goReader w .idle) b' ∧
      MuxInv ids b' sent eof ({ s with links := l' }.goReader w .idle) := by
  have hidle : s.reader w ≠ .idle := by rw [hr]; nofun
  obtain ⟨p, rest, hw, -, hh⟩ := inv.toPosted.busy hidle
  rw [hr] at hh
  obtain ⟨t, hnum, hq, hx⟩ := hh
  have hp := Posted.head_mem hw
  have hpos := hids.length_pos p.owner
  have hprev : ∀ t' < t, t' % (ids p.owner).length = t % (ids p.owner).length →
      b.Done sent p.owner ((ids p.owner).length + 1 + t') := by
    intro t' ht hmod
    refine inv.toPosted.prev_done hw (by omega) ?_
    rw [← inv.lane hp, hnum, laneOf_chunk, laneOf_chunk, hmod]
  have hlast : x.eof = true → eof p.owner = true ∧ sent p.owner = (ids p.owner).length + 1 + t + 1 := by
    intro he
    rw [← hnum]
    exact inv.last hp (by omega) (hx ▸ he)
  obtain ⟨c, hc⟩ := b.exists_conn s.nextEst p.owner
  obtain ⟨m, hm⟩ := hids.exists_master p.owner
  have hstep : StepOf ids b s.nextEst p.owner s.links l' :=
    ⟨m, hm, .inl fun _ => confined_push ((inv.seat hc).merge.registered (inv.seat hc).live hq) hpush⟩
  have hlen := (inv.seat hc).length_pushed hpos (hnum ▸ Posted.not_done hp) hprev
  refine ⟨_, BookStep.push hw Server.reader_goReader hr hnum hlen, inv.handled hids hw hidle (by omega) hstep
    (f := { b.flow p.owner with
      pushed := Function.update (b.flow p.owner).pushed (t % (ids p.owner).length)
        ((b.flow p.owner).pushed (t % (ids p.owner).length) ++ [x]) })
    (fun _ _ hq => hq) rfl (fun hc => ?_) (inv.sound.push hpush)⟩
  rw [hnum]
  exact (inv.seat hc).push hpos (hnum ▸ Posted.not_done hp) hprev hq hpush hlast (hnum ▸ inv.number_lt hp)

/-- The next operation of a reader. -/
theorem MuxInv.reader_step [DecidableEq S] (inv : MuxInv ids b sent eof s) (hids : Sessions ids n)
    (h : ReaderStep s w s') : ∃ b', BookStep ids b s s' b' ∧ MuxInv ids b' sent eof s' := by
  cases h with
  | hi hr => exact inv.hi hids hr
  | est hr => exact inv.est_sort hids hr
  | refuse hr hst => exact absurd hst (inv.check hr).1
  | test hr => exact ⟨b, .same, (inv.check hr).2⟩
  | write hr hp => exact inv.select hids hr hp
  | close hr | hubClose hr | hubDelete hr =>
    -- no session is closed here
    have hbusy : s.reader w ≠ .idle := by
      rw [hr]
      exact fun h0 => (by cases h0)
    obtain ⟨p, rest, -, -, hh⟩ := inv.toPosted.busy hbusy
    rw [hr] at hh
    exact hh.elim

/-- What a reader makes of the first message of its websocket. -/
theorem MuxInv.dispatch {inbox : ℕ → List (Msg KSUID)} (inv : MuxInv ids b sent eof s) (hids : Sessions ids n)
    (hw : b.wire w = p :: rest) :
    ∃ r qs, { s with inbox := inbox }.dispatch w (script (ids p.owner) p.number p.chunk) =
        { s with inbox := inbox, queues := qs }.goReader w r ∧ qs.crashed = false ∧
      Handles (ids p.owner) (b.flow p.owner) p.number p.chunk r := by
  have hp := Posted.head_mem hw
  have hpos := hids.length_pos p.owner
  have hget : ∀ k < (ids p.owner).length, (ids p.owner)[k]? = some ((ids p.owner).getD k default) := by
    intro k hk
    rw [List.getD_eq_getElem?_getD, List.getElem?_eq_getElem hk, Option.getD_some]
  have hhead : (ids p.owner)[0]? = some ((ids p.owner).headD default) := by
    rw [hget 0 hpos]
    cases ids p.owner <;> rfl
  by_cases hlt : p.number < (ids p.owner).length
  · rw [script, if_pos hlt]
    refine ⟨_, _, rfl, ?_, hget _ hlt, hhead⟩
    rw [Queues.crashed_add]
    exact inv.running.2
  · by_cases hnum : p.number = (ids p.owner).length
    · rw [script, if_neg hlt, if_pos hnum]
      exact ⟨_, _, rfl, inv.running.2, hnum, hhead, rfl⟩
    · obtain ⟨t, ht⟩ := Nat.exists_eq_add_of_le (show (ids p.owner).length + 1 ≤ p.number by omega)
      have hlane : w = t % (ids p.owner).length := by
        rw [← inv.lane hp, ht, laneOf_chunk]
      have hk : w < (ids p.owner).length := hlane ▸ Nat.mod_lt _ hpos
      -- the `sayhi` of this lane came before it on this websocket
      have hhi : b.Done sent p.owner w := inv.toPosted.prev_done hw (by omega) (if_pos hk)
      obtain ⟨c, hc⟩ := b.exists_conn s.nextEst p.owner
      obtain ⟨q, hq⟩ := (inv.seat hc).link_of_done hk hhi
      have href : s.links.hub.ref? ((ids p.owner).getD w default) = some q := by
        have := ((inv.seat hc).merge.tracks.live (inv.seat hc).live w).trans hq
        rwa [LinkHub.lane, hget w hk] at this
      have hmsg : script (ids p.owner) p.number p.chunk = .data ((ids p.owner).getD w default)
          (if p.chunk.eof then .eof else .data) p.chunk.data := by
        rw [script, if_neg hlt, if_neg hnum, inv.lane hp]
        rfl
      rw [hmsg]
      refine ⟨.check q (if p.chunk.eof then ⟨true, []⟩ else ⟨false, p.chunk.data⟩), s.queues, ?_, inv.running.2, t,
        ht, hlane ▸ hq, ?_⟩
      · simp only [Server.dispatch, href]
        cases p.chunk.eof <;> rfl
      · cases p.chunk.eof <;> rfl

theorem MuxInv.recv {msg : Msg KSUID} {ms : List (Msg KSUID)} (inv : MuxInv ids b sent eof s)
    (hids : Sessions ids n) (hidle : s.reader w = .idle) (hin : s.inbox w = msg :: ms) :
    MuxInv ids b sent eof ({ s with inbox := Function.update s.inbox w ms }.dispatch w msg) := by
  rcases inv.lined w with ⟨-, hps⟩ | ⟨p, rest, -, -, hh⟩
  · cases hwire : b.wire w with
    | nil =>
      rw [hin, hwire] at hps
      cases hps
    | cons p rest =>
      rw [hin, hwire, List.map_cons] at hps
      obtain ⟨rfl, rfl⟩ := List.cons.inj hps
      obtain ⟨r, qs, heq, hqs, hh⟩ := inv.dispatch hids hwire
      rw [heq]
      refine { inv with toPosted := inv.toPosted.busy_mk hwire ?_ ?_ ?_ ?_, running := ⟨inv.running.1, hqs⟩ }
      · exact fun v hv => Function.update_of_ne hv _ _
      · exact fun v hv => Function.update_of_ne hv _ _
      · exact Function.update_self ..
      · rwa [Server.reader_goReader]
  · rw [hidle] at hh
    exact hh.elim

end Readers

/-! ## `establish` and `Send` -/

section Instances

variable {q i : ℕ}

/-- A step that the invariant does not see. -/
theorem MuxInv.same (inv : MuxInv ids b sent eof s) (hlinks : s'.links = s.links) (hreader : s'.reader = s.reader)
    (hinbox : s'.inbox = s.inbox) (hnext : s'.nextEst = s.nextEst)
    (hests : ∀ e, (s'.ests e).id = (s.ests e).id ∧ (s'.ests e).pc.dialing = (s.ests e).pc.dialing)
    (hrun : s'.crashed = false ∧ s'.queues.crashed = false) : MuxInv ids b sent eof s' where
  toPosted := inv.toPosted.same rfl rfl (fun _ _ _ h => h) hreader hinbox
  toStaff := inv.toStaff.same rfl hnext hests (fun _ => Iff.rfl) fun _ => rfl
  seat := by rw [hlinks, hnext]; exact inv.seat
  owned := by rw [hlinks]; exact inv.owned
  sound := by rw [hlinks]; exact inv.sound
  running := hrun

omit [Inhabited KSUID] in
theorem Server.setEst_same {u : Est ℕ KSUID → Est ℕ KSUID} (hid : (u (s.ests e)).id = (s.ests e).id)
    (hpc : (u (s.ests e)).pc.dialing = (s.ests e).pc.dialing) (i : ℕ) :
    ((s.setEst e u).ests i).id = (s.ests i).id ∧
      ((s.setEst e u).ests i).pc.dialing = (s.ests i).pc.dialing := by
  by_cases hi : i = e
  · subst hi
    simp only [Server.setEst, Function.update_self]
    exact ⟨hid, hpc⟩
  · simp only [Server.setEst, Function.update_of_ne hi, and_self]

omit [Inhabited KSUID] in
/-- An instance has its connection and has called `LinkHub.TrySend`. -/
theorem Staff.connect [DecidableEq S] (h : Staff ids b sent s) (he : e < s.nextEst) (hb : b.boss e = some σ)
    (hf : f.lanes.conn = true) (hnext : s'.nextEst = s.nextEst) (hid : ∀ i, (s'.ests i).id = (s.ests i).id)
    (hpc : (s'.ests e).pc.dialing = false)
    (hother : ∀ i, i ≠ e → (s'.ests i).pc.dialing = (s.ests i).pc.dialing) :
    Staff ids (b.go σ f) sent s' where
  est := by
    intro i hi
    rw [hnext] at hi
    obtain ⟨τ, hτ, hm, hd, hc⟩ := h.est hi
    refine ⟨τ, hτ, by rw [hid, hm], hd, ?_⟩
    by_cases hie : i = e
    · subst hie
      obtain rfl := Option.some.inj (hτ.symm.trans hb)
      rw [Book.flow_go, hf, hpc]
      rfl
    · have hne : τ ≠ σ := by
        rintro rfl
        exact hie (h.single hi he (hτ.trans hb.symm))
      rw [Book.flow_go_of_ne hne, hother i hie, hc]
  single := by
    rw [hnext]
    exact h.single
  bossed := by
    rw [hnext]
    exact h.bossed
  hired := by
    intro τ hc
    rw [hnext]
    by_cases hτ : τ = σ
    · subst hτ
      exact ⟨e, he, hb⟩
    · rw [Book.flow_go_of_ne hτ] at hc
      exact h.hired hc

theorem MuxInv.linkTrySend [DecidableEq S] (inv : MuxInv ids b sent eof s) (hids : Sessions ids n)
    (he : e < s.nextEst) (hpc : (s.ests e).pc = .linkTrySend) :
    ∃ b', (∀ s', BookStep ids b s s' b') ∧
      MuxInv ids b' sent eof ({ s with links := s.links.trySend (s.ests e).id e }.setEst e fun x =>
        { x with pc := .addProxy, waiter := .get }) := by
  obtain ⟨σ, hb, hm, hd, hconn⟩ := inv.est he
  have hc : b.Conn s.nextEst σ e := by rwa [Book.Conn, if_pos he]
  have hsort := (inv.seat hc).sorted hd
  obtain ⟨r, hr⟩ := (inv.seat hc).link_of_sorted hsort
  have href := (inv.seat hc).ref?_master hm hr
  have hnone : (b.flow σ).lanes.conn = false := by
    rw [hconn, hpc]
    rfl
  have hstep : StepOf ids b s.nextEst σ s.links (s.links.trySend (s.ests e).id e) :=
    ⟨_, hm, .inr ⟨e, he, hb, confined_trySend (List.mem_of_getElem? hm) href⟩⟩
  refine ⟨_, ?_, inv.go hids hstep (f := { b.flow σ with lanes := { (b.flow σ).lanes with conn := true } })
    (fun _ _ hq => hq) rfl rfl rfl ?_ (fun hc' => ?_) (inv.sound.trySend href) inv.running⟩
  · exact fun _ => .go rfl
  · refine inv.toStaff.connect he hb rfl rfl (fun i => ?_) ?_ fun i hi => ?_
    · by_cases hi : i = e
      · subst hi
        simp [Server.setEst]
      · simp [Server.setEst, hi]
    · simp [Server.setEst, EstPc.dialing]
    · simp [Server.setEst, hi]
  · obtain rfl := inv.conn_eq he hb hc'
    exact (inv.seat hc).trySend hm hr hsort hnone

/-- The next operation of `establish`, before it waits. -/
theorem MuxInv.est_step [DecidableEq S] (inv : MuxInv ids b sent eof s) (hids : Sessions ids n)
    (he : e < s.nextEst) (hcalm : (s.ests e).pc.beforeWait = true) (h : EstStep s e s') :
    ∃ b', BookStep ids b s s' b' ∧ MuxInv ids b' sent eof s' := by
  cases h with
  | linkTrySend hpc =>
    obtain ⟨b', hb, inv'⟩ := inv.linkTrySend hids he hpc
    exact ⟨b', hb _, inv'⟩
  | addProxy hpc | get hpc =>
    exact ⟨b, .same, inv.same rfl rfl rfl rfl (Server.setEst_same rfl (by rw [hpc]; rfl)) inv.running⟩
  | queueTrySend hpc =>
    refine ⟨b, .same, inv.same rfl rfl rfl rfl (Server.setEst_same rfl (by rw [hpc]; rfl)) ⟨inv.running.1, ?_⟩⟩
    exact Queues.crashed_trySend.trans inv.running.2
  | nilWait hpc | wake hpc | removeProxy hpc | connClose hpc | close hpc =>
    rw [hpc] at hcalm
    cases hcalm

theorem MuxInv.waiter_step (inv : MuxInv ids b sent eof s) (h : WaiterStep s e s') : MuxInv ids b sent eof s' := by
  have hset : ∀ x : Est ℕ KSUID → WaiterPc, MuxInv ids b sent eof (s.setEst e fun y => { y with waiter := x y }) := fun x =>
    inv.same rfl rfl rfl rfl (Server.setEst_same rfl rfl) inv.running
  cases h with
  | get => exact hset fun y => (s.links.hub.ref? y.id).elim .done .wait
  | wake => exact hset fun _ => .done

/-- Whose `Send` it is, and its connection. -/
theorem MuxInv.sender (inv : MuxInv ids b sent eof s) (hne : s.links.sends q ≠ []) :
    ∃ σ e pc, (b.flow σ).lanes.link 0 = some q ∧ e < s.nextEst ∧ b.boss e = some σ ∧ b.Conn s.nextEst σ e ∧
      s.links.sends q = [pc] ∧ MergerAt (ids σ) (b.flow σ) s.links.hub (s.links.socks e).out q pc := by
  obtain ⟨σ, hσ⟩ := inv.owned hne
  obtain ⟨c, hc⟩ := b.exists_conn s.nextEst σ
  obtain ⟨pc, hpc⟩ := List.exists_mem_of_ne_nil _ hne
  obtain ⟨hs, hlaunch, hat⟩ := (inv.seat hc).merge.at_pc hσ hpc
  obtain ⟨e, he, hb⟩ := inv.hired hlaunch.conn
  obtain rfl := inv.conn_eq he hb hc
  exact ⟨σ, c, pc, hσ, he, hb, hc, hs, hat⟩

theorem MuxInv.send [DecidableEq S] (inv : MuxInv ids b sent eof s) (hids : Sessions ids n)
    (h : s.links.send q i .ok = some l') :
    ∃ b', (∀ s', BookStep ids b s s' b') ∧ MuxInv ids b' sent eof { s with links := l' } := by
  have hne : s.links.sends q ≠ [] := by
    intro h0
    simp [Links.send, h0] at h
  obtain ⟨σ, e, pc, hσ, he, hb, hc, hs, hat⟩ := inv.sender hne
  have hseat := inv.seat hc
  have hpos := hids.length_pos σ
  obtain ⟨m, hm⟩ := hids.exists_master σ
  have hread : ∀ r rest, (s.links.sends q)[i]? = some (.read r rest) → ∃ k ∈ ids σ, s.links.hub.ref? k = some r := by
    intro r rest hi
    rw [hs] at hi
    obtain rfl := List.mem_singleton.mp (List.mem_of_getElem? hi)
    obtain ⟨-, -, k, -, -, hk, -⟩ := hat
    exact hseat.merge.registered hseat.live hk
  have hown : ∀ d, (s.links.hub.obj q).conn = some d → d = e := by
    intro d hd
    rw [hseat.merge.tracks.conn hσ] at hd
    split_ifs at hd
    exact (Option.some.inj hd).symm
  have hstep : StepOf ids b s.nextEst σ s.links l' :=
    ⟨m, hm, .inr ⟨e, he, hb,
      confined_send (List.mem_of_getElem? hm) (hseat.ref?_master hm hσ) hread hown h⟩⟩
  obtain ⟨bs, hseat'⟩ := hseat.send hpos hσ h
  have hstaff : Staff ids (b.go σ { b.flow σ with merged := bs }) sent { s with links := l' } :=
    inv.toStaff.same rfl rfl (fun _ => ⟨rfl, rfl⟩) (fun _ => Iff.rfl) (Book.conn_go rfl)
  refine ⟨_, ?_, inv.go hids hstep (f := { b.flow σ with merged := bs }) (fun _ _ hq => hq) rfl rfl rfl hstaff
    (fun hc' => ?_) (inv.sound.send hs h) inv.running⟩
  · exact fun _ => .go rfl
  · obtain rfl := inv.conn_eq he hb hc'
    exact hseat'

/-- `link.Wait()` returns. -/
theorem MuxInv.handoff [DecidableEq S] (inv : MuxInv ids b sent eof s) (hids : Sessions ids n)
    (h : s.links.handoff q i = some l') :
    ∃ b', (∀ s', BookStep ids b s s' b') ∧ MuxInv ids b' sent eof { s with links := l' } := by
  have hne : s.links.sends q ≠ [] := by
    intro h0
    simp [Links.handoff, h0] at h
  obtain ⟨σ, e, pc, hσ, he, hb, hc, -, -⟩ := inv.sender hne
  obtain ⟨m, hm⟩ := hids.exists_master σ
  have hstep : StepOf ids b s.nextEst σ s.links l' :=
    ⟨m, hm, .inl fun _ => confined_handoff ((inv.seat hc).ref?_master hm hσ) h⟩
  have hstaff : Staff ids (b.go σ (b.flow σ)) sent { s with links := l' } :=
    inv.toStaff.same rfl rfl (fun _ => ⟨rfl, rfl⟩) (fun _ => Iff.rfl) (Book.conn_go rfl)
  exact ⟨_, fun _ => .go rfl, inv.go hids hstep (fun _ _ hq => hq) rfl rfl rfl hstaff (fun hc => (inv.seat hc).handoff hσ h)
    (inv.sound.handoff h) inv.running⟩

end Instances

/-! ## Whole runs -/

section Run

variable {t t' : Mux S KSUID}

theorem MuxInv.init : MuxInv ids (Book.init : Book S) (fun _ => 0) (fun _ => false) Server.init where
  lined := fun _ => .inl ⟨rfl, rfl⟩
  lane := nofun
  number_lt := nofun
  time_lt := nofun
  last := nofun
  order := fun _ => List.Pairwise.nil
  program := nofun
  est := nofun
  single := nofun
  bossed := nofun
  hired := nofun
  seat := by
    intro σ c _
    have hdone : (Book.init : Book S).Done (fun _ => 0) σ = fun _ => False := by
      funext j
      simp [Book.Done]
    rw [hdone]
    exact Seat.init
  owned := fun h => absurd rfl h
  sound := Links.Sound.init
  running := ⟨rfl, rfl⟩

theorem MuxInv.post [DecidableEq S] {x : Buffer} (inv : MuxInv ids b sent eof s) (heof : eof σ = false) :
    MuxInv ids (b.post (laneOf (ids σ).length (sent σ)) σ (sent σ) x) (Function.update sent σ (sent σ + 1))
      (Function.update eof σ (decide ((ids σ).length < sent σ) && x.eof))
      (s.arrive (laneOf (ids σ).length (sent σ)) (script (ids σ) (sent σ) x)) where
  toPosted := inv.toPosted.post heof
  toStaff := inv.toStaff.same rfl rfl (fun _ => ⟨rfl, rfl⟩) (fun τ => by rw [Book.done_post]) fun _ => rfl
  seat := by
    intro τ c hc
    have hseat := inv.seat (σ := τ) (c := c) hc
    rw [Book.done_post]
    by_cases hτ : τ = σ
    · subst hτ
      rw [Function.update_self, Function.update_self]
      rw [heof] at hseat
      exact hseat.post
    · rw [Function.update_of_ne hτ, Function.update_of_ne hτ]
      exact hseat
  owned := inv.owned
  sound := inv.sound
  running := inv.running

theorem MuxInv.alive (inv : MuxInv ids b sent eof s) :
    s.crashed = false ∧ s.queues.crashed = false ∧ s.links.crashed = false :=
  ⟨inv.running.1, inv.running.2, inv.sound.running⟩

theorem MuxInv.can {a : ServerLabel ℕ KSUID} {out : Option (ℕ × Msg KSUID)} (inv : MuxInv ids b sent eof s)
    (h : ServerStep s a s' out) : (s.step a).isSome := by
  obtain ⟨h1, h2, h3⟩ := inv.alive
  rw [h.step h1 h2 h3]
  rfl

/-- `Send` can go on. -/
theorem MuxInv.can_send {q i : ℕ} {o : Outcome} (inv : MuxInv ids b sent eof s)
    (h : (s.links.send q i o).isSome) : (s.step (.linkSend q i o)).isSome := by
  obtain ⟨l, hl⟩ := Option.isSome_iff_exists.mp h
  exact inv.can (.linkSend hl)

theorem MuxInv.server_step [DecidableEq S] {a : ServerLabel ℕ KSUID} {out : Option (ℕ × Msg KSUID)}
    (inv : MuxInv ids b sent eof s) (hids : Sessions ids n) (hcalm : s.Calm a) (h : s.step a = some (s', out)) :
    ∃ b', BookStep ids b s s' b' ∧ MuxInv ids b' sent eof s' := by
  cases ServerStep.of_step h with
  | recv hidle hin => exact ⟨b, .same, inv.recv hids hidle hin⟩
  | reader h1 => exact inv.reader_step hids h1
  | waiter he h1 => exact ⟨b, .same, inv.waiter_step h1⟩
  | linkDone he hw h1 =>
    obtain ⟨b', hb, inv'⟩ := inv.handoff hids h1
    exact ⟨b', hb _, inv'.same rfl rfl rfl rfl (Server.setEst_same rfl rfl) inv'.running⟩
  | @dial e o he hpc =>
    obtain rfl : o = .connected := hcalm
    exact ⟨b, .same, inv.same rfl rfl rfl rfl (Server.setEst_same rfl (by rw [hpc]; rfl)) inv.running⟩
  | est he h1 => exact inv.est_step hids he hcalm h1
  | @linkSend q i o l1 h1 =>
    obtain rfl : o = .ok := hcalm
    obtain ⟨b', hb, inv'⟩ := inv.send hids h1
    exact ⟨b', hb _, inv'⟩
  | writeTimeout | disconnect | hubClose | stop | tell | copyRead | copy | copyTimeout | queueSend | queueDone =>
    exact hcalm.elim

theorem MuxInv.step [DecidableEq S] {a : MuxLabel S KSUID} (inv : MuxInv ids b t.sent t.eof t.server)
    (hids : Sessions ids n) (hcalm : t.Calm a) (h : t.step ids a = some t') :
    ∃ b', MuxInv ids b' t'.sent t'.eof t'.server := by
  cases a with
  | post σ x =>
    obtain ⟨heof, h⟩ := Option.ite_none_left_eq_some.mp h
    cases h
    exact ⟨_, inv.post (Bool.eq_false_of_not_eq_true heof)⟩
  | act a =>
    obtain ⟨⟨s', out⟩, hs', rfl⟩ := Option.map_eq_some_iff.mp h
    obtain ⟨b', -, inv'⟩ := inv.server_step hids hcalm hs'
    exact ⟨b', inv'⟩

end Run

end Wssocks.Wss

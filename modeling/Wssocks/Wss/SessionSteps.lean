import Wssocks.Wss.ServerSteps
import Wssocks.Wss.SessionInv

/-!
# The steps of a session

`SessInv.act`: every step of the server keeps `SessInv` and has the effect `SessStep`
on the two directions. One lemma for each operation of the readers, of `establish`
and of the goroutines it starts.
-/

namespace Wssocks.Wss

open Wssocks.Lib Wssocks.Pipe

variable {KSUID : Type} [DecidableEq KSUID] [Inhabited KSUID]
variable {ids : List KSUID} {m : KSUID} {g g' : QueueMap} {f f' : Flow} {seen seen' : Seen}
  {s s' : Session KSUID} {sv sv' : Server ℕ KSUID} {k w : ℕ} {l : ServerLabel ℕ KSUID}

/-! ## Readers -/

section Reader

/-- The reader moves and the links stay. Its chunk stays, or it does not matter any
    more: the lane's first link is gone, or the merger has ended. -/
theorem quiet_goReader {x : Reader KSUID}
    (hh : x.hand = (sv.reader w).hand ∨ sv.links.hub.lane ids w ≠ f.lanes.link w ∨ MergerDone f sv.links) :
    Quiet ids m g f sv g f (sv.goReader w x) := by
  refine Quiet.of_flow (fun sent t => ?_) rfl rfl rfl
  rcases hh with h1 | h1 | h1
  · have h2 : (sv.goReader w x).pend = sv.pend := by
      funext k
      rw [Server.pend_goReader]
      split_ifs with hk
      · subst hk; rw [h1]; rfl
      · rfl
    rw [h2]
    exact t
  · refine t.mono rfl rfl (fun h2 => h2) fun k _ h2 => ⟨h2, ?_⟩
    have hk : k ≠ w := by rintro rfl; exact h1 h2
    rw [Server.pend_goReader, if_neg hk]
  · exact ⟨t.merged, .inl h1⟩

/-- What `Add` launches. -/
theorem SessInv.sends_add {id : KSUID} (inv : SessInv ids m g f seen s) (hm : ids[0]? = some m)
    {r : ℕ} (hr : (Tracks.added ids f.lanes s.server.links.hub w m).link 0 ≠ some r) :
    (s.server.links.add id m).sends r = [] := by
  have hr0 : (Tracks.added ids f.lanes s.server.links.hub w m).link 0 =
      some ((f.lanes.link 0).getD (s.server.links.hub.masterRef m)) := by
    simp [Tracks.added, LaneMap.add]
  have hold : s.server.links.sends r = [] := by
    apply inv.lsolo
    intro h1
    rw [hr0, h1] at hr
    exact hr rfl
  show (Links.launch { s.server.links with hub := (LinkHub.add s.server.links.hub id m).1 }
    (LinkHub.add s.server.links.hub id m).2).sends r = []
  rw [inv.merge.tracks.add_launch hm]
  split_ifs with h1
  · -- the master is launched on its first link
    have h2 : s.server.links.hub.ref? m = f.lanes.link 0 := by
      have := h1.1
      simpa [LinkHub.lane, hm] using this
    have hne : r ≠ s.server.links.hub.masterRef m := by
      rintro rfl
      apply hr
      rw [hr0]
      unfold LinkHub.masterRef
      rw [h2]
      cases f.lanes.link 0 <;> rfl
    exact (Function.update_of_ne hne _ _).trans hold
  · exact hold

/-- The second half of `sayhi`. -/
theorem SessInv.reader_hi {id x : KSUID} (inv : SessInv ids m g f seen s) (hnd : ids.Nodup)
    (hm : ids[0]? = some m) (hr : s.server.reader w = .hi id x) :
    ∃ f', SessInv ids m g f' seen { s with
        server := { s.server with links := s.server.links.add id x }.goReader w .idle } ∧
      Quiet ids m g f s.server g f' ({ s.server with links := s.server.links.add id x }.goReader w .idle) := by
  have hat := inv.reader w
  rw [hr] at hat
  obtain ⟨hid, rfl, hseen⟩ := hat
  have hnot : ¬ s.server.hiDone seen w := fun h1 => h1.2 _ _ hr
  obtain ⟨hc, hnew⟩ := inv.uncounted hnot
  have hw : w < ids.length := (List.getElem?_eq_some_iff.mp hid).1
  have hls := LinkStep.add inv.merge hnd hm hid hnew hc
  have hmerge := inv.merge.add hnd hm hid hnew hc inv.link_fresh
  have hdone : ∀ {k}, k ≠ w →
      (({ s.server with links := s.server.links.add id x }.goReader w .idle).hiDone seen k ↔
        s.server.hiDone seen k) :=
    fun h1 => Server.hiDone_congr (Function.update_of_ne h1 _ _) rfl
  have hlink : ∀ {k}, k ≠ 0 → k ≠ w →
      (Tracks.added ids f.lanes s.server.links.hub w x).link k = f.lanes.link k := by
    intro k h1 h2; simp [Tracks.added, LaneMap.add, h1, h2]
  refine ⟨{ f with lanes := Tracks.added ids f.lanes s.server.links.hub w x }, { inv with
    merge := hmerge, lsolo := fun r h1 => inv.sends_add hm h1, reader := ?_, uncounted := ?_
    linked := ?_, early := ?_, estHi := ?_ }, ?_⟩
  · intro k
    show ReaderAt ids x _ seen _ k (Function.update s.server.reader w .idle k)
    by_cases hk : k = w
    · subst hk; rw [Function.update_self]; trivial
    · rw [Function.update_of_ne hk]
      exact (inv.reader k).mono hls (fun h1 => h1) (fun _ _ h1 => h1) (fun h1 => h1) (fun h1 => h1)
  · intro k h1
    have hk : k ≠ w := by
      rintro rfl
      exact h1 ⟨hseen, by simp [Server.goReader]⟩
    obtain ⟨h2, h3⟩ := inv.uncounted (mt (hdone hk).mpr h1)
    refine ⟨?_, fun h4 => (hlink h4 hk).trans (h3 h4)⟩
    show (Tracks.added ids f.lanes s.server.links.hub w x).counted k = false
    rw [Tracks.counted_added]
    split_ifs
    · rwa [Function.update_of_ne hk]
    · exact h2
  · intro k h1
    by_cases hk : k = w
    · subst hk
      show ((Tracks.added ids f.lanes s.server.links.hub k x).link k).isSome
      by_cases h0 : k = 0 <;> simp [Tracks.added, LaneMap.add, h0]
    · obtain ⟨q, hq⟩ := Option.isSome_iff_exists.mp (inv.linked ((hdone hk).mp h1))
      rw [hls.link hq]; rfl
  · intro h1
    obtain ⟨h2, h3⟩ := inv.early h1
    exact ⟨h2, inv.merge.live_add hnd hm hid hnew h3⟩
  · intro h1
    have h2 := inv.estHi h1
    have h0 : (0 : ℕ) ≠ w := by rintro rfl; exact hnot h2
    exact (hdone h0).mpr h2
  · refine Quiet.of_flow (fun sent t => ?_) rfl rfl rfl
    refine t.mono rfl rfl ?_ fun k hk h1 => ?_
    · -- the merger of a session that still counts lanes was not launched
      rintro ⟨r, pc, h1, h2, h3⟩
      cases inv.merge.merger with
      | idle h4 => rw [h4 r h1] at h2; cases h2
      | run _ _ h4 _ => exact absurd (h4.counted w hw) (by simp [hc])
    · refine ⟨inv.merge.current_of_add hnd hm hid hnew h1, ?_⟩
      rw [Server.pend_goReader]
      split_ifs with h2
      · subst h2; rw [Server.pend, hr]; rfl
      · rfl

/-- The second half of `est`. -/
theorem SessInv.reader_est {id : KSUID} {sorted : List KSUID} (inv : SessInv ids m g f seen s)
    (hm : ids[0]? = some m) (hr : s.server.reader w = .est id sorted) :
    ∃ f', SessInv ids m g f' seen { s with
        server := ({ s.server with links := s.server.links.setSort id sorted }.goReader w .idle).spawn w id } ∧
      Quiet ids m g f s.server g f'
        (({ s.server with links := s.server.links.setSort id sorted }.goReader w .idle).spawn w id) := by
  have hat := inv.reader w
  rw [hr] at hat
  obtain ⟨rfl, rfl, rfl, hseen, hnext⟩ := hat
  obtain ⟨hq, hlive⟩ := inv.early (.inl hnext)
  obtain ⟨hconn, hwr⟩ := inv.blank hnext
  obtain ⟨r, hr0⟩ := Option.isSome_iff_exists.mp (inv.linked (inv.estHi hseen))
  have href : s.server.links.hub.ref? id = some r := by
    simpa [Live, LinkHub.lane, hm] using hlive.trans hr0
  have hset : s.server.links.setSort id sorted =
      s.server.links.modify r fun x => { x with sorted := sorted } := Links.setSort_eq href
  have hls : LinkStep sorted f s.server.links { f with lanes := { f.lanes with sorted := true } }
      (s.server.links.setSort id sorted) := by
    rw [hset]; exact LinkStep.of_eq rfl (fun _ => rfl) rfl
  have hdone : ∀ k, ((({ s.server with links := s.server.links.setSort id sorted }.goReader 0
      .idle).spawn 0 id).hiDone seen k ↔ s.server.hiDone seen k) := by
    intro k
    by_cases hk : k = 0
    · subst hk
      simp [Server.hiDone, Server.spawn, Server.goReader, hr]
    · exact Server.hiDone_congr (Function.update_of_ne hk _ _) rfl
  have hlive' : Live sorted { f with lanes := { f.lanes with sorted := true } }
      (s.server.links.setSort id sorted).hub := by rw [hset]; exact hlive
  have hest : Function.update s.server.ests s.server.nextEst (newEst 0 id) 0 = newEst 0 id := by
    rw [hnext, Function.update_self]
  refine ⟨{ f with lanes := { f.lanes with sorted := true } }, { inv with
    merge := inv.merge.setSort hm hr0 hlive
    lsolo := ?_, reader := ?_
    uncounted := fun h1 => inv.uncounted (mt (hdone _).mpr h1)
    linked := fun h1 => inv.linked ((hdone _).mp h1)
    early := fun _ => ⟨hq, hlive'⟩
    pool := fun h1 => absurd (.inl hnext) (inv.pool h1).2.2.2
    estHi := fun h1 => (hdone _).mpr (inv.estHi h1)
    noEst := fun h1 => absurd (hseen.symm.trans h1) (by simp)
    blank := fun h1 => absurd h1 (Nat.succ_ne_zero _)
    oneEst := by show s.server.nextEst + 1 ≤ 1; omega
    theEst := ?_ }, ?_⟩
  · intro r' h1
    show (s.server.links.setSort id sorted).sends r' = []
    rw [hset]
    exact inv.lsolo r' h1
  · intro k
    show ReaderAt sorted id _ seen _ k (Function.update s.server.reader 0 .idle k)
    by_cases hk : k = 0
    · subst hk; rw [Function.update_self]; trivial
    · rw [Function.update_of_ne hk]
      exact (inv.reader k).mono hls (fun _ => .inl hnext) (fun _ h1 => absurd h1 hk) (fun h1 => h1) (fun h1 => h1)
  · intro _
    show (Function.update s.server.ests s.server.nextEst (newEst 0 id) 0).ws = 0 ∧ _
    refine ⟨?_, ?_, rfl, fun _ => hconn, fun _ => ?_⟩
    · rw [hest]; rfl
    · show (Function.update s.server.ests s.server.nextEst (newEst 0 id) 0).id = id
      rw [hest]; rfl
    · show (Function.update s.server.ests s.server.nextEst (newEst 0 id) 0).writer = none
      rw [hest]; rfl
  · constructor
    · intro sent t
      show Transit sorted _ (s.server.links.setSort id sorted)
        (({ s.server with links := s.server.links.setSort id sorted }.goReader 0 .idle).pend) sent
      rw [hset]
      refine t.mono rfl rfl (fun h1 => h1) fun k _ h1 => ⟨h1, ?_⟩
      rw [Server.pend_goReader]
      split_ifs with h2
      · subst h2; rw [Server.pend, hr]; rfl
      · rfl
    · intro src hg hf
      refine ⟨src, hg, rfl, hf.split, .inr ?_⟩
      have hnone : (Function.update s.server.ests s.server.nextEst (newEst 0 id) 0).writer = none := by
        rw [hest]; rfl
      rcases hf.fed with ⟨q, -, h1, -⟩ | ⟨h1, -⟩
      · rw [hwr] at h1; cases h1
      · refine ⟨h1, fun q h2 => ?_⟩
        have h3 := hnone.symm.trans h2
        cases h3

/-- `link.writeBuf` finds the link closed. -/
theorem SessInv.reader_refuse {q : ℕ} {b : Buffer} (inv : SessInv ids m g f seen s)
    (hr : s.server.reader w = .check q b) (hst : (s.server.links.hub.obj q).status = .done) :
    SessInv ids m g f seen { s with server := s.server.goReader w .idle } ∧
      Quiet ids m g f s.server g f (s.server.goReader w .idle) := by
  have hat := inv.reader w
  rw [hr] at hat
  refine ⟨inv.goReader (by simp [hr]) (by simp) trivial, quiet_goReader (.inr ?_)⟩
  rcases hat.2 with h1 | ⟨rfl, -, -, h1⟩
  · exact .inr (inv.merge.done_of_status h1 hst)
  · exact .inl h1

/-- `link.writeBuf` finds the link open. -/
theorem SessInv.reader_test {q : ℕ} {b : Buffer} (inv : SessInv ids m g f seen s)
    (hr : s.server.reader w = .check q b) :
    SessInv ids m g f seen { s with server := s.server.goReader w (.select q b) } ∧
      Quiet ids m g f s.server g f (s.server.goReader w (.select q b)) := by
  have hat := inv.reader w
  rw [hr] at hat
  exact ⟨inv.goReader (by simp [hr]) (by simp) hat, quiet_goReader (.inl (by rw [hr]; rfl))⟩

/-- `link.writeBuf` puts the chunk into the link, or loses it to a closed one. -/
theorem SessInv.reader_select {q : ℕ} {b : Buffer} (inv : SessInv ids m g f seen s) (hn : 0 < ids.length)
    {l' : Links KSUID} {ok : Bool} (hr : s.server.reader w = .select q b)
    (hpush : s.server.links.push q b = some (l', ok)) :
    ∃ f', SessInv ids m g f' seen { s with server := { s.server with links := l' }.goReader w .idle } ∧
      Quiet ids m g f s.server g f' ({ s.server with links := l' }.goReader w .idle) := by
  have hat := inv.reader w
  rw [hr] at hat
  have hmove : ∀ {f'}, SessInv ids m g f' seen { s with server := { s.server with links := l' } } →
      SessInv ids m g f' seen { s with server := { s.server with links := l' }.goReader w .idle } :=
    fun h1 => h1.goReader (by simp [hr]) (by simp) trivial
  obtain ⟨hw, hq⟩ := hat
  have hpend : ∀ {sv : Server ℕ KSUID}, sv.inbox = s.server.inbox → sv.reader = s.server.reader →
      ∀ k, k ≠ w → (sv.goReader w .idle).pend k = s.server.pend k := by
    intro sv h1 h2 k hk
    rw [Server.pend_goReader, if_neg hk, Server.pend, Server.pend, h1, h2]
  rcases Links.push_cases hpush with ⟨rfl, hopen, ch, -, -, hl'⟩ | ⟨rfl, hclosed, hl'⟩
  · have hls : ∀ {f'}, f'.lanes = f.lanes → LinkStep ids f s.server.links f' l' := by
      intro f' h1
      rw [hl']
      exact LinkStep.of_eq (by rw [h1]) (fun _ => rfl) rfl
    have hsends : ∀ r, f.lanes.link 0 ≠ some r → l'.sends r = s.server.links.sends r := by
      intro r _; rw [hl']; rfl
    have hlive : s.server.Early → Live ids f l'.hub := by
      intro h1; rw [hl']; exact (inv.early h1).2
    rcases hq with hq | ⟨rfl, -, hq, hdead⟩
    · refine ⟨{ f with pushed := Function.update f.pushed w (f.pushed w ++ [b]) },
        hmove (inv.of_links (inv.merge.push hn hq hpush) (hls rfl) rfl hsends hlive),
        Quiet.of_flow (fun sent t => ?_) rfl rfl rfl⟩
      have hhead : s.server.pend w = b :: (s.server.inbox w).filterMap Msg.chunk? := by
        rw [Server.pend, hr]; rfl
      refine t.push inv.merge hq hpush hhead ?_ (hpend rfl rfl)
      rw [Server.pend_goReader, if_pos rfl]; rfl
    · refine ⟨f, hmove (inv.of_links (inv.merge.push_other hq hpush) (hls rfl) rfl hsends hlive),
        Quiet.of_flow (fun sent t => ?_) rfl rfl rfl⟩
      refine t.mono rfl rfl ?_ fun k _ h1 => ?_
      · rintro ⟨r, pc, h1, h2, h3⟩
        exact ⟨r, pc, h1, by rw [← h2, hl']; rfl, h3⟩
      · have h2 : s.server.links.hub.lane ids k = f.lanes.link k := by
          rw [← h1, hl']; rfl
        have hk : k ≠ 0 := by rintro rfl; exact hdead h2
        exact ⟨h2, hpend rfl rfl k hk⟩
  · subst hl'
    refine ⟨f, hmove inv, quiet_goReader (.inr (.inl fun h1 => ?_))⟩
    rcases hq with hq | ⟨rfl, -, -, hdead⟩
    · have := (inv.merge.tracks.open_iff hq).mpr (h1.trans hq)
      rw [hclosed] at this
      cases this
    · exact hdead h1

theorem SessInv.nextEst_of_not_early (inv : SessInv ids m g f seen s) (h : ¬ s.server.Early) :
    s.server.nextEst = 1 := by
  have h1 := inv.oneEst
  have h2 : s.server.nextEst ≠ 0 := fun h3 => h (.inl h3)
  omega

/-- What `Close` leaves alone. -/
structure Closing (sv sv' : Server ℕ KSUID) : Prop where
  reader : sv'.reader = sv.reader
  inbox : sv'.inbox = sv.inbox
  pool : sv'.pool = sv.pool
  nextEst : sv'.nextEst = sv.nextEst
  pc : ∀ e, (sv'.ests e).pc = (sv.ests e).pc
  writer : ∀ e, (sv'.ests e).writer = (sv.ests e).writer

omit [Inhabited KSUID] in
theorem Server.closing {e : ℕ} {id : KSUID} (a : CloseAt) : Closing sv (sv.closeStep e id a).1 := by
  cases a with
  | test =>
    unfold Server.closeStep
    split_ifs
    · exact ⟨rfl, rfl, rfl, rfl, fun _ => rfl, fun _ => rfl⟩
    · refine ⟨rfl, rfl, rfl, rfl, fun e' => ?_, fun e' => ?_⟩
      all_goals
        by_cases he : e' = e
        · subst he; simp [Server.setEst]
        · simp [Server.setEst, he]
  | links => exact ⟨rfl, rfl, rfl, rfl, fun _ => rfl, fun _ => rfl⟩
  | queue => exact ⟨rfl, rfl, rfl, rfl, fun _ => rfl, fun _ => rfl⟩

omit [Inhabited KSUID] in
theorem Closing.early (h : Closing sv sv') : sv'.Early ↔ sv.Early := by
  unfold Server.Early
  rw [h.nextEst, h.pc]

/-- One operation of `Close`. -/
theorem SessInv.closeStep (inv : SessInv ids m g f seen s) (hm : ids[0]? = some m)
    (hne : ¬ s.server.Early) (a : CloseAt) :
    SessInv ids m g f seen { s with server := (s.server.closeStep 0 m a).1 } ∧
      Quiet ids m g f s.server g f (s.server.closeStep 0 m a).1 := by
  have hone := inv.nextEst_of_not_early hne
  have hclosing : Closing s.server (s.server.closeStep 0 m a).1 := Server.closing a
  have hearly := hclosing.early
  cases a with
  | test =>
    simp only [Server.closeStep] at hearly ⊢
    split_ifs at hearly ⊢
    · exact ⟨inv, Quiet.of_flow (flowed_same rfl fun _ => rfl) rfl rfl rfl⟩
    · obtain ⟨h1, h2, h3, h4, h5⟩ := inv.theEst hone
      refine ⟨inv.of_ests hone ?_ ?_ hearly.mp ?_ ?_ fun h6 => ?_,
        Quiet.of_flow (flowed_same rfl fun _ => rfl) rfl ?_ ?_⟩
      · rw [Function.update_self]
      · rw [Function.update_self]
      · rw [Function.update_self]; exact h4
      · rw [Function.update_self]; exact h5
      · obtain ⟨h7, h8, h9, h10⟩ := inv.pool h6
        exact ⟨h7, h8, h9, mt hearly.mp h10⟩
      · simp [Server.setEst]
      · simp [Server.setEst]
  | links =>
    refine ⟨inv.of_links (inv.merge.removeAll hm) (LinkStep.removeAll inv.merge hm) rfl (fun _ _ => rfl)
      (fun h1 => absurd h1 hne), Quiet.of_flow (fun sent t => ?_) rfl rfl rfl⟩
    exact t.mono rfl rfl (fun h1 => h1) fun k _ h1 => ⟨inv.merge.current_of_removeAll h1, rfl⟩
  | queue =>
    refine ⟨inv.of_queues inv.holds.remove (fun _ _ => rfl) (fun h1 => absurd h1 hne),
      Quiet.of_feed rfl rfl rfl fun src hg hf => ⟨src, hg, rfl, hf.split.remove, ?_⟩⟩
    refine hf.fed.imp (fun h1 => h1) ?_
    rintro ⟨h1, h2⟩
    refine ⟨h1, fun q h3 => ?_⟩
    show q < (QueueHub.remove s.server.queues.hub m).next ∧ _
    rw [QueueHub.next_remove]
    exact h2 q h3

/-- One operation of `Close` by a reader. -/
theorem SessInv.reader_close {e : ℕ} {id : KSUID} {a : CloseAt} (inv : SessInv ids m g f seen s)
    (hm : ids[0]? = some m) (hr : s.server.reader w = .close e id a) (sv' : Server ℕ KSUID)
    (hsv : sv' = (s.server.closeStep e id a).1.goReader w ((s.server.closeNext e a).elim .idle (.close e id))) :
    SessInv ids m g f seen { s with server := sv' } ∧ Quiet ids m g f s.server g f sv' := by
  subst hsv
  have hat := inv.reader w
  rw [hr] at hat
  obtain ⟨rfl, rfl, rfl, hne⟩ := hat
  obtain ⟨h1, h2⟩ := inv.closeStep hm hne a
  have hcl : Closing s.server (s.server.closeStep 0 id a).1 := Server.closing a
  have hr' : (s.server.closeStep 0 id a).1.reader 0 = .close 0 id a := by rw [hcl.reader, hr]
  cases ha : s.server.closeNext 0 a with
  | none =>
    exact ⟨h1.goReader (by simp [hr']) (by simp) trivial,
      h2.trans (quiet_goReader (.inl (by rw [hr']; rfl)))⟩
  | some a' =>
    refine ⟨h1.goReader (by simp [hr']) (by simp) ?_, h2.trans (quiet_goReader (.inl (by rw [hr']; rfl)))⟩
    exact ⟨rfl, rfl, rfl, mt hcl.early.mp hne⟩

/-- An id leaves the pool. -/
theorem SessInv.erase (inv : SessInv ids m g f seen s) (hne : ¬ s.server.Early) (w : ℕ) (id : KSUID) :
    SessInv ids m g f seen { s with server := { s.server with
      pool := Function.update s.server.pool w ((s.server.pool w).erase id) } } := by
  have hone := inv.nextEst_of_not_early hne
  obtain ⟨-, -, -, h4, h5⟩ := inv.theEst hone
  refine inv.of_ests hone rfl rfl (fun h1 => h1) h4 h5 ?_
  intro v x e h1
  by_cases hv : v = w
  · subst hv
    rw [Function.update_self] at h1
    by_cases hx : x = id
    · subst hx; simp at h1
    · rw [AList.lookup_erase_ne hx] at h1
      exact inv.pool h1
  · rw [Function.update_of_ne hv] at h1
    exact inv.pool h1

/-- One operation of `Close` inside `hub.Close`. -/
theorem SessInv.reader_hubCloseAt {e : ℕ} {id : KSUID} {a : CloseAt} (inv : SessInv ids m g f seen s)
    (hm : ids[0]? = some m) (hr : s.server.reader w = .hubCloseAt e id a) (a' : CloseAt) :
    SessInv ids m g f seen { s with server := (s.server.closeStep e id a).1.goReader w (.hubCloseAt e id a') } ∧
      Quiet ids m g f s.server g f ((s.server.closeStep e id a).1.goReader w (.hubCloseAt e id a')) := by
  have hat := inv.reader w
  rw [hr] at hat
  obtain ⟨rfl, rfl, rfl, hne⟩ := hat
  obtain ⟨h1, h2⟩ := inv.closeStep hm hne a
  have hcl : Closing s.server (s.server.closeStep 0 id a).1 := Server.closing a
  have hr' : (s.server.closeStep 0 id a).1.reader 0 = .hubCloseAt 0 id a := by rw [hcl.reader, hr]
  exact ⟨h1.goReader (by simp [hr']) (by simp) ⟨rfl, rfl, rfl, mt hcl.early.mp hne⟩,
    h2.trans (quiet_goReader (.inl (by rw [hr']; rfl)))⟩

/-- `hub.Close` deletes the entry. -/
theorem SessInv.reader_hubDelete {e : ℕ} {id : KSUID} {a : CloseAt} (inv : SessInv ids m g f seen s)
    (hm : ids[0]? = some m) (hr : s.server.reader w = .hubCloseAt e id a) (sv' : Server ℕ KSUID)
    (hsv : sv' = { (s.server.closeStep e id a).1 with
      pool := Function.update s.server.pool w ((s.server.pool w).erase id) }.goReader w .hubClose) :
    SessInv ids m g f seen { s with server := sv' } ∧ Quiet ids m g f s.server g f sv' := by
  subst hsv
  have hat := inv.reader w
  rw [hr] at hat
  obtain ⟨rfl, rfl, rfl, hne⟩ := hat
  obtain ⟨h1, h2⟩ := inv.closeStep hm hne a
  have hcl : Closing s.server (s.server.closeStep 0 id a).1 := Server.closing a
  have hr' : (s.server.closeStep 0 id a).1.reader 0 = .hubCloseAt 0 id a := by rw [hcl.reader, hr]
  have h3 := h1.erase (mt hcl.early.mp hne) 0 id
  simp only [hcl.pool] at h3
  have h4 : Quiet ids id g f (s.server.closeStep 0 id a).1 g f { (s.server.closeStep 0 id a).1 with
      pool := Function.update s.server.pool 0 ((s.server.pool 0).erase id) } :=
    Quiet.of_flow (flowed_same rfl fun _ => rfl) rfl rfl rfl
  exact ⟨h3.goReader (by simp [hr']) (by simp) trivial,
    (h2.trans h4).trans (quiet_goReader (.inl (by simp only [hr']; rfl)))⟩

/-- The operations of a reader after the first of a dispatch. -/
theorem SessInv.readerStep (inv : SessInv ids m g f seen s) (hnd : ids.Nodup) (hm : ids[0]? = some m)
    (h : ReaderStep s.server w sv') :
    ∃ f', SessInv ids m g f' seen { s with server := sv' } ∧ Quiet ids m g f s.server g f' sv' := by
  have hn : 0 < ids.length := (List.getElem?_eq_some_iff.mp hm).1
  cases h with
  | hi hr => exact inv.reader_hi hnd hm hr
  | est hr => exact inv.reader_est hm hr
  | refuse hr hst => exact ⟨f, inv.reader_refuse hr hst⟩
  | test hr => exact ⟨f, inv.reader_test hr⟩
  | write hr hp => exact inv.reader_select hn hr hp
  | close hr => exact ⟨f, inv.reader_close hm hr _ rfl⟩
  | hubClose hr => exact ⟨f, inv.reader_hubCloseAt hm hr _⟩
  | hubDelete hr => exact ⟨f, inv.reader_hubDelete hm hr _ rfl⟩

end Reader

/-! ## `establish` -/

section Establish

omit [Inhabited KSUID] in
theorem Server.ests_setEst {u : Est ℕ KSUID → Est ℕ KSUID} :
    (sv.setEst 0 u).ests 0 = u (sv.ests 0) := by simp [Server.setEst]

/-- `establish` or one of its goroutines moves. -/
theorem SessInv.setEst {u : Est ℕ KSUID → Est ℕ KSUID} (inv : SessInv ids m g f seen s)
    (hone : s.server.nextEst = 1) (hws : (u (s.server.ests 0)).ws = (s.server.ests 0).ws)
    (hid : (u (s.server.ests 0)).id = (s.server.ests 0).id)
    (hearly : (s.server.setEst 0 u).Early → s.server.Early)
    (hconn : (u (s.server.ests 0)).pc = .dial ∨ (u (s.server.ests 0)).pc = .linkTrySend →
      f.lanes.conn = false)
    (hwr : (u (s.server.ests 0)).pc.beforeWait = true → (u (s.server.ests 0)).writer = none) :
    SessInv ids m g f seen { s with server := s.server.setEst 0 u } := by
  refine inv.of_ests hone ?_ ?_ hearly ?_ ?_ fun h1 => ?_
  · rw [Function.update_self]; exact hws
  · rw [Function.update_self]; exact hid
  · rw [Function.update_self]; exact hconn
  · rw [Function.update_self]; exact hwr
  · obtain ⟨h2, h3, h4, h5⟩ := inv.pool h1
    exact ⟨h2, h3, h4, mt hearly h5⟩

/-- A move inside `establish` that keeps what was made so far. -/
theorem SessInv.setEst_pc {u : Est ℕ KSUID → Est ℕ KSUID} (inv : SessInv ids m g f seen s)
    (hone : s.server.nextEst = 1) (hws : (u (s.server.ests 0)).ws = (s.server.ests 0).ws)
    (hid : (u (s.server.ests 0)).id = (s.server.ests 0).id)
    (hwr : (u (s.server.ests 0)).writer = (s.server.ests 0).writer)
    (hpc : (u (s.server.ests 0)).pc = (s.server.ests 0).pc) :
    SessInv ids m g f seen { s with server := s.server.setEst 0 u } := by
  obtain ⟨-, -, -, h4, h5⟩ := inv.theEst hone
  refine inv.setEst hone hws hid ?_ ?_ ?_
  · unfold Server.Early
    rw [Server.ests_setEst, hpc]
    exact fun h1 => h1
  · rw [hpc]; exact h4
  · rw [hpc, hwr]; exact h5

theorem quiet_setEst {u : Est ℕ KSUID → Est ℕ KSUID} (hw : (u (sv.ests 0)).writer = (sv.ests 0).writer)
    (hc : (u (sv.ests 0)).copy = (sv.ests 0).copy) : Quiet ids m g f sv g f (sv.setEst 0 u) :=
  Quiet.of_flow (flowed_same rfl fun _ => rfl) rfl (by rw [Server.ests_setEst, hw])
    (by rw [Server.ests_setEst, hc])

omit [Inhabited KSUID] in
theorem Server.not_early (hone : sv.nextEst = 1) (hpc : (sv.ests 0).pc ≠ .dial ∧
    (sv.ests 0).pc ≠ .linkTrySend ∧ (sv.ests 0).pc ≠ .addProxy) : ¬ sv.Early := by
  rintro (h1 | h1 | h1 | h1)
  · omega
  · exact hpc.1 h1
  · exact hpc.2.1 h1
  · exact hpc.2.2 h1

/-- `establish` moves on after the session was made known to `finish`. -/
theorem SessInv.setEst_late {u : Est ℕ KSUID → Est ℕ KSUID} (inv : SessInv ids m g f seen s)
    (hone : s.server.nextEst = 1) (hws : (u (s.server.ests 0)).ws = (s.server.ests 0).ws)
    (hid : (u (s.server.ests 0)).id = (s.server.ests 0).id)
    (hlate : (u (s.server.ests 0)).pc ≠ .dial ∧ (u (s.server.ests 0)).pc ≠ .linkTrySend ∧
      (u (s.server.ests 0)).pc ≠ .addProxy)
    (hwr : (u (s.server.ests 0)).pc.beforeWait = true → (u (s.server.ests 0)).writer = none) :
    SessInv ids m g f seen { s with server := s.server.setEst 0 u } := by
  refine inv.setEst hone hws hid (fun h1 => absurd h1 (Server.not_early hone ?_)) ?_ hwr
  · rw [Server.ests_setEst]; exact hlate
  · rintro (h1 | h1)
    · exact absurd h1 hlate.1
    · exact absurd h1 hlate.2.1

/-- `serverLinkHub.TrySend`. -/
theorem SessInv.est_linkTrySend (inv : SessInv ids m g f seen s) (hm : ids[0]? = some m)
    (hone : s.server.nextEst = 1) (hpc : (s.server.ests 0).pc = .linkTrySend) :
    ∃ f', SessInv ids m g f' seen { s with
        server := { s.server with links := s.server.links.trySend m 0 }.setEst 0 fun x =>
          { x with pc := .addProxy, waiter := .get } } ∧
      Quiet ids m g f s.server g f' ({ s.server with links := s.server.links.trySend m 0 }.setEst 0 fun x =>
          { x with pc := .addProxy, waiter := .get }) := by
  obtain ⟨hws, hid, hsorted, hconn, hwr⟩ := inv.theEst hone
  have hc := hconn (.inr hpc)
  have hearly : s.server.Early := .inr (.inr (.inl hpc))
  obtain ⟨hq, hlive⟩ := inv.early hearly
  obtain ⟨r, hr⟩ : ∃ r, f.lanes.link 0 = some r := by
    cases h0 : f.lanes.link 0 with
    | some r => exact ⟨r, rfl⟩
    | none => rw [(inv.merge.tracks.born h0).1] at hsorted; cases hsorted
  obtain ⟨hmerge, hsr, hsends⟩ := inv.merge.trySend hm hr hlive hsorted hc
  have href : s.server.links.hub.ref? m = some r := by
    simpa [Live, LinkHub.lane, hm] using hlive.trans hr
  have hhub : (s.server.links.trySend m 0).hub =
      s.server.links.hub.modify r fun x => { x with conn := some 0 } := by
    rw [Links.trySend_eq href, Links.hub_launch]; rfl
  have hls : LinkStep ids f s.server.links { f with lanes := { f.lanes with conn := true } }
      (s.server.links.trySend m 0) :=
    LinkStep.of_eq rfl (fun k => by rw [hhub]; rfl) (by rw [hhub]; rfl)
  have hlive' : Live ids { f with lanes := { f.lanes with conn := true } } (s.server.links.trySend m 0).hub := by
    rw [hhub]; exact hlive
  have hest : ({ s.server with links := s.server.links.trySend m 0 }.setEst 0 fun x =>
      { x with pc := .addProxy, waiter := .get }).ests 0 =
        { s.server.ests 0 with pc := .addProxy, waiter := .get } := Server.ests_setEst
  refine ⟨{ f with lanes := { f.lanes with conn := true } }, { inv with
    merge := hmerge, lsolo := ?_, reader := ?_, early := fun _ => ⟨hq, hlive'⟩, pool := ?_, blank := ?_
    theEst := ?_ }, ?_⟩
  · intro r' h1
    show (s.server.links.trySend m 0).sends r' = []
    have hne : r' ≠ r := by rintro rfl; exact h1 hr
    rw [hsends]
    split_ifs
    · rw [Function.update_of_ne hne]; exact inv.lsolo r' h1
    · exact inv.lsolo r' h1
  · intro k
    exact (inv.reader k).mono hls (fun _ => hearly) (fun _ _ h1 => h1) (fun h1 => h1) (fun h1 => h1)
  · intro w x e h1
    exact absurd hearly (inv.pool h1).2.2.2
  · intro h1
    have h2 : s.server.nextEst = 0 := h1
    omega
  · intro _
    simp only [hest]
    refine ⟨hws, hid, hsorted, fun h1 => ?_, fun _ => hwr (by rw [hpc]; rfl)⟩
    rcases h1 with h1 | h1 <;> cases h1
  · refine Quiet.of_flow (fun sent t => ?_) rfl (by rw [hest]) (by rw [hest])
    refine t.mono rfl rfl ?_ fun k _ h1 => ⟨?_, rfl⟩
    · rintro ⟨r', pc, h1, h2, -⟩
      cases hr.symm.trans h1
      rw [hsr] at h2
      cases h2
    · have h2 : (s.server.links.trySend m 0).hub.lane ids k = f.lanes.link k := h1
      rw [hhub] at h2
      exact h2

/-- `hub.addNewProxy`. -/
theorem SessInv.est_addProxy (inv : SessInv ids m g f seen s) (hone : s.server.nextEst = 1)
    (hpc : (s.server.ests 0).pc = .addProxy) :
    SessInv ids m g f seen { s with server := { s.server with
        pool := Function.update s.server.pool 0 ((s.server.pool 0).insert m 0) }.setEst 0 fun x =>
          { x with pc := .queueTrySend } } := by
  obtain ⟨hws, hid, hsorted, hconn, hwr⟩ := inv.theEst hone
  refine inv.of_ests hone ?_ ?_ (fun _ => .inr (.inr (.inr hpc))) ?_ ?_ ?_
  · rw [Function.update_self]
  · rw [Function.update_self]
  · rw [Function.update_self]; rintro (h1 | h1) <;> cases h1
  · rw [Function.update_self]; exact fun _ => hwr (by rw [hpc]; rfl)
  · intro w x e h1
    replace h1 : (Function.update s.server.pool 0 ((s.server.pool 0).insert m 0) w).lookup x = some e := h1
    refine (?_ : w = 0 ∧ x = m ∧ e = 0).imp_right fun h2 => ⟨h2.1, h2.2, Server.not_early hone ?_⟩
    -- an early session had no entry before
    have hold : ∀ v y d, (s.server.pool v).lookup y ≠ some d :=
      fun v y d h2 => (inv.pool h2).2.2.2 (.inr (.inr (.inr hpc)))
    by_cases hw : w = 0
    · subst hw
      rw [Function.update_self] at h1
      by_cases hx : x = m
      · subst hx
        rw [AList.lookup_insert] at h1
        exact ⟨rfl, rfl, (Option.some.inj h1).symm⟩
      · rw [AList.lookup_insert_ne hx] at h1
        exact absurd h1 (hold _ _ _)
    · rw [Function.update_of_ne hw] at h1
      exact absurd h1 (hold _ _ _)
    · simp

/-- `serverQueueHub.TrySend`. -/
theorem SessInv.queueTrySend (inv : SessInv ids m g f seen s) :
    SessInv ids m g f seen { s with server := { s.server with queues := s.server.queues.trySend m } } ∧
      Quiet ids m g f s.server g f { s.server with queues := s.server.queues.trySend m } := by
  have hhub : (s.server.queues.trySend m).hub = s.server.queues.hub := Queues.hub_trySend
  refine ⟨inv.of_queues (hhub ▸ inv.holds) ?_ (fun _ => by rw [hhub]),
    Quiet.of_feed rfl rfl rfl fun src hg hf => ⟨src, hg, rfl, hf.split.trySend, ?_⟩⟩
  · intro q hq
    unfold Queues.trySend
    rw [Queues.sends_launch_ne]
    rw [inv.holds.trySend]
    split_ifs
    · exact hq
    · simp
  · rw [hhub]; exact hf.fed

/-- `serverQueueHub.Get`, and `CopyBuffer` is started. -/
theorem SessInv.est_get (inv : SessInv ids m g f seen s) (hone : s.server.nextEst = 1)
    (hpc : (s.server.ests 0).pc = .get) (sv' : Server ℕ KSUID)
    (hsv : sv' = s.server.setEst 0 fun x => { x with
      pc := .wait, writer := s.server.queues.hub.ref? m
      copy := if (s.server.queues.hub.ref? m).isSome then { pc := .read } else {} }) :
    SessInv ids m g f seen { s with server := sv' } ∧ Quiet ids m g f s.server g f sv' := by
  subst hsv
  obtain ⟨-, -, -, -, hwr⟩ := inv.theEst hone
  refine ⟨inv.setEst_late hone rfl rfl ⟨by simp, by simp, by simp⟩ (fun h1 => by cases h1),
    Quiet.of_feed rfl rfl rfl fun src hg hf => ⟨src, hg, rfl, hf.split, ?_⟩⟩
  rw [Server.ests_setEst]
  -- nothing was copied so far
  have henq : src.enq = [] := by
    rcases hf.fed with ⟨q, -, h1, -⟩ | ⟨h1, -⟩
    · rw [hwr (by rw [hpc]; rfl)] at h1; cases h1
    · exact h1
  cases hq : s.server.queues.hub.ref? m with
  | none => exact .inr ⟨henq, fun q h1 => by cases h1⟩
  | some q =>
    by_cases h1 : src.lanes.queue = some q
    · refine .inl ⟨q, h1, rfl, ?_⟩
      rw [henq]
      exact ⟨rfl, by simp [NoEof]⟩
    · refine .inr ⟨henq, fun q' h2 => ?_⟩
      cases h2
      exact ⟨Registry.ref?_lt hq, h1⟩

/-- An operation of `Close` by `establish` itself. -/
theorem SessInv.est_close {a : CloseAt} (inv : SessInv ids m g f seen s) (hm : ids[0]? = some m)
    (hone : s.server.nextEst = 1) (hpc : (s.server.ests 0).pc = .close a) (sv' : Server ℕ KSUID)
    (hsv : sv' = (s.server.closeStep 0 m a).1.setEst 0 fun x =>
      { x with pc := (s.server.closeNext 0 a).elim .tell .close }) :
    SessInv ids m g f seen { s with server := sv' } ∧ Quiet ids m g f s.server g f sv' := by
  subst hsv
  have hne : ¬ s.server.Early := Server.not_early hone (by rw [hpc]; simp)
  obtain ⟨h1, h2⟩ := inv.closeStep hm hne a
  have hcl : Closing s.server (s.server.closeStep 0 m a).1 := Server.closing a
  refine ⟨h1.setEst_late (hcl.nextEst.trans hone) rfl rfl ?_ ?_, h2.trans (quiet_setEst rfl rfl)⟩
  · cases s.server.closeNext 0 a <;> simp
  · cases s.server.closeNext 0 a <;> exact fun h3 => by cases h3

/-- The operations of `establish` between the dial and `tellClosed`. -/
theorem SessInv.estStep (inv : SessInv ids m g f seen s) (hm : ids[0]? = some m)
    (hone : s.server.nextEst = 1) (h : EstStep s.server 0 sv') :
    ∃ f', SessInv ids m g f' seen { s with server := sv' } ∧ Quiet ids m g f s.server g f' sv' := by
  obtain ⟨hws, hid, hsorted, hconn, hwr⟩ := inv.theEst hone
  cases h with
  | linkTrySend hpc => rw [hid]; exact inv.est_linkTrySend hm hone hpc
  | addProxy hpc =>
    rw [hid, hws]
    exact ⟨f, inv.est_addProxy hone hpc,
      Quiet.of_flow (flowed_same rfl fun _ => rfl) rfl (by simp [Server.setEst]) (by simp [Server.setEst])⟩
  | queueTrySend hpc =>
    rw [hid]
    obtain ⟨h1, h2⟩ := inv.queueTrySend
    exact ⟨f, h1.setEst_late hone rfl rfl ⟨by simp, by simp, by simp⟩ (fun _ => hwr (by rw [hpc]; rfl)),
      h2.trans (quiet_setEst rfl rfl)⟩
  | get hpc => exact ⟨f, inv.est_get hone hpc _ (by rw [hid])⟩
  | nilWait => exact ⟨f, { inv with }, Quiet.of_flow (flowed_same rfl fun _ => rfl) rfl rfl rfl⟩
  | wake =>
    exact ⟨f, inv.setEst_late hone rfl rfl ⟨by simp, by simp, by simp⟩ (fun h1 => by cases h1), quiet_setEst rfl rfl⟩
  | removeProxy hpc =>
    rw [hid, hws]
    have hne : ¬ s.server.Early := Server.not_early hone (by rw [hpc]; simp)
    have h1 := inv.erase hne 0 m
    exact ⟨f, h1.setEst_late hone rfl rfl ⟨by simp, by simp, by simp⟩ (fun h1 => by cases h1),
      Quiet.of_flow (flowed_same rfl fun _ => rfl) rfl (by simp [Server.setEst]) (by simp [Server.setEst])⟩
  | connClose hpc =>
    have hne : ¬ s.server.Early := Server.not_early hone (by rw [hpc]; simp)
    have h1 := inv.of_links (inv.merge.closeConn 0) (LinkStep.of_eq rfl (fun _ => rfl) rfl) rfl
      (fun _ _ => rfl) (fun h2 => absurd h2 hne)
    refine ⟨f, h1.setEst_late hone rfl rfl ⟨by simp, by simp, by simp⟩ (fun h1 => by cases h1),
      Quiet.of_flow (fun sent t => ?_) rfl (by simp [Server.setEst]) (by simp [Server.setEst])⟩
    exact t.mono rfl rfl (fun h2 => h2) fun k _ h2 => ⟨h2, rfl⟩
  | close hpc => exact ⟨f, inv.est_close hm hone hpc _ (by rw [hid])⟩

end Establish

/-! ## The goroutines -/

section Goroutines

/-- A step of `link.Send`. -/
theorem SessInv.linkSend {q i : ℕ} {o : Outcome} {l' : Links KSUID} (inv : SessInv ids m g f seen s)
    (hn : 0 < ids.length) (h : s.server.links.send q i o = some l') :
    ∃ f', SessInv ids m g f' seen { s with server := { s.server with links := l' } } ∧
      Quiet ids m g f s.server g f' { s.server with links := l' } := by
  have hq : f.lanes.link 0 = some q := by
    by_contra h1
    simp [Links.send, inv.lsolo q h1] at h
  obtain ⟨bs, hinv, hdone⟩ := inv.merge.send hn hq h
  have hmv := Links.send_moved h
  have hls : LinkStep ids f s.server.links { f with merged := bs } l' :=
    LinkStep.of_eq rfl hmv.ref? hmv.next
  refine ⟨{ f with merged := bs }, inv.of_links hinv hls rfl ?_ ?_,
    Quiet.of_flow (fun sent t => t.merge hn h hinv hdone) rfl rfl rfl⟩
  · intro r hr
    obtain ⟨pc, h1⟩ := hmv.sends
    have hne : r ≠ q := by rintro rfl; exact hr hq
    rw [h1, Function.update_of_ne hne]
  · intro h1
    have h2 := (inv.early h1).2
    unfold Live LinkHub.lane at h2 ⊢
    cases hid : ids[0]? with
    | none => rw [hid] at h2; exact h2
    | some id => rw [hid] at h2; rw [Option.bind_some, hmv.ref?]; exact h2

/-- A step of `queue.Send`. -/
theorem SessInv.queueSend {q i : ℕ} {o : Outcome} {qs : Queues KSUID (WsWriter ℕ KSUID)}
    {msg : Option (WsWriter ℕ KSUID × Buffer)} (inv : SessInv ids m g f seen s)
    (h : s.server.queues.send q i o = some (qs, msg)) :
    SessInv ids m g f seen { s with server := { s.server with queues := qs } } ∧
      SessStep ids m g f s.server (.queueSend q i o) g f { s.server with queues := qs }
        (msg.map fun wb => WsWriter.msg wb.1 wb.2) := by
  have hq : g.queue = some q := by
    by_contra h1
    exact Queues.sends_ne_nil h (inv.qsolo q h1)
  have hmv := Queues.send_moved h
  refine ⟨inv.of_queues (inv.holds.touched hmv.hub) ?_ (fun _ => hmv.hub.ref? m),
    fun _ => flowed_same rfl fun _ => rfl, ?_⟩
  · intro r hr
    exact hmv.sends_ne (by rintro rfl; exact hr hq)
  · intro src hg hf hok
    subst hg
    obtain ⟨src', h1, h2, h3, h4⟩ := hf.split.send hq (hok q i o rfl) h
    refine ⟨src', h2, ⟨h1, ?_⟩, ?_⟩
    · rw [h2, h3, hmv.hub.next]; exact hf.fed
    · cases h4 with
      | nothing hs => exact .nothing hs
      | chunk hs hb => exact .chunk hs hb

/-- A step of `CopyBuffer`. -/
theorem SessInv.copyStep {q : ℕ} {c : Copy} {qs : Queues KSUID (WsWriter ℕ KSUID)}
    (inv : SessInv ids m g f seen s) (hone : s.server.nextEst = 1) (hw : (s.server.ests 0).writer = some q)
    (h : (s.server.ests 0).copy.step s.server.queues q = some (c, qs)) :
    SessInv ids m g f seen { s with
        server := { s.server with queues := qs }.setEst 0 fun x => { x with copy := c } } ∧
      Quiet ids m g f s.server g f ({ s.server with queues := qs }.setEst 0 fun x => { x with copy := c }) := by
  obtain ⟨ht, hs⟩ := Copy.step_touched h
  have h1 : SessInv ids m g f seen { s with server := { s.server with queues := qs } } :=
    inv.of_queues (inv.holds.touched ht) (fun _ _ => by rw [hs]) (fun _ => ht.ref? m)
  refine ⟨h1.setEst_pc hone rfl rfl rfl rfl, Quiet.of_feed rfl rfl rfl fun src hg hf => ?_⟩
  rcases hf.fed with ⟨q', h2, h3, h4⟩ | ⟨h2, h3⟩
  · cases hw.symm.trans h3
    obtain ⟨enq, h5, h6⟩ := h4.step hf.split h2 h
    exact ⟨{ src with enq := enq }, hg, rfl, h6, .inl ⟨q, h2, by rw [Server.ests_setEst]; exact hw,
      by rw [Server.ests_setEst]; exact h5⟩⟩
  · refine ⟨src, hg, rfl, hf.split.copy_other (h3 q hw).2 h, .inr ⟨h2, fun q' h4 => ?_⟩⟩
    rw [Server.ests_setEst] at h4
    show q' < qs.hub.next ∧ _
    rw [ht.next]
    exact h3 q' h4

/-- A move of `CopyBuffer` that leaves the queue alone. -/
theorem SessInv.copyMove {c : Copy} (inv : SessInv ids m g f seen s) (hone : s.server.nextEst = 1)
    (h : ∀ enq, CopyInv (s.server.ests 0).copy enq → CopyInv c enq) :
    SessInv ids m g f seen { s with server := s.server.setEst 0 fun x => { x with copy := c } } ∧
      Quiet ids m g f s.server g f (s.server.setEst 0 fun x => { x with copy := c }) := by
  refine ⟨inv.setEst_pc hone rfl rfl rfl rfl,
    Quiet.of_feed rfl rfl rfl fun src hg hf => ⟨src, hg, rfl, hf.split, ?_⟩⟩
  rw [Server.ests_setEst]
  refine hf.fed.imp ?_ fun h1 => h1
  rintro ⟨q, h1, h2, h3⟩
  exact ⟨q, h1, h2, h _ h3⟩

/-- `link.Wait()` receives. -/
theorem SessInv.linkDone {q i : ℕ} {l' : Links KSUID} (inv : SessInv ids m g f seen s)
    (hone : s.server.nextEst = 1) (h : s.server.links.handoff q i = some l') :
    SessInv ids m g f seen { s with
        server := { s.server with links := l' }.setEst 0 fun x => { x with waiter := .done } } ∧
      Quiet ids m g f s.server g f
        ({ s.server with links := l' }.setEst 0 fun x => { x with waiter := .done }) := by
  have hq : f.lanes.link 0 = some q := by
    by_contra h1
    simp [Links.handoff, inv.lsolo q h1] at h
  obtain ⟨hinv, -, hdone⟩ := inv.merge.handoff hq h
  obtain ⟨hhub, hsends⟩ := Links.handoff_moved h
  have hls : LinkStep ids f s.server.links f l' :=
    LinkStep.of_eq rfl (fun k => by rw [hhub]) (by rw [hhub])
  have h1 : SessInv ids m g f seen { s with server := { s.server with links := l' } } :=
    inv.of_links hinv hls rfl (fun r hr => hsends r (by rintro rfl; exact hr hq))
      (fun h2 => by rw [hhub]; exact (inv.early h2).2)
  refine ⟨h1.setEst_pc hone rfl rfl rfl rfl, Quiet.of_flow (fun sent t => ⟨t.merged, .inl hdone⟩) rfl ?_ ?_⟩
  · rw [Server.ests_setEst]
  · rw [Server.ests_setEst]

/-- `writer.Wait()` receives. -/
theorem SessInv.queueDone {q i : ℕ} {qs : Queues KSUID (WsWriter ℕ KSUID)}
    (inv : SessInv ids m g f seen s) (hone : s.server.nextEst = 1)
    (h : s.server.queues.handoff q i = some qs) :
    SessInv ids m g f seen { s with
        server := { s.server with queues := qs }.setEst 0 fun x => { x with pc := .removeProxy } } ∧
      Quiet ids m g f s.server g f
        ({ s.server with queues := qs }.setEst 0 fun x => { x with pc := .removeProxy }) := by
  have hq : g.queue = some q := by
    by_contra h1
    simp [Queues.handoff, inv.qsolo q h1] at h
  have hmv := Queues.handoff_moved h
  have h1 : SessInv ids m g f seen { s with server := { s.server with queues := qs } } :=
    inv.of_queues (inv.holds.touched hmv.hub) (fun r hr => hmv.sends_ne (by rintro rfl; exact hr hq))
      (fun _ => hmv.hub.ref? m)
  refine ⟨h1.setEst_late hone rfl rfl ⟨by simp, by simp, by simp⟩ (fun h2 => by cases h2),
    Quiet.of_feed rfl rfl rfl fun src hg hf => ⟨src, hg, rfl, ?_, ?_⟩⟩
  · exact hf.split.handoff (hg ▸ hq) h
  · rw [Server.ests_setEst]
    show _ ∨ (src.enq = [] ∧ ∀ q', _ → q' < qs.hub.next ∧ _)
    rw [hmv.hub.next]
    exact hf.fed

/-- The dial ends. -/
theorem SessInv.dial {o : Dial} (inv : SessInv ids m g f seen s) (hone : s.server.nextEst = 1)
    (hpc : (s.server.ests 0).pc = .dial) :
    SessInv ids m g f seen { s with server := s.server.setEst 0 fun x =>
      { x with pc := if o = .connected then .linkTrySend else .tell } } := by
  obtain ⟨-, -, -, h4, h5⟩ := inv.theEst hone
  exact inv.setEst hone rfl rfl (fun _ => .inr (.inl hpc)) (fun _ => h4 (.inl hpc))
    (fun _ => h5 (by rw [hpc]; rfl))

end Goroutines

/-- Every step of the server keeps the invariant. -/
theorem SessInv.act {out : Option (ℕ × Msg KSUID)} (inv : SessInv ids m g f seen s) (hnd : ids.Nodup)
    (hm : ids[0]? = some m) (h : s.server.step l = some (sv', out)) :
    ∃ g' f' seen', SessInv ids m g' f' seen' { s with server := sv' } ∧
      SessStep ids m g f s.server l g' f' sv' out := by
  have hn : 0 < ids.length := (List.getElem?_eq_some_iff.mp hm).1
  have hone : ∀ {e}, e < s.server.nextEst → s.server.nextEst = 1 ∧ e = 0 := by
    intro e h1
    have := inv.oneEst
    omega
  have quiet : ∀ {f'}, SessInv ids m g f' seen { s with server := sv' } ∧ Quiet ids m g f s.server g f' sv' →
      ∃ g' f' seen', SessInv ids m g' f' seen' { s with server := sv' } ∧
        SessStep ids m g f s.server l g' f' sv' none :=
    fun h1 => ⟨_, _, _, h1.1, h1.2.step⟩
  cases ServerStep.of_step h with
  | recv hidle hin => exact inv.recv hnd hidle hin
  | reader h1 =>
    obtain ⟨f', h2⟩ := inv.readerStep hnd hm h1
    exact quiet h2
  | @writeTimeout w q b hr =>
    refine ⟨g, f, seen, inv.goReader (by simp [hr]) (by simp) trivial, fun h1 => ?_,
      feed_same rfl rfl rfl fun _ => .nothing rfl⟩
    exact (quiet_goReader (m := m) (g := g) (.inr (.inr (h1 w rfl)))).flow
  | disconnect hr | stop hr =>
    exact quiet ⟨inv.goReader (by simp [hr]) (by simp) trivial, quiet_goReader (.inl (by rw [hr]; rfl))⟩
  | hubClose hr he =>
    obtain ⟨h1, h2, h3, h4⟩ := inv.pool he
    exact quiet ⟨inv.goReader (by simp [hr]) (by simp) ⟨h1, h3, h2, h4⟩, quiet_goReader (.inl (by rw [hr]; rfl))⟩
  | dial he hpc =>
    obtain ⟨h1, rfl⟩ := hone he
    exact quiet ⟨inv.dial h1 hpc, quiet_setEst rfl rfl⟩
  | est he h1 =>
    obtain ⟨h2, rfl⟩ := hone he
    obtain ⟨f', h3⟩ := inv.estStep hm h2 h1
    exact quiet h3
  | @tell e ok he =>
    obtain ⟨h1, rfl⟩ := hone he
    obtain ⟨h2, h3, -⟩ := inv.theEst h1
    refine ⟨g, f, seen, inv.setEst_late h1 rfl rfl ⟨by simp, by simp, by simp⟩ (fun h4 => by cases h4),
      fun _ => flowed_same rfl fun _ => rfl, feed_same rfl ?_ ?_ fun _ => ?_⟩
    · rw [Server.ests_setEst]
    · rw [Server.ests_setEst]
    · cases ok with
      | true => rw [h2, h3]; exact .finish rfl
      | false => exact .nothing rfl
  | waiter he h1 =>
    obtain ⟨h2, rfl⟩ := hone he
    cases h1 <;> exact quiet ⟨inv.setEst_pc h2 rfl rfl rfl rfl, quiet_setEst rfl rfl⟩
  | copyRead he h1 =>
    obtain ⟨h2, rfl⟩ := hone he
    exact quiet (inv.copyMove h2 fun _ h3 => h3.read h1)
  | copy he hw h1 =>
    obtain ⟨h2, rfl⟩ := hone he
    exact quiet (inv.copyStep h2 hw h1)
  | copyTimeout he hw h1 =>
    obtain ⟨h2, rfl⟩ := hone he
    exact quiet (inv.copyMove h2 fun _ h3 => h3.timeout h1)
  | linkSend h1 =>
    obtain ⟨f', h2⟩ := inv.linkSend hn h1
    exact quiet h2
  | queueSend h1 => exact ⟨g, f, seen, inv.queueSend h1⟩
  | linkDone he hw h1 =>
    obtain ⟨h2, rfl⟩ := hone he
    exact quiet (inv.linkDone h2 h1)
  | queueDone he hpc hw h1 =>
    obtain ⟨h2, rfl⟩ := hone he
    exact quiet (inv.queueDone h2 h1)

/-! ## Arrivals -/

section Arrive

theorem SessInv.init : SessInv ids m QueueMap.init Flow.init ⟨fun _ => false, false⟩ Session.init where
  holds := Holds.init
  merge := MergeInv.init
  qsolo := fun _ _ => rfl
  lsolo := fun _ _ => rfl
  hi_dom := nofun
  hi_sent := nofun
  est_hi := nofun
  est_sent := nofun
  inbox := fun k => ⟨[], by simp [Session.init, Server.init], by simp, by simp⟩
  reader := fun _ => trivial
  unwritten := fun _ => rfl
  queued := nofun
  uncounted := fun _ => ⟨rfl, fun _ => rfl⟩
  linked := nofun
  early := fun _ => ⟨by simp [Session.init, Server.init, Queues.init, QueueMap.init],
    by simp [Live, LinkHub.lane, Session.init, Server.init, Links.init, Flow.init, LaneMap.init]⟩
  pool := by simp [Session.init, Server.init]
  estHi := nofun
  ordered := nofun
  noEst := fun _ => rfl
  blank := fun _ => ⟨rfl, rfl⟩
  oneEst := Nat.zero_le _
  theEst := nofun

omit [Inhabited KSUID] in
theorem Server.pend_arrive {x : Msg KSUID} : (sv.arrive w x).pend k =
    if k = w then sv.pend w ++ x.chunk?.toList else sv.pend k := by
  show Reader.hand (sv.reader k) ++ (Function.update sv.inbox w (sv.inbox w ++ [x]) k).filterMap Msg.chunk? = _
  split_ifs with hk
  · subst hk
    rw [Function.update_self, List.filterMap_append, Server.pend, List.append_assoc]
    cases hx : x.chunk? <;> simp [hx]
  · rw [Function.update_of_ne hk]; rfl

omit [Inhabited KSUID] in
/-- A message without a chunk. -/
theorem Server.pend_control {x : Msg KSUID} (hx : x.chunk? = none) : (sv.arrive w x).pend = sv.pend := by
  funext k
  rw [Server.pend_arrive, hx]
  split_ifs with hk
  · subst hk; simp
  · rfl

theorem feeds_arrive {src : Source} {x : Msg KSUID} (h : Feeds ids m src sv) :
    Feeds ids m src (sv.arrive w x) := ⟨h.split, h.fed⟩

/-- A message arrives on lane `w`; the other lanes do not change. -/
theorem Mail.arrive {x : Msg KSUID} {hiSent : ℕ → Bool} {estSent : Bool} (mail : Mail ids m seen s)
    (hhi : ∀ k, s.hiSent k = true → hiSent k = true)
    (hdom : ∀ k, hiSent k = true → k < ids.length) (hest : s.estSent = true → estSent = true)
    (hest' : estSent = true → hiSent 0 = true)
    (hbox : InboxAt ids m seen ⟨s.server.arrive w x, hiSent, estSent⟩ w)
    (hother : ∀ k, k ≠ w → hiSent k = s.hiSent k ∧ (k = 0 → estSent = s.estSent)) :
    Mail ids m seen ⟨s.server.arrive w x, hiSent, estSent⟩ where
  hi_dom := fun h1 => hdom _ h1
  hi_sent := fun h1 => hhi _ (mail.hi_sent h1)
  est_hi := hest'
  est_sent := fun h1 => hest (mail.est_sent h1)
  inbox := by
    intro k
    by_cases hk : k = w
    · subst hk; exact hbox
    · obtain ⟨h1, h2⟩ := hother k hk
      exact (mail.inbox k).congr (Function.update_of_ne hk _ _) h1 h2 rfl (fun _ => rfl)

/-- The `sayhi` of a lane arrives. -/
theorem Mail.arrive_sayhi {id : KSUID} (mail : Mail ids m seen s) (hid : ids[w]? = some id)
    (hs : s.hiSent w = false) : Mail ids m seen { s with
      server := s.server.arrive w (.sayhi id m), hiSent := Function.update s.hiSent w true } := by
  have hup : ∀ k, s.hiSent k = true → Function.update s.hiSent w true k = true := by
    intro k h1
    by_cases hk : k = w
    · subst hk; simp
    · rwa [Function.update_of_ne hk]
  refine mail.arrive hup ?_ (fun h1 => h1) (fun h1 => hup 0 (mail.est_hi h1)) ?_
    fun k hk => ⟨Function.update_of_ne hk _ _, fun _ => rfl⟩
  · intro k h1
    by_cases hk : k = w
    · subst hk; exact (List.getElem?_eq_some_iff.mp hid).1
    · rw [Function.update_of_ne hk] at h1; exact mail.hi_dom h1
  · -- nothing came on the lane before its sayhi
    obtain ⟨rest, h1, h2, h3⟩ := mail.inbox w
    have hrest : rest = [] := by
      by_contra h4
      rw [(h3 h4).1] at hs; cases hs
    have hest : ¬ (w = 0 ∧ s.estSent = true ∧ seen.est = false) := by
      rintro ⟨rfl, h4, -⟩
      rw [mail.est_hi h4] at hs; cases hs
    have hseen : seen.hi w = false := by
      by_contra h4
      rw [mail.hi_sent (by simpa using h4)] at hs; cases hs
    refine ⟨[], ?_, by simp, by simp⟩
    show Function.update s.server.inbox w (s.server.inbox w ++ [.sayhi id m]) w = _
    rw [Function.update_self, h1, hrest, if_neg hest, getD_of_getElem? hid]
    simp [hs, hseen]

/-- The `est` arrives. -/
theorem Mail.arrive_est (mail : Mail ids m seen s) (hhi : s.hiSent 0 = true)
    (hs : s.estSent = false) : Mail ids m seen { s with
      server := s.server.arrive 0 (.est m ids), estSent := true } := by
  refine mail.arrive (fun _ h1 => h1) (fun _ h1 => mail.hi_dom h1) (fun _ => rfl) (fun _ => hhi) ?_
    fun k hk => ⟨rfl, fun h1 => absurd h1 hk⟩
  obtain ⟨rest, h1, h2, h3⟩ := mail.inbox 0
  have hrest : rest = [] := by
    by_contra h4
    rw [(h3 h4).2 rfl] at hs; cases hs
  have hseen : seen.est = false := by
    by_contra h4
    rw [mail.est_sent (by simpa using h4)] at hs; cases hs
  refine ⟨[], ?_, by simp, by simp⟩
  show Function.update s.server.inbox 0 (s.server.inbox 0 ++ [.est m ids]) 0 = _
  rw [Function.update_self, h1, hrest]
  simp [hs, hseen]

/-- A later message arrives. -/
theorem Mail.arrive_late {x : Msg KSUID} (mail : Mail ids m seen s) (hx : Late ids m w x)
    (hhi : s.hiSent w = true) (hest : w = 0 → s.estSent = true) :
    Mail ids m seen { s with server := s.server.arrive w x } := by
  refine mail.arrive (fun _ h1 => h1) (fun _ h1 => mail.hi_dom h1) (fun h1 => h1) mail.est_hi ?_
    fun k _ => ⟨rfl, fun _ => rfl⟩
  obtain ⟨rest, h1, h2, h3⟩ := mail.inbox w
  refine ⟨rest ++ [x], ?_, ?_, fun _ => ⟨hhi, hest⟩⟩
  · show Function.update s.server.inbox w (s.server.inbox w ++ [x]) w = _
    rw [Function.update_self, h1]
    simp only [List.append_assoc]
  · intro y hy
    rcases List.mem_append.mp hy with h4 | h4
    · exact h2 y h4
    · cases List.mem_singleton.mp h4; exact hx

/-- An arrival touches nothing but the inboxes. -/
theorem SessInv.arrive {x : Msg KSUID} {hiSent : ℕ → Bool} {estSent : Bool}
    (inv : SessInv ids m g f seen s) (mail : Mail ids m seen ⟨s.server.arrive w x, hiSent, estSent⟩) :
    SessInv ids m g f seen ⟨s.server.arrive w x, hiSent, estSent⟩ := by
  refine { inv with toMail := mail, reader := fun k => ?_ }
  exact (inv.reader k).mono (LinkStep.of_eq rfl (fun _ => rfl) rfl) (fun h1 => h1) (fun _ _ h1 => h1)
    (fun h1 => h1) (fun h1 => h1)

end Arrive

end Wssocks.Wss

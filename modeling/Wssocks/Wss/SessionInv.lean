import Wssocks.Wss.Session

/-!
# The invariant of a session

Every step of the server keeps `SessInv`, and says what it does to the two
directions of the session (`SessStep`).
-/

namespace Wssocks.Wss

open Wssocks.Lib Wssocks.Pipe

variable {KSUID : Type} [DecidableEq KSUID] [Inhabited KSUID]
variable {ids : List KSUID} {m : KSUID} {g g' : QueueMap} {f f' : Flow} {seen seen' : Seen}
  {s s' : Session KSUID} {sv sv' : Server ℕ KSUID} {k w : ℕ} {l : ServerLabel ℕ KSUID}

/-! ## Messages -/

theorem InboxAt.congr (h : InboxAt ids m seen s k) (hin : s'.server.inbox k = s.server.inbox k)
    (hhi : s'.hiSent k = s.hiSent k) (hest : k = 0 → s'.estSent = s.estSent)
    (hseen : seen'.hi k = seen.hi k) (hsest : k = 0 → seen'.est = seen.est) : InboxAt ids m seen' s' k := by
  obtain ⟨rest, h1, h2, h3⟩ := h
  refine ⟨rest, ?_, h2, fun h4 => ⟨hhi.trans (h3 h4).1, fun hk => (hest hk).trans ((h3 h4).2 hk)⟩⟩
  rw [hin, h1, hhi, hseen]
  by_cases hk : k = 0
  · rw [hest hk, hsest hk]
  · simp [hk]

/-- The three kinds of messages at the head of an inbox; in each case the rest is in
    order once the message is seen. -/
theorem InboxAt.cons {x : Msg KSUID} {xs : List (Msg KSUID)} (h : InboxAt ids m seen s k)
    (hin : s.server.inbox k = x :: xs) (hest : s.estSent = true → s.hiSent 0 = true) :
    (x = .sayhi (ids.getD k default) m ∧ s.hiSent k = true ∧ seen.hi k = false ∧
      ∀ s' : Session KSUID, s'.hiSent = s.hiSent → s'.estSent = s.estSent → s'.server.inbox k = xs →
        InboxAt ids m { seen with hi := Function.update seen.hi k true } s' k) ∨
    (x = .est m ids ∧ k = 0 ∧ s.estSent = true ∧ seen.est = false ∧ seen.hi 0 = true ∧
      ∀ s' : Session KSUID, s'.hiSent = s.hiSent → s'.estSent = s.estSent → s'.server.inbox k = xs →
        InboxAt ids m { seen with est := true } s' k) ∨
    (Late ids m k x ∧ seen.hi k = true ∧ (k = 0 → seen.est = true) ∧
      ∀ s' : Session KSUID, s'.hiSent = s.hiSent → s'.estSent = s.estSent → s'.server.inbox k = xs →
        InboxAt ids m seen s' k) := by
  obtain ⟨rest, h1, h2, h3⟩ := h
  rw [hin] at h1
  by_cases hhi : s.hiSent k = true ∧ seen.hi k = false
  · rw [if_pos hhi, List.singleton_append] at h1
    obtain ⟨rfl, rfl⟩ := List.cons.inj h1
    refine .inl ⟨rfl, hhi.1, hhi.2, fun s' e1 e2 e3 => ⟨rest, ?_, h2, ?_⟩⟩
    · rw [e3, e1, e2]; simp
    · rw [e1, e2]; exact h3
  · rw [if_neg hhi, List.nil_append] at h1
    have hseen : s.hiSent k = true → seen.hi k = true := by
      intro h4
      by_contra h5
      exact hhi ⟨h4, by simpa using h5⟩
    by_cases he : k = 0 ∧ s.estSent = true ∧ seen.est = false
    · rw [if_pos he, List.singleton_append] at h1
      obtain ⟨rfl, rfl⟩ := List.cons.inj h1
      obtain ⟨rfl, he1, he2⟩ := he
      refine .inr (.inl ⟨rfl, rfl, he1, he2, hseen (hest he1), fun s' e1 e2 e3 => ⟨xs, ?_, h2, ?_⟩⟩)
      · rw [e3, e1, e2, if_neg hhi]; simp
      · rw [e1, e2]; exact h3
    · rw [if_neg he, List.nil_append] at h1
      subst h1
      obtain ⟨h4, h5⟩ := h3 (by simp)
      refine .inr (.inr ⟨h2 x (by simp), hseen h4, ?_, fun s' e1 e2 e3 => ⟨xs, ?_, ?_, ?_⟩⟩)
      · intro hk
        by_contra h6
        exact he ⟨hk, h5 hk, by simpa using h6⟩
      · rw [e3, e1, e2, if_neg hhi, if_neg he]; rfl
      · exact fun y hy => h2 y (List.mem_cons_of_mem _ hy)
      · intro _; rw [e1, e2]; exact ⟨h4, h5⟩

/-- The mail after an inbox was read. -/
theorem Mail.of_inbox {xs : List (Msg KSUID)} (mail : Mail ids m seen s)
    (hin : sv'.inbox = Function.update s.server.inbox w xs)
    (hhi : ∀ k, seen'.hi k = true → s.hiSent k = true) (hest : seen'.est = true → s.estSent = true)
    (hbox : InboxAt ids m seen' { s with server := sv' } w)
    (hother : ∀ k, k ≠ w → seen'.hi k = seen.hi k ∧ (k = 0 → seen'.est = seen.est)) :
    Mail ids m seen' { s with server := sv' } where
  hi_dom := mail.hi_dom
  hi_sent := fun h => hhi _ h
  est_hi := mail.est_hi
  est_sent := hest
  inbox := by
    intro k
    by_cases hk : k = w
    · subst hk; exact hbox
    · obtain ⟨h1, h2⟩ := hother k hk
      refine (mail.inbox k).congr ?_ rfl (fun _ => rfl) h1 h2
      rw [hin, Function.update_of_ne hk]

/-- The three kinds of messages a reader takes, and the mail that is left. -/
theorem Mail.pop {x : Msg KSUID} {xs : List (Msg KSUID)} (mail : Mail ids m seen s)
    (hin : s.server.inbox w = x :: xs) :
    (x = .sayhi (ids.getD w default) m ∧ w < ids.length ∧ seen.hi w = false ∧
      ∀ sv', sv'.inbox = Function.update s.server.inbox w xs →
        Mail ids m { seen with hi := Function.update seen.hi w true } { s with server := sv' }) ∨
    (x = .est m ids ∧ w = 0 ∧ seen.est = false ∧ seen.hi 0 = true ∧
      ∀ sv', sv'.inbox = Function.update s.server.inbox w xs →
        Mail ids m { seen with est := true } { s with server := sv' }) ∨
    (Late ids m w x ∧ seen.hi w = true ∧ (w = 0 → seen.est = true) ∧
      ∀ sv', sv'.inbox = Function.update s.server.inbox w xs → Mail ids m seen { s with server := sv' }) := by
  have hself : ∀ {sv' : Server ℕ KSUID}, sv'.inbox = Function.update s.server.inbox w xs →
      sv'.inbox w = xs := fun h => by rw [h, Function.update_self]
  rcases (mail.inbox w).cons hin mail.est_hi with ⟨rfl, h1, h2, h3⟩ | ⟨rfl, rfl, h1, h2, h3, h4⟩ |
    ⟨h1, h2, h3, h4⟩
  · refine .inl ⟨rfl, mail.hi_dom h1, h2, fun sv' hsv => ?_⟩
    refine mail.of_inbox hsv (fun k h5 => ?_) mail.est_sent (h3 _ rfl rfl (hself hsv))
      fun k hk => ⟨Function.update_of_ne hk _ _, fun _ => rfl⟩
    by_cases hk : k = w
    · rw [hk]; exact h1
    · have h6 : Function.update seen.hi w true k = true := h5
      rw [Function.update_of_ne hk] at h6
      exact mail.hi_sent h6
  · exact .inr (.inl ⟨rfl, rfl, h2, h3, fun sv' hsv => mail.of_inbox hsv (fun _ h5 => mail.hi_sent h5)
      (fun _ => h1) (h4 _ rfl rfl (hself hsv)) fun k hk => ⟨rfl, fun h5 => absurd h5 hk⟩⟩)
  · exact .inr (.inr ⟨h1, h2, h3, fun sv' hsv => mail.of_inbox hsv (fun _ h5 => mail.hi_sent h5)
      mail.est_sent (h4 _ rfl rfl (hself hsv)) fun _ _ => ⟨rfl, fun _ => rfl⟩⟩)

/-! ## Readers -/

omit [Inhabited KSUID] in
theorem ReaderAt.mono {r : Reader KSUID} (h : ReaderAt ids m f seen sv k r)
    (hls : LinkStep ids f sv.links f' sv'.links) (hearly : sv'.Early → sv.Early)
    (hnext : r ≠ .idle → k = 0 → sv.nextEst = 0 → sv'.nextEst = 0) (hhi : seen.hi k = true → seen'.hi k = true)
    (hest : seen.est = true → seen'.est = true) : ReaderAt ids m f' seen' sv' k r := by
  have hq : ∀ {q}, (k < ids.length ∧ (f.lanes.link k = some q ∨
        (k = 0 ∧ q < sv.links.hub.next ∧ (∀ j, f.lanes.link j ≠ some q) ∧ ¬ Live ids f sv.links.hub))) →
      k < ids.length ∧ (f'.lanes.link k = some q ∨
        (k = 0 ∧ q < sv'.links.hub.next ∧ (∀ j, f'.lanes.link j ≠ some q) ∧ ¬ Live ids f' sv'.links.hub)) := by
    rintro q ⟨h1, h2 | ⟨h2, h3, h4, h5⟩⟩
    · exact ⟨h1, .inl (hls.link h2)⟩
    · refine ⟨h1, .inr ⟨h2, lt_of_lt_of_le h3 hls.next, fun j hj => ?_, mt hls.live h5⟩⟩
      rcases hls.fresh hj with h6 | h6
      · exact h4 j h6
      · omega
  cases r with
  | idle | hubClose | stopped => trivial
  | hi id x => exact ⟨h.1, h.2.1, hhi h.2.2⟩
  | est id sorted => exact ⟨h.1, h.2.1, h.2.2.1, hest h.2.2.2.1, hnext (by simp) h.1 h.2.2.2.2⟩
  | check q b => exact hq h
  | select q b => exact hq h
  | close e id a => exact ⟨h.1, h.2.1, h.2.2.1, mt hearly h.2.2.2⟩
  | hubCloseAt e id a => exact ⟨h.1, h.2.1, h.2.2.1, mt hearly h.2.2.2⟩

/-! ## Steps that leave one direction alone -/

omit [Inhabited KSUID] in
/-- Nothing happens to the links. -/
theorem flowed_same (hl : sv'.links = sv.links) (hp : ∀ k, sv'.pend k = sv.pend k) :
    Flowed ids f sv f sv' := by
  intro sent t
  have hpend : sv'.pend = sv.pend := funext hp
  rw [hl, hpend]
  exact t

/-- Nothing happens to the queues. -/
theorem feed_same {out : Option (ℕ × Msg KSUID)} (hq : sv'.queues = sv.queues)
    (hw : (sv'.ests 0).writer = (sv.ests 0).writer) (hc : (sv'.ests 0).copy = (sv.ests 0).copy)
    (hout : ∀ sent, Emits ids m sent sent out) :
    ∀ src, src.lanes = g → Feeds ids m src sv →
      (∀ q i o, l = .queueSend q i o → sv.queues.SecondOk q i) →
      ∃ src', src'.lanes = g ∧ Feeds ids m src' sv' ∧ Emits ids m src.sent src'.sent out := by
  intro src hg hf _
  exact ⟨src, hg, ⟨hq ▸ hf.split, by rw [hw, hc, hq]; exact hf.fed⟩, hout _⟩

/-- A part of a step that sends nothing and keeps both directions in order. -/
structure Quiet (ids : List KSUID) (m : KSUID) (g : QueueMap) (f : Flow) (sv : Server ℕ KSUID)
    (g' : QueueMap) (f' : Flow) (sv' : Server ℕ KSUID) : Prop where
  flow : Flowed ids f sv f' sv'
  feed : ∀ src, src.lanes = g → Feeds ids m src sv →
    ∃ src', src'.lanes = g' ∧ src'.sent = src.sent ∧ Feeds ids m src' sv'

theorem Quiet.trans {g'' : QueueMap} {f'' : Flow} {sv'' : Server ℕ KSUID}
    (h : Quiet ids m g f sv g' f' sv') (h' : Quiet ids m g' f' sv' g'' f'' sv'') :
    Quiet ids m g f sv g'' f'' sv'' where
  flow := fun sent t => h'.flow sent (h.flow sent t)
  feed := by
    intro src hg hf
    obtain ⟨src1, hg1, hs1, hf1⟩ := h.feed src hg hf
    obtain ⟨src2, hg2, hs2, hf2⟩ := h'.feed src1 hg1 hf1
    exact ⟨src2, hg2, hs2.trans hs1, hf2⟩

theorem Quiet.step (h : Quiet ids m g f sv g' f' sv') : SessStep ids m g f sv l g' f' sv' none where
  flow := fun _ => h.flow
  feed := by
    intro src hg hf _
    obtain ⟨src', hg', hs', hf'⟩ := h.feed src hg hf
    exact ⟨src', hg', hf', .nothing hs'⟩

/-- Nothing happens to the queues and to `CopyBuffer`. -/
theorem Quiet.of_flow (hflow : Flowed ids f sv f' sv') (hq : sv'.queues = sv.queues)
    (hw : (sv'.ests 0).writer = (sv.ests 0).writer) (hc : (sv'.ests 0).copy = (sv.ests 0).copy) :
    Quiet ids m g f sv g f' sv' where
  flow := hflow
  feed := fun src hg hf => ⟨src, hg, rfl, hq ▸ hf.split, by rw [hw, hc, hq]; exact hf.fed⟩

/-- Nothing happens to the links. -/
theorem Quiet.of_feed (hl : sv'.links = sv.links) (hr : sv'.reader = sv.reader) (hi : sv'.inbox = sv.inbox)
    (hfeed : ∀ src, src.lanes = g → Feeds ids m src sv →
      ∃ src', src'.lanes = g' ∧ src'.sent = src.sent ∧ Feeds ids m src' sv') :
    Quiet ids m g f sv g' f sv' where
  flow := flowed_same hl fun k => by rw [Server.pend, Server.pend, hr, hi]
  feed := hfeed

/-! ## `recv` -/

section Recv

omit [Inhabited KSUID] in
theorem Server.pend_of_ne {x : Reader KSUID} {inbox : List (Msg KSUID)} (hk : k ≠ w)
    (hr : sv'.reader = Function.update sv.reader w x)
    (hi : sv'.inbox = Function.update sv.inbox w inbox) : sv'.pend k = sv.pend k := by
  unfold Server.pend
  rw [hr, hi, Function.update_of_ne hk, Function.update_of_ne hk]

omit [Inhabited KSUID] in
theorem Server.pend_goReader {x : Reader KSUID} : (sv.goReader w x).pend k =
    if k = w then x.hand ++ (sv.inbox w).filterMap Msg.chunk? else sv.pend k := by
  show Reader.hand (Function.update sv.reader w x k) ++ (sv.inbox k).filterMap Msg.chunk? = _
  split_ifs with hk
  · subst hk; rw [Function.update_self]
  · rw [Function.update_of_ne hk]; rfl

omit [Inhabited KSUID] in
/-- `hiDone` of the lanes whose reader does not move. -/
theorem Server.hiDone_congr (hr : sv'.reader k = sv.reader k) (hs : seen'.hi k = seen.hi k) :
    sv'.hiDone seen' k ↔ sv.hiDone seen k := by
  unfold Server.hiDone
  rw [hr, hs]

theorem SessInv.queue_fresh (inv : SessInv ids m g f seen s) :
    ∀ q, s.server.queues.hub.next ≤ q → s.server.queues.sends q = [] := by
  intro q hq
  apply inv.qsolo
  intro h1
  have := inv.holds.queue_lt h1
  omega

theorem SessInv.link_fresh (inv : SessInv ids m g f seen s) :
    ∀ r, s.server.links.hub.next ≤ r → s.server.links.sends r = [] := by
  intro r hr
  apply inv.lsolo
  intro h1
  have := (inv.merge.tracks.link_lt h1).2
  omega

omit [DecidableEq KSUID] in
theorem getD_of_getElem? {id : KSUID} (h : ids[k]? = some id) : ids.getD k default = id := by
  rw [List.getD_eq_getElem?_getD, h]; rfl

/-- The first half of `sayhi`. -/
theorem SessInv.recv_sayhi {id : KSUID} {xs : List (Msg KSUID)} (inv : SessInv ids m g f seen s)
    (hnd : ids.Nodup) (hid : ids[w]? = some id) (hidle : s.server.reader w = .idle)
    (hin : s.server.inbox w = .sayhi id m :: xs) (hseen : seen.hi w = false)
    (hmail : ∀ sv', sv'.inbox = Function.update s.server.inbox w xs →
      Mail ids m { seen with hi := Function.update seen.hi w true } { s with server := sv' }) :
    ∃ g' f' seen', SessInv ids m g' f' seen' { s with
        server := { s.server with inbox := Function.update s.server.inbox w xs }.dispatch w (.sayhi id m) } ∧
      SessStep ids m g f s.server l g' f'
        ({ s.server with inbox := Function.update s.server.inbox w xs }.dispatch w (.sayhi id m)) none := by
  have hwr : laneWriter ids w = ⟨w, id⟩ := by unfold laneWriter; rw [getD_of_getElem? hid]
  have hunw := inv.unwritten hseen
  have hadd : s.server.queues.add m id ⟨w, id⟩ = s.server.queues.add m id (laneWriter ids w) := by rw [hwr]
  have hq' : ∀ q, g.queue = some q → (Holds.added g s.server.queues.hub m w).queue = some q := by
    intro q h1; simp [Holds.added, h1]
  have hne : ∀ {k}, k ≠ w → Function.update s.server.reader w (.hi id m) k = s.server.reader k :=
    fun h1 => Function.update_of_ne h1 _ _
  have hseen' : ∀ {k}, k ≠ w → Function.update seen.hi w true k = seen.hi k :=
    fun h1 => Function.update_of_ne h1 _ _
  have hdone : ∀ {k}, k ≠ w →
      (({ s.server with inbox := Function.update s.server.inbox w xs }.dispatch w (.sayhi id m)).hiDone
        { seen with hi := Function.update seen.hi w true } k ↔ s.server.hiDone seen k) :=
    fun h1 => Server.hiDone_congr (hne h1) (hseen' h1)
  have hnot : ¬ s.server.hiDone seen w := by rintro ⟨h1, -⟩; rw [hseen] at h1; cases h1
  refine ⟨Holds.added g s.server.queues.hub m w, f, { seen with hi := Function.update seen.hi w true },
    { inv with
      toMail := hmail _ rfl, holds := ?_, qsolo := ?_, reader := ?_, unwritten := ?_,
      queued := fun _ => rfl, uncounted := ?_, linked := ?_, early := ?_, estHi := ?_ }, ?_⟩
  · show Holds ids m (laneWriter ids) _ (s.server.queues.add m id ⟨w, id⟩).hub
    rw [hadd, Queues.hub_add]
    exact inv.holds.add hnd hid hunw
  · intro q h1
    show (s.server.queues.add m id ⟨w, id⟩).sends q = []
    rw [hadd]
    unfold Queues.add Queues.trySend
    rw [Queues.sends_launch_ne]
    · exact inv.qsolo q fun h2 => h1 (hq' q h2)
    · rw [(inv.holds.add hnd hid hunw).trySend]
      split_ifs
      · exact h1
      · simp
  · intro k
    show ReaderAt ids m f _ _ k (Function.update s.server.reader w (.hi id m) k)
    by_cases hk : k = w
    · subst hk
      rw [Function.update_self]
      exact ⟨hid, rfl, Function.update_self _ _ _⟩
    · rw [hne hk]
      refine (inv.reader k).mono (LinkStep.of_eq rfl (fun _ => rfl) rfl) (fun h1 => h1) (fun _ _ h1 => h1) ?_ (fun h1 => h1)
      intro h1
      exact (hseen' hk).trans h1
  · intro k h1
    by_cases hk : k = w
    · subst hk; simp at h1
    · have h2 := inv.unwritten ((hseen' hk).symm.trans h1)
      simp only [Holds.added]
      split_ifs
      · rwa [Function.update_of_ne hk]
      · exact h2
  · intro k h1
    by_cases hk : k = w
    · subst hk; exact inv.uncounted hnot
    · exact inv.uncounted (mt (hdone hk).mpr h1)
  · intro k h1
    by_cases hk : k = w
    · subst hk
      exact absurd (Function.update_self _ _ _) (h1.2 id m)
    · exact inv.linked ((hdone hk).mp h1)
  · intro h1
    obtain ⟨h2, h3⟩ := inv.early h1
    refine ⟨?_, h3⟩
    show (s.server.queues.add m id ⟨w, id⟩).hub.ref? m = _
    rw [Queues.hub_add, QueueHub.ref?_add, if_pos rfl]
    simp only [Holds.added, QueueHub.masterRef, h2]
    cases g.queue <;> rfl
  · intro h1
    have h2 := inv.estHi h1
    have hw : (0 : ℕ) ≠ w := by rintro rfl; exact hnot h2
    exact (hdone hw).mpr h2
  · constructor
    · intro _
      refine flowed_same rfl fun k => ?_
      by_cases hk : k = w
      · subst hk
        show Reader.hand (Function.update s.server.reader k _ k) ++
          (Function.update s.server.inbox k xs k).filterMap Msg.chunk? = _
        rw [Function.update_self, Function.update_self, Server.pend, hidle, hin]
        rfl
      · exact Server.pend_of_ne hk rfl rfl
    · intro src hg hf _
      subst hg
      refine ⟨{ src with lanes := Holds.added src.lanes s.server.queues.hub m w }, rfl, ⟨?_, ?_⟩, .nothing rfl⟩
      · show SplitInv ids m (laneWriter ids) _ (s.server.queues.add m id ⟨w, id⟩)
        rw [hadd]
        exact hf.split.add hnd hid hunw inv.queue_fresh
      · refine hf.fed.imp ?_ ?_
        · rintro ⟨q, h1, h2, h3⟩
          exact ⟨q, hq' q h1, h2, h3⟩
        · rintro ⟨h1, h2⟩
          refine ⟨h1, fun q h3 => ?_⟩
          obtain ⟨h4, h5⟩ := h2 q h3
          refine ⟨lt_of_lt_of_le h4 ?_, ?_⟩
          · show _ ≤ (s.server.queues.add m id ⟨w, id⟩).hub.next
            rw [Queues.hub_add, QueueHub.add_eq, Registry.next_modify]
            exact Registry.next_le_ensure
          · show some (src.lanes.queue.getD (s.server.queues.hub.masterRef m)) ≠ some q
            cases hq : src.lanes.queue with
            | some a => rw [hq] at h5; exact h5
            | none =>
              have := (inv.holds.unborn hq).1
              simp only [QueueHub.masterRef, this, Option.getD_none, ne_eq, Option.some.injEq]
              omega

/-- The second half of the handshake of the master lane: `est`, up to `SetSort` of the
    queue. -/
theorem SessInv.recv_est {xs : List (Msg KSUID)} (inv : SessInv ids m g f seen s)
    (hidle : s.server.reader 0 = .idle)
    (hin : s.server.inbox 0 = .est m ids :: xs) (hseen : seen.est = false) (hhi : seen.hi 0 = true)
    (hmail : ∀ sv', sv'.inbox = Function.update s.server.inbox 0 xs →
      Mail ids m { seen with est := true } { s with server := sv' }) :
    ∃ g' f' seen', SessInv ids m g' f' seen' { s with
        server := { s.server with inbox := Function.update s.server.inbox 0 xs }.dispatch 0 (.est m ids) } ∧
      SessStep ids m g f s.server l g' f'
        ({ s.server with inbox := Function.update s.server.inbox 0 xs }.dispatch 0 (.est m ids)) none := by
  have hnext := inv.noEst hseen
  obtain ⟨hql, hl⟩ := inv.early (.inl hnext)
  have hdone0 : s.server.hiDone seen 0 := ⟨hhi, by simp [hidle]⟩
  -- the queue of the master exists: its own lane gave it a writer
  obtain ⟨q, hq⟩ := Option.isSome_iff_exists.mp (inv.queued hhi)
  have hr : s.server.queues.hub.ref? m = some q := hql.trans hq
  have hset : s.server.queues.setSort m ids =
      s.server.queues.modify q fun x => { x with sorted := ids } := Queues.setSort_eq hr
  have hdone : ∀ k, (({ s.server with inbox := Function.update s.server.inbox 0 xs }.dispatch 0
      (.est m ids)).hiDone { seen with est := true } k ↔ s.server.hiDone seen k) := by
    intro k
    by_cases hk : k = 0
    · subst hk
      simp only [Server.dispatch, Server.goReader, Server.hiDone, Function.update_self, hidle]
      simp
    · exact Server.hiDone_congr (Function.update_of_ne hk _ _) rfl
  refine ⟨{ g with sorted := true }, f, { seen with est := true }, { inv with
    toMail := hmail _ rfl, holds := ?_, qsolo := ?_, reader := ?_
    uncounted := fun h1 => inv.uncounted (mt (hdone _).mpr h1)
    linked := fun h1 => inv.linked ((hdone _).mp h1)
    early := ?_, estHi := fun _ => (hdone 0).mpr hdone0, ordered := fun _ => rfl, noEst := fun h1 => by cases h1 }, ?_⟩
  · exact inv.holds.setSort hq hr
  · intro q' h1
    show (s.server.queues.setSort m ids).sends q' = []
    rw [hset]
    exact inv.qsolo q' h1
  · intro k
    show ReaderAt ids m f _ _ k (Function.update s.server.reader 0 (.est m ids) k)
    by_cases hk : k = 0
    · subst hk
      rw [Function.update_self]
      exact ⟨rfl, rfl, rfl, rfl, hnext⟩
    · rw [Function.update_of_ne hk]
      exact (inv.reader k).mono (LinkStep.of_eq rfl (fun _ => rfl) rfl) (fun h1 => h1) (fun _ _ h1 => h1) (fun h1 => h1)
        (fun _ => rfl)
  · intro _
    refine ⟨?_, hl⟩
    show (s.server.queues.setSort m ids).hub.ref? m = g.queue
    rw [hset]
    exact hql
  · constructor
    · intro _
      refine flowed_same rfl fun k => ?_
      by_cases hk : k = 0
      · subst hk
        show Reader.hand (Function.update s.server.reader 0 _ 0) ++
          (Function.update s.server.inbox 0 xs 0).filterMap Msg.chunk? = _
        rw [Function.update_self, Function.update_self, Server.pend, hidle, hin]
        rfl
      · exact Server.pend_of_ne hk rfl rfl
    · intro src hg hf _
      subst hg
      refine ⟨{ src with lanes := { src.lanes with sorted := true } }, rfl, ⟨?_, ?_⟩, .nothing rfl⟩
      · exact hf.split.setSort hq hr
      · refine hf.fed.imp (fun h1 => h1) ?_
        rintro ⟨h1, h2⟩
        refine ⟨h1, fun q' h3 => ?_⟩
        show q' < (s.server.queues.setSort m ids).hub.next ∧ _
        rw [hset]
        exact h2 q' h3

/-- The reader of lane `w` moves, possibly past a message. -/
theorem SessInv.go {x : Reader KSUID} (inv : SessInv ids m g f seen s) (box : List (Msg KSUID))
    (hr : ∀ a b, s.server.reader w ≠ .hi a b) (hx : ∀ a b, x ≠ .hi a b)
    (hat : ReaderAt ids m f seen s.server w x)
    (hmail : ∀ sv', sv'.inbox = Function.update s.server.inbox w box →
      Mail ids m seen { s with server := sv' }) :
    SessInv ids m g f seen { s with
      server := { s.server with
        inbox := Function.update s.server.inbox w box
        reader := Function.update s.server.reader w x } } := by
  have hdone : ∀ k, (({ s.server with
      inbox := Function.update s.server.inbox w box
      reader := Function.update s.server.reader w x } : Server ℕ KSUID).hiDone seen k ↔
        s.server.hiDone seen k) := by
    intro k
    by_cases hk : k = w
    · subst hk
      simp only [Server.hiDone, Function.update_self]
      exact ⟨fun h1 => ⟨h1.1, hr⟩, fun h1 => ⟨h1.1, hx⟩⟩
    · exact Server.hiDone_congr (Function.update_of_ne hk _ _) rfl
  refine { inv with
    toMail := hmail _ rfl, reader := ?_
    uncounted := fun h1 => inv.uncounted (mt (hdone _).mpr h1)
    linked := fun h1 => inv.linked ((hdone _).mp h1)
    estHi := fun h1 => (hdone _).mpr (inv.estHi h1) }
  · intro k
    show ReaderAt ids m f seen _ k (Function.update s.server.reader w x k)
    by_cases hk : k = w
    · subst hk
      rw [Function.update_self]
      exact hat.mono (LinkStep.of_eq rfl (fun _ => rfl) rfl) (fun h1 => h1) (fun _ _ h1 => h1) (fun h1 => h1) (fun h1 => h1)
    · rw [Function.update_of_ne hk]
      exact (inv.reader k).mono (LinkStep.of_eq rfl (fun _ => rfl) rfl) (fun h1 => h1) (fun _ _ h1 => h1) (fun h1 => h1)
        (fun h1 => h1)

/-- The reader moves and no message is taken. -/
theorem SessInv.goReader {x : Reader KSUID} (inv : SessInv ids m g f seen s)
    (hr : ∀ a b, s.server.reader w ≠ .hi a b) (hx : ∀ a b, x ≠ .hi a b)
    (hat : ReaderAt ids m f seen s.server w x) :
    SessInv ids m g f seen { s with server := s.server.goReader w x } := by
  have hsame : Function.update s.server.inbox w (s.server.inbox w) = s.server.inbox :=
    Function.update_eq_self _ _
  have hmail : ∀ sv' : Server ℕ KSUID, sv'.inbox = Function.update s.server.inbox w (s.server.inbox w) →
      Mail ids m seen { s with server := sv' } := fun sv' hsv =>
    inv.toMail.of_inbox hsv (fun _ h1 => inv.hi_sent h1) inv.est_sent
      ((inv.inbox w).congr (by rw [hsv, hsame]) rfl (fun _ => rfl) rfl (fun _ => rfl))
      fun _ _ => ⟨rfl, fun _ => rfl⟩
  have h := inv.go (s.server.inbox w) hr hx hat hmail
  rw [hsame] at h
  exact h

omit [Inhabited KSUID] in
/-- What is on the way to lane `w` when its reader moves past the message `x`. -/
theorem pend_pop {r : Reader KSUID} {x : Msg KSUID} {xs : List (Msg KSUID)}
    (hidle : s.server.reader w = .idle) (hin : s.server.inbox w = x :: xs)
    (hsame : r.hand = x.chunk?.toList) :
    ({ s.server with
      inbox := Function.update s.server.inbox w xs
      reader := Function.update s.server.reader w r } : Server ℕ KSUID).pend w = s.server.pend w := by
  have h1 : s.server.pend w = (x :: xs).filterMap Msg.chunk? := by
    rw [Server.pend, hidle, hin]; rfl
  rw [h1]
  show Reader.hand (Function.update s.server.reader w r w) ++
    (Function.update s.server.inbox w xs w).filterMap Msg.chunk? = _
  rw [Function.update_self, Function.update_self, hsame, List.filterMap_cons]
  cases x.chunk? <;> rfl

/-- A message is taken and nothing else happens to the links and queues. -/
theorem SessInv.recv_go {r : Reader KSUID} {x : Msg KSUID} {xs : List (Msg KSUID)}
    (inv : SessInv ids m g f seen s) (hidle : s.server.reader w = .idle)
    (hin : s.server.inbox w = x :: xs) (hx : ∀ a b, r ≠ .hi a b)
    (hat : ReaderAt ids m f seen s.server w r)
    (hmail : ∀ sv', sv'.inbox = Function.update s.server.inbox w xs →
      Mail ids m seen { s with server := sv' })
    (hpend : r.hand = x.chunk?.toList ∨ (r.hand = [] ∧ s.server.links.hub.lane ids w ≠ f.lanes.link w))
    (hsv : sv' = { s.server with
      inbox := Function.update s.server.inbox w xs
      reader := Function.update s.server.reader w r }) :
    ∃ g' f' seen', SessInv ids m g' f' seen' { s with server := sv' } ∧
      SessStep ids m g f s.server l g' f' sv' none := by
  subst hsv
  refine ⟨g, f, seen, inv.go xs (by simp [hidle]) hx hat hmail,
    fun _ => ?_, feed_same rfl rfl rfl fun _ => .nothing rfl⟩
  intro sent t
  refine t.mono rfl rfl (fun h1 => h1) fun k _ h1 => ⟨h1, ?_⟩
  by_cases hk : k = w
  · subst hk
    rcases hpend with h2 | ⟨-, h2⟩
    · exact pend_pop hidle hin h2
    · exact absurd h1 h2
  · exact Server.pend_of_ne hk rfl rfl

/-- The reader of lane `w` takes a message. -/
theorem SessInv.recv {x : Msg KSUID} {xs : List (Msg KSUID)} (inv : SessInv ids m g f seen s)
    (hnd : ids.Nodup) (hidle : s.server.reader w = .idle) (hin : s.server.inbox w = x :: xs) :
    ∃ g' f' seen', SessInv ids m g' f' seen' { s with
        server := { s.server with inbox := Function.update s.server.inbox w xs }.dispatch w x } ∧
      SessStep ids m g f s.server l g' f'
        ({ s.server with inbox := Function.update s.server.inbox w xs }.dispatch w x) none := by
  have hidle' : Function.update s.server.reader w .idle = s.server.reader := by
    rw [← hidle, Function.update_eq_self]
  have hlane : ∀ {id}, ids[w]? = some id → s.server.links.hub.lane ids w = s.server.links.hub.ref? id := by
    intro id hid; simp [LinkHub.lane, hid]
  rcases inv.toMail.pop hin with ⟨rfl, hlt, h2, h3⟩ | ⟨rfl, rfl, h2, h3, h4⟩ | ⟨hlate, hhi, hest, hmail⟩
  · have hid : ids[w]? = some (ids.getD w default) := by
      rw [List.getD_eq_getElem?_getD, List.getElem?_eq_getElem hlt]; rfl
    exact inv.recv_sayhi hnd hid hidle hin h2 h3
  · exact inv.recv_est hidle hin h2 h3 h4
  · have hdone : s.server.hiDone seen w := ⟨hhi, by simp [hidle]⟩
    have stay : ∀ {y : Msg KSUID}, x = y → y.chunk?.toList = [] →
        ∃ g' f' seen', SessInv ids m g' f' seen' { s with
          server := { s.server with inbox := Function.update s.server.inbox w xs } } ∧
        SessStep ids m g f s.server l g' f'
          { s.server with inbox := Function.update s.server.inbox w xs } none := by
      rintro y rfl hy
      refine inv.recv_go (r := .idle) hidle hin (by simp) trivial hmail (.inl hy.symm) ?_
      rw [hidle']
    cases x with
    | beats => exact stay rfl rfl
    | sayhi id y => exact hlate.elim
    | est id y => exact hlate.elim
    | finish id =>
      obtain ⟨rfl, rfl⟩ := hlate
      simp only [Server.dispatch]
      split
      · rename_i e he
        obtain ⟨-, -, rfl, hearly⟩ := inv.pool he
        exact inv.recv_go (r := .close 0 id .test) hidle hin (by simp) ⟨rfl, rfl, rfl, hearly⟩ hmail
          (.inl rfl) rfl
      · exact stay rfl rfl
    | data id tag bytes =>
      simp only [Server.dispatch]
      split
      · rename_i q hq
        have hreg := (hlane hlate).trans hq
        refine inv.recv_go (r := .check q (if tag = .eof then ⟨true, []⟩ else ⟨false, bytes⟩)) hidle hin
          (by simp) ⟨(List.getElem?_eq_some_iff.mp hlate).1, ?_⟩ hmail (.inl rfl) rfl
        rcases inv.merge.tracks.first hreg with h1 | ⟨rfl, h1, -⟩
        · exact .inl h1
        · refine .inr ⟨rfl, Tracks.lane_lt hreg, h1, fun h2 => h1 0 ?_⟩
          exact h2.symm.trans hreg
      · rename_i hq
        have hreg := (hlane hlate).trans hq
        refine inv.recv_go (r := .idle) hidle hin (by simp) trivial hmail (.inr ⟨rfl, ?_⟩) (by rw [hidle'])
        rw [hreg]
        intro h1
        have := inv.linked hdone
        rw [← h1] at this
        cases this

end Recv

/-! ## Steps that touch one part of the server -/

/-- A step of the links that makes no new ones. -/
theorem SessInv.of_links {l' : Links KSUID} (inv : SessInv ids m g f seen s)
    (hm : MergeInv ids 0 f' l') (hls : LinkStep ids f s.server.links f' l') (hlanes : f'.lanes = f.lanes)
    (hsends : ∀ r, f.lanes.link 0 ≠ some r → l'.sends r = s.server.links.sends r)
    (hlive : s.server.Early → Live ids f' l'.hub) :
    SessInv ids m g f' seen { s with server := { s.server with links := l' } } := by
  refine { inv with
    merge := hm, lsolo := ?_, reader := ?_, uncounted := ?_, linked := ?_, early := ?_, blank := ?_
    theEst := ?_ }
  · intro r h1
    rw [hlanes] at h1
    exact (hsends r h1).trans (inv.lsolo r h1)
  · intro k
    exact (inv.reader k).mono hls (fun h1 => h1) (fun _ _ h1 => h1) (fun h1 => h1) (fun h1 => h1)
  · rw [hlanes]; exact inv.uncounted
  · rw [hlanes]; exact inv.linked
  · exact fun h1 => ⟨(inv.early h1).1, hlive h1⟩
  · rw [hlanes]; exact inv.blank
  · rw [hlanes]; exact inv.theEst

/-- A step of the queues that gives no writer and no order. -/
theorem SessInv.of_queues {qs : Queues KSUID (WsWriter ℕ KSUID)} (inv : SessInv ids m g f seen s)
    (hh : Holds ids m (laneWriter ids) g qs.hub)
    (hsends : ∀ q, g.queue ≠ some q → qs.sends q = s.server.queues.sends q)
    (href : s.server.Early → qs.hub.ref? m = s.server.queues.hub.ref? m) :
    SessInv ids m g f seen { s with server := { s.server with queues := qs } } := by
  refine { inv with holds := hh, qsolo := ?_, reader := ?_, early := ?_ }
  · exact fun q h1 => (hsends q h1).trans (inv.qsolo q h1)
  · intro k
    exact (inv.reader k).mono (LinkStep.of_eq rfl (fun _ => rfl) rfl) (fun h1 => h1) (fun _ _ h1 => h1)
      (fun h1 => h1) (fun h1 => h1)
  · exact fun h1 => ⟨(href h1).trans (inv.early h1).1, (inv.early h1).2⟩

/-- A step of `establish` or of a goroutine it started, with a change of the pool. -/
theorem SessInv.of_ests {ests : ℕ → Est ℕ KSUID} {pool : ℕ → AList (fun _ : KSUID => ℕ)}
    (inv : SessInv ids m g f seen s) (hone : s.server.nextEst = 1)
    (hws : (ests 0).ws = (s.server.ests 0).ws) (hid : (ests 0).id = (s.server.ests 0).id)
    (hearly : { s.server with ests := ests, pool := pool }.Early → s.server.Early)
    (hconn : (ests 0).pc = .dial ∨ (ests 0).pc = .linkTrySend → f.lanes.conn = false)
    (hwr : (ests 0).pc.beforeWait = true → (ests 0).writer = none)
    (hpool : ∀ {w x e}, (pool w).lookup x = some e →
      w = 0 ∧ x = m ∧ e = 0 ∧ ¬ { s.server with ests := ests, pool := pool }.Early) :
    SessInv ids m g f seen { s with server := { s.server with ests := ests, pool := pool } } := by
  refine { inv with reader := ?_, early := ?_, pool := hpool, blank := ?_, theEst := ?_ }
  · intro k
    exact (inv.reader k).mono (LinkStep.of_eq rfl (fun _ => rfl) rfl) hearly (fun _ _ h1 => h1)
      (fun h1 => h1) (fun h1 => h1)
  · exact fun h1 => inv.early (hearly h1)
  · intro h1
    have h2 : s.server.nextEst = 0 := h1
    omega
  · intro _
    obtain ⟨h1, h2, h3, -, -⟩ := inv.theEst hone
    exact ⟨hws.trans h1, hid.trans h2, h3, hconn, hwr⟩

end Wssocks.Wss

import Wssocks.Pipe.CopyBuffer
import Wssocks.Pipe.Merge
import Wssocks.Pipe.Split

/-!
# From the source connection to the destination

One direction of a session, from `CopyBuffer` over the queue, the lanes and the
links to the destination connection, as far as it does not depend on how a chunk
gets from a queue to a link:

* `CopyInv`: what `CopyBuffer` has read is what it put into the queue, and the
  chunk it holds;
* `Transit`: each lane holds, in order, what the splitter dealt to it; what was put
  into its link, what is on the way, and nothing else;
* `delivered`: these and the invariants of splitter and merger make the transfer
  faithful (`Delivered`).
-/

namespace Wssocks.Pipe

open Wssocks.Lib

/-! ## `CopyBuffer` -/

/-- What `CopyBuffer` has read, given what it put into its queue. -/
def CopyInv (c : Copy) (enq : List Buffer) : Prop :=
  match c.pc with
  | .idle => c.reads = [] ∧ enq = []
  | .read | .eofCheck _ | .eofSelect _ => chunks enq = c.reads ∧ NoEof enq
  | .check d _ | .select d _ => chunks enq ++ [d] = c.reads ∧ d ≠ [] ∧ NoEof enq
  | .done => chunks enq <+: c.reads ∧ (NoEof enq ∨ chunks enq = c.reads)

variable {c c' : Copy} {enq : List Buffer} {d : List UInt8} {er : ReadEnd}

theorem copyInv_afterWrite (h : chunks enq = c.reads) (hno : NoEof enq) :
    CopyInv (c.afterWrite er) enq := by
  cases er <;> exact ⟨h, hno⟩

theorem CopyInv.read (h : CopyInv c enq) (hr : c.read d er = some c') : CopyInv c' enq := by
  unfold Copy.read at hr
  split_ifs at hr with hpc hd
  · cases hr
    simp only [CopyInv, hpc] at h
    exact copyInv_afterWrite h.1 h.2
  · cases hr
    simp only [CopyInv, hpc] at h
    exact ⟨by rw [h.1], hd, h.2⟩

theorem Copy.afterWrite_pc : (c.afterWrite er).pc ≠ .idle := by cases er <;> simp [Copy.afterWrite]

theorem Copy.read_pc (hr : c.read d er = some c') : c.pc ≠ .idle ∧ c'.pc ≠ .idle := by
  unfold Copy.read at hr
  split_ifs at hr with h1 h2
  · cases hr; exact ⟨by simp [h1], Copy.afterWrite_pc⟩
  · cases hr; exact ⟨by simp [h1], by simp⟩

theorem chunks_data (hd : d ≠ []) : chunks [⟨false, d⟩] = [d] := by simp [chunks, hd]

/-- `CopyBuffer` gives up, or its `WriteEOF` was not accepted. -/
theorem CopyInv.stop (h : CopyInv c enq) (hpc : c.pc ≠ .idle) (hd : c'.pc = .done)
    (hr : c'.reads = c.reads) : CopyInv c' enq := by
  simp only [CopyInv, hd, hr]
  unfold CopyInv at h
  split at h
  · exact absurd ‹_› hpc
  · exact ⟨by rw [h.1], .inl h.2⟩
  · exact ⟨by rw [h.1], .inl h.2⟩
  · exact ⟨by rw [h.1], .inl h.2⟩
  · exact ⟨⟨_, h.1⟩, .inl h.2.2⟩
  · exact ⟨⟨_, h.1⟩, .inl h.2.2⟩
  · exact h

section Step

variable {KSUID W : Type} [DecidableEq KSUID] {ids : List KSUID} {m : KSUID} {wr : ℕ → W}
  {src : Source} {s s' : Queues KSUID W} {q : ℕ}

/-- A step of `CopyBuffer` on the first queue of the session. -/
theorem CopyInv.step (h : CopyInv c src.enq) (inv : SplitInv ids m wr src s)
    (hq : src.lanes.queue = some q) (hs : c.step s q = some (c', s')) :
    ∃ enq, CopyInv c' enq ∧ SplitInv ids m wr { src with enq := enq } s' := by
  unfold Copy.step at hs
  cases hpc : c.pc with
  | idle | read | done => simp [hpc] at hs
  | check d er =>
    simp only [hpc] at hs
    split_ifs at hs <;> cases hs
    · exact ⟨_, h.stop (by simp [hpc]) rfl rfl, inv⟩
    · simp only [CopyInv, hpc] at h
      exact ⟨_, h, inv⟩
  | select d er =>
    simp only [hpc, Option.map_eq_some_iff] at hs
    obtain ⟨⟨s1, ok⟩, hp, he⟩ := hs
    simp only [CopyInv, hpc] at h
    cases ok with
    | true =>
      cases he
      refine ⟨src.enq ++ [⟨false, d⟩], copyInv_afterWrite ?_ (h.2.2.append rfl),
        inv.push hq h.2.2 (by simp) hp⟩
      rw [chunks_append, chunks_data h.2.1]
      exact h.1
    | false =>
      cases he
      rcases Queues.push_cases hp with ⟨h1, -⟩ | ⟨-, -, rfl⟩
      · cases h1
      · exact ⟨_, ⟨⟨_, h.1⟩, .inl h.2.2⟩, inv⟩
  | eofCheck er =>
    simp only [hpc] at hs
    split_ifs at hs <;> cases hs
    · exact ⟨_, h.stop (by simp [hpc]) rfl rfl, inv⟩
    · simp only [CopyInv, hpc] at h
      exact ⟨_, h, inv⟩
  | eofSelect er =>
    simp only [hpc, Option.map_eq_some_iff] at hs
    obtain ⟨⟨s1, ok⟩, hp, he⟩ := hs
    cases he
    cases ok with
    | true =>
      simp only [CopyInv, hpc] at h
      have heof : chunks (src.enq ++ [⟨true, []⟩]) = c.reads := by
        rw [chunks_append, h.1]; simp [chunks]
      exact ⟨src.enq ++ [⟨true, []⟩], ⟨by rw [heof]; rfl, .inr heof⟩, inv.push hq h.2 (by simp) hp⟩
    | false =>
      rcases Queues.push_cases hp with ⟨h1, -⟩ | ⟨-, -, rfl⟩
      · cases h1
      · exact ⟨_, h.stop (by simp [hpc]) rfl rfl, inv⟩

theorem CopyInv.timeout (h : CopyInv c enq) (hs : c.timeout s q = some c') : CopyInv c' enq := by
  unfold Copy.timeout at hs
  split_ifs at hs
  cases hpc : c.pc with
  | idle | read | done | check | eofCheck => simp [hpc] at hs
  | select d er => simp only [hpc, Option.some.injEq] at hs; subst hs; exact h.stop (by simp [hpc]) rfl rfl
  | eofSelect er => simp only [hpc, Option.some.injEq] at hs; subst hs; exact h.stop (by simp [hpc]) rfl rfl

theorem Copy.step_pc (hs : c.step s q = some (c', s')) : c.pc ≠ .idle ∧ c'.pc ≠ .idle := by
  unfold Copy.step at hs
  cases hpc : c.pc with
  | idle | read | done => simp [hpc] at hs
  | check d er | eofCheck er =>
    simp only [hpc] at hs
    split_ifs at hs <;> cases hs <;> simp [Copy.abort, Copy.finish]
  | select d er =>
    simp only [hpc, Option.map_eq_some_iff] at hs
    obtain ⟨⟨s1, ok⟩, hp, he⟩ := hs
    cases ok <;> cases he
    · simp [Copy.abort]
    · exact ⟨by simp, Copy.afterWrite_pc⟩
  | eofSelect er =>
    simp only [hpc, Option.map_eq_some_iff] at hs
    obtain ⟨⟨s1, ok⟩, hp, he⟩ := hs
    cases he
    simp [Copy.finish]

theorem Copy.timeout_pc (hs : c.timeout s q = some c') : c.pc ≠ .idle ∧ c'.pc ≠ .idle := by
  unfold Copy.timeout at hs
  split_ifs at hs
  cases hpc : c.pc with
  | select d er | eofSelect er =>
    simp only [hpc, Option.some.injEq] at hs
    subst hs
    simp [Copy.abort, Copy.finish]
  | _ => simp [hpc] at hs

/-- What a step of `CopyBuffer` may change. -/
theorem Copy.step_touched (hs : c.step s q = some (c', s')) :
    QueueHub.Touched s.hub s'.hub q ∧ s'.sends = s.sends := by
  unfold Copy.step at hs
  cases hpc : c.pc with
  | idle | read | done => simp [hpc] at hs
  | check d er | eofCheck er =>
    simp only [hpc] at hs
    split_ifs at hs <;> cases hs <;> exact ⟨.refl, rfl⟩
  | select d er | eofSelect er =>
    simp only [hpc, Option.map_eq_some_iff] at hs
    obtain ⟨⟨s1, ok⟩, hp, he⟩ := hs
    have hs1 : s' = s1 := by cases ok <;> cases he <;> rfl
    rw [hs1]
    exact Queues.push_touched hp

/-- A step of `CopyBuffer` on another queue puts nothing into the first one. -/
theorem SplitInv.copy_other (inv : SplitInv ids m wr src s) (hq : src.lanes.queue ≠ some q)
    (hs : c.step s q = some (c', s')) : SplitInv ids m wr src s' := by
  unfold Copy.step at hs
  cases hpc : c.pc with
  | idle | read | done => simp [hpc] at hs
  | check d er | eofCheck er =>
    simp only [hpc] at hs
    split_ifs at hs <;> cases hs <;> exact inv
  | select d er | eofSelect er =>
    simp only [hpc, Option.map_eq_some_iff] at hs
    obtain ⟨⟨s1, ok⟩, hp, he⟩ := hs
    have hs1 : s' = s1 := by cases ok <;> cases he <;> rfl
    rw [hs1]
    exact inv.push_other hq hp

end Step

/-! ## The whole way -/

/-- What reached the lanes is what was read, and an end of stream comes last. -/
theorem CopyInv.sends {sent : List Buffer} (h : CopyInv c enq) (hs : Sends enq sent) :
    chunks sent <+: c.reads ∧ (¬ NoEof sent → ∃ bs b, sent = bs ++ [b] ∧ NoEof bs ∧
      chunks bs = c.reads ∧ c.pc = .done) := by
  have henq : chunks enq <+: c.reads := by
    unfold CopyInv at h
    split at h
    · rw [h.2]; exact List.nil_prefix
    · rw [h.1]
    · rw [h.1]
    · rw [h.1]
    · exact ⟨_, h.1⟩
    · exact ⟨_, h.1⟩
    · exact h.1
  cases hs with
  | part hno hp => exact ⟨hp.trans henq, fun h1 => absurd hno h1⟩
  | @whole bs b hs hd hbs hc he =>
    have hcs : chunks sent = chunks bs := by rw [hs, chunks_append]; simp [chunks, hd]
    refine ⟨by rw [hcs, hc]; exact henq, fun _ => ⟨bs, b, hs, hbs, ?_⟩⟩
    rw [hc]
    unfold CopyInv at h
    split at h
    · exact absurd (by rw [h.2]; simp [NoEof]) he
    · exact absurd h.2 he
    · exact absurd h.2 he
    · exact absurd h.2 he
    · exact absurd h.2.2 he
    · exact absurd h.2.2 he
    · exact ⟨h.2.resolve_left he, ‹_›⟩

section Transit

variable {KSUID : Type} [DecidableEq KSUID]

/-- Each lane holds what was dealt to it: what was put into its first link, and, as
    long as that is the registered one, what is pending on the way to it. -/
def Carries (ids : List KSUID) (f : Flow) (h : LinkHub KSUID) (pend : ℕ → List Buffer)
    (sent : List Buffer) : Prop :=
  ∃ lane : ℕ → List Buffer, Splits ids.length lane sent ∧ ∀ k < ids.length,
    f.pushed k <+: lane k ∧ (h.lane ids k = f.lanes.link k → f.pushed k ++ pend k = lane k)

/-- The chunks on their way: what the merger has taken is the beginning of what the
    splitter dealt. Once the merger has ended, the lanes do not matter any more. -/
structure Transit (ids : List KSUID) (f : Flow) (l : Links KSUID) (pend : ℕ → List Buffer)
    (sent : List Buffer) : Prop where
  merged : f.merged <+: sent
  carries : MergerDone f l ∨ Carries ids f l.hub pend sent

variable {ids : List KSUID} {f f' : Flow} {l l' : Links KSUID} {h h' : LinkHub KSUID}
  {pend pend' : ℕ → List Buffer} {sent : List Buffer} {k q conn : ℕ} {b : Buffer}

theorem Transit.init [Inhabited KSUID] :
    Transit ids Flow.init (Links.init : Links KSUID) (fun _ => []) [] where
  merged := List.nil_prefix
  carries := .inr ⟨fun _ => [], splits_nil, fun _ _ => ⟨List.nil_prefix, fun _ => rfl⟩⟩

/-- The splitter deals one more chunk to the lane whose turn it is. -/
theorem Transit.send (t : Transit ids f l pend sent) (hn : 0 < ids.length)
    (hk : k = sent.length % ids.length) (hp : pend' k = pend k ++ [b])
    (hp' : ∀ j, j ≠ k → pend' j = pend j) : Transit ids f l pend' (sent ++ [b]) where
  merged := t.merged.trans (List.prefix_append _ _)
  carries := by
    refine t.carries.imp_right ?_
    rintro ⟨lane, hs, hl⟩
    refine ⟨_, hs.push hn b, ?_⟩
    intro j hj
    obtain ⟨h1, h2⟩ := hl j hj
    by_cases hjk : j = k
    · subst hjk
      rw [← hk, Function.update_self, hp]
      refine ⟨h1.trans (List.prefix_append _ _), fun h3 => ?_⟩
      rw [← List.append_assoc, h2 h3]
    · rw [Function.update_of_ne (hk ▸ hjk), hp' j hjk]
      exact ⟨h1, h2⟩

/-- Nothing arrives anywhere; links may only go away. -/
theorem Transit.mono (t : Transit ids f l pend sent) (hm : f'.merged = f.merged)
    (hpush : f'.pushed = f.pushed) (hdone : MergerDone f l → MergerDone f' l')
    (hcur : ∀ k < ids.length, l'.hub.lane ids k = f'.lanes.link k →
      l.hub.lane ids k = f.lanes.link k ∧ pend' k = pend k) :
    Transit ids f' l' pend' sent where
  merged := hm ▸ t.merged
  carries := by
    rcases t.carries with h1 | ⟨lane, hs, hl⟩
    · exact .inl (hdone h1)
    · refine .inr ⟨lane, hs, fun k hk => ?_⟩
      obtain ⟨h2, h3⟩ := hl k hk
      refine ⟨hpush ▸ h2, fun h4 => ?_⟩
      obtain ⟨h5, h6⟩ := hcur k hk h4
      rw [hpush, h6]
      exact h3 h5

/-- The pending chunk of lane `k` is put into its first link. -/
theorem Transit.push {tl : List Buffer} (t : Transit ids f l pend sent)
    (inv : MergeInv ids conn f l) (hk : f.lanes.link k = some q)
    (hpush : l.push q b = some (l', true)) (hp : pend k = b :: tl) (hp0 : pend' k = tl)
    (hp' : ∀ j, j ≠ k → pend' j = pend j) :
    Transit ids { f with pushed := Function.update f.pushed k (f.pushed k ++ [b]) } l' pend' sent := by
  rcases Links.push_cases hpush with ⟨-, hop, ch, -, -, rfl⟩ | ⟨h1, -⟩
  swap
  · cases h1
  refine ⟨t.merged, t.carries.imp (fun h1 => h1) ?_⟩
  rintro ⟨lane, hs, hl⟩
  refine ⟨lane, hs, fun j hj => ?_⟩
  obtain ⟨h1, h2⟩ := hl j hj
  by_cases hjk : j = k
  · subst hjk
    have hcur := h2 ((inv.tracks.open_iff hk).mp hop |>.trans hk.symm)
    rw [hp] at hcur
    simp only [Function.update_self, hp0]
    rw [List.append_assoc, List.singleton_append, hcur]
    exact ⟨⟨tl, by rw [← hcur]; simp⟩, fun _ => rfl⟩
  · simp only [Function.update_of_ne hjk, hp' j hjk]
    exact ⟨h1, h2⟩

/-- A step of the merger. -/
theorem Transit.merge {r i : ℕ} {o : Outcome} {bs : List Buffer} (t : Transit ids f l pend sent)
    (hn : 0 < ids.length) (hs : l.send r i o = some l')
    (hinv : MergeInv ids conn { f with merged := bs } l')
    (hdone : MergerDone f l → bs = f.merged ∧ MergerDone f l') :
    Transit ids { f with merged := bs } l' pend sent := by
  constructor
  · rcases t.carries with h1 | ⟨lane, hsp, hl⟩
    · rw [show bs = f.merged from (hdone h1).1]; exact t.merged
    · exact hinv.merges.prefix_of_splits hsp hn fun k hk => (hl k hk).1
  · have hlane : ∀ k, l'.hub.lane ids k = l.hub.lane ids k := by
      intro k
      unfold LinkHub.lane
      cases ids[k]? with
      | none => rfl
      | some id => exact (Links.send_moved hs).ref? id
    rcases t.carries with h1 | ⟨lane, hsp, hl⟩
    · exact .inl (hdone h1).2
    · refine .inr ⟨lane, hsp, fun k hk => ?_⟩
      rw [hlane]
      exact hl k hk

/-- What the merger has written, given what it has taken. -/
theorem MergeInv.written {out : List ConnEvent} (inv : MergeInv ids conn f l)
    (hout : (l.socks conn).out = out) :
    (ConnEvent.closeWrite ∉ out ∧ Cut (payloads out) (chunks f.merged)) ∨
    ∃ bs b pre, f.merged = bs ++ [b] ∧ b.eof = true ∧ Exact pre bs ∧ out = pre ++ [.closeWrite] := by
  subst hout
  have hx : ∀ {bs}, Exact (l.socks conn).out bs → bs <+: f.merged →
      ConnEvent.closeWrite ∉ (l.socks conn).out ∧ Cut (payloads (l.socks conn).out) (chunks f.merged) :=
    fun hx hp => ⟨hx.noClose, hx.cut_of_write hp⟩
  cases inv.merger with
  | idle hs hst hm ho => rw [ho]; exact .inl ⟨by simp, .of_isPrefix List.nil_prefix⟩
  | @run r pc hr hs hl hat =>
    cases pc with
    | entry => rw [hat.2.1]; exact .inl ⟨by simp, .of_isPrefix List.nil_prefix⟩
    | refused => exact hat.elim
    | loop => exact .inl (hx hat.1 (List.prefix_refl _))
    | pass rest => exact .inl (hx hat.1 (List.prefix_refl _))
    | read q rest => exact .inl (hx hat.1 (List.prefix_refl _))
    | write q b rest =>
      obtain ⟨-, bs, h1, i, -, -, h2⟩ := hat
      refine .inl (hx h1 ?_)
      rcases h2 with ⟨h3, -⟩ | ⟨h3, -⟩ <;> rw [h3]
      exact List.prefix_append _ _
    | ret e | handoff e | closeDone e | exit e =>
      cases hat with
      | eof hm hb hpre hout => exact .inr ⟨_, _, _, hm, hb, hpre, hout⟩
      | err hc hcut he => exact .inl ⟨hc, hcut⟩

/-- One direction of a session is faithful. -/
theorem delivered {c : Copy} {enq : List Buffer} (inv : MergeInv ids conn f l)
    (t : Transit ids f l pend sent) (hs : Sends enq sent) (hc : CopyInv c enq) :
    Delivered (l.socks conn).out c.reads (c.pc = .done) := by
  obtain ⟨hreads, heof⟩ := hc.sends hs
  have hmerged : chunks f.merged <+: c.reads := (chunks_mono t.merged).trans hreads
  rcases inv.written rfl with ⟨h1, h2⟩ | ⟨bs, b, pre, hm, hb, hpre, hout⟩
  · refine ⟨h2.trans_isPrefix hmerged, fun pre post he => ?_⟩
    rw [he] at h1
    simp at h1
  · -- the end of stream the merger took is the last chunk that was dealt
    obtain ⟨rest, hrest⟩ := t.merged
    rw [hm, List.append_assoc] at hrest
    obtain ⟨bs', b', hsent, hno, hch, hdone⟩ := heof fun h1 => by
      rw [h1 b (by rw [← hrest]; simp)] at hb
      cases hb
    have hbs : bs = bs' := by
      refine (append_cons_eq_concat (hrest.trans hsent) fun h1 => ?_).2.1
      rw [hno b h1] at hb
      cases hb
    have hpay : payloads pre = c.reads := by rw [hpre.payload, hbs, hch]
    refine ⟨.of_isPrefix ?_, fun pre' post he => ?_⟩
    · rw [hout, payloads_append, payloads_closeWrite, List.append_nil, hpay]
    · obtain ⟨h1, rfl, -⟩ := append_cons_eq_concat (he.symm.trans hout) hpre.noClose
      exact ⟨h1, hpay, hdone⟩

end Transit

end Wssocks.Pipe

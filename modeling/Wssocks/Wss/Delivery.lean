import Wssocks.Pipe.Transit
import Wssocks.Wss.Control
import Wssocks.Wss.Progress

/-!
# Delivery over shared websockets

What the sessions of a calm run put into each other's way is only time. `Carries`
adds the contents to `MuxInv`: every chunk on a websocket, in the hands of a reader
or in a link is the chunk with its number that the client sent. So each destination
gets what its own client sent, in order.

Results:

* `multiplexed_in_order`: what was written to the destination of a session is a
  prefix of what its client sent.
-/

namespace Wssocks.Wss

open Wssocks.Lib Wssocks.Pipe

variable {S KSUID : Type} [DecidableEq S] [DecidableEq KSUID] [Inhabited KSUID] {ids : S → List KSUID}
  {b b' : Book S} {sent : S → ℕ} {eof : S → Bool} {s s' : Server ℕ KSUID} {σ : S} {n w e : ℕ}
  {ls : List (MuxLabel S KSUID)} {t t' : Mux S KSUID}

/-! ## What was sent -/

/-- A chunk as `dispatchDataMessage` sees it: an end of stream has no data. -/
def carried (b : Buffer) : Buffer := if b.eof then ⟨true, []⟩ else ⟨false, b.data⟩

/-- What session `σ` sends with this label. -/
def MuxLabel.posted? (σ : S) : MuxLabel S KSUID → Option Buffer
  | .post τ b => if τ = σ then some b else none
  | .act _ => none

/-- The chunks session `σ` has sent on `n` lanes: `n` times `sayhi` and `est` come before them. -/
def chunksSent (n : ℕ) (ls : List (MuxLabel S KSUID)) (σ : S) : List Buffer :=
  ((ls.filterMap (MuxLabel.posted? σ)).drop (n + 1)).map carried

/-- The chunk a reader has in its hands. -/
def Reader.chunk? : Reader KSUID → Option Buffer
  | .check _ x | .select _ x => some x
  | _ => none

theorem eof_carried (b : Buffer) : (carried b).eof = b.eof := by
  unfold carried
  split_ifs with h <;> simp_all

theorem carried_of_eof {b x : Buffer} (hx : x = carried b) (he : x.eof = true) : x.data = [] := by
  subst hx
  rw [eof_carried] at he
  simp [carried, he]

omit [Inhabited KSUID] in
/-- A chunk in the hands of a reader was there before the step, or the step took it from the inbox. -/
theorem Server.chunk?_of_step {a : ServerLabel ℕ KSUID} {out : Option (ℕ × Msg KSUID)} {x : Buffer}
    (h : s.step a = some (s', out)) (hx : (s'.reader w).chunk? = some x) :
    (s.reader w).chunk? = some x ∨ s.reader w = .idle ∧ ∃ id tag bytes ms, s.inbox w = .data id tag bytes :: ms ∧
      x = if tag = .eof then ⟨true, []⟩ else ⟨false, bytes⟩ := by
  have hmove := (Server.moves_of_step h).reader w
  revert hx
  generalize s'.reader w = r at hmove
  intro hx
  cases hmove with
  | same => exact .inl hx
  | @take m ms _ hidle hin =>
    cases m with
    | beats | sayhi | est => cases hx
    | finish id =>
      cases hp : (s.pool w).lookup id <;> rw [Server.takes, hp] at hx <;> cases hx
    | data id tag bytes =>
      cases hl : s.links.hub.ref? id with
      | none => rw [Server.takes, hl] at hx; cases hx
      | some q =>
        rw [Server.takes, hl] at hx
        exact .inr ⟨hidle, id, tag, bytes, ms, hin, (Option.some.inj hx).symm⟩
  | test _ hr => exact .inl (by rw [hr]; exact hx)
  | shake | write | disconnect | hubClose | stop => cases hx
  | @close e id a => cases hn : s.closeNext e a <;> rw [hn] at hx <;> cases hx
  | @hubCloseAt e id a => cases hn : s.closeNext e a <;> rw [hn] at hx <;> cases hx

/-! ## The contents -/

/-- `cs σ` are the chunks of session `σ`: they are what is in its links, on the websockets and in the hands of the
    readers. -/
structure Carries (ids : S → List KSUID) (cs : S → List Buffer) (b : Book S) (s : Server ℕ KSUID) : Prop where
  pushed : ∀ {σ t x}, ((b.flow σ).pushed (t % (ids σ).length))[t / (ids σ).length]? = some x → (cs σ)[t]? = some x
  wire : ∀ {w p t}, p ∈ b.wire w → p.number = (ids p.owner).length + 1 + t →
    (cs p.owner)[t]? = some (carried p.chunk)
  reader : ∀ {w p rest x}, b.wire w = p :: rest → (s.reader w).chunk? = some x → x = carried p.chunk

section Carries

variable {cs cs' : S → List Buffer}

omit [DecidableEq S] in
theorem Carries.init : Carries ids (fun _ => []) Book.init (Server.init : Server ℕ KSUID) :=
  ⟨fun h => (by cases h), fun h => (by cases h), fun h => (by cases h)⟩

omit [DecidableEq S] [DecidableEq KSUID] in
/-- What a reader takes is the chunk of the first message of its websocket. -/
theorem Posted.chunk_of_script {p : Parcel S} {id : KSUID} {tag : Tag} {bytes : List UInt8}
    (h : script (ids p.owner) p.number p.chunk = .data id tag bytes) :
    (if tag = .eof then ⟨true, []⟩ else ⟨false, bytes⟩ : Buffer) = carried p.chunk := by
  unfold script at h
  split_ifs at h
  cases h
  cases he : p.chunk.eof <;> simp [carried, he]

omit [DecidableEq S] in
/-- The readers of the next state have the chunks of the first messages of their websockets, where these
    messages are the same. -/
theorem Carries.reader_step {a : ServerLabel ℕ KSUID} {out : Option (ℕ × Msg KSUID)} {p : Parcel S}
    {rest : List (Parcel S)} {x : Buffer} (h : Carries ids cs b s) (inv : Posted ids b sent eof s)
    (hs : s.step a = some (s', out)) (hw : b.wire w = p :: rest) (hx : (s'.reader w).chunk? = some x) :
    x = carried p.chunk := by
  rcases Server.chunk?_of_step hs hx with hold | ⟨hidle, id, tag, bytes, ms, hin, rfl⟩
  · exact h.reader hw hold
  · rcases inv.lined w with ⟨-, hps⟩ | ⟨p', rest', -, -, hh⟩
    · rw [hin, hw, List.map_cons] at hps
      exact Posted.chunk_of_script (List.cons.inj hps).1.symm
    · rw [hidle] at hh
      exact hh.elim

theorem Carries.step {a : ServerLabel ℕ KSUID} {out : Option (ℕ × Msg KSUID)} (h : Carries ids cs b s)
    (inv : Posted ids b sent eof s) (hs : s.step a = some (s', out)) (hb : BookStep ids b s s' b') :
    Carries ids cs b' s' := by
  cases hb with
  | same => exact ⟨h.pushed, h.wire, h.reader_step inv hs⟩
  | @go σ f hf =>
    refine ⟨fun {τ t x} hx => h.pushed ?_, h.wire, h.reader_step inv hs⟩
    by_cases hτ : τ = σ
    · subst hτ
      rwa [Book.flow_go, hf] at hx
    · rwa [Book.flow_go_of_ne hτ] at hx
  | @handle w p rest f _ hw hidle hwire hflow hf =>
    refine ⟨fun {τ t x} hx => h.pushed ?_, fun {v q t} hq => ?_, fun {v q rest' x} hv hx => ?_⟩
    · rw [hflow] at hx
      by_cases hτ : τ = p.owner
      · subst hτ
        rwa [Function.update_self, hf] at hx
      · rwa [Function.update_of_ne hτ] at hx
    · rw [hwire] at hq
      exact h.wire (Book.mem_of_handle hq)
    · have hne : v ≠ w := by
        rintro rfl
        rw [hidle] at hx
        cases hx
      rw [hwire, Book.wire_handle_of_ne hne] at hv
      exact h.reader_step inv hs hv hx
  | @push w q t x p rest hw hidle hr hnum hlen =>
    have hx : x = carried p.chunk := h.reader hw (by rw [hr]; rfl)
    have hc := h.wire (Posted.head_mem hw) hnum
    refine ⟨fun {τ t' y} hy => ?_, fun {v q t} hq => h.wire (Book.mem_of_handle hq), fun {v q rest' x} hv hx => ?_⟩
    · by_cases hτ : τ = p.owner
      · subst hτ
        rw [Book.flow_go] at hy
        by_cases hmod : t' % (ids p.owner).length = t % (ids p.owner).length
        · simp only [hmod, Function.update_self] at hy
          rw [List.getElem?_append] at hy
          split_ifs at hy with hlt
          · exact h.pushed (by rwa [hmod])
          · -- it is the new one
            rw [hlen] at hlt hy
            obtain ⟨hidx, hval⟩ := List.getElem?_eq_some_iff.mp hy
            rw [List.length_singleton] at hidx
            have heq : t' = t := (turn_inj hmod).mp (by omega)
            rw [List.getElem_singleton] at hval
            rw [heq, hc, ← hval, hx]
        · simp only [Function.update_of_ne hmod] at hy
          exact h.pushed hy
      · rw [Book.flow_go_of_ne hτ] at hy
        exact h.pushed hy
    · have hne : v ≠ w := by
        rintro rfl
        rw [hidle] at hx
        cases hx
      have hv' : b.wire v = q :: rest' := by rwa [← Book.wire_handle_of_ne hne]
      exact h.reader_step inv hs hv' hx

omit [DecidableEq S] in
/-- A client sends a message. -/
theorem Carries.post {x : Buffer} (h : Carries ids cs b s) (inv : Posted ids b sent eof s)
    (hold : ∀ τ, cs τ <+: cs' τ)
    (hnew : ∀ t, sent σ = (ids σ).length + 1 + t → (cs' σ)[t]? = some (carried x)) :
    Carries ids cs' (b.post (laneOf (ids σ).length (sent σ)) σ (sent σ) x)
      (s.arrive (laneOf (ids σ).length (sent σ)) (script (ids σ) (sent σ) x)) where
  pushed := by
    intro τ t y hy
    obtain ⟨hlt, rfl⟩ := List.getElem?_eq_some_iff.mp (h.pushed hy)
    exact List.prefix_iff_getElem?.mp (hold _) _ hlt
  wire := by
    intro v p t hp hnum
    rcases Book.mem_post.mp hp with hp | ⟨-, rfl⟩
    · obtain ⟨hlt, heq⟩ := List.getElem?_eq_some_iff.mp (h.wire hp hnum)
      rw [← heq]
      exact List.prefix_iff_getElem?.mp (hold _) _ hlt
    · exact hnew t hnum
  reader := by
    intro v p rest y hv hy
    -- the reader is busy, so the websocket had a first message before
    have hbusy : s.reader v ≠ .idle := by
      intro h0
      rw [show (s.arrive _ _).reader v = .idle from h0] at hy
      cases hy
    obtain ⟨p', rest', hw, -, -⟩ := inv.busy hbusy
    have hp : p = p' := by
      by_cases hv' : v = laneOf (ids σ).length (sent σ)
      · subst hv'
        simp only [Book.post, Function.update_self, hw, List.cons_append, List.cons.injEq] at hv
        exact hv.1.symm
      · simp only [Book.post, Function.update_of_ne hv', hw, List.cons.injEq] at hv
        exact hv.1.symm
    rw [hp]
    exact h.reader hw hy

end Carries

/-! ## Whole runs -/

/-- What a run has sent: the counts of the state, and an end of stream is the last chunk. -/
structure Sent (ids : S → List KSUID) (ls : List (MuxLabel S KSUID)) (t : Mux S KSUID) : Prop where
  count : ∀ σ, t.sent σ = (ls.filterMap (MuxLabel.posted? σ)).length
  last : ∀ σ, t.eof σ = true → ∃ ds x, chunksSent (ids σ).length ls σ = ds ++ [x] ∧ x.eof = true

omit [DecidableEq KSUID] [Inhabited KSUID] in
theorem length_chunksSent (n : ℕ) (ls : List (MuxLabel S KSUID)) (σ : S) :
    (chunksSent n ls σ).length = (ls.filterMap (MuxLabel.posted? σ)).length - (n + 1) := by
  simp [chunksSent]

omit [DecidableEq KSUID] [Inhabited KSUID] in
theorem posted_act (ls : List (MuxLabel S KSUID)) (a : ServerLabel ℕ KSUID) (σ : S) :
    (ls ++ [MuxLabel.act a]).filterMap (MuxLabel.posted? σ) = ls.filterMap (MuxLabel.posted? σ) := by
  simp [MuxLabel.posted?]

omit [DecidableEq KSUID] [Inhabited KSUID] in
theorem posted_post_of_ne {τ : S} {x : Buffer} (hτ : τ ≠ σ) :
    (ls ++ [MuxLabel.post σ x]).filterMap (MuxLabel.posted? τ) = ls.filterMap (MuxLabel.posted? τ) := by
  simp [MuxLabel.posted?, hτ.symm]

omit [DecidableEq KSUID] [Inhabited KSUID] in
theorem posted_post {x : Buffer} :
    (ls ++ [MuxLabel.post σ x]).filterMap (MuxLabel.posted? σ) = ls.filterMap (MuxLabel.posted? σ) ++ [x] := by
  simp [MuxLabel.posted?]

omit [DecidableEq KSUID] [Inhabited KSUID] in
theorem chunksSent_act (n : ℕ) (ls : List (MuxLabel S KSUID)) (a : ServerLabel ℕ KSUID) (σ : S) :
    chunksSent n (ls ++ [.act a]) σ = chunksSent n ls σ := by
  rw [chunksSent, chunksSent, posted_act]

omit [DecidableEq KSUID] [Inhabited KSUID] in
theorem chunksSent_post_of_ne {τ : S} {x : Buffer} (hτ : τ ≠ σ) :
    chunksSent n (ls ++ [.post σ x]) τ = chunksSent n ls τ := by
  rw [chunksSent, chunksSent, posted_post_of_ne hτ]

omit [DecidableEq KSUID] [Inhabited KSUID] in
/-- The handshake is no chunk, and what comes after it is one. -/
theorem chunksSent_post {x : Buffer} : chunksSent n (ls ++ [.post σ x]) σ =
    if n < (ls.filterMap (MuxLabel.posted? σ)).length then chunksSent n ls σ ++ [carried x] else [] := by
  rw [chunksSent, posted_post]
  split_ifs with hlt
  · rw [List.drop_append_of_le_length hlt, List.map_append]
    rfl
  · rw [List.drop_eq_nil_iff.mpr (by simp; omega), List.map_nil]

theorem Sent.init : Sent ids [] (Mux.init : Mux S KSUID) := ⟨fun _ => rfl, fun _ h => (by cases h)⟩

omit [Inhabited KSUID] in
theorem Sent.act {a : ServerLabel ℕ KSUID} (h : Sent ids ls t) (hsent : t'.sent = t.sent) (heof : t'.eof = t.eof) :
    Sent ids (ls ++ [.act a]) t' where
  count := by
    intro σ
    rw [hsent, h.count, posted_act]
  last := by
    intro σ
    rw [heof, chunksSent_act]
    exact h.last σ

omit [Inhabited KSUID] in
theorem Sent.post {x : Buffer} (h : Sent ids ls t)
    (hsent : t'.sent = Function.update t.sent σ (t.sent σ + 1))
    (heof : t'.eof = Function.update t.eof σ (decide ((ids σ).length < t.sent σ) && x.eof)) :
    Sent ids (ls ++ [.post σ x]) t' where
  count := by
    intro τ
    rw [hsent]
    by_cases hτ : τ = σ
    · subst hτ
      rw [Function.update_self, h.count, posted_post, List.length_append, List.length_singleton]
    · rw [Function.update_of_ne hτ, h.count, posted_post_of_ne hτ]
  last := by
    intro τ hτ'
    rw [heof] at hτ'
    by_cases hτ : τ = σ
    · subst hτ
      rw [Function.update_self, Bool.and_eq_true, decide_eq_true_eq, h.count] at hτ'
      exact ⟨_, carried x, by rw [chunksSent_post, if_pos hτ'.1], by rw [eof_carried, hτ'.2]⟩
    · rw [Function.update_of_ne hτ] at hτ'
      rw [chunksSent_post_of_ne hτ]
      exact h.last τ hτ'

/-- The invariant of a calm run. -/
theorem exists_book (hids : Sessions ids n) (h : Run (Mux.step ids) Mux.Calm Mux.init ls t) :
    Sent ids ls t ∧ ∃ b, MuxInv ids b t.sent t.eof t.server ∧
      Carries ids (fun σ => chunksSent (ids σ).length ls σ) b t.server := by
  refine h.trace_invariant (I := fun ls t => Sent ids ls t ∧ ∃ b, MuxInv ids b t.sent t.eof t.server ∧
    Carries ids (fun σ => chunksSent (ids σ).length ls σ) b t.server) ⟨.init, _, MuxInv.init, ?_⟩ ?_
  · exact Carries.init
  rintro ls t a t' ⟨hsent, b, inv, hc⟩ hcalm hstep
  cases a with
  | post σ x =>
    obtain ⟨heof, hstep⟩ := Option.ite_none_left_eq_some.mp hstep
    cases hstep
    refine ⟨hsent.post rfl rfl, _, inv.post (Bool.eq_false_of_not_eq_true heof), ?_⟩
    refine hc.post inv.toPosted (fun τ => ?_) fun i hi => ?_
    · by_cases hτ : τ = σ
      · subst hτ
        rw [chunksSent_post]
        split_ifs with hlt
        · exact List.prefix_append _ _
        · rw [List.eq_nil_of_length_eq_zero (l := chunksSent _ ls τ) (by rw [length_chunksSent]; omega)]
      · rw [chunksSent_post_of_ne hτ]
    · rw [hsent.count] at hi
      have hlen : (chunksSent (ids σ).length ls σ).length = i := by rw [length_chunksSent]; omega
      rw [chunksSent_post, if_pos (by omega), ← hlen, List.getElem?_concat_length]
  | act a =>
    obtain ⟨⟨s', out⟩, hs', rfl⟩ := Option.map_eq_some_iff.mp hstep
    obtain ⟨b', hb, inv'⟩ := inv.server_step hids hcalm hs'
    refine ⟨hsent.act rfl rfl, b', inv', ?_⟩
    simp only [chunksSent_act]
    exact hc.step inv.toPosted hs' hb

/-! ## What arrives -/

section Arrives

variable {cs : S → List Buffer}

omit [DecidableEq S] [Inhabited KSUID] in
/-- `Send` takes the chunks in the order in which the client sent them. -/
theorem Carries.merged_prefix {c : ℕ} (h : Carries ids cs b s) (inv : MergeInv (ids σ) c (b.flow σ) s.links) :
    (b.flow σ).merged <+: cs σ :=
  List.prefix_iff_getElem?.mpr fun _ hi => h.pushed (inv.merges _ _ (List.getElem?_eq_getElem hi))

/-- An end of stream that `Send` took is the last chunk. -/
theorem MuxInv.merged_eq {bs : List Buffer} {x : Buffer} {c : ℕ} (inv : MuxInv ids b t.sent t.eof t.server)
    (hsent : Sent ids ls t) (h : Carries ids (fun σ => chunksSent (ids σ).length ls σ) b t.server)
    (hc : b.Conn t.server.nextEst σ c) (hm : (b.flow σ).merged = bs ++ [x]) (hx : x.eof = true) :
    (b.flow σ).merged = chunksSent (ids σ).length ls σ ∧ t.eof σ = true ∧ x.data = [] := by
  have hseat := inv.seat hc
  have hlast : (b.flow σ).merged[bs.length]? = some x := by rw [hm, List.getElem?_concat_length]
  have hpushed := hseat.merge.merges _ _ hlast
  obtain ⟨heof, hnum⟩ := hseat.last hpushed hx
  have hpre := h.merged_prefix hseat.merge
  have hlen : (b.flow σ).merged.length = (chunksSent (ids σ).length ls σ).length := by
    rw [length_chunksSent, ← hsent.count, hnum, hm, List.length_append, List.length_singleton]
    omega
  refine ⟨hpre.eq_of_length hlen, heof, ?_⟩
  have hmem : x ∈ chunksSent (ids σ).length ls σ := List.mem_of_getElem? (h.pushed hpushed)
  obtain ⟨y, -, hy⟩ := List.mem_map.mp hmem
  exact carried_of_eof hy.symm hx

/-- The instance of `establish` that has the master id of a session is this session's. -/
theorem MuxInv.boss_of_id (inv : MuxInv ids b sent eof s) (hids : Sessions ids n) (he : e < s.nextEst)
    (hid : (ids σ)[0]? = some (s.ests e).id) : b.boss e = some σ := by
  obtain ⟨τ, hb, hτ, -⟩ := inv.est he
  by_cases h : τ = σ
  · rw [hb, h]
  · exact absurd (List.mem_of_getElem? hid) (hids.disjoint h _ (List.mem_of_getElem? hτ))

theorem chunks_append_eof {bs : List Buffer} {x : Buffer} (hx : x.data = []) : chunks (bs ++ [x]) = chunks bs := by
  rw [chunks_append]
  simp [chunks, hx]

/-- Whatever the sessions do to each other, each destination gets what the client of its own session sent. -/
theorem multiplexed_in_order (hids : Sessions ids n) (h : Run (Mux.step ids) Mux.Calm Mux.init ls t)
    (he : e < t.server.nextEst) (hid : (ids σ)[0]? = some (t.server.ests e).id) :
    Delivered (t.server.links.socks e).out (chunks (chunksSent (ids σ).length ls σ)) (t.eof σ = true) := by
  obtain ⟨hsent, b, inv, hc⟩ := exists_book hids h
  have hb := inv.boss_of_id hids he hid
  have hconn : b.Conn t.server.nextEst σ e := by rwa [Book.Conn, if_pos he]
  have hmerge := (inv.seat hconn).merge
  rcases hmerge.written rfl with ⟨hno, hcut⟩ | ⟨bs, x, pre, hm, hx, hexact, hout⟩
  · refine ⟨hcut.trans_isPrefix (chunks_mono (hc.merged_prefix hmerge)), fun pre post he => ?_⟩
    rw [he] at hno
    simp at hno
  · obtain ⟨hall, heof, hdata⟩ := inv.merged_eq hsent hc hconn hm hx
    have hpay : payloads pre = chunks (chunksSent (ids σ).length ls σ) := by
      rw [hexact.payload, ← hall, hm, chunks_append_eof hdata]
    refine ⟨.of_isPrefix ?_, fun pre' post he => ?_⟩
    · rw [hout, payloads_append, payloads_closeWrite, List.append_nil, hpay]
    · obtain ⟨hpost, rfl, -⟩ := append_cons_eq_concat (he.symm.trans hout) hexact.noClose
      exact ⟨hpost, hpay, heof⟩

instance Server.decidableCalm (s : Server ℕ KSUID) : (a : ServerLabel ℕ KSUID) → Decidable (s.Calm a)
  | .recv _ | .reader _ | .waiter _ | .linkDone _ _ _ => isTrue trivial
  | .dial _ o => inferInstanceAs (Decidable (o = .connected))
  | .est e => inferInstanceAs (Decidable ((s.ests e).pc.beforeWait = true))
  | .linkSend _ _ o => inferInstanceAs (Decidable (o = .ok))
  | .writeTimeout _ | .disconnect _ | .hubClose _ _ | .tell _ _ | .copyRead _ _ _ | .copy _ | .copyTimeout _
  | .queueSend _ _ _ | .queueDone _ _ _ => isFalse id

instance Mux.decidableCalm (t : Mux S KSUID) : (a : MuxLabel S KSUID) → Decidable (t.Calm a)
  | .post _ _ => isTrue trivial
  | .act a => inferInstanceAs (Decidable (t.server.Calm a))

/-- The steps of the server up to the first chunk on the destination connection. -/
def firstWrite : List (ServerLabel ℕ ℕ) :=
  [ServerLabel.recv 0, .reader 0, .recv 0, .reader 0, .recv 1, .reader 1, .recv 0, .reader 0, .dial 0 .connected,
    .est 0, .recv 0, .reader 0, .reader 0] ++ List.replicate 5 (ServerLabel.linkSend 0 0 .ok)

/-- Two sessions on two websockets; one of them has a chunk written and one on its way. -/
def firstChunk : List (MuxLabel Bool ℕ) :=
  [MuxLabel.post false default, .post true default, .post false default, .post false default,
    .post false ⟨false, [1, 2]⟩, .post false ⟨false, [3]⟩] ++ firstWrite.map MuxLabel.act

end Arrives

end Wssocks.Wss

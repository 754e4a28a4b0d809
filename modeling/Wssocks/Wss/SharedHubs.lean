import Wssocks.Wss.CallMirror
import Wssocks.Wss.Fleet

/-!
# The hubs that the calls of `transData` share

`clientQueueHub` and `clientLinkHub` are variables of the package (wss/wssocks_client.go:19-25), so that all calls of
`transData` in a client process use one `QueueHub` and one `LinkHub`. `ClientProcess` is such a process, with the
server. Its calls do what they do in `Fleet`, where each of them has hubs of its own.

Results:

* `shared_hubs_simulated`: every run of the process is a run of `Fleet`.
* `process_in_order`: each destination is given what its own application sent, in order.
-/

namespace Wssocks.Wss

open Wssocks.Lib Wssocks.Pipe

variable {S KSUID : Type} [DecidableEq S] [DecidableEq KSUID]

/-! ## The process -/

/-- The hubs of a call. -/
def Client.hubs (c : Client KSUID) : Hubs KSUID (WsWriter ℕ KSUID) := ⟨c.queues, c.links⟩

/-- The call with the hubs `h` in place of its own. Its connection stays: number 0 of one call is not number 0 of
    another. -/
def Client.on (c : Client KSUID) (h : Hubs KSUID (WsWriter ℕ KSUID)) : Client KSUID :=
  { c with queues := h.queues, links := { h.links with socks := c.links.socks } }

/-- A client process and the server: `clientQueueHub` and `clientLinkHub`, and what is not in them. The hubs in the
    states of the calls are not used. -/
structure ClientProcess (S KSUID : Type) [DecidableEq KSUID] where
  hubs : Hubs KSUID (WsWriter ℕ KSUID)
  fleet : Fleet S KSUID

/-- The same step with its pointer at another address. -/
def FleetLabel.rename (ρ ρ' : ℕ → ℕ) : FleetLabel S KSUID → FleetLabel S KSUID
  | .client σ l => .client σ (l.rename ρ ρ')
  | a => a

/-- The steps differ in their pointer only. -/
def FleetLabel.Same (a b : FleetLabel S KSUID) : Prop := ∃ ρ ρ', a = b.rename ρ ρ'

namespace ClientProcess

/-- Nothing was called yet. -/
def init [Inhabited KSUID] : ClientProcess S KSUID := ⟨Hubs.init, Fleet.init⟩

/-- One step: a call takes it on the hubs of the process. -/
def step [Inhabited KSUID] (ids : S → List KSUID) (p : ClientProcess S KSUID) :
    FleetLabel S KSUID → Option (ClientProcess S KSUID)
  | .client σ l =>
    (((p.fleet.clients σ).on p.hubs).step (ids σ) l).map fun r => ⟨r.1.hubs, p.fleet.speak σ r.1 r.2⟩
  | a => (p.fleet.step ids a).map fun t => { p with fleet := t }

/-- A step of a goroutine of `Send` is one of the call whose queue or link it runs on. -/
def Owns (ids : S → List KSUID) (p : ClientProcess S KSUID) : FleetLabel S KSUID → Prop
  | .client σ l => ((p.fleet.clients σ).on p.hubs).Owns (ids σ) l
  | _ => True

/-- A step of such a goroutine, as in `Fleet.Orderly`. -/
def Orderly [Inhabited KSUID] (ids : S → List KSUID) (p : ClientProcess S KSUID) (a : FleetLabel S KSUID) : Prop :=
  p.Owns ids a ∧ p.fleet.Orderly ids a

end ClientProcess

/-- Each call of the process is where it is in the fleet, and so is the server. -/
structure Lockstep (ids : S → List KSUID) (p : ClientProcess S KSUID) (t : Fleet S KSUID) : Prop where
  call : ∀ σ, ∃ ρ ρ', CallMirror (ids σ) ρ ρ' ((p.fleet.clients σ).on p.hubs) (t.clients σ)
  server : p.fleet.server = t.server
  est : p.fleet.est = t.est
  eof : p.fleet.eof = t.eof

section Runs

variable {ids : S → List KSUID} {p p' : ClientProcess S KSUID} {t : Fleet S KSUID} {a b : FleetLabel S KSUID}
  {ls : List (FleetLabel S KSUID)} {σ : S} {n e : ℕ} {ρ ρ' : ℕ → ℕ}

omit [DecidableEq S] in
/-- Other calls have used the hubs. -/
theorem CallMirror.apart {ks : List KSUID} {c d : Client KSUID} {g g' : Hubs KSUID (WsWriter ℕ KSUID)}
    (h : CallMirror ks ρ ρ' (c.on g) d) (hrun : (c.on g).Running)
    (hq : Apart (queuePart {k | k ∈ ks}) g.queues.hub g.queues.sends g'.queues.hub g'.queues.sends)
    (hl : Apart (linkPart {k | k ∈ ks} Set.univ) g.links.hub g.links.sends g'.links.hub g'.links.sends) :
    CallMirror ks ρ ρ' (c.on g') d :=
  { h with
    queues := Mirrors.apart h.queues hq
    links := ⟨h.links.hub.apart hl, h.links.socks⟩
    queuesCrashed := fun hc => absurd hc (by rw [(h.running hrun).queues]; exact Bool.false_ne_true)
    linksCrashed := fun hc => absurd hc (by rw [(h.running hrun).links]; exact Bool.false_ne_true) }

section Inhabited

variable [Inhabited KSUID]

omit [DecidableEq S] in
theorem Lockstep.init : Lockstep ids ClientProcess.init Fleet.init where
  call := fun _ => ⟨id, id, {
    queues := Mirrors.empty
    links := ⟨Mirrors.empty, fun _ _ => rfl⟩
    pc := rfl
    pcIn := trivial
    reader := fun _ => rfl
    readerIn := fun _ => trivial
    qq := fun hne => absurd rfl hne
    copy := rfl
    err := rfl
    removed := rfl
    inbox := rfl
    registered := rfl
    cancelled := rfl
    told := rfl
    queuesCrashed := fun hc => hc
    linksCrashed := fun hc => hc }⟩
  server := rfl
  est := rfl
  eof := rfl

/-- A call takes a step: the other calls find their queues and links as they were. -/
theorem Lockstep.speak {l : ClientLabel} {c : Client KSUID} {out : Option (ℕ × Msg KSUID)} (h : Lockstep ids p t)
    (hids : Sessions ids n) (hown : p.Owns ids (.client σ l))
    (hs : ((p.fleet.clients σ).on p.hubs).step (ids σ) l = some (c, out)) :
    ∃ b t', FleetLabel.Same (.client σ l) b ∧ t.step ids b = some t' ∧
      Lockstep ids ⟨c.hubs, p.fleet.speak σ c out⟩ t' := by
  obtain ⟨ρ, ρ', hσ⟩ := h.call σ
  obtain ⟨ρ₁, ρ₂, l', d, rfl, hd, hm⟩ := hσ.step (hids.length_pos σ) hown hs
  have hstep : t.step ids (.client σ l') = some (t.speak σ d out) := by
    rw [Fleet.step, hd]
    rfl
  refine ⟨.client σ l', _, ⟨ρ, ρ', rfl⟩, hstep, fun τ => ?_, ?_, ?_, ?_⟩
  · dsimp only [Fleet.speak]
    by_cases hτ : τ = σ
    · subst hτ
      rw [Function.update_self, Function.update_self]
      exact ⟨ρ₁, ρ₂, hm.mirror⟩
    · rw [Function.update_of_ne hτ, Function.update_of_ne hτ]
      obtain ⟨κ, κ', hmirror⟩ := h.call τ
      have hdis : ∀ k ∈ ids σ, k ∉ ids τ := hids.disjoint (Ne.symm hτ)
      -- the hubs are the same for both calls
      have hrun : ((p.fleet.clients τ).on p.hubs).Running :=
        ⟨(Client.running_of_step hs).queues, (Client.running_of_step hs).links⟩
      exact ⟨κ, κ', hmirror.apart hrun (hm.queues.hub.apart _ ⟨hdis, fun {x} hx => hdis x.masterID hx⟩)
        (hm.links.hub.apart _ ⟨hdis, fun {x} hx => hdis x.master hx⟩)⟩
  · dsimp only [Fleet.speak]
    rw [h.server]
  · dsimp only [Fleet.speak]
    rw [h.est]
  · dsimp only [Fleet.speak]
    rw [h.eof]

/-- A step of the process is a step of the fleet. -/
theorem Lockstep.step (h : Lockstep ids p t) (hids : Sessions ids n) (hown : p.Owns ids a)
    (hs : p.step ids a = some p') :
    ∃ b t', FleetLabel.Same a b ∧ t.step ids b = some t' ∧ Lockstep ids p' t' := by
  cases a with
  | client σ l =>
    obtain ⟨⟨c, out⟩, hc, rfl⟩ := Option.map_eq_some_iff.mp hs
    exact h.speak hids hown hc
  | reply σ k x =>
    cases hs
    refine ⟨.reply σ k x, _, ⟨id, id, rfl⟩, rfl, fun τ => ?_, h.server, h.est, h.eof⟩
    obtain ⟨ρ, ρ', hmirror⟩ := h.call τ
    refine ⟨ρ, ρ', ?_⟩
    by_cases hτ : τ = σ
    · subst hτ
      dsimp only
      rw [Function.update_self, Function.update_self]
      have hinbox := hmirror.inbox
      exact { hmirror with inbox := by simp only [Client.on, Client.arrive] at hinbox ⊢; rw [hinbox] }
    · dsimp only
      rw [Function.update_of_ne hτ, Function.update_of_ne hτ]
      exact hmirror
  | server l =>
    obtain ⟨t1, ht1, rfl⟩ := Option.map_eq_some_iff.mp hs
    obtain ⟨r, hr, rfl⟩ := Option.map_eq_some_iff.mp ht1
    rw [h.server] at hr
    refine ⟨.server l, { t with server := r.1 }, ⟨id, id, rfl⟩, ?_, h.call, rfl, h.est, h.eof⟩
    rw [Fleet.step, hr]
    rfl

/-- A run of the process, each step of which meets `ok`, is a run of the fleet, each step of which meets `ok'`. -/
theorem ClientProcess.simulate {ok : ClientProcess S KSUID → FleetLabel S KSUID → Prop}
    {ok' : Fleet S KSUID → FleetLabel S KSUID → Prop} (hids : Sessions ids n)
    (hown : ∀ p a, ok p a → p.Owns ids a)
    (hok : ∀ p t a b, Lockstep ids p t → FleetLabel.Same a b → ok p a → ok' t b)
    (h : Run (ClientProcess.step ids) ok ClientProcess.init ls p) :
    ∃ ls' t, List.Forall₂ FleetLabel.Same ls ls' ∧ Run (Fleet.step ids) ok' Fleet.init ls' t ∧ Lockstep ids p t := by
  refine h.trace_invariant (I := fun ls p => ∃ ls' t, List.Forall₂ FleetLabel.Same ls ls' ∧
    Run (Fleet.step ids) ok' Fleet.init ls' t ∧ Lockstep ids p t) ⟨[], _, .nil, .nil _, Lockstep.init⟩ ?_
  rintro ls p a p' ⟨ls', t, hall, hrun, hp⟩ ha hs
  obtain ⟨b, t', hsame, hstep, hp'⟩ := hp.step hids (hown p a ha) hs
  exact ⟨ls' ++ [b], t', List.rel_append hall (.cons hsame .nil), hrun.snoc (hok p t a b hp hsame ha) hstep, hp'⟩

/-- All calls of `transData` share their hubs: every run of the process is a run of the fleet, where each call has
    hubs of its own, with the same steps. The server ends in the same state, and every call is where it is there. -/
theorem shared_hubs_simulated (hids : Sessions ids n)
    (h : Run (ClientProcess.step ids) (ClientProcess.Owns ids) ClientProcess.init ls p) :
    ∃ ls' t, List.Forall₂ FleetLabel.Same ls ls' ∧ Run (Fleet.step ids) anyStep Fleet.init ls' t ∧ Lockstep ids p t :=
  ClientProcess.simulate hids (fun _ _ h => h) (fun _ _ _ _ _ _ _ => trivial) h

theorem TransPc.greets_rename (pc : TransPc) : (pc.rename ρ ρ').greets = pc.greets := by
  cases pc <;> rfl

omit [DecidableEq S] in
theorem Lockstep.orderly (h : Lockstep ids p t) (hsame : FleetLabel.Same a b) (hok : p.fleet.Orderly ids a) :
    t.Orderly ids b := by
  obtain ⟨ρ, ρ', rfl⟩ := hsame
  cases b with
  | client σ l =>
    obtain ⟨κ, κ', hmirror⟩ := h.call σ
    cases l with
    | transFail =>
      have hpc : (p.fleet.clients σ).pc = (t.clients σ).pc.rename κ κ' := hmirror.pc
      have hgreets : (p.fleet.clients σ).pc.greets = false := hok
      rwa [hpc, TransPc.greets_rename] at hgreets
    | tellClose ok =>
      have hcopy : (p.fleet.clients σ).copy = (t.clients σ).copy := hmirror.copy
      have herr : ok = true → (p.fleet.clients σ).copy.err = none := hok
      rwa [hcopy] at herr
    | _ => trivial
  | reply σ k x =>
    have hreply : p.fleet.est σ = true ∧ _ := hok
    rwa [h.est] at hreply
  | server l =>
    have hcalm : p.fleet.server.Calm l := hok
    rwa [h.server] at hcalm

/-- On the shared hubs, too, each destination is given what its own application sent, in order, and is half closed only
    after everything. -/
theorem process_in_order (hids : Sessions ids n)
    (h : Run (ClientProcess.step ids) (ClientProcess.Orderly ids) ClientProcess.init ls p)
    (he : e < p.fleet.server.nextEst) (hid : (ids σ)[0]? = some (p.fleet.server.ests e).id) :
    Delivered (p.fleet.server.links.socks e).out (p.fleet.clients σ).copy.reads
      ((p.fleet.clients σ).copy.pc = .done) := by
  obtain ⟨ls', t, -, hrun, hp⟩ := ClientProcess.simulate hids (fun _ _ h => h.1)
    (fun p t a b hp hsame hok => hp.orderly hsame hok.2) h
  obtain ⟨ms, x, hx⟩ := Fleet.refines hids hrun
  obtain ⟨ρ, ρ', hmirror⟩ := hp.call σ
  have hcopy : (p.fleet.clients σ).copy = (t.clients σ).copy := hmirror.copy
  rw [hp.server] at he hid ⊢
  rw [hcopy]
  exact hx.delivered hids he hid

/-! ### Two calls -/

instance Client.decidableOwns (ids : List KSUID) (s : Client KSUID) : (l : ClientLabel) → Decidable (s.Owns ids l)
  | .queueSend q _ _ => inferInstanceAs (Decidable ((s.queues.hub.obj q).masterID ∈ ids))
  | .linkSend q _ _ => inferInstanceAs (Decidable ((s.links.hub.obj q).master ∈ ids))
  | .trans | .transFail | .recv _ | .reader _ | .writeTimeout _ | .copyRead _ _ | .copy | .copyTimeout | .tellClose _
  | .linkDone _ _ => isTrue trivial

instance ClientProcess.decidableOrderly (ids : S → List KSUID) (p : ClientProcess S KSUID) :
    (a : FleetLabel S KSUID) → Decidable (p.Orderly ids a)
  | .client σ l =>
    inferInstanceAs (Decidable (((p.fleet.clients σ).on p.hubs).Owns (ids σ) l ∧ p.fleet.Orderly ids (.client σ l)))
  | .reply σ k x => inferInstanceAs (Decidable (True ∧ p.fleet.Orderly ids (.reply σ k x)))
  | .server l => inferInstanceAs (Decidable (True ∧ p.fleet.Orderly ids (.server l)))

/-- The queue and the link of the second call are the first ones in the hubs, so that those of the first call, which
    sends two chunks, are the next ones. -/
def chunksOnSharedHubs : List (FleetLabel Bool ℕ) :=
  List.replicate 2 (FleetLabel.client false .trans) ++ List.replicate 4 (FleetLabel.client true .trans) ++
    List.replicate 12 (FleetLabel.client false .trans) ++
    [FleetLabel.client false (.copyRead [1, 2] .more), .client false .copy, .client false .copy,
      .client false (.copyRead [3] .eof), .client false .copy, .client false .copy] ++
    List.replicate 8 (FleetLabel.client false (.queueSend 1 0 .ok)) ++ firstWrite.map FleetLabel.server

/-- The destination of the first call has its first chunk, the second one is on its way. -/
theorem exists_chunksOnSharedHubs :
    ∃ p, Run (ClientProcess.step twoSessions) (ClientProcess.Orderly twoSessions) ClientProcess.init
        chunksOnSharedHubs p ∧
      (p.fleet.server.links.socks 0).out = [.data [1, 2]] ∧ (p.fleet.clients false).copy.reads = [[1, 2], [3]] ∧
      p.fleet.server.nextEst = 1 ∧ (p.fleet.server.ests 0).id = 0 := by
  have hexec : (exec (ClientProcess.step twoSessions) (fun p a => decide (p.Orderly twoSessions a)) ClientProcess.init
      chunksOnSharedHubs).map (fun p => ((p.fleet.server.links.socks 0).out, (p.fleet.clients false).copy.reads,
        p.fleet.server.nextEst, (p.fleet.server.ests 0).id)) = some ([.data [1, 2]], [[1, 2], [3]], 1, 0) := by
    decide +kernel
  obtain ⟨p, hrun, hobs⟩ := exists_run_of_exec hexec
  obtain ⟨hout, hobs⟩ := Prod.mk.inj hobs
  obtain ⟨hreads, hobs⟩ := Prod.mk.inj hobs
  obtain ⟨hnext, hid⟩ := Prod.mk.inj hobs
  exact ⟨p, hrun.mono fun _ _ h => of_decide_eq_true h, hout, hreads, hnext, hid⟩

theorem shared_hubs_simulated_two :
    ∃ p ls t, Run (ClientProcess.step twoSessions) (ClientProcess.Owns twoSessions) ClientProcess.init
        chunksOnSharedHubs p ∧
      List.Forall₂ FleetLabel.Same chunksOnSharedHubs ls ∧
      Run (Fleet.step twoSessions) anyStep Fleet.init ls t ∧ Lockstep twoSessions p t := by
  obtain ⟨p, hrun, -⟩ := exists_chunksOnSharedHubs
  have howns := hrun.mono fun _ _ h => h.1
  obtain ⟨ls, t, hsame, hfleet, hp⟩ := shared_hubs_simulated sessions_twoSessions howns
  exact ⟨p, ls, t, howns, hsame, hfleet, hp⟩

theorem process_in_order_two :
    ∃ p, Run (ClientProcess.step twoSessions) (ClientProcess.Orderly twoSessions) ClientProcess.init
        chunksOnSharedHubs p ∧
      (p.fleet.server.links.socks 0).out = [.data [1, 2]] ∧
      Delivered (p.fleet.server.links.socks 0).out [[1, 2], [3]] ((p.fleet.clients false).copy.pc = .done) := by
  obtain ⟨p, hrun, hout, hreads, hnext, hid⟩ := exists_chunksOnSharedHubs
  refine ⟨p, hrun, hout, ?_⟩
  rw [← hreads]
  exact process_in_order (σ := false) sessions_twoSessions hrun (hnext ▸ Nat.zero_lt_one) (by rw [hid]; rfl)

end Inhabited

end Runs

end Wssocks.Wss

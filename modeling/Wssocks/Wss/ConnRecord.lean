import Wssocks.Lib.CountMap
import Wssocks.Lib.Lts
import Wssocks.Wss.Socks5

/-!
# The connection record of the client

`ConnRecord` (`conn_records.go`) counts the open connections of the client, in all and for each address. The
goroutine of a connection (`wssocks_client.go`, 113-150) calls `Update` when it has the address, and again, in a
deferred call with the same address, when it returns. `Update` holds `Mutex` for its whole body, so a run is a
sequence of calls.

Results:

* `records_count_open`: the record counts exactly the connections that are open, after every call.
-/

namespace Wssocks.Wss

open Wssocks.Lib Wssocks.Net

/-! ## The code -/

/-- `ConnStatus` -/
structure ConnStatus where
  address : Bytes
  isNew : Bool
  type : ProxyType
deriving DecidableEq

/-- `ConnRecord`. The two counters are of type `uint`: a decrement of zero wraps around (`uintPred`). Increments
do not: an open connection holds a file descriptor, of which there are fewer than `2 ^ 64`. `hasOnChange` tells
whether `OnChange` is set. -/
structure ConnRecord where
  connSize : ℕ
  addresses : AList fun _ : Bytes => ℕ
  hasOnChange : Bool
  queueHubLen : ℕ
  linkHubLen : ℕ

/-- `NewConnRecord` -/
def newConnRecord : ConnRecord := ⟨0, ∅, false, 0, 0⟩

/-- `n--` on a `uint`. -/
def uintPred (n : ℕ) : ℕ := if n = 0 then 2 ^ 64 - 1 else n - 1

/-- `Update`, with the lengths of the two hubs of the client at this time: the record and the argument of the
call of `OnChange`, if there is one. `none` is `logrus.Fatal("bad connection size")`, which ends the process. -/
def ConnRecord.update (cr : ConnRecord) (status : ConnStatus) (queueLen linkLen : ℕ) :
    Option (ConnRecord × Option ConnStatus) :=
  let report (cr : ConnRecord) :=
    ({ cr with queueHubLen := queueLen, linkHubLen := linkLen }, if cr.hasOnChange then some status else none)
  if status.isNew then
    let cr := { cr with connSize := cr.connSize + 1 }
    match cr.addresses.lookup status.address with
    | some size => some (report { cr with addresses := cr.addresses.insert status.address (size + 1) })
    | none => some (report { cr with addresses := cr.addresses.insert status.address 1 })
  else
    let cr := { cr with connSize := uintPred cr.connSize }
    match cr.addresses.lookup status.address with
    | some size =>
      if size > 0 then
        if size - 1 = 0 then some (report { cr with addresses := cr.addresses.erase status.address })
        else some (report { cr with addresses := cr.addresses.insert status.address (size - 1) })
      else none
    | none => none

/-! ## The connections -/

/-- A connection that has called `Update`: its address and type, and whether its second call is still to come. -/
structure Visit where
  address : Bytes
  type : ProxyType
  isOpen : Bool
deriving DecidableEq

/-- The client: the record, the connections so far, and whether the process was ended by `logrus.Fatal`. -/
structure Tracker where
  record : ConnRecord
  visits : List Visit
  fatal : Bool

/-- The two calls of `Update`: the first one of a new connection, and the second one of connection `i`. -/
inductive TrackerLabel where
  | enter (address : Bytes) (type : ProxyType) (queueLen linkLen : ℕ)
  | leave (i queueLen linkLen : ℕ)

namespace Tracker

/-- A client without connections; `OnChange` is set if `hasOnChange`. -/
def init (hasOnChange : Bool) : Tracker := ⟨{ newConnRecord with hasOnChange := hasOnChange }, [], false⟩

variable (t : Tracker)

/-- A call of `Update` after which the connections are `visits`. -/
def call (status : ConnStatus) (queueLen linkLen : ℕ) (visits : List Visit) : Tracker :=
  match t.record.update status queueLen linkLen with
  | some (cr, _) => { t with record := cr, visits := visits }
  | none => { t with fatal := true }

/-- One call of `Update`. -/
def step : TrackerLabel → Option Tracker
  | .enter address type queueLen linkLen =>
    if t.fatal then none
    else some (t.call ⟨address, true, type⟩ queueLen linkLen (t.visits ++ [⟨address, type, true⟩]))
  | .leave i queueLen linkLen =>
    if t.fatal then none
    else match t.visits[i]? with
      | some ⟨address, type, true⟩ =>
        some (t.call ⟨address, false, type⟩ queueLen linkLen (t.visits.set i ⟨address, type, false⟩))
      | _ => none

/-- How many connections to an address are open. -/
def opened (address : Bytes) : ℕ := t.visits.countP fun v => v.address = address ∧ v.isOpen = true

end Tracker

/-! ## What it counts -/

/-- The record counts the open connections. -/
structure Counted (t : Tracker) : Prop where
  entries : ∀ address,
    t.record.addresses.lookup address = if t.opened address = 0 then none else some (t.opened address)
  connSize : t.record.connSize = total t.record.addresses
  /-- The next decrement does not wrap around. -/
  positive : ∀ i queueLen linkLen t', t.step (.leave i queueLen linkLen) = some t' → 0 < t.record.connSize
  alive : t.fatal = false

/-- What `Update` does to the counts `f` when a connection is added. -/
theorem ConnRecord.update_new {cr : ConnRecord} {f : Bytes → ℕ} (h : Counts cr.addresses f) (address : Bytes)
    (type : ProxyType) (queueLen linkLen : ℕ) :
    ∃ cr' call, cr.update ⟨address, true, type⟩ queueLen linkLen = some (cr', call) ∧
      cr'.connSize = cr.connSize + 1 ∧ total cr'.addresses = total cr.addresses + 1 ∧
      Counts cr'.addresses (Function.update f address (f address + 1)) := by
  have htotal := total_insert cr.addresses address (f address + 1)
  rw [h.getD] at htotal
  have hcounts := h.insert address (Nat.succ_ne_zero (f address))
  by_cases h0 : f address = 0
  · have hlookup : cr.addresses.lookup address = none := by rw [h, if_pos h0]
    rw [h0] at htotal hcounts ⊢
    simp only [ConnRecord.update, if_true, hlookup]
    exact ⟨_, _, rfl, rfl, by simpa using htotal, hcounts⟩
  · have hlookup : cr.addresses.lookup address = some (f address) := by rw [h, if_neg h0]
    simp only [ConnRecord.update, if_true, hlookup]
    exact ⟨_, _, rfl, rfl, by dsimp only; omega, hcounts⟩

/-- What `Update` does to the counts `f` when a connection is removed. -/
theorem ConnRecord.update_old {cr : ConnRecord} {f : Bytes → ℕ} (h : Counts cr.addresses f) {address : Bytes}
    (hpos : 0 < f address) (hsize : cr.connSize = total cr.addresses) (type : ProxyType) (queueLen linkLen : ℕ) :
    ∃ cr' call, cr.update ⟨address, false, type⟩ queueLen linkLen = some (cr', call) ∧
      cr'.connSize + 1 = cr.connSize ∧ total cr'.addresses + 1 = total cr.addresses ∧
      Counts cr'.addresses (Function.update f address (f address - 1)) := by
  have hle := h.le_total address
  have hpred : uintPred cr.connSize + 1 = cr.connSize := by
    rw [uintPred, if_neg (by omega)]
    omega
  have hlookup : cr.addresses.lookup address = some (f address) := by rw [h, if_neg (by omega)]
  by_cases h1 : f address - 1 = 0
  · have herase := total_erase cr.addresses address
    rw [h.getD] at herase
    simp only [ConnRecord.update, Bool.false_eq_true, if_false, hlookup, gt_iff_lt, hpos, if_true, h1]
    exact ⟨_, _, rfl, hpred, by dsimp only; omega, h.erase address⟩
  · have hinsert := total_insert cr.addresses address (f address - 1)
    rw [h.getD] at hinsert
    simp only [ConnRecord.update, Bool.false_eq_true, if_false, hlookup, gt_iff_lt, hpos, if_true, h1]
    exact ⟨_, _, rfl, hpred, by dsimp only; omega, h.insert address h1⟩

/-- One more connection. -/
theorem Tracker.opened_append (t : Tracker) (cr : ConnRecord) (address : Bytes) (type : ProxyType) :
    ({ t with record := cr, visits := t.visits ++ [⟨address, type, true⟩] } : Tracker).opened =
      Function.update t.opened address (t.opened address + 1) := by
  funext a
  rw [Tracker.opened, List.countP_append]
  by_cases ha : a = address
  · subst ha
    simp [Tracker.opened]
  · rw [Function.update_of_ne ha]
    simp [Tracker.opened, Ne.symm ha]

/-- One connection less. -/
theorem Tracker.opened_set (t : Tracker) (cr : ConnRecord) {i : ℕ} {address : Bytes} {type : ProxyType}
    (hi : t.visits[i]? = some ⟨address, type, true⟩) :
    0 < t.opened address ∧
    ({ t with record := cr, visits := t.visits.set i ⟨address, type, false⟩ } : Tracker).opened =
      Function.update t.opened address (t.opened address - 1) := by
  obtain ⟨hlt, hget⟩ := List.getElem?_eq_some_iff.mp hi
  refine ⟨List.countP_pos_iff.mpr ⟨_, List.mem_of_getElem? hi, by simp⟩, ?_⟩
  funext a
  rw [Tracker.opened, List.countP_set hlt, hget]
  by_cases ha : a = address
  · subst ha
    simp [Tracker.opened]
  · rw [Function.update_of_ne ha]
    simp [Tracker.opened, Ne.symm ha]

/-- The next decrement finds a connection that is counted. -/
theorem Tracker.positive {t : Tracker} (h : Counts t.record.addresses t.opened)
    (hsize : t.record.connSize = total t.record.addresses) {i queueLen linkLen : ℕ} {t' : Tracker}
    (hstep : t.step (.leave i queueLen linkLen) = some t') : 0 < t.record.connSize := by
  rw [Tracker.step] at hstep
  split_ifs at hstep
  split at hstep
  · rename_i address type hi
    have hpos := (t.opened_set t.record hi).1
    have hle := h.le_total address
    omega
  · cases hstep

theorem Counted.of_counts {t : Tracker} (h : Counts t.record.addresses t.opened)
    (hsize : t.record.connSize = total t.record.addresses) (halive : t.fatal = false) : Counted t :=
  ⟨h, hsize, fun _ _ _ _ hstep => Tracker.positive h hsize hstep, halive⟩

theorem Counted.step {t t' : Tracker} {l : TrackerLabel} (h : Counted t) (hstep : t.step l = some t') :
    Counted t' := by
  have hsize := h.connSize
  cases l with
  | enter address type queueLen linkLen =>
    obtain ⟨cr, call, hupdate, hconn, htotal, hcounts⟩ :=
      ConnRecord.update_new (f := t.opened) h.entries address type queueLen linkLen
    rw [Tracker.step, if_neg (by simp [h.alive]), Tracker.call, hupdate] at hstep
    cases hstep
    refine .of_counts ?_ (by dsimp only; omega) h.alive
    rw [Tracker.opened_append]
    exact hcounts
  | leave i queueLen linkLen =>
    rw [Tracker.step, if_neg (by simp [h.alive])] at hstep
    split at hstep
    · rename_i address type hi
      obtain ⟨hpos, hset⟩ := t.opened_set t.record hi
      obtain ⟨cr, call, hupdate, hconn, htotal, hcounts⟩ :=
        ConnRecord.update_old (f := t.opened) h.entries hpos hsize type queueLen linkLen
      rw [Tracker.call, hupdate] at hstep
      cases hstep
      refine .of_counts ?_ (by dsimp only; omega) h.alive
      rw [(t.opened_set cr hi).2]
      exact hcounts
    · cases hstep

theorem Counted.init (hasOnChange : Bool) : Counted (Tracker.init hasOnChange) :=
  .of_counts counts_empty rfl rfl

/-- After every call of `Update` the record counts the open connections. -/
theorem records_count_open {hasOnChange : Bool} {ls : List TrackerLabel} {t : Tracker}
    (h : Run Tracker.step anyStep (Tracker.init hasOnChange) ls t) : Counted t :=
  h.invariant (I := Counted) (Counted.init hasOnChange) fun _ _ _ hc _ hstep => hc.step hstep

/-- Two connections to one address and one to another; the first one ends. -/
def threeVisits : List TrackerLabel :=
  [.enter (ascii "a:80") .socks5 0 0, .enter (ascii "b:80") .socks5 1 2, .enter (ascii "a:80") .http 2 4,
    .leave 0 3 6]

theorem records_count_open_three : ∃ t, Run Tracker.step anyStep (Tracker.init true) threeVisits t ∧ Counted t ∧
    t.record.connSize = 2 ∧ t.record.addresses.lookup (ascii "a:80") = some 1 := by
  have hexec : (exec Tracker.step (fun _ _ => true) (Tracker.init true) threeVisits).map
      (fun t => (t.record.connSize, t.record.addresses.lookup (ascii "a:80"))) = some (2, some 1) := by
    decide +kernel
  obtain ⟨t, hrun, hobs⟩ := exists_run_of_exec hexec
  have hrun' : Run Tracker.step anyStep (Tracker.init true) threeVisits t := hrun.mono fun _ _ _ => trivial
  exact ⟨t, hrun', records_count_open hrun', congrArg Prod.fst hobs, congrArg Prod.snd hobs⟩

end Wssocks.Wss

import Wssocks.Lib.Numeral
import Wssocks.Lib.Terminal
import Wssocks.Lib.Utf8
import Wssocks.Wss.ConnRecord

/-!
# The table of connections on the terminal (wss/term_view)

On a terminal the client shows a table of its connections below its log. Every call of `ConnRecord.Update` draws the
table anew (`OnChange`, client/client.go:227-231), and so does every line that is logged (`ProgressLog.Write`): the
rows of the table are erased, the log line is written where the table began, and the table is written below it.
`Update` and `ProgressLog.Write` hold the mutex of the record for their whole bodies, so a run is a sequence of these
two.

What is logged comes in whole lines, as `logrus` writes it, with or without the sequences that set colours; of such a
line the terminal shows the characters (`shown`). Left out: a change of the size of the terminal during a
run, and addresses with tabs or newlines, which `tabwriter` would take for the ends of cells and lines.

Results:

* `showRecords_eq`: which addresses the table shows and how many it hides.
* `length_table_lt`: the table leaves at least one row of the screen free.
* `screen_shows_log_and_table`: the terminal shows everything that was logged, in order, and below it one table with
  the connections that are open.
-/

namespace Wssocks.Wss

open Wssocks.Lib Wssocks.Net

/-! ## The table -/

/-- The width `text/tabwriter` gives to column `j`: that of its widest cell and 5 for the padding. In the table below
    the cells of a column are in consecutive lines, so that they are one block. -/
def colWidth (rows : List (List Bytes)) (j : ℕ) : ℕ :=
  (rows.filterMap fun row => (row[j]?).map fun c => (runes c).length).foldr max 0 + 5

/-- The lines `text/tabwriter` makes of rows of cells. -/
def tabLines (rows : List (List Bytes)) : List Bytes :=
  rows.map fun row => row.zipIdx.flatMap fun c => c.1 ++ List.replicate (colWidth rows c.2 - (runes c.1).length) 32

/-- The loop of `SetLogBuffer` over the addresses (wss/term_view/log.go:48-57): the rows it prints, and
    `terminalRows` and `recordsHiden` after it. -/
def showRecords : ℕ → ℕ → List (Bytes × ℕ) → List (List Bytes) × ℕ × ℕ
  | terminalRows, recordsHiden, [] => ([], terminalRows, recordsHiden)
  | terminalRows, recordsHiden, (addr, size) :: rest =>
    if terminalRows ≤ 2 then ([], terminalRows, recordsHiden)
    else
      let r := showRecords (terminalRows - 1) (recordsHiden - 1) rest
      ([addr, numeral 10 size] :: r.1, r.2)

/-- The rows below the addresses (wss/term_view/log.go:59-69). -/
def totalRows (r : ConnRecord) (terminalRows recordsHiden : ℕ) : List (List Bytes) :=
  if recordsHiden = 0 then
    [ascii "TOTAL", numeral 10 r.connSize] ::
      if terminalRows > 2 then
        [[ascii "QueueLen " ++ numeral 10 r.queueHubLen, ascii "LinkLen " ++ numeral 10 r.linkHubLen]]
      else []
  else [[ascii "TOTAL", numeral 10 r.connSize, ascii "(" ++ numeral 10 recordsHiden ++ ascii " record(s) hidden)"]]

/-- The rows `SetLogBuffer` prints on a terminal with `rows` rows (wss/term_view/log.go:42-70); `order` is the order in
    which it comes across the addresses. -/
def tableRows (rows : ℕ) (r : ConnRecord) (order : List (Bytes × ℕ)) : List (List Bytes) :=
  let terminalRows := rows - 1
  [ascii "TARGETs", ascii "CONNECTIONs"] ::
    if terminalRows ≥ 2 then
      let s := showRecords terminalRows order.length order
      s.1 ++ totalRows r s.2.1 s.2.2
    else []

/-- The lines of the table. -/
def table (rows : ℕ) (r : ConnRecord) (order : List (Bytes × ℕ)) : List Bytes := tabLines (tableRows rows r order)

/-! ## The writer -/

/-- What happens when the table is drawn: the rows `terminal.GetSize` returns, if it does not fail, the order of the
    addresses, and for each of the three writes to the terminal the number of bytes it takes if it fails. -/
structure Draw where
  rows : Option ℕ
  order : List (Bytes × ℕ)
  clearTaken : Option ℕ
  logTaken : Option ℕ
  tableTaken : Option ℕ

/-- The client's record with its connections, the buffer and the line count of `term_view.Writer`, and what was written
    to the terminal so far. `stuck` tells that a goroutine waits forever for the mutex of the record. -/
structure View where
  tracker : Tracker
  buf : Bytes
  lineCount : ℕ
  out : Bytes
  stuck : Bool

/-- The two entry points. -/
inductive ViewLabel where
  /-- A call of `ConnRecord.Update`. -/
  | update (l : TrackerLabel) (d : Draw)
  /-- A call of `ProgressLog.Write` with these lines. -/
  | write (texts : List Bytes) (d : Draw)

/-- What a write to the terminal device leaves there. -/
def deviceBytes (bs : Bytes) (taken : Option ℕ) : Bytes := taken.elim bs bs.take

/-- `clearLines` (wss/term_view/clear_lines_unix.go:13-18) -/
def clearLines (lines : ℕ) : Bytes := (List.replicate lines upErase).flatten

namespace View

/-- The record is empty and nothing was written. -/
def init : View := ⟨Tracker.init true, [], 0, [], false⟩

variable (v : View)

/-- The addresses of the record with their numbers, in some order. -/
def entries : List (Bytes × ℕ) := v.tracker.record.addresses.entries.map fun e => (e.1, e.2)

/-- The end of `Flush`: the buffer is written and reset. -/
def flushBuf (d : Draw) : View :=
  { v with lineCount := v.buf.count 10, out := v.out ++ deviceBytes v.buf d.tableTaken, buf := [] }

/-- `Flush` (wss/term_view/writer.go:64-97); `log` is what `onLinesCleared` writes, if it is not nil. -/
def flush (log : Option Bytes) (d : Draw) : View :=
  if v.buf = [] then v
  else
    let v := { v with out := v.out ++ deviceBytes (clearLines v.lineCount) d.clearTaken }
    match log with
    | none => v.flushBuf d
    | some bs =>
      let v := { v with out := v.out ++ deviceBytes bs d.logTaken }
      if d.logTaken.isSome then v else v.flushBuf d

/-- `SetLogBuffer` and `Flush`, with the mutex of the record held. An error of `GetSize` is logged, which asks for the
    mutex again. -/
def draw (log : Option Bytes) (d : Draw) : Option View :=
  if d.order.Perm v.entries then
    match d.rows with
    | none => some { v with stuck := true }
    | some rows => some (flush { v with buf := v.buf ++ unlines (Wss.table rows v.tracker.record d.order) } log d)
  else none

/-- One step. `logrus.Fatal` in `Update` logs, too. -/
def step : ViewLabel → Option View
  | .update l d =>
    if v.stuck then none
    else (v.tracker.step l).bind fun t =>
      if t.fatal then some { v with tracker := t, stuck := true } else draw { v with tracker := t } none d
  | .write texts d => if v.stuck then none else v.draw (some (unlines texts)) d

end View

/-! ## The table fits on the screen -/

section Table

variable {rows k h : ℕ} {r : ConnRecord} {order : List (Bytes × ℕ)} {texts : List Bytes} {cells : List (List Bytes)}

/-- The row of an address. -/
def recordRow (x : Bytes × ℕ) : List Bytes := [x.1, numeral 10 x.2]

/-- The loop shows the first addresses and leaves two rows; what it does not show is hidden. -/
theorem showRecords_eq (k h : ℕ) (order : List (Bytes × ℕ)) : showRecords k h order =
    ((order.take (k - 2)).map recordRow, k - (order.take (k - 2)).length, h - (order.take (k - 2)).length) := by
  induction order generalizing k h with
  | nil => simp [showRecords]
  | cons x order ih =>
    rw [showRecords]
    split_ifs with hle
    · simp [Nat.sub_eq_zero_of_le hle]
    · obtain ⟨m, rfl⟩ : ∃ m, k = m + 3 := ⟨k - 3, by omega⟩
      have htake : (x :: order).take (m + 3 - 2) = x :: order.take m := List.take_succ_cons
      have hleft : m + 3 - 1 - (order.take m).length = m + 3 - ((order.take m).length + 1) := by omega
      have hhidden : h - 1 - (order.take m).length = h - ((order.take m).length + 1) := by omega
      have hrest : m + 3 - 1 - 2 = m := by omega
      rw [ih, hrest, hleft, hhidden, htake, List.map_cons, List.length_cons]
      rfl

theorem length_totalRows_lt (hk : 2 ≤ k) : (totalRows r k h).length < k := by
  unfold totalRows
  split_ifs with h0 h2
  · exact h2
  · exact hk
  · exact hk

/-- The table leaves a row of the screen free. -/
theorem length_table_lt (r : ConnRecord) (order : List (Bytes × ℕ)) (hrows : 2 ≤ rows) :
    (table rows r order).length < rows := by
  rw [table, tabLines, List.length_map, tableRows, List.length_cons]
  split_ifs with h2
  · rw [showRecords_eq, List.length_append, List.length_map]
    have hshown : (order.take (rows - 1 - 2)).length ≤ rows - 1 - 2 := List.length_take_le ..
    have htotal := length_totalRows_lt (r := r) (h := order.length - (order.take (rows - 1 - 2)).length)
      (show 2 ≤ rows - 1 - (order.take (rows - 1 - 2)).length by omega)
    dsimp only
    omega
  · rw [List.length_nil]
    omega

/-- All bytes are printable. -/
def Plain (bs : Bytes) : Prop := ∀ b ∈ bs, Printable b

instance Plain.decidable : DecidablePred Plain := fun bs => inferInstanceAs (Decidable (∀ b ∈ bs, Printable b))

/-- All bytes are printable or in sequences that set the colour. -/
def Styled (bs : Bytes) : Prop := (strip bs).isSome

instance Styled.decidable : DecidablePred Styled := fun bs => inferInstanceAs (Decidable ((strip bs).isSome = true))

theorem Plain.styled {bs : Bytes} (h : Plain bs) : Styled bs := by
  rw [Styled, strip_of_printable h]
  rfl

theorem Plain.append {bs cs : Bytes} (hb : Plain bs) (hc : Plain cs) : Plain (bs ++ cs) := by
  intro b h
  rcases List.mem_append.mp h with h | h
  · exact hb b h
  · exact hc b h

theorem plain_numeral (n : ℕ) : Plain (numeral 10 n) := by
  intro b hb
  obtain ⟨d, hd, rfl⟩ := exists_digit_of_mem (by decide) hb
  have hall : ∀ d < 10, Printable (digitByte d) := by decide
  exact hall d hd

theorem plain_tabLines (hcells : ∀ row ∈ cells, ∀ c ∈ row, Plain c) : ∀ l ∈ tabLines cells, Plain l := by
  intro l hl b hb
  obtain ⟨row, hrow, rfl⟩ := List.mem_map.mp hl
  obtain ⟨⟨c, j⟩, hc, hb⟩ := List.mem_flatMap.mp hb
  have hcell : c ∈ row := List.fst_mem_of_mem_zipIdx hc
  rcases List.mem_append.mp hb with hb | hb
  · exact hcells row hrow c hcell b hb
  · rw [List.eq_of_mem_replicate hb]
    decide

theorem plain_recordRow {x : Bytes × ℕ} (hx : Plain x.1) : ∀ c ∈ recordRow x, Plain c := by
  intro c hc
  rcases List.mem_cons.mp hc with rfl | hc
  · exact hx
  · rw [List.mem_singleton.mp hc]
    exact plain_numeral _

theorem plain_totalRows : ∀ row ∈ totalRows r k h, ∀ c ∈ row, Plain c := by
  have htotal : Plain (ascii "TOTAL") := by decide +kernel
  have hqueue : Plain (ascii "QueueLen ") := by decide +kernel
  have hlink : Plain (ascii "LinkLen ") := by decide +kernel
  have hopen : Plain (ascii "(") := by decide +kernel
  have hhidden : Plain (ascii " record(s) hidden)") := by decide +kernel
  have hn := plain_numeral
  unfold totalRows
  split_ifs
  · simp only [List.forall_mem_cons, List.not_mem_nil, false_imp_iff, implies_true, and_true]
    exact ⟨⟨htotal, hn _⟩, hqueue.append (hn _), hlink.append (hn _)⟩
  · simp only [List.forall_mem_cons, List.not_mem_nil, false_imp_iff, implies_true, and_true]
    exact ⟨htotal, hn _⟩
  · simp only [List.forall_mem_cons, List.not_mem_nil, false_imp_iff, implies_true, and_true]
    exact ⟨htotal, hn _, (hopen.append (hn _)).append hhidden⟩

theorem plain_table (rows : ℕ) (r : ConnRecord) (horder : ∀ x ∈ order, Plain x.1) :
    ∀ l ∈ table rows r order, Plain l := by
  refine plain_tabLines fun row hrow => ?_
  rcases List.mem_cons.mp hrow with rfl | hrow
  · decide +kernel
  · split_ifs at hrow
    · rcases List.mem_append.mp hrow with hrow | hrow
      · rw [showRecords_eq] at hrow
        obtain ⟨x, hx, rfl⟩ := List.mem_map.mp hrow
        exact plain_recordRow (horder x (List.mem_of_mem_take hx))
      · exact plain_totalRows row hrow
    · cases hrow

theorem count_unlines (htexts : ∀ l ∈ texts, Plain l) : (unlines texts).count 10 = texts.length := by
  induction texts with
  | nil => rfl
  | cons l texts ih =>
    have hnone : 10 ∉ l := fun h => absurd (htexts l (List.mem_cons_self ..) 10 h) (by decide)
    have hl : l.count 10 = 0 := List.count_eq_zero.mpr hnone
    have hrest := ih fun x hx => htexts x (List.mem_cons_of_mem _ hx)
    rw [unlines, List.flatMap_cons, List.count_append, List.count_append, hl]
    rw [unlines] at hrest
    rw [hrest, List.length_cons, List.count_singleton_self]
    omega

end Table

/-! ## What the terminal shows -/

section Shows

variable {sz : Size} {t0 : Terminal} {content tbl : List Bytes} {v v' : View} {d : Draw} {log : Option (List Bytes)}
  {ls : List ViewLabel}

/-- `GetSize` returns the rows of the terminal and its writes succeed. -/
structure Draw.Fine (sz : Size) (d : Draw) : Prop where
  rows : d.rows = some sz.rows
  clear : d.clearTaken = none
  log : d.logTaken = none
  table : d.tableTaken = none

/-- The addresses are printable and the lines of the table are not wider than the terminal. -/
def Draw.Fits (sz : Size) (r : ConnRecord) (d : Draw) : Prop :=
  (∀ x ∈ d.order, Plain x.1) ∧ ∀ l ∈ Wss.table sz.rows r d.order, l.length ≤ sz.cols

/-- The terminal shows `content` and below it, on the screen, the table the writer has counted. -/
structure Shows (sz : Size) (t0 : Terminal) (content : List Bytes) (v : View) (tbl : List Bytes) : Prop where
  rows : At sz (t0.write sz v.out) (content ++ tbl) []
  screen : (t0.write sz v.out).top ≤ content.length
  lineCount : v.lineCount = tbl.length
  buf : v.buf = []

/-- What `draw` writes. -/
theorem View.draw_eq (hbuf : v.buf = []) (hfine : d.Fine sz) (hplain : ∀ x ∈ d.order, Plain x.1)
    (h : v.draw (log.map unlines) d = some v') :
    v' = { v with
      out := v.out ++ clearLines v.lineCount ++ unlines (log.getD []) ++
        unlines (table sz.rows v.tracker.record d.order)
      lineCount := (table sz.rows v.tracker.record d.order).length } := by
  obtain ⟨-, h⟩ := Option.ite_none_right_eq_some.mp h
  rw [hfine.rows] at h
  have hcount := count_unlines (plain_table sz.rows v.tracker.record hplain)
  have hne : unlines (table sz.rows v.tracker.record d.order) ≠ [] := by
    intro hnil
    rw [hnil] at hcount
    cases hcount
  cases h
  rw [View.flush, hbuf, List.nil_append, if_neg hne]
  cases log with
  | none =>
    have hnil : unlines [] = [] := rfl
    simp [View.flushBuf, hfine.clear, hfine.table, deviceBytes, hcount, hnil]
  | some texts => simp [View.flushBuf, hfine.clear, hfine.table, hfine.log, deviceBytes, hcount]

/-- The table is erased, what is logged is written below the content, and the new table below that. -/
theorem Shows.draw (h : Shows sz t0 content v tbl) (hrows : 2 ≤ sz.rows) (hfine : d.Fine sz)
    (hfits : d.Fits sz v.tracker.record) (hlog : ∀ l ∈ log.getD [], Styled l)
    (hs : v.draw (log.map unlines) d = some v') :
    Shows sz t0 (content ++ (log.getD []).flatMap fun l => wrap sz.cols (shown l)) v'
        (table sz.rows v.tracker.record d.order) ∧
      v'.tracker = v.tracker ∧ v'.stuck = v.stuck := by
  rw [View.draw_eq h.buf hfine hfits.1 hs]
  obtain ⟨hclear, htop⟩ := h.rows.clear h.screen
  rw [← h.lineCount, ← clearLines, ← Terminal.write_append] at hclear htop
  obtain ⟨hlogged, hkeep⟩ := hclear.write_lines hlog
  rw [← Terminal.write_append] at hlogged hkeep
  have hplain := plain_table sz.rows v.tracker.record hfits.1
  obtain ⟨htable, hkeep'⟩ := hlogged.write_lines fun l hl => (hplain l hl).styled
  rw [← Terminal.write_append] at htable hkeep'
  rw [flatMap_wrap hplain hfits.2] at htable
  refine ⟨⟨htable, ?_, rfl, h.buf⟩, rfl, rfl⟩
  -- the table is short enough to be on the screen as a whole
  have hshort := length_table_lt v.tracker.record d.order hrows
  have hscreen := h.screen
  have hrow := hlogged.row
  have hrow' := htable.row
  have h1 := hkeep.2
  have h2 := hkeep'.2
  rw [List.length_append] at hrow' ⊢
  dsimp only
  rw [List.length_append] at hrow hrow'
  omega

/-! ## Whole runs -/

/-- The steps of a run: the drawing goes well, the addresses are printable and so is what is logged, apart from
    colours. -/
def View.Fits (sz : Size) (v : View) : ViewLabel → Prop
  | .update l d => d.Fine sz ∧ ∀ t, v.tracker.step l = some t → d.Fits sz t.record
  | .write texts d => d.Fine sz ∧ d.Fits sz v.tracker.record ∧ ∀ l ∈ texts, Styled l

/-- The lines that were logged. -/
def logged (ls : List ViewLabel) : List Bytes :=
  ls.flatMap fun l => match l with
    | .update _ _ => []
    | .write texts _ => texts

theorem logged_append (ls : List ViewLabel) (l : ViewLabel) : logged (ls ++ [l]) = logged ls ++ logged [l] :=
  List.flatMap_append

/-- `order` has the addresses with open connections and how many there are, each address once; `connSize` is their
    sum. -/
structure Lists (t : Tracker) (order : List (Bytes × ℕ)) : Prop where
  nodup : (order.map Prod.fst).Nodup
  mem : ∀ a n, (a, n) ∈ order ↔ n = t.opened a ∧ 0 < n
  sum : t.record.connSize = (order.map Prod.snd).sum

theorem Counted.lists {order : List (Bytes × ℕ)} (h : Counted v.tracker) (hperm : order.Perm v.entries) :
    Lists v.tracker order where
  nodup := by
    refine (hperm.map Prod.fst).nodup_iff.mpr ?_
    rw [View.entries, List.map_map]
    exact v.tracker.record.addresses.nodupKeys
  mem := by
    intro a n
    have hmem : (a, n) ∈ order ↔ (⟨a, n⟩ : Sigma fun _ => ℕ) ∈ v.tracker.record.addresses.entries := by
      rw [hperm.mem_iff, View.entries, List.mem_map]
      constructor
      · rintro ⟨⟨a', n'⟩, hin, heq⟩
        cases heq
        exact hin
      · exact fun hin => ⟨_, hin, rfl⟩
    rw [hmem, ← AList.mem_lookup_iff, Option.mem_def, h.entries]
    split_ifs with h0
    · rw [h0]
      exact ⟨fun h => (by cases h), fun ⟨h, hpos⟩ => absurd h (Nat.ne_of_gt hpos)⟩
    · rw [Option.some.injEq]
      exact ⟨fun h => ⟨h.symm, by omega⟩, fun h => h.1.symm⟩
  sum := by
    rw [h.connSize, total, (hperm.map Prod.snd).sum_eq, View.entries, List.map_map]
    rfl

/-- What holds in every state of a run; before the first step there is no table. -/
structure ViewInv (sz : Size) (t0 : Terminal) (rows : List Bytes) (ls : List ViewLabel) (v : View) : Prop where
  counted : Counted v.tracker
  free : v.stuck = false
  shows : ∃ tbl, Shows sz t0 (rows ++ (logged ls).flatMap fun l => wrap sz.cols (shown l)) v tbl ∧
    (ls ≠ [] → ∃ order, Lists v.tracker order ∧ tbl = table sz.rows v.tracker.record order)

/-- The table is drawn, with the connections that are open now. -/
theorem ViewInv.draw {rows tbl : List Bytes} {l : ViewLabel} (log : Option (List Bytes))
    (hcounted : Counted v.tracker) (hfree : v.stuck = false)
    (hshows : Shows sz t0 (rows ++ (logged ls).flatMap fun l => wrap sz.cols (shown l)) v tbl) (hrows : 2 ≤ sz.rows)
    (hfine : d.Fine sz) (hfits : d.Fits sz v.tracker.record) (hl : logged [l] = log.getD [])
    (hlog : ∀ l ∈ log.getD [], Styled l) (hs : v.draw (log.map unlines) d = some v') :
    ViewInv sz t0 rows (ls ++ [l]) v' := by
  obtain ⟨hshows', htracker, hstuck⟩ := hshows.draw hrows hfine hfits hlog hs
  have hperm := (Option.ite_none_right_eq_some.mp hs).1
  refine ⟨by rwa [htracker], by rwa [hstuck], _, ?_, fun _ => ⟨d.order, ?_, by rw [htracker]⟩⟩
  · rwa [logged_append, hl, List.flatMap_append, ← List.append_assoc]
  · rw [htracker]
    exact hcounted.lists hperm

theorem ViewInv.step {rows : List Bytes} {l : ViewLabel} (inv : ViewInv sz t0 rows ls v) (hrows : 2 ≤ sz.rows)
    (hfits : v.Fits sz l) (hs : v.step l = some v') : ViewInv sz t0 rows (ls ++ [l]) v' := by
  obtain ⟨tbl, hshows, -⟩ := inv.shows
  cases l with
  | update l d =>
    obtain ⟨-, hs⟩ := Option.ite_none_left_eq_some.mp hs
    obtain ⟨t, ht, hs⟩ := Option.bind_eq_some_iff.mp hs
    have hcounted := inv.counted.step ht
    rw [if_neg (by simp [hcounted.alive])] at hs
    have hshows' : Shows sz t0 _ { v with tracker := t } tbl :=
      ⟨hshows.rows, hshows.screen, hshows.lineCount, hshows.buf⟩
    exact ViewInv.draw (v := { v with tracker := t }) none hcounted inv.free hshows' hrows hfits.1 (hfits.2 t ht) rfl
      (fun l hl => (by cases hl)) hs
  | write texts d =>
    obtain ⟨-, hs⟩ := Option.ite_none_left_eq_some.mp hs
    have htexts : logged [.write texts d] = texts := List.append_nil texts
    exact ViewInv.draw (some texts) inv.counted inv.free hshows hrows hfits.1 hfits.2.1 htexts hfits.2.2 hs

/-- In every run, with printable lines and addresses and a table that is not too wide: what the terminal shows is what
    it showed before, all lines that were logged, and the table of the open connections; this is on the screen as a
    whole. Of lines with colours the characters are shown. -/
theorem screen_shows_log_and_table {rows : List Bytes} (hrows : 2 ≤ sz.rows) (h0 : At sz t0 rows [])
    (h : Run View.step (View.Fits sz) View.init ls v) (hne : ls ≠ []) :
    ∃ order, Lists v.tracker order ∧
      At sz (t0.write sz v.out)
        (rows ++ ((logged ls).flatMap fun l => wrap sz.cols (shown l)) ++ table sz.rows v.tracker.record order) [] ∧
      (t0.write sz v.out).top ≤ (rows ++ (logged ls).flatMap fun l => wrap sz.cols (shown l)).length := by
  have inv : ViewInv sz t0 rows ls v := by
    refine h.trace_invariant (I := ViewInv sz t0 rows) ?_ fun _ _ _ _ inv hfits hs => inv.step hrows hfits hs
    refine ⟨Counted.init true, rfl, [], ⟨?_, ?_, rfl, rfl⟩, fun hne => absurd rfl hne⟩
    · simpa [logged, View.init, Terminal.write] using h0
    · have htop := h0.top
      rw [h0.row] at htop
      simpa [logged, View.init, Terminal.write] using htop
  obtain ⟨tbl, hshows, htbl⟩ := inv.shows
  obtain ⟨order, hlists, rfl⟩ := htbl hne
  exact ⟨order, hlists, hshows.rows, hshows.screen⟩

instance Draw.decidableFine (sz : Size) (d : Draw) : Decidable (d.Fine sz) :=
  decidable_of_iff (d.rows = some sz.rows ∧ d.clearTaken = none ∧ d.logTaken = none ∧ d.tableTaken = none)
    ⟨fun h => ⟨h.1, h.2.1, h.2.2.1, h.2.2.2⟩, fun h => ⟨h.rows, h.clear, h.log, h.table⟩⟩

instance Draw.decidableFits (sz : Size) (r : ConnRecord) (d : Draw) : Decidable (d.Fits sz r) :=
  inferInstanceAs (Decidable ((∀ x ∈ d.order, Plain x.1) ∧ ∀ l ∈ table sz.rows r d.order, l.length ≤ sz.cols))

instance View.decidableFits (sz : Size) (v : View) : (l : ViewLabel) → Decidable (v.Fits sz l)
  | .update l d =>
    decidable_of_iff (d.Fine sz ∧ (v.tracker.step l).all fun t => decide (d.Fits sz t.record))
      (by simp [View.Fits, Option.all_eq_true])
  | .write texts d =>
    inferInstanceAs (Decidable (d.Fine sz ∧ d.Fits sz v.tracker.record ∧ ∀ l ∈ texts, Styled l))

/-- A line as `logrus` writes it on a terminal. -/
def colouredLine : Bytes := [27, 91, 51, 54, 109] ++ ascii "INFO" ++ [27, 91, 48, 109] ++ ascii "[0001] hello"

/-- On a screen of five rows: two connections, a log line, and the end of one of the connections. -/
def fourDrawings : List ViewLabel :=
  [.update (.enter (ascii "a:80") .socks5 1 2) ⟨some 5, [(ascii "a:80", 1)], none, none, none⟩,
    .update (.enter (ascii "b:80") .socks5 2 4) ⟨some 5, [(ascii "a:80", 1), (ascii "b:80", 1)], none, none, none⟩,
    .write [colouredLine] ⟨some 5, [(ascii "b:80", 1), (ascii "a:80", 1)], none, none, none⟩,
    .update (.leave 0 2 4) ⟨some 5, [(ascii "b:80", 1)], none, none, none⟩]

/-- A terminal with one row. -/
def prompt : Terminal := ⟨fun i => if i = 0 then ascii "$ wssocks client" else [], 0, 1, 0, .ground⟩

theorem screen_shows_log_and_table_four :
    ∃ v order, Run View.step (View.Fits ⟨5, 40⟩) View.init fourDrawings v ∧ Lists v.tracker order ∧
      At ⟨5, 40⟩ (prompt.write ⟨5, 40⟩ v.out)
        ([ascii "$ wssocks client", ascii "INFO[0001] hello"] ++ table 5 v.tracker.record order) [] := by
  have hexec : (exec View.step (fun v l => decide (v.Fits ⟨5, 40⟩ l)) View.init fourDrawings).map (fun _ => ()) =
      some () := by
    decide +kernel
  obtain ⟨v, hrun, -⟩ := exists_run_of_exec hexec
  have hfits : Run View.step (View.Fits ⟨5, 40⟩) View.init fourDrawings v := hrun.mono fun _ _ h => of_decide_eq_true h
  have hprompt : At ⟨5, 40⟩ prompt [ascii "$ wssocks client"] [] := by
    refine ⟨fun i => ?_, rfl, rfl, rfl, by decide, by decide⟩
    cases i with
    | zero => rfl
    | succ i => cases i <;> rfl
  obtain ⟨order, hlists, hat, -⟩ := screen_shows_log_and_table (by decide) hprompt hfits (by simp [fourDrawings])
  have hlog : ([ascii "$ wssocks client"] ++ (logged fourDrawings).flatMap fun l => wrap 40 (shown l)) =
      [ascii "$ wssocks client", ascii "INFO[0001] hello"] := by
    decide +kernel
  rw [hlog] at hat
  exact ⟨v, order, hfits, hlists, hat⟩

end Shows

end Wssocks.Wss

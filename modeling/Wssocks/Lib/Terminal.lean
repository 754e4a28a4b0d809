import Mathlib.Data.List.GetD
import Mathlib.Data.List.Induction
import Mathlib.Data.List.TakeDrop
import Mathlib.Logic.Function.Basic
import Mathlib.Tactic.Basic

/-!
# A terminal

What a terminal of a fixed size shows of the bytes that are written to it: printable
characters, line feeds, and the two control sequences that move the cursor up and
erase in the line. How characters look is not shown: the sequences that set it have no
effect. Rows are counted from the first row ever shown; the screen is the
rows from `top` on, and what has scrolled out at the top stays as it is and cannot be
reached by the cursor. A line feed also returns the cursor to the first column, as the
line discipline of a terminal device has it. A character after the last column goes to
the next row.

Results:

* `At.write_lines`: a line of text, coloured or not, takes the rows `wrap` says, below what is shown.
* `At.clear`: moving up and erasing, as often as there are rows, removes rows that are on the screen.
-/

namespace Wssocks.Lib

/-- The size of the screen. -/
structure Size where
  rows : ℕ
  cols : ℕ
  deriving DecidableEq, Repr

/-- Where the terminal is in a control sequence; `csi n` is after `ESC [` and the number `n`. -/
inductive Mode where
  | ground
  | escape
  | csi (n : Option ℕ)
  deriving DecidableEq, Repr

/-- The rows, the first row on the screen and the cursor. -/
structure Terminal where
  line : ℕ → List UInt8
  top : ℕ
  row : ℕ
  col : ℕ
  mode : Mode

/-- The characters that take one column. -/
def Printable (b : UInt8) : Prop := 32 ≤ b.toNat ∧ b.toNat < 127

instance Printable.decidable : DecidablePred Printable :=
  fun b => inferInstanceAs (Decidable (32 ≤ b.toNat ∧ b.toNat < 127))

namespace Terminal

variable (sz : Size) (t : Terminal)

/-- The cursor goes to the next row; on the last one the screen scrolls. -/
def down : Terminal :=
  { t with row := t.row + 1, top := if t.row + 1 < t.top + sz.rows then t.top else t.top + 1 }

/-- The cursor goes up, but not beyond the first row of the screen. -/
def up (n : ℕ) : Terminal := { t with row := max t.top (t.row - n) }

/-- Erase in the line: from the cursor, up to the cursor, or all of it. -/
def erase (n : ℕ) : Terminal :=
  let l := t.line t.row
  let l' := if n = 0 then l.take t.col else if n = 1 then List.replicate (t.col + 1) 32 ++ l.drop (t.col + 1)
    else if n = 2 then [] else l
  { t with line := Function.update t.line t.row l' }

/-- A character is shown at the cursor. -/
def place (b : UInt8) : Terminal :=
  let l := t.line t.row
  let l' := l.take t.col ++ List.replicate (t.col - l.length) 32 ++ b :: l.drop (t.col + 1)
  { t with line := Function.update t.line t.row l', col := t.col + 1 }

/-- A character is written: after the last column the next row begins. -/
def put (b : UInt8) : Terminal := (if t.col < sz.cols then t else { t.down sz with col := 0 }).place b

/-- The effect of a byte. -/
def byte (b : UInt8) : Terminal :=
  match t.mode with
  | .ground =>
    if b = 27 then { t with mode := .escape }
    else if b = 10 then { t.down sz with col := 0 }
    else if Printable b then t.put sz b
    else t
  | .escape => { t with mode := if b = 91 then .csi none else .ground }
  | .csi n =>
    if 48 ≤ b.toNat ∧ b.toNat ≤ 57 then { t with mode := .csi (some (10 * n.getD 0 + (b.toNat - 48))) }
    else
      let t := if b = 65 then t.up (max 1 (n.getD 1)) else if b = 75 then t.erase (n.getD 0) else t
      { t with mode := .ground }

/-- The effect of a sequence of bytes. -/
def write (bs : List UInt8) : Terminal := bs.foldl (byte sz) t

theorem write_cons (b : UInt8) (bs : List UInt8) : t.write sz (b :: bs) = (t.byte sz b).write sz bs := rfl

theorem write_append (bs bs' : List UInt8) : t.write sz (bs ++ bs') = (t.write sz bs).write sz bs' := List.foldl_append

end Terminal

open Terminal

variable {sz : Size} {t t' : Terminal} {rows : List (List UInt8)} {cur bs : List UInt8} {b : UInt8}

/-! ## What is shown -/

/-- The rows so far are `rows`, the cursor is behind `cur` in the row below, and there is nothing after it. -/
structure At (sz : Size) (t : Terminal) (rows : List (List UInt8)) (cur : List UInt8) : Prop where
  line : ∀ i, t.line i = (rows ++ [cur]).getD i []
  row : t.row = rows.length
  col : t.col = cur.length
  mode : t.mode = .ground
  top : t.top ≤ t.row
  bottom : t.row < t.top + sz.rows

theorem At.with_ground (h : At sz t rows cur) : ({ t with mode := .ground } : Terminal) = t := by
  rw [← h.mode]

/-- The rows that a line of text takes when the first one has `cur` already. -/
def wrapFrom (cols : ℕ) (cur : List UInt8) : List UInt8 → List (List UInt8)
  | [] => [cur]
  | b :: bs => if cur.length < cols then wrapFrom cols (cur ++ [b]) bs else cur :: wrapFrom cols [b] bs

/-- The rows that a line of text takes. -/
def wrap (cols : ℕ) (bs : List UInt8) : List (List UInt8) := wrapFrom cols [] bs

theorem wrapFrom_of_length_le {cols : ℕ} (h : cur.length + bs.length ≤ cols) : wrapFrom cols cur bs = [cur ++ bs] := by
  induction bs generalizing cur with
  | nil => rw [wrapFrom, List.append_nil]
  | cons b bs ih =>
    rw [List.length_cons] at h
    rw [wrapFrom, if_pos (by omega), ih (by rw [List.length_append, List.length_singleton]; omega), List.append_assoc]
    rfl

/-- A line that fits takes one row. -/
theorem wrap_of_length_le {cols : ℕ} (h : bs.length ≤ cols) : wrap cols bs = [bs] :=
  wrapFrom_of_length_le (by rwa [List.length_nil, Nat.zero_add])

/-- What was below the screen's first row stays on the screen unless the cursor needs the space. -/
def Keeps (sz : Size) (t t' : Terminal) : Prop := t.row ≤ t'.row ∧ t'.top ≤ max t.top (t'.row + 1 - sz.rows)

theorem Keeps.trans {t'' : Terminal} (h : Keeps sz t t') (h' : Keeps sz t' t'') : Keeps sz t t'' := by
  obtain ⟨h1, h2⟩ := h
  obtain ⟨h3, h4⟩ := h'
  exact ⟨Nat.le_trans h1 h3, by omega⟩

theorem Keeps.refl : Keeps sz t t := ⟨Nat.le_refl _, Nat.le_max_left _ _⟩

/-- The row of the cursor in a list of rows, and the rows elsewhere. -/
theorem getD_append_singleton (rows : List (List UInt8)) (cur : List UInt8) (i : ℕ) :
    (rows ++ [cur]).getD i [] = if i = rows.length then cur else rows.getD i [] := by
  split_ifs with hi
  · subst hi
    simp
  · rcases Nat.lt_or_gt_of_ne hi with hlt | hgt
    · rw [List.getD_append _ _ _ _ hlt]
    · rw [List.getD_eq_default _ _ (by simp; omega), List.getD_eq_default _ _ (by omega)]

theorem At.line_cursor (h : At sz t rows cur) : t.line t.row = cur := by
  rw [h.line, getD_append_singleton, if_pos h.row]

/-- The cursor goes to an empty row. -/
theorem At.down (h : At sz t rows cur) : At sz { t.down sz with col := 0 } (rows ++ [cur]) [] ∧
    Keeps sz t { t.down sz with col := 0 } := by
  have htop := h.top
  have hbottom := h.bottom
  have htop' : (t.down sz).top ≤ t.row + 1 ∧ t.row + 1 < (t.down sz).top + sz.rows ∧
      (t.down sz).top ≤ max t.top (t.row + 1 + 1 - sz.rows) := by
    dsimp only [Terminal.down]
    split_ifs <;> omega
  refine ⟨⟨fun i => ?_, ?_, rfl, h.mode, htop'.1, htop'.2.1⟩, Nat.le_succ _, htop'.2.2⟩
  · rw [getD_append_singleton]
    split_ifs with hi
    · refine (h.line i).trans (List.getD_eq_default _ _ ?_)
      omega
    · exact h.line i
  · rw [List.length_append, ← h.row]
    rfl

theorem At.place (h : At sz t rows cur) : At sz (t.place b) rows (cur ++ [b]) := by
  have hline : (t.place b).line = Function.update t.line t.row (cur ++ [b]) := by
    have hdrop : List.drop (cur.length + 1) cur = [] := List.drop_eq_nil_of_le (Nat.le_succ _)
    simp [Terminal.place, h.line_cursor, h.col, hdrop]
  refine ⟨fun i => ?_, h.row, ?_, h.mode, h.top, h.bottom⟩
  · rw [hline, getD_append_singleton, ← h.row]
    by_cases hi : i = t.row
    · rw [if_pos hi, hi, Function.update_self]
    · rw [if_neg hi, Function.update_of_ne hi, h.line, getD_append_singleton, if_neg (h.row ▸ hi)]
  · rw [List.length_append, ← h.col]
    rfl

theorem byte_newline (hmode : t.mode = .ground) : t.byte sz 10 = { t.down sz with col := 0 } := by
  rw [Terminal.byte, hmode]
  rfl

/-! ## Lines of text -/

def isDigit (b : UInt8) : Bool := 48 ≤ b.toNat ∧ b.toNat ≤ 57

/-- What is shown of a line of printable characters and of sequences `ESC [ n m`, which set how the characters after
    them look. Other lines have other control characters. -/
def stripFrom : Mode → List UInt8 → Option (List UInt8)
  | .ground, [] => some []
  | .ground, b :: bs =>
    if b = 27 then stripFrom .escape bs
    else if Printable b then (stripFrom .ground bs).map (b :: ·) else none
  | .escape, b :: bs => if b = 91 then stripFrom (.csi none) bs else none
  | .csi n, b :: bs =>
    if isDigit b then stripFrom (.csi (some (10 * n.getD 0 + (b.toNat - 48)))) bs
    else if b = 109 then stripFrom .ground bs else none
  | _, [] => none

@[inherit_doc stripFrom]
def strip (bs : List UInt8) : Option (List UInt8) := stripFrom .ground bs

/-- The characters of such a line. -/
def shown (bs : List UInt8) : List UInt8 := (strip bs).getD []

theorem strip_of_printable (h : ∀ b ∈ bs, Printable b) : strip bs = some bs := by
  induction bs with
  | nil => rfl
  | cons b bs ih =>
    have hb : Printable b := h b (List.mem_cons_self ..)
    have h27 : b ≠ 27 := fun h => absurd hb (by rw [h]; decide)
    have hrest : stripFrom .ground bs = some bs := ih fun c hc => h c (List.mem_cons_of_mem _ hc)
    rw [strip, stripFrom, if_neg h27, if_pos hb, hrest]
    rfl

theorem byte_printable (hb : Printable b) : ({ t with mode := .ground } : Terminal).byte sz b =
    ({ t with mode := .ground } : Terminal).put sz b := by
  have h27 : b ≠ 27 := fun h => absurd hb (by rw [h]; decide)
  have h10 : b ≠ 10 := fun h => absurd hb (by rw [h]; decide)
  rw [Terminal.byte]
  dsimp only
  rw [if_neg h27, if_neg h10, if_pos hb]

/-- The bytes of a sequence `ESC [ n m` only change the mode. -/
theorem byte_escape : ({ t with mode := .ground } : Terminal).byte sz 27 = { t with mode := .escape } := rfl

theorem byte_bracket : ({ t with mode := .escape } : Terminal).byte sz 91 = { t with mode := .csi none } := rfl

theorem byte_m {n : Option ℕ} : ({ t with mode := .csi n } : Terminal).byte sz 109 = { t with mode := .ground } := rfl

theorem byte_digit {n : Option ℕ} (hb : isDigit b) : ({ t with mode := .csi n } : Terminal).byte sz b =
    { t with mode := .csi (some (10 * n.getD 0 + (b.toNat - 48))) } := by
  have hdigit : 48 ≤ b.toNat ∧ b.toNat ≤ 57 := of_decide_eq_true hb
  rw [Terminal.byte]
  dsimp only
  rw [if_pos hdigit]

/-- The rest of a line of text is written from the cursor on. -/
theorem At.write_text {m : Mode} {cs : List UInt8} (h : At sz t rows cur) (hbs : stripFrom m bs = some cs) :
    At sz (({ t with mode := m } : Terminal).write sz (bs ++ [10])) (rows ++ wrapFrom sz.cols cur cs) [] ∧
      Keeps sz t (({ t with mode := m } : Terminal).write sz (bs ++ [10])) := by
  induction bs generalizing t rows cur m cs with
  | nil =>
    cases m with
    | ground =>
      cases hbs
      rw [h.with_ground]
      have hnl : t.write sz ([] ++ [10]) = { t.down sz with col := 0 } := byte_newline h.mode
      rw [hnl, wrapFrom]
      exact h.down
    | escape => cases hbs
    | csi n => cases hbs
  | cons b bs ih =>
    rw [List.cons_append, write_cons]
    cases m with
    | ground =>
      rw [stripFrom] at hbs
      split_ifs at hbs with h27 hb
      · rw [h27, byte_escape]
        exact ih h hbs
      · obtain ⟨cs, hcs, rfl⟩ := Option.map_eq_some_iff.mp hbs
        rw [byte_printable hb, h.with_ground, wrapFrom, Terminal.put, h.col]
        split_ifs with hlt
        · obtain ⟨hat, hkeeps⟩ := ih (h.place (b := b)) hcs
          rw [(h.place (b := b)).with_ground] at hat hkeeps
          exact ⟨hat, hkeeps⟩
        · obtain ⟨hdown, hkeep⟩ := h.down
          obtain ⟨hat, hkeeps⟩ := ih (hdown.place (b := b)) hcs
          rw [(hdown.place (b := b)).with_ground] at hat hkeeps
          refine ⟨?_, hkeep.trans hkeeps⟩
          rwa [List.append_assoc] at hat
    | escape =>
      rw [stripFrom] at hbs
      split_ifs at hbs with hbracket
      rw [hbracket, byte_bracket]
      exact ih h hbs
    | csi n =>
      rw [stripFrom] at hbs
      split_ifs at hbs with hdigit hm
      · rw [byte_digit hdigit]
        exact ih h hbs
      · rw [hm, byte_m]
        exact ih h hbs

/-- A line of text takes the rows `wrap` says. -/
theorem At.write_line (h : At sz t rows []) (hbs : (strip bs).isSome) :
    At sz (t.write sz (bs ++ [10])) (rows ++ wrap sz.cols (shown bs)) [] ∧ Keeps sz t (t.write sz (bs ++ [10])) := by
  obtain ⟨cs, hcs⟩ := Option.isSome_iff_exists.mp hbs
  have hwrite := h.write_text (m := .ground) hcs
  rw [h.with_ground] at hwrite
  rwa [shown, hcs]

/-! ## Several lines -/

/-- The bytes of lines of text. -/
def unlines (ls : List (List UInt8)) : List UInt8 := ls.flatMap (· ++ [10])

theorem At.write_lines {ls : List (List UInt8)} (h : At sz t rows []) (hls : ∀ l ∈ ls, (strip l).isSome) :
    At sz (t.write sz (unlines ls)) (rows ++ ls.flatMap fun l => wrap sz.cols (shown l)) [] ∧
      Keeps sz t (t.write sz (unlines ls)) := by
  induction ls generalizing t rows with
  | nil =>
    rw [List.flatMap_nil, List.append_nil]
    exact ⟨h, .refl⟩
  | cons l ls ih =>
    obtain ⟨hline, hkeep⟩ := h.write_line (hls l (List.mem_cons_self ..))
    obtain ⟨hat, hkeeps⟩ := ih hline fun l' hl' => hls l' (List.mem_cons_of_mem _ hl')
    have hsplit : t.write sz (unlines (l :: ls)) = (t.write sz (l ++ [10])).write sz (unlines ls) :=
      write_append sz t (l ++ [10]) (unlines ls)
    rw [hsplit, List.flatMap_cons, ← List.append_assoc]
    exact ⟨hat, hkeep.trans hkeeps⟩

/-- Lines that fit take one row each. -/
theorem flatMap_wrap {ls : List (List UInt8)} {cols : ℕ} (hls : ∀ l ∈ ls, ∀ b ∈ l, Printable b)
    (h : ∀ l ∈ ls, l.length ≤ cols) : (ls.flatMap fun l => wrap cols (shown l)) = ls := by
  induction ls with
  | nil => rfl
  | cons l ls ih =>
    have hl : shown l = l := by rw [shown, strip_of_printable (hls l (List.mem_cons_self ..))]; rfl
    rw [List.flatMap_cons, hl, wrap_of_length_le (h l (List.mem_cons_self ..)),
      ih (fun l' hl' => hls l' (List.mem_cons_of_mem _ hl')) fun l' hl' => h l' (List.mem_cons_of_mem _ hl')]
    rfl

/-! ## Erasing -/

/-- One row up, and the whole row is erased. -/
def upErase : List UInt8 := [27, 91, 49, 65, 27, 91, 50, 75]

theorem write_upErase (hmode : t.mode = .ground) :
    t.write sz upErase = { t with
      row := max t.top (t.row - 1)
      line := Function.update t.line (max t.top (t.row - 1)) [] } := by
  simp [Terminal.write, upErase, Terminal.byte, hmode, Terminal.up, Terminal.erase]

/-- The last row is removed, if it is on the screen. -/
theorem At.clear_one {r : List UInt8} (h : At sz t (rows ++ [r]) []) (htop : t.top ≤ rows.length) :
    At sz (t.write sz upErase) rows [] ∧ (t.write sz upErase).top = t.top := by
  have hrow := h.row
  rw [List.length_append, List.length_singleton] at hrow
  have hmax : max t.top (t.row - 1) = rows.length := by omega
  have hbottom := h.bottom
  rw [write_upErase h.mode, hmax]
  refine ⟨⟨fun i => ?_, rfl, h.col, h.mode, htop, by dsimp only; omega⟩, rfl⟩
  dsimp only
  by_cases hi : i = rows.length
  · rw [hi, Function.update_self, getD_append_singleton, if_pos rfl]
  · rw [Function.update_of_ne hi, h.line, getD_append_singleton, getD_append_singleton, getD_append_singleton,
      if_neg hi, if_neg hi]
    split_ifs with hi'
    · rw [List.getD_eq_default]
      rw [hi', List.length_append]
      omega
    · rfl

/-- The last rows are removed, if they are on the screen. -/
theorem At.clear {table : List (List UInt8)} (h : At sz t (rows ++ table) []) (htop : t.top ≤ rows.length) :
    At sz (t.write sz (List.replicate table.length upErase).flatten) rows [] ∧
      (t.write sz (List.replicate table.length upErase).flatten).top = t.top := by
  induction table using List.reverseRecOn generalizing t with
  | nil =>
    rw [List.append_nil] at h
    exact ⟨h, rfl⟩
  | append_singleton table r ih =>
    rw [← List.append_assoc] at h
    obtain ⟨hone, hsame⟩ := h.clear_one (by rw [List.length_append]; omega)
    obtain ⟨hat, htop'⟩ := ih hone (by rw [hsame]; exact htop)
    rw [List.length_append, List.length_singleton, List.replicate_succ, List.flatten_cons, write_append]
    exact ⟨hat, htop'.trans hsame⟩

end Wssocks.Lib

import Mathlib.Data.List.TakeDrop
import Mathlib.Algebra.Order.Ring.Nat
import Pikamux.Support.Graphemes

/-!
# Terminal — Frame

`rows` draws a frame of the board's own commands on a grid of cells, and writes out each row.  A
wide glyph stands in its first cell, and the cells behind it are continuations; a row is exact when
its cells, each as wide as its text, take the width of the terminal.

* `WellFormed` — each glyph is followed by its continuation cells, and by no others; such a row is
  exact (`WellFormed.columns`).
* `WellFormed.put` — a glyph leaves a row well formed, unless it leaves two cells of another glyph
  on one side of it.
* `WellFormed.join`, `WellFormed.join_columns` — and so does a mark that joins a text, unless the
  text gets wider.
* `rows_exact` — a frame is exact, where each grapheme of it finds what it needs.
-/

namespace Pikamux.Terminal

open Support

structure Cell where
  text : List Char
  style : List Char
  continuation : Bool
  deriving DecidableEq, Repr

/-- `Cell::default()` -/
def Cell.blank : Cell := ⟨[], [], false⟩

/-- The cells of a line of the terminal. -/
abbrev Row := List Cell

/-- The cell at a column. -/
def cellAt (row : Row) (column : Nat) : Cell := row.getD column .blank

/-- The grid, the cursor, the style, and what is left of the frame. -/
structure Screen where
  cells : List Row
  x : Nat
  y : Nat
  style : List Char
  input : List Char
  deriving DecidableEq, Repr

section Draw

variable (seg : Segmentation) (glyphWidth : List Char → Nat) (width : Nat)

/-! ### Glyphs -/

/-- A column that is the second half of a glyph erases the first. -/
def eraseBefore (row : Row) (column : Nat) : Row :=
  if (cellAt row column).continuation && 0 < column then row.set (column - 1) .blank else row

/-- A column that is the first half of a glyph erases the second. -/
def eraseAfter (row : Row) (column : Nat) : Row :=
  if column + 1 < width && (cellAt row (column + 1)).continuation then
    row.set (column + 1) .blank
  else row

/-- Replacing either half of a wide glyph must erase its other half. -/
def eraseHalves (row : Row) (column : Nat) : Row :=
  eraseAfter width (eraseBefore row column) column

def continueAt (row : Row) (column : Nat) : Row := row.set column ⟨[], [], true⟩

/-- A glyph and its continuation cells. -/
def placeGlyph (row : Row) (x span : Nat) (text style : List Char) : Row :=
  (List.range' (x + 1) (span - 1)).foldl continueAt (row.set x ⟨text, style, false⟩)

def putGlyph (row : Row) (x span : Nat) (text style : List Char) : Row :=
  placeGlyph ((List.range' x span).foldl (eraseHalves width) row) x span text style

/-- The last cell before the cursor that is no continuation. -/
def leadBefore (row : Row) (x : Nat) : Option Nat :=
  (List.range (min x width)).reverse.find? fun column => !(cellAt row column).continuation

/-- A zero-width grapheme joins the text of a cell. -/
def joinText (row : Row) (column : Nat) (mark : List Char) : Row :=
  row.set column { cellAt row column with text := (cellAt row column).text ++ mark }

/-- Draw the next grapheme. -/
def drawGlyph (screen : Screen) : Option Screen := do
  let glyph ← (seg.graphemes screen.input).head?
  let input := screen.input.drop glyph.length
  let span := glyphWidth glyph
  let row ← screen.cells[screen.y]?
  if span = 0 then
    let column ← leadBefore width row screen.x
    some { screen with cells := screen.cells.set screen.y (joinText row column glyph), input }
  else if width < screen.x + span then none
  else
    let row := putGlyph width row screen.x span glyph screen.style
    some { screen with cells := screen.cells.set screen.y row, x := screen.x + span, input }

/-! ### Commands -/

/-- The arguments of a command, its final character, and what follows it. -/
def splitCommand (csi : List Char) : Option (List Char × Char × List Char) :=
  match csi.span fun ch => !('@' ≤ ch && ch ≤ '~') with
  | (_, []) => none
  | (args, final :: rest) => some (args, final, rest)

def isDigit (ch : Char) : Bool := '0' ≤ ch && ch ≤ '9'

/-- `parse::<usize>` -/
def parseUsize (text : List Char) : Option Nat :=
  let digits := match text with
    | '+' :: digits => digits
    | digits => digits
  if digits.isEmpty || !(digits.all isDigit) then none
  else
    let value := digits.foldl (fun value ch => value * 10 + (ch.toNat - '0'.toNat)) 0
    if value < 2 ^ 64 then some value else none

/-- `checked_sub(1)` of a parsed number. -/
def parsePosition (text : List Char) : Option Nat := do
  let value ← parseUsize text
  if value = 0 then none else some (value - 1)

/-- Move the cursor. -/
def moveTo (screen : Screen) (args : List Char) : Option Screen :=
  match args.span (· ≠ ';') with
  | (_, []) => none
  | (row, _ :: column) => do
      let y ← parsePosition row
      let x ← parsePosition column
      some { screen with x, y }

/-- Add to the style, or clear it. -/
def restyle (screen : Screen) (args : List Char) : Option Screen :=
  if args = ['0'] || args.isEmpty then some { screen with style := [] }
  else
    let style := screen.style ++ '\x1b' :: '[' :: args ++ ['m']
    if 512 < style.length then none else some { screen with style }

/-- One command. -/
def command (screen : Screen) (csi : List Char) : Option Screen := do
  let (args, final, input) ← splitCommand csi
  let screen := { screen with input }
  if final = 'H' then moveTo screen args
  else if final = 'J' && args = ['2'] then
    some { screen with cells := screen.cells.map fun row => row.map fun _ => .blank }
  else if final = 'm' && args.all fun ch => isDigit ch || ch = ';' then restyle screen args
  else if (final = 'h' || final = 'l') && args = ['?', '2', '0', '2', '6'] then some screen
  else none

/-- `is_control` -/
def isControl (ch : Char) : Bool := ch.toNat < 0x20 || (0x7f ≤ ch.toNat && ch.toNat < 0xa0)

/-- What the loop does once. -/
def draw (screen : Screen) : Option Screen :=
  match screen.input with
  | [] => none
  | '\x1b' :: '[' :: csi => command screen csi
  | ch :: rest =>
      if ch = '\r' then some { screen with x := 0, input := rest }
      else if ch = '\n' then some { screen with y := (screen.y + 1) % 2 ^ 64, input := rest }
      else if isControl ch then none
      else drawGlyph seg glyphWidth width screen

/-- The loop, for at most so many turns. -/
def drawLoop : Nat → Screen → Option (List Row)
  | 0, screen => if screen.input.isEmpty then some screen.cells else none
  | fuel + 1, screen =>
      if screen.input.isEmpty then some screen.cells
      else (draw seg glyphWidth width screen).bind (drawLoop fuel)

/-- The grid before anything is drawn. -/
def emptyScreen (height : Nat) (input : List Char) : Screen :=
  ⟨List.replicate height (List.replicate width .blank), 0, 0, [], input⟩

/-! ### Rows -/

/-- The cells of a row that are written, and the style before them. -/
def emitCells : List Char → Row → List Char
  | _, [] => []
  | prior, cell :: row =>
      if cell.continuation then emitCells prior row
      else
        (if cell.style = prior then [] else "\x1b[0m".toList ++ cell.style) ++
          (if cell.text.isEmpty then [' '] else cell.text) ++ emitCells cell.style row

def emitRow (row : Row) : List Char := "\x1b[0m".toList ++ emitCells [] row ++ "\x1b[0m".toList

/-- The grid after the frame. -/
def grid (frame : ByteArray) (height : Nat) : Option (List Row) :=
  if width = 0 || height = 0 || 200000 < width * height then none
  else do
    let input ← String.fromUTF8? frame
    drawLoop seg glyphWidth width input.toList.length (emptyScreen width height input.toList)

/-- `rows` -/
def rows (frame : ByteArray) (size : UInt16 × UInt16) : Option (List ByteArray) :=
  (grid seg glyphWidth size.1.toNat frame size.2.toNat).map fun cells =>
    cells.map fun row => (String.ofList (emitRow row)).toUTF8

/-! ### Exact rows -/

/-- The columns that a cell takes on the terminal, when it is written. -/
def extent (cell : Cell) : Nat := if cell.text = [] then 1 else glyphWidth cell.text

/-- The columns that the text of a row takes. -/
def columns (row : Row) : Nat :=
  ((row.filter fun cell => !cell.continuation).map (extent glyphWidth)).sum

/-- Each glyph is followed by its continuation cells, and by no others. -/
structure WellFormed (row : Row) : Prop where
  first : (cellAt row 0).continuation = false
  glyph : ∀ i < row.length, (cellAt row i).continuation = false →
    1 ≤ extent glyphWidth (cellAt row i) ∧ i + extent glyphWidth (cellAt row i) ≤ row.length ∧
    (∀ j, i < j → j < i + extent glyphWidth (cellAt row i) →
      (cellAt row j).continuation = true) ∧
    (cellAt row (i + extent glyphWidth (cellAt row i))).continuation = false

section Rows

variable {seg glyphWidth width} {row : Row} {i j x span : Nat} {text style : List Char}

theorem cellAt_of_length_le (h : row.length ≤ i) : cellAt row i = .blank := by
  simp [cellAt, List.getD_eq_getElem?_getD, h]

theorem cellAt_set (cell : Cell) : cellAt (row.set i cell) j =
    if i = j ∧ i < row.length then cell else cellAt row j := by
  rw [cellAt, List.getD_eq_getElem?_getD, List.getElem?_set, cellAt, List.getD_eq_getElem?_getD]
  by_cases hij : i = j
  · subst hij
    by_cases hlt : i < row.length
    · simp [hlt]
    · simp [hlt]
  · simp [hij]

theorem eraseBefore_length : (eraseBefore row x).length = row.length := by
  rw [eraseBefore]
  split
  · rw [List.length_set]
  · rfl

theorem eraseHalves_length : (eraseHalves width row x).length = row.length := by
  rw [eraseHalves, eraseAfter]
  split
  · rw [List.length_set, eraseBefore_length]
  · rw [eraseBefore_length]

theorem cellAt_eraseBefore (hx : x < row.length) : cellAt (eraseBefore row x) i =
    if i + 1 = x ∧ (cellAt row x).continuation = true then .blank else cellAt row i := by
  rw [eraseBefore]
  by_cases hc : (cellAt row x).continuation = true ∧ 0 < x
  · rw [if_pos (by simpa using hc), cellAt_set]
    by_cases hi : x - 1 = i
    · rw [if_pos ⟨hi, by omega⟩, if_pos ⟨by omega, hc.1⟩]
    · rw [if_neg (fun h => hi h.1), if_neg (fun h => hi (by omega))]
  · rw [if_neg (by simpa using hc), if_neg]
    intro h
    exact hc ⟨h.2, by omega⟩

theorem cellAt_eraseAfter (hwidth : row.length = width) :
    cellAt (eraseAfter width row x) i =
      if i = x + 1 ∧ (cellAt row i).continuation = true then .blank else cellAt row i := by
  rw [eraseAfter]
  by_cases hd : x + 1 < width ∧ (cellAt row (x + 1)).continuation = true
  · rw [if_pos (by simpa using hd), cellAt_set]
    by_cases hi : x + 1 = i
    · subst hi
      rw [if_pos ⟨rfl, by rw [hwidth]; exact hd.1⟩, if_pos ⟨rfl, hd.2⟩]
    · rw [if_neg (fun h => hi h.1), if_neg (fun h => hi h.1.symm)]
  · rw [if_neg (by simpa using hd), if_neg]
    intro h
    obtain ⟨rfl, hcont⟩ := h
    refine hd ⟨?_, hcont⟩
    by_contra hge
    rw [cellAt_of_length_le (by omega)] at hcont
    cases hcont

/-- The two cells that a column erases. -/
theorem cellAt_eraseHalves (hwidth : row.length = width) (hx : x < width) :
    cellAt (eraseHalves width row x) i =
      if i + 1 = x ∧ (cellAt row x).continuation = true then .blank
      else if i = x + 1 ∧ (cellAt row i).continuation = true then .blank
      else cellAt row i := by
  rw [eraseHalves, cellAt_eraseAfter (eraseBefore_length.trans hwidth),
    cellAt_eraseBefore (by omega)]
  by_cases hi : i + 1 = x ∧ (cellAt row x).continuation = true
  · rw [if_pos hi, if_neg (by omega), if_pos hi]
  · rw [if_neg hi, if_neg hi]

theorem eraseAll_length (n : Nat) :
    ((List.range' x n).foldl (eraseHalves width) row).length = row.length := by
  induction n with
  | zero => rfl
  | succ n ih =>
      rw [List.range'_1_concat, List.foldl_append, List.foldl_cons, List.foldl_nil,
        eraseHalves_length, ih]

/-- What a glyph erases beside itself. -/
theorem cellAt_eraseAll (hwidth : row.length = width) {n : Nat} (hn : 1 ≤ n)
    (hfit : x + n ≤ width) (hi : i < x ∨ x + n ≤ i) :
    cellAt ((List.range' x n).foldl (eraseHalves width) row) i =
      if i + 1 = x ∧ (cellAt row x).continuation = true then .blank
      else if i = x + n ∧ (cellAt row i).continuation = true then .blank
      else cellAt row i := by
  induction n, hn using Nat.le_induction generalizing i with
  | base => exact cellAt_eraseHalves hwidth (by omega)
  | succ n hn ih =>
      rw [List.range'_1_concat, List.foldl_append, List.foldl_cons, List.foldl_nil,
        cellAt_eraseHalves ((eraseAll_length n).trans hwidth) (by omega)]
      -- the column itself is no continuation any more
      have hcolumn : (cellAt ((List.range' x n).foldl (eraseHalves width) row)
          (x + n)).continuation = false := by
        rw [ih (by omega) (.inr (le_refl _)), if_neg (by omega)]
        split
        · rfl
        · next h => simpa using h
      rw [if_neg (by simp [hcolumn]), ih (by omega) (by omega)]
      have hne : ¬(i = x + n ∧ (cellAt row i).continuation = true) := by omega
      by_cases hbefore : i + 1 = x ∧ (cellAt row x).continuation = true
      · rw [if_pos hbefore, if_neg (by omega), if_pos hbefore]
      · rw [if_neg hbefore, if_neg hne, if_neg hbefore, Nat.add_assoc]

theorem continued_length (columns : List Nat) :
    (columns.foldl continueAt row).length = row.length := by
  induction columns generalizing row with
  | nil => rfl
  | cons column columns ih => rw [List.foldl_cons, ih, continueAt, List.length_set]

theorem placeGlyph_length : (placeGlyph row x span text style).length = row.length := by
  rw [placeGlyph, continued_length, List.length_set]

/-- The continuation cells behind a column. -/
theorem cellAt_continued {n : Nat} (hfit : x + 1 + n ≤ row.length) :
    cellAt ((List.range' (x + 1) n).foldl continueAt row) i =
      if x < i ∧ i < x + 1 + n then ⟨[], [], true⟩ else cellAt row i := by
  induction n with
  | zero =>
      rw [if_neg (by omega)]
      rfl
  | succ n ih =>
      rw [List.range'_1_concat, List.foldl_append, List.foldl_cons, List.foldl_nil, continueAt,
        cellAt_set, continued_length, ih (by omega)]
      by_cases hi : x + 1 + n = i
      · rw [if_pos ⟨hi, by omega⟩, if_pos (by omega)]
      · rw [if_neg (fun h => hi h.1)]
        by_cases hin : x < i ∧ i < x + 1 + n
        · rw [if_pos hin, if_pos (by omega)]
        · rw [if_neg hin, if_neg (by omega)]

/-- A glyph is followed by its continuation cells. -/
theorem cellAt_placeGlyph (hspan : 1 ≤ span) (hfit : x + span ≤ row.length) :
    cellAt (placeGlyph row x span text style) i =
      if i = x then ⟨text, style, false⟩
      else if x < i ∧ i < x + span then ⟨[], [], true⟩
      else cellAt row i := by
  rw [placeGlyph, cellAt_continued (by rw [List.length_set]; omega), cellAt_set]
  by_cases hi : i = x
  · rw [if_neg (by omega), if_pos ⟨hi.symm, by omega⟩, if_pos hi]
  · have hne : ¬(x = i ∧ x < row.length) := fun h => hi h.1.symm
    rw [if_neg hne, if_neg hi, show x + 1 + (span - 1) = x + span by omega]

theorem putGlyph_length : (putGlyph width row x span text style).length = row.length := by
  rw [putGlyph, placeGlyph_length, eraseAll_length]

/-- The cells after a glyph. -/
theorem cellAt_putGlyph (hwidth : row.length = width) (hspan : 1 ≤ span) (hfit : x + span ≤ width) :
    cellAt (putGlyph width row x span text style) i =
      if i = x then ⟨text, style, false⟩
      else if x < i ∧ i < x + span then ⟨[], [], true⟩
      else if i + 1 = x ∧ (cellAt row x).continuation = true then .blank
      else if i = x + span ∧ (cellAt row i).continuation = true then .blank
      else cellAt row i := by
  rw [putGlyph, cellAt_placeGlyph hspan (by rw [eraseAll_length]; omega)]
  by_cases hi : i = x
  · rw [if_pos hi, if_pos hi]
  · by_cases hin : x < i ∧ i < x + span
    · rw [if_neg hi, if_pos hin, if_neg hi, if_pos hin]
    · rw [if_neg hi, if_neg hin, if_neg hi, if_neg hin,
        cellAt_eraseAll hwidth hspan hfit (by omega)]

/-! ### Well-formed rows -/

/-- A row whose cells are as wide as those of a well-formed row, in the same places. -/
theorem WellFormed.congr {other : Row} (h : WellFormed glyphWidth row)
    (hlength : other.length = row.length)
    (hcont : ∀ i, (cellAt other i).continuation = (cellAt row i).continuation)
    (hextent : ∀ i, (cellAt row i).continuation = false →
      extent glyphWidth (cellAt other i) = extent glyphWidth (cellAt row i)) :
    WellFormed glyphWidth other := by
  constructor
  · rw [hcont]
    exact h.first
  · intro i hi hlead
    rw [hcont] at hlead
    rw [hextent i hlead, hcont, hlength]
    obtain ⟨hone, hfit, hmiddle, hnext⟩ := h.glyph i (hlength ▸ hi) hlead
    refine ⟨hone, hfit, ?_, hnext⟩
    intro j hij hj
    rw [hcont]
    exact hmiddle j hij hj

theorem extent_blank : extent glyphWidth .blank = 1 := if_pos rfl

/-- What a glyph does to a row. -/
structure Put (row after : Row) (x span : Nat) (text style : List Char) : Prop where
  length : after.length = row.length
  lead : cellAt after x = ⟨text, style, false⟩
  inside : ∀ i, x < i → i < x + span → (cellAt after i).continuation = true
  before : ∀ i, i + 1 = x →
    cellAt after i = if (cellAt row x).continuation = true then .blank else cellAt row i
  behind : cellAt after (x + span) =
    if (cellAt row (x + span)).continuation = true then .blank else cellAt row (x + span)
  outside : ∀ i, i + 1 < x ∨ x + span < i → cellAt after i = cellAt row i

theorem put_putGlyph (hwidth : row.length = width) (hspan : 1 ≤ span) (hfit : x + span ≤ width) :
    Put row (putGlyph width row x span text style) x span text style := by
  constructor
  · exact putGlyph_length
  · rw [cellAt_putGlyph hwidth hspan hfit, if_pos rfl]
  · intro i hi hi'
    rw [cellAt_putGlyph hwidth hspan hfit, if_neg (by omega), if_pos ⟨hi, hi'⟩]
  · intro i hi
    rw [cellAt_putGlyph hwidth hspan hfit, if_neg (by omega), if_neg (by omega)]
    by_cases hc : (cellAt row x).continuation = true
    · rw [if_pos ⟨hi, hc⟩, if_pos hc]
    · have hend : ¬(i = x + span ∧ (cellAt row i).continuation = true) := by omega
      rw [if_neg (fun hc' => hc hc'.2), if_neg hend, if_neg hc]
  · rw [cellAt_putGlyph hwidth hspan hfit, if_neg (by omega), if_neg (by omega),
      if_neg (by omega)]
    by_cases hc : (cellAt row (x + span)).continuation = true
    · rw [if_pos ⟨rfl, hc⟩, if_pos hc]
    · rw [if_neg (fun hc' => hc hc'.2), if_neg hc]
  · intro i hi
    rw [cellAt_putGlyph hwidth hspan hfit, if_neg (by omega), if_neg (by omega),
      if_neg (by omega), if_neg (by omega)]

/-- A glyph leaves a row well formed, unless it leaves two cells of another glyph on one side. -/
theorem WellFormed.put {after : Row} (h : WellFormed glyphWidth row)
    (hput : Put row after x span text style)
    (htext : text ≠ []) (hglyph : glyphWidth text = span) (hspan : 1 ≤ span)
    (hfit : x + span ≤ row.length)
    (hleft : ¬((cellAt row (x - 1)).continuation = true ∧ (cellAt row x).continuation = true))
    (hright : ¬((cellAt row (x + span)).continuation = true ∧
      (cellAt row (x + span + 1)).continuation = true)) :
    WellFormed glyphWidth after := by
  obtain ⟨hlength, hlead, hinside, hbefore, hbehind, houtside⟩ := hput
  have hbehind' : (cellAt after (x + span)).continuation = false := by
    rw [hbehind]
    split
    · rfl
    · next hnot => simpa using hnot
  constructor
  · rcases Nat.lt_trichotomy 1 x with hx | hx | hx
    · rw [houtside 0 (.inl hx)]
      exact h.first
    · rw [hbefore 0 hx]
      split
      · rfl
      · exact h.first
    · rw [show 0 = x by omega, hlead]
  · intro i hi hcont
    rw [hlength] at hi ⊢
    rcases Nat.lt_trichotomy i x with hix | hix | hix
    · by_cases hnear : i + 1 = x
      · -- the cell before the glyph is blank, or as wide as one cell
        rw [hbefore i hnear] at hcont ⊢
        have hone : extent glyphWidth (if (cellAt row x).continuation = true then .blank
            else cellAt row i) = 1 := by
          by_cases hc : (cellAt row x).continuation = true
          · rw [if_pos hc, extent_blank]
          · rw [if_neg hc] at hcont ⊢
            obtain ⟨hone, -, hmiddle, -⟩ := h.glyph i hi hcont
            by_contra hwide
            exact hc (hmiddle x hix (by omega))
        rw [hone, hnear, hlead]
        exact ⟨le_refl 1, by omega, fun j hij hj => absurd hj (by omega), rfl⟩
      · -- a glyph further before ends before the cursor
        rw [houtside i (by omega)] at hcont ⊢
        obtain ⟨hone, hend, hmiddle, hnext⟩ := h.glyph i hi hcont
        have hshort : i + extent glyphWidth (cellAt row i) ≤ x := by
          by_contra hlong
          exact hleft ⟨hmiddle (x - 1) (by omega) (by omega), hmiddle x hix (by omega)⟩
        refine ⟨hone, hend, ?_, ?_⟩
        · intro j hij hj
          have hjx : j + 1 < x ∨ j + 1 = x := by omega
          rcases hjx with hjx | hjx
          · rw [houtside j (.inl hjx)]
            exact hmiddle j hij hj
          · have hx : (cellAt row x).continuation = false := by
              rw [show x = i + extent glyphWidth (cellAt row i) by omega]
              exact hnext
            rw [hbefore j hjx, hx]
            exact hmiddle j hij hj
        · rcases Nat.lt_or_ge (i + extent glyphWidth (cellAt row i) + 1) x with hx | hx
          · rw [houtside _ (.inl hx)]
            exact hnext
          · by_cases hlast : i + extent glyphWidth (cellAt row i) = x
            · rw [hlast, hlead]
            · rw [hbefore _ (by omega)]
              split
              · rfl
              · exact hnext
    · subst hix
      have hextent : extent glyphWidth (cellAt after i) = span := by
        rw [hlead, extent, if_neg htext, hglyph]
      rw [hextent]
      exact ⟨hspan, by omega, fun j hij hj => hinside j hij hj, hbehind'⟩
    · by_cases hin : i < x + span
      · rw [hinside i hix hin] at hcont
        cases hcont
      · by_cases hend : i = x + span
        · subst hend
          by_cases hc : (cellAt row (x + span)).continuation = true
          · -- the second half of a glyph becomes blank, and was its last cell
            have hnext : (cellAt row (x + span + 1)).continuation = false := by
              by_contra hcont'
              exact hright ⟨hc, by simpa using hcont'⟩
            rw [hbehind, if_pos hc, extent_blank, houtside _ (.inr (by omega))]
            exact ⟨le_refl 1, hi, fun j hij hj => absurd hj (by omega), hnext⟩
          · rw [hbehind, if_neg hc] at hcont ⊢
            obtain ⟨hone, hend, hmiddle, hnext⟩ := h.glyph _ hi hcont
            refine ⟨hone, hend, ?_, ?_⟩
            · intro j hij hj
              rw [houtside j (.inr hij)]
              exact hmiddle j hij hj
            · rw [houtside _ (.inr (by omega))]
              exact hnext
        · rw [houtside i (by omega)] at hcont ⊢
          obtain ⟨hone, hend, hmiddle, hnext⟩ := h.glyph i hi hcont
          refine ⟨hone, hend, ?_, ?_⟩
          · intro j hij hj
            rw [houtside j (by omega)]
            exact hmiddle j hij hj
          · rw [houtside _ (by omega)]
            exact hnext

/-- A mark that does not widen the text it joins leaves a row well formed. -/
theorem WellFormed.join (h : WellFormed glyphWidth row) {mark : List Char}
    (htext : (cellAt row x).text ≠ [])
    (hsame : glyphWidth ((cellAt row x).text ++ mark) = glyphWidth (cellAt row x).text) :
    WellFormed glyphWidth (joinText row x mark) := by
  refine h.congr (by rw [joinText, List.length_set]) ?_ ?_
  · intro i
    rw [joinText, cellAt_set]
    split
    · next hi => rw [← hi.1]
    · rfl
  · intro i _
    rw [joinText, cellAt_set]
    split
    · next hi =>
        rw [extent, if_neg (by simp [htext]), extent, ← hi.1, if_neg htext]
        exact hsame
    · rfl

theorem cellAt_of_lt (h : i < row.length) : cellAt row i = row[i] := by
  simp [cellAt, List.getD_eq_getElem?_getD, h]

theorem columns_cons (cell : Cell) : columns glyphWidth (cell :: row) =
    (if cell.continuation = true then 0 else extent glyphWidth cell) + columns glyphWidth row := by
  by_cases hc : cell.continuation = true
  · simp [columns, hc]
  · simp [columns, hc]

theorem columns_drop (h : i < row.length) : columns glyphWidth (row.drop i) =
    (if (cellAt row i).continuation = true then 0 else extent glyphWidth (cellAt row i)) +
      columns glyphWidth (row.drop (i + 1)) := by
  rw [List.drop_eq_getElem_cons h, cellAt_of_lt h, columns_cons]

/-- Continuation cells take no columns. -/
theorem columns_skip (hij : i ≤ j) (hj : j ≤ row.length)
    (h : ∀ k, i ≤ k → k < j → (cellAt row k).continuation = true) :
    columns glyphWidth (row.drop i) = columns glyphWidth (row.drop j) := by
  induction j, hij using Nat.le_induction with
  | base => rfl
  | succ j hij ih =>
      rw [ih (by omega) fun k hk hkj => h k hk (by omega), columns_drop (by omega),
        if_pos (h j hij (by omega)), Nat.zero_add]

/-- A well-formed row is exact. -/
theorem WellFormed.columns (h : WellFormed glyphWidth row) :
    columns glyphWidth row = row.length := by
  have hfrom : ∀ n i, i + n = row.length → (cellAt row i).continuation = false →
      Terminal.columns glyphWidth (row.drop i) = n := by
    intro n
    induction n using Nat.strong_induction_on with
    | _ n ih =>
        intro i hi hlead
        by_cases hlast : i = row.length
        · rw [hlast, List.drop_length, show n = 0 by omega]
          rfl
        · obtain ⟨hone, hend, hmiddle, hnext⟩ := h.glyph i (by omega) hlead
          rw [columns_drop (by omega), if_neg (by simp [hlead]),
            columns_skip (j := i + extent glyphWidth (cellAt row i)) (by omega) hend
              (fun k hk hkj => hmiddle k (by omega) hkj),
            ih (n - extent glyphWidth (cellAt row i)) (by omega) _ (by omega) hnext]
          omega
  simpa using hfrom row.length 0 (Nat.zero_add _) h.first

theorem wellFormed_blank : WellFormed glyphWidth (List.replicate width .blank) := by
  have hblank : ∀ i, cellAt (List.replicate width .blank) i = .blank := by
    intro i
    rw [cellAt, List.getD_eq_getElem?_getD, List.getElem?_replicate]
    split <;> rfl
  constructor
  · rw [hblank]
    rfl
  · intro i hi _
    rw [hblank, extent_blank, hblank]
    exact ⟨le_refl 1, hi, fun j hij hj => absurd hj (by omega), rfl⟩

end Rows

/-! ### Frames -/

/-- The grapheme that is drawn next, if it is no command. -/
def nextGlyph (screen : Screen) : Option (List Char) :=
  match screen.input with
  | [] => none
  | '\x1b' :: '[' :: _ => none
  | ch :: _ =>
      if ch = '\r' || ch = '\n' || isControl ch then none
      else (seg.graphemes screen.input).head?

/-- The next grapheme finds what it needs: a mark a text that it does not widen, and a glyph no
other of which it leaves two cells on one side. -/
def Sound (screen : Screen) : Prop :=
  ∀ glyph row, nextGlyph seg screen = some glyph → screen.cells[screen.y]? = some row →
    (glyphWidth glyph = 0 → ∀ column, leadBefore width row screen.x = some column →
      (cellAt row column).text ≠ [] ∧
      glyphWidth ((cellAt row column).text ++ glyph) = glyphWidth (cellAt row column).text) ∧
    (glyphWidth glyph ≠ 0 →
      ¬((cellAt row (screen.x - 1)).continuation = true ∧
        (cellAt row screen.x).continuation = true) ∧
      ¬((cellAt row (screen.x + glyphWidth glyph)).continuation = true ∧
        (cellAt row (screen.x + glyphWidth glyph + 1)).continuation = true))

/-- The screens that a frame goes through. -/
def Reached (height : Nat) (input : List Char) : Screen → Prop :=
  Relation.ReflTransGen (fun a b => draw seg glyphWidth width a = some b)
    (emptyScreen width height input)

/-- The grid of a screen is made of well-formed rows. -/
structure Screen.WellFormed (height : Nat) (screen : Screen) : Prop where
  height : screen.cells.length = height
  width : ∀ row ∈ screen.cells, row.length = width
  row : ∀ row ∈ screen.cells, Terminal.WellFormed glyphWidth row

section Frames

variable {seg glyphWidth width} {screen next : Screen} {height : Nat} {input : List Char}

theorem command_cases {csi : List Char} (h : command screen csi = some next) :
    next.cells = screen.cells ∨
    next.cells = screen.cells.map fun row => row.map fun _ => Cell.blank := by
  rw [command] at h
  obtain ⟨⟨args, final, input⟩, -, h⟩ := Option.bind_eq_some_iff.mp h
  simp only at h
  split at h
  · -- the cursor moves
    rw [moveTo] at h
    split at h
    · cases h
    · obtain ⟨y, -, h⟩ := Option.bind_eq_some_iff.mp h
      obtain ⟨x, -, h⟩ := Option.bind_eq_some_iff.mp h
      cases h
      exact .inl rfl
  · split at h
    · cases h
      exact .inr rfl
    · split at h
      · simp only [restyle] at h
        split at h
        · cases h
          exact .inl rfl
        · split at h
          · cases h
          · cases h
            exact .inl rfl
      · split at h
        · cases h
          exact .inl rfl
        · cases h

theorem drawGlyph_cases (h : drawGlyph seg glyphWidth width screen = some next) :
    ∃ glyph row, (seg.graphemes screen.input).head? = some glyph ∧
      screen.cells[screen.y]? = some row ∧
      ((glyphWidth glyph = 0 ∧ ∃ column, leadBefore width row screen.x = some column ∧
          next.cells = screen.cells.set screen.y (joinText row column glyph)) ∨
        (glyphWidth glyph ≠ 0 ∧ screen.x + glyphWidth glyph ≤ width ∧
          next.cells = screen.cells.set screen.y
            (putGlyph width row screen.x (glyphWidth glyph) glyph screen.style))) := by
  obtain ⟨glyph, hglyph, h⟩ := Option.bind_eq_some_iff.mp h
  obtain ⟨row, hrow, h⟩ := Option.bind_eq_some_iff.mp h
  refine ⟨glyph, row, hglyph, hrow, ?_⟩
  split at h
  · next hzero =>
      obtain ⟨column, hcolumn, h⟩ := Option.bind_eq_some_iff.mp h
      cases h
      exact .inl ⟨hzero, column, hcolumn, rfl⟩
  · next hzero =>
      split at h
      · cases h
      · next hfit =>
          cases h
          exact .inr ⟨hzero, by omega, rfl⟩

/-- What the loop does once: it draws a glyph, or it leaves or clears the cells. -/
theorem draw_cases (h : draw seg glyphWidth width screen = some next) :
    next.cells = screen.cells ∨
    next.cells = (screen.cells.map fun row => row.map fun _ => Cell.blank) ∨
    ∃ glyph row, nextGlyph seg screen = some glyph ∧ screen.cells[screen.y]? = some row ∧
      ((glyphWidth glyph = 0 ∧ ∃ column, leadBefore width row screen.x = some column ∧
          next.cells = screen.cells.set screen.y (joinText row column glyph)) ∨
        (glyphWidth glyph ≠ 0 ∧ screen.x + glyphWidth glyph ≤ width ∧
          next.cells = screen.cells.set screen.y
            (putGlyph width row screen.x (glyphWidth glyph) glyph screen.style))) := by
  rw [draw] at h
  split at h
  · cases h
  · exact (command_cases h).imp_right .inl
  · next ch rest hno hinput =>
      split at h
      · cases h
        exact .inl rfl
      · next hreturn =>
          split at h
          · cases h
            exact .inl rfl
          · next hnewline =>
              split at h
              · cases h
              · next hcontrol =>
                  obtain ⟨glyph, row, hglyph, hcases⟩ := drawGlyph_cases h
                  refine .inr (.inr ⟨glyph, row, ?_, hcases⟩)
                  rw [nextGlyph]
                  split
                  · next hnil => simp [hnil] at hinput
                  · next csi hcsi =>
                      rw [hcsi] at hinput
                      cases hinput
                      exact absurd rfl (hno csi rfl)
                  · next ch' rest' hno' hinput' =>
                      rw [hinput'] at hinput
                      cases hinput
                      rw [if_neg (by simp [hreturn, hnewline, hcontrol])]
                      exact hglyph

theorem nextGlyph_ne_nil {glyph : List Char} (h : nextGlyph seg screen = some glyph) :
    glyph ≠ [] := by
  have hhead : (seg.graphemes screen.input).head? = some glyph := by
    rw [nextGlyph] at h
    split at h
    · cases h
    · cases h
    · split at h
      · cases h
      · exact h
  rintro rfl
  exact seg.ne_nil _ (List.mem_of_mem_head? hhead)

theorem draw_length (h : draw seg glyphWidth width screen = some next) :
    next.cells.length = screen.cells.length := by
  rcases draw_cases h with hcells | hcells | ⟨glyph, row, -, -, hcells⟩
  · rw [hcells]
  · rw [hcells, List.length_map]
  · rcases hcells with ⟨-, column, -, hcells⟩ | ⟨-, -, hcells⟩
    · rw [hcells, List.length_set]
    · rw [hcells, List.length_set]

theorem blanked_eq {row : Row} : (row.map fun _ => Cell.blank) = List.replicate row.length .blank :=
  List.map_const'

/-- One turn of the loop keeps the rows well formed. -/
theorem Screen.WellFormed.draw (h : Screen.WellFormed glyphWidth width height screen)
    (hsound : Sound seg glyphWidth width screen)
    (hdraw : draw seg glyphWidth width screen = some next) :
    Screen.WellFormed glyphWidth width height next := by
  have hheight := (draw_length hdraw).trans h.height
  have hrow : ∀ row ∈ next.cells, row.length = width ∧ Terminal.WellFormed glyphWidth row := by
    intro row hmem
    rcases draw_cases hdraw with hcells | hcells | ⟨glyph, old, hglyph, hold, hcells⟩
    · rw [hcells] at hmem
      exact ⟨h.width row hmem, h.row row hmem⟩
    · rw [hcells] at hmem
      obtain ⟨old, hold, rfl⟩ := List.mem_map.mp hmem
      rw [blanked_eq, List.length_replicate]
      exact ⟨h.width old hold, wellFormed_blank⟩
    · have hmemOld := List.mem_of_getElem? hold
      have hwidth := h.width old hmemOld
      have hwell := h.row old hmemOld
      obtain ⟨hmark, hwide⟩ := hsound glyph old hglyph hold
      rcases hcells with ⟨hzero, column, hcolumn, hcells⟩ | ⟨hzero, hfit, hcells⟩
      · rw [hcells] at hmem
        rcases List.mem_or_eq_of_mem_set hmem with hmem | rfl
        · exact ⟨h.width row hmem, h.row row hmem⟩
        · obtain ⟨htext, hsame⟩ := hmark hzero column hcolumn
          exact ⟨by rw [joinText, List.length_set, hwidth], hwell.join htext hsame⟩
      · rw [hcells] at hmem
        rcases List.mem_or_eq_of_mem_set hmem with hmem | rfl
        · exact ⟨h.width row hmem, h.row row hmem⟩
        · obtain ⟨hleft, hright⟩ := hwide hzero
          have hspan : 1 ≤ glyphWidth glyph := Nat.one_le_iff_ne_zero.mpr hzero
          exact ⟨by rw [putGlyph_length, hwidth],
            hwell.put (put_putGlyph hwidth hspan hfit) (nextGlyph_ne_nil hglyph) rfl hspan
              (by rw [hwidth]; exact hfit) hleft hright⟩
  exact ⟨hheight, fun row hmem => (hrow row hmem).1, fun row hmem => (hrow row hmem).2⟩

theorem wellFormed_emptyScreen :
    Screen.WellFormed glyphWidth width height (emptyScreen width height input) := by
  have hrow : ∀ row ∈ (emptyScreen width height input).cells,
      row = List.replicate width .blank := fun row hmem => (List.mem_replicate.mp hmem).2
  constructor
  · exact List.length_replicate
  · intro row hmem
    rw [hrow row hmem, List.length_replicate]
  · intro row hmem
    rw [hrow row hmem]
    exact wellFormed_blank

/-- Every screen of a frame is well formed, when every grapheme finds what it needs. -/
theorem Reached.wellFormed (h : Reached seg glyphWidth width height input screen)
    (hsound : ∀ screen, Reached seg glyphWidth width height input screen →
      Sound seg glyphWidth width screen) :
    Screen.WellFormed glyphWidth width height screen := by
  induction h with
  | refl => exact wellFormed_emptyScreen
  | tail hreached hdraw ih => exact ih.draw (hsound _ hreached) hdraw

theorem Reached.length (h : Reached seg glyphWidth width height input screen) :
    screen.cells.length = height := by
  induction h with
  | refl => exact List.length_replicate
  | tail _ hdraw ih => rw [draw_length hdraw, ih]

/-- The loop ends with the cells of a screen that it reached. -/
theorem drawLoop_reached {fuel : Nat} {cells : List Row}
    (h : drawLoop seg glyphWidth width fuel screen = some cells)
    (hreached : Reached seg glyphWidth width height input screen) :
    ∃ last, Reached seg glyphWidth width height input last ∧ last.cells = cells := by
  induction fuel generalizing screen with
  | zero =>
      rw [drawLoop] at h
      split at h
      · exact ⟨screen, hreached, Option.some.inj h⟩
      · cases h
  | succ fuel ih =>
      rw [drawLoop] at h
      split at h
      · exact ⟨screen, hreached, Option.some.inj h⟩
      · obtain ⟨next, hdraw, h⟩ := Option.bind_eq_some_iff.mp h
        exact ih h (hreached.tail hdraw)

theorem splitCommand_length {csi args rest : List Char} {final : Char}
    (h : splitCommand csi = some (args, final, rest)) : rest.length < csi.length := by
  rw [splitCommand, List.span_eq_takeWhile_dropWhile] at h
  split at h
  · cases h
  · next heq =>
      cases h
      have hsuffix : final :: rest <:+ csi := by
        rw [← (Prod.mk.inj heq).2]
        exact List.dropWhile_suffix _
      exact hsuffix.length_le

theorem command_input {csi : List Char} (h : command screen csi = some next) :
    next.input.length < csi.length := by
  rw [command] at h
  obtain ⟨⟨args, final, input⟩, hsplit, h⟩ := Option.bind_eq_some_iff.mp h
  have hlt := splitCommand_length hsplit
  have hinput : next.input = input := by
    simp only at h
    split at h
    · rw [moveTo] at h
      split at h
      · cases h
      · obtain ⟨y, -, h⟩ := Option.bind_eq_some_iff.mp h
        obtain ⟨x, -, h⟩ := Option.bind_eq_some_iff.mp h
        cases h
        rfl
    · simp only [restyle] at h
      repeat' split at h
      all_goals
        cases h
      all_goals rfl
  rw [hinput]
  exact hlt

/-- Each turn of the loop reads on. -/
theorem draw_input (h : draw seg glyphWidth width screen = some next) :
    next.input.length < screen.input.length := by
  rw [draw] at h
  split at h
  · cases h
  · next csi hinput =>
      have hlt := command_input h
      rw [hinput, List.length_cons, List.length_cons]
      omega
  · next ch rest _ hinput =>
      split at h
      · cases h
        simp [hinput]
      · split at h
        · cases h
          simp [hinput]
        · split at h
          · cases h
          · obtain ⟨glyph, hglyph, h⟩ := Option.bind_eq_some_iff.mp h
            obtain ⟨row, -, h⟩ := Option.bind_eq_some_iff.mp h
            have hpos : 0 < glyph.length := List.length_pos_iff.mpr (by
              rintro rfl
              exact seg.ne_nil _ (List.mem_of_mem_head? hglyph))
            have hnext : next.input = screen.input.drop glyph.length := by
              split at h
              · obtain ⟨column, -, h⟩ := Option.bind_eq_some_iff.mp h
                cases h
                rfl
              · split at h
                · cases h
                · cases h
                  rfl
            rw [hnext, List.length_drop, hinput, List.length_cons]
            omega

/-- As many turns as there are characters are enough. -/
theorem drawLoop_enough {fuel : Nat} (h : screen.input.length ≤ fuel) :
    drawLoop seg glyphWidth width fuel screen = drawLoop seg glyphWidth width (fuel + 1) screen := by
  induction fuel generalizing screen with
  | zero =>
      have hnil : screen.input.isEmpty = true := by simpa using h
      rw [drawLoop, drawLoop, if_pos hnil, if_pos hnil]
  | succ fuel ih =>
      rw [drawLoop, drawLoop]
      split
      · rfl
      · refine Option.bind_congr ?_
        intro next hdraw
        exact ih (by have := draw_input hdraw; omega)

end Frames

/-- The rows of a frame are as many as the terminal has, and each is as wide as the terminal, where
each grapheme of the frame finds what it needs. -/
theorem rows_exact (frame : ByteArray) (size : UInt16 × UInt16) (out : List ByteArray)
    (h : rows seg glyphWidth frame size = some out) :
    out.length = size.2.toNat ∧
    ∃ text cells, String.fromUTF8? frame = some text ∧
      grid seg glyphWidth size.1.toNat frame size.2.toNat = some cells ∧
      out = cells.map (fun row => (String.ofList (emitRow row)).toUTF8) ∧
      ((∀ screen, Reached seg glyphWidth size.1.toNat size.2.toNat text.toList screen →
          Sound seg glyphWidth size.1.toNat screen) →
        ∀ row ∈ cells, columns glyphWidth row = size.1.toNat) := by
  obtain ⟨cells, hgrid, rfl⟩ := Option.map_eq_some_iff.mp h
  have hgrid' := hgrid
  rw [grid] at hgrid'
  split at hgrid'
  · cases hgrid'
  · obtain ⟨text, htext, hloop⟩ := Option.bind_eq_some_iff.mp hgrid'
    obtain ⟨last, hreached, rfl⟩ := drawLoop_reached hloop .refl
    refine ⟨by rw [List.length_map, hreached.length], text, last.cells, htext, hgrid, rfl, ?_⟩
    intro hsound row hmem
    have hwell := hreached.wellFormed hsound
    rw [(hwell.row row hmem).columns, hwell.width row hmem]

end Draw

/-! ### A mark on a blank cell -/

/-- The width of a text in which U+0301 is the only mark. -/
def plainWidth (text : List Char) : Nat := (text.filter (· ≠ '\u0301')).length

theorem fromUTF8?_toUTF8 (s : String) : String.fromUTF8? s.toUTF8 = some s :=
  dif_pos s.isValidUTF8

theorem rows_exact_letter : ∃ cells, grid .chars plainWidth 2 "e".toUTF8 1 = some cells ∧
    ∀ row ∈ cells, columns plainWidth row = 2 := by
  have hgrid : grid .chars plainWidth 2 "e".toUTF8 1 =
      some [[⟨['e'], [], false⟩, .blank]] := by
    rw [grid, fromUTF8?_toUTF8]
    decide
  obtain ⟨-, text, cells, htext, hcells, -, hexact⟩ := rows_exact .chars plainWidth "e".toUTF8
    (2, 1) _ (congrArg (Option.map _) hgrid)
  rw [fromUTF8?_toUTF8] at htext
  cases htext
  refine ⟨cells, hcells, hexact ?_⟩
  intro screen hreached
  have hfirst : draw .chars plainWidth 2 (emptyScreen 2 1 ['e']) =
      some ⟨[[⟨['e'], [], false⟩, .blank]], 1, 0, [], []⟩ := by
    decide
  rcases Relation.ReflTransGen.cases_head hreached with rfl | ⟨next, hdraw, hreached⟩
  · intro glyph row hglyph hrow
    have hglyph' : nextGlyph .chars (emptyScreen 2 1 ['e']) = some ['e'] := by decide
    have hrow' : (emptyScreen 2 1 ['e']).cells[0]? = some [.blank, .blank] := by decide
    cases hglyph'.symm.trans hglyph
    cases hrow'.symm.trans hrow
    exact ⟨fun h => absurd h (by decide), fun _ => ⟨by decide, by decide⟩⟩
  · cases hfirst.symm.trans hdraw
    rcases Relation.ReflTransGen.cases_head hreached with rfl | ⟨next, hdraw, -⟩
    · intro glyph row hglyph
      cases hglyph
    · cases hdraw

/-- The mark takes the place of the blank. -/
theorem mark_not_exact : ∃ out cells,
    rows .chars plainWidth "\x1b[1;2H\u0301".toUTF8 (2, 1) = some out ∧
    grid .chars plainWidth 2 "\x1b[1;2H\u0301".toUTF8 1 = some cells ∧
    ∃ row ∈ cells, columns plainWidth row = 1 := by
  have hgrid : grid .chars plainWidth 2 "\x1b[1;2H\u0301".toUTF8 1 =
      some [[⟨['\u0301'], [], false⟩, .blank]] := by
    rw [grid, fromUTF8?_toUTF8]
    decide
  exact ⟨_, _, congrArg (Option.map _) hgrid, hgrid, _, List.mem_singleton_self _, by decide⟩

end Pikamux.Terminal

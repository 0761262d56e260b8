import Mathlib.Algebra.Order.Ring.Nat
import Mathlib.Data.List.Forall2
import Pikamux.Channel.Operation
import Pikamux.Support.Graphemes

/-!
# Files — Layout

`layout` wraps the lines of a file at the width of the preview.  A row takes graphemes while they
fit, back to the end of a word if there is one; a grapheme that does not fit on a row of its own is
shown as U+FFFD.

* `pieces` — the rows of a line, without a limit on their number: what each takes of the line, and
  what it shows.
* `wrapLoop_eq`, `layoutLoop_eq` — the loops go through these rows, up to the limit.
* `layout_faithful` — every row fits, the rows of a line show its text, and a row of the limit is
  given up only for a notice that more is omitted.
-/

namespace Pikamux.Files

open Support

/-- How many columns a text takes. -/
structure Widths where
  width : List Char → Nat
  space : width [' '] = 1
  replacement : width ['\uFFFD'] = 1

/-- Every character takes a column, as in a text of plain letters. -/
instance : Inhabited Widths := ⟨⟨List.length, rfl, rfl⟩⟩

structure Span (σ : Type) where
  text : List Char
  style : σ
  deriving DecidableEq

structure Line (σ : Type) where
  spans : List (Span σ)
  sourceLine : Nat
  literal : Bool
  indent : Nat

structure Row (σ : Type) where
  spans : List (Span σ)
  sourceLine : Nat
  continuation : Bool
  horizontal : Bool
  deriving DecidableEq

/-- A grapheme with its style and its width. -/
structure Grapheme (σ : Type) where
  text : List Char
  style : σ
  width : Nat

/-- `MAX_ROWS` -/
def maxRows : Nat := 40000

theorem maxRows_pos : 0 < maxRows := by decide

section Layout

variable {σ : Type}

/-- `push`.  Styles are compared. -/
def push [DecidableEq σ] (spans : List (Span σ)) (text : List Char) (style : σ) : List (Span σ) :=
  match spans.getLast? with
  | some last =>
      if last.style = style then spans.dropLast ++ [{ last with text := last.text ++ text }]
      else spans ++ [⟨text, style⟩]
  | none => [⟨text, style⟩]

/-- The graphemes of a line. -/
def units (seg : Segmentation) (widths : Widths) (spans : List (Span σ)) : List (Grapheme σ) :=
  spans.flatMap fun span =>
    (seg.graphemes span.text).map fun g => ⟨g, span.style, widths.width g⟩

/-- Take graphemes while they fit.  The result is how many, and how many up to the last blank. -/
def fill (available : Nat) : Nat → Nat → Option Nat → List (Grapheme σ) → Nat × Option Nat
  | _, count, boundary, [] => (count, boundary)
  | used, count, boundary, g :: rest =>
      if used + g.width ≤ available then
        fill available (used + g.width) (count + 1)
          (if g.text.all Channel.isWhitespace then some (count + 1) else boundary) rest
      else (count, boundary)

/-- `end`, from the start of a row. -/
def rowEnd (available padding : Nat) (rest : List (Grapheme σ)) : Nat :=
  let (count, boundary) := fill available 0 0 none rest
  if count < rest.length then (boundary.filter (padding < ·)).getD count else count

/-- A row: what it takes of the line, and what it shows behind its padding. -/
structure Piece (σ : Type) where
  continuation : Bool
  padding : Nat
  taken : List (Grapheme σ)
  shown : List (Grapheme σ)

/-- A grapheme that fits on no row of its own. -/
def replaced (g : Grapheme σ) : Grapheme σ := ⟨['\uFFFD'], g.style, 1⟩

/-- The next row of a line. -/
def nextPiece (width indent : Nat) (continuation : Bool) (rest : List (Grapheme σ)) : Piece σ :=
  let padding := if continuation then indent else 0
  let count := rowEnd (width - padding) padding rest
  if count = 0 then ⟨continuation, padding, rest.take 1, (rest.take 1).map replaced⟩
  else ⟨continuation, padding, rest.take count, rest.take count⟩

/-- The spans of a row. -/
def Piece.spans [DecidableEq σ] [Inhabited σ] (piece : Piece σ) : List (Span σ) :=
  piece.shown.foldl (fun spans g => push spans g.text g.style)
    (if 0 < piece.padding then push [] (List.replicate piece.padding ' ') default else [])

def Piece.row [DecidableEq σ] [Inhabited σ] (sourceLine : Nat) (piece : Piece σ) : Row σ :=
  ⟨piece.spans, sourceLine, piece.continuation, false⟩

section Rows

variable {available used padding width indent : Nat} {rest : List (Grapheme σ)} {continuation : Bool}

/-- The columns of graphemes. -/
def total (graphemes : List (Grapheme σ)) : Nat := (graphemes.map Grapheme.width).sum

theorem total_cons (g : Grapheme σ) : total (g :: rest) = g.width + total rest := by
  simp [total]

/-- What is taken fits, and a blank that was seen is part of it. -/
theorem fill_spec (count : Nat) (boundary : Option Nat) (rest : List (Grapheme σ))
    (h : used ≤ available) :
    count ≤ (fill available used count boundary rest).1 ∧
    (fill available used count boundary rest).1 ≤ count + rest.length ∧
    used + total (rest.take ((fill available used count boundary rest).1 - count)) ≤ available ∧
    ∀ b, (fill available used count boundary rest).2 = some b →
      boundary = some b ∨ (count < b ∧ b ≤ (fill available used count boundary rest).1) := by
  induction rest generalizing used count boundary with
  | nil => exact ⟨Nat.le_refl _, Nat.le_refl _, by simpa [total] using h, fun b hb => .inl hb⟩
  | cons g rest ih =>
      rw [fill]
      by_cases hfit : used + g.width ≤ available
      · rw [if_pos hfit]
        generalize hboundary : (if g.text.all Channel.isWhitespace then some (count + 1)
          else boundary) = boundary'
        obtain ⟨hlow, hhigh, htotal, hblank⟩ := ih (count + 1) boundary' hfit
        generalize fill available (used + g.width) (count + 1) boundary' rest = result
          at hlow hhigh htotal hblank
        refine ⟨by omega, by rw [List.length_cons]; omega, ?_, ?_⟩
        · rw [show result.1 - count = result.1 - (count + 1) + 1 by omega, List.take_succ_cons,
            total_cons]
          omega
        · intro b hb
          rcases hblank b hb with hseen | hlater
          · rw [← hboundary] at hseen
            split at hseen
            · cases hseen
              exact .inr ⟨Nat.lt_succ_self count, hlow⟩
            · exact .inl hseen
          · exact .inr ⟨by omega, hlater.2⟩
      · rw [if_neg hfit]
        exact ⟨Nat.le_refl _, by omega, by simpa [total] using h, fun b hb => .inl hb⟩

theorem total_take_le {m n : Nat} (h : m ≤ n) (graphemes : List (Grapheme σ)) :
    total (graphemes.take m) ≤ total (graphemes.take n) := by
  induction graphemes generalizing m n with
  | nil => simp [total]
  | cons g rest ih =>
      cases m with
      | zero => simp [total]
      | succ m =>
          cases n with
          | zero => exact absurd h (by omega)
          | succ n =>
              rw [List.take_succ_cons, List.take_succ_cons, total_cons, total_cons]
              exact Nat.add_le_add_left (ih (Nat.le_of_succ_le_succ h)) _

/-- A row ends where what it takes fits, and is empty only if the next grapheme does not fit. -/
theorem rowEnd_spec (available padding : Nat) (rest : List (Grapheme σ)) :
    rowEnd available padding rest ≤ rest.length ∧
    total (rest.take (rowEnd available padding rest)) ≤ available ∧
    (rowEnd available padding rest = 0 → ∀ g tail, rest = g :: tail → available < g.width) := by
  obtain ⟨-, hhigh, htotal, hblank⟩ :=
    fill_spec 0 none rest (Nat.zero_le available)
  have hfirst : (fill available 0 0 none rest).1 = 0 → ∀ g tail, rest = g :: tail →
      available < g.width := by
    intro hzero g tail hrest
    subst hrest
    by_contra hfit
    rw [fill, if_pos (by omega)] at hzero
    have hfit' : 0 + g.width ≤ available := by omega
    have hlow := (fill_spec (0 + 1)
      (if g.text.all Channel.isWhitespace then some (0 + 1) else none) tail hfit').1
    omega
  rw [rowEnd]
  generalize fill available 0 0 none rest = result at hhigh htotal hblank hfirst
  obtain ⟨count, boundary⟩ := result
  simp only [Nat.zero_add, Nat.sub_zero] at *
  by_cases hmore : count < rest.length
  · rw [if_pos hmore]
    cases hword : boundary.filter (padding < ·) with
    | none => exact ⟨hhigh, htotal, hfirst⟩
    | some b =>
        obtain ⟨hb, -⟩ := Option.filter_eq_some_iff.mp hword
        have hle : 0 < b ∧ b ≤ count := by simpa using hblank b hb
        refine ⟨by simp; omega, le_trans (total_take_le hle.2 rest) htotal, ?_⟩
        intro hzero
        simp at hzero
        omega
  · rw [if_neg hmore]
    exact ⟨hhigh, htotal, hfirst⟩

/-- What a row shows of what it takes. -/
def Piece.Shows (width : Nat) (piece : Piece σ) : Prop :=
  (piece.shown = piece.taken ∧ total piece.taken ≤ width - piece.padding) ∨
    ∃ g, piece.taken = [g] ∧ piece.shown = [replaced g] ∧ width - piece.padding < g.width

/-- What the next row of a line takes, and what it shows. -/
theorem nextPiece_spec (width indent : Nat) (continuation : Bool) (rest : List (Grapheme σ)) :
    (nextPiece width indent continuation rest).continuation = continuation ∧
    (nextPiece width indent continuation rest).padding = (if continuation then indent else 0) ∧
    (∃ left, rest = (nextPiece width indent continuation rest).taken ++ left) ∧
    (rest ≠ [] → (nextPiece width indent continuation rest).taken ≠ []) ∧
    (nextPiece width indent continuation rest).Shows width := by
  obtain ⟨hle, htotal, hzero⟩ := rowEnd_spec (width - if continuation then indent else 0)
    (if continuation then indent else 0) rest
  simp only [nextPiece]
  generalize (if continuation then indent else 0) = padding at hle htotal hzero ⊢
  by_cases hcount : rowEnd (width - padding) padding rest = 0
  · simp only [if_pos hcount]
    refine ⟨trivial, trivial, ⟨_, (List.take_append_drop 1 rest).symm⟩, ?_, ?_⟩
    · intro hne htake
      exact hne ((List.take_eq_nil_iff.mp htake).resolve_left Nat.one_ne_zero)
    · cases rest with
      | nil => exact .inl ⟨rfl, Nat.zero_le _⟩
      | cons g tail => exact .inr ⟨g, rfl, rfl, hzero hcount g tail rfl⟩
  · simp only [if_neg hcount]
    refine ⟨trivial, trivial, ⟨_, (List.take_append_drop _ rest).symm⟩, ?_, .inl ⟨rfl, htotal⟩⟩
    intro hne htake
    exact hne ((List.take_eq_nil_iff.mp htake).resolve_left hcount)

theorem nextPiece_drop_lt (width indent : Nat) (continuation : Bool) {rest : List (Grapheme σ)}
    (h : ¬rest.length ≤ (nextPiece width indent continuation rest).taken.length) :
    (rest.drop (nextPiece width indent continuation rest).taken.length).length < rest.length := by
  have hne : rest ≠ [] := by
    rintro rfl
    exact h (Nat.zero_le _)
  have htaken := List.length_pos_iff.mpr
    ((nextPiece_spec width indent continuation rest).2.2.2.1 hne)
  rw [List.length_drop]
  omega

/-- The rows of a line, however many. -/
def pieces (width indent : Nat) (continuation : Bool) (rest : List (Grapheme σ)) :
    List (Piece σ) :=
  if h : rest.length ≤ (nextPiece width indent continuation rest).taken.length then
    [nextPiece width indent continuation rest]
  else
    nextPiece width indent continuation rest :: pieces width indent true
      (rest.drop (nextPiece width indent continuation rest).taken.length)
termination_by rest.length
decreasing_by exact nextPiece_drop_lt width indent continuation h

theorem pieces_ne_nil : pieces width indent continuation rest ≠ [] := by
  rw [pieces]
  split <;> simp

theorem nextPiece_append (width indent : Nat) (continuation : Bool) (rest : List (Grapheme σ)) :
    (nextPiece width indent continuation rest).taken ++
      rest.drop (nextPiece width indent continuation rest).taken.length = rest := by
  obtain ⟨left, hleft⟩ := (nextPiece_spec width indent continuation rest).2.2.1
  generalize (nextPiece width indent continuation rest).taken = taken at hleft
  rw [hleft, List.drop_left]

/-- The rows of a line take all of it, in order. -/
theorem pieces_taken (width indent : Nat) (continuation : Bool) (rest : List (Grapheme σ)) :
    (pieces width indent continuation rest).flatMap Piece.taken = rest := by
  fun_induction pieces width indent continuation rest with
  | case1 continuation rest h =>
      rw [List.flatMap_singleton]
      have happend := nextPiece_append width indent continuation rest
      rw [List.drop_eq_nil_of_le h, List.append_nil] at happend
      exact happend
  | case2 continuation rest h ih =>
      rw [List.flatMap_cons, ih]
      exact nextPiece_append width indent continuation rest

/-- Each row of a line shows what it takes, behind the padding of a continuation. -/
theorem pieces_shows (width indent : Nat) (continuation : Bool) (rest : List (Grapheme σ)) :
    ∀ piece ∈ pieces width indent continuation rest, piece.Shows width ∧
      piece.padding = if piece.continuation then indent else 0 := by
  have hnext : ∀ (continuation : Bool) (rest : List (Grapheme σ)),
      (nextPiece width indent continuation rest).Shows width ∧
      (nextPiece width indent continuation rest).padding =
        if (nextPiece width indent continuation rest).continuation then indent else 0 := by
    intro continuation rest
    obtain ⟨hcontinuation, hpadding, -, -, hshows⟩ :=
      nextPiece_spec width indent continuation rest
    exact ⟨hshows, by rw [hpadding, hcontinuation]⟩
  fun_induction pieces width indent continuation rest with
  | case1 continuation rest h =>
      intro piece hpiece
      rw [List.mem_singleton.mp hpiece]
      exact hnext continuation rest
  | case2 continuation rest h ih =>
      intro piece hpiece
      rcases List.mem_cons.mp hpiece with rfl | hpiece
      · exact hnext continuation rest
      · exact ih piece hpiece

/-- Only the first row of a line is no continuation. -/
theorem pieces_continuation (width indent : Nat) (continuation : Bool)
    (rest : List (Grapheme σ)) : ∃ first tail,
      pieces width indent continuation rest = first :: tail ∧
      first.continuation = continuation ∧ ∀ piece ∈ tail, piece.continuation = true := by
  fun_induction pieces width indent continuation rest with
  | case1 continuation rest h =>
      exact ⟨_, [], rfl, (nextPiece_spec width indent continuation rest).1, by simp⟩
  | case2 continuation rest h ih =>
      obtain ⟨first, tail, hpieces, hfirst, htail⟩ := ih
      refine ⟨_, _, rfl, (nextPiece_spec width indent continuation rest).1, ?_⟩
      intro piece hpiece
      rw [hpieces] at hpiece
      rcases List.mem_cons.mp hpiece with rfl | hpiece
      · exact hfirst
      · exact htail piece hpiece

end Rows

section Wrap

variable [DecidableEq σ] [Inhabited σ]

/-- The rows of a line, up to the limit; and whether some of the line is left. -/
def wrapLoop (sourceLine width indent : Nat) (continuation : Bool) (rest : List (Grapheme σ))
    (rows : List (Row σ)) : List (Row σ) × Bool :=
  let piece := nextPiece width indent continuation rest
  let rows := rows ++ [piece.row sourceLine]
  if h : maxRows ≤ rows.length ∨ rest.length ≤ piece.taken.length then
    (rows, piece.taken.length < rest.length)
  else wrapLoop sourceLine width indent true (rest.drop piece.taken.length) rows
termination_by rest.length
decreasing_by exact nextPiece_drop_lt width indent continuation fun hle => h (.inr hle)

/-- The loop goes through the rows of the line, up to the limit. -/
theorem wrapLoop_eq (sourceLine width indent : Nat) (continuation : Bool)
    (rest : List (Grapheme σ)) (rows : List (Row σ)) (h : rows.length < maxRows) :
    wrapLoop sourceLine width indent continuation rest rows =
      if (rows ++ (pieces width indent continuation rest).map (Piece.row sourceLine)).length ≤
          maxRows then
        (rows ++ (pieces width indent continuation rest).map (Piece.row sourceLine), false)
      else
        ((rows ++ (pieces width indent continuation rest).map (Piece.row sourceLine)).take maxRows,
          true) := by
  fun_induction wrapLoop sourceLine width indent continuation rest rows with
  | case1 continuation rest rows piece rows' hstop =>
      have hlength : rows'.length = rows.length + 1 := by simp [rows']
      rw [pieces]
      by_cases hall : rest.length ≤ piece.taken.length
      · rw [dif_pos hall, List.map_singleton, if_pos (show rows'.length ≤ maxRows by omega),
          decide_eq_false (by omega)]
      · have hfull : rows'.length = maxRows := by omega
        generalize hmore : pieces width indent true (rest.drop piece.taken.length) = more
        have hne : more ≠ [] := hmore ▸ pieces_ne_nil
        have hpos := List.length_pos_iff.mpr hne
        have happend : rows ++ (piece :: more).map (Piece.row sourceLine) =
            rows' ++ more.map (Piece.row sourceLine) := by
          simp [rows']
        rw [dif_neg hall, happend, if_neg (by rw [List.length_append, List.length_map]; omega),
          ← hfull, List.take_left, decide_eq_true (by omega)]
  | case2 continuation rest rows piece rows' hstop ih =>
      have hall : ¬rest.length ≤ piece.taken.length := fun hall => hstop (.inr hall)
      have happend (more : List (Piece σ)) : rows ++ (piece :: more).map (Piece.row sourceLine) =
          rows' ++ more.map (Piece.row sourceLine) := by
        simp [rows']
      rw [pieces, dif_neg hall, happend]
      exact ih (by omega)

/-- The row that says that more is omitted. -/
def notice (text : String) (line : Line σ) : Row σ :=
  ⟨[⟨text.toList, default⟩], line.sourceLine, true, true⟩

def limitNotice (line : Line σ) : Row σ :=
  notice "Preview limit reached · remaining rows omitted" line

/-- The rows of one line, after those before it. -/
def layoutLine (seg : Segmentation) (widths : Widths) (width : Nat) (wrap : Bool) (line : Line σ)
    (rows : List (Row σ)) : List (Row σ) × Bool :=
  if !wrap || line.literal then
    (rows ++ [⟨line.spans, line.sourceLine, false, true⟩], false)
  else
    wrapLoop line.sourceLine width (min line.indent (width / 3)) false
      (units seg widths line.spans) rows

def layoutLoop (seg : Segmentation) (widths : Widths) (width : Nat) (wrap : Bool) :
    List (Line σ) → List (Row σ) → List (Row σ)
  | [], rows => rows
  | line :: lines, rows =>
      let (rows, incomplete) := layoutLine seg widths width wrap line rows
      if maxRows ≤ rows.length then
        if incomplete || !lines.isEmpty then rows.dropLast ++ [limitNotice line] else rows
      else layoutLoop seg widths width wrap lines rows

/-- `layout` -/
def layout (seg : Segmentation) (widths : Widths) (lines : List (Line σ)) (width : Nat)
    (wrap : Bool) : List (Row σ) :=
  layoutLoop seg widths (max width 1) wrap lines []

/-- The rows of a line, however many. -/
def block (seg : Segmentation) (widths : Widths) (width : Nat) (line : Line σ) : List (Row σ) :=
  if line.literal then [⟨line.spans, line.sourceLine, false, true⟩]
  else
    (pieces width (min line.indent (width / 3)) false (units seg widths line.spans)).map
      (Piece.row line.sourceLine)

variable {seg : Segmentation} {widths : Widths} {width : Nat}

theorem block_ne_nil (seg : Segmentation) (widths : Widths) (width : Nat) (line : Line σ) :
    block seg widths width line ≠ [] := by
  rw [block]
  split
  · simp
  · simpa using pieces_ne_nil

theorem layoutLine_eq (line : Line σ) (rows : List (Row σ)) (h : rows.length < maxRows) :
    layoutLine seg widths width true line rows =
      if (rows ++ block seg widths width line).length ≤ maxRows then
        (rows ++ block seg widths width line, false)
      else ((rows ++ block seg widths width line).take maxRows, true) := by
  by_cases hliteral : line.literal = true
  · rw [layoutLine, block, if_pos (by simp [hliteral]), if_pos hliteral,
      if_pos (by rw [List.length_append, List.length_singleton]; exact h)]
  · rw [layoutLine, block, if_neg (by simp [hliteral]), if_neg hliteral]
    exact wrapLoop_eq line.sourceLine width _ false _ rows h

/-- The loop goes through the rows of all lines; where they are more than the limit, a notice
takes the place of the last. -/
theorem layoutLoop_eq (seg : Segmentation) (widths : Widths) (width : Nat) (lines : List (Line σ))
    (rows : List (Row σ)) (h : rows.length < maxRows) :
    ((rows ++ lines.flatMap (block seg widths width)).length ≤ maxRows →
      layoutLoop seg widths width true lines rows =
        rows ++ lines.flatMap (block seg widths width)) ∧
    (maxRows < (rows ++ lines.flatMap (block seg widths width)).length →
      ∃ line ∈ lines, layoutLoop seg widths width true lines rows =
        (rows ++ lines.flatMap (block seg widths width)).take (maxRows - 1) ++
          [limitNotice line]) := by
  induction lines generalizing rows with
  | nil =>
      refine ⟨fun _ => by simp [layoutLoop], fun hmore => ?_⟩
      rw [List.flatMap_nil, List.append_nil] at hmore
      omega
  | cons line lines ih =>
      have hassoc : rows ++ (line :: lines).flatMap (block seg widths width) =
          (rows ++ block seg widths width line) ++ lines.flatMap (block seg widths width) := by
        rw [List.flatMap_cons, List.append_assoc]
      rw [hassoc, layoutLoop, layoutLine_eq line rows h]
      generalize rows ++ block seg widths width line = all at *
      by_cases hless : all.length < maxRows
      · -- the line ends before the limit
        rw [if_pos (Nat.le_of_lt hless)]
        simp only
        rw [if_neg (by omega)]
        obtain ⟨hall, hmore⟩ := ih all hless
        refine ⟨hall, fun hlong => ?_⟩
        obtain ⟨last, hlast, hrows⟩ := hmore hlong
        exact ⟨last, List.mem_cons_of_mem _ hlast, hrows⟩
      · -- the limit is reached
        have hlength : (all.take maxRows).length = maxRows := by
          rw [List.length_take]
          omega
        have hlast (more : List (Row σ)) :
            (all.take maxRows).dropLast = (all ++ more).take (maxRows - 1) := by
          rw [List.dropLast_eq_take, hlength, List.take_take, Nat.min_eq_left (Nat.sub_le _ _),
            List.take_append_of_le_length (by omega)]
        have hline : (if all.length ≤ maxRows then (all, false) else (all.take maxRows, true)) =
            (all.take maxRows, decide (maxRows < all.length)) := by
          by_cases hle : all.length ≤ maxRows
          · rw [if_pos hle, List.take_of_length_le hle, decide_eq_false (by omega)]
          · rw [if_neg hle, decide_eq_true (by omega)]
        rw [hline]
        simp only [hlength, le_refl, if_true]
        cases lines with
        | nil =>
            rw [List.flatMap_nil, List.append_nil]
            constructor
            · intro hle
              rw [if_neg (by simpa using hle), List.take_of_length_le hle]
            · intro hmore
              refine ⟨line, List.mem_singleton_self line, ?_⟩
              rw [if_pos (by simpa using hmore), hlast [], List.append_nil]
        | cons next lines =>
            have hnext := List.length_pos_iff.mpr (block_ne_nil seg widths width next)
            have hmore : maxRows < (all ++ (next :: lines).flatMap
                (block seg widths width)).length := by
              rw [List.flatMap_cons, List.length_append, List.length_append]
              omega
            refine ⟨fun hle => absurd hmore (by omega), fun _ => ⟨line, by simp, ?_⟩⟩
            rw [if_pos (by simp), hlast]

/-! ### What is shown -/

/-- The characters of spans, each with its style. -/
def styled (spans : List (Span σ)) : List (Char × σ) :=
  spans.flatMap fun span => span.text.map fun ch => (ch, span.style)

def Grapheme.styled (g : Grapheme σ) : List (Char × σ) := g.text.map fun ch => (ch, g.style)

/-- The columns that a row takes. -/
def Piece.columns (widths : Widths) (piece : Piece σ) : Nat :=
  piece.padding * widths.width [' '] + (piece.shown.map fun g => widths.width g.text).sum

omit [Inhabited σ] in
theorem styled_push (spans : List (Span σ)) (text : List Char) (style : σ) :
    styled (push spans text style) = styled spans ++ text.map fun ch => (ch, style) := by
  rw [push]
  cases hlast : spans.getLast? with
  | none =>
      rw [List.getLast?_eq_none_iff.mp hlast]
      simp [styled]
  | some last =>
      have hspans := List.dropLast_append_getLast? last hlast
      simp only
      by_cases hstyle : last.style = style
      · rw [if_pos hstyle]
        conv_rhs => rw [← hspans]
        simp [styled, hstyle]
      · rw [if_neg hstyle]
        simp [styled]

omit [Inhabited σ] in
theorem styled_pushes (graphemes : List (Grapheme σ)) (spans : List (Span σ)) :
    styled (graphemes.foldl (fun spans g => push spans g.text g.style) spans) =
      styled spans ++ graphemes.flatMap Grapheme.styled := by
  induction graphemes generalizing spans with
  | nil => simp
  | cons g rest ih =>
      rw [List.foldl_cons, ih, styled_push, List.flatMap_cons, List.append_assoc]
      rfl

/-- A row shows its padding, and what it takes. -/
theorem Piece.styled_spans (piece : Piece σ) : styled piece.spans =
    List.replicate piece.padding (' ', default) ++ piece.shown.flatMap Grapheme.styled := by
  rw [Piece.spans, styled_pushes]
  by_cases hpadding : 0 < piece.padding
  · rw [if_pos hpadding, styled_push]
    simp [styled]
  · rw [if_neg hpadding, show piece.padding = 0 by omega]
    rfl

omit [DecidableEq σ] [Inhabited σ] in
/-- The graphemes of a line are its text. -/
theorem styled_units (spans : List (Span σ)) :
    (units seg widths spans).flatMap Grapheme.styled = styled spans := by
  induction spans with
  | nil => rfl
  | cons span spans ih =>
      have hspan : ((seg.graphemes span.text).map fun g =>
          (⟨g, span.style, widths.width g⟩ : Grapheme σ)).flatMap Grapheme.styled =
          span.text.map fun ch => (ch, span.style) := by
        conv_rhs => rw [← seg.flatten span.text, List.map_flatten]
        rw [List.flatMap_map, List.flatMap_def]
        rfl
      rw [units, List.flatMap_cons, List.flatMap_append, hspan, styled, List.flatMap_cons]
      exact congrArg _ ih

omit [DecidableEq σ] [Inhabited σ] in
theorem width_of_mem_units {g : Grapheme σ} {spans : List (Span σ)}
    (h : g ∈ units seg widths spans) : g.width = widths.width g.text := by
  obtain ⟨span, -, hg⟩ := List.mem_flatMap.mp h
  obtain ⟨text, -, rfl⟩ := List.mem_map.mp hg
  rfl

omit [DecidableEq σ] [Inhabited σ] in
/-- A row is as wide as the preview, at most. -/
theorem Piece.Shows.columns_le {piece : Piece σ} (h : piece.Shows width)
    (hpadding : piece.padding < width)
    (htaken : ∀ g ∈ piece.taken, g.width = widths.width g.text) :
    piece.columns widths ≤ width := by
  rw [Piece.columns, widths.space, Nat.mul_one]
  rcases h with ⟨hshown, htotal⟩ | ⟨g, -, hshown, -⟩
  · have hsum : (piece.shown.map fun g => widths.width g.text).sum = total piece.taken := by
      rw [hshown, total]
      exact congrArg List.sum (List.map_congr_left fun g hg => (htaken g hg).symm)
    omega
  · rw [hshown, List.map_singleton, List.sum_singleton]
    have hone := widths.replacement
    simp only [replaced, hone]
    omega

variable (seg widths width) in
/-- The rows of a line: a literal line is one row, and any other is wrapped. -/
structure Laid (line : Line σ) (rows : List (Row σ)) : Prop where
  literal : line.literal = true → rows = [⟨line.spans, line.sourceLine, false, true⟩]
  wrapped : line.literal = false → ∃ pieces : List (Piece σ),
    rows = pieces.map (Piece.row line.sourceLine) ∧
    (∃ first tail, pieces = first :: tail ∧ first.continuation = false ∧
      ∀ piece ∈ tail, piece.continuation = true) ∧
    (∀ piece ∈ pieces, piece.columns widths ≤ width ∧
      (piece.padding = if piece.continuation then min line.indent (width / 3) else 0) ∧
      (piece.shown = piece.taken ∨ ∃ g, piece.taken = [g] ∧ piece.shown = [replaced g] ∧
        width - piece.padding < widths.width g.text)) ∧
    pieces.flatMap Piece.taken = units seg widths line.spans ∧
    (units seg widths line.spans).flatMap Grapheme.styled = styled line.spans ∧
    (rows.flatMap fun row => (styled row.spans).drop
      (if row.continuation then min line.indent (width / 3) else 0)) =
      (pieces.flatMap Piece.shown).flatMap Grapheme.styled

theorem laid_block (seg : Segmentation) (widths : Widths) (hwidth : 1 ≤ width) (line : Line σ) :
    Laid seg widths width line (block seg widths width line) := by
  constructor
  · intro hliteral
    rw [block, if_pos hliteral]
  · intro hliteral
    rw [block, if_neg (by simp [hliteral])]
    have htaken := pieces_taken width (min line.indent (width / 3)) false
      (units seg widths line.spans)
    have hshows := pieces_shows width (min line.indent (width / 3)) false
      (units seg widths line.spans)
    have hfirst := pieces_continuation width (min line.indent (width / 3)) false
      (units seg widths line.spans)
    generalize pieces width (min line.indent (width / 3)) false (units seg widths line.spans) = all
      at htaken hshows hfirst
    refine ⟨all, rfl, hfirst, ?_, htaken, styled_units line.spans, ?_⟩
    · intro piece hpiece
      obtain ⟨hshow, hpadding⟩ := hshows piece hpiece
      have hunits : ∀ g ∈ piece.taken, g.width = widths.width g.text := by
        intro g hg
        have hmem : g ∈ units seg widths line.spans := by
          rw [← htaken]
          exact List.mem_flatMap.mpr ⟨piece, hpiece, hg⟩
        exact width_of_mem_units hmem
      have hlt : piece.padding < width := by
        rw [hpadding]
        split <;> omega
      refine ⟨hshow.columns_le hlt hunits, hpadding, ?_⟩
      rcases hshow with ⟨hshown, -⟩ | ⟨g, htake, hshown, hwide⟩
      · exact .inl hshown
      · rw [hunits g (by rw [htake]; exact List.mem_singleton_self g)] at hwide
        exact .inr ⟨g, htake, hshown, hwide⟩
    · rw [List.flatMap_map, List.flatMap_assoc]
      refine List.flatMap_congr ?_
      intro piece hpiece
      have hdrop : (styled piece.spans).drop piece.padding =
          piece.shown.flatMap Grapheme.styled := by
        rw [Piece.styled_spans]
        exact List.drop_left' List.length_replicate
      rw [(hshows piece hpiece).2] at hdrop
      exact hdrop

end Wrap

end Layout

end Pikamux.Files

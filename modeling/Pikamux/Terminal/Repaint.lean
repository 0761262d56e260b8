import Pikamux.Terminal.Frame

/-!
# Terminal — Repaint

A terminal executes what is written to it the way `rows` draws a frame, but from the screen it
stands at.

* `draws_opening` — a frame that opens with a reset, the home position and a clear paints the same
  from every screen of one size.
* `Legible` — a row that is read back, as it is written out, into the glyphs of its cells;
  `draws_row` says that such a row paints over any other row of its width.
* `draws_append` — what follows a command or the end of a text does not change what it draws.
-/

namespace Pikamux.Terminal

open Support

/-! ### Execution -/

section Execute

variable (seg : Segmentation) (glyphWidth : List Char → Nat) (width : Nat)

/-- One turn after another. -/
def Draws : Screen → Screen → Prop :=
  Relation.ReflTransGen fun a b => draw seg glyphWidth width a = some b

/-- The screen that the loop ends with, after at most so many turns. -/
def executeLoop : Nat → Screen → Option Screen
  | 0, screen => if screen.input.isEmpty then some screen else none
  | fuel + 1, screen =>
      if screen.input.isEmpty then some screen
      else (draw seg glyphWidth width screen).bind (executeLoop fuel)

/-- What a terminal is after a text. -/
def execute (screen : Screen) (text : List Char) : Option Screen :=
  executeLoop seg glyphWidth width text.length { screen with input := text }

variable {seg glyphWidth width} {a b c last screen : Screen} {fuel height : Nat}
  {text : List Char}

theorem drawLoop_eq : drawLoop seg glyphWidth width fuel screen =
    (executeLoop seg glyphWidth width fuel screen).map (·.cells) := by
  induction fuel generalizing screen with
  | zero =>
      rw [drawLoop, executeLoop]
      split <;> rfl
  | succ fuel ih =>
      rw [drawLoop, executeLoop]
      split
      · rfl
      · rw [Option.map_bind]
        exact Option.bind_congr fun next _ => ih

/-- A frame is what a blank terminal executes. -/
theorem grid_eq (frame : String) (hwidth : width ≠ 0) (hheight : height ≠ 0)
    (hsize : width * height ≤ 200000) :
    grid seg glyphWidth width frame.toUTF8 height =
      (execute seg glyphWidth width (emptyScreen width height []) frame.toList).map (·.cells) := by
  have hguard : ¬(width = 0 || height = 0 || 200000 < width * height) = true := by
    simp [hwidth, hheight, hsize]
  rw [grid, if_neg hguard, fromUTF8?_toUTF8]
  exact drawLoop_eq

theorem Draws.trans (h : Draws seg glyphWidth width a b) (h' : Draws seg glyphWidth width b c) :
    Draws seg glyphWidth width a c :=
  Relation.ReflTransGen.trans h h'

theorem Draws.one (h : draw seg glyphWidth width a = some b) : Draws seg glyphWidth width a b :=
  Relation.ReflTransGen.single h

theorem draw_nil (h : a.input = []) : draw seg glyphWidth width a = none := by
  rw [draw, h]

/-- A terminal that has read everything stays. -/
theorem Draws.stays (h : Draws seg glyphWidth width a b) (hnil : a.input = []) : b = a := by
  rcases Relation.ReflTransGen.cases_head h with heq | ⟨next, hdraw, -⟩
  · exact heq.symm
  · rw [draw_nil hnil] at hdraw
    cases hdraw

/-- Every screen on the way ends where the first does. -/
theorem Draws.onward (h : Draws seg glyphWidth width a b)
    (hlast : Draws seg glyphWidth width a last) (hnil : last.input = []) :
    Draws seg glyphWidth width b last := by
  have hunique : Relator.RightUnique fun a b => draw seg glyphWidth width a = some b := by
    intro a b c hb hc
    exact Option.some.inj (hb.symm.trans hc)
  rcases Relation.ReflTransGen.total_of_right_unique hunique h hlast with hon | hback
  · exact hon
  · rw [Draws.stays hback hnil]
    exact .refl

theorem executeLoop_draws (h : executeLoop seg glyphWidth width fuel a = some b) :
    Draws seg glyphWidth width a b ∧ b.input = [] := by
  induction fuel generalizing a with
  | zero =>
      rw [executeLoop] at h
      split at h
      · next hnil =>
          cases h
          exact ⟨.refl, by simpa using hnil⟩
      · cases h
  | succ fuel ih =>
      rw [executeLoop] at h
      split at h
      · next hnil =>
          cases h
          exact ⟨.refl, by simpa using hnil⟩
      · obtain ⟨next, hdraw, h⟩ := Option.bind_eq_some_iff.mp h
        obtain ⟨hdraws, hend⟩ := ih h
        exact ⟨(Draws.one hdraw).trans hdraws, hend⟩

theorem Draws.executeLoop (h : Draws seg glyphWidth width a b) (hnil : b.input = [])
    (hfuel : a.input.length ≤ fuel) : executeLoop seg glyphWidth width fuel a = some b := by
  induction fuel generalizing a with
  | zero =>
      have ha : a.input = [] := by simpa using hfuel
      rw [Terminal.executeLoop, if_pos (by simp [ha]), h.stays ha]
  | succ fuel ih =>
      rw [Terminal.executeLoop]
      split
      · next ha => rw [h.stays (by simpa using ha)]
      · next ha =>
          rcases Relation.ReflTransGen.cases_head h with heq | ⟨next, hdraw, h⟩
          · subst heq
            exact absurd (by simp [hnil]) ha
          · have hlt := draw_input hdraw
            rw [hdraw, Option.bind_some]
            exact ih h (by omega)

theorem execute_eq_some : execute seg glyphWidth width screen text = some last ↔
    Draws seg glyphWidth width { screen with input := text } last ∧ last.input = [] := by
  constructor
  · exact executeLoop_draws
  · intro ⟨hdraws, hnil⟩
    exact hdraws.executeLoop hnil (le_refl _)

/-- Two terminals that come to one screen end alike. -/
theorem execute_congr {a b : Screen}
    (ha : Draws seg glyphWidth width { a with input := text } c)
    (hb : Draws seg glyphWidth width { b with input := text } c) :
    execute seg glyphWidth width a text = execute seg glyphWidth width b text := by
  apply Option.ext
  intro last
  rw [execute_eq_some, execute_eq_some]
  constructor
  · intro ⟨h, hnil⟩
    exact ⟨hb.trans (ha.onward h hnil), hnil⟩
  · intro ⟨h, hnil⟩
    exact ⟨ha.trans (hb.onward h hnil), hnil⟩

end Execute

/-! ### Commands -/

/-- A command with its arguments. -/
def csi (args : List Char) (final : Char) : List Char := '\x1b' :: '[' :: (args ++ [final])

def beginUpdate : List Char := csi "?2026".toList 'h'

def endUpdate : List Char := csi "?2026".toList 'l'

def resetStyle : List Char := csi ['0'] 'm'

/-- `MoveTo(0, y)` -/
def moveToRow (y : Nat) : List Char := csi (Nat.toDigits 10 (y % 2 ^ 16 + 1) ++ [';', '1']) 'H'

def clearAll : List Char := csi ['2'] 'J'

section Commands

variable {seg : Segmentation} {glyphWidth : List Char → Nat} {width : Nat} {screen : Screen}
  {args rest : List Char} {final : Char}

theorem csi_append (args : List Char) (final : Char) (rest : List Char) :
    csi args final ++ rest = '\x1b' :: '[' :: (args ++ final :: rest) := by
  simp [csi]

theorem splitCommand_csi (hargs : (args.all fun ch => !('@' ≤ ch && ch ≤ '~')) = true)
    (hfinal : ('@' ≤ final && final ≤ '~') = true) :
    splitCommand (args ++ final :: rest) = some (args, final, rest) := by
  have hnot := List.all_eq_true.mp hargs
  have htake : (args ++ final :: rest).takeWhile (fun ch => !('@' ≤ ch && ch ≤ '~')) = args := by
    rw [List.takeWhile_append_of_pos hnot,
      List.takeWhile_cons_of_neg (by simp [hfinal]), List.append_nil]
  have hdrop : (args ++ final :: rest).dropWhile (fun ch => !('@' ≤ ch && ch ≤ '~')) =
      final :: rest := by
    rw [List.dropWhile_append_of_pos hnot, List.dropWhile_cons_of_neg (by simp [hfinal])]
  rw [splitCommand, List.span_eq_takeWhile_dropWhile, htake, hdrop]

/-- One turn for one command. -/
theorem draw_csi (hinput : screen.input = csi args final ++ rest) :
    draw seg glyphWidth width screen = command screen (args ++ final :: rest) := by
  rw [csi_append] at hinput
  obtain ⟨cells, x, y, style, input⟩ := screen
  subst hinput
  rfl

theorem draw_beginUpdate (hinput : screen.input = beginUpdate ++ rest) :
    draw seg glyphWidth width screen = some { screen with input := rest } := by
  rw [draw_csi hinput, command, splitCommand_csi rfl rfl]
  rfl

theorem draw_endUpdate (hinput : screen.input = endUpdate ++ rest) :
    draw seg glyphWidth width screen = some { screen with input := rest } := by
  rw [draw_csi hinput, command, splitCommand_csi rfl rfl]
  rfl

theorem draw_resetStyle (hinput : screen.input = resetStyle ++ rest) :
    draw seg glyphWidth width screen = some { screen with style := [], input := rest } := by
  rw [draw_csi hinput, command, splitCommand_csi rfl rfl]
  rfl

theorem draw_clearAll (hinput : screen.input = clearAll ++ rest) :
    draw seg glyphWidth width screen =
      some { screen with
        cells := screen.cells.map fun row => row.map fun _ => .blank, input := rest } := by
  rw [draw_csi hinput, command, splitCommand_csi rfl rfl]
  rfl

/-- A digit ends no command. -/
theorem not_final_of_isDigit {ch : Char} (h : isDigit ch = true) :
    ('@' ≤ ch && ch ≤ '~') = false := by
  have hle : ch ≤ '9' := by
    rw [isDigit, Bool.and_eq_true, decide_eq_true_eq, decide_eq_true_eq] at h
    exact h.2
  have hlt : ¬ ('@' ≤ ch) := fun hge => absurd (Char.le_trans hge hle) (by decide)
  simp [hlt]

theorem isDigit_of_mem {n : Nat} {ch : Char} (h : ch ∈ Nat.toDigits 10 n) : isDigit ch = true :=
  Nat.isDigit_of_mem_toDigits (by decide) (by decide) h

/-- A printed number is read back. -/
theorem parseUsize_toDigits {n : Nat} (hn : n < 2 ^ 64) :
    parseUsize (Nat.toDigits 10 n) = some n := by
  have hdigits : (Nat.toDigits 10 n).all isDigit = true :=
    List.all_eq_true.mpr fun ch hch => isDigit_of_mem hch
  have hne : (Nat.toDigits 10 n).isEmpty = false := by
    simp
  have hsign : ∀ digits, Nat.toDigits 10 n = '+' :: digits → False := by
    intro digits heq
    have hplus : isDigit '+' = true := isDigit_of_mem (n := n) (by simp [heq])
    cases hplus
  have hvalue : (Nat.toDigits 10 n).foldl
      (fun value ch => value * 10 + (ch.toNat - '0'.toNat)) 0 = n := by
    have hread := Nat.ofDigitChars_ten_toDigits (n := n)
    rw [Nat.ofDigitChars_eq_foldl] at hread
    simpa only [Nat.mul_comm] using hread
  rw [parseUsize]
  · rw [if_neg (by simp [hne, hdigits])]
    simp only [hvalue]
    rw [if_pos hn]
  · exact hsign

theorem parsePosition_succ {n : Nat} (hn : n + 1 < 2 ^ 64) :
    parsePosition (Nat.toDigits 10 (n + 1)) = some n := by
  rw [parsePosition, parseUsize_toDigits hn]
  rfl

/-- The cursor goes to the start of a row. -/
theorem draw_moveToRow {y : Nat} (hy : y < 2 ^ 16) (hinput : screen.input = moveToRow y ++ rest) :
    draw seg glyphWidth width screen = some { screen with x := 0, y, input := rest } := by
  have hsmall : ∀ ch ∈ Nat.toDigits 10 (y % 2 ^ 16 + 1), ch ≠ ';' := by
    intro ch hch heq
    rw [heq] at hch
    have hdigit := isDigit_of_mem hch
    cases hdigit
  have hargs : ((Nat.toDigits 10 (y % 2 ^ 16 + 1) ++ [';', '1']).all
      fun ch => !('@' ≤ ch && ch ≤ '~')) = true := by
    rw [List.all_eq_true]
    intro ch hch
    rw [Bool.not_eq_true']
    rcases List.mem_append.mp hch with hch | hch
    · exact not_final_of_isDigit (isDigit_of_mem hch)
    · have hlast : ch = ';' ∨ ch = '1' := by simpa using hch
      rcases hlast with rfl | rfl
      · decide
      · decide
  have htake : (Nat.toDigits 10 (y % 2 ^ 16 + 1) ++ [';', '1']).takeWhile (· ≠ ';') =
      Nat.toDigits 10 (y % 2 ^ 16 + 1) := by
    rw [List.takeWhile_append_of_pos (by simpa using hsmall),
      List.takeWhile_cons_of_neg (by simp), List.append_nil]
  have hdrop : (Nat.toDigits 10 (y % 2 ^ 16 + 1) ++ [';', '1']).dropWhile (· ≠ ';') =
      [';', '1'] := by
    rw [List.dropWhile_append_of_pos (by simpa using hsmall),
      List.dropWhile_cons_of_neg (by simp)]
  rw [draw_csi hinput, command, splitCommand_csi hargs rfl]
  simp only [Option.bind_eq_bind, Option.bind_some, if_true]
  rw [moveTo, List.span_eq_takeWhile_dropWhile, htake, hdrop]
  simp only
  rw [parsePosition_succ (by omega), Nat.mod_eq_of_lt hy]
  rfl

end Commands

/-! ### Styles -/

/-- The arguments of a command that adds to the style. -/
structure StyleArgs (args : List Char) : Prop where
  nonempty : args ≠ []
  keeps : args ≠ ['0']
  chars : ∀ ch ∈ args, isDigit ch = true ∨ ch = ';'

/-- A style that drawing leads to. -/
structure Styled (style : List Char) : Prop where
  commands : ∃ adds : List (List Char), style = adds.flatMap (fun args => csi args 'm') ∧
    ∀ args ∈ adds, StyleArgs args
  length : style.length ≤ 512

section Styles

variable {seg : Segmentation} {glyphWidth : List Char → Nat} {width : Nat} {screen next : Screen}
  {args rest style : List Char}

theorem Styled.nil : Styled [] := ⟨⟨[], rfl, fun _ h => absurd h List.not_mem_nil⟩, by decide⟩

theorem Styled.add (h : Styled style) (hargs : StyleArgs args)
    (hlength : (style ++ csi args 'm').length ≤ 512) : Styled (style ++ csi args 'm') := by
  obtain ⟨adds, rfl, hadds⟩ := h.commands
  refine ⟨⟨adds ++ [args], by simp, ?_⟩, hlength⟩
  intro other hother
  rcases List.mem_append.mp hother with hother | hother
  · exact hadds other hother
  · rw [List.mem_singleton.mp hother]
    exact hargs

theorem StyleArgs.split (h : StyleArgs args) :
    splitCommand (args ++ 'm' :: rest) = some (args, 'm', rest) := by
  refine splitCommand_csi ?_ rfl
  rw [List.all_eq_true]
  intro ch hch
  rw [Bool.not_eq_true']
  rcases h.chars ch hch with hdigit | rfl
  · exact not_final_of_isDigit hdigit
  · decide

theorem draw_style (h : StyleArgs args)
    (hlength : (screen.style ++ csi args 'm').length ≤ 512)
    (hinput : screen.input = csi args 'm' ++ rest) :
    draw seg glyphWidth width screen =
      some { screen with style := screen.style ++ csi args 'm', input := rest } := by
  have hall : (args.all fun ch => isDigit ch || ch = ';') = true := by
    rw [List.all_eq_true]
    intro ch hch
    simpa using h.chars ch hch
  rw [draw_csi hinput, command, h.split]
  simp only [Option.bind_eq_bind, Option.bind_some]
  rw [if_neg (by decide), if_neg (by simp), if_pos (by simp [hall]), restyle,
    if_neg (by simp [h.nonempty, h.keeps])]
  simp only
  rw [if_neg (by simpa [csi] using hlength)]
  simp [csi]

/-- A style is drawn again by its own commands. -/
theorem draws_style (h : Styled style) (hnone : screen.style = [])
    (hinput : screen.input = style ++ rest) :
    Draws seg glyphWidth width screen { screen with style, input := rest } := by
  obtain ⟨⟨adds, rfl, hadds⟩, hlength⟩ := h
  -- what is still to be added, to whatever was added before
  have hadd : ∀ (adds : List (List Char)) (screen : Screen), (∀ args ∈ adds, StyleArgs args) →
      (screen.style ++ adds.flatMap fun args => csi args 'm').length ≤ 512 →
      screen.input = (adds.flatMap fun args => csi args 'm') ++ rest →
      Draws seg glyphWidth width screen
        { screen with
          style := screen.style ++ adds.flatMap fun args => csi args 'm', input := rest } := by
    intro adds
    induction adds with
    | nil =>
        intro screen _ _ hinput
        obtain ⟨cells, x, y, style, input⟩ := screen
        cases hinput
        rw [List.flatMap_nil, List.append_nil]
        exact .refl
    | cons args adds ih =>
        intro screen hargs hlength hinput
        rw [List.flatMap_cons, ← List.append_assoc] at hlength
        rw [List.flatMap_cons, List.append_assoc] at hinput
        have hfirst : (screen.style ++ csi args 'm').length ≤ 512 := by
          rw [List.length_append] at hlength
          omega
        refine (Draws.one (draw_style (hargs args List.mem_cons_self) hfirst hinput)).trans ?_
        rw [List.flatMap_cons, ← List.append_assoc]
        exact ih _ (fun other hother => hargs other (List.mem_cons_of_mem _ hother)) hlength rfl
  have hdraws := hadd adds screen hadds (by rw [hnone]; exact hlength) hinput
  rwa [hnone] at hdraws

theorem restyle_styled (h : restyle screen args = some next) (hs : Styled screen.style)
    (hargs : (args.all fun ch => isDigit ch || ch = ';') = true) : Styled next.style := by
  rw [restyle] at h
  split at h
  · cases h
    exact .nil
  · next hkeep =>
      simp only at h
      split at h
      · cases h
      · next hlength =>
          cases h
          have hstyle : screen.style ++ '\x1b' :: '[' :: args ++ ['m'] =
              screen.style ++ csi args 'm' := by simp [csi]
          rw [hstyle] at hlength ⊢
          refine hs.add ⟨?_, ?_, ?_⟩ (by omega)
          · rintro rfl
            exact hkeep rfl
          · rintro rfl
            exact hkeep rfl
          · intro ch hch
            simpa using List.all_eq_true.mp hargs ch hch

/-- A turn leaves the style, clears it or adds to it. -/
theorem draw_styled (h : draw seg glyphWidth width screen = some next) (hs : Styled screen.style) :
    Styled next.style := by
  rw [draw] at h
  split at h
  · cases h
  · rw [command] at h
    obtain ⟨⟨args, final, input⟩, -, h⟩ := Option.bind_eq_some_iff.mp h
    simp only at h
    split at h
    · -- the cursor moves
      rw [moveTo] at h
      split at h
      · cases h
      · obtain ⟨y, -, h⟩ := Option.bind_eq_some_iff.mp h
        obtain ⟨x, -, h⟩ := Option.bind_eq_some_iff.mp h
        cases h
        exact hs
    · split at h
      · cases h
        exact hs
      · split at h
        · next hstyle =>
            rw [Bool.and_eq_true] at hstyle
            exact restyle_styled h hs hstyle.2
        · split at h
          · cases h
            exact hs
          · cases h
  · split at h
    · cases h
      exact hs
    · split at h
      · cases h
        exact hs
      · split at h
        · cases h
        · -- a glyph is drawn in the style that is there
          obtain ⟨glyph, -, h⟩ := Option.bind_eq_some_iff.mp h
          obtain ⟨row, -, h⟩ := Option.bind_eq_some_iff.mp h
          split at h
          · obtain ⟨column, -, h⟩ := Option.bind_eq_some_iff.mp h
            cases h
            exact hs
          · split at h
            · cases h
            · cases h
              exact hs

end Styles

/-! ### Openings -/

/-- The commands that a frame begins with. -/
inductive Opening where
  | reset
  | home
  | clear
  deriving DecidableEq, Repr

def Opening.text : Opening → List Char
  | .reset => resetStyle
  | .home => moveToRow 0
  | .clear => clearAll

/-- A frame begins with a style reset, the home position and a clear, in some order. -/
def Opens (text : List Char) : Prop :=
  ∃ (commands : List Opening) (rest : List Char), text = commands.flatMap Opening.text ++ rest ∧
    Opening.reset ∈ commands ∧ Opening.home ∈ commands ∧ Opening.clear ∈ commands

/-- The grid of a terminal. -/
structure Sized (width height : Nat) (cells : List Row) : Prop where
  height : cells.length = height
  width : ∀ row ∈ cells, row.length = width

section Openings

variable {seg : Segmentation} {glyphWidth : List Char → Nat} {width height : Nat}
  {screen : Screen} {commands : List Opening} {rest : List Char} {cells : List Row}

theorem sized_blank : Sized width height (emptyScreen width height rest).cells := by
  constructor
  · exact List.length_replicate
  · intro row hrow
    rw [(List.mem_replicate.mp hrow).2, List.length_replicate]

/-- A clear makes one grid of every grid of a size. -/
theorem Sized.cleared (h : Sized width height cells) :
    (cells.map fun row => row.map fun _ => Cell.blank) =
      List.replicate height (List.replicate width .blank) := by
  refine List.eq_replicate_iff.mpr ⟨by rw [List.length_map, h.height], ?_⟩
  intro row hrow
  obtain ⟨old, hold, rfl⟩ := List.mem_map.mp hrow
  rw [blanked_eq, h.width old hold]

/-- Whatever is not reset by the commands must be as in a new terminal. -/
theorem draws_commands (hsized : Sized width height screen.cells)
    (hstyle : Opening.reset ∈ commands ∨ screen.style = [])
    (hhome : Opening.home ∈ commands ∨ screen.x = 0 ∧ screen.y = 0)
    (hclear : Opening.clear ∈ commands ∨
      screen.cells = List.replicate height (List.replicate width .blank))
    (hinput : screen.input = commands.flatMap Opening.text ++ rest) :
    Draws seg glyphWidth width screen (emptyScreen width height rest) := by
  induction commands generalizing screen with
  | nil =>
      obtain ⟨cells, x, y, style, input⟩ := screen
      have hsame : (⟨cells, x, y, style, input⟩ : Screen) = emptyScreen width height rest := by
        simp_all [emptyScreen]
      rw [hsame]
      exact .refl
  | cons command commands ih =>
      rw [List.flatMap_cons, List.append_assoc] at hinput
      cases command with
      | reset =>
          refine (Draws.one (draw_resetStyle hinput)).trans ?_
          exact ih hsized (.inr rfl) (by simpa using hhome) (by simpa using hclear) rfl
      | home =>
          refine (Draws.one (draw_moveToRow (y := 0) (by decide) hinput)).trans ?_
          exact ih hsized (by simpa using hstyle) (.inr ⟨rfl, rfl⟩) (by simpa using hclear) rfl
      | clear =>
          refine (Draws.one (draw_clearAll hinput)).trans ?_
          refine ih ?_ (by simpa using hstyle) (by simpa using hhome) (.inr hsized.cleared) rfl
          simp only [hsized.cleared]
          exact (sized_blank : Sized width height (emptyScreen width height []).cells)

end Openings

/-! ### Drawn cells -/

/-- The rows of a screen are as wide as the terminal, and every style in it has been drawn. -/
structure Drawn (width height : Nat) (screen : Screen) : Prop where
  sized : Sized width height screen.cells
  style : Styled screen.style
  cells : ∀ row ∈ screen.cells, ∀ i, Styled (cellAt row i).style

section Drawn

variable {seg : Segmentation} {glyphWidth : List Char → Nat} {width height : Nat}
  {a b screen next : Screen} {row : Row} {rest : List Char}

theorem cellAt_blank {i : Nat} : cellAt (List.replicate width .blank) i = .blank := by
  rw [cellAt, List.getD_eq_getElem?_getD, List.getElem?_replicate]
  split <;> rfl

theorem drawn_blank : Drawn width height (emptyScreen width height rest) := by
  refine ⟨sized_blank, .nil, ?_⟩
  intro row hrow i
  rw [(List.mem_replicate.mp hrow).2, cellAt_blank]
  exact .nil

/-- What a turn makes of the rows. -/
theorem draw_row (h : draw seg glyphWidth width screen = some next) (hrow : row ∈ next.cells) :
    row ∈ screen.cells ∨ ∃ old ∈ screen.cells,
      row = List.replicate old.length .blank ∨
      (∃ column mark, row = joinText old column mark) ∨
      ∃ glyph, glyphWidth glyph ≠ 0 ∧ screen.x + glyphWidth glyph ≤ width ∧
        row = putGlyph width old screen.x (glyphWidth glyph) glyph screen.style := by
  rcases draw_cases h with hcells | hcells | ⟨glyph, old, -, hold, hcells⟩
  · rw [hcells] at hrow
    exact .inl hrow
  · rw [hcells] at hrow
    obtain ⟨old, hold, rfl⟩ := List.mem_map.mp hrow
    exact .inr ⟨old, hold, .inl blanked_eq⟩
  · have hmem := List.mem_of_getElem? hold
    rcases hcells with ⟨-, column, -, hcells⟩ | ⟨hzero, hfit, hcells⟩
    · rw [hcells] at hrow
      rcases List.mem_or_eq_of_mem_set hrow with hrow | rfl
      · exact .inl hrow
      · exact .inr ⟨old, hmem, .inr (.inl ⟨column, glyph, rfl⟩)⟩
    · rw [hcells] at hrow
      rcases List.mem_or_eq_of_mem_set hrow with hrow | rfl
      · exact .inl hrow
      · exact .inr ⟨old, hmem, .inr (.inr ⟨glyph, hzero, hfit, rfl⟩)⟩

theorem Sized.draw (h : Sized width height screen.cells)
    (hdraw : draw seg glyphWidth width screen = some next) : Sized width height next.cells := by
  refine ⟨(draw_length hdraw).trans h.height, ?_⟩
  intro row hrow
  rcases draw_row hdraw hrow with hrow | ⟨old, hold, rfl | ⟨column, mark, rfl⟩ | ⟨glyph, -, -, rfl⟩⟩
  · exact h.width row hrow
  · rw [List.length_replicate, h.width old hold]
  · rw [joinText, List.length_set, h.width old hold]
  · rw [putGlyph_length, h.width old hold]

/-- One turn of the loop. -/
theorem Drawn.draw (h : Drawn width height screen)
    (hdraw : draw seg glyphWidth width screen = some next) : Drawn width height next := by
  refine ⟨h.sized.draw hdraw, draw_styled hdraw h.style, ?_⟩
  intro row hrow i
  rcases draw_row hdraw hrow with
    hrow | ⟨old, hold, rfl | ⟨column, mark, rfl⟩ | ⟨glyph, hzero, hfit, rfl⟩⟩
  · exact h.cells row hrow i
  · rw [cellAt_blank]
    exact .nil
  · rw [joinText, cellAt_set]
    split
    · exact h.cells old hold column
    · exact h.cells old hold i
  · rw [cellAt_putGlyph (h.sized.width old hold) (by omega) hfit]
    repeat' split
    · exact h.style
    · exact .nil
    · exact .nil
    · exact .nil
    · exact h.cells old hold i

theorem Draws.drawn (h : Draws seg glyphWidth width a b) (ha : Drawn width height a) :
    Drawn width height b := by
  induction h with
  | refl => exact ha
  | tail _ hdraw ih => exact ih.draw hdraw

theorem Draws.sized (h : Draws seg glyphWidth width a b) (ha : Sized width height a.cells) :
    Sized width height b.cells := by
  induction h with
  | refl => exact ha
  | tail _ hdraw ih => exact ih.draw hdraw

end Drawn

/-! ### Reading a row back -/

/-- The text that is written for a cell. -/
def Cell.written (cell : Cell) : List Char := if cell.text.isEmpty then [' '] else cell.text

/-- What a cell shows: a blank cell is a space. -/
def Cell.shown (cell : Cell) : Cell :=
  if cell.continuation then ⟨[], [], true⟩ else { cell with text := cell.written }

def shown (cells : List Row) : List Row := cells.map fun row => row.map Cell.shown

/-- A control character stands between the graphemes of what is before it and after it. -/
def BreaksAtEscape (seg : Segmentation) : Prop :=
  ∀ text rest, seg.graphemes (text ++ '\x1b' :: rest) =
    seg.graphemes text ++ seg.graphemes ('\x1b' :: rest)

section Legible

variable (seg : Segmentation) (glyphWidth : List Char → Nat)

/-- A text is drawn as these graphemes, one after the other. -/
def ReadAs : List (List Char) → List Char → Prop
  | [], _ => True
  | glyph :: glyphs, rest =>
      nextGlyph seg (emptyScreen 0 0 ((glyph :: glyphs).flatten ++ rest)) = some glyph ∧
      ReadAs glyphs rest

/-- What is written of each cell is drawn as a glyph as wide as the cell, and marks. -/
inductive Legible : Row → Prop where
  | nil : Legible []
  | cons (cell : Cell) (glyph : List Char) (marks : List (List Char)) (row : Row)
      (lead : cell.continuation = false) (written : (glyph :: marks).flatten = cell.written)
      (span : 1 ≤ glyphWidth glyph) (marked : ∀ mark ∈ marks, glyphWidth mark = 0)
      (read : ReadAs seg (glyph :: marks) (emitCells cell.style row ++ resetStyle))
      (rest : Legible row) :
      Legible (cell :: (List.replicate (glyphWidth glyph - 1) ⟨[], [], true⟩ ++ row))

end Legible

section Reading

variable {seg : Segmentation} {glyphWidth : List Char → Nat} {width : Nat}
  {a b screen next : Screen} {row : Row} {rest glyph : List Char}

/-- A grapheme that is drawn begins with no control character. -/
theorem nextGlyph_cases (h : nextGlyph seg screen = some glyph) :
    ∃ ch text, screen.input = ch :: text ∧ isControl ch = false ∧
      (seg.graphemes screen.input).head? = some glyph := by
  rw [nextGlyph] at h
  split at h
  · cases h
  · cases h
  · next ch text _ hinput =>
      split at h
      · cases h
      · next hplain =>
          simp only [Bool.or_eq_true, not_or, Bool.not_eq_true] at hplain
          exact ⟨ch, text, hinput, hplain.2, h⟩

theorem ne_of_plain {ch : Char} (hplain : isControl ch = false) :
    ch ≠ '\x1b' ∧ ch ≠ '\r' ∧ ch ≠ '\n' := by
  refine ⟨?_, ?_, ?_⟩
  all_goals
    rintro rfl
    cases hplain

theorem draw_plain {ch : Char} {text : List Char} (hinput : screen.input = ch :: text)
    (hplain : isControl ch = false) :
    draw seg glyphWidth width screen = drawGlyph seg glyphWidth width screen := by
  obtain ⟨hescape, hreturn, hnewline⟩ := ne_of_plain hplain
  rw [draw, hinput]
  split
  · next heq => cases heq
  · next heq =>
      cases heq
      exact absurd rfl hescape
  · next heq =>
      cases heq
      rw [if_neg hreturn, if_neg hnewline, if_neg (by simp [hplain])]

theorem nextGlyph_plain {ch : Char} {text : List Char} (hinput : screen.input = ch :: text)
    (hplain : isControl ch = false) :
    nextGlyph seg screen = (seg.graphemes screen.input).head? := by
  obtain ⟨hescape, hreturn, hnewline⟩ := ne_of_plain hplain
  rw [nextGlyph, hinput]
  split
  · next heq => cases heq
  · next heq =>
      cases heq
      exact absurd rfl hescape
  · next heq =>
      cases heq
      rw [if_neg (by simp [hreturn, hnewline, hplain])]

theorem nextGlyph_congr (h : a.input = b.input) : nextGlyph seg a = nextGlyph seg b := by
  rw [nextGlyph, nextGlyph, h]

theorem draw_glyph (h : nextGlyph seg screen = some glyph) :
    draw seg glyphWidth width screen = drawGlyph seg glyphWidth width screen := by
  obtain ⟨ch, text, hinput, hplain, -⟩ := nextGlyph_cases h
  exact draw_plain hinput hplain

theorem graphemes_ne_nil {text : List Char} (h : text ≠ []) : seg.graphemes text ≠ [] := by
  intro hnil
  have hflatten := seg.flatten text
  rw [hnil] at hflatten
  exact h hflatten.symm

/-- The first grapheme of a text does not depend on what follows the next command. -/
theorem head_graphemes (hbreak : BreaksAtEscape seg) {text : List Char} (h : text ≠ []) :
    (seg.graphemes (text ++ '\x1b' :: rest)).head? = (seg.graphemes text).head? := by
  have hne : seg.graphemes text ≠ [] := graphemes_ne_nil h
  obtain ⟨first, more, hcons⟩ := List.exists_cons_of_ne_nil hne
  rw [hbreak, hcons, List.cons_append, List.head?_cons, List.head?_cons]

theorem nextGlyph_rest (hbreak : BreaksAtEscape seg) {text rest' : List Char} (htext : text ≠ [])
    (ha : a.input = text ++ '\x1b' :: rest) (hb : b.input = text ++ '\x1b' :: rest')
    (h : nextGlyph seg a = some glyph) : nextGlyph seg b = some glyph := by
  obtain ⟨ch, more, hinput, hplain, hhead⟩ := nextGlyph_cases h
  rw [ha, head_graphemes hbreak htext] at hhead
  cases text with
  | nil => exact absurd rfl htext
  | cons first text =>
      rw [ha] at hinput
      cases hinput
      rw [nextGlyph_plain hb hplain, hb, head_graphemes hbreak htext]
      exact hhead

theorem ReadAs.before (hbreak : BreaksAtEscape seg) {glyphs : List (List Char)}
    {text rest' : List Char} (h : ReadAs seg glyphs (text ++ '\x1b' :: rest)) :
    ReadAs seg glyphs (text ++ '\x1b' :: rest') := by
  induction glyphs with
  | nil => trivial
  | cons glyph glyphs ih =>
      refine ⟨?_, ih h.2⟩
      have hfirst := h.1
      have hne : (glyph :: glyphs).flatten ++ text ≠ [] := by
        have hglyph := nextGlyph_ne_nil hfirst
        simp [hglyph]
      exact nextGlyph_rest hbreak hne (List.append_assoc _ _ _).symm (List.append_assoc _ _ _).symm
        hfirst

/-- The glyph before the cursor, behind which there are only its continuation cells. -/
theorem leadBefore_eq {x p : Nat} (hx : x ≤ width) (hp : p < x)
    (hlead : (cellAt row p).continuation = false)
    (hcont : ∀ j, p < j → j < x → (cellAt row j).continuation = true) :
    leadBefore width row x = some p := by
  have hfind : ∀ n, p < n → n ≤ x →
      ((List.range n).reverse.find? fun column => !(cellAt row column).continuation) = some p := by
    intro n
    induction n with
    | zero => exact fun h => absurd h (Nat.not_lt_zero p)
    | succ n ih =>
        intro hpn hnx
        rw [List.range_succ, List.reverse_append, List.reverse_singleton, List.singleton_append]
        by_cases hn : p = n
        · rw [List.find?_cons_of_pos (by simp [← hn, hlead]), hn]
        · rw [List.find?_cons_of_neg (by simp [hcont n (by omega) (by omega)])]
          exact ih (by omega) (by omega)
  rw [leadBefore, Nat.min_eq_left hx]
  exact hfind x hp (le_refl x)

theorem cellAt_joinText {p i : Nat} {mark : List Char} (hp : p < row.length) :
    cellAt (joinText row p mark) i =
      if p = i then { cellAt row p with text := (cellAt row p).text ++ mark }
      else cellAt row i := by
  rw [joinText, cellAt_set]
  by_cases hi : p = i
  · rw [if_pos ⟨hi, hp⟩, if_pos hi]
  · rw [if_neg (fun h => hi h.1), if_neg hi]

theorem joinText_continuation {p i : Nat} {mark : List Char} (hp : p < row.length) :
    (cellAt (joinText row p mark) i).continuation = (cellAt row i).continuation := by
  rw [cellAt_joinText hp]
  split
  · next hi => rw [← hi]
  · rfl

theorem joinText_nil {p : Nat} (hp : p < row.length) : joinText row p [] = row := by
  rw [joinText, List.append_nil, cellAt_of_lt hp, List.set_getElem_self]

theorem joinText_append {p : Nat} {mark more : List Char} (hp : p < row.length) :
    joinText (joinText row p mark) p more = joinText row p (mark ++ more) := by
  have hcell : cellAt (joinText row p mark) p =
      { cellAt row p with text := (cellAt row p).text ++ mark } := by
    rw [cellAt_joinText hp, if_pos rfl]
  rw [joinText, hcell, joinText, joinText, List.set_set, List.append_assoc]

theorem set_same {cells : List Row} {y : Nat} (h : cells[y]? = some row) :
    cells.set y row = cells := by
  obtain ⟨hlt, rfl⟩ := List.getElem?_eq_some_iff.mp h
  exact List.set_getElem_self hlt

/-- Marks join the glyph before the cursor. -/
theorem draws_marks {marks : List (List Char)} {p : Nat}
    (hmarks : ∀ mark ∈ marks, glyphWidth mark = 0) (hread : ReadAs seg marks rest)
    (hrow : screen.cells[screen.y]? = some row) (hx : screen.x ≤ width) (hp : p < screen.x)
    (hfit : p < row.length) (hlead : (cellAt row p).continuation = false)
    (hcont : ∀ j, p < j → j < screen.x → (cellAt row j).continuation = true)
    (hinput : screen.input = marks.flatten ++ rest) :
    Draws seg glyphWidth width screen
      { screen with
        cells := screen.cells.set screen.y (joinText row p marks.flatten), input := rest } := by
  induction marks generalizing screen row with
  | nil =>
      obtain ⟨cells, x, y, style, input⟩ := screen
      cases hinput
      rw [List.flatten_nil, joinText_nil hfit, set_same hrow]
      exact .refl
  | cons mark marks ih =>
      rw [List.flatten_cons, List.append_assoc] at hinput
      have hnext : nextGlyph seg screen = some mark := by
        rw [← hread.1]
        apply nextGlyph_congr
        rw [hinput, List.flatten_cons, List.append_assoc]
        rfl
      obtain ⟨_, _, _, _, hhead⟩ := nextGlyph_cases hnext
      have hdraw : draw seg glyphWidth width screen = some { screen with
          cells := screen.cells.set screen.y (joinText row p mark),
          input := marks.flatten ++ rest } := by
        rw [draw_glyph hnext, drawGlyph, hhead]
        simp only [Option.bind_eq_bind, Option.bind_some, hrow]
        rw [if_pos (hmarks mark List.mem_cons_self), leadBefore_eq hx hp hlead hcont, hinput,
          List.drop_left]
        rfl
      refine (Draws.one hdraw).trans ?_
      have hlt := (List.getElem?_eq_some_iff.mp hrow).1
      have hdraws := @ih { screen with
          cells := screen.cells.set screen.y (joinText row p mark),
          input := marks.flatten ++ rest } (joinText row p mark)
        (fun other hother => hmarks other (List.mem_cons_of_mem _ hother)) hread.2
        (by simp [hlt]) hx hp (by rw [joinText, List.length_set]; exact hfit)
        (by rw [joinText_continuation hfit]; exact hlead)
        (by
          intro j hj hjx
          rw [joinText_continuation hfit]
          exact hcont j hj hjx) rfl
      rw [joinText_append hfit, List.set_set] at hdraws
      exact hdraws

/-- A glyph is drawn at the cursor. -/
theorem draw_put (hnext : nextGlyph seg screen = some glyph) (hspan : 1 ≤ glyphWidth glyph)
    (hrow : screen.cells[screen.y]? = some row) (hfit : screen.x + glyphWidth glyph ≤ width)
    (hinput : screen.input = glyph ++ rest) :
    draw seg glyphWidth width screen = some { screen with
      cells := screen.cells.set screen.y
        (putGlyph width row screen.x (glyphWidth glyph) glyph screen.style),
      x := screen.x + glyphWidth glyph, input := rest } := by
  obtain ⟨_, _, _, _, hhead⟩ := nextGlyph_cases hnext
  rw [draw_glyph hnext, drawGlyph, hhead]
  simp only [Option.bind_eq_bind, Option.bind_some, hrow]
  rw [if_neg (by omega), if_neg (by omega), hinput, List.drop_left]

/-! ### Painting over a row -/

theorem emitCells_skip (prior : List Char) (n : Nat) (row : Row) :
    emitCells prior (List.replicate n ⟨[], [], true⟩ ++ row) = emitCells prior row := by
  induction n with
  | zero => rfl
  | succ n ih =>
      rw [List.replicate_succ, List.cons_append, emitCells, if_pos rfl, ih]

theorem cellAt_append {done : Row} {i : Nat} : cellAt (done ++ row) i =
    if i < done.length then cellAt done i else cellAt row (i - done.length) := by
  rw [cellAt, List.getD_eq_getElem?_getD, List.getElem?_append]
  split
  · rw [cellAt, List.getD_eq_getElem?_getD]
  · rw [cellAt, List.getD_eq_getElem?_getD]

theorem row_ext {other : Row} (hlength : row.length = other.length)
    (h : ∀ i < row.length, cellAt row i = cellAt other i) : row = other := by
  refine List.ext_getElem hlength ?_
  intro i hi hi'
  rw [← cellAt_of_lt hi, ← cellAt_of_lt hi']
  exact h i hi

/-- The style of a cell is set where it is another than the one before. -/
theorem draws_restyle {style : List Char} (hstyle : Styled style)
    (hinput : screen.input =
      (if style = screen.style then [] else "\x1b[0m".toList ++ style) ++ rest) :
    Draws seg glyphWidth width screen { screen with style, input := rest } := by
  by_cases hsame : style = screen.style
  · rw [if_pos hsame] at hinput
    obtain ⟨cells, x, y, prior, input⟩ := screen
    cases hinput
    cases hsame
    exact .refl
  · rw [if_neg hsame, List.append_assoc] at hinput
    exact (Draws.one (draw_resetStyle hinput)).trans (draws_style hstyle rfl rfl)

/-- A cell with its marks and its continuation cells, drawn at the cursor. -/
theorem draws_cell {cell : Cell} {marks : List (List Char)} {cur : Row}
    (hlead : cell.continuation = false) (hwritten : (glyph :: marks).flatten = cell.written)
    (hspan : 1 ≤ glyphWidth glyph) (hmarks : ∀ mark ∈ marks, glyphWidth mark = 0)
    (hread : ReadAs seg (glyph :: marks) rest) (hcur : screen.cells[screen.y]? = some cur)
    (hwidth : cur.length = width) (hfit : screen.x + glyphWidth glyph ≤ width)
    (hbefore : screen.x = 0 ∨ (cellAt cur screen.x).continuation = false)
    (hstyle : screen.style = cell.style) (hinput : screen.input = cell.written ++ rest) :
    ∃ after : Row, after.length = width ∧
      (∀ i < screen.x, cellAt after i = cellAt cur i) ∧
      cellAt after screen.x = cell.shown ∧
      (∀ i, screen.x < i → i < screen.x + glyphWidth glyph → cellAt after i = ⟨[], [], true⟩) ∧
      (cellAt after (screen.x + glyphWidth glyph)).continuation = false ∧
      Draws seg glyphWidth width screen { screen with
        cells := screen.cells.set screen.y after,
        x := screen.x + glyphWidth glyph, input := rest } := by
  have hnext : nextGlyph seg screen = some glyph := by
    rw [← hread.1]
    apply nextGlyph_congr
    rw [hinput, ← hwritten]
    rfl
  have hsplit : screen.input = glyph ++ (marks.flatten ++ rest) := by
    rw [hinput, ← hwritten, List.flatten_cons, List.append_assoc]
  have hdraw : draw seg glyphWidth width screen = _ := draw_put hnext hspan hcur hfit hsplit
  obtain ⟨put, hput⟩ : ∃ put, put = putGlyph width cur screen.x (glyphWidth glyph) glyph
    screen.style := ⟨_, rfl⟩
  have hlength : put.length = width := by rw [hput, putGlyph_length, hwidth]
  have hfirst : cellAt put screen.x = ⟨glyph, screen.style, false⟩ := by
    rw [hput, cellAt_putGlyph hwidth hspan hfit, if_pos rfl]
  have hcont : ∀ i, screen.x < i → i < screen.x + glyphWidth glyph →
      cellAt put i = ⟨[], [], true⟩ := by
    intro i hi hi'
    rw [hput, cellAt_putGlyph hwidth hspan hfit, if_neg (by omega), if_pos ⟨hi, hi'⟩]
  have hdone : ∀ i < screen.x, cellAt put i = cellAt cur i := by
    intro i hi
    have hhalf : ¬(i + 1 = screen.x ∧ (cellAt cur screen.x).continuation = true) := by
      rintro ⟨hi, hc⟩
      rcases hbefore with hzero | hno
      · omega
      · rw [hno] at hc
        cases hc
    have hbehind : ¬(i = screen.x + glyphWidth glyph ∧ (cellAt cur i).continuation = true) := by
      omega
    rw [hput, cellAt_putGlyph hwidth hspan hfit, if_neg (by omega), if_neg (by omega),
      if_neg hhalf, if_neg hbehind]
  have hafter : (cellAt put (screen.x + glyphWidth glyph)).continuation = false := by
    have heffect : Put cur put screen.x (glyphWidth glyph) glyph screen.style :=
      hput ▸ put_putGlyph hwidth hspan hfit
    rw [heffect.behind]
    split
    · rfl
    · next hc => simpa using hc
  have hx : screen.x < put.length := by omega
  refine ⟨joinText put screen.x marks.flatten, by rw [joinText, List.length_set, hlength],
    ?_, ?_, ?_, ?_, ?_⟩
  · intro i hi
    rw [cellAt_joinText hx, if_neg (by omega), hdone i hi]
  · rw [cellAt_joinText hx, if_pos rfl, hfirst, Cell.shown, if_neg (by simp [hlead]), ← hwritten,
      List.flatten_cons, hstyle, hlead]
  · intro i hi hi'
    rw [cellAt_joinText hx, if_neg (by omega), hcont i hi hi']
  · rw [joinText_continuation hx, hafter]
  · rw [← hput] at hdraw
    have hlt := (List.getElem?_eq_some_iff.mp hcur).1
    refine (Draws.one hdraw).trans ?_
    have hmarked := @draws_marks seg glyphWidth width { screen with
        cells := screen.cells.set screen.y put, x := screen.x + glyphWidth glyph,
        input := marks.flatten ++ rest } put rest marks screen.x hmarks hread.2
      (by simp [hlt]) hfit (by simp only; omega) hx (by rw [hfirst])
      (by
        intro j hj hj'
        rw [hcont j hj hj']) rfl
    rw [List.set_set] at hmarked
    exact hmarked

theorem cellAt_succ {cell : Cell} {i : Nat} : cellAt (cell :: row) (i + 1) = cellAt row i := rfl

/-- The cells that are done, and one more. -/
theorem cellAt_next {done cur after : Row} {x span : Nat} {cell : Cell} (hx : x = done.length)
    (hdone : ∀ i < done.length, cellAt cur i = cellAt done i)
    (hkept : ∀ i < x, cellAt after i = cellAt cur i) (hcell : cellAt after x = cell)
    (hcont : ∀ i, x < i → i < x + span → cellAt after i = ⟨[], [], true⟩) {i : Nat}
    (hi : i < done.length + (span - 1 + 1)) :
    cellAt after i = cellAt (done ++ cell :: List.replicate (span - 1) ⟨[], [], true⟩) i := by
  rw [cellAt_append]
  rcases Nat.lt_trichotomy i done.length with hlt | heq | hgt
  · rw [if_pos hlt, hkept i (by omega), hdone i hlt]
  · rw [if_neg (by omega), heq, ← hx, hcell, Nat.sub_self]
    rfl
  · rw [if_neg (by omega), hcont i (by omega) (by omega),
      show i - done.length = i - done.length - 1 + 1 by omega, cellAt_succ,
      cellAt_of_lt (by rw [List.length_replicate]; omega), List.getElem_replicate]

/-- A row that is read back paints over what is there. -/
theorem draws_cells (hbreak : BreaksAtEscape seg) (hrow : Legible seg glyphWidth row)
    {done cur : Row} (hstyles : ∀ i, Styled (cellAt row i).style)
    (hcur : screen.cells[screen.y]? = some cur) (hwidth : cur.length = width)
    (hx : screen.x = done.length) (htotal : done.length + row.length = width)
    (hdone : ∀ i < done.length, cellAt cur i = cellAt done i)
    (hbefore : screen.x = 0 ∨ (cellAt cur screen.x).continuation = false)
    (hinput : screen.input = emitCells screen.style row ++ '\x1b' :: rest) :
    ∃ style, Draws seg glyphWidth width screen
      ⟨screen.cells.set screen.y (done ++ row.map Cell.shown), width, screen.y, style,
        '\x1b' :: rest⟩ := by
  induction hrow generalizing screen done cur with
  | nil =>
      have hsame : done = cur := by
        refine row_ext (by simp at htotal; omega) ?_
        intro i hi
        exact (hdone i hi).symm
      have hend : screen.x = width := by
        simp at htotal
        omega
      rw [List.map_nil, List.append_nil, hsame, set_same hcur]
      obtain ⟨cells, x, y, style, input⟩ := screen
      cases hinput
      cases hend
      exact ⟨style, .refl⟩
  | cons cell glyph marks row hlead hwritten hspan hmarks hread hrow ih =>
      rw [emitCells, if_neg (by simp [hlead]), emitCells_skip, List.append_assoc,
        List.append_assoc] at hinput
      have hstyle : Styled cell.style := hstyles 0
      rw [List.length_cons, List.length_append, List.length_replicate] at htotal
      have hread' : ReadAs seg (glyph :: marks) (emitCells cell.style row ++ '\x1b' :: rest) :=
        hread.before hbreak
      -- the style, the cell, and then the cells behind it
      have hrestyled : Draws seg glyphWidth width screen { screen with
          style := cell.style
          input := cell.written ++ (emitCells cell.style row ++ '\x1b' :: rest) } :=
        draws_restyle hstyle hinput
      obtain ⟨after, hlength, hkept, hshown, hcont, hnext, hdraws⟩ :=
        @draws_cell seg glyphWidth width { screen with
            style := cell.style
            input := cell.written ++ (emitCells cell.style row ++ '\x1b' :: rest) }
          _ glyph cell marks cur hlead hwritten hspan hmarks hread' hcur hwidth
          (by simp only; omega) hbefore rfl rfl
      have hlt := (List.getElem?_eq_some_iff.mp hcur).1
      obtain ⟨style, hrest⟩ := @ih { screen with
            cells := screen.cells.set screen.y after, x := screen.x + glyphWidth glyph,
            style := cell.style, input := emitCells cell.style row ++ '\x1b' :: rest }
          (done ++ cell.shown :: List.replicate (glyphWidth glyph - 1) ⟨[], [], true⟩) after
          (by
            intro i
            have hcell := hstyles (i + glyphWidth glyph)
            rw [show i + glyphWidth glyph = i + (glyphWidth glyph - 1) + 1 by omega,
              cellAt_succ, cellAt_append, List.length_replicate, if_neg (by omega)] at hcell
            simpa using hcell)
          (by simp [hlt]) hlength (by simp; omega) (by simp; omega)
          (by
            intro i hi
            exact cellAt_next hx hdone hkept hshown hcont (by simpa using hi))
          (.inr hnext) rfl
      refine ⟨style, hrestyled.trans (hdraws.trans ?_)⟩
      rw [List.set_set] at hrest
      have htarget : done ++ (cell :: (List.replicate (glyphWidth glyph - 1) ⟨[], [], true⟩ ++
            row)).map Cell.shown =
          (done ++ cell.shown :: List.replicate (glyphWidth glyph - 1) ⟨[], [], true⟩) ++
            row.map Cell.shown := by
        rw [List.map_cons, List.map_append, List.map_replicate, List.append_assoc,
          List.cons_append]
        rfl
      rw [htarget]
      exact hrest

/-- A row that is written out paints over any row of its width. -/
theorem draws_row (hbreak : BreaksAtEscape seg) (hrow : Legible seg glyphWidth row) {cur : Row}
    (hstyles : ∀ i, Styled (cellAt row i).style) (hlength : row.length = width)
    (hcur : screen.cells[screen.y]? = some cur) (hwidth : cur.length = width)
    (hx : screen.x = 0) (hinput : screen.input = emitRow row ++ rest) :
    Draws seg glyphWidth width screen
      ⟨screen.cells.set screen.y (row.map Cell.shown), width, screen.y, [], rest⟩ := by
  rw [emitRow, List.append_assoc, List.append_assoc] at hinput
  refine (Draws.one (draw_resetStyle hinput)).trans ?_
  obtain ⟨style, hdraws⟩ := @draws_cells seg glyphWidth width { screen with
      style := [], input := emitCells [] row ++ ("\x1b[0m".toList ++ rest) }
    row ('[' :: '0' :: 'm' :: rest) hbreak hrow [] cur hstyles hcur hwidth hx
    (by simpa using hlength) (fun i hi => absurd hi (Nat.not_lt_zero i)) (.inl hx) rfl
  exact hdraws.trans (Draws.one (draw_resetStyle rfl))

end Reading

/-! ### What follows -/

section Follows

variable {seg : Segmentation} {glyphWidth : List Char → Nat} {width : Nat}
  {a b screen next : Screen} {row : Row} {rest text : List Char}

theorem splitCommand_append {csi args input : List Char} {final : Char}
    (h : splitCommand csi = some (args, final, input)) :
    splitCommand (csi ++ rest) = some (args, final, input ++ rest) := by
  rw [splitCommand, List.span_eq_takeWhile_dropWhile] at h
  split at h
  · cases h
  · next heq =>
      cases h
      obtain ⟨hargs, hrest⟩ := Prod.mk.inj heq
      have hcsi := @List.takeWhile_append_dropWhile _ (fun ch => !('@' ≤ ch && ch ≤ '~')) csi
      have hnot : (args.all fun ch => !('@' ≤ ch && ch ≤ '~')) = true := by
        rw [← hargs]
        exact List.all_takeWhile
      have hfinal : ('@' ≤ final && final ≤ '~') = true := by
        have hhead := List.head?_dropWhile_not (fun ch => !('@' ≤ ch && ch ≤ '~')) csi
        rw [hrest] at hhead
        simpa only [List.head?_cons, Bool.not_eq_false'] using hhead
      rw [← hcsi, hargs, hrest, List.append_assoc, List.cons_append]
      exact splitCommand_csi hnot hfinal

theorem moveTo_input {args : List Char} : moveTo { screen with input := text } args =
    (moveTo screen args).map fun next => { next with input := text } := by
  rw [moveTo, moveTo]
  split
  · rfl
  · next row ch column _ =>
      cases parsePosition row with
      | none => rfl
      | some y =>
          cases parsePosition column with
          | none => rfl
          | some x => rfl

theorem restyle_input {args : List Char} : restyle { screen with input := text } args =
    (restyle screen args).map fun next => { next with input := text } := by
  rw [restyle, restyle]
  split
  · rfl
  · simp only
    split <;> rfl

theorem command_append {csi : List Char} (h : command screen csi = some next) :
    command { screen with input := text } (csi ++ rest) =
      some { next with input := next.input ++ rest } := by
  rw [command] at h ⊢
  obtain ⟨⟨args, final, input⟩, hsplit, h⟩ := Option.bind_eq_some_iff.mp h
  rw [splitCommand_append hsplit]
  simp only [Option.bind_eq_bind, Option.bind_some] at h ⊢
  split_ifs at h ⊢ with hmove hclear hstyle hsync
  · rw [moveTo_input, Option.map_eq_some_iff] at h ⊢
    obtain ⟨moved, hmoved, rfl⟩ := h
    exact ⟨moved, hmoved, rfl⟩
  · cases h
    rfl
  · rw [restyle_input, Option.map_eq_some_iff] at h ⊢
    obtain ⟨styled, hstyled, rfl⟩ := h
    exact ⟨styled, hstyled, rfl⟩
  · cases h
    rfl

theorem input_of_head {glyph : List Char} (h : (seg.graphemes text).head? = some glyph) :
    ∃ more, text = glyph ++ more := by
  obtain ⟨others, hothers⟩ := List.head?_eq_some_iff.mp h
  refine ⟨others.flatten, ?_⟩
  rw [← List.flatten_cons, ← hothers, seg.flatten]

theorem drawGlyph_append (hbreak : BreaksAtEscape seg)
    (h : drawGlyph seg glyphWidth width screen = some next) :
    drawGlyph seg glyphWidth width { screen with input := screen.input ++ '\x1b' :: rest } =
      some { next with input := next.input ++ '\x1b' :: rest } := by
  rw [drawGlyph] at h ⊢
  obtain ⟨glyph, hglyph, h⟩ := Option.bind_eq_some_iff.mp h
  obtain ⟨more, hmore⟩ := input_of_head hglyph
  have hne : screen.input ≠ [] := by
    intro hnil
    rw [hnil] at hmore
    have hempty : glyph = [] := (List.append_eq_nil_iff.mp hmore.symm).1
    rw [hempty] at hglyph
    exact seg.ne_nil _ (List.mem_of_mem_head? hglyph)
  have hprefix : glyph.length ≤ screen.input.length := by
    rw [hmore, List.length_append]
    exact Nat.le_add_right _ _
  obtain ⟨row, hrow, h⟩ := Option.bind_eq_some_iff.mp h
  rw [head_graphemes hbreak hne, hglyph]
  simp only [Option.bind_eq_bind, Option.bind_some, hrow, List.drop_append_of_le_length hprefix]
  split_ifs at h ⊢ with hzero hwide
  · obtain ⟨column, hcolumn, h⟩ := Option.bind_eq_some_iff.mp h
    cases h
    rw [hcolumn]
    rfl
  · cases h
    rfl

theorem draw_append (hbreak : BreaksAtEscape seg)
    (h : draw seg glyphWidth width screen = some next) :
    draw seg glyphWidth width { screen with input := screen.input ++ '\x1b' :: rest } =
      some { next with input := next.input ++ '\x1b' :: rest } := by
  obtain ⟨cells, x, y, style, input⟩ := screen
  rw [draw] at h
  split at h
  · cases h
  · next csi hinput =>
      cases hinput
      exact command_append h
  · next ch more hno hinput =>
      cases hinput
      split at h
      · next hreturn =>
          cases h
          subst hreturn
          rfl
      · split at h
        · next hnewline =>
            cases h
            subst hnewline
            rfl
        · split at h
          · cases h
          · next hplain =>
              have hplain : isControl ch = false := by simpa using hplain
              rw [draw_plain (List.cons_append) hplain]
              exact drawGlyph_append hbreak h

/-- A text draws the same before a command. -/
theorem Draws.append (hbreak : BreaksAtEscape seg) (h : Draws seg glyphWidth width a b) :
    Draws seg glyphWidth width { a with input := a.input ++ '\x1b' :: rest }
      { b with input := b.input ++ '\x1b' :: rest } := by
  induction h with
  | refl => exact .refl
  | tail _ hdraw ih => exact ih.trans (Draws.one (draw_append hbreak hdraw))

end Follows

end Pikamux.Terminal

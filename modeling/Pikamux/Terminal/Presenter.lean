import Mathlib
import Pikamux.Terminal.Repaint

/-!
# Terminal — Presenter

`present` remembers the frame that it wrote last and the rows of it, and writes only the rows that
the next frame changes.  A write that fails forgets the frame, and so does another size.

* `draws_patch` — the rows that are written, over the rows that are there, show the next frame.
* `Faithful` — the terminal shows the frame that the presenter remembers; `Faithful.present`
  keeps it at every frame whose changed rows are read back as they were drawn.
* `presented_as_painted` — so the terminal shows what the last frame paints by itself.
* `mark_left_behind` — a mark on a blank cell is not read back where it was drawn.
-/

namespace Pikamux.Terminal

open Support

abbrev Size := UInt16 × UInt16

structure FramePresenter where
  previous : ByteArray
  scratch : ByteArray
  dimensions : Option Size
  rows : Option (List ByteArray)

/-- `FramePresenter::default()` -/
def FramePresenter.default : FramePresenter := ⟨.empty, .empty, none, none⟩

/-- The presenter, what `present` returns, and what it wrote. -/
structure Presented (ε : Type) where
  presenter : FramePresenter
  result : Except ε Bool
  written : Option ByteArray

/-- The bytes of a text. -/
def bytesOf (text : List Char) : ByteArray := (String.ofList text).toUTF8

section Present

variable {ε : Type} (seg : Segmentation) (glyphWidth : List Char → Nat)

/-- The rows from `y` on that are not as they were. -/
def patchRows : Nat → List ByteArray → List ByteArray → ByteArray
  | y, old :: previous, new :: next =>
      (if old = new then .empty else bytesOf (moveToRow y) ++ new) ++
        patchRows (y + 1) previous next
  | _, _, _ => .empty

def patch (previous next : List ByteArray) : ByteArray :=
  bytesOf beginUpdate ++ patchRows 0 previous next ++ bytesOf endUpdate

/-- A frame in one synchronized update. -/
def composed (frame : ByteArray) : ByteArray := bytesOf beginUpdate ++ frame ++ bytesOf endUpdate

/-- A patch, if both frames have rows, and otherwise the whole frame. -/
def update (presenter : FramePresenter) (dimensions : Size) (scratch : ByteArray)
    (next : Option (List ByteArray)) : ByteArray :=
  if presenter.dimensions = some dimensions then
    match presenter.rows, next with
    | some previous, some next => patch previous next
    | _, _ => scratch
  else scratch

/-- A frame that is not as the one before. -/
def presentRows (presenter : FramePresenter) (write : ByteArray → Except ε Unit) (dimensions : Size)
    (scratch : ByteArray) (next : Option (List ByteArray)) : Presented ε :=
  if presenter.dimensions = some dimensions ∧ next.isSome ∧ presenter.rows = next then
    ⟨{ presenter with previous := scratch, scratch := presenter.previous }, .ok false, none⟩
  else
    match write (update presenter dimensions scratch next) with
    | .error error =>
        -- a partial write must not strand the terminal inside a frozen frame
        ⟨{ presenter with scratch, dimensions := none }, .error error,
          some (update presenter dimensions scratch next)⟩
    | .ok () =>
        ⟨⟨scratch, presenter.previous, some dimensions, next⟩, .ok true,
          some (update presenter dimensions scratch next)⟩

/-- `present`, for a `draw` that draws a frame and ends in some way. -/
def present (presenter : FramePresenter) (write : ByteArray → Except ε Unit) (dimensions : Size)
    (frame : ByteArray) : Except ε Unit → Presented ε
  | .error error =>
      ⟨{ presenter with scratch := bytesOf beginUpdate ++ frame }, .error error, none⟩
  | .ok () =>
      if presenter.dimensions = some dimensions ∧ presenter.previous = composed frame then
        ⟨{ presenter with scratch := composed frame }, .ok false, none⟩
      else
        presentRows presenter write dimensions (composed frame)
          (rows seg glyphWidth (composed frame) dimensions)

end Present

/-! ### Texts -/

section Texts

variable {a b : List Char}

theorem bytesOf_append : bytesOf (a ++ b) = bytesOf a ++ bytesOf b := by
  rw [bytesOf, String.ofList_append]
  rfl

theorem bytesOf_inj : bytesOf a = bytesOf b ↔ a = b := by
  rw [bytesOf, bytesOf]
  constructor
  · intro h
    exact String.ofList_injective (String.toByteArray_inj.mp h)
  · intro h
    rw [h]

theorem fromUTF8?_bytesOf : String.fromUTF8? (bytesOf a) = some (String.ofList a) :=
  fromUTF8?_toUTF8 _

end Texts

/-! ### Shown rows -/

section Shown

variable {old new row : Row} {prior : List Char}

theorem shown_cons {cells : List Row} : shown (row :: cells) = row.map Cell.shown :: shown cells :=
  rfl

theorem Cell.written_ne_nil (cell : Cell) : cell.written ≠ [] := by
  rw [Cell.written]
  split
  · exact List.cons_ne_nil _ _
  · next h => simpa using h

theorem Cell.shown_continuation {cell : Cell} (h : cell.continuation = true) :
    cell.shown = ⟨[], [], true⟩ := if_pos h

theorem Cell.shown_lead {cell : Cell} (h : ¬cell.continuation = true) :
    cell.shown = { cell with text := cell.written } := if_neg h

theorem Cell.written_written (cell : Cell) :
    ({ cell with text := cell.written } : Cell).written = cell.written := by
  have hwritten : ¬cell.written.isEmpty = true := by
    simpa using cell.written_ne_nil
  exact if_neg hwritten

theorem Cell.shown_shown (cell : Cell) : cell.shown.shown = cell.shown := by
  by_cases hcont : cell.continuation = true
  · rw [Cell.shown_continuation hcont]
    rfl
  · have hagain : ({ cell with text := cell.written } : Cell).shown =
        { cell with text := ({ cell with text := cell.written } : Cell).written } :=
      Cell.shown_lead hcont
    rw [Cell.shown_lead hcont, hagain, cell.written_written]

theorem map_shown_shown : (row.map Cell.shown).map Cell.shown = row.map Cell.shown := by
  rw [List.map_map]
  exact List.map_congr_left fun cell _ => cell.shown_shown

theorem emitCells_lead {cell : Cell} (h : ¬cell.continuation = true) :
    emitCells prior (cell :: row) =
      (if cell.style = prior then [] else "\x1b[0m".toList ++ cell.style) ++ cell.written ++
        emitCells cell.style row := if_neg h

theorem emitCells_continuation {cell : Cell} (h : cell.continuation = true) :
    emitCells prior (cell :: row) = emitCells prior row := if_pos h

/-- What is written of a row is what it shows. -/
theorem emitCells_shown : emitCells prior (row.map Cell.shown) = emitCells prior row := by
  induction row generalizing prior with
  | nil => rfl
  | cons cell row ih =>
      rw [List.map_cons]
      by_cases hcont : cell.continuation = true
      · rw [Cell.shown_continuation hcont, emitCells_continuation rfl, ih,
          emitCells_continuation hcont]
      · have hshown : emitCells prior
            (({ cell with text := cell.written } : Cell) :: row.map Cell.shown) = _ :=
          emitCells_lead hcont
        rw [Cell.shown_lead hcont, hshown, emitCells_lead hcont, cell.written_written, ih]

theorem emitRow_congr (h : old.map Cell.shown = new.map Cell.shown) :
    emitRow old = emitRow new := by
  rw [emitRow, emitRow, ← emitCells_shown, h, emitCells_shown]

end Shown

/-! ### Patches -/

section Patch

variable {seg : Segmentation} {glyphWidth : List Char → Nat} {width : Nat}
  {screen : Screen} {rest : List Char} {olds news pending done : List Row}

/-- A row that the next frame changes is written otherwise, and is read back as it was drawn. -/
def Repaints (seg : Segmentation) (glyphWidth : List Char → Nat) (old new : Row) : Prop :=
  old.map Cell.shown = new.map Cell.shown ∨
    emitRow old ≠ emitRow new ∧ Legible seg glyphWidth new

/-- The text of a patch. -/
def patchText : Nat → List Row → List Row → List Char
  | y, old :: olds, new :: news =>
      (if emitRow old = emitRow new then [] else moveToRow y ++ emitRow new) ++
        patchText (y + 1) olds news
  | _, _, _ => []

theorem patchRows_eq (y : Nat) : patchRows y (olds.map fun row => bytesOf (emitRow row))
    (news.map fun row => bytesOf (emitRow row)) = bytesOf (patchText y olds news) := by
  induction olds generalizing y news with
  | nil => rfl
  | cons old olds ih =>
      cases news with
      | nil => rfl
      | cons new news =>
          rw [List.map_cons, List.map_cons, patchRows, patchText, ih, bytesOf_append]
          by_cases hsame : emitRow old = emitRow new
          · rw [if_pos (bytesOf_inj.mpr hsame), if_pos hsame]
            rfl
          · rw [if_neg (fun h => hsame (bytesOf_inj.mp h)), if_neg hsame, bytesOf_append]

theorem patch_eq : patch (olds.map fun row => bytesOf (emitRow row))
    (news.map fun row => bytesOf (emitRow row)) =
      bytesOf (beginUpdate ++ patchText 0 olds news ++ endUpdate) := by
  rw [patch, patchRows_eq, bytesOf_append, bytesOf_append]

/-- The rows that are written go over rows that show the frame before. -/
theorem draws_patch (hbreak : BreaksAtEscape seg)
    (hrows : List.Forall₂ (Repaints seg glyphWidth) olds news)
    (hnew : ∀ row ∈ news, row.length = width ∧ ∀ i, Styled (cellAt row i).style)
    (hwidth : ∀ row ∈ pending, row.length = width) (hshown : shown pending = shown olds)
    (hcells : screen.cells = done ++ pending) (hheight : done.length + pending.length ≤ 2 ^ 16)
    (hinput : screen.input = patchText done.length olds news ++ rest) :
    ∃ (x y : Nat) (style : List Char) (after : List Row),
      Draws seg glyphWidth width screen ⟨done ++ after, x, y, style, rest⟩ ∧
      shown after = shown news := by
  induction hrows generalizing screen done pending with
  | nil =>
      have hpending : pending = [] := by simpa [shown] using hshown
      subst hpending
      obtain ⟨cells, x, y, style, input⟩ := screen
      cases hcells
      cases hinput
      exact ⟨x, y, style, [], .refl, rfl⟩
  | @cons old new olds news hrow hrows ih =>
      cases pending with
      | nil => cases hshown
      | cons cur pending =>
          rw [shown_cons, shown_cons] at hshown
          obtain ⟨hcur, hshown⟩ := List.cons.inj hshown
          obtain ⟨hlength, hstyles⟩ := hnew new List.mem_cons_self
          have hnew' := fun row hrow => hnew row (List.mem_cons_of_mem _ hrow)
          have hwidth' := fun row hrow => hwidth row (List.mem_cons_of_mem _ hrow)
          rw [List.length_cons] at hheight
          rw [patchText, List.append_assoc] at hinput
          by_cases hsame : emitRow old = emitRow new
          · -- the row stays
            rw [if_pos hsame, List.nil_append] at hinput
            have hkept : old.map Cell.shown = new.map Cell.shown :=
              hrow.resolve_right fun h => h.1 hsame
            have hdone : screen.cells = (done ++ [cur]) ++ pending := by
              rw [hcells, List.append_assoc]
              rfl
            obtain ⟨x, y, style, after, hdraws, hafter⟩ := ih hnew' hwidth' hshown hdone
              (by rw [List.length_append, List.length_singleton]; omega)
              (by rw [List.length_append, List.length_singleton]; exact hinput)
            refine ⟨x, y, style, cur :: after, ?_, ?_⟩
            · rw [List.append_assoc] at hdraws
              exact hdraws
            · rw [shown_cons, shown_cons, hcur, hkept, hafter]
          · -- the cursor goes to the row, and the row is written
            rw [if_neg hsame, List.append_assoc] at hinput
            have hlegible : Legible seg glyphWidth new := by
              rcases hrow with hkept | ⟨-, hlegible⟩
              · exact absurd (emitRow_congr hkept) hsame
              · exact hlegible
            have hmove : Draws seg glyphWidth width screen _ :=
              Draws.one (draw_moveToRow (by omega) hinput)
            have hat : (done ++ cur :: pending)[done.length]? = some cur := by simp
            rw [← hcells] at hat
            have hpaint := @draws_row seg glyphWidth width { screen with
                x := 0, y := done.length,
                input := emitRow new ++ (patchText (done.length + 1) olds news ++ rest) }
              new _ hbreak hlegible cur hstyles hlength hat
              (hwidth cur List.mem_cons_self) rfl rfl
            have hset : screen.cells.set done.length (new.map Cell.shown) =
                (done ++ [new.map Cell.shown]) ++ pending := by
              rw [hcells]
              simp
            obtain ⟨x, y, style, after, hdraws, hafter⟩ := @ih ⟨screen.cells.set done.length
                (new.map Cell.shown), width, done.length, [],
                patchText (done.length + 1) olds news ++ rest⟩ _ _ hnew' hwidth' hshown hset
              (by rw [List.length_append, List.length_singleton]; omega)
              (by rw [List.length_append, List.length_singleton])
            refine ⟨x, y, style, new.map Cell.shown :: after, ?_, ?_⟩
            · rw [List.append_assoc] at hdraws
              exact hmove.trans (hpaint.trans hdraws)
            · rw [shown_cons, shown_cons, map_shown_shown, hafter]

end Patch

/-! ### Runs -/

/-- A presenter, and the terminal that it writes to. -/
structure Session where
  presenter : FramePresenter
  terminal : Screen
  size : Size

def OfSize (size : Size) (screen : Screen) : Prop :=
  Sized size.1.toNat size.2.toNat screen.cells

def cleared (size : Size) : Screen := emptyScreen size.1.toNat size.2.toNat []

section Runs

variable (seg : Segmentation) (glyphWidth : List Char → Nat) {ε : Type}

/-- A terminal after all of the bytes.  What the drawing semantics has no answer for leaves
anything. -/
structure Executed (size : Size) (before : Screen) (bytes : ByteArray) (after : Screen) : Prop where
  sized : OfSize size after
  drawn : ∀ text last, String.fromUTF8? bytes = some text →
    execute seg glyphWidth size.1.toNat before text.toList = some last → after = last

/-- A terminal after what `present` wrote.  A write that fails leaves anything. -/
inductive Writes (size : Size) (before : Screen) (out : Presented ε) : Screen → Prop where
  | nothing (written : out.written = none) : Writes size before out before
  | whole (bytes : ByteArray) (changed : Bool) (after : Screen) (written : out.written = some bytes)
      (result : out.result = .ok changed)
      (executed : Executed seg glyphWidth size before bytes after) : Writes size before out after
  | part (bytes : ByteArray) (error : ε) (after : Screen) (written : out.written = some bytes)
      (result : out.result = .error error) (sized : OfSize size after) :
      Writes size before out after

/-- One call of `present` for a frame, at the size that the terminal has then.  A terminal of
another size than before has any content. -/
structure Presents (s : Session) (size : Size) (frame : String) (write : ByteArray → Except ε Unit)
    (next : Session) : Prop where
  opens : Opens frame.toList
  before : ∃ before, OfSize size before ∧ (size = s.size → before = s.terminal) ∧
    Writes seg glyphWidth size before
      (present seg glyphWidth s.presenter write size frame.toUTF8 (.ok ())) next.terminal
  presenter : next.presenter =
    (present seg glyphWidth s.presenter write size frame.toUTF8 (.ok ())).presenter
  size : next.size = size

/-- What a presenter and its terminal come to, when every frame meets a condition. -/
inductive Run (ε : Type) (meets : Session → Size → String → Prop) : Session → Prop where
  | start (terminal : Screen) (size : Size) (sized : OfSize size terminal) :
      Run ε meets ⟨.default, terminal, size⟩
  | present (s next : Session) (size : Size) (frame : String) (write : ByteArray → Except ε Unit)
      (run : Run ε meets s) (met : meets s size frame)
      (presents : Presents seg glyphWidth s size frame write next) : Run ε meets next
  | undrawn (s : Session) (frame : ByteArray) (write : ByteArray → Except ε Unit) (error : ε)
      (run : Run ε meets s) :
      Run ε meets { s with
        presenter := (Terminal.present seg glyphWidth s.presenter write s.size frame
          (.error error)).presenter }

/-- The terminal shows what a text paints on a cleared screen. -/
def Shows (size : Size) (terminal : Screen) (text : List Char) : Prop :=
  ∀ painted, execute seg glyphWidth size.1.toNat (cleared size) text = some painted →
    shown terminal.cells = shown painted.cells

/-- Each row that a frame changes is written otherwise, and is read back as it was drawn. -/
def Readable (s : Session) (size : Size) (frame : String) : Prop :=
  s.presenter.dimensions = some size → ∀ olds news,
    grid seg glyphWidth size.1.toNat s.presenter.previous size.2.toNat = some olds →
    grid seg glyphWidth size.1.toNat (composed frame.toUTF8) size.2.toNat = some news →
    List.Forall₂ (Repaints seg glyphWidth) olds news

/-- A frame in its synchronized update. -/
def composedText (frame : String) : List Char := beginUpdate ++ frame.toList ++ endUpdate

/-- The terminal shows the frame that the presenter remembers. -/
structure Faithful (s : Session) : Prop where
  sized : OfSize s.size s.terminal
  remembered : ∀ dimensions, s.presenter.dimensions = some dimensions → dimensions = s.size ∧
    s.presenter.rows = rows seg glyphWidth s.presenter.previous s.size ∧
    ∃ frame : String, Opens frame.toList ∧ s.presenter.previous = composed frame.toUTF8 ∧
      Shows seg glyphWidth s.size s.terminal (composedText frame)

variable {seg glyphWidth} {s next : Session} {size : Size} {frame : String} {text : List Char}
  {before after terminal : Screen} {write : ByteArray → Except ε Unit} {cells : List Row}

theorem composed_eq : composed frame.toUTF8 = bytesOf (composedText frame) := by
  rw [composedText, bytesOf_append, bytesOf_append, composed]
  congr 2
  rw [bytesOf, String.ofList_toList]

/-- The ways in which `present` comes to an end. -/
theorem present_cases {out : Presented ε}
    (h : present seg glyphWidth s.presenter write size frame.toUTF8 (.ok ()) = out) :
    (s.presenter.dimensions = some size ∧ s.presenter.previous = composed frame.toUTF8 ∧
      out = ⟨{ s.presenter with scratch := composed frame.toUTF8 }, .ok false, none⟩) ∨
    (s.presenter.dimensions = some size ∧
      (∃ next, rows seg glyphWidth (composed frame.toUTF8) size = some next ∧
        s.presenter.rows = some next) ∧
      out = ⟨{ s.presenter with
        previous := composed frame.toUTF8, scratch := s.presenter.previous }, .ok false, none⟩) ∨
    (∃ error bytes, out = ⟨{ s.presenter with
        scratch := composed frame.toUTF8, dimensions := none }, .error error, some bytes⟩) ∨
    out = ⟨⟨composed frame.toUTF8, s.presenter.previous, some size,
      rows seg glyphWidth (composed frame.toUTF8) size⟩, .ok true,
      some (update s.presenter size (composed frame.toUTF8)
        (rows seg glyphWidth (composed frame.toUTF8) size))⟩ := by
  rw [present] at h
  split at h
  · next hsame => exact .inl ⟨hsame.1, hsame.2, h.symm⟩
  · rw [presentRows] at h
    split at h
    · next hrows =>
        obtain ⟨hdims, hsome, heq⟩ := hrows
        obtain ⟨next, hnext⟩ := Option.isSome_iff_exists.mp hsome
        exact .inr (.inl ⟨hdims, ⟨next, hnext, heq.trans hnext⟩, h.symm⟩)
    · split at h
      · next error _ => exact .inr (.inr (.inl ⟨error, _, h.symm⟩))
      · exact .inr (.inr (.inr h.symm))

theorem grid_painted {width height : Nat}
    (h : grid seg glyphWidth width (bytesOf text) height = some cells) :
    ∃ painted, execute seg glyphWidth width (emptyScreen width height []) text = some painted ∧
      painted.cells = cells := by
  have hguard := h
  rw [grid] at hguard
  split at hguard
  · cases hguard
  · next hsize =>
      simp only [Bool.or_eq_true, decide_eq_true_eq, not_or] at hsize
      rw [bytesOf, grid_eq _ hsize.1.1 hsize.1.2 (by omega), String.toList_ofList] at h
      obtain ⟨painted, hpainted, hcells⟩ := Option.map_eq_some_iff.mp h
      exact ⟨painted, hpainted, hcells⟩

theorem composedText_eq : composedText frame = beginUpdate ++ (frame.toList ++ endUpdate) :=
  List.append_assoc _ _ _

theorem sized_cleared : OfSize size (cleared size) := sized_blank

/-- A whole frame paints the same from any content. -/
theorem execute_composed (hopens : Opens frame.toList) (hsized : OfSize size before) :
    execute seg glyphWidth size.1.toNat before (composedText frame) =
      execute seg glyphWidth size.1.toNat (cleared size) (composedText frame) := by
  obtain ⟨commands, rest, hframe, hreset, hhome, hclear⟩ := hopens
  have hinput : frame.toList ++ endUpdate =
      commands.flatMap Opening.text ++ (rest ++ endUpdate) := by
    rw [hframe, List.append_assoc]
  have hdraws : ∀ screen : Screen, OfSize size screen →
      Draws seg glyphWidth size.1.toNat { screen with input := composedText frame }
        (emptyScreen size.1.toNat size.2.toNat (rest ++ endUpdate)) := by
    intro screen hscreen
    refine (Draws.one (draw_beginUpdate composedText_eq)).trans ?_
    exact draws_commands hscreen (.inl hreset) (.inl hhome) (.inl hclear) hinput
  exact execute_congr (hdraws before hsized) (hdraws (cleared size) sized_cleared)

/-- The synchronized update does not show. -/
theorem Shows.alone (hbreak : BreaksAtEscape seg)
    (h : Shows seg glyphWidth size terminal (composedText frame)) :
    Shows seg glyphWidth size terminal frame.toList := by
  intro painted hpainted
  obtain ⟨hdraws, hend⟩ := execute_eq_some.mp hpainted
  have hupdate : execute seg glyphWidth size.1.toNat (cleared size) (composedText frame) =
      some { painted with input := [] } := by
    refine execute_eq_some.mpr ⟨?_, rfl⟩
    refine (Draws.one (draw_beginUpdate composedText_eq)).trans ?_
    have happended : Draws seg glyphWidth size.1.toNat
        { cleared size with input := frame.toList ++ endUpdate }
        { painted with input := painted.input ++ endUpdate } := hdraws.append hbreak
    refine happended.trans (Draws.one (draw_endUpdate ?_))
    rw [hend]
    rfl
  have hshown := h _ hupdate
  exact hshown

theorem Executed.composed (hopens : Opens frame.toList) (hsized : OfSize size before)
    (h : Executed seg glyphWidth size before (composed frame.toUTF8) after) :
    Shows seg glyphWidth size after (composedText frame) := by
  intro painted hpainted
  rw [← execute_composed hopens hsized] at hpainted
  rw [composed_eq] at h
  rw [h.drawn _ painted fromUTF8?_bytesOf (by rw [String.toList_ofList]; exact hpainted)]

theorem drawn_of_execute {painted : Screen}
    (h : execute seg glyphWidth size.1.toNat (cleared size) text = some painted) :
    Drawn size.1.toNat size.2.toNat painted :=
  (execute_eq_some.mp h).1.drawn drawn_blank

/-- A patch over the frame before shows the next one. -/
theorem Executed.patch (hbreak : BreaksAtEscape seg) {olds news : List Row} {painted : Screen}
    (hrows : List.Forall₂ (Repaints seg glyphWidth) olds news)
    (hpainted : execute seg glyphWidth size.1.toNat (cleared size) text = some painted)
    (hnews : painted.cells = news) (hsized : OfSize size before)
    (hshown : shown before.cells = shown olds)
    (h : Executed seg glyphWidth size before (patch (olds.map fun row => bytesOf (emitRow row))
      (news.map fun row => bytesOf (emitRow row))) after) :
    shown after.cells = shown news := by
  have hdrawn := drawn_of_execute hpainted
  subst hnews
  have hnew : ∀ row ∈ painted.cells, row.length = size.1.toNat ∧ ∀ i, Styled (cellAt row i).style :=
    fun row hrow => ⟨hdrawn.sized.width row hrow, hdrawn.cells row hrow⟩
  have hheight : 0 + before.cells.length ≤ 2 ^ 16 := by
    have hlt := size.2.toNat_lt
    have heq := hsized.height
    omega
  obtain ⟨x, y, style, rows, hdraws, hrows⟩ := @draws_patch seg glyphWidth size.1.toNat
    { before with input := patchText 0 olds painted.cells ++ endUpdate } endUpdate olds
    painted.cells before.cells [] hbreak hrows hnew hsized.width hshown rfl hheight rfl
  rw [patch_eq] at h
  have hexecute : execute seg glyphWidth size.1.toNat before
      (beginUpdate ++ patchText 0 olds painted.cells ++ endUpdate) =
        some ⟨rows, x, y, style, []⟩ := by
    rw [List.append_assoc]
    refine execute_eq_some.mpr ⟨?_, rfl⟩
    refine (Draws.one (draw_beginUpdate rfl)).trans ?_
    exact hdraws.trans (Draws.one (draw_endUpdate (List.append_nil _).symm))
  rw [h.drawn _ _ fromUTF8?_bytesOf (by rw [String.toList_ofList]; exact hexecute)]
  exact hrows

/-- The frame before is on the terminal, if both frames have rows. -/
theorem Faithful.rows (h : Faithful seg glyphWidth s) (hdims : s.presenter.dimensions = some size)
    (hmet : Readable seg glyphWidth s size frame) {previous nextRows : List ByteArray}
    (hprevious : s.presenter.rows = some previous)
    (hnext : Terminal.rows seg glyphWidth (composed frame.toUTF8) size = some nextRows) :
    ∃ olds news painted, previous = olds.map (fun row => bytesOf (emitRow row)) ∧
      nextRows = news.map (fun row => bytesOf (emitRow row)) ∧
      List.Forall₂ (Repaints seg glyphWidth) olds news ∧
      shown s.terminal.cells = shown olds ∧
      execute seg glyphWidth size.1.toNat (cleared size) (composedText frame) = some painted ∧
      painted.cells = news := by
  obtain ⟨rfl, hrows, old, -, hold, hshows⟩ := h.remembered size hdims
  rw [hprevious] at hrows
  obtain ⟨olds, holds, hpreviousRows⟩ := Option.map_eq_some_iff.mp hrows.symm
  obtain ⟨news, hnews, hnextRows⟩ := Option.map_eq_some_iff.mp hnext
  have holds' := holds
  rw [hold, composed_eq] at holds'
  obtain ⟨paintedOld, hexecuteOld, hcellsOld⟩ := grid_painted holds'
  have hnews' := hnews
  rw [composed_eq] at hnews'
  obtain ⟨painted, hexecute, hcells⟩ := grid_painted hnews'
  refine ⟨olds, news, painted, hpreviousRows.symm, hnextRows.symm, hmet hdims olds news holds hnews,
    ?_, hexecute, hcells⟩
  rw [← hcellsOld]
  exact hshows paintedOld hexecuteOld

/-- Rows that are written alike show alike. -/
theorem shown_of_written {olds news : List Row}
    (hrows : List.Forall₂ (Repaints seg glyphWidth) olds news)
    (hsame : olds.map (fun row => bytesOf (emitRow row)) =
      news.map (fun row => bytesOf (emitRow row))) : shown olds = shown news := by
  induction hrows with
  | nil => rfl
  | @cons old new olds news hrow _ ih =>
      obtain ⟨hfirst, hsame⟩ := List.cons.inj hsame
      have hkept : old.map Cell.shown = new.map Cell.shown :=
        hrow.resolve_right fun h => h.1 (bytesOf_inj.mp hfirst)
      rw [shown_cons, shown_cons, hkept, ih hsame]

theorem Writes.unwritten {out : Presented ε} (h : Writes seg glyphWidth size before out after)
    (hwritten : out.written = none) : after = before := by
  cases h with
  | nothing => rfl
  | whole bytes changed _ written =>
      rw [hwritten] at written
      cases written
  | part bytes error _ written =>
      rw [hwritten] at written
      cases written

theorem Writes.executed {out : Presented ε} {bytes : ByteArray} {changed : Bool}
    (h : Writes seg glyphWidth size before out after) (hwritten : out.written = some bytes)
    (hresult : out.result = .ok changed) : Executed seg glyphWidth size before bytes after := by
  cases h with
  | nothing written =>
      rw [hwritten] at written
      cases written
  | whole bytes' changed' _ written result executed =>
      rw [hwritten] at written
      cases written
      exact executed
  | part bytes' error _ written result =>
      rw [hresult] at result
      cases result

theorem Writes.sized {out : Presented ε} (h : Writes seg glyphWidth size before out after)
    (hsized : OfSize size before) : OfSize size after := by
  cases h with
  | nothing => exact hsized
  | whole _ _ _ _ _ executed => exact executed.sized
  | part _ _ _ _ _ sized => exact sized

/-- The ways to bring the terminal up to date. -/
theorem update_cases {scratch : ByteArray} {nextRows : Option (List ByteArray)} :
    update s.presenter size scratch nextRows = scratch ∨
    s.presenter.dimensions = some size ∧ ∃ previous next, s.presenter.rows = some previous ∧
      nextRows = some next ∧ update s.presenter size scratch nextRows = patch previous next := by
  unfold update
  split
  · next hdims =>
      split
      · next next hprevious => exact .inr ⟨hdims, _, next, hprevious, rfl, rfl⟩
      · exact .inl rfl
  · exact .inl rfl

theorem update_patch {presenter : FramePresenter} {scratch : ByteArray} {a b : List ByteArray}
    (hdims : presenter.dimensions = some size) (ha : presenter.rows = some a) :
    update presenter size scratch (some b) = patch a b := by
  unfold update
  rw [if_pos hdims, ha]

/-- After a call that returns the terminal shows the frame. -/
theorem Faithful.shows (hbreak : BreaksAtEscape seg) (h : Faithful seg glyphWidth s)
    (hmet : Readable seg glyphWidth s size frame)
    (hpresents : Presents seg glyphWidth s size frame write next) {changed : Bool}
    (hresult : (Terminal.present seg glyphWidth s.presenter write size frame.toUTF8
      (.ok ())).result = .ok changed) :
    Shows seg glyphWidth size next.terminal (composedText frame) := by
  obtain ⟨hopens, ⟨before, hsized, hbefore, hwrites⟩, -, -⟩ := hpresents
  obtain ⟨out, hout⟩ : ∃ out, present seg glyphWidth s.presenter write size frame.toUTF8 (.ok ()) =
    out := ⟨_, rfl⟩
  rw [hout] at hwrites hresult
  rcases present_cases hout with ⟨hdims, hsame, rfl⟩ | ⟨hdims, ⟨rows, hnext, hprevious⟩, rfl⟩ |
    ⟨error, bytes, rfl⟩ | rfl
  · -- the same frame
    obtain ⟨hsize, -, old, -, hold, hshows⟩ := h.remembered size hdims
    have htext : composedText old = composedText frame := by
      rw [hold, composed_eq, composed_eq] at hsame
      exact bytesOf_inj.mp hsame
    rw [hwrites.unwritten rfl, hbefore hsize, ← htext, hsize]
    exact hshows
  · -- another frame with the same rows
    obtain ⟨hsize, -⟩ := h.remembered size hdims
    obtain ⟨olds, news, painted, hrows, hrows', hrepaints, hterminal, hexecute, hcells⟩ :=
      h.rows hdims hmet hprevious hnext
    intro painted' hpainted'
    rw [hexecute] at hpainted'
    cases hpainted'
    rw [hwrites.unwritten rfl, hbefore hsize, hterminal, hcells]
    exact shown_of_written hrepaints (hrows.symm.trans hrows')
  · cases hresult
  · have hexecuted := hwrites.executed rfl rfl
    rcases @update_cases s size (composed frame.toUTF8)
      (Terminal.rows seg glyphWidth (composed frame.toUTF8) size) with hwhole | ⟨hdims, hpatch⟩
    · -- the whole frame
      rw [hwhole] at hexecuted
      exact hexecuted.composed hopens hsized
    · -- the rows that the frame changes
      obtain ⟨previous, nextRows, hprevious, hnext, hpatch⟩ := hpatch
      obtain ⟨hsize, -⟩ := h.remembered size hdims
      obtain ⟨olds, news, painted, rfl, rfl, hrepaints, hterminal, hexecute, hcells⟩ :=
        h.rows hdims hmet hprevious hnext
      rw [hpatch] at hexecuted
      intro painted' hpainted'
      rw [hexecute] at hpainted'
      cases hpainted'
      rw [hcells]
      refine hexecuted.patch hbreak hrepaints hexecute hcells hsized ?_
      rw [hbefore hsize]
      exact hterminal

/-- A frame keeps what the presenter remembers true. -/
theorem Faithful.present (hbreak : BreaksAtEscape seg) (h : Faithful seg glyphWidth s)
    (hmet : Readable seg glyphWidth s size frame)
    (hpresents : Presents seg glyphWidth s size frame write next) :
    Faithful seg glyphWidth next := by
  have hshows : ∀ changed, (Terminal.present seg glyphWidth s.presenter write size frame.toUTF8
      (.ok ())).result = .ok changed →
      Shows seg glyphWidth size next.terminal (composedText frame) :=
    fun changed hresult => h.shows hbreak hmet hpresents hresult
  obtain ⟨hopens, ⟨before, hsized, hbefore, hwrites⟩, hpresenter, hsize⟩ := hpresents
  obtain ⟨presenter, terminal, nextSize⟩ := next
  simp only at hwrites hpresenter hsize hshows
  subst hpresenter hsize
  refine ⟨hwrites.sized hsized, ?_⟩
  intro dimensions hdims'
  obtain ⟨out, hout⟩ : ∃ out, Terminal.present seg glyphWidth s.presenter write nextSize
    frame.toUTF8 (.ok ()) = out := ⟨_, rfl⟩
  rw [hout] at hshows hdims' ⊢
  rcases present_cases hout with ⟨hdims, hsame, rfl⟩ | ⟨hdims, ⟨rows, hnext, hprevious⟩, rfl⟩ |
    ⟨error, bytes, rfl⟩ | rfl
  · cases hdims.symm.trans hdims'
    obtain ⟨rfl, hrows, -⟩ := h.remembered _ hdims
    exact ⟨rfl, hrows, frame, hopens, hsame, hshows false rfl⟩
  · cases hdims.symm.trans hdims'
    exact ⟨rfl, hprevious.trans hnext.symm, frame, hopens, rfl, hshows false rfl⟩
  · cases hdims'
  · cases hdims'
    exact ⟨rfl, rfl, frame, hopens, rfl, hshows true rfl⟩

theorem Run.faithful (hbreak : BreaksAtEscape seg)
    (h : Run seg glyphWidth ε (Readable seg glyphWidth) s) : Faithful seg glyphWidth s := by
  induction h with
  | start terminal size sized =>
      refine ⟨sized, ?_⟩
      intro dimensions hdims
      cases hdims
  | present s next size frame write run met presents ih => exact ih.present hbreak met presents
  | undrawn s frame write error run ih => exact ⟨ih.sized, ih.remembered⟩

end Runs

/-- After every call that returns, in a run whose frames are read back, the terminal shows what the
frame alone paints on a cleared screen. -/
theorem presented_as_painted {ε : Type} (seg : Segmentation) (glyphWidth : List Char → Nat)
    (hbreak : BreaksAtEscape seg) (s next : Session) (size : Size) (frame : String)
    (write : ByteArray → Except ε Unit) (changed : Bool)
    (hrun : Run seg glyphWidth ε (Readable seg glyphWidth) s)
    (hmet : Readable seg glyphWidth s size frame)
    (hpresents : Presents seg glyphWidth s size frame write next)
    (hresult : (present seg glyphWidth s.presenter write size frame.toUTF8 (.ok ())).result =
      .ok changed) :
    Shows seg glyphWidth size next.terminal frame.toList :=
  ((hrun.faithful hbreak).shows hbreak hmet hpresents hresult).alone hbreak

/-! ### A mark on a blank cell -/

section Samples

/-- How the board begins a frame. -/
def header : List Char := resetStyle ++ resetStyle ++ moveToRow 0 ++ clearAll

def lettersFrame : String := String.ofList (header ++ ['a', 'b', 'c'])

/-- A letter, and a mark two columns behind it. -/
def markText : List Char := 'a' :: csi ['1', ';', '3'] 'H' ++ ['\u0301']

def markFrame : String := String.ofList (header ++ markText)

def letters : Screen :=
  ⟨[[⟨['a'], [], false⟩, ⟨['b'], [], false⟩, ⟨['c'], [], false⟩]], 3, 0, [], []⟩

theorem opens_header (text : List Char) : Opens (header ++ text) :=
  ⟨[.reset, .reset, .home, .clear], text, by simp [header, Opening.text], by decide, by decide,
    by decide⟩

theorem breaksAtEscape_chars : BreaksAtEscape .chars := fun _ _ => List.map_append

theorem execute_letters : execute .chars plainWidth 3 (cleared (3, 1)) (composedText lettersFrame) =
    some letters := by
  rw [composedText, lettersFrame, String.toList_ofList]
  decide

/-- Every write succeeds. -/
def accept (_ : ByteArray) : Except Unit Unit := .ok ()

/-- The presenter after the first frame. -/
def first : FramePresenter := ⟨composed lettersFrame.toUTF8, .empty, some (3, 1),
  rows .chars plainWidth (composed lettersFrame.toUTF8) (3, 1)⟩

theorem present_first : present .chars plainWidth .default accept (3, 1) lettersFrame.toUTF8
    (.ok ()) = ⟨first, .ok true, some (composed lettersFrame.toUTF8)⟩ := rfl

/-- A write that succeeds on the terminal that is there. -/
theorem presents_of_execute {seg : Segmentation} {glyphWidth : List Char → Nat} {ε : Type}
    {s : Session} {frame : String} {write : ByteArray → Except ε Unit} {out : Presented ε}
    {text : List Char} {last : Screen} {changed : Bool} (hopens : Opens frame.toList)
    (hsized : OfSize s.size s.terminal)
    (hout : present seg glyphWidth s.presenter write s.size frame.toUTF8 (.ok ()) = out)
    (hresult : out.result = .ok changed) (hwritten : out.written = some (bytesOf text))
    (hexecute : execute seg glyphWidth s.size.1.toNat s.terminal text = some last) :
    Presents seg glyphWidth s s.size frame write ⟨out.presenter, last, s.size⟩ := by
  have hlast : OfSize s.size last := (execute_eq_some.mp hexecute).1.sized hsized
  refine ⟨hopens, ⟨s.terminal, hsized, fun _ => rfl, ?_⟩, by rw [hout], rfl⟩
  rw [hout]
  refine .whole (bytesOf text) changed last hwritten hresult ⟨hlast, ?_⟩
  intro text' last' htext' hexecute'
  rw [fromUTF8?_bytesOf] at htext'
  cases htext'
  rw [String.toList_ofList, hexecute] at hexecute'
  exact Option.some.inj hexecute'

theorem presents_first : Presents .chars plainWidth ⟨.default, cleared (3, 1), (3, 1)⟩ (3, 1)
    lettersFrame accept ⟨first, letters, (3, 1)⟩ := by
  refine presents_of_execute (s := ⟨.default, cleared (3, 1), (3, 1)⟩) ?_ sized_cleared
    present_first rfl (congrArg some composed_eq) execute_letters
  rw [lettersFrame, String.toList_ofList]
  exact opens_header _

/-- What the frame with the mark paints by itself, and what it makes of the letters. -/
def marked : Screen := ⟨[[⟨['a'], [], false⟩, ⟨['\u0301'], [], false⟩, .blank]], 2, 0, [], []⟩

def stale : Screen := ⟨[[⟨['a', '\u0301'], [], false⟩, ⟨[' '], [], false⟩, ⟨['c'], [], false⟩]],
  2, 0, [], []⟩

theorem execute_mark : execute .chars plainWidth 3 (cleared (3, 1)) (composedText markFrame) =
    some marked := by
  rw [composedText, markFrame, String.toList_ofList]
  decide

theorem rows_of_execute {seg : Segmentation} {glyphWidth : List Char → Nat} {size : Size}
    {text : List Char} {painted : Screen}
    (h : execute seg glyphWidth size.1.toNat (cleared size) text = some painted)
    (hsize : size.1.toNat ≠ 0 ∧ size.2.toNat ≠ 0 ∧ size.1.toNat * size.2.toNat ≤ 200000) :
    rows seg glyphWidth (bytesOf text) size =
      some (painted.cells.map fun row => bytesOf (emitRow row)) := by
  rw [rows, bytesOf, grid_eq _ hsize.1 hsize.2.1 hsize.2.2, String.toList_ofList]
  exact congrArg (Option.map _ ∘ Option.map _) h

theorem execute_patch : execute .chars plainWidth 3 letters
    (beginUpdate ++ patchText 0 letters.cells marked.cells ++ endUpdate) = some stale := by
  decide

/-- A frame after the first one, in which a row is written otherwise. -/
theorem present_second {frame : String} {painted : Screen}
    (hframe : composedText lettersFrame ≠ composedText frame)
    (hpainted : execute .chars plainWidth 3 (cleared (3, 1)) (composedText frame) = some painted)
    (hrows : letters.cells.map emitRow ≠ painted.cells.map emitRow) :
    ∃ presenter, present .chars plainWidth first accept (3, 1) frame.toUTF8 (.ok ()) =
      ⟨presenter, .ok true, some (bytesOf
        (beginUpdate ++ patchText 0 letters.cells painted.cells ++ endUpdate))⟩ := by
  have hletters : rows .chars plainWidth (bytesOf (composedText lettersFrame)) (3, 1) = _ :=
    rows_of_execute execute_letters (by decide)
  have hnext : rows .chars plainWidth (bytesOf (composedText frame)) (3, 1) = _ :=
    rows_of_execute hpainted (by decide)
  rw [← composed_eq] at hletters hnext
  have hother : ¬(first.dimensions = some (3, 1) ∧ first.previous = composed frame.toUTF8) := by
    intro hsame
    have hbytes := hsame.2
    rw [first, composed_eq, composed_eq, bytesOf_inj] at hbytes
    exact hframe hbytes
  have hchanged : ¬(first.dimensions = some (3, 1) ∧
      (rows .chars plainWidth (composed frame.toUTF8) (3, 1)).isSome ∧
      first.rows = rows .chars plainWidth (composed frame.toUTF8) (3, 1)) := by
    intro hsame
    have hbytes := hsame.2.2
    rw [first, hletters, hnext, Option.some_inj] at hbytes
    have hwritten : (letters.cells.map emitRow).map bytesOf =
        (painted.cells.map emitRow).map bytesOf := by
      rw [List.map_map, List.map_map]
      exact hbytes
    exact hrows (List.map_inj_right (fun a b => bytesOf_inj.mp) |>.mp hwritten)
  have hupdate : update first (3, 1) (composed frame.toUTF8)
      (rows .chars plainWidth (composed frame.toUTF8) (3, 1)) =
        bytesOf (beginUpdate ++ patchText 0 letters.cells painted.cells ++ endUpdate) := by
    rw [hnext, update_patch rfl hletters, patch_eq]
  refine ⟨⟨composed frame.toUTF8, first.previous, some (3, 1),
    rows .chars plainWidth (composed frame.toUTF8) (3, 1)⟩, ?_⟩
  rw [present, if_neg hother, presentRows, if_neg hchanged, hupdate]
  rfl

/-- The first frame, and then another one over it. -/
theorem presents_second {text : List Char} {painted after : Screen}
    (hframe : composedText lettersFrame ≠ composedText (String.ofList (header ++ text)))
    (hpainted : execute .chars plainWidth 3 (cleared (3, 1))
      (composedText (String.ofList (header ++ text))) = some painted)
    (hrows : letters.cells.map emitRow ≠ painted.cells.map emitRow)
    (hpatch : execute .chars plainWidth 3 letters
      (beginUpdate ++ patchText 0 letters.cells painted.cells ++ endUpdate) = some after) :
    ∃ presenter, Presents .chars plainWidth ⟨first, letters, (3, 1)⟩ (3, 1)
        (String.ofList (header ++ text)) accept ⟨presenter, after, (3, 1)⟩ ∧
      (present .chars plainWidth first accept (3, 1) (String.ofList (header ++ text)).toUTF8
        (.ok ())).result = .ok true := by
  obtain ⟨presenter, hpresent⟩ := present_second hframe hpainted hrows
  have hsized : OfSize (3, 1) letters := ⟨rfl, by decide⟩
  refine ⟨presenter, ?_, by rw [hpresent]⟩
  refine presents_of_execute (s := ⟨first, letters, (3, 1)⟩) ?_ hsized hpresent rfl rfl hpatch
  rw [String.toList_ofList]
  exact opens_header text

theorem run_first {meets : Session → Size → String → Prop}
    (h : meets ⟨.default, cleared (3, 1), (3, 1)⟩ (3, 1) lettersFrame) :
    Run .chars plainWidth Unit meets ⟨first, letters, (3, 1)⟩ :=
  .present _ _ _ _ _ (.start _ _ sized_cleared) h presents_first

theorem presented_as_painted_letters : ∃ last, execute .chars plainWidth 3 (cleared (3, 1))
    (header ++ ['a', 'b', 'd']) = some last ∧ ∃ next : Session,
    Presents .chars plainWidth ⟨first, letters, (3, 1)⟩ (3, 1)
      (String.ofList (header ++ ['a', 'b', 'd'])) accept next ∧
    shown next.terminal.cells = shown last.cells := by
  have hpaint : execute .chars plainWidth 3 (cleared (3, 1)) (header ++ ['a', 'b', 'd']) =
      some ⟨[[⟨['a'], [], false⟩, ⟨['b'], [], false⟩, ⟨['d'], [], false⟩]], 3, 0, [], []⟩ := by
    decide
  have hcomposed : execute .chars plainWidth 3 (cleared (3, 1))
      (composedText (String.ofList (header ++ ['a', 'b', 'd']))) =
        some ⟨[[⟨['a'], [], false⟩, ⟨['b'], [], false⟩, ⟨['d'], [], false⟩]], 3, 0, [], []⟩ := by
    rw [composedText, String.toList_ofList]
    decide
  have hpatch : execute .chars plainWidth 3 letters (beginUpdate ++ patchText 0 letters.cells
      [[⟨['a'], [], false⟩, ⟨['b'], [], false⟩, ⟨['d'], [], false⟩]] ++ endUpdate) =
        some ⟨[[⟨['a'], [], false⟩, ⟨['b'], [], false⟩, ⟨['d'], [], false⟩]], 3, 0, [], []⟩ := by
    decide
  obtain ⟨presenter, hpresents, hresult⟩ := presents_second
    (by
      rw [composedText, composedText, lettersFrame, String.toList_ofList, String.toList_ofList]
      decide)
    hcomposed (by decide) hpatch
  have hlegible : Legible .chars plainWidth
      [⟨['a'], [], false⟩, ⟨['b'], [], false⟩, ⟨['d'], [], false⟩] := by
    refine .cons _ ['a'] [] _ rfl rfl (by decide) (by simp) ⟨by decide, trivial⟩ ?_
    refine .cons _ ['b'] [] _ rfl rfl (by decide) (by simp) ⟨by decide, trivial⟩ ?_
    exact .cons _ ['d'] [] _ rfl rfl (by decide) (by simp) ⟨by decide, trivial⟩ .nil
  have hreadable : Readable .chars plainWidth ⟨first, letters, (3, 1)⟩ (3, 1)
      (String.ofList (header ++ ['a', 'b', 'd'])) := by
    intro _ olds news holds hnews
    have holds' : grid .chars plainWidth 3 (composed lettersFrame.toUTF8) 1 = some olds := holds
    rw [composed_eq] at holds' hnews
    obtain ⟨painted, hpainted, rfl⟩ := grid_painted holds'
    obtain ⟨painted', hpainted', rfl⟩ := grid_painted hnews
    cases execute_letters.symm.trans hpainted
    cases hcomposed.symm.trans hpainted'
    exact .cons (.inr ⟨by decide, hlegible⟩) .nil
  refine ⟨_, hpaint, _, hpresents, ?_⟩
  refine presented_as_painted .chars plainWidth breaksAtEscape_chars _ _ _ _ _ true
    (run_first ?_) hreadable hpresents hresult _ (by rw [String.toList_ofList]; exact hpaint)
  intro hdims
  cases hdims

/-- The terminal keeps the last letter. -/
theorem mark_left_behind : ¬∀ (s next : Session) (size : Size) (frame : String)
    (write : ByteArray → Except Unit Unit) (changed : Bool),
    Run .chars plainWidth Unit (fun _ _ _ => True) s →
    Presents .chars plainWidth s size frame write next →
    (present .chars plainWidth s.presenter write size frame.toUTF8 (.ok ())).result = .ok changed →
    Shows .chars plainWidth size next.terminal frame.toList := by
  intro hall
  have hframe : composedText lettersFrame ≠ composedText (String.ofList (header ++ markText)) := by
    rw [composedText, composedText, lettersFrame, String.toList_ofList, String.toList_ofList]
    decide
  obtain ⟨presenter, hpresents, hresult⟩ := presents_second hframe
    execute_mark (by decide) execute_patch
  have hshows := hall _ _ _ _ _ true (run_first trivial) hpresents hresult
  have hpaint : execute .chars plainWidth 3 (cleared (3, 1)) markFrame.toList = some marked := by
    rw [markFrame, String.toList_ofList]
    decide
  have hsame : shown stale.cells = shown marked.cells := hshows _ hpaint
  revert hsame
  decide

end Samples

end Pikamux.Terminal

import Pikamux.Preview.Driver
import Pikamux.Support.Window

/-!
# Preview — Tail

What `bounded_text` shows of a captured text.

* `foldl_scan` — the ring holds the longest tail that fits of what the scanner has let through.
* `scanned_eq` — the scanner lets through what is visible, unless it misses the end of a string
  program behind an escape character.
* `preview_tail` — how the text of a preview and what is visible are related.
-/

namespace Pikamux.Preview

open Support Json

/-! ### What is visible -/

/-- What is shown outside of terminal programs. -/
def kept (ch : Char) : Bool := ch == '\n' || ch == '\t' || !(isControl ch || isBidi ch)

/-- What a text is read as: text, an escape character and what follows, a CSI or a string. -/
inductive Mode where
  | plain
  | escape
  | csi
  | string
  deriving DecidableEq, Repr

/-- BEL and the C1 string terminator. -/
def endsString (ch : Char) : Bool := ch == '\x07' || ch == '\u009c'

/-- What begins with a character of a text, and what begins with one behind an escape. -/
def Mode.begins (ch : Char) : Mode :=
  if ch = '\x1b' then .escape
  else if ch = '\u009b' then .csi
  else if ['\u0090', '\u009d', '\u009e', '\u009f'].contains ch then .string
  else .plain

def Mode.escaped (ch : Char) : Mode :=
  if ch = '[' then .csi
  else if [']', 'P', '^', '_'].contains ch then .string
  else .plain

/-- What is left of a text without terminal programs and what is not shown. -/
def visible : Mode → Text → Text
  | .plain, ch :: text =>
      (if Mode.begins ch = .plain ∧ kept ch then [ch] else []) ++ visible (Mode.begins ch) text
  | .escape, ch :: text => visible (Mode.escaped ch) text
  | .csi, ch :: text => visible (if '@' ≤ ch ∧ ch ≤ '~' then .plain else .csi) text
  | .string, '\x1b' :: '\\' :: text => visible .plain text
  | .string, ch :: text => visible (if endsString ch then .plain else .string) text
  | _, [] => []

def newlines (text : Text) : Nat := (text.map newline).sum

/-- The lines of a text.  A final newline adds none. -/
def lineCount (text : Text) : Nat :=
  newlines text + if text.getLast?.all (· == '\n') then 0 else 1

/-- Within the limits of the preview. -/
def Fits (text : Text) : Prop := charsBytes text ≤ maxBytes ∧ lineCount text ≤ maxLines

instance : DecidablePred Fits := fun _ => inferInstanceAs (Decidable (_ ∧ _))

/-- What a character makes of a mode, and of how many escape characters stand before it. -/
def Mode.next (mode : Mode × Nat) (ch : Char) : Mode × Nat :=
  match mode.1 with
  | .plain => (Mode.begins ch, 0)
  | .escape => (Mode.escaped ch, 0)
  | .csi => (if '@' ≤ ch ∧ ch ≤ '~' then .plain else .csi, 0)
  | .string =>
      if ch = '\x1b' then (.string, mode.2 + 1)
      else if endsString ch ∨ (ch = '\\' ∧ 0 < mode.2) then (.plain, 0)
      else (.string, 0)

/-- Whether a string program ends with a character, with so many escape characters before it that
the scanner takes the last one, or the character, for what an escape character was put before. -/
def Mode.missed (mode : Mode × Nat) (ch : Char) : Bool :=
  mode.1 == .string &&
    (ch == '\\' && 0 < mode.2 && mode.2 % 2 == 0 || endsString ch && mode.2 % 2 == 1)

/-- No end of a string program is missed. -/
def endsRight : Mode × Nat → Text → Bool
  | _, [] => true
  | mode, ch :: text => !Mode.missed mode ch && endsRight (Mode.next mode ch) text

/-- The longest tail of what is visible that fits. -/
structure SafeTail (text shown : Text) : Prop where
  suffix : shown <:+ visible .plain text
  fits : Fits shown
  longest : ∀ tail, tail <:+ visible .plain text → Fits tail → tail.length ≤ shown.length

/-! ### Lines -/

section Lines

variable {text text' : Text} {ch : Char}

theorem lineCount_cons (ch : Char) (h : text ≠ []) :
    lineCount (ch :: text) = newline ch + lineCount text := by
  obtain ⟨front, last, rfl⟩ := (List.eq_nil_or_concat text).resolve_left h
  rw [List.concat_eq_append, lineCount, lineCount, ← List.cons_append, List.getLast?_concat,
    List.getLast?_concat, List.cons_append, newlines, List.map_cons, List.sum_cons, ← newlines,
    Nat.add_assoc]

theorem lineCount_singleton (ch : Char) : lineCount [ch] = 1 := by
  by_cases h : ch = '\n'
  · simp [lineCount, newlines, newline, h]
  · simp [lineCount, newlines, newline, h]

theorem lineCount_pos (h : text ≠ []) : 1 ≤ lineCount text := by
  induction text with
  | nil => exact absurd rfl h
  | cons ch text ih =>
      by_cases hrest : text = []
      · rw [hrest, lineCount_singleton]
      · rw [lineCount_cons ch hrest]
        have hle := ih hrest
        omega

theorem lineCount_sublist (h : text.Sublist text') : lineCount text ≤ lineCount text' := by
  induction h with
  | slnil => exact Nat.le_refl _
  | @cons short long ch hsub ih =>
      by_cases hlong : long = []
      · rw [hlong] at hsub
        rw [List.eq_nil_of_sublist_nil hsub]
        exact Nat.zero_le _
      · rw [lineCount_cons ch hlong]
        omega
  | @cons_cons short long ch hsub ih =>
      by_cases hshort : short = []
      · rw [hshort, lineCount_singleton]
        exact lineCount_pos (List.cons_ne_nil ch long)
      · have hlong : long ≠ [] := by
          rintro rfl
          exact hshort (List.eq_nil_of_sublist_nil hsub)
        rw [lineCount_cons ch hshort, lineCount_cons ch hlong]
        omega

theorem charsBytes_le_of_sublist (h : text.Sublist text') : charsBytes text ≤ charsBytes text' := by
  induction h with
  | slnil => exact Nat.le_refl _
  | cons ch _ ih =>
      rw [charsBytes_cons]
      omega
  | cons_cons ch _ ih =>
      rw [charsBytes_cons, charsBytes_cons]
      omega

theorem fits_monotone : Support.Monotone Fits where
  nil := by
    refine ⟨Nat.zero_le _, ?_⟩
    simp [lineCount, newlines]
  sublist hsub h := ⟨(charsBytes_le_of_sublist hsub).trans h.1, (lineCount_sublist hsub).trans h.2⟩

theorem fits_singleton (ch : Char) : Fits [ch] := by
  refine ⟨?_, ?_⟩
  · have hsize := ch.utf8Size_le_four
    rw [charsBytes_cons]
    simp only [charsBytes, List.map_nil, List.sum_nil, maxBytes]
    omega
  · rw [lineCount_singleton, maxLines]
    omega

end Lines

/-! ### The ring -/

section Ring

/-- What the ring holds of what was let through. -/
def ring (text : Text) : Tail :=
  ⟨lastFit Fits text, charsBytes (lastFit Fits text), newlines (lastFit Fits text)⟩

variable {output : Text} {ch : Char}

/-- What the loop compares is what fits, for an output that ends with the character. -/
theorem over_iff (h : ∀ last, output.getLast? = some last → last = ch) (hne : output ≠ []) :
    (maxBytes < charsBytes output || maxLines - (1 - newline ch) < newlines output) = true ↔
      ¬ Fits output := by
  obtain ⟨front, last, rfl⟩ := (List.eq_nil_or_concat output).resolve_left hne
  rw [List.concat_eq_append] at h ⊢
  obtain rfl := h last List.getLast?_concat
  rw [Fits, lineCount, List.getLast?_concat, Bool.or_eq_true, decide_eq_true_eq,
    decide_eq_true_eq]
  by_cases hlast : last = '\n'
  · simp only [hlast, newline, if_true, Option.all_some, beq_self_eq_true]
    omega
  · have hbeq : (last == '\n') = false := beq_eq_false_iff_ne.mpr hlast
    simp only [hbeq, newline, if_neg hlast, Option.all_some, Bool.false_eq_true, if_false,
      maxLines]
    omega

theorem dropFront_eq (h : ∀ last, output.getLast? = some last → last = ch) :
    dropFront (maxLines - (1 - newline ch)) output (charsBytes output) (newlines output) =
      ring output := by
  induction output with
  | nil => rfl
  | cons old rest ih =>
      have hover := over_iff h (List.cons_ne_nil old rest)
      rw [dropFront]
      by_cases hfits : Fits (old :: rest)
      · rw [if_neg (fun hlarge => hover.mp hlarge hfits), ring, lastFit_of_fits hfits]
      · have hbytes : charsBytes (old :: rest) - old.utf8Size = charsBytes rest := by
          rw [charsBytes_cons, Nat.add_sub_cancel_left]
        have hnewlines : newlines (old :: rest) - newline old = newlines rest := by
          rw [newlines, List.map_cons, List.sum_cons, Nat.add_sub_cancel_left, ← newlines]
        have hlast : ∀ last, rest.getLast? = some last → last = ch := by
          intro last hrest
          refine h last ?_
          rw [List.getLast?_cons, hrest]
          rfl
        rw [if_pos (hover.mpr hfits), hbytes, hnewlines, ih hlast, ring, ring, lastFit,
          if_neg hfits]

theorem ring_push (text : Text) (ch : Char) : (ring text).push ch = ring (text ++ [ch]) := by
  have hbytes : charsBytes (lastFit Fits text) + ch.utf8Size =
      charsBytes (lastFit Fits text ++ [ch]) := by
    simp [charsBytes]
  have hnewlines : newlines (lastFit Fits text) + newline ch =
      newlines (lastFit Fits text ++ [ch]) := by
    simp [newlines]
  have hlast : ∀ last, (lastFit Fits text ++ [ch]).getLast? = some last → last = ch := by
    intro last h
    rw [List.getLast?_concat] at h
    exact (Option.some.inj h).symm
  have hring := dropFront_eq hlast
  rw [ring, lastFit_concat fits_monotone] at hring
  rw [Tail.push, ring]
  dsimp only
  rw [hbytes, hnewlines, hring, ring]

/-- What the scanner lets through. -/
def scanned : Escape → Text → Text
  | _, [] => []
  | state, ch :: text =>
      match state.next ch with
      | some next => scanned next text
      | none => (if kept ch then [ch] else []) ++ scanned state text

theorem scan_kept {state : Escape} (h : state.next ch = none) (tail : Tail) :
    scan (state, tail) ch = (state, if kept ch then tail.push ch else tail) := by
  have hkept : (ch != '\n' && ch != '\t' && (isControl ch || isBidi ch)) = !kept ch := by
    rw [kept, bne, bne]
    cases ch == '\n' <;> cases ch == '\t' <;> simp
  rw [scan, h]
  dsimp only
  rw [hkept]
  cases kept ch
  · rfl
  · rfl

/-- The ring always holds the longest tail that fits. -/
theorem foldl_scan (state : Escape) (shown text : Text) :
    (text.foldl scan (state, ring shown)).2 = ring (shown ++ scanned state text) := by
  induction text generalizing state shown with
  | nil => rw [List.foldl_nil, scanned, List.append_nil]
  | cons ch text ih =>
      rw [List.foldl_cons, scanned]
      cases hnext : state.next ch with
      | some next =>
          rw [scan, hnext]
          exact ih next shown
      | none =>
          rw [scan_kept hnext]
          dsimp only
          cases kept ch with
          | true =>
              rw [if_pos rfl, if_pos rfl, ring_push, ih, List.append_assoc]
          | false => exact ih state shown

theorem boundedText_eq (text : Text) : boundedText text = lastFit Fits (scanned .none text) := by
  have h := foldl_scan .none [] text
  rw [List.nil_append] at h
  exact congrArg Tail.output h

end Ring

/-! ### The expectation of the loop -/

/-- `dropFront`, or nothing if there is no character to drop. -/
def dropFront? (allowed : Nat) : Text → Nat → Nat → Option Tail
  | [], bytes, newlines =>
      if maxBytes < bytes || allowed < newlines then none else some ⟨[], bytes, newlines⟩
  | old :: rest, bytes, newlines =>
      if maxBytes < bytes || allowed < newlines then
        dropFront? allowed rest (bytes - old.utf8Size) (newlines - newline old)
      else some ⟨old :: rest, bytes, newlines⟩

def Tail.push? (tail : Tail) (ch : Char) : Option Tail :=
  dropFront? (maxLines - (1 - newline ch)) (tail.output ++ [ch]) (tail.bytes + ch.utf8Size)
    (tail.newlines + newline ch)

def scan? (state : Escape × Tail) (ch : Char) : Option (Escape × Tail) :=
  match state.1.next ch with
  | some next => some (next, state.2)
  | none =>
      if ch != '\n' && ch != '\t' && (isControl ch || isBidi ch) then some state
      else (state.2.push? ch).map fun tail => (state.1, tail)

/-- `bounded_text`, unless there is no character where one is expected. -/
def boundedText? (text : Text) : Option Text :=
  (text.foldlM scan? (.none, ⟨[], 0, 0⟩)).map fun state => state.2.output

section Expected

theorem dropFront?_eq (allowed : Nat) (output : Text) :
    dropFront? allowed output (charsBytes output) (newlines output) =
      some (dropFront allowed output (charsBytes output) (newlines output)) := by
  induction output with
  | nil => rfl
  | cons old rest ih =>
      have hbytes : charsBytes (old :: rest) - old.utf8Size = charsBytes rest := by
        rw [charsBytes_cons, Nat.add_sub_cancel_left]
      have hnewlines : newlines (old :: rest) - newline old = newlines rest := by
        rw [newlines, List.map_cons, List.sum_cons, Nat.add_sub_cancel_left, ← newlines]
      rw [dropFront?, dropFront, hbytes, hnewlines, ih]
      split
      · rfl
      · rfl

theorem ring_push? (text : Text) (ch : Char) :
    (ring text).push? ch = some ((ring text).push ch) := by
  have hbytes : charsBytes (lastFit Fits text) + ch.utf8Size =
      charsBytes (lastFit Fits text ++ [ch]) := by
    simp [charsBytes]
  have hnewlines : newlines (lastFit Fits text) + newline ch =
      newlines (lastFit Fits text ++ [ch]) := by
    simp [newlines]
  rw [Tail.push?, Tail.push, ring]
  dsimp only
  rw [hbytes, hnewlines, dropFront?_eq]

theorem scan?_eq (state : Escape) (shown : Text) (ch : Char) :
    scan? (state, ring shown) ch = some (scan (state, ring shown) ch) := by
  rw [scan?, scan]
  dsimp only
  cases state.next ch with
  | some next => rfl
  | none =>
      dsimp only
      rw [ring_push?]
      split
      · rfl
      · rfl

/-- A character that is scanned leaves a ring. -/
theorem scan_ring (state : Escape) (shown : Text) (ch : Char) :
    ∃ next shown', scan (state, ring shown) ch = (next, ring shown') := by
  cases hnext : state.next ch with
  | some next =>
      refine ⟨next, shown, ?_⟩
      rw [scan, hnext]
  | none =>
      rw [scan_kept hnext, ring_push]
      cases kept ch with
      | true => exact ⟨state, shown ++ [ch], rfl⟩
      | false => exact ⟨state, shown, rfl⟩

theorem foldlM_scan? (state : Escape) (shown text : Text) :
    text.foldlM scan? (state, ring shown) = some (text.foldl scan (state, ring shown)) := by
  induction text generalizing state shown with
  | nil => rfl
  | cons ch text ih =>
      obtain ⟨next, shown', hscan⟩ := scan_ring state shown ch
      rw [List.foldlM_cons, scan?_eq, List.foldl_cons, hscan]
      exact ih next shown'

theorem boundedText?_eq (text : Text) : boundedText? text = some (boundedText text) := by
  have h := foldlM_scan? .none [] text
  exact congrArg (Option.map fun state => state.2.output) h

end Expected

/-! ### The scanner and what is visible -/

section Scanner

variable {text : Text} {ch : Char}

/-- What is visible from a mode on.  The last escape character may begin the end of a string. -/
def visibleFrom (mode : Mode × Nat) (text : Text) : Text :=
  visible mode.1 (if mode.1 = .string ∧ 0 < mode.2 then '\x1b' :: text else text)

/-- What the scanner knows of a mode. -/
def Mode.state (mode : Mode × Nat) : Escape :=
  match mode.1 with
  | .plain => .none
  | .escape => .start
  | .csi => .csi
  | .string => if mode.2 % 2 = 1 then .stringEnd else .string

/-- What a character adds to what is visible. -/
def Mode.shown (mode : Mode × Nat) (ch : Char) : Text :=
  if mode.1 = .plain ∧ Mode.begins ch = .plain ∧ kept ch then [ch] else []

theorem visible_escape (h : text.head? ≠ some '\\') :
    visible .string ('\x1b' :: text) = visible .string text := by
  cases text with
  | nil => rfl
  | cons ch text =>
      rw [List.head?_cons, ne_eq, Option.some_inj] at h
      rw [visible]
      · rfl
      · intro rest _ heq
        cases heq
        exact h rfl

theorem visible_string (h : ch ≠ '\x1b') (text : Text) :
    visible .string (ch :: text) = visible (if endsString ch then .plain else .string) text := by
  rw [visible]
  intro rest heq
  cases heq
  exact absurd rfl h

theorem visibleFrom_nil (mode : Mode × Nat) : visibleFrom mode [] = [] := by
  obtain ⟨mode, escapes⟩ := mode
  rw [visibleFrom]
  split
  case isTrue h =>
    dsimp only at h ⊢
    rw [h.1]
    rfl
  case isFalse =>
    cases mode
    · rfl
    · rfl
    · rfl
    · rfl

theorem visibleFrom_cons (mode : Mode × Nat) (ch : Char) (text : Text) :
    visibleFrom mode (ch :: text) =
      Mode.shown mode ch ++ visibleFrom (Mode.next mode ch) text := by
  obtain ⟨mode, escapes⟩ := mode
  cases mode with
  | plain => simp [visibleFrom, Mode.shown, Mode.next, visible]
  | escape => simp [visibleFrom, Mode.shown, Mode.next, visible]
  | csi => simp [visibleFrom, Mode.shown, Mode.next, visible]
  | string =>
      by_cases hesc : ch = '\x1b'
      · subst hesc
        by_cases hpos : 0 < escapes
        · have hagain : visible .string ('\x1b' :: '\x1b' :: text) =
              visible .string ('\x1b' :: text) := visible_escape (by simp)
          simpa [visibleFrom, Mode.shown, Mode.next, hpos] using hagain
        · simp [visibleFrom, Mode.shown, Mode.next, hpos]
      · by_cases hpos : 0 < escapes
        · by_cases hback : ch = '\\'
          · subst hback
            simp [visibleFrom, Mode.shown, Mode.next, hpos, visible]
          · have hskip : visible .string ('\x1b' :: ch :: text) = visible .string (ch :: text) :=
              visible_escape (by simpa using hback)
            rw [visible_string hesc] at hskip
            cases hends : endsString ch
            · simp [visibleFrom, Mode.shown, Mode.next, hpos, hesc, hback, hskip, hends]
            · simp [visibleFrom, Mode.shown, Mode.next, hpos, hesc, hback, hskip, hends]
        · have hstring := visible_string hesc text
          cases hends : endsString ch
          · simp [visibleFrom, Mode.shown, Mode.next, hpos, hesc, hstring, hends]
          · simp [visibleFrom, Mode.shown, Mode.next, hpos, hesc, hstring, hends]

/-- The scanner knows a mode from its state, unless it misses the end of a string. -/
theorem scanned_cons {mode : Mode × Nat} (h : Mode.missed mode ch = false) (text : Text) :
    scanned (Mode.state mode) (ch :: text) =
      Mode.shown mode ch ++ scanned (Mode.state (Mode.next mode ch)) text := by
  obtain ⟨mode, escapes⟩ := mode
  cases mode with
  | plain =>
      simp only [scanned, Mode.state, Mode.shown, Mode.next, Mode.begins, Escape.next]
      split_ifs <;> simp_all
  | escape =>
      simp only [scanned, Mode.state, Mode.shown, Mode.next, Mode.escaped, Escape.next]
      split_ifs <;> simp_all
  | csi =>
      simp only [scanned, Mode.state, Mode.shown, Mode.next, Escape.next]
      split_ifs <;> simp_all
  | string =>
      -- an escape character before the character stands for itself if there are evenly many
      simp only [Mode.missed, beq_self_eq_true, Bool.true_and, Bool.or_eq_false_iff] at h
      obtain ⟨hback, hends⟩ := h
      by_cases hesc : ch = '\x1b'
      · subst hesc
        obtain heven | hodd := Nat.mod_two_eq_zero_or_one escapes
        · have hnext : (escapes + 1) % 2 = 1 := by omega
          simp [scanned, Mode.state, Mode.shown, Mode.next, Escape.next, heven, hnext]
        · have hnext : (escapes + 1) % 2 = 0 := by omega
          simp [scanned, Mode.state, Mode.shown, Mode.next, Escape.next, hodd, hnext]
      · obtain heven | hodd := Nat.mod_two_eq_zero_or_one escapes
        · have hnone : ¬ (ch = '\\' ∧ 0 < escapes) := by
            rintro ⟨rfl, hpos⟩
            simp [heven, hpos] at hback
          cases hstring : endsString ch with
          | true =>
              have hor : ch = '\x07' ∨ ch = '\u009c' := by simpa [endsString] using hstring
              simp [scanned, Mode.state, Mode.shown, Mode.next, Escape.next, heven, hesc, hstring,
                hor]
          | false =>
              have hor : ¬ (ch = '\x07' ∨ ch = '\u009c') := by simpa [endsString] using hstring
              simp [scanned, Mode.state, Mode.shown, Mode.next, Escape.next, heven, hesc, hstring,
                hor, hnone]
        · have hstring : endsString ch = false := by
            simpa [hodd] using hends
          have hpos : 0 < escapes := by omega
          by_cases hslash : ch = '\\'
          · simp [scanned, Mode.state, Mode.shown, Mode.next, Escape.next, hodd, hslash, hpos]
          · simp [scanned, Mode.state, Mode.shown, Mode.next, Escape.next, hodd, hslash, hesc,
              hstring]

theorem scanned_string {mode : Mode × Nat} (h : mode.1 = .string) (ch : Char) (text : Text) :
    ∃ next, scanned (Mode.state mode) (ch :: text) = scanned next text := by
  rw [Mode.state, h]
  dsimp only
  split_ifs
  · exact ⟨_, rfl⟩
  · exact ⟨_, rfl⟩

theorem missed_mode {mode : Mode × Nat} (h : Mode.missed mode ch = true) : mode.1 = .string := by
  rw [Mode.missed, Bool.and_eq_true, beq_iff_eq] at h
  exact h.1

/-- Unless the scanner misses the end of a string, it lets through what is visible. -/
theorem scanned_eq {mode : Mode × Nat} (h : endsRight mode text = true) :
    scanned (Mode.state mode) text = visibleFrom mode text := by
  induction text generalizing mode with
  | nil => rw [visibleFrom_nil, scanned]
  | cons ch text ih =>
      rw [endsRight, Bool.and_eq_true, Bool.not_eq_true'] at h
      rw [scanned_cons h.1, visibleFrom_cons, ih h.2]

/-- Also with one more character, whose effect is not seen yet. -/
theorem scanned_concat {mode : Mode × Nat} (h : endsRight mode text = true) (last : Char) :
    scanned (Mode.state mode) (text ++ [last]) = visibleFrom mode (text ++ [last]) := by
  induction text generalizing mode with
  | nil =>
      rw [List.nil_append]
      cases hmissed : Mode.missed mode last with
      | false => exact scanned_eq (by rw [endsRight, hmissed]; rfl)
      | true =>
          have hmode := missed_mode hmissed
          obtain ⟨next, hnext⟩ := scanned_string hmode last []
          rw [hnext, visibleFrom_cons, visibleFrom_nil, Mode.shown, hmode]
          rfl
  | cons ch text ih =>
      rw [endsRight, Bool.and_eq_true, Bool.not_eq_true'] at h
      rw [List.cons_append, scanned_cons h.1, visibleFrom_cons, ih h.2]

/-- Behind an end that is missed a letter is visible, and the scanner does not let it through. -/
theorem missed_letter {mode : Mode × Nat} (h : Mode.missed mode ch = true) {letter : Char}
    (hletter : letter = 'a' ∨ letter = 'b') :
    scanned (Mode.state mode) [ch, letter] = [] ∧ visibleFrom mode [ch, letter] = [letter] := by
  obtain ⟨mode, escapes⟩ := mode
  obtain rfl := missed_mode h
  simp only [Mode.missed, beq_self_eq_true, Bool.true_and, Bool.or_eq_true, Bool.and_eq_true,
    beq_iff_eq, decide_eq_true_eq] at h
  have hplain : visibleFrom (.plain, 0) [letter] = [letter] := by
    obtain rfl | rfl := hletter
    · decide
    · decide
  have hinside : scanned .string [letter] = [] := by
    obtain rfl | rfl := hletter
    · decide
    · decide
  obtain ⟨⟨rfl, hpos⟩, heven⟩ | ⟨hends, hodd⟩ := h
  · constructor
    · rw [← hinside]
      simp [scanned, Mode.state, Escape.next, heven]
    · rw [visibleFrom_cons]
      simp [Mode.shown, Mode.next, hpos, hplain]
  · have hor : ch = '\x07' ∨ ch = '\u009c' := by simpa [endsString] using hends
    constructor
    · rw [← hinside]
      obtain rfl | rfl := hor
      · simp [scanned, Mode.state, Escape.next, hodd]
      · simp [scanned, Mode.state, Escape.next, hodd]
    · rw [visibleFrom_cons]
      obtain rfl | rfl := hor
      · simp [Mode.shown, Mode.next, hends, hplain]
      · simp [Mode.shown, Mode.next, hends, hplain]

theorem exists_missed {mode : Mode × Nat} (h : endsRight mode text = false) :
    ∃ start shown, start <+: text ∧ ∀ letter : Char, letter = 'a' ∨ letter = 'b' →
      scanned (Mode.state mode) (start ++ [letter]) = shown ∧
        visibleFrom mode (start ++ [letter]) = shown ++ [letter] := by
  induction text generalizing mode with
  | nil => cases h
  | cons ch text ih =>
      cases hmissed : Mode.missed mode ch with
      | true =>
          refine ⟨[ch], [], List.prefix_append [ch] text, ?_⟩
          intro letter hletter
          exact missed_letter hmissed hletter
      | false =>
          rw [endsRight, hmissed, Bool.not_false, Bool.true_and] at h
          obtain ⟨start, shown, hstart, hshown⟩ := ih h
          refine ⟨ch :: start, Mode.shown mode ch ++ shown, ?_, ?_⟩
          · exact List.prefix_cons_inj ch |>.mpr hstart
          · intro letter hletter
            obtain ⟨hscanned, hvisible⟩ := hshown letter hletter
            rw [List.cons_append, scanned_cons hmissed, visibleFrom_cons, hscanned, hvisible,
              List.append_assoc]
            exact ⟨rfl, rfl⟩

theorem endsRight_front {mode : Mode × Nat} {start : Text} (hstart : start <+: text)
    (h : endsRight mode text = true) : endsRight mode start = true := by
  induction start generalizing mode text with
  | nil => rfl
  | cons ch start ih =>
      obtain ⟨rest, rfl⟩ := hstart
      rw [List.cons_append, endsRight, Bool.and_eq_true] at h
      rw [endsRight, Bool.and_eq_true]
      exact ⟨h.1, ih (List.prefix_append start rest) h.2⟩

end Scanner

/-! ### The text of a preview -/

section Text

variable {text : Text}

theorem safeTail_iff (text shown : Text) :
    SafeTail text shown ↔ shown = lastFit Fits (visible .plain text) := by
  constructor
  · intro h
    have hle := h.longest _ (lastFit_suffix _) (fits_lastFit fits_monotone _)
    have hge := length_le_lastFit h.suffix h.fits
    exact (List.suffix_of_suffix_length_le h.suffix (lastFit_suffix _) hge).eq_of_length
      (Nat.le_antisymm hge hle)
  · rintro rfl
    exact ⟨lastFit_suffix _, fits_lastFit fits_monotone _, fun tail => length_le_lastFit⟩

/-- What was let through is let through again. -/
theorem scanned_plain (state : Escape) (text : Text) :
    ∀ ch ∈ scanned state text, Escape.none.next ch = none ∧ kept ch = true := by
  induction text generalizing state with
  | nil =>
      intro ch hch
      cases hch
  | cons first text ih =>
      intro ch hch
      rw [scanned] at hch
      cases hnext : state.next first with
      | some next =>
          rw [hnext] at hch
          exact ih next ch hch
      | none =>
          rw [hnext] at hch
          dsimp only at hch
          obtain hfirst | hrest := List.mem_append.mp hch
          · split at hfirst
            case isTrue hkept =>
              obtain rfl := List.mem_singleton.mp hfirst
              -- only outside of escape sequences does a character lead nowhere
              cases state with
              | none => exact ⟨hnext, hkept⟩
              | start => simp [Escape.next] at hnext
              | csi => simp [Escape.next] at hnext
              | string => simp [Escape.next] at hnext
              | stringEnd => simp [Escape.next] at hnext
            case isFalse => cases hfirst
          · exact ih state ch hrest

theorem scanned_self (h : ∀ ch ∈ text, Escape.none.next ch = none ∧ kept ch = true) :
    scanned .none text = text := by
  induction text with
  | nil => rfl
  | cons ch text ih =>
      obtain ⟨⟨hnext, hkept⟩, hrest⟩ := List.forall_mem_cons.mp h
      rw [scanned, hnext]
      dsimp only
      rw [hkept, if_pos rfl, ih hrest]
      rfl

theorem boundedText_again (text : Text) : boundedText (boundedText text) = boundedText text := by
  have hplain : ∀ ch ∈ boundedText text, Escape.none.next ch = none ∧ kept ch = true := by
    intro ch hch
    rw [boundedText_eq] at hch
    exact scanned_plain .none text ch ((lastFit_suffix _).mem hch)
  have hfits : Fits (boundedText text) := by
    rw [boundedText_eq]
    exact fits_lastFit fits_monotone _
  rw [boundedText_eq (boundedText text), scanned_self hplain, lastFit_of_fits hfits]

/-- Two texts, of which the second is the first with a letter that does not end the first, have
different longest tails. -/
theorem lastFit_letter {shown : Text} {letter : Char} (h : shown.getLast? ≠ some letter) :
    lastFit Fits shown ≠ lastFit Fits (shown ++ [letter]) := by
  intro heq
  have hne : lastFit Fits (shown ++ [letter]) ≠ [] := lastFit_ne_nil (fits_singleton letter)
  obtain ⟨front, hfront⟩ : lastFit Fits (shown ++ [letter]) <:+ shown ++ [letter] :=
    lastFit_suffix _
  obtain ⟨front', hfront'⟩ : lastFit Fits shown <:+ shown := lastFit_suffix _
  have hlast : (lastFit Fits (shown ++ [letter])).getLast? = some letter := by
    rw [← List.getLast?_append_of_ne_nil front hne, hfront, List.getLast?_concat]
  refine h ?_
  rw [← hfront', List.getLast?_append_of_ne_nil front' (heq ▸ hne), heq, hlast]

/-- The text of a preview.  No character is expected where there is none, and a text that is shown
again stays.  Where no end of a string program is missed, the text is the longest tail that fits of
what is visible; and so it is after every beginning of the text and a further character exactly if
no end is missed. -/
theorem preview_tail (text : Text) :
    boundedText? text = some (boundedText text) ∧
    boundedText (boundedText text) = boundedText text ∧
    (endsRight (.plain, 0) text = true → SafeTail text (boundedText text)) ∧
    (endsRight (.plain, 0) text = true ↔
      ∀ start ch, start <+: text →
        SafeTail (start ++ [ch]) (boundedText (start ++ [ch]))) := by
  refine ⟨boundedText?_eq text, boundedText_again text, ?_, ?_, ?_⟩
  · intro h
    rw [safeTail_iff, boundedText_eq]
    exact congrArg (lastFit Fits) (scanned_eq h)
  · intro h start ch hstart
    rw [safeTail_iff, boundedText_eq]
    exact congrArg (lastFit Fits) (scanned_concat (endsRight_front hstart h) ch)
  · intro h
    by_contra hmissed
    rw [Bool.not_eq_true] at hmissed
    obtain ⟨start, shown, hstart, hshown⟩ := exists_missed hmissed
    obtain ⟨letter, hletter, hlast⟩ : ∃ letter : Char, (letter = 'a' ∨ letter = 'b') ∧
        shown.getLast? ≠ some letter := by
      by_cases ha : shown.getLast? = some 'a'
      · exact ⟨'b', .inr rfl, by rw [ha]; decide⟩
      · exact ⟨'a', .inl rfl, ha⟩
    obtain ⟨hscanned, hvisible⟩ := hshown letter hletter
    have hsafe := (safeTail_iff _ _).mp (h start letter hstart)
    rw [boundedText_eq] at hsafe
    have heq : lastFit Fits shown = lastFit Fits (shown ++ [letter]) := by
      rw [← hvisible]
      exact (congrArg (lastFit Fits) hscanned).symm.trans hsafe
    exact lastFit_letter hlast heq

/-- A title that ends with an escape character before BEL takes the text behind it with it. -/
theorem preview_swallowed :
    ¬ ∀ text, SafeTail text (boundedText text) := by
  intro h
  have htitle := (safeTail_iff _ _).mp (h "\x1b]0;x\x1b\x07done".toList)
  revert htitle
  decide +kernel

end Text

end Pikamux.Preview

import Mathlib.Tactic.Common

/-!
# Support — ShellWords

The words of a simple command, as a POSIX shell reads them: blanks separate words, quotes and
backslashes are removed, and a character that asks for more than that ends the reading.

* `scan_append` — a command is the words of its parts.
* `singleQuoted` — a text as one word, in single quotes.
* `words_doubled` — where a command's backslashes are doubled, it is not the same command.
-/

namespace Support.ShellWords

/-- Where the reader is. -/
inductive Mode where
  /-- Between two words. -/
  | blank
  | plain
  /-- Behind a backslash. -/
  | escape
  | single
  | double
  | doubleEscape
  deriving DecidableEq, Repr

def isBlank (ch : Char) : Bool := ch = ' ' || ch = '\t'

/-- Operators, expansions and patterns; at the start of a word also comments and homes. -/
def isSpecial (mode : Mode) (ch : Char) : Bool :=
  ['|', '&', ';', '<', '>', '(', ')', '$', '\u0060', '*', '?', '[', '\n'].contains ch ||
    mode = .blank && ['#', '~'].contains ch

/-- What a character within double quotes stands for behind a backslash. -/
def doubleEscaped (ch : Char) : List Char :=
  if ['$', '\u0060', '"', '\\'].contains ch then [ch] else ['\\', ch]

/-- What a character does to the word that is read. -/
inductive Move where
  | skip
  /-- It adds to the word. -/
  | go (mode : Mode) (chars : List Char)
  /-- It ends the word. -/
  | finish

def move (mode : Mode) (ch : Char) : Option Move :=
  match mode with
  | .escape => if ch = '\n' then none else some (.go .plain [ch])
  | .single => some (if ch = '\'' then .go .plain [] else .go .single [ch])
  | .double =>
      if ch = '"' then some (.go .plain [])
      else if ch = '\\' then some (.go .doubleEscape [])
      else if ch = '$' || ch = '\u0060' then none
      else some (.go .double [ch])
  | .doubleEscape => if ch = '\n' then none else some (.go .double (doubleEscaped ch))
  | mode =>
      if isBlank ch then some (if mode = .blank then .skip else .finish)
      else if ch = '\'' then some (.go .single [])
      else if ch = '"' then some (.go .double [])
      else if ch = '\\' then some (.go .escape [])
      else if isSpecial mode ch then none
      else some (.go .plain [ch])

/-- The words of a text; `word` is what is read of the present one. -/
def scan (mode : Mode) (word : List Char) : List Char → Option (List (List Char))
  | [] =>
      match mode with
      | .blank => some []
      | .plain => some [word]
      | _ => none
  | ch :: rest =>
      match move mode ch with
      | none => none
      | some .skip => scan .blank [] rest
      | some (.go mode chars) => scan mode (word ++ chars) rest
      | some .finish => (scan .blank [] rest).map (word :: ·)

/-- The words of a command. -/
def words (text : List Char) : Option (List (List Char)) := scan .blank [] text

variable {mode : Mode} {word a b text : List Char} {ws ws' : List (List Char)}

/-- A blank between two commands that can be read: their words follow each other. -/
theorem scan_append (h : scan mode word a = some ws) (h' : words b = some ws') :
    scan mode word (a ++ ' ' :: b) = some (ws ++ ws') := by
  induction a generalizing mode word ws with
  | nil =>
      rw [words] at h'
      cases mode with
      | blank =>
          cases h
          simpa [scan, move, isBlank] using h'
      | plain =>
          cases h
          simp [scan, move, isBlank, h']
      | _ => cases h
  | cons ch a ih =>
      rw [List.cons_append]
      rw [scan] at h ⊢
      cases hmove : move mode ch with
      | none =>
          rw [hmove] at h
          cases h
      | some step =>
          rw [hmove] at h
          cases step with
          | skip => exact ih h
          | go mode chars => exact ih h
          | finish =>
              obtain ⟨rest, hrest, hws⟩ := Option.map_eq_some_iff.mp h
              simp only
              rw [ih hrest, ← hws]
              rfl

theorem words_append (h : words a = some ws) (h' : words b = some ws') :
    words (a ++ ' ' :: b) = some (ws ++ ws') := scan_append h h'

theorem move_break {next : Move} (h : move mode '\n' = some next) :
    ∃ mode', mode' ≠ .blank ∧ next = .go mode' ['\n'] := by
  cases mode with
  | escape => cases h
  | doubleEscape => cases h
  | single => exact ⟨.single, nofun, (Option.some.inj h).symm⟩
  | double => exact ⟨.double, nofun, (Option.some.inj h).symm⟩
  | blank => cases h
  | plain => cases h

theorem move_go {ch : Char} {mode' : Mode} {chars : List Char}
    (h : move mode ch = some (.go mode' chars)) : mode' ≠ .blank := by
  intro hblank
  subst hblank
  cases mode with
  | escape =>
      rw [move] at h
      split at h <;> cases h
  | doubleEscape =>
      rw [move] at h
      split at h <;> cases h
  | single =>
      have hgo := Option.some.inj h
      split at hgo <;> cases hgo
  | double => grind [move]
  | blank => grind [move]
  | plain => grind [move]

theorem blank_plain : Mode.blank ≠ .escape ∧ Mode.blank ≠ .doubleEscape := ⟨nofun, nofun⟩

/-- Only a backslash leads behind one. -/
theorem move_plain {ch : Char} {mode' : Mode} {chars : List Char}
    (hmode : mode ≠ .escape ∧ mode ≠ .doubleEscape) (hch : ch ≠ '\\')
    (h : move mode ch = some (.go mode' chars)) : mode' ≠ .escape ∧ mode' ≠ .doubleEscape := by
  cases mode with
  | escape => exact absurd rfl hmode.1
  | doubleEscape => exact absurd rfl hmode.2
  | single =>
      have hgo := Option.some.inj h
      split at hgo <;> cases hgo <;> exact ⟨nofun, nofun⟩
  | double => grind [move]
  | blank => grind [move]
  | plain => grind [move]

theorem move_skip {ch : Char} (h : move mode ch = some .skip) : mode = .blank := by
  cases mode with
  | blank => rfl
  | _ => grind [move]

/-- A line break is in one of the words, or the text is not read. -/
theorem break_mem (h : scan mode word text = some ws)
    (hbreak : '\n' ∈ text ∨ mode ≠ .blank ∧ '\n' ∈ word) : ∃ w ∈ ws, '\n' ∈ w := by
  induction text generalizing mode word ws with
  | nil =>
      have hword := hbreak.resolve_left List.not_mem_nil
      cases mode with
      | blank => exact absurd rfl hword.1
      | plain =>
          cases h
          exact ⟨word, List.mem_singleton_self _, hword.2⟩
      | _ => cases h
  | cons ch rest ih =>
      rw [scan] at h
      cases hmove : move mode ch with
      | none =>
          rw [hmove] at h
          cases h
      | some step =>
          rw [hmove] at h
          by_cases hch : ch = '\n'
          · rw [hch] at hmove
            obtain ⟨mode', hmode, rfl⟩ := move_break hmove
            exact ih h (.inr ⟨hmode, by simp⟩)
          · have hlater : '\n' ∈ rest ∨ mode ≠ .blank ∧ '\n' ∈ word := by
              simpa [Ne.symm hch] using hbreak
            cases step with
            | skip =>
                have hrest := hlater.resolve_right fun hword => hword.1 (move_skip hmove)
                exact ih h (.inl hrest)
            | go mode' chars =>
                rcases hlater with hrest | hword
                · exact ih h (.inl hrest)
                · exact ih h (.inr ⟨move_go hmove, List.mem_append_left _ hword.2⟩)
            | finish =>
                obtain ⟨ws', hws', rfl⟩ := Option.map_eq_some_iff.mp h
                rcases hlater with hrest | hword
                · obtain ⟨w, hw, hmem⟩ := ih hws' (.inl hrest)
                  exact ⟨w, List.mem_cons_of_mem _ hw, hmem⟩
                · exact ⟨word, List.mem_cons_self, hword.2⟩

/-- A text in single quotes, with those in it put between two such texts. -/
def singleQuoted (text : List Char) : List Char :=
  '\'' :: text.flatMap (fun ch => if ch = '\'' then ['\'', '\\', '\'', '\''] else [ch]) ++ ['\'']

theorem scan_quoted (text rest : List Char) (word : List Char) :
    scan .single word (text.flatMap (fun ch =>
      if ch = '\'' then ['\'', '\\', '\'', '\''] else [ch]) ++ rest) =
      scan .single (word ++ text) rest := by
  induction text generalizing word with
  | nil => simp
  | cons ch text ih =>
      rw [List.flatMap_cons, List.append_assoc]
      by_cases hquote : ch = '\''
      · rw [if_pos hquote]
        simp [scan, move, isBlank, ih, hquote]
      · rw [if_neg hquote]
        simp [scan, move, ih, hquote]

theorem words_singleQuoted (text : List Char) : words (singleQuoted text) = some [text] := by
  rw [words, singleQuoted, List.cons_append]
  have hopen : ∀ rest, scan .blank [] ('\'' :: rest) = scan .single [] rest := by
    intro rest
    simp [scan, move, isBlank]
  rw [hopen, scan_quoted]
  simp [scan, move]

/-! ### Doubled backslashes -/

/-- A text with each backslash twice. -/
def doubled (text : List Char) : List Char :=
  text.flatMap fun ch => if ch = '\\' then ['\\', '\\'] else [ch]

/-- A doubled backslash stands for one at least, outside quotes and within. -/
theorem count_doubled (hmode : mode ≠ .escape ∧ mode ≠ .doubleEscape)
    (hblank : mode = .blank → word = []) (h : scan mode word (doubled text) = some ws) :
    word.count '\\' + text.count '\\' ≤ ws.flatten.count '\\' := by
  induction text generalizing mode word ws with
  | nil =>
      cases mode with
      | blank =>
          cases h
          simp [hblank rfl]
      | plain =>
          cases h
          simp
      | _ => cases h
  | cons ch text ih =>
      rw [doubled, List.flatMap_cons, ← doubled] at h
      by_cases hch : ch = '\\'
      · -- both are read: the first leads to the second, or stands for itself
        rw [if_pos hch] at h
        rw [hch, List.count_cons_self]
        have hread : ∃ mode' chars, mode' ≠ .blank ∧ (mode' ≠ .escape ∧ mode' ≠ .doubleEscape) ∧
            1 ≤ chars.count '\\' ∧ scan mode' (word ++ chars) (doubled text) = some ws := by
          cases mode with
          | blank => exact ⟨.plain, ['\\'], nofun, ⟨nofun, nofun⟩, by simp, by
              simpa [scan, move, isBlank] using h⟩
          | plain => exact ⟨.plain, ['\\'], nofun, ⟨nofun, nofun⟩, by simp, by
              simpa [scan, move, isBlank] using h⟩
          | single => exact ⟨.single, ['\\', '\\'], nofun, ⟨nofun, nofun⟩, by simp, by
              simpa [scan, move] using h⟩
          | double => exact ⟨.double, ['\\'], nofun, ⟨nofun, nofun⟩, by simp, by
              simpa [scan, move, doubleEscaped] using h⟩
          | escape => exact absurd rfl hmode.1
          | doubleEscape => exact absurd rfl hmode.2
        obtain ⟨mode', chars, hnot, hmode', hcount, hscan⟩ := hread
        have hrest := ih hmode' (fun h => absurd h hnot) hscan
        rw [List.count_append] at hrest
        omega
      · rw [if_neg hch, List.singleton_append, scan] at h
        rw [List.count_cons_of_ne hch]
        cases hmove : move mode ch with
        | none =>
            rw [hmove] at h
            cases h
        | some step =>
            rw [hmove] at h
            cases step with
            | skip =>
                rw [hblank (move_skip hmove)]
                exact ih blank_plain (fun _ => rfl) h
            | go mode' chars =>
                have hrest := ih (move_plain hmode hch hmove)
                  (fun h => absurd h (move_go hmove)) h
                rw [List.count_append] at hrest
                omega
            | finish =>
                obtain ⟨ws', hws', rfl⟩ := Option.map_eq_some_iff.mp h
                have hrest := ih blank_plain (fun _ => rfl) hws'
                rw [List.flatten_cons, List.count_append]
                rw [List.count_nil] at hrest
                omega

theorem count_words_doubled (h : words (doubled text) = some ws) :
    text.count '\\' ≤ ws.flatten.count '\\' := by
  have hcount := count_doubled blank_plain (fun _ => rfl) h
  simpa using hcount

theorem doubled_of_not_mem (h : '\\' ∉ text) : doubled text = text := by
  induction text with
  | nil => rfl
  | cons ch text ih =>
      rw [List.mem_cons, not_or] at h
      rw [doubled, List.flatMap_cons, if_neg (Ne.symm h.1)]
      exact congrArg (ch :: ·) (ih h.2)

theorem length_doubled (text : List Char) :
    (doubled text).length = text.length + text.count '\\' := by
  induction text with
  | nil => rfl
  | cons ch text ih =>
      rw [doubled, List.flatMap_cons, List.length_append, ← doubled, ih]
      by_cases hch : ch = '\\'
      · simp [hch]
        omega
      · simp [hch]
        omega

theorem doubled_append : doubled (a ++ b) = doubled a ++ doubled b := List.flatMap_append

theorem count_singleQuoted (text : List Char) :
    (singleQuoted text).count '\\' = text.count '\\' + text.count '\'' := by
  have hinner : (text.flatMap fun ch =>
      if ch = '\'' then ['\'', '\\', '\'', '\''] else [ch]).count '\\' =
        text.count '\\' + text.count '\'' := by
    induction text with
    | nil => rfl
    | cons ch text ih =>
        rw [List.flatMap_cons, List.count_append, ih]
        by_cases hquote : ch = '\''
        · simp [hquote]
          omega
        · by_cases hch : ch = '\\'
          · simp [hch]
            omega
          · simp [hquote, hch]
  simp [singleQuoted, List.count_append, hinner]

theorem singleQuoted_of_not_mem (h : '\'' ∉ text) :
    singleQuoted text = '\'' :: (text ++ ['\'']) := by
  have hinner : (text.flatMap fun ch =>
      if ch = '\'' then ['\'', '\\', '\'', '\''] else [ch]) = text := by
    induction text with
    | nil => rfl
    | cons ch text ih =>
        rw [List.mem_cons, not_or] at h
        rw [List.flatMap_cons, if_neg (Ne.symm h.1), ih h.2]
        rfl
  rw [singleQuoted, hinner]
  rfl

/-- A quoted text stays the first word of a command only if it has no backslash to double. -/
theorem words_doubled {last : List Char} (hb : words b = some [last]) (hplain : '\\' ∉ b)
    (hlast : '\\' ∉ last)
    (h : words (doubled (singleQuoted text ++ ' ' :: b)) = some [text, last]) :
    '\\' ∉ singleQuoted text := by
  have hcount := count_words_doubled h
  have hspace : '\\' ∉ ' ' :: b := by simpa using hplain
  have hwords : [text, last].flatten.count '\\' = text.count '\\' := by
    simp [List.count_eq_zero_of_not_mem hlast]
  rw [List.count_append, count_singleQuoted, List.count_eq_zero_of_not_mem hspace, hwords] at hcount
  -- an apostrophe would bring a backslash of its own
  have happos : '\'' ∉ text := List.count_eq_zero.mp (by omega)
  have happos' : '\'' ∉ doubled text := by
    intro hmem
    obtain ⟨ch, hch, hmem⟩ := List.mem_flatMap.mp hmem
    split at hmem
    · simp at hmem
    · exact happos (List.mem_singleton.mp hmem ▸ hch)
  have hdoubled : doubled (singleQuoted text ++ ' ' :: b) =
      singleQuoted (doubled text) ++ ' ' :: b := by
    rw [doubled_append, doubled_of_not_mem hspace, singleQuoted_of_not_mem happos,
      singleQuoted_of_not_mem happos']
    simp [doubled]
  rw [hdoubled, words_append (words_singleQuoted _) hb] at h
  have htext : doubled text = text := List.head_eq_of_cons_eq (Option.some.inj h)
  have hlength := length_doubled text
  rw [htext] at hlength
  rw [← List.count_eq_zero, count_singleQuoted, List.count_eq_zero_of_not_mem happos]
  omega

end Support.ShellWords

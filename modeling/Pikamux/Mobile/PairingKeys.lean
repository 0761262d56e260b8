import Mathlib.Data.List.Infix
import Pikamux.Mobile.Transport
import Pikamux.Support.ShellWords

/-!
# Mobile — PairingKeys

Pairing grants one key: under the lock of the authorization file one line is added to it, unless it
is there already, and a key that is there in another line is refused.

* `Step` — one step of a run of `authorize`, which may fail or stop after any of them.
* `sshd` — what the SSH service reads of a line, and `words` what a shell makes of the command.
* `granted` — what all runs together leave in the file, and when a run that ends well has granted
  what it should; `apostrophe_misread` has an executable for which it has not.
-/

namespace Pikamux.Mobile.PairingKeys

open Support Transport

/-! ### Keys and lines -/

/-- `char::is_control` -/
def isControl (ch : Char) : Bool := ch.toNat < 32 || 127 ≤ ch.toNat && ch.toNat < 160

/-- The algorithm and the length of the key, as the wire has them. -/
def wireHeader : List UInt8 :=
  [0, 0, 0, 11, 115, 115, 104, 45, 101, 100, 50, 53, 53, 49, 57, 0, 0, 0, 32]

/-- `ssh-ed25519` -/
def algorithm : Text := ['s', 's', 'h', '-', 'e', 'd', '2', '5', '5', '1', '9']

/-- `str::replace`, of a character. -/
def replace (ch : Char) (by_ : Text) (text : Text) : Text :=
  text.flatMap fun other => if other = ch then by_ else [other]

/-- `trim_end` -/
def trimEnd (text : Text) : Text := (text.reverse.dropWhile Channel.isWhitespace).reverse

/-- `restrict` -/
def restrict : Text := ['r', 'e', 's', 't', 'r', 'i', 'c', 't']

/-- `command` -/
def forced : Text := ['c', 'o', 'm', 'm', 'a', 'n', 'd']

/-- `_mobile` -/
def argument : Text := ['_', 'm', 'o', 'b', 'i', 'l', 'e']

/-- `pika-phone` -/
def comment : Text := ['p', 'i', 'k', 'a', '-', 'p', 'h', 'o', 'n', 'e']

section Functions

variable (decode : Text → Option (List UInt8)) (encode : List UInt8 → Text) (quote : Text → Text)

/-- `public_key`; `decode` and `encode` are those of base64. -/
def publicKey (value : Text) : Except String Text :=
  if 100 < (String.ofList value).utf8ByteSize || value.any isControl then
    .error "A canonical Ed25519 public key is required"
  else
    match value.splitOn ' ' with
    | [name, encoded] =>
        if name ≠ algorithm then .error "Only a dedicated Ed25519 public key can be paired"
        else
          match decode encoded with
          | none => .error "Invalid SSH public key encoding"
          | some bytes =>
              if bytes.length ≠ 51 || !wireHeader.isPrefixOf bytes || encode bytes ≠ encoded then
                .error "Invalid Ed25519 SSH wire key"
              else .ok value
    | _ => .error "Only a dedicated Ed25519 public key can be paired"

/-- The command that the grant forces; `quote` is `shell_words::quote`. -/
def command (executable : Text) : Text := quote executable ++ ' ' :: argument

/-- `grant_line`, without its end. -/
def grantLine (executable key : Text) : Text :=
  restrict ++ ',' :: (forced ++ '=' :: '"' ::
    (replace '"' ['\\', '"'] (replace '\\' ['\\', '\\'] (command quote executable)) ++
      '"' :: ' ' :: (key ++ ' ' :: comment)))

/-- `grant_line` -/
def grantLineEnd (executable key : Text) : Text := grantLine quote executable key ++ ['\n']

/-- The second field of a key. -/
def encodedOf (key : Text) : Text := (key.splitOn ' ').getD 1 []

/-- The lines that name a key. -/
def Names (key line : Text) : Prop := encodedOf key ∈ words line

instance (key line : Text) : Decidable (Names key line) :=
  inferInstanceAs (Decidable (_ ∈ _))

/-- `existing_grant` -/
def existingGrant (before line key : Text) : Except String Bool :=
  if (lines before).any (· = trimEnd line) then .ok true
  else if (lines before).any fun existing => Names key existing then
    .error "This key is already authorized differently; no existing grant was changed"
  else .ok false

/-- `read_authorizations`, of a file that is text. -/
def readAuthorizations (file : Text) (cut : Bool) : Except String Text :=
  if 1024 * 1024 < (String.ofList file).utf8ByteSize then
    .error "SSH authorization file is too large to safely inspect"
  else if cut then .error "stream did not contain valid UTF-8"
  else .ok file

/-- What `append_grant` puts before the line. -/
def separator (before : Text) : Text :=
  if before = [] ∨ before.getLast? = some '\n' then [] else ['\n']

/-- What `append_grant` adds. -/
def addition (before executable key : Text) : Text :=
  separator before ++ grantLineEnd quote executable key

/-! ### Runs -/

inductive Stage where
  /-- The file is locked. -/
  | locked
  /-- The line is to be added. -/
  | absent
  | written
  deriving DecidableEq

/-- A run of `authorize` that has the lock. -/
structure Job where
  executable : Text
  key : Text
  /-- The file when it was locked. -/
  found : Text
  added : Text
  stage : Stage

/-- A run that has ended. -/
structure Ended where
  executable : Text
  key : Text
  found : Text
  added : Text
  /-- The append was begun. -/
  wrote : Bool
  result : Except String Unit

structure Account where
  file : Text
  /-- The file ends within a character. -/
  cut : Bool
  holder : Option Job
  ended : List Ended

def Job.finish (job : Job) (added : Text) (wrote : Bool) (result : Except String Unit) : Ended :=
  ⟨job.executable, job.key, job.found, added, wrote, result⟩

/-- The run ends, and gives the lock back. -/
def Account.finish (s : Account) (job : Job) (result : Except String Unit) : Account :=
  { s with
    holder := none
    ended := s.ended ++ [job.finish job.added (job.stage = .written) result] }

/-- An executable path that is absolute and has no control characters. -/
def Executable (path : Text) : Prop := path.head? = some '/' ∧ path.all (fun ch => !isControl ch)

/-- A step of a run. -/
inductive Step (s : Account) : Account → Prop where
  /-- The lock is not taken: a key that is refused, a deadline, a check of the file. -/
  | refused (executable key : Text) (message : String) :
      Step s { s with
        ended := s.ended ++ [⟨executable, key, s.file, [], false, .error message⟩] }
  | lock (executable value key : Text) (valid : publicKey decode encode value = .ok key)
      (path : Executable executable) (free : s.holder = none) :
      Step s { s with holder := some ⟨executable, key, s.file, [], .locked⟩ }
  /-- Any later check, or the end of the process. -/
  | failed (job : Job) (held : s.holder = some job) (message : String) :
      Step s (s.finish job (.error message))
  | unread (job : Job) (held : s.holder = some job) (locked : job.stage = .locked)
      (message : String) (unread : readAuthorizations s.file s.cut = .error message) :
      Step s (s.finish job (.error message))
  | present (job : Job) (held : s.holder = some job) (locked : job.stage = .locked)
      (before : Text) (read : readAuthorizations s.file s.cut = .ok before)
      (present : existingGrant before (grantLineEnd quote job.executable job.key) job.key =
        .ok true) :
      Step s (s.finish job (.ok ()))
  | different (job : Job) (held : s.holder = some job) (locked : job.stage = .locked)
      (before : Text) (message : String) (read : readAuthorizations s.file s.cut = .ok before)
      (different : existingGrant before (grantLineEnd quote job.executable job.key) job.key =
        .error message) :
      Step s (s.finish job (.error message))
  | absent (job : Job) (held : s.holder = some job) (locked : job.stage = .locked)
      (before : Text) (read : readAuthorizations s.file s.cut = .ok before)
      (absent : existingGrant before (grantLineEnd quote job.executable job.key) job.key =
        .ok false) :
      Step s { s with holder := some { job with stage := .absent } }
  | write (job : Job) (held : s.holder = some job) (absent : job.stage = .absent) :
      Step s { s with
        file := s.file ++ addition quote job.found job.executable job.key
        holder := some { job with
          stage := .written, added := addition quote job.found job.executable job.key } }
  /-- Not all is written. -/
  | torn (job : Job) (held : s.holder = some job) (absent : job.stage = .absent) (part : Text)
      (cut : Bool) (message : String)
      (torn : part <+: addition quote job.found job.executable job.key) :
      Step s { s with
        file := s.file ++ part
        cut
        holder := none
        ended := s.ended ++ [job.finish part true (.error message)] }
  | written (job : Job) (held : s.holder = some job) (written : job.stage = .written) :
      Step s (s.finish job (.ok ()))

inductive Run (file : Text) : Account → Prop where
  | start : Run file ⟨file, false, none, []⟩
  | step (s after : Account) (run : Run file s) (step : Step decode encode quote s after) :
      Run file after

end Functions

/-! ### What reads a line -/

/-- The value of an option up to its quote, and what follows: a backslash before a quote is removed,
and every other backslash is literal. -/
def dequote : Text → Option (Text × Text)
  | [] => none
  | [ch] => if ch = '"' then some ([], []) else none
  | ch :: next :: rest =>
      if ch = '"' then some ([], next :: rest)
      else if ch = '\\' ∧ next = '"' then
        (dequote rest).map fun cut => ('"' :: cut.1, cut.2)
      else (dequote (next :: rest)).map fun cut => (ch :: cut.1, cut.2)

def isOptionChar (ch : Char) : Bool := ch.isAlphanum || ch = '-'

/-- The options of a line, and what follows them. -/
def readOptions : Nat → Text → Option (List (Text × Option Text) × Text)
  | 0, _ => none
  | turns + 1, text =>
      let name := text.takeWhile isOptionChar
      let option : Option ((Text × Option Text) × Text) :=
        match text.dropWhile isOptionChar with
        | '=' :: '"' :: rest => (dequote rest).map fun cut => ((name, some cut.1), cut.2)
        | rest => some ((name, none), rest)
      match option with
      | some (option, ',' :: rest) =>
          (readOptions turns rest).map fun read => (option :: read.1, read.2)
      | some (option, ' ' :: rest) => some ([option], rest)
      | _ => none

/-- What the SSH service reads of a line: the options, and the key with its comment. -/
def sshd (line : Text) : Option (List (Text × Option Text) × Text) :=
  readOptions line.length line

/-- The line restricts the key, and forces a command of exactly these words. -/
def Forces (line key : Text) (arguments : List Text) : Prop :=
  ∃ command, sshd line = some ([(restrict, none), (forced, some command)],
    key ++ ' ' :: comment) ∧ ShellWords.words command = some arguments

/-! ### Lines of a file that grows -/

section Growth

variable {found part line gl key : Text} {ps : List Text} {t : Text}

theorem lines_joined (hps : ∀ p ∈ ps, '\n' ∉ p) (ht : '\n' ∉ t) :
    lines (joined '\n' ps ++ t) = ps.map stripReturn ++ if t.isEmpty then [] else [t] := by
  obtain ⟨hcomplete, hunfinished⟩ := complete_joined hps ht
  rw [lines, hcomplete, hunfinished]

theorem separator_joined (hps : ∀ p ∈ ps, '\n' ∉ p) (ht : '\n' ∉ t) :
    separator (joined '\n' ps ++ t) = if t = [] then [] else ['\n'] := by
  by_cases hend : t = []
  · rw [if_pos hend, hend, List.append_nil, separator]
    rcases List.eq_nil_or_concat ps with rfl | ⟨ps, p, rfl⟩
    · rfl
    · rw [if_pos]
      right
      rw [List.concat_eq_append, joined_append, joined_cons, joined_nil, ← List.append_assoc,
        List.getLast?_concat]
  · rw [if_neg hend, separator, if_neg]
    intro h
    rcases h with h | h
    · exact hend (List.append_eq_nil_iff.mp h).2
    · rw [List.getLast?_append_of_ne_nil _ hend] at h
      exact ht (List.mem_of_getLast? h)

/-- What is added begins a new line. -/
def Begins (found part : Text) : Prop :=
  part = [] ∨ (∃ ps, (∀ p ∈ ps, '\n' ∉ p) ∧ found = joined '\n' ps) ∨ part.head? = some '\n'

theorem prefix_begins {rest : Text} (h : part <+: separator found ++ rest) :
    Begins found part := by
  obtain ⟨ps, t, rfl, hps, ht⟩ := exists_joined '\n' found
  rw [separator_joined hps ht] at h
  by_cases hend : t = []
  · exact .inr (.inl ⟨ps, hps, by rw [hend, List.append_nil]⟩)
  · rw [if_neg hend] at h
    match part with
    | [] => exact .inl rfl
    | ch :: part =>
        obtain ⟨more, hmore⟩ := h
        cases hmore
        exact .inr (.inr rfl)

/-- A line that is there stays there. -/
theorem mem_lines_append (h : line ∈ lines found) (hreturn : stripReturn line = line)
    (hbegins : Begins found part) : line ∈ lines (found ++ part) := by
  obtain ⟨ps, t, rfl, hps, ht⟩ := exists_joined '\n' found
  have hcomplete : ∀ qs : List Text, (∀ q ∈ qs, '\n' ∉ q) → ∀ rest,
      line ∈ qs.map stripReturn → line ∈ lines (joined '\n' qs ++ rest) := by
    intro qs hqs rest hmem
    obtain ⟨rs, u, rfl, hrs, hu⟩ := exists_joined '\n' rest
    rw [← List.append_assoc, ← joined_append, lines_joined _ hu, List.map_append]
    · exact List.mem_append_left _ (List.mem_append_left _ hmem)
    · exact List.forall_mem_append.mpr ⟨hqs, hrs⟩
  rw [lines_joined hps ht] at h
  rcases List.mem_append.mp h with h | h
  · rw [List.append_assoc]
    exact hcomplete ps hps _ h
  · -- the last line, which no line break ends
    have hline : line = t ∧ t ≠ [] := by
      cases t with
      | nil => cases h
      | cons ch t => exact ⟨List.mem_singleton.mp h, List.cons_ne_nil _ _⟩
    rcases hbegins with rfl | ⟨qs, hqs, hfound⟩ | hhead
    · rw [List.append_nil, lines_joined hps ht]
      exact List.mem_append_right _ h
    · have hlast := (complete_joined hps ht).2
      rw [hfound, ← List.append_nil (joined '\n' qs),
        (complete_joined hqs List.not_mem_nil).2] at hlast
      exact absurd hlast.symm hline.2
    · match part with
      | [] => cases hhead
      | ch :: part =>
          cases hhead
          have hjoined : joined '\n' ps ++ t ++ '\n' :: part =
              joined '\n' (ps ++ [t]) ++ part := by
            simp [joined_append, joined_cons]
          rw [hjoined]
          refine hcomplete _ ?_ _ ?_
          · exact List.forall_mem_append.mpr ⟨hps, by simpa using ht⟩
          · rw [List.map_append]
            exact List.mem_append_right _ (by simp [← hline.1, hreturn])

/-- The lines of a file to which one was added. -/
theorem lines_addition (hgl : '\n' ∉ gl) (hreturn : stripReturn gl = gl) :
    gl ∈ lines (found ++ (separator found ++ (gl ++ ['\n']))) ∧
    ∀ line ∈ lines (found ++ (separator found ++ (gl ++ ['\n']))),
      line = gl ∨ line ∈ lines found ∨ ∃ old ∈ lines found, line = stripReturn old := by
  obtain ⟨ps, t, rfl, hps, ht⟩ := exists_joined '\n' found
  rw [separator_joined hps ht, lines_joined hps ht]
  have hlines : ∀ qs : List Text, (∀ q ∈ qs, '\n' ∉ q) →
      lines (joined '\n' qs) = qs.map stripReturn := by
    intro qs hqs
    rw [← List.append_nil (joined '\n' qs), lines_joined hqs List.not_mem_nil]
    exact List.append_nil _
  by_cases hend : t = []
  · have hjoined : joined '\n' ps ++ t ++ ((if t = [] then [] else ['\n']) ++ (gl ++ ['\n'])) =
        joined '\n' (ps ++ [gl]) := by
      simp [hend, joined_append, joined_cons]
    rw [hjoined, hlines _ (List.forall_mem_append.mpr ⟨hps, by simpa using hgl⟩), List.map_append]
    refine ⟨List.mem_append_right _ (by simp [hreturn]), ?_⟩
    intro line hline
    rcases List.mem_append.mp hline with hline | hline
    · exact .inr (.inl (List.mem_append_left _ hline))
    · exact .inl (by simpa [hreturn] using hline)
  · have hjoined : joined '\n' ps ++ t ++ ((if t = [] then [] else ['\n']) ++ (gl ++ ['\n'])) =
        joined '\n' (ps ++ [t, gl]) := by
      simp [hend, joined_append, joined_cons]
    have hfree : ∀ q ∈ ps ++ [t, gl], '\n' ∉ q :=
      List.forall_mem_append.mpr ⟨hps, by simpa using ⟨ht, hgl⟩⟩
    rw [hjoined, hlines _ hfree, List.map_append]
    refine ⟨List.mem_append_right _ (by simp [hreturn]), ?_⟩
    intro line hline
    rcases List.mem_append.mp hline with hline | hline
    · exact .inr (.inl (List.mem_append_left _ hline))
    · have hnew : line = stripReturn t ∨ line = gl := by simpa [hreturn] using hline
      rcases hnew with hnew | hnew
      · exact .inr (.inr ⟨t, List.mem_append_right _ (by simp [hend]), hnew⟩)
      · exact .inl hnew

/-- A return at the end of a line is no part of a field. -/
theorem words_stripReturn (line : Text) : words (stripReturn line) = words line := by
  rw [stripReturn]
  split
  · next hlast =>
      obtain ⟨start, rfl⟩ := List.getLast?_eq_some_iff.mp hlast
      rw [List.dropLast_concat, words, words,
        List.splitOnP_append_cons start [] (show Channel.isWhitespace '\r' = true by decide)]
      simp
  · rfl

/-- A key that no line of a file names is named in the added line only. -/
theorem names_addition (hgl : '\n' ∉ gl) (hreturn : stripReturn gl = gl)
    (hnone : ∀ line ∈ lines found, ¬Names key line) :
    ∀ line ∈ lines (found ++ (separator found ++ (gl ++ ['\n']))), Names key line → line = gl := by
  intro line hline hnames
  rcases (lines_addition hgl hreturn).2 line hline with heq | hold | ⟨old, hold, rfl⟩
  · exact heq
  · exact absurd hnames (hnone line hold)
  · rw [Names, words_stripReturn] at hnames
    exact absurd hnames (hnone old hold)

end Growth

/-! ### The line -/

section Line

variable {quote : Text → Text} {executable key rest text : Text}

theorem mem_replace {ch other : Char} {by_ : Text} (h : other ∈ replace ch by_ text) :
    other ∈ text ∨ other ∈ by_ := by
  obtain ⟨from_, hfrom, hmem⟩ := List.mem_flatMap.mp h
  split at hmem
  · exact .inr hmem
  · exact .inl (List.mem_singleton.mp hmem ▸ hfrom)

/-- The quoted path has no line break. -/
theorem break_quote (hquote : ShellWords.words (quote executable) = some [executable])
    (hpath : Executable executable) : '\n' ∉ quote executable := by
  intro hmem
  obtain ⟨w, hw, hbreak⟩ := ShellWords.break_mem hquote (.inl hmem)
  rw [List.mem_singleton.mp hw] at hbreak
  have hcontrol := List.all_eq_true.mp hpath.2 _ hbreak
  exact absurd hcontrol (by decide)

theorem break_grantLine (hquote : '\n' ∉ quote executable) (hkey : '\n' ∉ key) :
    '\n' ∉ grantLine quote executable key := by
  have hcommand : '\n' ∉ command quote executable := by
    simpa [command, argument] using hquote
  have hescaped : '\n' ∉ replace '"' ['\\', '"']
      (replace '\\' ['\\', '\\'] (command quote executable)) := by
    intro hmem
    rcases mem_replace hmem with hmem | hmem
    · rcases mem_replace hmem with hmem | hmem
      · exact hcommand hmem
      · exact absurd hmem (by decide)
    · exact absurd hmem (by decide)
  simp [grantLine, restrict, forced, comment, hescaped, hkey]

theorem getLast_grantLine : ∃ start, grantLine quote executable key = start ++ ['e'] := by
  refine ⟨restrict ++ ',' :: (forced ++ '=' :: '"' ::
    (replace '"' ['\\', '"'] (replace '\\' ['\\', '\\'] (command quote executable)) ++
      '"' :: ' ' :: (key ++ ' ' :: comment.dropLast))), ?_⟩
  simp [grantLine, comment]

theorem stripReturn_grantLine :
    stripReturn (grantLine quote executable key) = grantLine quote executable key := by
  obtain ⟨start, hstart⟩ := @getLast_grantLine quote executable key
  rw [hstart, stripReturn, List.getLast?_concat, if_neg (by decide)]

theorem trimEnd_grantLine :
    trimEnd (grantLineEnd quote executable key) = grantLine quote executable key := by
  obtain ⟨start, hstart⟩ := @getLast_grantLine quote executable key
  rw [grantLineEnd, trimEnd, hstart]
  have hbreak : Channel.isWhitespace '\n' = true := by decide
  have hlast : Channel.isWhitespace 'e' = false := by decide
  simp [hbreak, hlast]

/-- What an escaped text stands for, where a backslash before a quote is removed and every other one
is literal: the text. -/
theorem dequote_replace (h : text.getLast? ≠ some '\\') (rest : Text) :
    dequote (replace '"' ['\\', '"'] text ++ '"' :: rest) = some (text, rest) := by
  induction text with
  | nil => cases rest <;> rfl
  | cons ch text ih =>
      have hlast : text.getLast? ≠ some '\\' := by
        intro hlast
        rw [List.getLast?_cons, hlast] at h
        exact h rfl
      have htail := ih hlast
      rw [replace, List.flatMap_cons]
      by_cases hquote : ch = '"'
      · rw [if_pos hquote]
        show dequote ('\\' :: '"' :: (replace '"' ['\\', '"'] text ++ '"' :: rest)) = _
        rw [dequote, if_neg (by decide), if_pos ⟨rfl, rfl⟩, htail, hquote]
        rfl
      · rw [if_neg hquote]
        show dequote (ch :: (replace '"' ['\\', '"'] text ++ '"' :: rest)) = _
        match hmore : replace '"' ['\\', '"'] text ++ '"' :: rest with
        | [] => simp at hmore
        | next :: more =>
            -- a quote of the text has a backslash before it, and the text does not end in one
            have hliteral : ¬(ch = '\\' ∧ next = '"') := by
              rintro ⟨rfl, rfl⟩
              cases text with
              | nil => exact h rfl
              | cons first text =>
                  rw [replace, List.flatMap_cons] at hmore
                  by_cases hfirst : first = '"'
                  · rw [if_pos hfirst] at hmore
                    simp at hmore
                  · rw [if_neg hfirst] at hmore
                    exact hfirst (List.head_eq_of_cons_eq hmore)
            rw [dequote, if_neg hquote, if_neg hliteral, ← hmore, htail]
            rfl

theorem option_name {name : Text} {ch : Char} (hname : name.all isOptionChar = true)
    (hch : isOptionChar ch = false) (rest : Text) :
    (name ++ ch :: rest).takeWhile isOptionChar = name ∧
      (name ++ ch :: rest).dropWhile isOptionChar = ch :: rest := by
  induction name with
  | nil => simp [hch]
  | cons first name ih =>
      rw [List.all_cons, Bool.and_eq_true] at hname
      obtain ⟨htake, hdrop⟩ := ih hname.2
      rw [List.cons_append, List.takeWhile_cons, List.dropWhile_cons, if_pos hname.1,
        if_pos hname.1, htake, hdrop]
      exact ⟨rfl, rfl⟩

theorem doubled_command : ShellWords.doubled (command quote executable) =
    ShellWords.doubled (quote executable) ++ ' ' :: argument := by
  rw [command, ShellWords.doubled_append]
  rfl

/-- What sshd reads of the line is the command with its backslashes doubled. -/
theorem sshd_grantLine : sshd (grantLine quote executable key) =
    some ([(restrict, none), (forced, some (ShellWords.doubled (command quote executable)))],
      key ++ ' ' :: comment) := by
  obtain ⟨turns, hturns⟩ : ∃ turns, (grantLine quote executable key).length = turns + 2 :=
    ⟨(grantLine quote executable key).length - 2, by simp [grantLine, restrict]⟩
  have hlast : (ShellWords.doubled (command quote executable)).getLast? ≠ some '\\' := by
    simp [doubled_command, argument]
  have hvalue := dequote_replace hlast (' ' :: (key ++ ' ' :: comment))
  rw [sshd, hturns, grantLine]
  show readOptions _ (restrict ++ ',' :: (forced ++ '=' :: '"' ::
    (replace '"' ['\\', '"'] (ShellWords.doubled (command quote executable)) ++
      '"' :: ' ' :: (key ++ ' ' :: comment)))) = _
  generalize replace '"' ['\\', '"'] (ShellWords.doubled (command quote executable)) ++
    '"' :: ' ' :: (key ++ ' ' :: comment) = rest at hvalue ⊢
  obtain ⟨htake, hdrop⟩ := option_name (show restrict.all isOptionChar = true by decide)
    (show isOptionChar ',' = false by decide) (forced ++ '=' :: '"' :: rest)
  obtain ⟨htake', hdrop'⟩ := option_name (show forced.all isOptionChar = true by decide)
    (show isOptionChar '=' = false by decide) ('"' :: rest)
  have hoption : readOptions (turns + 1) (forced ++ '=' :: '"' :: rest) =
      some ([(forced, some (ShellWords.doubled (command quote executable)))],
        key ++ ' ' :: comment) := by
    rw [readOptions]
    simp only [htake', hdrop', hvalue]
    rfl
  rw [readOptions]
  simp only [htake, hdrop]
  show (readOptions (turns + 1) (forced ++ '=' :: '"' :: rest)).map _ = _
  rw [hoption]
  rfl

/-- And it forces the executable with its argument where there is no backslash to double. -/
theorem forces_grantLine (hquote : ShellWords.words (quote executable) = some [executable])
    (hform : quote executable = executable ∧ '\\' ∉ executable ∨
      quote executable = ShellWords.singleQuoted executable) :
    Forces (grantLine quote executable key) key [executable, argument] ↔
      '\\' ∉ quote executable := by
  constructor
  · rintro ⟨forcedCommand, hsshd, hwords⟩
    rw [sshd_grantLine] at hsshd
    cases hsshd
    rcases hform with ⟨hsame, hplain⟩ | hsingle
    · rwa [hsame]
    · rw [command, hsingle] at hwords
      rw [hsingle]
      exact ShellWords.words_doubled (by rfl) (by decide) (by decide) hwords
  · intro hplain
    refine ⟨_, sshd_grantLine, ?_⟩
    rw [doubled_command, ShellWords.doubled_of_not_mem hplain]
    exact ShellWords.words_append hquote (by rfl)

end Line

/-! ### What runs keep -/

section Runs

variable {decode : Text → Option (List UInt8)} {encode : List UInt8 → Text}
  {quote : Text → Text} {file : Text} {s after : Account} {job : Job} {e : Ended}

/-- The line that a run grants. -/
def Ended.line (quote : Text → Text) (e : Ended) : Text := grantLine quote e.executable e.key

def Job.line (quote : Text → Text) (job : Job) : Text := grantLine quote job.executable job.key

/-- The key is in no line of the file. -/
def Absent (found line key : Text) : Prop :=
  line ∉ lines found ∧ ∀ other ∈ lines found, ¬Names key other

/-- The line has its own end only. -/
def Whole (line : Text) : Prop := '\n' ∉ line ∧ stripReturn line = line

/-- What a run has found and added. -/
structure Settled (quote : Text → Text) (e : Ended) : Prop where
  part : e.added <+: addition quote e.found e.executable e.key
  absent : e.added ≠ [] → Absent e.found (e.line quote) e.key
  unwritten : e.wrote = false → e.added = []
  granted : e.result = .ok () → Whole (e.line quote) ∧ Executable e.executable ∧
    ((e.line quote ∈ lines e.found ∧ e.added = []) ∨
      Absent e.found (e.line quote) e.key ∧
        e.added = addition quote e.found e.executable e.key)

/-- What the run that has the lock has found and added. -/
structure Held (quote : Text → Text) (s : Account) (job : Job) : Prop where
  file : s.file = job.found ++ job.added
  whole : Whole (job.line quote)
  path : Executable job.executable
  before : job.stage ≠ .written → job.added = []
  absent : job.stage ≠ .locked → Absent job.found (job.line quote) job.key
  written : job.stage = .written → job.added = addition quote job.found job.executable job.key
  kept : ∀ e ∈ s.ended, e.result = .ok () → e.line quote ∈ lines job.found

/-- A line that was granted is not added again. -/
def Once (quote : Text → Text) (e later : Ended) : Prop :=
  e.result = .ok () → e.line quote = later.line quote → later.added = []

structure Inv (quote : Text → Text) (file : Text) (s : Account) : Prop where
  file : s.file = file ++ s.ended.flatMap Ended.added ++ s.holder.elim [] Job.added
  held : ∀ job, s.holder = some job → Held quote s job
  settled : ∀ e ∈ s.ended, Settled quote e
  once : s.ended.Pairwise (Once quote)
  kept : ∀ e ∈ s.ended, e.result = .ok () → e.line quote ∈ lines s.file

theorem Inv.start : Inv quote file ⟨file, false, none, []⟩ where
  file := by simp
  held := nofun
  settled := nofun
  once := List.Pairwise.nil
  kept := nofun

/-- The holder of the lock ends. -/
theorem Inv.ends (h : Inv quote file s) (held : s.holder = some job) (added more : Text)
    (wrote : Bool) (result : Except String Unit) (hadded : added = job.added ++ more)
    (hpart : added <+: addition quote job.found job.executable job.key)
    (habsent : added ≠ [] → Absent job.found (job.line quote) job.key)
    (hwrote : wrote = false → added = [])
    (hgranted : result = .ok () → (job.line quote ∈ lines job.found ∧ added = []) ∨
      Absent job.found (job.line quote) job.key ∧
        added = addition quote job.found job.executable job.key) (cut : Bool) :
    Inv quote file { s with
      file := s.file ++ more
      cut
      holder := none
      ended := s.ended ++ [job.finish added wrote result] } := by
  have hjob := h.held job held
  have hfile : s.file ++ more = job.found ++ added := by
    rw [hjob.file, hadded, List.append_assoc]
  have hnew : Settled quote (job.finish added wrote result) :=
    ⟨hpart, habsent, hwrote, fun hok => ⟨hjob.whole, hjob.path, hgranted hok⟩⟩
  refine ⟨?_, nofun, ?_, ?_, ?_⟩
  · have hbefore := h.file
    rw [held] at hbefore
    show s.file ++ more =
      file ++ (s.ended ++ [job.finish added wrote result]).flatMap Ended.added ++ []
    rw [hfile, hadded, ← List.append_assoc, ← hjob.file, hbefore, List.flatMap_append]
    simp [Job.finish, hadded]
  · intro e he
    rcases List.mem_append.mp he with he | he
    · exact h.settled e he
    · rw [List.mem_singleton.mp he]
      exact hnew
  · refine List.pairwise_append.mpr ⟨h.once, List.pairwise_singleton _ _, ?_⟩
    intro e he later hlater hok hline
    cases List.mem_singleton.mp hlater
    by_contra hne
    have hsame : e.line quote = job.line quote := hline
    exact (habsent hne).1 (hsame ▸ hjob.kept e he hok)
  · intro e he hok
    show e.line quote ∈ lines (s.file ++ more)
    rw [hfile]
    rcases List.mem_append.mp he with he | he
    · exact mem_lines_append (hjob.kept e he hok) ((h.settled e he).granted hok).1.2
        (prefix_begins hpart)
    · cases List.mem_singleton.mp he
      rcases hgranted hok with ⟨hin, hnone⟩ | ⟨-, hall⟩
      · rw [hnone, List.append_nil]
        exact hin
      · rw [hall]
        exact (lines_addition hjob.whole.1 hjob.whole.2).1

/-- The holder of the lock ends, and nothing more is written. -/
theorem Inv.finish (h : Inv quote file s) (held : s.holder = some job)
    (result : Except String Unit)
    (hgranted : result = .ok () → (job.line quote ∈ lines job.found ∧ job.added = []) ∨
      Absent job.found (job.line quote) job.key ∧
        job.added = addition quote job.found job.executable job.key) :
    Inv quote file (s.finish job result) := by
  have hjob := h.held job held
  have hstage : job.added = [] ∨ Absent job.found (job.line quote) job.key ∧
      job.added = addition quote job.found job.executable job.key := by
    cases hstage : job.stage with
    | locked => exact .inl (hjob.before (by rw [hstage]; decide))
    | absent => exact .inl (hjob.before (by rw [hstage]; decide))
    | written => exact .inr ⟨hjob.absent (by rw [hstage]; decide), hjob.written hstage⟩
  have hends := h.ends held job.added [] (job.stage = .written) result (List.append_nil _).symm
    ?_ ?_ (fun hnot => hjob.before (of_decide_eq_false hnot)) hgranted s.cut
  · rw [List.append_nil] at hends
    exact hends
  · rcases hstage with hnone | ⟨-, hall⟩
    · rw [hnone]
      exact List.nil_prefix
    · rw [hall]
  · intro hne
    rcases hstage with hnone | ⟨habsent, -⟩
    · exact absurd hnone hne
    · exact habsent

/-- What `existing_grant` finds in a file. -/
theorem existingGrant_iff {before key : Text} {executable : Text} :
    (existingGrant before (grantLineEnd quote executable key) key = .ok true →
      grantLine quote executable key ∈ lines before) ∧
    (existingGrant before (grantLineEnd quote executable key) key = .ok false →
      Absent before (grantLine quote executable key) key) := by
  rw [existingGrant, trimEnd_grantLine]
  by_cases hpresent : (lines before).any (· = grantLine quote executable key) = true
  · rw [if_pos hpresent]
    refine ⟨fun _ => ?_, nofun⟩
    obtain ⟨line, hline, heq⟩ := List.any_eq_true.mp hpresent
    exact of_decide_eq_true heq ▸ hline
  · rw [if_neg hpresent]
    by_cases hnames : (lines before).any (fun existing => Names key existing) = true
    · rw [if_pos hnames]
      exact ⟨nofun, nofun⟩
    · rw [if_neg hnames]
      refine ⟨nofun, fun _ => ⟨?_, ?_⟩⟩
      · intro hmem
        exact hpresent (List.any_eq_true.mpr ⟨_, hmem, by simp⟩)
      · intro other hother hname
        exact hnames (List.any_eq_true.mpr ⟨other, hother, by simpa using hname⟩)

theorem readAuthorizations_ok {before : Text} {cut : Bool}
    (h : readAuthorizations file cut = .ok before) : before = file := by
  rw [readAuthorizations] at h
  split at h
  · cases h
  · split at h
    · cases h
    · cases h
      rfl

theorem publicKey_break {value key : Text} (h : publicKey decode encode value = .ok key) :
    '\n' ∉ key := by
  rw [publicKey] at h
  by_cases hbad : (100 < (String.ofList value).utf8ByteSize || value.any isControl) = true
  · rw [if_pos hbad] at h
    cases h
  · have hvalue : '\n' ∉ value := by
      intro hmem
      refine hbad (Bool.or_eq_true_iff.mpr (.inr ?_))
      exact List.any_eq_true.mpr ⟨_, hmem, by decide⟩
    rw [if_neg hbad] at h
    have hsame : value = key := by
      split at h
      · split at h
        · cases h
        · split at h
          · cases h
          · split at h
            · cases h
            · cases h
              rfl
      · cases h
    exact hsame ▸ hvalue

theorem Held.empty (h : Held quote s job) (hstage : job.stage ≠ .written) :
    job.added = [] ∧ s.file = job.found := by
  have hnone := h.before hstage
  have hfile := h.file
  rw [hnone, List.append_nil] at hfile
  exact ⟨hnone, hfile⟩

theorem Inv.step (h : Inv quote file s)
    (hquote : ∀ path, Executable path → ShellWords.words (quote path) = some [path])
    (hstep : Step decode encode quote s after) : Inv quote file after := by
  cases hstep with
  | refused executable key message =>
      refine ⟨?_, ?_, ?_, ?_, ?_⟩
      · show s.file = file ++ (s.ended ++ [_]).flatMap Ended.added ++ s.holder.elim [] Job.added
        rw [List.flatMap_append]
        simpa using h.file
      · intro job held
        have hjob := h.held job held
        refine ⟨hjob.file, hjob.whole, hjob.path, hjob.before, hjob.absent, hjob.written, ?_⟩
        intro e he hok
        rcases List.mem_append.mp he with he | he
        · exact hjob.kept e he hok
        · cases List.mem_singleton.mp he
          cases hok
      · intro e he
        rcases List.mem_append.mp he with he | he
        · exact h.settled e he
        · cases List.mem_singleton.mp he
          exact ⟨List.nil_prefix, fun hne => absurd rfl hne, fun _ => rfl, nofun⟩
      · refine List.pairwise_append.mpr ⟨h.once, List.pairwise_singleton _ _, ?_⟩
        intro e he later hlater _ _
        cases List.mem_singleton.mp hlater
        rfl
      · intro e he hok
        rcases List.mem_append.mp he with he | he
        · exact h.kept e he hok
        · cases List.mem_singleton.mp he
          cases hok
  | lock executable value key valid path free =>
      refine ⟨?_, ?_, h.settled, h.once, h.kept⟩
      · have hfile := h.file
        rw [free] at hfile
        exact hfile
      · intro job held
        cases held
        have hbreak := break_grantLine (break_quote (hquote executable path) path)
          (publicKey_break valid)
        exact ⟨(List.append_nil _).symm, ⟨hbreak, stripReturn_grantLine⟩, path, fun _ => rfl,
          fun hstage => absurd rfl hstage, nofun, h.kept⟩
  | failed job held message => exact h.finish held _ nofun
  | unread job held locked message unread => exact h.finish held _ nofun
  | different job held locked before message read different => exact h.finish held _ nofun
  | present job held locked before read present =>
      have hempty := (h.held job held).empty (by rw [locked]; decide)
      refine h.finish held _ fun _ => .inl ⟨?_, hempty.1⟩
      rw [← hempty.2, ← readAuthorizations_ok read]
      exact existingGrant_iff.1 present
  | absent job held locked before read absent =>
      have hjob := h.held job held
      have hempty := hjob.empty (by rw [locked]; decide)
      refine ⟨?_, ?_, h.settled, h.once, h.kept⟩
      · have hfile := h.file
        rw [held] at hfile
        exact hfile
      · intro job' held'
        cases held'
        refine ⟨hjob.file, hjob.whole, hjob.path, fun _ => hempty.1, fun _ => ?_, nofun,
          hjob.kept⟩
        show Absent job.found (grantLine quote job.executable job.key) job.key
        rw [← hempty.2, ← readAuthorizations_ok read]
        exact existingGrant_iff.2 absent
  | write job held absent =>
      have hjob := h.held job held
      have hempty := hjob.empty (by rw [absent]; decide)
      refine ⟨?_, ?_, h.settled, h.once, ?_⟩
      · have hfile := h.file
        rw [held] at hfile
        show s.file ++ _ = file ++ s.ended.flatMap Ended.added ++ _
        rw [hfile]
        simp [hempty.1]
      · intro job' held'
        cases held'
        refine ⟨by rw [hempty.2], hjob.whole, hjob.path, fun hne => absurd rfl hne,
          fun _ => hjob.absent (by rw [absent]; decide), fun _ => rfl, hjob.kept⟩
      · intro e he hok
        show e.line quote ∈ lines (s.file ++ _)
        rw [hempty.2]
        exact mem_lines_append (hjob.kept e he hok) ((h.settled e he).granted hok).1.2
          (prefix_begins (List.prefix_refl _))
  | torn job held absent part cut message torn =>
      have hjob := h.held job held
      have hempty := hjob.empty (by rw [absent]; decide)
      exact h.ends held part part true (.error message) (by rw [hempty.1, List.nil_append]) torn
        (fun _ => hjob.absent (by rw [absent]; decide)) nofun nofun cut
  | written job held written =>
      have hjob := h.held job held
      exact h.finish held _ fun _ =>
        .inr ⟨hjob.absent (by rw [written]; decide), hjob.written written⟩

theorem Run.inv (hquote : ∀ path, Executable path → ShellWords.words (quote path) = some [path])
    (h : Run decode encode quote file s) : Inv quote file s := by
  induction h with
  | start => exact .start
  | step s after run step ih => exact ih.step hquote step

end Runs

/-- No other line of the file names the key, if the line of the grant is there. -/
def Alone (quote : Text → Text) (e : Ended) : Prop :=
  e.line quote ∈ lines e.found → ∀ line ∈ lines e.found, Names e.key line → line = e.line quote

/-- In every run: the file is what it was, and what the runs have added to it, each a part of one
line at most with a line break before it where the file had none at its end; a run adds a line only
where none names its key, and a line that was granted is not added again; and where a run ends well,
its line alone names its key just where it did so if it was there already, and forces the executable
just where the quoted path has no backslash. -/
theorem granted (decode : Text → Option (List UInt8)) (encode : List UInt8 → Text)
    (quote : Text → Text)
    (hquote : ∀ path, Executable path → ShellWords.words (quote path) = some [path])
    (hform : ∀ path, quote path = path ∧ '\\' ∉ path ∨ quote path = ShellWords.singleQuoted path)
    (file : Text) (s : Account) (hrun : Run decode encode quote file s) :
    s.file = file ++ s.ended.flatMap Ended.added ++ s.holder.elim [] Job.added ∧
    (∀ e ∈ s.ended, e.added <+: separator e.found ++ (e.line quote ++ ['\n']) ∧
      (e.wrote = false → e.added = []) ∧
      (e.added ≠ [] → e.line quote ∉ lines e.found ∧ ∀ line ∈ lines e.found, ¬Names e.key line)) ∧
    s.ended.Pairwise (fun e later =>
      e.result = .ok () → e.line quote = later.line quote → later.added = []) ∧
    ∀ e ∈ s.ended, e.result = .ok () →
      e.line quote ∈ lines (e.found ++ e.added) ∧
      ((∀ line ∈ lines (e.found ++ e.added), Names e.key line → line = e.line quote) ↔
        Alone quote e) ∧
      (Forces (e.line quote) e.key [e.executable, argument] ↔ '\\' ∉ quote e.executable) := by
  have hinv := hrun.inv hquote
  refine ⟨hinv.file, ?_, hinv.once, ?_⟩
  · intro e he
    have hsettled := hinv.settled e he
    exact ⟨hsettled.part, hsettled.unwritten, hsettled.absent⟩
  · intro e he hok
    obtain ⟨hwhole, hpath, hgranted⟩ := (hinv.settled e he).granted hok
    refine ⟨?_, ?_, forces_grantLine (hquote _ hpath) (hform _)⟩
    · rcases hgranted with ⟨hin, hnone⟩ | ⟨-, hall⟩
      · rw [hnone, List.append_nil]
        exact hin
      · rw [hall]
        exact (lines_addition hwhole.1 hwhole.2).1
    · rcases hgranted with ⟨hin, hnone⟩ | ⟨habsent, hall⟩
      · rw [hnone, List.append_nil]
        exact ⟨fun h _ => h, fun h => h hin⟩
      · rw [hall]
        exact ⟨fun _ hin => absurd hin habsent.1,
          fun _ => names_addition hwhole.1 hwhole.2 habsent.2⟩

/-! ### One grant -/

section Samples

/-- The bytes of a key. -/
def sampleBytes : List UInt8 := wireHeader ++ List.replicate 32 7

/-- And their base64. -/
def sampleEncoded : Text :=
  "AAAAC3NzaC1lZDI1NTE5AAAAIAcHBwcHBwcHBwcHBwcHBwcHBwcHBwcHBwcHBwcHBwcH".toList

def sampleKey : Text := algorithm ++ ' ' :: sampleEncoded

/-- The file after one grant. -/
def sampleAccount (executable : Text) : Account :=
  ⟨addition ShellWords.singleQuoted [] executable sampleKey, false, none,
    [⟨executable, sampleKey, [], addition ShellWords.singleQuoted [] executable sampleKey, true,
      .ok ()⟩]⟩

/-- A run in a file that was empty, with paths in single quotes. -/
abbrev SampleRun : Account → Prop :=
  Run (fun _ => some sampleBytes) (fun _ => sampleEncoded) ShellWords.singleQuoted []

theorem sampleAccount_run {executable : Text} (path : Executable executable) :
    SampleRun (sampleAccount executable) := by
  have hkey : publicKey (fun _ => some sampleBytes) (fun _ => sampleEncoded) sampleKey =
      .ok sampleKey := by decide +kernel
  have hlocked : SampleRun ⟨[], false, some ⟨executable, sampleKey, [], [], .locked⟩, []⟩ :=
    .step _ _ .start (.lock executable sampleKey sampleKey hkey path rfl)
  have habsent : SampleRun ⟨[], false, some ⟨executable, sampleKey, [], [], .absent⟩, []⟩ :=
    .step _ _ hlocked (.absent ⟨executable, sampleKey, [], [], .locked⟩ rfl rfl [] rfl rfl)
  have hwritten := Run.step _ _ habsent (.write ⟨executable, sampleKey, [], [], .absent⟩ rfl rfl)
  exact .step _ _ hwritten (.written ⟨executable, sampleKey, [],
    addition ShellWords.singleQuoted [] executable sampleKey, .written⟩ rfl rfl)

/-- `/opt/my pika` -/
def spacedPath : Text := ['/', 'o', 'p', 't', '/', 'm', 'y', ' ', 'p', 'i', 'k', 'a']

theorem granted_spaced : Forces (grantLine ShellWords.singleQuoted spacedPath sampleKey) sampleKey
    [spacedPath, argument] := by
  have hpath : Executable spacedPath := ⟨rfl, by decide⟩
  obtain ⟨-, -, -, hgranted⟩ := granted _ _ ShellWords.singleQuoted
    (fun path _ => ShellWords.words_singleQuoted path) (fun _ => .inr rfl) []
    (sampleAccount spacedPath) (sampleAccount_run hpath)
  obtain ⟨-, -, hforces⟩ := hgranted _ (List.mem_singleton_self _) rfl
  exact hforces.2 (by decide)

/-- `/o'k` -/
def apostrophePath : Text := ['/', 'o', '\'', 'k']

/-- The backslash of a quoted apostrophe is doubled, and what the shell reads ends in a quote. -/
theorem apostrophe_misread : ¬∀ s : Account, SampleRun s →
    ∀ e ∈ s.ended, e.result = .ok () →
      (∀ line ∈ lines (e.found ++ e.added), Names e.key line →
        line = e.line ShellWords.singleQuoted) ∧
      Forces (e.line ShellWords.singleQuoted) e.key [e.executable, argument] := by
  intro hall
  have hpath : Executable apostrophePath := ⟨rfl, by decide⟩
  obtain ⟨-, command, hsshd, hwords⟩ := hall (sampleAccount apostrophePath)
    (sampleAccount_run hpath) _ (List.mem_singleton_self _) rfl
  have hread : (sshd (grantLine ShellWords.singleQuoted apostrophePath sampleKey)).map
      (fun read => read.1.map fun option => option.2.map ShellWords.words) =
        some [none, some none] := by decide +kernel
  have hline : sshd (grantLine ShellWords.singleQuoted apostrophePath sampleKey) = _ := hsshd
  rw [hline] at hread
  simp [hwords] at hread

end Samples

end Pikamux.Mobile.PairingKeys

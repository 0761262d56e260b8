import Mathlib.Data.List.SplitOn
import Mathlib.Data.List.TakeWhile
import Pikamux.Files.Layout
import Pikamux.Support.Offsets

/-!
# Files — Syntax

The colours of the lines of a file.  A scanner goes over the bytes of a span; what it is in the
middle of, a comment or a quote, is carried to the next span and to the next line.

* `scan_painted` — no span is cut inside a character, its text stays, and its colours are those of
  the moves of the scanner.
* `comment_closes` — a block comment that was opened ends at its first closing delimiter, unless the
  delimiter is cut by the end of a span, or the span ends one byte after the comment was opened with
  what closes it.
-/

namespace Pikamux.Files.Syntax

open Support.Offsets

abbrev Text := List Char

inductive Lang where
  | python
  | r
  | shell
  | rust
  | javascript
  | sql
  | json
  | toml
  | yaml
  | powerShell
  deriving DecidableEq, Repr

inductive State where
  | plain
  | blockComment (powershell : Bool)
  | quote (ch : UInt8) (triple : Bool)
  | rawString (hashes : UInt8)
  deriving DecidableEq, Repr

inductive SyntaxInk where
  | plain
  | keyword
  | string
  | comment
  | number
  | function
  | type
  | variable
  deriving DecidableEq, Repr

structure Style where
  bold : Bool := false
  italic : Bool := false
  code : Bool := false
  quote : Bool := false
  heading : Bool := false
  link : Bool := false
  ink : SyntaxInk := .plain
  deriving DecidableEq, Repr

/-! ### Bytes and words -/

def byte (c : Char) : UInt8 := c.val.toUInt8

/-- Whether these two bytes are at a place. -/
def pairAt (bytes : List UInt8) (i : Nat) (x y : UInt8) : Bool :=
  bytes[i]? == some x && bytes[i + 1]? == some y

def tripleAt (bytes : List UInt8) (i : Nat) (x : UInt8) : Bool :=
  pairAt bytes i x x && bytes[i + 2]? == some x

/-- Where these two bytes are first. -/
def findPair (x y : UInt8) : List UInt8 → Option Nat
  | [] => none
  | b :: bytes =>
      if b = x ∧ bytes.head? = some y then some 0 else (findPair x y bytes).map (· + 1)

def isAsciiWhitespace (c : UInt8) : Bool :=
  [byte ' ', byte '\t', byte '\n', 12, byte '\r'].contains c

def isAsciiDigit (c : UInt8) : Bool := byte '0' ≤ c && c ≤ byte '9'

def isAsciiAlphabetic (c : UInt8) : Bool :=
  (byte 'a' ≤ c && c ≤ byte 'z') || (byte 'A' ≤ c && c ≤ byte 'Z')

def isNumberByte (c : UInt8) : Bool :=
  isAsciiAlphabetic c || isAsciiDigit c || c == byte '.' || c == byte '_'

def isWord (c : UInt8) : Bool :=
  isAsciiAlphabetic c || isAsciiDigit c || c == byte '_' || c == byte '$'

def identStart (c : UInt8) : Bool := isAsciiAlphabetic c || c == byte '_' || c == byte '$'

def keywords : Lang → String
  | .python =>
      "and as assert async await break case class continue def del elif else except finally " ++
      "for from global if import in is lambda match nonlocal not or pass raise return try " ++
      "while with yield True False None self print"
  | .r =>
      "if else repeat while function for in next break TRUE FALSE NULL NA NaN Inf library " ++
      "require return"
  | .shell =>
      "if then else elif fi for while in do done case esac function select time coproc return " ++
      "export local readonly unset source alias true false"
  | .rust =>
      "as break const continue crate else enum extern false fn for if impl in let loop match " ++
      "mod move mut pub ref return self Self static struct super trait true type unsafe use " ++
      "where while async await dyn"
  | .javascript =>
      "as async await break case catch class const continue debugger default delete do else " ++
      "export extends false finally for from function get if import in instanceof let new null " ++
      "of return set static super switch this throw true try typeof var void while with yield " ++
      "interface type enum implements package private protected public declare abstract"
  | .sql =>
      "select from where and or not insert into values update set delete create alter drop " ++
      "table view index join inner left right full outer on as group by having order asc desc " ++
      "limit offset union all distinct null is like exists case when then else end begin " ++
      "commit rollback"
  | .json => "true false null"
  | .toml => "true false"
  | .yaml => "true false null yes no on off"
  | .powerShell =>
      "function param begin process end if else elseif foreach for while do until switch break " ++
      "continue return class enum using namespace try catch finally throw trap filter in where"

def keyword (lang : Lang) (word : Text) : Bool :=
  ((keywords lang).toList.splitOn ' ').contains word

def typeNames : String :=
  "str String bool int float usize isize i32 i64 u32 u64 number boolean"

-- `char::is_uppercase`
variable (isUppercase : Char → Bool)

def typeWord (lang : Lang) (word : Text) : Bool :=
  [.rust, .javascript, .python, .powerShell].contains lang &&
    (word.head?.any isUppercase || (typeNames.toList.splitOn ' ').contains word)

/-- `str::to_ascii_lowercase` -/
def toAsciiLowercase (word : Text) : Text := word.map Char.toLower

/-! ### What the scanner finds -/

/-- What begins a comment that goes to the end of the span. -/
def commentStart (lang : Lang) (bytes : List UInt8) (i : Nat) : Nat :=
  if [.python, .r, .shell, .toml, .yaml, .powerShell].contains lang &&
      bytes[i]? == some (byte '#') &&
      (!([.shell, .yaml, .powerShell].contains lang) || i == 0 ||
        bytes[i - 1]?.any isAsciiWhitespace) then 1
  else if [.rust, .javascript].contains lang && pairAt bytes i (byte '/') (byte '/') then 2
  else if lang == .sql && pairAt bytes i (byte '-') (byte '-') then 2
  else 0

def opensBlock (lang : Lang) (bytes : List UInt8) (i : Nat) : Bool :=
  [.rust, .javascript, .sql].contains lang && pairAt bytes i (byte '/') (byte '*') ||
    lang == .powerShell && pairAt bytes i (byte '<') (byte '#')

/-- The first byte of what closes a block comment. -/
def closeFirst (powershell : Bool) : UInt8 := if powershell then byte '#' else byte '*'

def closeSecond (powershell : Bool) : UInt8 := if powershell then byte '>' else byte '/'

/-- The hashes of a raw string that begins here, and where its text does. -/
def rawStart (lang : Lang) (bytes : List UInt8) (i : Nat) : Option (Nat × Nat) :=
  if lang == .rust && (bytes[i]? == some (byte 'r') || pairAt bytes i (byte 'b') (byte 'r')) then
    let start := if bytes[i]? == some (byte 'b') then i + 1 else i
    let hashes := (((bytes.drop (start + 1)).take 255).takeWhile (· == byte '#')).length
    if bytes[start + 1 + hashes]? == some (byte '"') then some (hashes, start + 1 + hashes + 1)
    else none
  else none

/-- How many bytes there are before the quote with so many hashes. -/
def rawClose (hashes : Nat) : List UInt8 → Option Nat
  | [] => none
  | b :: bytes =>
      if b = byte '"' ∧ bytes.take hashes = List.replicate hashes (byte '#') then some 0
      else (rawClose hashes bytes).map (· + 1)

/-- What follows the first brace among so many characters. -/
def afterBrace : Nat → Text → Option Text
  | 0, _ => none
  | _, [] => none
  | n + 1, c :: rest => if c = '\x7d' then some rest else afterBrace n rest

def isAsciiHexdigit (c : Char) : Bool := c.isDigit || ('a' ≤ c && c ≤ 'f') || ('A' ≤ c && c ≤ 'F')

/-- Whether a character literal stands behind a quote. -/
def rustCharacter : Text → Bool
  | '\\' :: 'u' :: rest =>
      rest.head? == some '\x7b' &&
        (afterBrace 8 rest.tail).any fun rest => rest.head? == some '\''
  | '\\' :: 'x' :: rest => (rest.take 2).all isAsciiHexdigit && (rest.drop 2).head? == some '\''
  | '\\' :: _ :: rest => rest.head? == some '\''
  | ['\\'] => false
  | '\'' :: _ => false
  | [] => false
  | _ :: rest => rest.head? == some '\''

/-- The width of the character at an offset. -/
def widthAt (text : Text) (i : Nat) : Option Nat :=
  (slice text i (encode text).length).map fun rest => (rest.head?.map Char.utf8Size).getD 1

def escape (lang : Lang) : UInt8 := if lang = .powerShell then byte '`' else byte '\\'

/-- Whether nothing is escaped in a quote. -/
def literal (lang : Lang) (ch : UInt8) : Bool :=
  lang == .sql || [.shell, .toml, .powerShell].contains lang && ch == byte '\''

/-- The end of a quote and whether it is closed, for at most so many turns. -/
def quoteEnd (lang : Lang) (text : Text) (ch : UInt8) (triple : Bool) :
    Nat → Nat → Option (Nat × Bool)
  | 0, _ => none
  | turns + 1, stop =>
      let bytes := encode text
      if stop < bytes.length then
        if !literal lang ch && bytes[stop]? == some (escape lang) then
          if stop + 1 < bytes.length then do
            let width ← widthAt text (stop + 1)
            quoteEnd lang text ch triple turns (stop + 1 + width)
          else quoteEnd lang text ch triple turns (stop + 1)
        else if triple && tripleAt bytes stop ch then some (stop + 3, true)
        else if !triple && bytes[stop]? == some ch then some (stop + 1, true)
        else quoteEnd lang text ch triple turns (stop + 1)
      else some (stop, false)

/-! ### Moves -/

/-- What a turn of the scanner does: it goes on, it shows what stands up to an offset in a colour,
or it shows the rest as a comment. -/
inductive Move where
  | skip (stop : Nat)
  | token (stop : Nat) (ink : SyntaxInk) (state : State)
  | line
  deriving DecidableEq, Repr

def commentMove (text : Text) (i : Nat) (powershell : Bool) : Option Move := do
  let rest ← slice text i (encode text).length
  let stop :=
    match findPair (closeFirst powershell) (closeSecond powershell) (encode rest) with
    | some n => i + n + 2
    | none => (encode text).length
  let closed := 2 ≤ stop &&
    pairAt (encode text) (stop - 2) (closeFirst powershell) (closeSecond powershell)
  return .token stop .comment (if closed then .plain else .blockComment powershell)

def rawMove (text : Text) (i : Nat) (hashes : UInt8) : Move :=
  match rawClose hashes.toNat ((encode text).drop i) with
  | some n => .token (i + n + 1 + hashes.toNat) .string .plain
  | none => .token (encode text).length .string (.rawString hashes)

def quoteMove (lang : Lang) (text : Text) (i : Nat) (ch : UInt8) (triple : Bool) : Option Move := do
  let (stop, closed) ← quoteEnd lang text ch triple ((encode text).length + 1) i
  return .token stop .string (if closed then .plain else .quote ch triple)

/-- The quote that begins here, or the quote of a lifetime. -/
def openQuote (lang : Lang) (text : Text) (i : Nat) (c : UInt8) : Option Move := do
  let triple := [.python, .toml].contains lang && tripleAt (encode text) i c
  let rest ← slice text i (encode text).length
  if lang == .rust && c == byte '\'' && !rustCharacter rest.tail then return .skip (i + 1)
  else return .token (i + if triple then 3 else 1) .string (.quote c triple)

def wordInk (lang : Lang) (word : Text) (c : UInt8) (rest : List UInt8) : SyntaxInk :=
  let lowered := if [.sql, .powerShell].contains lang then toAsciiLowercase word else word
  if [.shell, .powerShell].contains lang && c == byte '$' then .variable
  else if keyword lang lowered then .keyword
  else if typeWord isUppercase lang word then .type
  else if rest.find? (fun c => !isAsciiWhitespace c) == some (byte '(') then .function
  else .plain

def wordMove (lang : Lang) (text : Text) (i : Nat) (c : UInt8) : Option Move := do
  let stop := i + 1 + (((encode text).drop (i + 1)).takeWhile isWord).length
  let word ← slice text i stop
  return .token stop (wordInk isUppercase lang word c ((encode text).drop stop)) .plain

def plainMove (lang : Lang) (text : Text) (i : Nat) : Option Move := do
  let bytes := encode text
  let c ← bytes[i]?
  if commentStart lang bytes i ≠ 0 then return .line
  else if opensBlock lang bytes i then
    return .token (i + 2) .comment (.blockComment (lang == .powerShell))
  else
    match rawStart lang bytes i with
    | some (hashes, stop) => return .token stop .string (.rawString hashes.toUInt8)
    | none =>
        if c == byte '"' || c == byte '\'' || (c == byte '`' && lang == .javascript) then
          openQuote lang text i c
        else if isAsciiDigit c then
          let digits := (bytes.drop (i + 1)).takeWhile isNumberByte
          return .token (i + 1 + digits.length) .number .plain
        else if identStart c then wordMove isUppercase lang text i c
        else do
          let width ← widthAt text i
          return .skip (i + width)

def scanMove (lang : Lang) (text : Text) (i : Nat) : State → Option Move
  | .blockComment powershell => commentMove text i powershell
  | .rawString hashes => some (rawMove text i hashes)
  | .quote ch triple => quoteMove lang text i ch triple
  | .plain => plainMove isUppercase lang text i

/-! ### The scanner -/

def pushInk (out : List (Span Style)) (text : Text) (style : Style) (ink : SyntaxInk) :
    List (Span Style) :=
  if text.isEmpty then out else push out text { style with ink := ink }

structure Scanner where
  out : List (Span Style) := []
  i : Nat := 0
  plain : Nat := 0
  state : State

def flushPlain (text : Text) (s : Scanner) (stop : Nat) : Option (List (Span Style)) :=
  if s.plain < stop then do
    let part ← slice text s.plain stop
    return pushInk s.out part {} .plain
  else some s.out

/-- What is shown when a token begins: outside of quotes and comments, what is plain before it. -/
def beforeToken (text : Text) (s : Scanner) : Option (List (Span Style)) :=
  if s.state = .plain then flushPlain text s s.i else some s.out

/-- The loop, for at most so many turns. -/
def scanLoop (lang : Lang) (text : Text) : Nat → Scanner → Option (List (Span Style) × State)
  | 0, _ => none
  | turns + 1, s =>
      if s.i < (encode text).length then do
        match ← scanMove isUppercase lang text s.i s.state with
        | .skip stop => scanLoop lang text turns { s with i := stop }
        | .line =>
            let out ← flushPlain text s s.i
            let rest ← slice text s.i (encode text).length
            return (pushInk out rest {} .comment, .plain)
        | .token stop ink state =>
            let out ← beforeToken text s
            let part ← slice text s.i stop
            scanLoop lang text turns ⟨pushInk out part {} ink, stop, stop, state⟩
      else do
        let out ← flushPlain text s (encode text).length
        return (out, s.state)

def scan (lang : Lang) (text : Text) (state : State) : Option (List (Span Style) × State) :=
  scanLoop isUppercase lang text ((encode text).length + 1) { state := state }

/-- A style that a part has, or the span it is a part of. -/
def Style.within (style outer : Style) : Style :=
  { bold := style.bold || outer.bold
    italic := style.italic || outer.italic
    code := style.code || outer.code
    quote := style.quote || outer.quote
    heading := style.heading || outer.heading
    link := style.link || outer.link
    ink := style.ink }

/-- A part of a span. -/
def partOf (outer : Style) (part : Span Style) : Span Style :=
  { part with style := part.style.within outer }

def highlightSpans (lang : Lang) : State → List (Span Style) → Option (List (Span Style) × State)
  | state, [] => some ([], state)
  | state, span :: spans => do
      let (colored, next) ← scan isUppercase lang span.text state
      let (rest, last) ← highlightSpans lang next spans
      return (colored.map (partOf span.style) ++ rest, last)

def highlightLines (lang : Lang) : State → List (Line Style) → Option (List (Line Style) × State)
  | state, [] => some ([], state)
  | state, line :: lines => do
      let (spans, next) ← highlightSpans isUppercase lang state line.spans
      let (rest, last) ← highlightLines lang next lines
      return ({ line with spans := spans } :: rest, last)

/-- The lines of a file whose path has no language stay as they are. -/
def highlight (lang : Option Lang) (lines : List (Line Style)) : Option (List (Line Style)) :=
  match lang with
  | none => some lines
  | some lang => (highlightLines isUppercase lang .plain lines).map Prod.fst

/-! ### Every move ends between characters -/

/-- A quote that is an ASCII character. -/
def State.Wf : State → Prop
  | .quote ch _ => ch < 128
  | _ => True

theorem State.Wf.plain : State.plain.Wf := trivial

/-- A move that goes on, to an offset between characters. -/
inductive Move.Good (text : Text) (i : Nat) : State → Move → Prop where
  | skip {stop : Nat} (hlt : i < stop) (hstop : Boundary text stop) :
      Move.Good text i .plain (.skip stop)
  | token {state next : State} {stop : Nat} {ink : SyntaxInk} (hlt : i < stop)
      (hstop : Boundary text stop) (hnext : next.Wf) :
      Move.Good text i state (.token stop ink next)
  | line : Move.Good text i .plain .line

variable {isUppercase} {lang : Lang} {text : Text} {i stop : Nat}

theorem pairAt_eq {bytes : List UInt8} {x y : UInt8} :
    pairAt bytes i x y = true ↔ bytes[i]? = some x ∧ bytes[i + 1]? = some y := by
  rw [pairAt, Bool.and_eq_true, beq_iff_eq, beq_iff_eq]

theorem findPair_some {x y : UInt8} {bytes : List UInt8} {n : Nat}
    (h : findPair x y bytes = some n) :
    bytes[n]? = some x ∧ bytes[n + 1]? = some y := by
  induction bytes generalizing n with
  | nil => cases h
  | cons b bytes ih =>
      rw [findPair] at h
      split at h
      case isTrue hpair =>
        cases h
        obtain ⟨rfl, hhead⟩ := hpair
        exact ⟨rfl, by rw [List.getElem?_cons_succ, ← List.head?_eq_getElem?, hhead]⟩
      case isFalse =>
        obtain ⟨m, hm, rfl⟩ := Option.map_eq_some_iff.mp h
        exact ih hm

theorem findPair_none {x y : UInt8} {bytes : List UInt8} (h : findPair x y bytes = none) (n : Nat) :
    ¬ (bytes[n]? = some x ∧ bytes[n + 1]? = some y) := by
  induction bytes generalizing n with
  | nil => simp
  | cons b bytes ih =>
      rw [findPair] at h
      split at h
      case isTrue => cases h
      case isFalse hpair =>
        cases n with
        | zero =>
            rw [List.getElem?_cons_zero, List.getElem?_cons_succ, ← List.head?_eq_getElem?,
              Option.some_inj]
            exact hpair
        | succ n =>
            rw [List.getElem?_cons_succ, List.getElem?_cons_succ]
            exact ih (Option.map_eq_none_iff.mp h) n

/-- Bytes of a kind of ASCII characters end at a boundary. -/
theorem boundary_while {p : UInt8 → Bool} (hp : ∀ x, p x = true → x < 128) {c : UInt8}
    (hc : (encode text)[i]? = some c) (hascii : c < 128) :
    Boundary text (i + 1 + (((encode text).drop (i + 1)).takeWhile p).length) := by
  generalize hk : (((encode text).drop (i + 1)).takeWhile p).length = k
  cases k with
  | zero => exact .after_ascii hc hascii
  | succ k =>
      have hlt : k < (((encode text).drop (i + 1)).takeWhile p).length := by omega
      have hlast := (List.takeWhile_prefix (l := (encode text).drop (i + 1)) p).getElem hlt
      have hp' := hp _ (List.mem_takeWhile_imp (List.getElem_mem hlt))
      rw [hlast] at hp'
      rw [List.getElem_drop] at hp'
      exact .after_ascii (List.getElem?_eq_getElem _) hp'

theorem isAsciiAlphabetic_lt {c : UInt8} (h : isAsciiAlphabetic c = true) : c < 128 := by
  simp only [isAsciiAlphabetic, Bool.or_eq_true, Bool.and_eq_true, decide_eq_true_eq] at h
  obtain ⟨-, h⟩ | ⟨-, h⟩ := h
  · exact UInt8.lt_of_le_of_lt h (by decide)
  · exact UInt8.lt_of_le_of_lt h (by decide)

theorem isAsciiDigit_lt {c : UInt8} (h : isAsciiDigit c = true) : c < 128 := by
  rw [isAsciiDigit, Bool.and_eq_true, decide_eq_true_eq, decide_eq_true_eq] at h
  exact UInt8.lt_of_le_of_lt h.2 (by decide)

theorem byte_lt {c : UInt8} {d : Char} (h : (c == byte d) = true) (hd : byte d < 128) : c < 128 :=
  beq_iff_eq.mp h ▸ hd

theorem isNumberByte_lt (c : UInt8) (h : isNumberByte c = true) : c < 128 := by
  simp only [isNumberByte, Bool.or_eq_true] at h
  obtain ((h | h) | h) | h := h
  · exact isAsciiAlphabetic_lt h
  · exact isAsciiDigit_lt h
  · exact byte_lt h (by decide)
  · exact byte_lt h (by decide)

theorem isWord_lt (c : UInt8) (h : isWord c = true) : c < 128 := by
  simp only [isWord, Bool.or_eq_true] at h
  obtain ((h | h) | h) | h := h
  · exact isAsciiAlphabetic_lt h
  · exact isAsciiDigit_lt h
  · exact byte_lt h (by decide)
  · exact byte_lt h (by decide)

theorem identStart_lt {c : UInt8} (h : identStart c = true) : c < 128 := by
  simp only [identStart, Bool.or_eq_true] at h
  obtain (h | h) | h := h
  · exact isAsciiAlphabetic_lt h
  · exact byte_lt h (by decide)
  · exact byte_lt h (by decide)

theorem widthAt_some (h : Boundary text i) (hlt : i < (encode text).length) :
    ∃ width, widthAt text i = some width ∧ 0 < width ∧ Boundary text (i + width) := by
  obtain ⟨c, rest, hslice, hnext⟩ := h.next hlt
  refine ⟨c.utf8Size, ?_, c.utf8Size_pos, hnext⟩
  rw [widthAt, hslice]
  rfl

/-! ### The moves, by state -/

/-- The bytes from an offset on. -/
def bytesFrom (text : Text) (i : Nat) : List UInt8 := (encode text).drop i

theorem length_bytesFrom (text : Text) (i : Nat) :
    (bytesFrom text i).length = (encode text).length - i :=
  List.length_drop

theorem slice_rest (h : Boundary text i) :
    ∃ rest, slice text i (encode text).length = some rest ∧ encode rest = bytesFrom text i := by
  obtain ⟨rest, hrest, -, hencode⟩ := slice_between h (.end text) h.le
  refine ⟨rest, hrest, ?_⟩
  rw [hencode, bytesFrom, List.take_of_length_le]
  rw [List.length_drop]

/-- Where the closing delimiter would be that ends with the text. -/
def closesAtEnd (text : Text) (powershell : Bool) : Bool :=
  2 ≤ (encode text).length &&
    pairAt (encode text) ((encode text).length - 2) (closeFirst powershell)
      (closeSecond powershell)

theorem closeSecond_lt (powershell : Bool) : closeSecond powershell < 128 := by
  cases powershell <;> decide

theorem commentMove_closed (h : Boundary text i) {powershell : Bool} {n : Nat}
    (hfind : findPair (closeFirst powershell) (closeSecond powershell) (bytesFrom text i) =
      some n) :
    commentMove text i powershell = some (.token (i + n + 2) .comment .plain) ∧
      Boundary text (i + n + 2) := by
  obtain ⟨rest, hrest, hencode⟩ := slice_rest h
  obtain ⟨hfirst, hsecond⟩ := findPair_some hfind
  rw [bytesFrom, List.getElem?_drop] at hfirst hsecond
  have hclosed : (decide (2 ≤ i + n + 2) &&
      pairAt (encode text) (i + n + 2 - 2) (closeFirst powershell) (closeSecond powershell)) =
        true := by
    rw [Bool.and_eq_true, decide_eq_true_eq, Nat.add_sub_cancel, pairAt_eq]
    exact ⟨by omega, hfirst, hsecond⟩
  constructor
  · rw [commentMove, hrest]
    simp only [Option.bind_eq_bind, Option.bind_some, hencode, hfind, hclosed, if_true,
      Option.pure_def]
  · exact .after_ascii hsecond (closeSecond_lt powershell)

theorem commentMove_open (h : Boundary text i) {powershell : Bool}
    (hfind : findPair (closeFirst powershell) (closeSecond powershell) (bytesFrom text i) =
      none) :
    commentMove text i powershell =
      some (.token (encode text).length .comment
        (if closesAtEnd text powershell then .plain else .blockComment powershell)) := by
  obtain ⟨rest, hrest, hencode⟩ := slice_rest h
  rw [commentMove, hrest]
  simp only [Option.bind_eq_bind, Option.bind_some, hencode, hfind, Option.pure_def]
  rfl

theorem commentMove_good (h : Boundary text i) (hlt : i < (encode text).length)
    (powershell : Bool) :
    ∃ move, commentMove text i powershell = some move ∧
      move.Good text i (.blockComment powershell) := by
  cases hfind : findPair (closeFirst powershell) (closeSecond powershell) (bytesFrom text i) with
  | some n =>
      obtain ⟨hmove, hstop⟩ := commentMove_closed h hfind
      exact ⟨_, hmove, .token (by omega) hstop trivial⟩
  | none =>
      refine ⟨_, commentMove_open h hfind, .token hlt (.end text) ?_⟩
      split <;> trivial

theorem rawClose_some {hashes : Nat} {bytes : List UInt8} {n : Nat}
    (h : rawClose hashes bytes = some n) :
    bytes[n]? = some (byte '"') ∧
      ∀ k < hashes, bytes[n + 1 + k]? = some (byte '#') := by
  induction bytes generalizing n with
  | nil => cases h
  | cons b bytes ih =>
      rw [rawClose] at h
      split at h
      case isTrue hclose =>
        cases h
        obtain ⟨rfl, hhashes⟩ := hclose
        refine ⟨rfl, ?_⟩
        intro k hk
        have hbyte := congrArg (fun part => part[k]?) hhashes
        simp only [List.getElem?_take_of_lt hk, List.getElem?_replicate_of_lt hk] at hbyte
        rw [Nat.zero_add, Nat.add_comm, List.getElem?_cons_succ]
        exact hbyte
      case isFalse =>
        obtain ⟨m, hm, rfl⟩ := Option.map_eq_some_iff.mp h
        obtain ⟨hquote, hhashes⟩ := ih hm
        refine ⟨hquote, ?_⟩
        intro k hk
        have hplace : m + 1 + 1 + k = m + 1 + k + 1 := by omega
        rw [hplace, List.getElem?_cons_succ]
        exact hhashes k hk

theorem rawMove_good (hlt : i < (encode text).length) (hashes : UInt8) :
    (rawMove text i hashes).Good text i (.rawString hashes) := by
  unfold rawMove
  split
  case h_1 n hclose =>
    obtain ⟨hquote, hhashes⟩ := rawClose_some hclose
    refine .token (by omega) ?_ trivial
    -- the last byte is a quote or a hash
    generalize hashes.toNat = count at hhashes
    cases count with
    | zero =>
        rw [List.getElem?_drop] at hquote
        exact .after_ascii hquote (by decide)
    | succ count =>
        have hlast := hhashes count (Nat.lt_succ_self count)
        rw [List.getElem?_drop] at hlast
        have hplace : i + n + 1 + (count + 1) = i + (n + 1 + count) + 1 := by omega
        rw [hplace]
        exact .after_ascii hlast (by decide)
  case h_2 => exact .token hlt (.end text) trivial

theorem escape_lt (lang : Lang) : escape lang < 128 := by
  unfold escape
  split <;> decide

/-- A quote ends behind its ASCII delimiter, or with the text. -/
theorem quoteEnd_some (lang : Lang) {ch : UInt8} (hch : ch < 128) (triple : Bool)
    (turns stop : Nat) (hle : stop ≤ (encode text).length)
    (hturns : (encode text).length - stop < turns) :
    ∃ last closed, quoteEnd lang text ch triple turns stop = some (last, closed) ∧
      Boundary text last ∧ stop ≤ last ∧ (stop < (encode text).length → stop < last) := by
  induction turns generalizing stop with
  | zero => omega
  | succ turns ih =>
      rw [quoteEnd]
      by_cases hlt : stop < (encode text).length
      · simp only [if_pos hlt]
        split
        case isTrue hescape =>
          have hbyte := beq_iff_eq.mp (Bool.and_eq_true_iff.mp hescape).2
          split
          case isTrue hnext =>
            have hbehind := Boundary.after_ascii hbyte (escape_lt lang)
            obtain ⟨width, hwidth, hpos, hstop⟩ := widthAt_some hbehind hnext
            obtain ⟨last, closed, hquote, hlast, hbefore, -⟩ :=
              ih (stop + 1 + width) hstop.le (by omega)
            refine ⟨last, closed, ?_, hlast, by omega, by omega⟩
            rw [hwidth]
            exact hquote
          case isFalse =>
            obtain ⟨last, closed, hquote, hlast, hbefore, -⟩ :=
              ih (stop + 1) hlt (by omega)
            exact ⟨last, closed, hquote, hlast, by omega, by omega⟩
        case isFalse =>
          split
          case isTrue htriple =>
            have hthird := (Bool.and_eq_true_iff.mp (Bool.and_eq_true_iff.mp htriple).2).2
            exact ⟨stop + 3, true, rfl, .after_ascii (beq_iff_eq.mp hthird) hch, by omega, by omega⟩
          case isFalse =>
            split
            case isTrue hsingle =>
              have hbyte := beq_iff_eq.mp (Bool.and_eq_true_iff.mp hsingle).2
              exact ⟨stop + 1, true, rfl, .after_ascii hbyte hch, by omega, by omega⟩
            case isFalse =>
              obtain ⟨last, closed, hquote, hlast, hbefore, -⟩ :=
                ih (stop + 1) hlt (by omega)
              exact ⟨last, closed, hquote, hlast, by omega, by omega⟩
      · have heq : stop = (encode text).length := by omega
        rw [if_neg hlt]
        exact ⟨stop, false, rfl, heq ▸ .end text, by omega, by omega⟩

theorem quoteMove_good {ch : UInt8} (hch : ch < 128) (triple : Bool)
    (hlt : i < (encode text).length) :
    ∃ move, quoteMove lang text i ch triple = some move ∧ move.Good text i (.quote ch triple) := by
  obtain ⟨last, closed, hquote, hlast, -, hprogress⟩ :=
    quoteEnd_some lang hch triple ((encode text).length + 1) i hlt.le (by omega)
  refine ⟨.token last .string (if closed then .plain else .quote ch triple), ?_,
    .token (hprogress hlt) hlast ?_⟩
  · rw [quoteMove, hquote]
    rfl
  · cases closed
    · exact hch
    · trivial

theorem opensBlock_eq {bytes : List UInt8} (h : opensBlock lang bytes i = true) :
    bytes[i + 1]? = some (closeFirst (lang == .powerShell)) := by
  rw [opensBlock, Bool.or_eq_true, Bool.and_eq_true, Bool.and_eq_true] at h
  obtain ⟨hlang, hpair⟩ | ⟨hlang, hpair⟩ := h
  · have hother : (lang == .powerShell) = false := by
      cases lang <;> first | rfl | cases hlang
    rw [hother]
    exact (pairAt_eq.mp hpair).2
  · rw [hlang]
    exact (pairAt_eq.mp hpair).2

theorem closeFirst_lt (powershell : Bool) : closeFirst powershell < 128 := by
  cases powershell <;> decide

theorem rawStart_some {hashes : Nat} (h : rawStart lang (encode text) i = some (hashes, stop)) :
    i < stop ∧ Boundary text stop := by
  unfold rawStart at h
  split at h
  · generalize hfrom : (if (encode text)[i]? == some (byte 'b') then i + 1 else i) = start at h
    have hle : i ≤ start := by
      rw [← hfrom]
      split <;> omega
    dsimp only at h
    split at h
    case isTrue hquote =>
      cases h
      rw [beq_iff_eq] at hquote
      exact ⟨by omega, .after_ascii hquote (by decide)⟩
    case isFalse => cases h
  · cases h

theorem openQuote_good {c : UInt8} (hc : (encode text)[i]? = some c) (hascii : c < 128) :
    ∃ move, openQuote lang text i c = some move ∧ move.Good text i .plain := by
  obtain ⟨rest, hrest, -⟩ := slice_rest (.of_ascii hc hascii)
  have hnext : Boundary text (i + 1) := .after_ascii hc hascii
  rw [openQuote, hrest]
  simp only [Option.bind_eq_bind, Option.bind_some]
  split
  case isTrue => exact ⟨_, rfl, .skip (Nat.lt_succ_self i) hnext⟩
  case isFalse =>
    split
    case isTrue htriple =>
      have hthird := (Bool.and_eq_true_iff.mp (Bool.and_eq_true_iff.mp htriple).2).2
      exact ⟨_, rfl, .token (by omega) (.after_ascii (beq_iff_eq.mp hthird) hascii) hascii⟩
    case isFalse => exact ⟨_, rfl, .token (Nat.lt_succ_self i) hnext hascii⟩

theorem wordMove_good {c : UInt8} (hc : (encode text)[i]? = some c) (hascii : c < 128) :
    ∃ move, wordMove isUppercase lang text i c = some move ∧ move.Good text i .plain := by
  have hstop := boundary_while isWord_lt hc hascii
  obtain ⟨word, hword, -, -⟩ := slice_between (.of_ascii hc hascii) hstop (by omega)
  refine ⟨.token _ (wordInk isUppercase lang word c ((encode text).drop
    (i + 1 + (((encode text).drop (i + 1)).takeWhile isWord).length))) .plain, ?_,
    .token (by omega) hstop trivial⟩
  rw [wordMove]
  simp only [hword, Option.bind_eq_bind, Option.bind_some, Option.pure_def]

theorem plainMove_good (h : Boundary text i) (hlt : i < (encode text).length) :
    ∃ move, plainMove isUppercase lang text i = some move ∧ move.Good text i .plain := by
  have hc : (encode text)[i]? = some (encode text)[i] := List.getElem?_eq_getElem hlt
  generalize (encode text)[i] = c at hc
  rw [plainMove]
  simp only [hc, Option.bind_eq_bind, Option.bind_some]
  split
  case isTrue => exact ⟨_, rfl, .line⟩
  case isFalse =>
    split
    case isTrue hblock =>
      have hsecond := opensBlock_eq hblock
      exact ⟨_, rfl, .token (by omega) (.after_ascii hsecond (closeFirst_lt _)) trivial⟩
    case isFalse =>
      split
      case h_1 hashes stop hraw =>
        obtain ⟨hbefore, hstop⟩ := rawStart_some hraw
        exact ⟨_, rfl, .token hbefore hstop trivial⟩
      case h_2 =>
        split
        case isTrue hquote =>
          refine openQuote_good hc ?_
          simp only [Bool.or_eq_true, Bool.and_eq_true] at hquote
          obtain (hquote | hquote) | ⟨hquote, -⟩ := hquote
          · exact byte_lt hquote (by decide)
          · exact byte_lt hquote (by decide)
          · exact byte_lt hquote (by decide)
        case isFalse =>
          split
          case isTrue hdigit =>
            have hstop := boundary_while isNumberByte_lt hc (isAsciiDigit_lt hdigit)
            exact ⟨_, rfl, .token (by omega) hstop trivial⟩
          case isFalse =>
            split
            case isTrue hident => exact wordMove_good hc (identStart_lt hident)
            case isFalse =>
              obtain ⟨width, hwidth, hpos, hnext⟩ := widthAt_some h hlt
              rw [hwidth]
              exact ⟨_, rfl, .skip (by omega) hnext⟩

variable (isUppercase lang) in
/-- There is a move wherever the scanner is, and it goes on to an offset between characters. -/
theorem scanMove_good {state : State} (hstate : state.Wf) (h : Boundary text i)
    (hlt : i < (encode text).length) :
    ∃ move, scanMove isUppercase lang text i state = some move ∧ move.Good text i state := by
  cases state with
  | plain => exact plainMove_good h hlt
  | blockComment powershell => exact commentMove_good h hlt powershell
  | quote ch triple => exact quoteMove_good hstate triple hlt
  | rawString hashes => exact ⟨_, rfl, rawMove_good hlt hashes⟩

/-! ### What is shown -/

def textOf (spans : List (Span Style)) : Text := spans.flatMap Span.text

/-- The colours of the bytes of spans. -/
def inksOf (spans : List (Span Style)) : List SyntaxInk :=
  (styled spans).flatMap fun shown => List.replicate shown.1.utf8Size shown.2.ink

theorem textOf_append (spans spans' : List (Span Style)) :
    textOf (spans ++ spans') = textOf spans ++ textOf spans' := by
  simp [textOf]

theorem inksOf_append (spans spans' : List (Span Style)) :
    inksOf (spans ++ spans') = inksOf spans ++ inksOf spans' := by
  simp [inksOf, styled]

theorem textOf_styled (spans : List (Span Style)) :
    textOf spans = (styled spans).map Prod.fst := by
  simp [textOf, styled, List.map_flatMap, Function.comp_def]

theorem textOf_push (out : List (Span Style)) (part : Text) (style : Style) :
    textOf (push out part style) = textOf out ++ part := by
  rw [textOf_styled, styled_push, List.map_append, ← textOf_styled, List.map_map]
  congr 1
  exact List.map_id part

theorem flatMap_replicate (part : Text) (style : Style) :
    (part.map fun ch => (ch, style)).flatMap
        (fun shown => List.replicate shown.1.utf8Size shown.2.ink) =
      List.replicate (encode part).length style.ink := by
  induction part with
  | nil => rfl
  | cons c part ih =>
      rw [List.map_cons, List.flatMap_cons, ih, length_encode_cons, List.replicate_add]

theorem inksOf_push (out : List (Span Style)) (part : Text) (style : Style) :
    inksOf (push out part style) =
      inksOf out ++ List.replicate (encode part).length style.ink := by
  rw [inksOf, styled_push, List.flatMap_append, flatMap_replicate]
  rfl

theorem textOf_pushInk (out : List (Span Style)) (part : Text) (ink : SyntaxInk) :
    textOf (pushInk out part {} ink) = textOf out ++ part := by
  unfold pushInk
  split
  case isTrue hempty => rw [List.isEmpty_iff.mp hempty, List.append_nil]
  case isFalse => exact textOf_push out part _

theorem inksOf_pushInk (out : List (Span Style)) (part : Text) (ink : SyntaxInk) :
    inksOf (pushInk out part {} ink) =
      inksOf out ++ List.replicate (encode part).length ink := by
  unfold pushInk
  split
  case isTrue hempty =>
    rw [List.isEmpty_iff.mp hempty, encode_nil, List.length_nil, List.replicate_zero,
      List.append_nil]
  case isFalse => exact inksOf_push out part _

/-- In which state a byte is met, and its colour. -/
abbrev Label := State × SyntaxInk

/-- The bytes that come first, and the others. -/
def prepend (labels : List Label) (rest : Option (List Label × State)) :
    Option (List Label × State) :=
  rest.map fun painted => (labels ++ painted.1, painted.2)

variable (isUppercase) in
/-- The bytes of a span from an offset on, and the state at its end, for at most so many turns. -/
def paintLoop (lang : Lang) (text : Text) : Nat → Nat → State → Option (List Label × State)
  | 0, _, _ => none
  | turns + 1, i, state =>
      if i < (encode text).length then
        match scanMove isUppercase lang text i state with
        | none => none
        | some (.skip stop) =>
            prepend (List.replicate (stop - i) (state, .plain))
              (paintLoop lang text turns stop state)
        | some .line =>
            some (List.replicate ((encode text).length - i) (state, .comment), .plain)
        | some (.token stop ink next) =>
            prepend (List.replicate (stop - i) (state, ink)) (paintLoop lang text turns stop next)
      else some ([], state)

variable (isUppercase) in
def paintFrom (lang : Lang) (text : Text) (i : Nat) (state : State) :
    Option (List Label × State) :=
  paintLoop isUppercase lang text ((encode text).length - i + 1) i state

variable (isUppercase) in
/-- The bytes of spans one after the other. -/
def paintSpans (lang : Lang) : List Text → State → Option (List Label × State)
  | [], state => some ([], state)
  | text :: texts, state => do
      let (labels, next) ← paintFrom isUppercase lang text 0 state
      prepend labels (paintSpans lang texts next)

/-- More turns than bytes do not matter. -/
theorem paintLoop_turns (turns turns' : Nat) {state : State} (hstate : state.Wf)
    (h : Boundary text i) (hturns : (encode text).length - i < turns)
    (hturns' : (encode text).length - i < turns') :
    paintLoop isUppercase lang text turns i state =
      paintLoop isUppercase lang text turns' i state := by
  induction turns generalizing i state turns' with
  | zero => omega
  | succ turns ih =>
      obtain ⟨turns', rfl⟩ : ∃ n, turns' = n + 1 := ⟨turns' - 1, by omega⟩
      rw [paintLoop, paintLoop]
      by_cases hlt : i < (encode text).length
      · rw [if_pos hlt, if_pos hlt]
        obtain ⟨move, hmove, hgood⟩ := scanMove_good isUppercase lang hstate h hlt
        rw [hmove]
        cases hgood with
        | skip hbefore hstop =>
            have hle := hstop.le
            simp only [ih turns' hstate hstop (by omega) (by omega)]
        | token hbefore hstop hnext =>
            have hle := hstop.le
            simp only [ih turns' hnext hstop (by omega) (by omega)]
        | line => rfl
      · rw [if_neg hlt, if_neg hlt]

theorem paintFrom_end (state : State) :
    paintFrom isUppercase lang text (encode text).length state = some ([], state) := by
  rw [paintFrom, paintLoop, if_neg (Nat.lt_irrefl _)]

theorem paintFrom_token {state next : State} {ink : SyntaxInk} (hlt : i < (encode text).length)
    (hmove : scanMove isUppercase lang text i state = some (.token stop ink next))
    (hbefore : i < stop) (hstop : Boundary text stop) (hnext : next.Wf) :
    paintFrom isUppercase lang text i state =
      prepend (List.replicate (stop - i) (state, ink))
        (paintFrom isUppercase lang text stop next) := by
  have hle := hstop.le
  rw [paintFrom, paintLoop, if_pos hlt, hmove]
  simp only
  rw [paintFrom, paintLoop_turns _ ((encode text).length - stop + 1) hnext hstop (by omega)
    (by omega)]

theorem paintFrom_skip {state : State} (hstate : state.Wf) (hlt : i < (encode text).length)
    (hmove : scanMove isUppercase lang text i state = some (.skip stop))
    (hbefore : i < stop) (hstop : Boundary text stop) :
    paintFrom isUppercase lang text i state =
      prepend (List.replicate (stop - i) (state, .plain))
        (paintFrom isUppercase lang text stop state) := by
  have hle := hstop.le
  rw [paintFrom, paintLoop, if_pos hlt, hmove]
  simp only
  rw [paintFrom, paintLoop_turns _ ((encode text).length - stop + 1) hstate hstop (by omega)
    (by omega)]

theorem paintFrom_line {state : State} (hlt : i < (encode text).length)
    (hmove : scanMove isUppercase lang text i state = some .line) :
    paintFrom isUppercase lang text i state =
      some (List.replicate ((encode text).length - i) (state, .comment), .plain) := by
  rw [paintFrom, paintLoop, if_pos hlt, hmove]

/-- The bytes behind a place, where the state there is `state`: the first is met in this state, and
without bytes it is the last. -/
structure From (state : State) (labels : List Label) (last : State) : Prop where
  empty : labels = [] → last = state
  head : ∀ label ∈ labels.head?, label.1 = state
  wf : last.Wf

theorem From.prepend {next last : State} {labels : List Label} (h : From next labels last)
    (state : State) {n : Nat} (hn : 0 < n) (ink : SyntaxInk) :
    From state (List.replicate n (state, ink) ++ labels) last := by
  obtain ⟨n, rfl⟩ : ∃ m, n = m + 1 := ⟨n - 1, by omega⟩
  rw [List.replicate_succ, List.cons_append]
  refine ⟨?_, ?_, h.wf⟩
  · intro hnil
    cases hnil
  · intro label hlabel
    cases hlabel
    rfl

/-- The text up to an offset is shown, and then up to a later one. -/
theorem pushInk_upTo {out : List (Span Style)} (hi : Boundary text i) (hstop : Boundary text stop)
    (hle : i ≤ stop) (htext : textOf out = upTo i text) (ink : SyntaxInk) :
    ∃ part, slice text i stop = some part ∧
      textOf (pushInk out part {} ink) = upTo stop text ∧
      inksOf (pushInk out part {} ink) = inksOf out ++ List.replicate (stop - i) ink := by
  obtain ⟨part, hpart, hupTo, hencode⟩ := slice_between hi hstop hle
  have hlength : (encode part).length = stop - i := by
    have hend := hstop.le
    rw [hencode, List.length_take, List.length_drop]
    omega
  refine ⟨part, hpart, ?_, ?_⟩
  · rw [textOf_pushInk, htext, hupTo]
  · rw [inksOf_pushInk, hlength]

theorem flushPlain_upTo {s : Scanner} (hplain : Boundary text s.plain)
    (hstop : Boundary text stop) (hle : s.plain ≤ stop) (htext : textOf s.out = upTo s.plain text) :
    ∃ out, flushPlain text s stop = some out ∧ textOf out = upTo stop text ∧
      inksOf out = inksOf s.out ++ List.replicate (stop - s.plain) .plain := by
  obtain ⟨part, hpart, htexts, hinks⟩ := pushInk_upTo hplain hstop hle htext .plain
  rw [flushPlain]
  by_cases hlt : s.plain < stop
  · rw [if_pos hlt, hpart]
    exact ⟨_, rfl, htexts, hinks⟩
  · obtain rfl : s.plain = stop := by omega
    rw [if_neg hlt]
    refine ⟨s.out, rfl, htext, ?_⟩
    rw [Nat.sub_self, List.replicate_zero, List.append_nil]

/-- What is shown before a token: what is plain up to there. -/
theorem flushed {s : Scanner} (hi : Boundary text s.i) (hplain : Boundary text s.plain)
    (hle : s.plain ≤ s.i) (hshown : s.state ≠ .plain → s.plain = s.i)
    (htext : textOf s.out = upTo s.plain text) :
    ∃ out, beforeToken text s = some out ∧
      textOf out = upTo s.i text ∧
      inksOf out = inksOf s.out ++ List.replicate (s.i - s.plain) .plain := by
  unfold beforeToken
  by_cases hstate : s.state = .plain
  · rw [if_pos hstate]
    exact flushPlain_upTo hplain hi hle htext
  · have heq := hshown hstate
    rw [if_neg hstate]
    refine ⟨s.out, rfl, heq ▸ htext, ?_⟩
    rw [heq, Nat.sub_self, List.replicate_zero, List.append_nil]

variable (isUppercase lang) in
/-- The loop shows the text, in the colours in which its bytes are painted. -/
theorem scanLoop_painted (turns : Nat) {s : Scanner} (hstate : s.state.Wf)
    (hi : Boundary text s.i) (hplain : Boundary text s.plain) (hle : s.plain ≤ s.i)
    (hshown : s.state ≠ .plain → s.plain = s.i) (hturns : (encode text).length - s.i < turns)
    (htext : textOf s.out = upTo s.plain text) :
    ∃ out labels last, scanLoop isUppercase lang text turns s = some (out, last) ∧
      paintFrom isUppercase lang text s.i s.state = some (labels, last) ∧
      textOf out = text ∧
      inksOf out = inksOf s.out ++ List.replicate (s.i - s.plain) .plain ++ labels.map Prod.snd ∧
      labels.length = (encode text).length - s.i ∧ From s.state labels last := by
  induction turns generalizing s with
  | zero => omega
  | succ turns ih =>
      have hend := hi.le
      rw [scanLoop]
      by_cases hlt : s.i < (encode text).length
      · obtain ⟨move, hmove, hgood⟩ := scanMove_good isUppercase lang hstate hi hlt
        obtain ⟨flushedOut, hflushed, hflushedText, hflushedInks⟩ :=
          flushed hi hplain hle hshown htext
        rw [if_pos hlt, hmove]
        cases move with
        | skip stop =>
            obtain ⟨hbefore, hstop, hplainState⟩ :
                s.i < stop ∧ Boundary text stop ∧ s.state = .plain := by
              generalize s.state = state at hgood
              cases hgood with
              | skip hbefore hstop => exact ⟨hbefore, hstop, rfl⟩
            have hstopEnd := hstop.le
            obtain ⟨out, labels, last, hloop, hpaint, houtText, houtInks, hlength, hfrom⟩ :=
              ih (s := { s with i := stop }) hstate hstop hplain (by simp only; omega)
                (fun hne => absurd hplainState hne) (by simp only; omega) htext
            refine ⟨out, List.replicate (stop - s.i) (s.state, .plain) ++ labels, last, hloop, ?_,
              houtText, ?_, ?_, hfrom.prepend s.state (by omega) _⟩
            · rw [paintFrom_skip hstate hlt hmove hbefore hstop, hpaint]
              rfl
            · have hsplit : stop - s.plain = (s.i - s.plain) + (stop - s.i) := by omega
              rw [houtInks, List.map_append, List.map_replicate]
              simp only
              rw [hsplit, List.replicate_add]
              simp only [List.append_assoc]
            · rw [List.length_append, List.length_replicate, hlength]
              simp only
              omega
        | line =>
            have hplainState : s.state = .plain := by
              generalize s.state = state at hgood
              cases hgood with
              | line => rfl
            obtain ⟨rest, hrest, hrestText, hrestInks⟩ :=
              pushInk_upTo hi (.end text) hend hflushedText .comment
            rw [beforeToken, if_pos hplainState] at hflushed
            refine ⟨pushInk flushedOut rest {} .comment,
              List.replicate ((encode text).length - s.i) (s.state, .comment), .plain, ?_,
              paintFrom_line hlt hmove, hrestText.trans (upTo_end text), ?_, List.length_replicate,
              ?_⟩
            · simp only [Option.bind_eq_bind, Option.bind_some, hflushed, hrest, Option.pure_def]
            · rw [hrestInks, hflushedInks, List.map_replicate]
            · have hnone : From .plain [] .plain := ⟨fun _ => rfl, nofun, trivial⟩
              have hline := hnone.prepend s.state (n := (encode text).length - s.i)
                (by omega) .comment
              rwa [List.append_nil] at hline
        | token stop ink next =>
            obtain ⟨hbefore, hstop, hnext⟩ : s.i < stop ∧ Boundary text stop ∧ next.Wf := by
              generalize s.state = state at hgood
              cases hgood with
              | token hbefore hstop hnext => exact ⟨hbefore, hstop, hnext⟩
            have hstopEnd := hstop.le
            obtain ⟨part, hpart, hpartText, hpartInks⟩ :=
              pushInk_upTo hi hstop hbefore.le hflushedText ink
            obtain ⟨out, labels, last, hloop, hpaint, houtText, houtInks, hlength, hfrom⟩ :=
              ih (s := ⟨pushInk flushedOut part {} ink, stop, stop, next⟩) hnext hstop hstop
                (Nat.le_refl _) (fun _ => rfl) (by simp only; omega) hpartText
            refine ⟨out, List.replicate (stop - s.i) (s.state, ink) ++ labels, last, ?_, ?_,
              houtText, ?_, ?_, hfrom.prepend s.state (by omega) _⟩
            · simp only [Option.bind_eq_bind, Option.bind_some, hflushed, hpart]
              exact hloop
            · rw [paintFrom_token hlt hmove hbefore hstop hnext, hpaint]
              rfl
            · rw [houtInks, hpartInks, hflushedInks, List.map_append, List.map_replicate]
              simp
            · rw [List.length_append, List.length_replicate, hlength]
              simp only
              omega
      · have heq : s.i = (encode text).length := by omega
        obtain ⟨out, hout, houtText, houtInks⟩ :=
          flushPlain_upTo hplain (.end text) (heq ▸ hle) htext
        rw [if_neg hlt]
        refine ⟨out, [], s.state, ?_, ?_, houtText.trans (upTo_end text), ?_, ?_,
          fun _ => rfl, nofun, hstate⟩
        · simp only [Option.bind_eq_bind, hout, Option.bind_some, Option.pure_def]
        · rw [heq, paintFrom_end]
        · rw [houtInks, heq, List.map_nil, List.append_nil]
        · rw [heq, Nat.sub_self, List.length_nil]

variable (isUppercase lang) in
/-- A span is scanned to its end; its text stays, in the colours in which its bytes are painted. -/
theorem scan_painted (text : Text) {state : State} (hstate : state.Wf) :
    ∃ out labels last, scan isUppercase lang text state = some (out, last) ∧
      paintFrom isUppercase lang text 0 state = some (labels, last) ∧
      textOf out = text ∧ inksOf out = labels.map Prod.snd ∧
      labels.length = (encode text).length ∧ From state labels last := by
  obtain ⟨out, labels, last, hscan, hpaint, htext, hinks, hlength, hfrom⟩ :=
    scanLoop_painted isUppercase lang ((encode text).length + 1) (s := { state := state }) hstate
      (Boundary.zero text) (Boundary.zero text) (Nat.le_refl 0) (fun _ => rfl) (by simp only; omega)
      (upTo_zero text).symm
  exact ⟨out, labels, last, hscan, hpaint, htext, hinks, hlength, hfrom⟩

theorem textOf_partOf (out : List (Span Style)) (outer : Style) :
    textOf (out.map (partOf outer)) = textOf out := by
  simp [textOf, List.flatMap_map, partOf]

theorem inksOf_partOf (out : List (Span Style)) (outer : Style) :
    inksOf (out.map (partOf outer)) = inksOf out := by
  simp [inksOf, styled, List.flatMap_map, List.flatMap_assoc, partOf, Style.within]

theorem prepend_some {labels rest : List Label} {last : State} :
    prepend labels (some (rest, last)) = some (labels ++ rest, last) := rfl

theorem prepend_nil (rest : Option (List Label × State)) : prepend [] rest = rest := by
  cases rest <;> rfl

theorem prepend_prepend (labels labels' : List Label) (rest : Option (List Label × State)) :
    prepend labels (prepend labels' rest) = prepend (labels ++ labels') rest := by
  cases rest with
  | none => rfl
  | some painted => simp [prepend]

theorem From.append {state next last : State} {labels rest : List Label}
    (h : From state labels next) (h' : From next rest last) :
    From state (labels ++ rest) last := by
  cases labels with
  | nil =>
      obtain rfl := h.empty rfl
      exact h'
  | cons label labels =>
      refine ⟨?_, ?_, h'.wf⟩
      · intro hnil
        cases hnil
      · intro first hfirst
        exact h.head first hfirst

variable (isUppercase lang) in
theorem highlightSpans_painted (spans : List (Span Style)) {state : State} (hstate : state.Wf) :
    ∃ out labels last, highlightSpans isUppercase lang state spans = some (out, last) ∧
      paintSpans isUppercase lang (spans.map Span.text) state = some (labels, last) ∧
      textOf out = textOf spans ∧ inksOf out = labels.map Prod.snd ∧ From state labels last := by
  induction spans generalizing state with
  | nil => exact ⟨[], [], state, rfl, rfl, rfl, rfl, fun _ => rfl, nofun, hstate⟩
  | cons span spans ih =>
      obtain ⟨colored, labels, next, hscan, hpaint, htext, hinks, -, hfrom⟩ :=
        scan_painted isUppercase lang span.text hstate
      obtain ⟨rest, restLabels, last, hspans, hrest, hrestText, hrestInks, hrestFrom⟩ :=
        ih hfrom.wf
      refine ⟨colored.map (partOf span.style) ++ rest, labels ++ restLabels, last, ?_, ?_, ?_, ?_,
        hfrom.append hrestFrom⟩
      · rw [highlightSpans, hscan]
        simp only [Option.bind_eq_bind, Option.bind_some, hspans, Option.pure_def]
      · rw [List.map_cons, paintSpans, hpaint]
        simp only [Option.bind_eq_bind, Option.bind_some, hrest]
        rfl
      · rw [textOf_append, textOf_partOf, htext, hrestText]
        rfl
      · rw [inksOf_append, inksOf_partOf, hinks, hrestInks, List.map_append]

theorem prepend_bind (labels : List Label) (painted : Option (List Label × State))
    (rest : State → Option (List Label × State)) :
    (prepend labels painted).bind (fun first => prepend first.1 (rest first.2)) =
      prepend labels (painted.bind fun first => prepend first.1 (rest first.2)) := by
  cases painted with
  | none => rfl
  | some first => exact (prepend_prepend labels first.1 (rest first.2)).symm

theorem paintSpans_cons (text : Text) (texts : List Text) (state : State) :
    paintSpans isUppercase lang (text :: texts) state =
      (paintFrom isUppercase lang text 0 state).bind fun painted =>
        prepend painted.1 (paintSpans isUppercase lang texts painted.2) := by
  rw [paintSpans]
  rfl

/-- Spans are painted one part after the other. -/
theorem paintSpans_append (texts texts' : List Text) (state : State) :
    paintSpans isUppercase lang (texts ++ texts') state =
      (paintSpans isUppercase lang texts state).bind fun painted =>
        prepend painted.1 (paintSpans isUppercase lang texts' painted.2) := by
  induction texts generalizing state with
  | nil =>
      rw [List.nil_append, paintSpans, Option.bind_some]
      cases paintSpans isUppercase lang texts' state <;> rfl
  | cons text texts ih =>
      rw [List.cons_append, paintSpans_cons, paintSpans_cons]
      cases paintFrom isUppercase lang text 0 state with
      | none => rfl
      | some painted =>
          rw [Option.bind_some, Option.bind_some, ih, ← prepend_bind]

variable (isUppercase lang) in
theorem highlightLines_painted (lines : List (Line Style)) {state : State} (hstate : state.Wf) :
    ∃ out labels last, highlightLines isUppercase lang state lines = some (out, last) ∧
      paintSpans isUppercase lang (lines.flatMap fun line => line.spans.map Span.text) state =
        some (labels, last) ∧
      out.map (fun line => textOf line.spans) = lines.map (fun line => textOf line.spans) ∧
      (out.flatMap fun line => inksOf line.spans) = labels.map Prod.snd ∧
      From state labels last := by
  induction lines generalizing state with
  | nil => exact ⟨[], [], state, rfl, rfl, rfl, rfl, fun _ => rfl, nofun, hstate⟩
  | cons line lines ih =>
      obtain ⟨spans, labels, next, hspans, hpaint, htext, hinks, hfrom⟩ :=
        highlightSpans_painted isUppercase lang line.spans hstate
      obtain ⟨rest, restLabels, last, hlines, hrest, hrestText, hrestInks, hrestFrom⟩ :=
        ih hfrom.wf
      refine ⟨{ line with spans := spans } :: rest, labels ++ restLabels, last, ?_, ?_, ?_, ?_,
        hfrom.append hrestFrom⟩
      · rw [highlightLines, hspans]
        simp only [Option.bind_eq_bind, Option.bind_some, hlines, Option.pure_def]
      · rw [List.flatMap_cons, paintSpans_append, hpaint, Option.bind_some, hrest]
        rfl
      · rw [List.map_cons, List.map_cons, hrestText]
        simp only [htext]
      · rw [List.flatMap_cons, hrestInks, List.map_append]
        simp only [hinks]

/-! ### Where a block comment ends -/

/-- How many bytes there are up to the end of the first closing delimiter.  None goes from one line
to the next. -/
def firstClose (x y : UInt8) : List (List UInt8) → Option Nat
  | [] => none
  | line :: lines =>
      match findPair x y line with
      | some n => some (n + 2)
      | none => (firstClose x y lines).map (line.length + ·)

theorem two_le_firstClose {x y : UInt8} {lines : List (List UInt8)} {m : Nat}
    (h : firstClose x y lines = some m) : 2 ≤ m := by
  induction lines generalizing m with
  | nil => cases h
  | cons line lines ih =>
      rw [firstClose] at h
      split at h
      · cases h
        omega
      · obtain ⟨n, hn, rfl⟩ := Option.map_eq_some_iff.mp h
        have hle := ih hn
        omega

theorem findPair_append {x y : UInt8} {a : List UInt8} {n : Nat} (h : findPair x y a = some n)
    (b : List UInt8) : findPair x y (a ++ b) = some n := by
  induction a generalizing n with
  | nil => cases h
  | cons c a ih =>
      rw [findPair] at h
      rw [List.cons_append, findPair]
      split at h
      case isTrue hpair =>
        have hhead : (a ++ b).head? = some y := by
          rw [List.head?_append, hpair.2]
          rfl
        rw [if_pos ⟨hpair.1, hhead⟩]
        exact h
      case isFalse hpair =>
        obtain ⟨m, hm, rfl⟩ := Option.map_eq_some_iff.mp h
        have hne : a ≠ [] := by
          rintro rfl
          cases hm
        have hhead : (a ++ b).head? = a.head? := List.head?_append_of_ne_nil a hne
        rw [hhead, if_neg hpair, ih hm]
        rfl

/-- Without a delimiter in the first part, the first one is cut or in the second part. -/
theorem findPair_append_none {x y : UInt8} {a : List UInt8} (h : findPair x y a = none)
    (b : List UInt8) :
    (a ≠ [] ∧ b.head? = some y ∧ findPair x y (a ++ b) = some (a.length - 1)) ∨
      findPair x y (a ++ b) = (findPair x y b).map (a.length + ·) := by
  induction a with
  | nil =>
      right
      rw [List.nil_append, List.length_nil]
      cases findPair x y b with
      | none => rfl
      | some n => rw [Option.map_some, Nat.zero_add]
  | cons c a ih =>
      rw [findPair] at h
      split at h
      case isTrue => cases h
      case isFalse hpair =>
        have hrest := Option.map_eq_none_iff.mp h
        rw [List.cons_append, findPair]
        cases a with
        | nil =>
            rw [List.nil_append]
            by_cases hcut : c = x ∧ b.head? = some y
            · rw [if_pos hcut]
              exact .inl ⟨List.cons_ne_nil c [], hcut.2, rfl⟩
            · rw [if_neg hcut]
              right
              cases findPair x y b with
              | none => rfl
              | some n => rw [Option.map_some, Option.map_some, List.length_singleton, Nat.add_comm]
        | cons d a =>
            rw [List.cons_append, List.head?_cons] at *
            rw [if_neg hpair]
            obtain ⟨-, hhead, hcut⟩ | hbehind := ih hrest
            · left
              rw [hcut]
              exact ⟨List.cons_ne_nil c (d :: a), hhead, rfl⟩
            · right
              rw [hbehind]
              cases findPair x y b with
              | none => rfl
              | some n =>
                  simp only [Option.map_some, List.length_cons]
                  congr 1
                  omega

section Comment

variable (isUppercase lang) in
/-- The bytes of spans behind an offset that lies in one of them, where the state is plain. -/
def paintAt : Nat → List Text → Option (List Label × State)
  | _, [] => some ([], .plain)
  | m, text :: texts =>
      if m ≤ (encode text).length then
        (paintFrom isUppercase lang text m .plain).bind fun painted =>
          prepend painted.1 (paintSpans isUppercase lang texts painted.2)
      else paintAt (m - (encode text).length) texts

/-- A byte of a block comment. -/
def inComment (powershell : Bool) : Label := (.blockComment powershell, .comment)

/-- The lines of the bytes of a comment: the rest of a span, the later spans of its line, and the
later lines. -/
def commentLines (first : List UInt8) (later : List Text) (lines : List (List Text)) :
    List (List UInt8) :=
  (first ++ later.flatMap encode) :: lines.map fun spans => spans.flatMap encode

/-- The bytes up to the end of the first closing delimiter of the comment. -/
def closeOf (powershell : Bool) (first : List UInt8) (later : List Text)
    (lines : List (List Text)) : Option Nat :=
  firstClose (closeFirst powershell) (closeSecond powershell) (commentLines first later lines)

/-- The painted bytes are those of a comment, exactly up to the end of its first closing delimiter,
where the scanner is plain again; or all of them. -/
structure Closes (powershell : Bool) (painted : Option (List Label × State)) (first : List UInt8)
    (later : List Text) (lines : List (List Text))
    (behind : Nat → Option (List Label × State)) : Prop where
  closed : ∀ m, closeOf powershell first later lines = some m →
    painted = prepend (List.replicate m (inComment powershell)) (behind m)
  unclosed : closeOf powershell first later lines = none →
    painted = some (List.replicate (commentLines first later lines).flatten.length
      (inComment powershell), .blockComment powershell)

/-- A span ends between the two bytes of the first closing delimiter. -/
def Cut (powershell : Bool) (first : List UInt8) (later : List Text)
    (lines : List (List Text)) : Prop :=
  ∃ k m, closeOf powershell first later lines = some m ∧
    (((first :: (later ++ lines.flatten).map encode).take k).flatten).length + 1 = m

theorem From.unique {state state' last : State} {labels : List Label} (h : From state labels last)
    (h' : From state' labels last) : state = state' := by
  cases labels with
  | nil => exact (h.empty rfl).symm.trans (h'.empty rfl)
  | cons label labels => exact (h.head label rfl).symm.trans (h'.head label rfl)

variable (isUppercase lang) in
theorem paintFrom_from {state : State} (hstate : state.Wf) (h : Boundary text i) :
    ∃ labels last, paintFrom isUppercase lang text i state = some (labels, last) ∧
      labels.length = (encode text).length - i ∧ From state labels last := by
  obtain ⟨out, labels, last, -, hpaint, -, -, hlength, hfrom⟩ :=
    scanLoop_painted isUppercase lang ((encode text).length - i + 1)
      (s := { out := [⟨upTo i text, {}⟩], i := i, plain := i, state := state }) hstate h h
      (Nat.le_refl i) (fun _ => rfl) (Nat.lt_succ_self _) (by simp [textOf])
  exact ⟨labels, last, hpaint, hlength, hfrom⟩

variable (isUppercase lang) in
theorem paintSpans_from (texts : List Text) {state : State} (hstate : state.Wf) :
    ∃ labels last, paintSpans isUppercase lang texts state = some (labels, last) ∧
      labels.length = (texts.flatMap encode).length ∧ From state labels last := by
  induction texts generalizing state with
  | nil => exact ⟨[], state, rfl, rfl, fun _ => rfl, nofun, hstate⟩
  | cons text texts ih =>
      obtain ⟨labels, next, hpaint, hlength, hfrom⟩ :=
        paintFrom_from isUppercase lang hstate (Boundary.zero text)
      obtain ⟨rest, last, hrest, hrestLength, hrestFrom⟩ := ih hfrom.wf
      refine ⟨labels ++ rest, last, ?_, ?_, hfrom.append hrestFrom⟩
      · rw [paintSpans, hpaint]
        simp only [Option.bind_eq_bind, Option.bind_some, hrest]
        rfl
      · rw [List.length_append, hlength, hrestLength, List.flatMap_cons, List.length_append,
          Nat.sub_zero]

variable {powershell : Bool}

/-- A comment that ends in the span. -/
theorem commentFrom_closed (h : Boundary text i) {n : Nat}
    (hfind : findPair (closeFirst powershell) (closeSecond powershell) (bytesFrom text i) =
      some n) :
    paintFrom isUppercase lang text i (.blockComment powershell) =
      prepend (List.replicate (n + 2) (inComment powershell))
        (paintFrom isUppercase lang text (i + n + 2) .plain) := by
  obtain ⟨hmove, hstop⟩ := commentMove_closed h hfind
  have hmove : scanMove isUppercase lang text i (.blockComment powershell) =
    some (.token (i + n + 2) .comment .plain) := hmove
  have hle := hstop.le
  have hcount : i + n + 2 - i = n + 2 := by omega
  rw [paintFrom_token (by omega) hmove (by omega) hstop trivial, hcount]
  rfl

/-- A comment that does not end in the span. -/
theorem commentFrom_open (h : Boundary text i)
    (hfind : findPair (closeFirst powershell) (closeSecond powershell) (bytesFrom text i) = none)
    (hend : i < (encode text).length → closesAtEnd text powershell = false) :
    paintFrom isUppercase lang text i (.blockComment powershell) =
      some (List.replicate (bytesFrom text i).length (inComment powershell),
        .blockComment powershell) := by
  rw [length_bytesFrom]
  by_cases hlt : i < (encode text).length
  · have hmove : scanMove isUppercase lang text i (.blockComment powershell) =
        some (.token (encode text).length .comment (.blockComment powershell)) := by
      rw [scanMove, commentMove_open h hfind, hend hlt]
      rfl
    rw [paintFrom_token hlt hmove hlt (.end text) trivial]
    rw [paintFrom_end, prepend_some, List.append_nil]
    rfl
  · have heq : i = (encode text).length := by
      have hle := h.le
      omega
    rw [heq, paintFrom_end, Nat.sub_self]
    rfl

theorem closesAtEnd_eq (hfind :
      findPair (closeFirst powershell) (closeSecond powershell) (bytesFrom text i) = none)
    (hlt : i < (encode text).length) (hcloses : closesAtEnd text powershell = true) :
    0 < i ∧ bytesFrom text i = [closeSecond powershell] := by
  rw [closesAtEnd, Bool.and_eq_true, decide_eq_true_eq, pairAt_eq] at hcloses
  obtain ⟨htwo, hfirst, hsecond⟩ := hcloses
  have hlast : i + 1 = (encode text).length := by
    by_contra hne
    -- otherwise the delimiter lies in what follows
    have hnone := findPair_none hfind ((encode text).length - 2 - i)
    rw [bytesFrom, List.getElem?_drop, List.getElem?_drop] at hnone
    have hplace : i + ((encode text).length - 2 - i) = (encode text).length - 2 := by omega
    have hplace' : i + ((encode text).length - 2 - i + 1) = (encode text).length - 2 + 1 := by
      omega
    rw [hplace, hplace'] at hnone
    exact hnone ⟨hfirst, hsecond⟩
  have hplace : (encode text).length - 2 + 1 = i := by omega
  rw [hplace, List.getElem?_eq_getElem hlt, Option.some_inj] at hsecond
  refine ⟨by omega, ?_⟩
  rw [bytesFrom, List.drop_eq_getElem_cons hlt, hsecond, hlast, List.drop_length]

theorem commentSpan_open
    (hfind : findPair (closeFirst powershell) (closeSecond powershell) (encode text) = none) :
    paintFrom isUppercase lang text 0 (.blockComment powershell) =
      some (List.replicate (encode text).length (inComment powershell),
        .blockComment powershell) := by
  refine commentFrom_open (.zero text) hfind ?_
  intro hlt
  refine eq_false_of_ne_true fun hcloses => ?_
  exact absurd (closesAtEnd_eq (i := 0) hfind hlt hcloses).1 (Nat.lt_irrefl 0)

variable (isUppercase lang powershell) in
/-- Behind the first byte of a span the scanner is still in the comment. -/
theorem commentFrom_behind (hne : text ≠ []) :
    ∃ labels last, paintFrom isUppercase lang text 0 (.blockComment powershell) =
      some (inComment powershell :: labels, last) ∧
        From (.blockComment powershell) labels last := by
  cases hfind : findPair (closeFirst powershell) (closeSecond powershell) (encode text) with
  | some n =>
      obtain ⟨-, hstop⟩ := commentMove_closed (i := 0) (.zero text) hfind
      obtain ⟨rest, last, hrest, -, hfrom⟩ :=
        paintFrom_from isUppercase lang State.Wf.plain hstop
      refine ⟨List.replicate (n + 1) (inComment powershell) ++ rest, last, ?_,
        hfrom.prepend _ (Nat.succ_pos n) _⟩
      rw [commentFrom_closed (.zero text) hfind, hrest]
      rfl
  | none =>
      obtain ⟨k, hk⟩ : ∃ k, (encode text).length = k + 1 := by
        have hpos : (encode text).length ≠ 0 := fun hzero => hne (length_encode_eq_zero.mp hzero)
        exact ⟨(encode text).length - 1, by omega⟩
      refine ⟨List.replicate k (inComment powershell), .blockComment powershell, ?_, ?_⟩
      · rw [commentSpan_open hfind, hk]
        rfl
      · have hnone : From (.blockComment powershell) [] (.blockComment powershell) :=
          ⟨fun _ => rfl, nofun, trivial⟩
        cases k with
        | zero => exact hnone
        | succ k =>
            have hmore := hnone.prepend (.blockComment powershell) (Nat.succ_pos k) .comment
            rwa [List.append_nil] at hmore

/-- A delimiter whose second byte begins a span does not end the comment. -/
theorem cut_not_closed (rest : List Text)
    (hhead : (rest.flatMap encode).head? = some (closeSecond powershell)) :
    paintSpans isUppercase lang rest (.blockComment powershell) ≠
      prepend [inComment powershell] (paintAt isUppercase lang 1 rest) := by
  induction rest with
  | nil => cases hhead
  | cons text rest ih =>
      rw [List.flatMap_cons] at hhead
      by_cases hnil : text = []
      · subst hnil
        have hspans : paintSpans isUppercase lang ([] :: rest) (.blockComment powershell) =
            paintSpans isUppercase lang rest (.blockComment powershell) := by
          rw [paintSpans, commentSpan_open rfl]
          exact prepend_nil _
        rw [hspans]
        exact ih hhead
      · have hne : encode text ≠ [] := fun hzero =>
          hnil (length_encode_eq_zero.mp (List.length_eq_zero_iff.mpr hzero))
        rw [List.head?_append_of_ne_nil _ hne, List.head?_eq_getElem?] at hhead
        have hone : Boundary text 1 := .after_ascii hhead (closeSecond_lt powershell)
        obtain ⟨labels, next, hpaint, hfrom⟩ :=
          commentFrom_behind isUppercase lang powershell hnil
        obtain ⟨labels', last, hrest, -, hrestFrom⟩ :=
          paintSpans_from isUppercase lang rest hfrom.wf
        obtain ⟨labels₁, next₁, hpaint₁, -, hfrom₁⟩ :=
          paintFrom_from isUppercase lang State.Wf.plain hone
        obtain ⟨labels₁', last₁, hrest₁, -, hrestFrom₁⟩ :=
          paintSpans_from isUppercase lang rest hfrom₁.wf
        rw [paintSpans, hpaint, paintAt, if_pos hone.le, hpaint₁]
        simp only [Option.bind_eq_bind, Option.bind_some, hrest, hrest₁, prepend_some]
        intro heq
        simp only [List.cons_append, List.nil_append, Option.some_inj, Prod.mk.injEq,
          List.cons.injEq, true_and] at heq
        obtain ⟨hlabels, hlast⟩ := heq
        have hbehind := hfrom.append hrestFrom
        rw [hlabels, hlast] at hbehind
        cases hbehind.unique (hfrom₁.append hrestFrom₁)

theorem prepend_inj {labels : List Label} {a b : Option (List Label × State)} :
    prepend labels a = prepend labels b ↔ a = b := by
  refine ⟨?_, fun h => h ▸ rfl⟩
  intro h
  cases a with
  | none =>
      cases b with
      | none => rfl
      | some b => cases h
  | some a =>
      cases b with
      | none => cases h
      | some b =>
          simp only [prepend, Option.map_some, Option.some_inj, Prod.mk.injEq,
            List.append_cancel_left_eq] at h
          rw [Prod.ext h.1 h.2]

theorem prepend_replicate (m n : Nat) (label : Label) (rest : Option (List Label × State)) :
    prepend (List.replicate (m + n) label) rest =
      prepend (List.replicate m label) (prepend (List.replicate n label) rest) := by
  rw [prepend_prepend, List.replicate_add]

/-- The delimiter is in the rest of the span. -/
theorem closeOf_first {first : List UInt8} {n : Nat}
    (hfind : findPair (closeFirst powershell) (closeSecond powershell) first = some n)
    (later : List Text) (lines : List (List Text)) :
    closeOf powershell first later lines = some (n + 2) := by
  rw [closeOf, commentLines, firstClose, findPair_append hfind]

/-- The delimiter is behind the rest of the span. -/
theorem closeOf_behind {first : List UInt8} {later : List Text}
    (hfind : findPair (closeFirst powershell) (closeSecond powershell)
        (first ++ later.flatMap encode) =
      (findPair (closeFirst powershell) (closeSecond powershell) (later.flatMap encode)).map
        (first.length + ·)) (lines : List (List Text)) :
    closeOf powershell first later lines =
      (closeOf powershell [] later lines).map (first.length + ·) := by
  rw [closeOf, closeOf, commentLines, commentLines, firstClose, firstClose, hfind, List.nil_append]
  cases findPair (closeFirst powershell) (closeSecond powershell) (later.flatMap encode) with
  | some n =>
      simp only [Option.map_some]
      congr 1
  | none =>
      simp only [Option.map_none, Option.map_map, List.length_append]
      congr 1
      funext m
      simp only [Function.comp_apply]
      omega

theorem length_commentLines (first : List UInt8) (later : List Text) (lines : List (List Text)) :
    (commentLines first later lines).flatten.length =
      first.length + (commentLines [] later lines).flatten.length := by
  simp [commentLines, Nat.add_assoc]

theorem cut_behind {first : List UInt8} {later : List Text} {lines : List (List Text)}
    (hclose : closeOf powershell first later lines =
      (closeOf powershell [] later lines).map (first.length + ·)) :
    Cut powershell first later lines ↔ Cut powershell [] later lines := by
  constructor
  · rintro ⟨k, m, hm, hlength⟩
    rw [hclose] at hm
    obtain ⟨m, hclosed, rfl⟩ := Option.map_eq_some_iff.mp hm
    have htwo := two_le_firstClose hclosed
    cases k with
    | zero =>
        rw [List.take_zero, List.flatten_nil, List.length_nil] at hlength
        omega
    | succ k =>
        refine ⟨k + 1, m, hclosed, ?_⟩
        rw [List.take_succ_cons, List.flatten_cons, List.length_append] at hlength ⊢
        rw [List.length_nil]
        omega
  · rintro ⟨k, m, hm, hlength⟩
    have htwo := two_le_firstClose hm
    cases k with
    | zero =>
        rw [List.take_zero, List.flatten_nil, List.length_nil] at hlength
        omega
    | succ k =>
        refine ⟨k + 1, first.length + m, by rw [hclose, hm]; rfl, ?_⟩
        rw [List.take_succ_cons, List.flatten_cons, List.length_append] at hlength ⊢
        rw [List.length_nil] at hlength
        omega

/-- What follows the rest of a span closes the comment where the whole does. -/
theorem closes_behind {painted : Option (List Label × State)} {first : List UInt8}
    {later : List Text} {lines : List (List Text)} {behind : Nat → Option (List Label × State)}
    (hclose : closeOf powershell first later lines =
      (closeOf powershell [] later lines).map (first.length + ·))
    (hpainted : painted = prepend (List.replicate first.length (inComment powershell))
      (paintSpans isUppercase lang (later ++ lines.flatten) (.blockComment powershell)))
    (hbehind : ∀ m, first.length < m →
      behind m = paintAt isUppercase lang (m - first.length) (later ++ lines.flatten)) :
    Closes powershell painted first later lines behind ↔
      Closes powershell
        (paintSpans isUppercase lang (later ++ lines.flatten) (.blockComment powershell)) [] later
        lines fun m => paintAt isUppercase lang m (later ++ lines.flatten) := by
  have hclosed (m : Nat) (hm : closeOf powershell [] later lines = some m) :
      prepend (List.replicate (first.length + m) (inComment powershell))
          (behind (first.length + m)) =
        prepend (List.replicate first.length (inComment powershell))
          (prepend (List.replicate m (inComment powershell))
            (paintAt isUppercase lang m (later ++ lines.flatten))) := by
    have htwo := two_le_firstClose hm
    rw [prepend_replicate, hbehind _ (by omega), Nat.add_sub_cancel_left]
  have hunclosed : some (List.replicate (commentLines first later lines).flatten.length
        (inComment powershell), State.blockComment powershell) =
      prepend (List.replicate first.length (inComment powershell))
        (some (List.replicate (commentLines [] later lines).flatten.length
          (inComment powershell), .blockComment powershell)) := by
    rw [prepend_some, length_commentLines, List.replicate_add]
  constructor
  · rintro ⟨hc, hu⟩
    constructor
    · intro m hm
      have h := hc (first.length + m) (by rw [hclose, hm]; rfl)
      rw [hclosed m hm, hpainted] at h
      exact prepend_inj.mp h
    · intro hnone
      have h := hu (by rw [hclose, hnone]; rfl)
      rw [hunclosed, hpainted] at h
      exact prepend_inj.mp h
  · rintro ⟨hc, hu⟩
    constructor
    · intro m hm
      rw [hclose] at hm
      obtain ⟨n, hn, rfl⟩ := Option.map_eq_some_iff.mp hm
      rw [hclosed n hn, hpainted]
      exact prepend_inj.mpr (hc n hn)
    · intro hnone
      rw [hclose] at hnone
      rw [hunclosed, hpainted]
      exact prepend_inj.mpr (hu (Option.map_eq_none_iff.mp hnone))

/-- A comment of which the rest of a span is painted, and what follows closes as it should. -/
theorem closes_of_part {painted : Option (List Label × State)} {first : List UInt8}
    {later : List Text} {lines : List (List Text)} {behind : Nat → Option (List Label × State)}
    (hsome : ∀ n, findPair (closeFirst powershell) (closeSecond powershell) first = some n →
      painted = prepend (List.replicate (n + 2) (inComment powershell)) (behind (n + 2)))
    (hnone : findPair (closeFirst powershell) (closeSecond powershell) first = none →
      painted = prepend (List.replicate first.length (inComment powershell))
        (paintSpans isUppercase lang (later ++ lines.flatten) (.blockComment powershell)))
    (hbehind : ∀ m, first.length < m →
      behind m = paintAt isUppercase lang (m - first.length) (later ++ lines.flatten))
    (ih : Closes powershell
        (paintSpans isUppercase lang (later ++ lines.flatten) (.blockComment powershell)) [] later
        lines (fun m => paintAt isUppercase lang m (later ++ lines.flatten)) ↔
      ¬ Cut powershell [] later lines) :
    Closes powershell painted first later lines behind ↔ ¬ Cut powershell first later lines := by
  cases hfind : findPair (closeFirst powershell) (closeSecond powershell) first with
  | some n =>
      have hclose := closeOf_first hfind later lines
      refine iff_of_true ⟨?_, ?_⟩ ?_
      · intro m hm
        obtain rfl : n + 2 = m := Option.some.inj (hclose.symm.trans hm)
        exact hsome n hfind
      · intro hnone
        cases hclose.symm.trans hnone
      · rintro ⟨k, m, hm, hlength⟩
        obtain rfl : n + 2 = m := Option.some.inj (hclose.symm.trans hm)
        obtain ⟨hlt, -⟩ := List.getElem?_eq_some_iff.mp (findPair_some hfind).2
        cases k with
        | zero =>
            rw [List.take_zero, List.flatten_nil, List.length_nil] at hlength
            omega
        | succ k =>
            rw [List.take_succ_cons, List.flatten_cons, List.length_append] at hlength
            omega
  | none =>
      have hpainted := hnone hfind
      obtain ⟨hne, hhead, hcut⟩ | hnext := findPair_append_none hfind (later.flatMap encode)
      · have hpos := List.length_pos_iff.mpr hne
        have hclose : closeOf powershell first later lines = some (first.length + 1) := by
          rw [closeOf, commentLines, firstClose, hcut]
          simp only
          congr 1
          omega
        refine iff_of_false ?_ (not_not_intro ⟨1, first.length + 1, hclose, ?_⟩)
        · intro hcloses
          have h := hcloses.closed _ hclose
          rw [prepend_replicate, hbehind (first.length + 1) (by omega), Nat.add_sub_cancel_left,
            hpainted] at h
          refine cut_not_closed (later ++ lines.flatten) ?_ (prepend_inj.mp h)
          rw [List.flatMap_append, List.head?_append, hhead]
          rfl
        · rw [List.take_succ_cons, List.take_zero, List.flatten_cons, List.flatten_nil,
            List.append_nil]
      · have hclose := closeOf_behind hnext lines
        exact (closes_behind hclose hpainted hbehind).trans
          (ih.trans (not_congr (cut_behind hclose)).symm)

theorem closeOf_line (powershell : Bool) (spans : List Text) (lines : List (List Text)) :
    closeOf powershell [] [] (spans :: lines) = closeOf powershell [] spans lines := by
  rw [closeOf, closeOf, commentLines, commentLines, firstClose, List.map_cons]
  simp only [List.flatMap_nil, List.append_nil, List.nil_append, findPair, List.length_nil]
  cases firstClose (closeFirst powershell) (closeSecond powershell)
      (spans.flatMap encode :: lines.map fun spans => spans.flatMap encode) with
  | none => rfl
  | some m => rw [Option.map_some, Nat.zero_add]

theorem cut_cons (later : List Text) (lines : List (List Text)) :
    Cut powershell [] (text :: later) lines ↔ Cut powershell (encode text) later lines := by
  constructor
  · rintro ⟨k, m, hm, hlength⟩
    have htwo := two_le_firstClose hm
    cases k with
    | zero =>
        rw [List.take_zero, List.flatten_nil, List.length_nil] at hlength
        omega
    | succ k => exact ⟨k, m, hm, hlength⟩
  · rintro ⟨k, m, hm, hlength⟩
    exact ⟨k + 1, m, hm, hlength⟩

theorem span_closes (later : List Text) (lines : List (List Text))
    (ih : Closes powershell
        (paintSpans isUppercase lang (later ++ lines.flatten) (.blockComment powershell)) [] later
        lines (fun m => paintAt isUppercase lang m (later ++ lines.flatten)) ↔
      ¬ Cut powershell [] later lines) :
    Closes powershell
        (paintSpans isUppercase lang (text :: later ++ lines.flatten) (.blockComment powershell)) []
        (text :: later) lines
        (fun m => paintAt isUppercase lang m (text :: later ++ lines.flatten)) ↔
      ¬ Cut powershell [] (text :: later) lines := by
  have hpart : Closes powershell
        (paintSpans isUppercase lang (text :: later ++ lines.flatten) (.blockComment powershell))
        (encode text) later lines
        (fun m => paintAt isUppercase lang m (text :: later ++ lines.flatten)) ↔
      ¬ Cut powershell (encode text) later lines := by
    refine closes_of_part ?_ ?_ ?_ ih
    · intro n hfind
      obtain ⟨-, hstop⟩ := commentMove_closed (i := 0) (.zero text) hfind
      rw [Nat.zero_add] at hstop
      rw [List.cons_append, paintSpans_cons, commentFrom_closed (.zero text) hfind, Nat.zero_add,
        paintAt, if_pos hstop.le]
      exact prepend_bind _ _ _
    · intro hfind
      rw [List.cons_append, paintSpans, commentSpan_open hfind]
      rfl
    · intro m hm
      rw [List.cons_append, paintAt, if_neg (Nat.not_le_of_lt hm)]
  refine Iff.trans ?_ (hpart.trans (not_congr (cut_cons later lines)).symm)
  exact ⟨fun h => ⟨h.closed, h.unclosed⟩, fun h => ⟨h.closed, h.unclosed⟩⟩

variable (isUppercase lang powershell) in
/-- A comment that goes on in the next spans ends at its first closing delimiter, unless a span ends
within the delimiter. -/
theorem spans_close (lines : List (List Text)) (later : List Text) :
    Closes powershell
        (paintSpans isUppercase lang (later ++ lines.flatten) (.blockComment powershell)) [] later
        lines (fun m => paintAt isUppercase lang m (later ++ lines.flatten)) ↔
      ¬ Cut powershell [] later lines := by
  -- over the lines, and over the spans of a line
  induction lines generalizing later with
  | nil =>
      induction later with
      | nil =>
          have hclose : closeOf powershell [] [] [] = none := rfl
          refine iff_of_true ⟨fun m hm => ?_, fun _ => rfl⟩ ?_
          · cases hclose.symm.trans hm
          · rintro ⟨k, m, hm, -⟩
            cases hclose.symm.trans hm
      | cons text later ih => exact span_closes later [] ih
  | cons spans lines ihLines =>
      induction later with
      | nil =>
          have hclose := closeOf_line powershell spans lines
          have hcut : Cut powershell [] [] (spans :: lines) ↔ Cut powershell [] spans lines := by
            rw [Cut, Cut, hclose]
            rfl
          refine Iff.trans ⟨?_, ?_⟩ ((ihLines spans).trans (not_congr hcut).symm)
          · rintro ⟨hc, hu⟩
            exact ⟨fun m hm => hc m (hclose.trans hm), fun hnone => hu (hclose.trans hnone)⟩
          · rintro ⟨hc, hu⟩
            exact ⟨fun m hm => hc m (hclose.symm.trans hm),
              fun hnone => hu (hclose.symm.trans hnone)⟩
      | cons text later ih => exact span_closes later (spans :: lines) ih

/-! ### An opened comment -/

variable (isUppercase) in
/-- What is painted from inside a comment on. -/
def commentRest (lang : Lang) (powershell : Bool) (text : Text) (i : Nat) (later : List Text)
    (lines : List (List Text)) : Option (List Label × State) :=
  (paintFrom isUppercase lang text i (.blockComment powershell)).bind fun painted =>
    prepend painted.1 (paintSpans isUppercase lang (later ++ lines.flatten) painted.2)

/-- All that the span has behind the opening of the comment is the second byte of the closing
delimiter. -/
def Reopened (powershell : Bool) (text : Text) (i : Nat) : Prop :=
  bytesFrom text i = [closeSecond powershell]

theorem reopened_not_closed {later : List Text} {lines : List (List Text)}
    {behind : Nat → Option (List Label × State)} (h : Boundary text i) (hpos : 0 < i)
    (hopened : (encode text)[i - 1]? = some (closeFirst powershell))
    (hreopened : Reopened powershell text i) :
    ¬ Closes powershell (commentRest isUppercase lang powershell text i later lines)
      (bytesFrom text i) later lines behind := by
  have hlength : i + 1 = (encode text).length := by
    have hcount := congrArg List.length hreopened
    rw [length_bytesFrom, List.length_singleton] at hcount
    omega
  have hcloses : closesAtEnd text powershell = true := by
    have hsecond : (bytesFrom text i)[0]? = some (closeSecond powershell) := by
      rw [hreopened]
      rfl
    rw [bytesFrom, List.getElem?_drop, Nat.add_zero] at hsecond
    rw [closesAtEnd, Bool.and_eq_true, decide_eq_true_eq, pairAt_eq]
    have hplace : (encode text).length - 2 = i - 1 := by omega
    have hplace' : i - 1 + 1 = i := by omega
    rw [hplace, hplace']
    exact ⟨by omega, hopened, hsecond⟩
  have hfind : findPair (closeFirst powershell) (closeSecond powershell) (bytesFrom text i) =
      none := by
    rw [hreopened]
    simp [findPair]
  have hmove : scanMove isUppercase lang text i (.blockComment powershell) =
      some (.token (encode text).length .comment .plain) := by
    rw [scanMove, commentMove_open h hfind, hcloses]
    rfl
  have hone : (encode text).length - i = 1 := by omega
  obtain ⟨labels, last, hpaint, -, hfrom⟩ :=
    paintSpans_from isUppercase lang (later ++ lines.flatten) State.Wf.plain
  have hrest : commentRest isUppercase lang powershell text i later lines =
      some (inComment powershell :: labels, last) := by
    rw [commentRest, paintFrom_token (by omega) hmove (by omega) (.end text) trivial,
      paintFrom_end, hone, prepend_some, Option.bind_some, hpaint]
    rfl
  rintro ⟨hc, hu⟩
  rw [hrest] at hc hu
  -- the next byte would be one of the comment
  have hstill : From (.blockComment powershell) labels last := by
    cases hclose : closeOf powershell (bytesFrom text i) later lines with
    | some m =>
        have htwo := two_le_firstClose hclose
        have heq := hc m hclose
        obtain ⟨m, rfl⟩ : ∃ n, m = n + 2 := ⟨m - 2, by omega⟩
        cases hbehind : behind (m + 2) with
        | none =>
            rw [hbehind] at heq
            cases heq
        | some rest =>
            obtain ⟨rest, next⟩ := rest
            rw [hbehind, prepend_some, List.replicate_succ, List.replicate_succ] at heq
            cases heq
            exact ⟨nofun, fun label hlabel => by cases hlabel; rfl, hfrom.wf⟩
    | none =>
        have heq := hu hclose
        generalize (commentLines (bytesFrom text i) later lines).flatten.length = total at heq
        cases total with
        | zero => cases heq
        | succ total =>
            rw [List.replicate_succ] at heq
            cases heq
            refine ⟨fun _ => rfl, ?_, trivial⟩
            intro label hlabel
            cases total with
            | zero => cases hlabel
            | succ total =>
                cases hlabel
                rfl
  cases hstill.unique hfrom

/-- An opened comment ends at its first closing delimiter, unless a span ends within this, or one
byte after the comment was opened with what closes it. -/
theorem comment_closes (h : Boundary text i) (hpos : 0 < i)
    (hopened : (encode text)[i - 1]? = some (closeFirst powershell)) (later : List Text)
    (lines : List (List Text)) :
    Closes powershell (commentRest isUppercase lang powershell text i later lines)
        (bytesFrom text i) later lines
        (fun m => paintAt isUppercase lang (i + m) (text :: later ++ lines.flatten)) ↔
      ¬ (Reopened powershell text i ∨ Cut powershell (bytesFrom text i) later lines) := by
  by_cases hreopened : Reopened powershell text i
  · exact iff_of_false (reopened_not_closed h hpos hopened hreopened)
      (not_not_intro (.inl hreopened))
  · have hcount := length_bytesFrom text i
    have hle := h.le
    rw [or_iff_right hreopened]
    refine closes_of_part ?_ ?_ ?_ (spans_close isUppercase lang powershell lines later)
    · intro n hfind
      obtain ⟨-, hstop⟩ := commentMove_closed h hfind
      have hplace : i + (n + 2) = i + n + 2 := by omega
      rw [commentRest, commentFrom_closed h hfind, List.cons_append, paintAt, hplace,
        if_pos hstop.le]
      exact prepend_bind _ _ _
    · intro hfind
      rw [commentRest, commentFrom_open h hfind ?_]
      · rfl
      · intro hlt
        refine eq_false_of_ne_true fun hcloses => ?_
        exact hreopened (closesAtEnd_eq hfind hlt hcloses).2
    · intro m hm
      have hplace : i + m - (encode text).length = m - (bytesFrom text i).length := by omega
      rw [List.cons_append, paintAt, if_neg (by omega), hplace]

theorem openQuote_opens {c : UInt8} {ink : SyntaxInk} :
    openQuote lang text i c ≠ some (.token stop ink (.blockComment powershell)) := by
  intro h
  rw [openQuote] at h
  cases hrest : slice text i (encode text).length with
  | none =>
      rw [hrest] at h
      cases h
  | some rest =>
      rw [hrest] at h
      simp only [Option.bind_eq_bind, Option.bind_some] at h
      split at h
      · cases h
      · cases h

/-- Where the scanner goes on within a comment, it has just read what opens one. -/
theorem plainMove_opens {ink : SyntaxInk}
    (h : plainMove isUppercase lang text i = some (.token stop ink (.blockComment powershell))) :
    stop = i + 2 ∧ ink = .comment ∧
      (encode text)[i + 1]? = some (closeFirst powershell) := by
  rw [plainMove] at h
  cases hc : (encode text)[i]? with
  | none =>
      rw [hc] at h
      cases h
  | some c =>
      simp only [hc, Option.bind_eq_bind, Option.bind_some] at h
      split at h
      · cases h
      · split at h
        case isTrue hblock =>
          cases h
          exact ⟨rfl, rfl, opensBlock_eq hblock⟩
        case isFalse =>
          split at h
          · cases h
          · split at h
            · exact absurd h openQuote_opens
            · split at h
              · cases h
              · split at h
                · rw [wordMove] at h
                  obtain ⟨word, -, h⟩ := Option.bind_eq_some_iff.mp h
                  cases h
                · obtain ⟨width, -, h⟩ := Option.bind_eq_some_iff.mp h
                  cases h

variable (isUppercase) in
/-- Where the scanner comes to in a span, and its state there. -/
inductive Reaches (lang : Lang) (text : Text) (start : State) : Nat → State → Prop where
  | start : Reaches lang text start 0 start
  | skip {i stop : Nat} {state : State} (h : Reaches lang text start i state)
      (hlt : i < (encode text).length)
      (hmove : scanMove isUppercase lang text i state = some (.skip stop)) :
      Reaches lang text start stop state
  | token {i stop : Nat} {state next : State} {ink : SyntaxInk}
      (h : Reaches lang text start i state) (hlt : i < (encode text).length)
      (hmove : scanMove isUppercase lang text i state = some (.token stop ink next)) :
      Reaches lang text start stop next

/-- What is painted goes on from there. -/
theorem Reaches.painted {start state : State} (hstart : start.Wf)
    (h : Reaches isUppercase lang text start i state) :
    state.Wf ∧ Boundary text i ∧ ∃ labels, paintFrom isUppercase lang text 0 start =
      prepend labels (paintFrom isUppercase lang text i state) := by
  induction h with
  | start => exact ⟨hstart, .zero text, [], (prepend_nil _).symm⟩
  | skip h hlt hmove ih =>
      obtain ⟨hstate, hboundary, labels, hpaint⟩ := ih
      obtain ⟨move, hmove', hgood⟩ := scanMove_good isUppercase lang hstate hboundary hlt
      obtain rfl := Option.some.inj (hmove.symm.trans hmove')
      cases hgood with
      | skip hbefore hstop =>
          have hstep := paintFrom_skip hstate hlt hmove hbefore hstop
          exact ⟨hstate, hstop, _,
            hpaint.trans ((congrArg (prepend labels) hstep).trans (prepend_prepend _ _ _))⟩
  | token h hlt hmove ih =>
      obtain ⟨hstate, hboundary, labels, hpaint⟩ := ih
      obtain ⟨move, hmove', hgood⟩ := scanMove_good isUppercase lang hstate hboundary hlt
      obtain rfl := Option.some.inj (hmove.symm.trans hmove')
      cases hgood with
      | token hbefore hstop hnext =>
          have hstep := paintFrom_token hlt hmove hbefore hstop hnext
          exact ⟨hnext, hstop, _,
            hpaint.trans ((congrArg (prepend labels) hstep).trans (prepend_prepend _ _ _))⟩

/-- In the lines `texts`, that are scanned from `state` on, a block comment is opened up to the
offset `stop` of the span `text`. -/
structure Opening (isUppercase : Char → Bool) (lang : Lang) (state : State)
    (texts : List (List Text)) (text : Text) (later : List Text) (lines : List (List Text))
    (stop : Nat) (powershell : Bool) : Prop where
  reached : ∃ earlier before labels start i ink,
    texts = earlier ++ (before ++ text :: later) :: lines ∧
    paintSpans isUppercase lang (earlier.flatten ++ before) state = some (labels, start) ∧
    Reaches isUppercase lang text start i .plain ∧
    scanMove isUppercase lang text i .plain =
      some (.token stop ink (.blockComment powershell))

/-- The opened comment is a part of what is painted. -/
theorem Opening.painted {state : State} {texts : List (List Text)} {later : List Text}
    {lines : List (List Text)} (hstate : state.Wf)
    (h : Opening isUppercase lang state texts text later lines stop powershell) :
    Boundary text stop ∧ 0 < stop ∧ (encode text)[stop - 1]? = some (closeFirst powershell) ∧
      ∃ labels, paintSpans isUppercase lang texts.flatten state =
        prepend labels (commentRest isUppercase lang powershell text stop later lines) := by
  obtain ⟨earlier, before, labels, start, i, ink, rfl, hpaint, hreaches, hmove⟩ := h.reached
  obtain ⟨labels', next, hpaint', -, hfrom⟩ :=
    paintSpans_from isUppercase lang (earlier.flatten ++ before) hstate
  obtain ⟨rfl, rfl⟩ := Prod.mk.injEq .. ▸ Option.some.inj (hpaint.symm.trans hpaint')
  obtain ⟨-, hboundary, reached, hreached⟩ := hreaches.painted hfrom.wf
  obtain ⟨rfl, rfl, hopened⟩ := plainMove_opens hmove
  have hstop : Boundary text (i + 2) := .after_ascii hopened (closeFirst_lt powershell)
  have hlt : i < (encode text).length := by
    have hle := hstop.le
    omega
  refine ⟨hstop, by omega, hopened, ?_⟩
  have hstep := paintFrom_token hlt hmove (by omega) hstop trivial
  have htexts : (earlier ++ (before ++ text :: later) :: lines).flatten =
      earlier.flatten ++ before ++ text :: (later ++ lines.flatten) := by
    simp
  rw [htexts, paintSpans_append, hpaint, Option.bind_some, paintSpans_cons, hreached, hstep,
    prepend_prepend, prepend_bind, prepend_prepend]
  exact ⟨_, rfl⟩

end Comment

def textsOf (lines : List (Line Style)) : List (List Text) :=
  lines.map fun line => line.spans.map Span.text

/-- Every line is scanned to its end and keeps its text.  A block comment, opened in a span or
before the lines, ends at its first closing delimiter and is coloured up to there, exactly when no
span ends within this delimiter and, behind its opening, the span is not the delimiter's second
byte alone. -/
theorem comments_close (isUppercase : Char → Bool) (lang : Lang) {state : State}
    (hstate : state.Wf) (lines : List (Line Style)) :
    (∃ out labels last, highlightLines isUppercase lang state lines = some (out, last) ∧
      paintSpans isUppercase lang (textsOf lines).flatten state = some (labels, last) ∧
      out.map (fun line => textOf line.spans) = lines.map (fun line => textOf line.spans) ∧
      (out.flatMap fun line => inksOf line.spans) = labels.map Prod.snd) ∧
    (∀ text start, start.Wf → ∃ out last, scan isUppercase lang text start = some (out, last) ∧
      textOf out = text ∧ last.Wf) ∧
    (∀ powershell spans rest, state = .blockComment powershell → textsOf lines = spans :: rest →
      (Closes powershell (paintSpans isUppercase lang (textsOf lines).flatten state) [] spans rest
          (fun m => paintAt isUppercase lang m (textsOf lines).flatten) ↔
        ¬ Cut powershell [] spans rest)) ∧
    ∀ text later rest stop powershell,
      Opening isUppercase lang state (textsOf lines) text later rest stop powershell →
        (∃ labels, paintSpans isUppercase lang (textsOf lines).flatten state =
          prepend labels (commentRest isUppercase lang powershell text stop later rest)) ∧
        (Closes powershell (commentRest isUppercase lang powershell text stop later rest)
            (bytesFrom text stop) later rest
            (fun m => paintAt isUppercase lang (stop + m) (text :: later ++ rest.flatten)) ↔
          ¬ (Reopened powershell text stop ∨
            Cut powershell (bytesFrom text stop) later rest)) := by
  refine ⟨?_, ?_, ?_, ?_⟩
  · obtain ⟨out, labels, last, hlines, hpaint, htext, hinks, -⟩ :=
      highlightLines_painted isUppercase lang lines hstate
    refine ⟨out, labels, last, hlines, ?_, htext, hinks⟩
    rw [List.flatMap_def] at hpaint
    exact hpaint
  · intro text start hstart
    obtain ⟨out, labels, last, hscan, -, htext, -, -, hfrom⟩ :=
      scan_painted isUppercase lang text hstart
    exact ⟨out, last, hscan, htext, hfrom.wf⟩
  · rintro powershell spans rest rfl htexts
    rw [htexts]
    exact spans_close isUppercase lang powershell rest spans
  · intro text later rest stop powershell hopening
    obtain ⟨hboundary, hpos, hopened, hpaint⟩ := hopening.painted hstate
    exact ⟨hpaint, comment_closes hboundary hpos hopened later rest⟩

/-! ### Comments in a file -/

def sampleLine (text : String) : Line Style :=
  { spans := [⟨text.toList, {}⟩], sourceLine := 1, literal := false, indent := 0 }

def sampleComment : Text := "/* a */ b".toList

theorem sample_opening :
    Opening Char.isUpper .rust .plain (textsOf [sampleLine "/* a */ b"]) sampleComment [] [] 2
      false :=
  ⟨[], [], [], .plain, 0, .comment, rfl, rfl, .start, by decide⟩

theorem comments_close_sample :
    Closes false (commentRest Char.isUpper .rust false sampleComment 2 [] [])
        (bytesFrom sampleComment 2) [] []
        (fun m => paintAt Char.isUpper .rust (2 + m) [sampleComment]) ↔
      ¬ (Reopened false sampleComment 2 ∨ Cut false (bytesFrom sampleComment 2) [] []) :=
  ((comments_close Char.isUpper .rust State.Wf.plain [sampleLine "/* a */ b"]).2.2.2 _ _ _ _ _
    sample_opening).2

/-- A comment that is opened, and closed with the same star. -/
theorem comment_reopened :
    Opening Char.isUpper .rust .plain (textsOf [sampleLine "/*/", sampleLine "x"]) "/*/".toList []
        [["x".toList]] 2 false ∧
      (scan Char.isUpper .rust "/*/".toList .plain).map Prod.snd = some .plain ∧
      ¬ Closes false (commentRest Char.isUpper .rust false "/*/".toList 2 [] [["x".toList]])
        (bytesFrom "/*/".toList 2) [] [["x".toList]]
        (fun m => paintAt Char.isUpper .rust (2 + m) ["/*/".toList, "x".toList]) := by
  refine ⟨⟨[], [], [], .plain, 0, .comment, rfl, rfl, .start, by decide⟩, by decide, ?_⟩
  exact reopened_not_closed (.after_ascii (x := byte '*') (by decide) (by decide)) (by decide)
    (by decide) (by unfold Reopened; decide)

end Pikamux.Files.Syntax

import Mathlib.Data.List.DropRight
import Mathlib.Data.Prod.Lex
import Mathlib.Data.String.Basic
import Pikamux.Board.Ledger
import Pikamux.Channel.Operation
import Pikamux.Json.Sizes
import Pikamux.Support.Lines

/-!
# Feed — Summary

The summary of the board that is shown elsewhere: how many rows each group has, and the latest row
that wants attention.  It is sent in one of four versions, all of which one decoder reads.

* `summarize` — the summary of the rows that a filter shows.
* `Version.frame`, `decode` — a summary as it is sent, and read.
* `Version.seen` — what a version can say: the label with its kind, or no label.
-/

namespace Pikamux.Feed

open Support Json Channel

abbrev Text := List Char

def maxFrameBytes : Nat := 512

inductive AttentionKind where
  | openTwice
  | error
  | unbound
  | ready
  deriving DecidableEq, Repr

def AttentionKind.wire : AttentionKind → Text
  | openTwice => "open-twice".toList
  | error => "error".toList
  | unbound => "unbound".toList
  | ready => "ready".toList

structure Counts where
  needsYou : Nat
  working : Nat
  ready : Nat
  parked : Nat
  deriving DecidableEq, Repr

def Counts.all (counts : Counts) : List Nat :=
  [counts.needsYou, counts.working, counts.ready, counts.parked]

structure Summary where
  counts : Counts
  colors : Bool
  latestAttention : Option Text
  attention : Option AttentionKind
  deriving DecidableEq, Repr

/-! ### The board -/

/-- A session, as far as the feed reads it; `τ` are times. -/
structure Session (τ : Type) where
  provider : Provider
  sessionId : Text
  name : Option Text := none
  cwd : Option Text := none
  status : Status
  lastEventAt : τ

structure BoardItem (τ : Type) where
  session : Session τ
  nodeId : Option Text := none
  nodeName : Option Text := none
  stale : Bool := false
  pendingToken : Option Text := none

/-- The group of a row, as it is headed. -/
inductive Category where
  | needsYou
  | working
  | ready
  | parked
  deriving DecidableEq, Repr

def group (status : Status) (stale : Bool) : Category :=
  if stale then .parked
  else
    match status with
    | .needsYou | .error | .openTwice | .unbound => .needsYou
    | .working | .starting => .working
    | .ready => .ready
    | .parked => .parked

variable {τ : Type}

def Session.displayName (session : Session τ) : Text :=
  session.name.getD (session.provider.text.toList ++ '-' :: session.sessionId.take 8)

section Summarize

-- `char::is_alphanumeric` and `str::to_lowercase`
variable (isAlphanumeric : Char → Bool) (lowercase : Text → Text)

def matchesFilter (item : BoardItem τ) (needle : Text) : Bool :=
  needle.isEmpty || contains (lowercase item.session.displayName) needle ||
    contains item.session.provider.text.toList needle ||
    item.session.cwd.any (fun value => contains (lowercase value) needle) ||
    (item.nodeName.or item.nodeId).any fun value => contains (lowercase value) needle

/-- The rows of a group that the filter shows. -/
def shown (items : List (BoardItem τ)) (needle : Text) (category : Category) :
    List (BoardItem τ) :=
  items.filter fun item =>
    matchesFilter lowercase item needle && group item.session.status item.stale == category

def allowed (c : Char) : Bool := isAlphanumeric c || " _-./@()".toList.contains c

/-- What fits into so many bytes. -/
def fitting : Nat → Text → Text
  | _, [] => []
  | room, c :: text => if room < c.utf8Size then [] else c :: fitting (room - c.utf8Size) text

/-- `str::trim` -/
def trim (text : Text) : Text := (text.dropWhile isWhitespace).rdropWhile isWhitespace

def safeLabel (value : Text) : Text := trim (fitting 160 (value.filter (allowed isAlphanumeric)))

section Latest

-- the time of a row, zero for what is no positive number
variable [LinearOrder τ] (time : τ → τ)

/-- By what the latest row is chosen. -/
def rank (item : BoardItem τ) : τ ×ₗ WithBot String ×ₗ String ×ₗ String :=
  toLex (time item.session.lastEventAt,
    toLex ((item.nodeId.map String.ofList : Option String),
      toLex (item.session.provider.text, String.ofList item.session.sessionId)))

def latest (items : List (BoardItem τ)) (needle : Text) (category : Category) :
    Option (BoardItem τ) :=
  newest (rank time) none (items.filter fun item =>
    !item.stale && item.pendingToken.isNone && group item.session.status false == category &&
      matchesFilter lowercase item needle)

def warning (status : Status) : Option AttentionKind :=
  match status with
  | .openTwice => some .openTwice
  | .error => some .error
  | .unbound => some .unbound
  | _ => none

/-- The row that wants attention, and what is said of a row that is ready. -/
def chosen (items : List (BoardItem τ)) (needle : Text) :
    Option (BoardItem τ × Option AttentionKind) :=
  ((latest lowercase time items needle .needsYou).map fun item => (item, none)).or
    ((latest lowercase time items needle .ready).map fun item => (item, some .ready))

def latestAttention (items : List (BoardItem τ)) (needle : Text) :
    Option (Text × Option AttentionKind) := do
  let (latest, suffix) ← chosen lowercase time items needle
  let machine := (latest.nodeName.or latest.nodeId).map fun machine => " @".toList ++ machine
  let label := safeLabel isAlphanumeric (latest.session.displayName ++ machine.getD [])
  if label.isEmpty then none else some (label, suffix.or (warning latest.session.status))

/-- `colors` is whether `NO_COLOR` is unset. -/
def summarize (colors : Bool) (items : List (BoardItem τ)) (filter : Text) : Summary :=
  let needle := lowercase filter
  let count := fun category => (shown lowercase items needle category).length
  let attention := latestAttention isAlphanumeric lowercase time items needle
  { counts := ⟨count .needsYou, count .working, count .ready, count .parked⟩
    colors
    latestAttention := attention.map Prod.fst
    attention := attention.bind Prod.snd }

end Latest

/-! ### Frames -/

namespace Summary

def encode (s : Summary) : Text :=
  Nat.toDigits 10 s.counts.needsYou ++ ',' :: Nat.toDigits 10 s.counts.working ++
    ',' :: Nat.toDigits 10 s.counts.ready ++ ',' :: Nat.toDigits 10 s.counts.parked ++
    ',' :: Nat.toDigits 10 s.colors.toNat

/-- The name of a kind, where no kind is a request. -/
def kindText (attention : Option AttentionKind) : Text :=
  (attention.map AttentionKind.wire).getD "request".toList

def encodeExtended (s : Summary) : Text :=
  "v2|".toList ++ s.encode ++ '|' ::
    if s.attention.isNone then s.latestAttention.getD [] else []

def encodeAttention (s : Summary) : Text :=
  let (kind, label) :=
    if s.attention = some .ready then ("request".toList, [])
    else (kindText s.attention, s.latestAttention.getD [])
  "v3|".toList ++ s.encode ++ '|' :: kind ++ '|' :: label

def encodeAttentionV4 (s : Summary) : Text :=
  "v4|".toList ++ s.encode ++ '|' :: kindText s.attention ++ '|' :: s.latestAttention.getD []

end Summary

inductive Version where
  | v1
  | v2
  | v3
  | v4
  deriving DecidableEq, Repr

namespace Version

/-- A frame of a version. -/
def frame : Version → Summary → Text
  | v1 => Summary.encode
  | v2 => Summary.encodeExtended
  | v3 => Summary.encodeAttention
  | v4 => Summary.encodeAttentionV4

/-- Whether a version has a label, and a name for this kind of it. -/
def renders : Version → Option AttentionKind → Bool
  | v1, _ => false
  | v2, kind => kind.isNone
  | v3, kind => kind != some .ready
  | v4, _ => true

/-- What a version says of a summary. -/
def seen (version : Version) (s : Summary) : Summary :=
  if version.renders s.attention then s else { s with latestAttention := none, attention := none }

end Version

/-- `str::strip_prefix` -/
def stripPrefix (start text : Text) : Option Text :=
  if start.isPrefixOf text then some (text.drop start.length) else none

/-- `str::parse::<usize>`, the digits after so many of them. -/
def parseDigits : Nat → Text → Except String Nat
  | n, [] => .ok n
  | n, c :: text =>
      if c.isDigit then
        let next := 10 * n + (c.toNat - '0'.toNat)
        if next < 2 ^ 64 then parseDigits next text
        else .error "number too large to fit in target type"
      else .error "invalid digit found in string"

def parseUsize (text : Text) : Except String Nat :=
  if text = [] then .error "cannot parse integer from empty string"
  else if text = ['+'] then .error "invalid digit found in string"
  else parseDigits 0 ((stripPrefix ['+'] text).getD text)

/-- The kinds that a version names. -/
def kindOf (ready : Bool) (text : Text) : Except String (Option AttentionKind) :=
  if text = "request".toList then .ok none
  else if text = "open-twice".toList then .ok (some .openTwice)
  else if text = "error".toList then .ok (some .error)
  else if text = "unbound".toList then .ok (some .unbound)
  else if ready ∧ text = "ready".toList then .ok (some .ready)
  else .error "Invalid board attention kind"

/-- A frame of the later versions, as one of the second version with a kind. -/
def unversioned (ready : Bool) (value : Text) : Except String (Text × Option AttentionKind) := do
  let (counts, rest) := (splitOnce ['|'] value).getD (value, [])
  let (kind, label) := match splitOnce ['|'] rest with
    | none => (rest, none)
    | some (kind, label) => (kind, some label)
  let warning ← kindOf ready kind
  let label ← context "Missing board attention label" label
  return ("v2|".toList ++ counts ++ '|' :: label, warning)

def decodeCounts (value : Text) (latestAttention : Option Text)
    (warning : Option AttentionKind) : Except String Summary := do
  ensure (charsBytes value ≤ 40) "Invalid board summary"
  let values ← ((pieces ',' value).1 :: (pieces ',' value).2).mapM parseUsize
  match values with
  | [a, b, c, d, colors] =>
      ensure ([a, b, c, d].all (· ≤ 1000000) && colors ≤ 1) "Invalid board summary"
      ensure (!(a = 0 && latestAttention.isSome && warning ≠ some .ready))
        "Request label without an attention count"
      ensure (!(warning = some .ready && c = 0)) "Ready label without a ready count"
      ensure (!(warning.isSome && latestAttention.isNone)) "Warning without an attention label"
      return ⟨⟨a, b, c, d⟩, colors = 1, latestAttention, warning⟩
  | _ => .error "Invalid board summary"

def decodeLabelled (value : Text) (warning : Option AttentionKind) : Except String Summary :=
  match stripPrefix "v2|".toList value with
  | none => decodeCounts value none warning
  | some value => do
      let (counts, label) ← context "Invalid board summary" (splitOnce ['|'] value)
      ensure (label = safeLabel isAlphanumeric label) "Invalid board request label"
      decodeCounts counts (if label.isEmpty then none else some label) warning

def decode (value : Text) : Except String Summary := do
  ensure (charsBytes value ≤ maxFrameBytes) "Invalid board summary"
  let (value, warning) ← match stripPrefix "v4|".toList value with
    | some value => unversioned true value
    | none =>
        match stripPrefix "v3|".toList value with
        | some value => unversioned false value
        | none => .ok (value, none)
  decodeLabelled isAlphanumeric value warning

end Summarize

end Pikamux.Feed

import Pikamux.Support.Matching

/-!
# Terminal — Filters

The filters of the terminal bridge.  `ColorQueryFilter` takes the questions for the two colours out
of what a program writes, and answers them; `ExactInputFilter` takes fixed answers of a terminal
out of what is typed.  Both keep what may be the beginning of a pattern until the next read.

* `ColorQueryFilter.feedAll_eq`, `ExactInputFilter.feedAll_eq` — a filter that is fed read after
  read is the matcher of `Matching.feeds`.
* `stream_filtering` — what is seen is the stream without the occurrences of the patterns, however
  it is cut into reads.
-/

namespace Pikamux.Terminal

open Support Support.Matching

/-- The bytes of a text of ASCII characters. -/
def bytes (text : String) : List UInt8 := text.toList.map fun c => c.toNat.toUInt8

def windowsTerminalDa2 : List UInt8 := bytes "\x1b[>0;10;1c"

structure Rgb where
  red : UInt8
  green : UInt8
  blue : UInt8
  deriving DecidableEq, Repr

structure Palette where
  foreground : Rgb
  background : Rgb
  deriving DecidableEq, Repr

/-! ### The filter of the input -/

structure ExactInputFilter where
  patterns : List (List UInt8)
  minimumPrefix : Nat
  pending : List UInt8
  deriving DecidableEq, Repr

namespace ExactInputFilter

def new (patterns : List (List UInt8)) : ExactInputFilter := ⟨patterns, 3, []⟩

/-- The patterns, with nothing to tell of them. -/
def silent (patterns : List (List UInt8)) : List (Pattern UInt8 Unit) :=
  patterns.map fun p => (p, ())

def feed (filter : ExactInputFilter) (data : List UInt8) : ExactInputFilter × List UInt8 :=
  let fed := Matching.feed (silent filter.patterns)
    (longestKept filter.minimumPrefix (silent filter.patterns)) filter.pending data
  ({ filter with pending := fed.pending }, fed.visible)

def finish (filter : ExactInputFilter) : ExactInputFilter × List UInt8 :=
  ({ filter with pending := [] }, filter.pending)

/-- Read after read, and what is seen of them. -/
def feedAll : ExactInputFilter → List (List UInt8) → ExactInputFilter × List UInt8
  | filter, [] => (filter, [])
  | filter, data :: reads =>
      let (fed, visible) := filter.feed data
      let (last, rest) := feedAll fed reads
      (last, visible ++ rest)

/-- What is seen of a stream that is read so and finished. -/
def output (patterns : List (List UInt8)) (reads : List (List UInt8)) : List UInt8 :=
  let (last, visible) := (new patterns).feedAll reads
  visible ++ last.finish.2

theorem feedAll_eq (filter : ExactInputFilter) (reads : List (List UInt8)) :
    filter.feedAll reads =
      ({ filter with
          pending := (feeds (silent filter.patterns)
            (longestKept filter.minimumPrefix (silent filter.patterns)) filter.pending
            reads).pending },
        (feeds (silent filter.patterns)
          (longestKept filter.minimumPrefix (silent filter.patterns)) filter.pending
          reads).visible) := by
  induction reads generalizing filter with
  | nil => rfl
  | cons data reads ih =>
      rw [feedAll, feeds]
      simp only [feed, ih]

end ExactInputFilter

/-! ### The filter of the output -/

/-- `{:04x}` of a byte times 257. -/
def hex4 (value : UInt8) : List UInt8 :=
  let text := Nat.toDigits 16 (value.toNat * 257)
  (List.replicate (4 - text.length) '0' ++ text).map fun c => c.toNat.toUInt8

structure ColorQueryFilter where
  patterns : List (Pattern UInt8 (List UInt8))
  pending : List UInt8
  deriving DecidableEq, Repr

namespace ColorQueryFilter

/-- The answer to the question for a colour. -/
def reply (slot : String) (color : Rgb) : List UInt8 :=
  bytes "\x1b]" ++ bytes slot ++ bytes ";rgb:" ++ hex4 color.red ++ bytes "/" ++ hex4 color.green ++
    bytes "/" ++ hex4 color.blue ++ bytes "\x1b\\"

/-- The questions for a colour, each with the answer. -/
def queries (slot : String) (color : Rgb) : List (Pattern UInt8 (List UInt8)) :=
  [(bytes "\x1b]" ++ bytes slot ++ bytes ";?\x1b\\", reply slot color),
    (bytes "\x1b]" ++ bytes slot ++ bytes ";?\x07", reply slot color)]

def colorQueries (palette : Palette) : List (Pattern UInt8 (List UInt8)) :=
  queries "10" palette.foreground ++ queries "11" palette.background

def new (palette : Palette) : ColorQueryFilter := ⟨colorQueries palette, []⟩

def feed (filter : ColorQueryFilter) (data : List UInt8) :
    ColorQueryFilter × List UInt8 × List (List UInt8) :=
  let fed := Matching.feed filter.patterns (longestKept 1 filter.patterns) filter.pending data
  ({ filter with pending := fed.pending }, fed.visible, fed.told)

def finish (filter : ColorQueryFilter) : ColorQueryFilter × List UInt8 :=
  ({ filter with pending := [] }, filter.pending)

def feedAll : ColorQueryFilter → List (List UInt8) →
    ColorQueryFilter × List UInt8 × List (List UInt8)
  | filter, [] => (filter, [], [])
  | filter, data :: reads =>
      let (fed, visible, replies) := filter.feed data
      let (last, rest, later) := feedAll fed reads
      (last, visible ++ rest, replies ++ later)

/-- What is seen of a stream that is read so and finished, and the answers. -/
def output (palette : Palette) (reads : List (List UInt8)) : List UInt8 × List (List UInt8) :=
  let (last, visible, replies) := (new palette).feedAll reads
  (visible ++ last.finish.2, replies)

theorem feedAll_eq (filter : ColorQueryFilter) (reads : List (List UInt8)) :
    filter.feedAll reads =
      ({ filter with
          pending := (feeds filter.patterns (longestKept 1 filter.patterns) filter.pending
            reads).pending },
        (feeds filter.patterns (longestKept 1 filter.patterns) filter.pending reads).visible,
        (feeds filter.patterns (longestKept 1 filter.patterns) filter.pending reads).told) := by
  induction reads generalizing filter with
  | nil => rfl
  | cons data reads ih =>
      rw [feedAll, feeds]
      simp only [feed, ih]

/-- No question lies within another one, whatever the colours are. -/
theorem colorQueries_apart (palette : Palette) : Apart (colorQueries palette) := by
  have htexts : ∀ p ∈ (colorQueries palette).map Prod.fst,
      ∀ q ∈ (colorQueries palette).map Prod.fst, ¬ q <:+: p.dropLast := by
    have hmap : (colorQueries palette).map Prod.fst =
        [bytes "\x1b]10;?\x1b\\", bytes "\x1b]10;?\x07", bytes "\x1b]11;?\x1b\\",
          bytes "\x1b]11;?\x07"] := rfl
    rw [hmap]
    decide
  intro p hp q hq
  exact htexts p.1 (List.mem_map_of_mem hp) q.1 (List.mem_map_of_mem hq)

end ColorQueryFilter

/-! ### Any reads of a stream -/

/-- A read never ends before the first byte of an occurrence and after it. -/
theorem safeReads_one (patterns : List (Pattern UInt8 (List UInt8))) (reads : List (List UInt8)) :
    SafeReads patterns 1 reads := by
  intro k _ o _ hcut
  omega

/-- What is held back after some reads begins a pattern, and is none. -/
theorem held_after {β : Type} {patterns : List (Pattern UInt8 β)} {minimum : Nat}
    (hapart : Apart patterns) (reads : List (List UInt8)) :
    Held patterns (feeds patterns (longestKept minimum patterns) [] reads).pending :=
  feeds_held hapart.ne_nil (longestKept_keeps minimum patterns) reads (.inl rfl)

theorem da2_apart : Apart (ExactInputFilter.silent [windowsTerminalDa2]) := by decide

/-- What a filter of the bridge does, for all reads.  The bridge makes the filter of the input with
the one pattern of the last part; of patterns that lie within each other the shorter one would be
taken out before the longer one is complete. -/
theorem stream_filtering :
    (∀ (palette : Palette) (reads : List (List UInt8)),
      ColorQueryFilter.output palette reads =
          (visible (pieces (ColorQueryFilter.colorQueries palette) reads.flatten),
            told (pieces (ColorQueryFilter.colorQueries palette) reads.flatten)) ∧
        Held (ColorQueryFilter.colorQueries palette)
          ((ColorQueryFilter.new palette).feedAll reads).1.pending) ∧
    (∀ (patterns reads : List (List UInt8)), Apart (ExactInputFilter.silent patterns) →
      (SafeReads (ExactInputFilter.silent patterns) 3 reads →
        ExactInputFilter.output patterns reads =
          visible (pieces (ExactInputFilter.silent patterns) reads.flatten)) ∧
        Held (ExactInputFilter.silent patterns)
          ((ExactInputFilter.new patterns).feedAll reads).1.pending) ∧
    Apart (ExactInputFilter.silent [windowsTerminalDa2]) := by
  refine ⟨?_, ?_, da2_apart⟩
  · intro palette reads
    have hapart := ColorQueryFilter.colorQueries_apart palette
    obtain ⟨hvisible, htold⟩ := feeds_spec hapart (longestKept_keeps 1 _) reads
      (safeReads_one _ reads)
    constructor
    · rw [ColorQueryFilter.output, ColorQueryFilter.feedAll_eq, ← hvisible, ← htold]
      rfl
    · rw [ColorQueryFilter.feedAll_eq]
      exact held_after hapart reads
  · intro patterns reads hapart
    constructor
    · intro hsafe
      rw [ExactInputFilter.output, ExactInputFilter.feedAll_eq,
        ← (feeds_spec hapart (longestKept_keeps 3 _) reads hsafe).1]
      rfl
    · rw [ExactInputFilter.feedAll_eq]
      exact held_after hapart reads

/-- An answer of a terminal that comes in three reads. -/
def fragments : List (List UInt8) := [bytes "before\x1b[>", bytes "0;10;", bytes "1cafter"]

theorem stream_filtering_fragments :
    ExactInputFilter.output [windowsTerminalDa2] fragments = bytes "beforeafter" := by
  have hsafe : SafeReads (ExactInputFilter.silent [windowsTerminalDa2]) 3 fragments := by decide
  rw [(stream_filtering.2.1 _ _ stream_filtering.2.2).1 hsafe]
  decide

end Pikamux.Terminal

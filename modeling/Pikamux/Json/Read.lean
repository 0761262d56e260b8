import Pikamux.Json.Text

/-!
# Json — Read

Readers of printed JSON texts.  A reader takes what it reads off the front of a text; `Reads` says
that it takes exactly what was printed, whatever follows.
-/

namespace Pikamux.Json

abbrev Reader (α : Type) := List Char → Option (α × List Char)

/-- The reader takes back what `print` printed. -/
def Reads {α : Type} (read : Reader α) (print : α → List Char) : Prop :=
  ∀ a rest, read (print a ++ rest) = some (a, rest)

/-- Take exactly these characters. -/
def readLiteral (literal : List Char) : Reader Unit :=
  fun text => if literal <+: text then some ((), text.drop literal.length) else none

theorem readLiteral_append (literal rest : List Char) :
    readLiteral literal (literal ++ rest) = some ((), rest) := by
  rw [readLiteral, if_pos (List.prefix_append literal rest), List.drop_left]

/-! ### Strings -/

/-- The characters of a string up to the quote that ends it, at most so many. -/
def readChars : Nat → Reader (List Char)
  | 0, _ => none
  | _ + 1, '"' :: rest => some ([], rest)
  | n + 1, text => do
      let c ← unescape text
      let cs ← readChars n c.2
      some (c.1 :: cs.1, cs.2)

def readString : Reader String
  | '"' :: rest => (readChars rest.length rest).map fun r => (String.ofList r.1, r.2)
  | _ => none

theorem readChars_escape (rest : List Char) {s : List Char} {n : Nat} (h : s.length < n) :
    readChars n (s.flatMap escape ++ '"' :: rest) = some (s, rest) := by
  induction s generalizing n with
  | nil =>
      cases n with
      | zero => cases h
      | succ n => rfl
  | cons c s ih =>
      cases n with
      | zero => cases h
      | succ n =>
          have hread := ih (n := n) (Nat.lt_of_succ_lt_succ h)
          rw [List.flatMap_cons, List.append_assoc, readChars]
          · rw [unescape_escape]
            simp [hread]
          · -- an escape does not begin with the quote that ends the string
            exact fun rest' => escape_append_ne_quote c _ rest'

theorem escape_ne_nil (c : Char) : escape c ≠ [] := by
  intro h
  have hread := unescape_escape c []
  rw [h] at hread
  cases hread

theorem length_le_flatMap_escape (s : List Char) : s.length ≤ (s.flatMap escape).length := by
  induction s with
  | nil => exact Nat.le_refl 0
  | cons c s ih =>
      have hc := List.length_pos_iff.mpr (escape_ne_nil c)
      rw [List.flatMap_cons, List.length_append, List.length_cons]
      omega

theorem readString_reads : Reads readString quoted := by
  intro s rest
  have htext : quoted s ++ rest = '"' :: (s.toList.flatMap escape ++ '"' :: rest) := by
    simp [quoted]
  rw [htext, readString, readChars_escape]
  · simp
  · have := length_le_flatMap_escape s.toList
    rw [List.length_append, List.length_cons]
    omega

/-! ### What is built from strings -/

/-- One of several names, as a string. -/
def readName {α : Type} (all : List α) (name : α → String) : Reader α := fun text => do
  let r ← readString text
  let a ← all.find? fun a => name a = r.1
  some (a, r.2)

theorem readName_reads {α : Type} {all : List α} {name : α → String}
    (h : ∀ a, all.find? (fun b => name b = name a) = some a) :
    Reads (readName all name) fun a => quoted (name a) := by
  intro a rest
  rw [readName, readString_reads]
  simp [h]

/-- A value or `null`. -/
def printOption {α : Type} (print : α → List Char) : Option α → List Char
  | none => ['n', 'u', 'l', 'l']
  | some a => print a

def readOption {α : Type} (read : Reader α) : Reader (Option α)
  | 'n' :: text => (readLiteral ['u', 'l', 'l'] text).map fun r => (none, r.2)
  | text => (read text).map fun r => (some r.1, r.2)

theorem readOption_reads {α : Type} {read : Reader α} {print : α → List Char}
    (h : Reads read print) (hprint : ∀ a, ∃ text, print a = '"' :: text) :
    Reads (readOption read) (printOption print) := by
  intro o rest
  cases o with
  | none => rfl
  | some a =>
      obtain ⟨text, htext⟩ := hprint a
      have hread := h a rest
      rw [htext, List.cons_append] at hread
      rw [printOption, htext, List.cons_append, readOption]
      · rw [hread]
        rfl
      · intro text' heq
        cases heq

/-! ### Numbers -/

def readNat : Reader Nat := fun text =>
  some (Nat.ofDigitChars 10 (text.takeWhile Char.isDigit) 0, text.dropWhile Char.isDigit)

theorem readNat_toDigits (n : Nat) {c : Char} (hc : c.isDigit = false) (rest : List Char) :
    readNat (Nat.toDigits 10 n ++ c :: rest) = some (n, c :: rest) := by
  have hdigits : ∀ d ∈ Nat.toDigits 10 n, d.isDigit = true := fun d hd =>
    Nat.isDigit_of_mem_toDigits (by decide) (by decide) hd
  rw [readNat, List.takeWhile_append_of_pos hdigits, List.dropWhile_append_of_pos hdigits,
    List.takeWhile_cons_of_neg (by simp [hc]), List.dropWhile_cons_of_neg (by simp [hc]),
    List.append_nil, Nat.ofDigitChars_ten_toDigits]

end Pikamux.Json

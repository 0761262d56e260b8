import Pikamux.Json.Value

/-!
# Json — Text

The compact text `serde_json` prints for a value (`to_string`, `to_vec`).  Object fields print in
key order, strings escape the quote, the backslash and the control characters, and everything
else is printed literally.

A printed string ends where it ends whatever follows it (`quoted_prefixFree`), and an array of
parts with that property prints like no other array of such parts (`commaSep_inj`).
-/

namespace Pikamux.Json

/-- The escapes of one character. -/
def escape (c : Char) : List Char :=
  if c = '"' then ['\\', '"']
  else if c = '\\' then ['\\', '\\']
  else if c = '\x08' then ['\\', 'b']
  else if c = '\t' then ['\\', 't']
  else if c = '\n' then ['\\', 'n']
  else if c = '\x0c' then ['\\', 'f']
  else if c = '\r' then ['\\', 'r']
  else if c.toNat < 0x20 then
    ['\\', 'u', '0', '0', Nat.digitChar (c.toNat / 16), Nat.digitChar (c.toNat % 16)]
  else [c]

def quoted (s : String) : List Char := '"' :: s.toList.flatMap escape ++ ['"']

def Number.chars : Number → List Char
  | .posInt n => Nat.toDigits 10 n
  | .negInt n => '-' :: Nat.toDigits 10 n
  | .float text => text.toList

/-- Separate printed parts by commas. -/
def commaSep : List (List Char) → List Char
  | [] => []
  | [x] => x
  | x :: y :: xs => x ++ ',' :: commaSep (y :: xs)

namespace Value

mutual

/-- The printed characters of a value. -/
def chars : Value → List Char
  | null => ['n', 'u', 'l', 'l']
  | bool true => ['t', 'r', 'u', 'e']
  | bool false => ['f', 'a', 'l', 's', 'e']
  | number n => n.chars
  | string s => quoted s
  | array items => '[' :: commaSep (charsItems items) ++ [']']
  | object fields => '{' :: commaSep (charsFields fields) ++ ['}']

def charsItems : List Value → List (List Char)
  | [] => []
  | v :: vs => chars v :: charsItems vs

def charsFields : List (String × Value) → List (List Char)
  | [] => []
  | (k, v) :: fs => (quoted k ++ ':' :: chars v) :: charsFields fs

end

theorem charsItems_eq (items : List Value) : charsItems items = items.map chars := by
  induction items with
  | nil => rfl
  | cons v items ih => rw [charsItems, ih, List.map_cons]

/-- `Value::to_string`. -/
def toText (v : Value) : String := String.ofList v.chars

end Value

/-! ### Where a printed text ends -/

/-- No text of `f` continues another: what follows two of them does not matter for which they
are. -/
def PrefixFree {α : Type} (f : α → List Char) : Prop :=
  ∀ a b x y, f a ++ x = f b ++ y → a = b ∧ x = y

def hexValue (c : Char) : Nat := if c.isDigit then c.toNat - '0'.toNat else c.toNat - 'a'.toNat + 10

/-- The character after a backslash that is not a code point. -/
def unescapeNamed (c : Char) : Char :=
  if c = 'b' then '\x08'
  else if c = 't' then '\t'
  else if c = 'n' then '\n'
  else if c = 'f' then '\x0c'
  else if c = 'r' then '\r'
  else c

/-- Read one character of a string back. -/
def unescape : List Char → Option (Char × List Char)
  | '\\' :: 'u' :: '0' :: '0' :: high :: low :: rest =>
      some (Char.ofNat (16 * hexValue high + hexValue low), rest)
  | '\\' :: c :: rest => some (unescapeNamed c, rest)
  | c :: rest => some (c, rest)
  | [] => none

theorem unescape_escape (c : Char) (rest : List Char) :
    unescape (escape c ++ rest) = some (c, rest) := by
  by_cases hnamed : c ∈ ['"', '\\', '\x08', '\t', '\n', '\x0c', '\r']
  · simp only [List.mem_cons, List.not_mem_nil, or_false] at hnamed
    rcases hnamed with rfl | rfl | rfl | rfl | rfl | rfl | rfl <;> rfl
  · simp only [List.mem_cons, List.not_mem_nil, or_false, not_or] at hnamed
    obtain ⟨h₁, h₂, h₃, h₄, h₅, h₆, h₇⟩ := hnamed
    simp only [escape, if_neg h₁, if_neg h₂, if_neg h₃, if_neg h₄, if_neg h₅, if_neg h₆, if_neg h₇]
    by_cases hc : c.toNat < 0x20
    · have hread : ∀ n : Fin 32, Char.ofNat (16 * hexValue (Nat.digitChar (n.val / 16)) +
          hexValue (Nat.digitChar (n.val % 16))) = Char.ofNat n.val := by decide
      rw [if_pos hc]
      have hn := hread ⟨c.toNat, hc⟩
      rw [Char.ofNat_toNat] at hn
      exact congrArg (fun c => some (c, rest)) hn
    · rw [if_neg hc, List.cons_append, List.nil_append, unescape]
      · intro _ _ _ h
        exact absurd h h₂
      · intro _ _ h
        exact absurd h h₂

theorem escape_prefixFree : PrefixFree escape := by
  intro c d x y h
  have hread := unescape_escape c x
  rw [h, unescape_escape, Option.some.injEq, Prod.mk.injEq] at hread
  exact ⟨hread.1.symm, hread.2.symm⟩

/-- No escape begins with the quote that ends a string. -/
theorem escape_append_ne_quote (c : Char) (x y : List Char) : escape c ++ x ≠ '"' :: y := by
  intro h
  have hread := unescape_escape c x
  rw [h] at hread
  obtain rfl : '"' = c := congrArg Prod.fst (Option.some.inj hread)
  exact absurd (List.cons.inj h).1 (by decide)

theorem flatMap_escape_inj {s t x y : List Char}
    (h : s.flatMap escape ++ '"' :: x = t.flatMap escape ++ '"' :: y) : s = t ∧ x = y := by
  induction s generalizing t with
  | nil =>
      cases t with
      | nil => exact ⟨rfl, (List.cons.inj h).2⟩
      | cons d t =>
          rw [List.flatMap_cons, List.append_assoc] at h
          exact absurd h.symm (escape_append_ne_quote d _ _)
  | cons c s ih =>
      cases t with
      | nil =>
          rw [List.flatMap_cons, List.append_assoc] at h
          exact absurd h (escape_append_ne_quote c _ _)
      | cons d t =>
          rw [List.flatMap_cons, List.flatMap_cons, List.append_assoc, List.append_assoc] at h
          obtain ⟨rfl, hrest⟩ := escape_prefixFree _ _ _ _ h
          obtain ⟨rfl, hx⟩ := ih hrest
          exact ⟨rfl, hx⟩

theorem quoted_prefixFree : PrefixFree quoted := by
  intro s t x y h
  simp only [quoted, List.cons_append, List.append_assoc, List.nil_append] at h
  obtain ⟨hs, hx⟩ := flatMap_escape_inj (List.cons.inj h).2
  exact ⟨String.toList_injective hs, hx⟩

section Array

variable {α : Type} {f : α → List Char} {a b : α} {xs ys : List α}

theorem commaSep_cons (x : List Char) (rest : List (List Char)) :
    commaSep (x :: rest) =
      x ++ (if rest = [] then [] else ',' :: commaSep rest) := by
  cases rest <;> simp [commaSep]

/-- Print one more part. -/
theorem commaSep_concat (parts : List (List Char)) (x : List Char) :
    commaSep (parts ++ [x]) = commaSep parts ++ (if parts = [] then x else ',' :: x) := by
  induction parts with
  | nil => rfl
  | cons p parts ih =>
      rw [List.cons_append, commaSep_cons, if_neg (by simp), ih, commaSep_cons,
        if_neg (List.cons_ne_nil p parts)]
      split
      case isTrue h => simp [h, commaSep]
      case isFalse => simp

/-- Arrays of parts that do not begin with the closing bracket are told apart. -/
theorem commaSep_inj (hf : PrefixFree f) (hb : ∀ a x y, f a ++ x ≠ ']' :: y)
    (h : commaSep (xs.map f) ++ [']'] = commaSep (ys.map f) ++ [']']) : xs = ys := by
  induction xs generalizing ys with
  | nil =>
      cases ys with
      | nil => rfl
      | cons b ys =>
          rw [List.map_cons, commaSep_cons, List.append_assoc] at h
          exact absurd h.symm (hb b _ _)
  | cons a xs ih =>
      cases ys with
      | nil =>
          rw [List.map_cons, commaSep_cons, List.append_assoc] at h
          exact absurd h (hb a _ _)
      | cons b ys =>
          simp only [List.map_cons, commaSep_cons, List.append_assoc] at h
          obtain ⟨rfl, h⟩ := hf _ _ _ _ h
          refine congrArg (List.cons a) ?_
          cases xs with
          | nil =>
              cases ys with
              | nil => rfl
              | cons b ys => simp at h
          | cons a' xs =>
              cases ys with
              | nil => simp at h
              | cons b ys =>
                  refine ih ?_
                  simpa using h

end Array

end Pikamux.Json

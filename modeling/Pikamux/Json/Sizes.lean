import Mathlib.Algebra.BigOperators.Group.List.Basic
import Mathlib.Algebra.Order.Ring.Nat
import Pikamux.Json.Text

/-!
# Json — Sizes

How many bytes a printed value has.  An item of an array counts with its comma, and so does a
field of an object.

* `bytes_array_le`, `bytes_object` — the size of a composite value by the sizes of its parts.
* `fieldsBytes_insertField_le`, `fieldsBytes_replace` — what an inserted field adds, and what a
  replaced one exchanges.  That a field is there is said as: inserting it again changes nothing.
-/

namespace Pikamux.Json

def charsBytes (l : List Char) : Nat := (l.map Char.utf8Size).sum

theorem charsBytes_append (l m : List Char) :
    charsBytes (l ++ m) = charsBytes l + charsBytes m := by
  simp [charsBytes]

theorem charsBytes_cons (c : Char) (l : List Char) :
    charsBytes (c :: l) = c.utf8Size + charsBytes l := by
  simp [charsBytes]

theorem charsBytes_eq_length {l : List Char} (h : ∀ c ∈ l, c.utf8Size = 1) :
    charsBytes l = l.length := by
  induction l with
  | nil => rfl
  | cons c l ih =>
      rw [charsBytes_cons, h c List.mem_cons_self, ih fun d hd => h d (List.mem_cons_of_mem c hd),
        List.length_cons, Nat.add_comm]

theorem utf8ByteSize_ofList (l : List Char) : (String.ofList l).utf8ByteSize = charsBytes l := by
  induction l with
  | nil => rfl
  | cons c l ih =>
      have hcons : String.ofList (c :: l) = String.singleton c ++ String.ofList l :=
        String.toList_injective (by simp)
      rw [hcons, String.utf8ByteSize_append, ih, charsBytes_cons]
      simp

theorem charsBytes_toList (s : String) : charsBytes s.toList = s.utf8ByteSize := by
  rw [← utf8ByteSize_ofList, String.ofList_toList]

/-- Every part with its comma. -/
theorem charsBytes_commaSep {parts : List (List Char)} (h : parts ≠ []) :
    charsBytes (commaSep parts) + 1 = (parts.map fun part => charsBytes part + 1).sum := by
  induction parts with
  | nil => exact absurd rfl h
  | cons part parts ih =>
      rw [commaSep_cons, charsBytes_append, List.map_cons, List.sum_cons]
      cases parts with
      | nil => simp [charsBytes]
      | cons next parts =>
          rw [if_neg (List.cons_ne_nil next parts), charsBytes_cons, ← ih (List.cons_ne_nil _ _)]
          have hcomma : ','.utf8Size = 1 := rfl
          omega

/-! ### Strings -/

/-- An escape has at most six bytes. -/
theorem charsBytes_escape_le (c : Char) : charsBytes (escape c) ≤ 6 * c.utf8Size := by
  by_cases hnamed : c ∈ ['"', '\\', '\x08', '\t', '\n', '\x0c', '\r']
  · simp only [List.mem_cons, List.not_mem_nil, or_false] at hnamed
    rcases hnamed with rfl | rfl | rfl | rfl | rfl | rfl | rfl <;> decide
  · simp only [List.mem_cons, List.not_mem_nil, or_false, not_or] at hnamed
    obtain ⟨h₁, h₂, h₃, h₄, h₅, h₆, h₇⟩ := hnamed
    simp only [escape, if_neg h₁, if_neg h₂, if_neg h₃, if_neg h₄, if_neg h₅, if_neg h₆, if_neg h₇]
    have hpos := c.utf8Size_pos
    by_cases hc : c.toNat < 0x20
    · have hbytes : ∀ n : Fin 32, charsBytes ['\\', 'u', '0', '0', Nat.digitChar (n.val / 16),
          Nat.digitChar (n.val % 16)] = 6 := by decide
      rw [if_pos hc, hbytes ⟨c.toNat, hc⟩]
      omega
    · rw [if_neg hc]
      simp only [charsBytes, List.map_cons, List.map_nil, List.sum_cons, List.sum_nil]
      omega

theorem charsBytes_quoted_le (s : String) : charsBytes (quoted s) ≤ 6 * s.utf8ByteSize + 2 := by
  have hescape : ∀ l : List Char, charsBytes (l.flatMap escape) ≤ 6 * charsBytes l := by
    intro l
    induction l with
    | nil => simp [charsBytes]
    | cons c l ih =>
        rw [List.flatMap_cons, charsBytes_append, charsBytes_cons]
        have hc := charsBytes_escape_le c
        omega
  have hquote : '"'.utf8Size = 1 ∧ charsBytes ['"'] = 1 := ⟨rfl, rfl⟩
  have hall := hescape s.toList
  rw [charsBytes_toList] at hall
  rw [quoted, List.cons_append, charsBytes_cons, charsBytes_append]
  omega

/-- An escape is no shorter than its character. -/
theorem utf8Size_le_escape (c : Char) : c.utf8Size ≤ charsBytes (escape c) := by
  by_cases hnamed : c ∈ ['"', '\\', '\x08', '\t', '\n', '\x0c', '\r']
  · simp only [List.mem_cons, List.not_mem_nil, or_false] at hnamed
    rcases hnamed with rfl | rfl | rfl | rfl | rfl | rfl | rfl <;> decide
  · simp only [List.mem_cons, List.not_mem_nil, or_false, not_or] at hnamed
    obtain ⟨h₁, h₂, h₃, h₄, h₅, h₆, h₇⟩ := hnamed
    simp only [escape, if_neg h₁, if_neg h₂, if_neg h₃, if_neg h₄, if_neg h₅, if_neg h₆, if_neg h₇]
    have hfour := c.utf8Size_le_four
    have hbackslash : '\\'.utf8Size = 1 ∧ 'u'.utf8Size = 1 ∧ '0'.utf8Size = 1 := ⟨rfl, rfl, rfl⟩
    split
    · simp only [charsBytes, List.map_cons, List.map_nil, List.sum_cons, List.sum_nil]
      omega
    · simp [charsBytes]

theorem utf8ByteSize_le_quoted (s : String) : s.utf8ByteSize ≤ charsBytes (quoted s) := by
  have hescape : ∀ l : List Char, charsBytes l ≤ charsBytes (l.flatMap escape) := by
    intro l
    induction l with
    | nil => rfl
    | cons c l ih =>
        rw [List.flatMap_cons, charsBytes_append, charsBytes_cons]
        have hc := utf8Size_le_escape c
        omega
  have hall := hescape s.toList
  rw [charsBytes_toList] at hall
  rw [quoted, List.cons_append, charsBytes_cons, charsBytes_append]
  omega

theorem charsBytes_toDigits_le {n k : Nat} (h : n < 10 ^ k) (hk : 0 < k) :
    charsBytes (Nat.toDigits 10 n) ≤ k := by
  have hsmall : ∀ l : List Char, (∀ c ∈ l, c.isDigit = true) → charsBytes l = l.length := by
    intro l hl
    induction l with
    | nil => rfl
    | cons c l ih =>
        rw [List.forall_mem_cons] at hl
        have hc : c.utf8Size = 1 := by
          simp only [Char.isDigit, Bool.and_eq_true, decide_eq_true_eq] at hl
          exact Char.utf8Size_eq_one_iff.mpr (UInt32.le_trans hl.1.2 (by decide))
        rw [charsBytes_cons, hc, ih hl.2, List.length_cons, Nat.add_comm]
  rw [hsmall _ fun c hc => Nat.isDigit_of_mem_toDigits (by decide) (by decide) hc]
  exact (Nat.length_toDigits_le_iff (by decide) hk).mpr h

/-! ### Values -/

namespace Value

/-- The bytes of the printed value. -/
def bytes (v : Value) : Nat := charsBytes v.chars

theorem utf8ByteSize_toText (v : Value) : v.toText.utf8ByteSize = v.bytes :=
  utf8ByteSize_ofList v.chars

theorem bytes_array_nil : (array []).bytes = 2 := rfl

theorem bytes_array_le (items : List Value) :
    (array items).bytes ≤ 2 + (items.map fun v => v.bytes + 1).sum := by
  cases items with
  | nil => simp [bytes_array_nil]
  | cons v items =>
      have hne : (v :: items).map chars ≠ [] := by simp
      have hcommas := charsBytes_commaSep hne
      have hopen : '['.utf8Size = 1 ∧ ']'.utf8Size = 1 := ⟨rfl, rfl⟩
      rw [bytes, chars, charsItems_eq, List.cons_append, charsBytes_cons, charsBytes_append,
        charsBytes_cons]
      simp only [List.map_map, Function.comp_def, charsBytes, List.map_nil, List.sum_nil, bytes]
        at hcommas ⊢
      omega

/-- A field with its colon and its comma. -/
def fieldBytes (key : String) (v : Value) : Nat := charsBytes (quoted key) + v.bytes + 2

def fieldsBytes (fields : List (String × Value)) : Nat :=
  (fields.map fun f => fieldBytes f.1 f.2).sum

theorem bytes_object {fields : List (String × Value)} (h : fields ≠ []) :
    (object fields).bytes = 1 + fieldsBytes fields := by
  have hfields : ∀ fields : List (String × Value), ((charsFields fields).map
      fun part => charsBytes part + 1).sum = fieldsBytes fields := by
    intro fields
    induction fields with
    | nil => rfl
    | cons f fields ih =>
        obtain ⟨key, v⟩ := f
        have hcolon : ':'.utf8Size = 1 := rfl
        rw [charsFields, List.map_cons, List.sum_cons, ih, charsBytes_append, charsBytes_cons]
        simp only [fieldsBytes, List.map_cons, List.sum_cons, fieldBytes, bytes]
        omega
  have hne : charsFields fields ≠ [] := by
    cases fields with
    | nil => exact absurd rfl h
    | cons f fields =>
        obtain ⟨key, v⟩ := f
        simp [charsFields]
  have hcommas := charsBytes_commaSep hne
  have hopen : '\x7b'.utf8Size = 1 ∧ '\x7d'.utf8Size = 1 := ⟨rfl, rfl⟩
  rw [hfields] at hcommas
  rw [bytes, chars, List.cons_append, charsBytes_cons, charsBytes_append, charsBytes_cons]
  simp only [charsBytes, List.map_nil, List.sum_nil] at hcommas ⊢
  omega

/-! ### Inserting fields -/

section Insert

variable (key other : String) (x y z : Value) (fields : List (String × Value))

theorem insertField_ne_nil : insertField key x fields ≠ [] := by
  cases fields with
  | nil => simp [insertField]
  | cons f fields =>
      obtain ⟨k, v⟩ := f
      rw [insertField]
      split
      · simp
      · split
        · simp
        · simp

/-- The last insertion counts. -/
theorem insertField_insertField : insertField key x (insertField key y fields) =
    insertField key x fields := by
  induction fields with
  | nil => simp [insertField]
  | cons f fields ih =>
      obtain ⟨k, v⟩ := f
      by_cases he : key = k
      · simp [insertField, he]
      · by_cases hlt : key < k
        · simp [insertField, he, hlt]
        · simp [insertField, he, hlt, ih]

variable {key other x y z fields}

/-- A field stays when another one is inserted. -/
theorem insertField_of_ne (hne : key ≠ other) (h : insertField key x fields = fields) :
    insertField key x (insertField other z fields) = insertField other z fields := by
  induction fields with
  | nil => simp [insertField] at h
  | cons f fields ih =>
      obtain ⟨k, v⟩ := f
      by_cases hk : key = k
      · subst hk
        simp only [insertField, if_pos, List.cons.injEq, Prod.mk.injEq, true_and, and_true] at h
        subst h
        by_cases hlt : other < key
        · have hgt : ¬ key < other := fun h => String.lt_irrefl _ (String.lt_trans h hlt)
          simp [insertField, hlt, Ne.symm hne, hne, hgt]
        · simp [insertField, hlt, Ne.symm hne]
      · by_cases hlt : key < k
        · -- it would have been inserted here
          simp only [insertField, if_neg hk, if_pos hlt] at h
          exact absurd (congrArg List.length h) (by simp)
        · simp only [insertField, if_neg hk, if_neg hlt, List.cons.injEq, true_and] at h
          by_cases ho : other = k
          · simp [insertField, ho, hk, hlt, h]
          · by_cases hol : other < k
            · have hgt : ¬ key < other := fun h => hlt (String.lt_trans h hol)
              simp [insertField, ho, hol, hne, hgt, hk, hlt, h]
            · simp [insertField, ho, hol, hk, hlt, ih h]

theorem fieldsBytes_insertField_le :
    fieldsBytes (insertField key x fields) ≤ fieldsBytes fields + fieldBytes key x := by
  induction fields with
  | nil => simp [insertField, fieldsBytes]
  | cons f fields ih =>
      obtain ⟨k, v⟩ := f
      simp only [insertField]
      split
      · simp only [fieldsBytes, List.map_cons, List.sum_cons]
        omega
      · split
        · simp only [fieldsBytes, List.map_cons, List.sum_cons]
          omega
        · simp only [fieldsBytes, List.map_cons, List.sum_cons] at ih ⊢
          omega

/-- Another value for a field that is there. -/
theorem fieldsBytes_replace (h : insertField key y fields = fields) :
    fieldsBytes (insertField key x fields) + y.bytes = fieldsBytes fields + x.bytes := by
  induction fields with
  | nil => simp [insertField] at h
  | cons f fields ih =>
      obtain ⟨k, v⟩ := f
      by_cases hk : key = k
      · subst hk
        simp only [insertField, if_pos, List.cons.injEq, Prod.mk.injEq, true_and, and_true] at h
        subst h
        simp only [insertField, if_pos, fieldsBytes, List.map_cons, List.sum_cons, fieldBytes]
        omega
      · by_cases hlt : key < k
        · simp only [insertField, if_neg hk, if_pos hlt] at h
          exact absurd (congrArg List.length h) (by simp)
        · simp only [insertField, if_neg hk, if_neg hlt, List.cons.injEq, true_and] at h ⊢
          have hrest := ih h
          simp only [fieldsBytes, List.map_cons, List.sum_cons] at hrest ⊢
          omega

end Insert

end Value

end Pikamux.Json

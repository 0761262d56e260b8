import Mathlib.Algebra.Order.Ring.Nat
import Pikamux.Json.Text

/-!
# Json — Printed

What the printed text of a value says about the value.  A `serde_json::Value` is a proper one: its
numbers are in range, its doubles have the texts that the printer gives them, and the keys of its
objects are in order.

* `chars_inj` — proper values print differently, whatever follows them that is no part of a number.
* `toText_inj` — so a text is printed for one proper value at most.
-/

namespace Pikamux.Json

/-- The characters that printed numbers consist of. -/
def numeral (c : Char) : Bool := c.isDigit || c = '-' || c = '+' || c = '.' || c = 'e'

/-- A text that does not continue a number. -/
def Ends (rest : List Char) : Prop := ∀ c ∈ rest.head?, numeral c = false

/-- What is used of the texts of doubles. -/
structure Doubles (double : String → Prop) : Prop where
  numerals : ∀ text, double text → ∀ c ∈ text.toList, numeral c = true
  point : ∀ text, double text → ∃ c ∈ text.toList, c = '.' ∨ c = 'e'

def Number.Proper (double : String → Prop) : Number → Prop
  | .posInt n => n < 2 ^ 64
  | .negInt magnitude => 0 < magnitude ∧ magnitude ≤ 2 ^ 63
  | .float text => double text

/-- The values that `serde_json::Value` has. -/
inductive Value.Proper (double : String → Prop) : Value → Prop where
  | null : Proper double .null
  | bool (b : Bool) : Proper double (.bool b)
  | number {n : Number} (h : n.Proper double) : Proper double (.number n)
  | string (s : String) : Proper double (.string s)
  | array {items : List Value} (h : ∀ v ∈ items, Proper double v) : Proper double (.array items)
  | object {fields : List (String × Value)} (hkeys : fields.Pairwise fun f g => f.1 < g.1)
      (h : ∀ f ∈ fields, Proper double f.2) : Proper double (.object fields)

variable {double : String → Prop}

/-! ### Numbers -/

theorem takeWhile_numeral {a x : List Char} (ha : ∀ c ∈ a, numeral c = true) (hx : Ends x) :
    (a ++ x).takeWhile numeral = a := by
  rw [List.takeWhile_append_of_pos ha]
  cases x with
  | nil => simp
  | cons c x => simp [hx c rfl]

/-- Numerals end where they end. -/
theorem numerals_inj {a b x y : List Char} (ha : ∀ c ∈ a, numeral c = true)
    (hb : ∀ c ∈ b, numeral c = true) (hx : Ends x) (hy : Ends y) (h : a ++ x = b ++ y) :
    a = b ∧ x = y := by
  have hab : a = b := by rw [← takeWhile_numeral ha hx, h, takeWhile_numeral hb hy]
  subst hab
  exact ⟨rfl, List.append_cancel_left h⟩

theorem digit_of_mem_toDigits {n : Nat} {c : Char} (h : c ∈ Nat.toDigits 10 n) :
    c.isDigit = true :=
  Nat.isDigit_of_mem_toDigits (by decide) (by decide) h

theorem toDigits_inj {n m : Nat} (h : Nat.toDigits 10 n = Nat.toDigits 10 m) : n = m := by
  rw [← @Nat.ofDigitChars_ten_toDigits n, h, Nat.ofDigitChars_ten_toDigits]

theorem Number.numeral_of_mem {n : Number} (hdouble : Doubles double) (hn : n.Proper double)
    {c : Char} (h : c ∈ n.chars) : numeral c = true := by
  cases n with
  | posInt n => simp [numeral, digit_of_mem_toDigits h]
  | negInt magnitude =>
      rcases List.mem_cons.mp h with rfl | hdigit
      · rfl
      · simp [numeral, digit_of_mem_toDigits hdigit]
  | float text => exact hdouble.numerals text hn c h

/-- An integer has no point and no exponent. -/
theorem Number.chars_ne_float {text : String} (hdouble : Doubles double) (htext : double text)
    (sign : List Char) (hsign : ∀ c ∈ sign, c = '-') (n : Nat) :
    sign ++ Nat.toDigits 10 n ≠ text.toList := by
  intro h
  obtain ⟨c, hc, hpoint⟩ := hdouble.point text htext
  rw [← h] at hc
  rcases List.mem_append.mp hc with hmem | hmem
  · have hminus := hsign c hmem
    subst hminus
    rcases hpoint with h | h <;> cases h
  · have hdigit := digit_of_mem_toDigits hmem
    rcases hpoint with rfl | rfl <;> cases hdigit

theorem Number.chars_inj {n m : Number} (hdouble : Doubles double) (hn : n.Proper double)
    (hm : m.Proper double) (h : n.chars = m.chars) : n = m := by
  have hdash : ∀ k l : Nat, Nat.toDigits 10 k ≠ '-' :: Nat.toDigits 10 l := by
    intro k l h
    have hdigit := digit_of_mem_toDigits (h ▸ List.mem_cons_self : '-' ∈ Nat.toDigits 10 k)
    cases hdigit
  cases n with
  | posInt n =>
      cases m with
      | posInt m => rw [toDigits_inj h]
      | negInt m => exact absurd h (hdash n m)
      | float text => exact absurd h (chars_ne_float hdouble hm [] (by simp) n)
  | negInt n =>
      cases m with
      | posInt m => exact absurd h.symm (hdash m n)
      | negInt m => rw [toDigits_inj (List.cons.inj h).2]
      | float text =>
          exact absurd h (chars_ne_float hdouble hm ['-'] (by simp) n)
  | float text =>
      cases m with
      | posInt m => exact absurd h.symm (chars_ne_float hdouble hn [] (by simp) m)
      | negInt m =>
          exact absurd h.symm (chars_ne_float hdouble hn ['-'] (by simp) m)
      | float text' => rw [String.toList_injective h]

theorem Number.chars_ne_nil {n : Number} (hdouble : Doubles double) (hn : n.Proper double) :
    n.chars ≠ [] := by
  intro h
  cases n with
  | posInt n => exact Nat.toDigits_ne_nil h
  | negInt n => cases h
  | float text =>
      obtain ⟨c, hc, -⟩ := hdouble.point text hn
      rw [show text.toList = [] from h] at hc
      cases hc

/-! ### Values -/

/-- How a value that is no number begins. -/
def Value.mark : Value → Option Char
  | .null => some 'n'
  | .bool true => some 't'
  | .bool false => some 'f'
  | .number _ => none
  | .string _ => some '"'
  | .array _ => some '['
  | .object _ => some '{'

/-- The first character of a value tells the kinds apart. -/
theorem Value.chars_head {v : Value} (hdouble : Doubles double) (hv : v.Proper double) :
    ∃ c cs, v.chars = c :: cs ∧ v.mark = (if numeral c then none else some c) := by
  cases hv with
  | null => exact ⟨_, _, rfl, rfl⟩
  | bool b => cases b <;> exact ⟨_, _, rfl, rfl⟩
  | @number n h =>
      cases hchars : n.chars with
      | nil => exact absurd hchars (n.chars_ne_nil hdouble h)
      | cons c cs =>
          have hc := n.numeral_of_mem hdouble h (hchars ▸ List.mem_cons_self : c ∈ n.chars)
          exact ⟨c, cs, hchars, by simp [mark, hc]⟩
  | string s => exact ⟨_, _, rfl, rfl⟩
  | array => exact ⟨_, _, rfl, rfl⟩
  | object => exact ⟨_, _, rfl, rfl⟩

/-- Lists of parts that end where they end, between commas and up to a mark that begins none. -/
theorem commaSep_inj_of {α : Type} {f : α → List Char} {close : Char} {xs ys : List α}
    {x y : List Char} (hclose : numeral close = false) (hcomma : close ≠ ',')
    (hbegin : ∀ a, a ∈ xs ∨ a ∈ ys → ∀ u v, f a ++ u ≠ close :: v)
    (hf : ∀ a ∈ xs, ∀ b ∈ ys, ∀ u v, Ends u → Ends v → f a ++ u = f b ++ v → a = b ∧ u = v)
    (h : commaSep (xs.map f) ++ close :: x = commaSep (ys.map f) ++ close :: y) :
    xs = ys ∧ x = y := by
  have hends : ∀ (rest : List (List Char)) (z : List Char),
      Ends ((if rest = [] then [] else ',' :: commaSep rest) ++ close :: z) := by
    intro rest z c hc
    cases rest with
    | nil =>
        cases hc
        exact hclose
    | cons =>
        cases hc
        rfl
  induction xs generalizing ys with
  | nil =>
      cases ys with
      | nil => exact ⟨rfl, (List.cons.inj h).2⟩
      | cons b ys =>
          rw [List.map_cons, commaSep_cons, List.append_assoc] at h
          exact absurd h.symm (hbegin b (.inr List.mem_cons_self) _ _)
  | cons a xs ih =>
      cases ys with
      | nil =>
          rw [List.map_cons, commaSep_cons, List.append_assoc] at h
          exact absurd h (hbegin a (.inl List.mem_cons_self) _ _)
      | cons b ys =>
          simp only [List.map_cons, commaSep_cons, List.append_assoc] at h
          obtain ⟨rfl, htail⟩ := hf a List.mem_cons_self b List.mem_cons_self _ _ (hends _ _)
            (hends _ _) h
          cases xs with
          | nil =>
              cases ys with
              | nil => exact ⟨rfl, (List.cons.inj htail).2⟩
              | cons b ys => exact absurd (List.cons.inj htail).1 hcomma
          | cons a' xs =>
              cases ys with
              | nil => exact absurd (List.cons.inj htail).1.symm hcomma
              | cons b ys =>
                  obtain ⟨hrest, hxy⟩ := ih
                    (fun c hc => hbegin c (hc.imp (List.mem_cons_of_mem a)
                      (List.mem_cons_of_mem a)))
                    (fun c hc d hd => hf c (List.mem_cons_of_mem a hc) d
                      (List.mem_cons_of_mem a hd))
                    (List.cons.inj htail).2
                  exact ⟨congrArg (List.cons a) hrest, hxy⟩

theorem Value.charsFields_eq (fields : List (String × Value)) :
    charsFields fields = fields.map fun f => quoted f.1 ++ ':' :: f.2.chars := by
  induction fields with
  | nil => rfl
  | cons f fields ih =>
      obtain ⟨k, v⟩ := f
      rw [charsFields, ih, List.map_cons]

theorem Value.mark_eq {v w : Value} {x y : List Char} (hdouble : Doubles double)
    (hv : v.Proper double) (hw : w.Proper double) (h : v.chars ++ x = w.chars ++ y) :
    v.mark = w.mark := by
  obtain ⟨c, cs, hc, hvm⟩ := chars_head hdouble hv
  obtain ⟨d, ds, hd, hwm⟩ := chars_head hdouble hw
  rw [hc, hd] at h
  rw [hvm, hwm, (List.cons.inj h).1]

/-- No value begins with what ends an array. -/
theorem Value.chars_append_ne {v : Value} (hdouble : Doubles double) (hv : v.Proper double)
    (x y : List Char) : v.chars ++ x ≠ ']' :: y := by
  obtain ⟨c, cs, hc, hmark⟩ := chars_head hdouble hv
  rw [hc]
  intro h
  obtain rfl := (List.cons.inj h).1
  rw [if_neg (by decide)] at hmark
  cases v with
  | bool b => cases b <;> cases hmark
  | _ => cases hmark

theorem Value.chars_inj {v w : Value} {x y : List Char} (hdouble : Doubles double)
    (hv : v.Proper double) (hw : w.Proper double) (hx : Ends x) (hy : Ends y)
    (h : v.chars ++ x = w.chars ++ y) : v = w ∧ x = y := by
  have hmark := mark_eq hdouble hv hw h
  induction hv generalizing w x y with
  | null =>
      cases hw with
      | null => exact ⟨rfl, List.append_cancel_left h⟩
      | bool b => cases b <;> cases hmark
      | _ => cases hmark
  | bool b =>
      cases hw with
      | bool b' =>
          cases b <;> cases b' <;> cases hmark <;> exact ⟨rfl, List.append_cancel_left h⟩
      | _ => cases b <;> cases hmark
  | @number n hn =>
      cases hw with
      | bool b => cases b <;> cases hmark
      | @number m hm =>
          obtain ⟨hchars, hxy⟩ := numerals_inj (fun c hc => n.numeral_of_mem hdouble hn hc)
            (fun c hc => m.numeral_of_mem hdouble hm hc) hx hy h
          exact ⟨congrArg Value.number (Number.chars_inj hdouble hn hm hchars), hxy⟩
      | _ => cases hmark
  | string s =>
      cases hw with
      | bool b => cases b <;> cases hmark
      | string s' =>
          obtain ⟨rfl, hxy⟩ := quoted_prefixFree _ _ _ _ h
          exact ⟨rfl, hxy⟩
      | _ => cases hmark
  | @array items hitems ih =>
      cases hw with
      | bool b => cases b <;> cases hmark
      | @array items' hitems' =>
          simp only [chars, charsItems_eq, List.cons_append, List.append_assoc, List.nil_append]
            at h
          have hbegin : ∀ a, a ∈ items ∨ a ∈ items' → ∀ u v, chars a ++ u ≠ ']' :: v := by
            intro a ha
            exact chars_append_ne hdouble (ha.elim (hitems a) (hitems' a))
          have hinj : ∀ a ∈ items, ∀ b ∈ items', ∀ u v, Ends u → Ends v →
              chars a ++ u = chars b ++ v → a = b ∧ u = v := by
            intro a ha b hb u v hu hv huv
            exact ih a ha (hitems' b hb) hu hv huv
              (mark_eq hdouble (hitems a ha) (hitems' b hb) huv)
          obtain ⟨rfl, hxy⟩ := commaSep_inj_of (by decide) (by decide) hbegin hinj
            (List.cons.inj h).2
          exact ⟨rfl, hxy⟩
      | _ => cases hmark
  | @object fields hkeys hfields ih =>
      cases hw with
      | bool b => cases b <;> cases hmark
      | @object fields' hkeys' hfields' =>
          simp only [chars, charsFields_eq, List.cons_append, List.append_assoc, List.nil_append]
            at h
          have hinj : ∀ a ∈ fields, ∀ b ∈ fields', ∀ u v, Ends u → Ends v →
              (quoted a.1 ++ ':' :: a.2.chars) ++ u = (quoted b.1 ++ ':' :: b.2.chars) ++ v →
                a = b ∧ u = v := by
            intro a ha b hb u v hu hv huv
            rw [List.append_assoc, List.append_assoc] at huv
            obtain ⟨hkey, hvalue⟩ := quoted_prefixFree _ _ _ _ huv
            have hvalue := (List.cons.inj hvalue).2
            obtain ⟨hab, huv⟩ := ih a ha (hfields' b hb) hu hv hvalue
              (mark_eq hdouble (hfields a ha) (hfields' b hb) hvalue)
            exact ⟨Prod.ext hkey hab, huv⟩
          obtain ⟨rfl, hxy⟩ := commaSep_inj_of (by decide) (by decide)
            (fun a _ u v h => by simp [quoted] at h) hinj (List.cons.inj h).2
          exact ⟨rfl, hxy⟩
      | _ => cases hmark

/-- A text is printed for one value at most. -/
theorem Value.toText_inj {v w : Value} (hdouble : Doubles double) (hv : v.Proper double)
    (hw : w.Proper double) (h : v.toText = w.toText) : v = w := by
  have hchars : v.chars ++ [] = w.chars ++ [] := by
    rw [List.append_nil, List.append_nil]
    simpa [toText] using congrArg String.toList h
  exact (chars_inj hdouble hv hw (fun _ h => by cases h) (fun _ h => by cases h) hchars).1

end Pikamux.Json

import Mathlib.Tactic.Common

/-!
# Support — Offsets

The bytes of a text, and its parts between two byte offsets.  There is such a part only where both
offsets are between characters.

* `Boundary.of_ascii`, `Boundary.after_ascii` — no character is cut before or behind an ASCII
  byte.
* `slice_between` — between two such offsets the part is what the text up to the second has more.
-/

namespace Support.Offsets

def encode (text : List Char) : List UInt8 := text.flatMap String.utf8EncodeChar

/-- The text up to an offset, and from there on. -/
def splitAtByte : Nat → List Char → Option (List Char × List Char)
  | 0, text => some ([], text)
  | _ + 1, [] => none
  | n + 1, c :: text =>
      if c.utf8Size ≤ n + 1 then
        (splitAtByte (n + 1 - c.utf8Size) text).map fun parts => (c :: parts.1, parts.2)
      else none

/-- `&text[start..stop]` -/
def slice (text : List Char) (start stop : Nat) : Option (List Char) := do
  let (_, rest) ← splitAtByte start text
  if start ≤ stop then
    let (part, _) ← splitAtByte (stop - start) rest
    return part
  else none

/-- The characters of a text that end at an offset or before. -/
def upTo : Nat → List Char → List Char
  | _, [] => []
  | n, c :: text => if c.utf8Size ≤ n then c :: upTo (n - c.utf8Size) text else []

/-- An offset between two characters, or at an end. -/
def Boundary (text : List Char) (i : Nat) : Prop :=
  ∃ pre post, text = pre ++ post ∧ (encode pre).length = i

/-! ### Bytes -/

@[simp] theorem encode_nil : encode [] = [] := rfl

@[simp] theorem encode_cons (c : Char) (text : List Char) :
    encode (c :: text) = String.utf8EncodeChar c ++ encode text := rfl

@[simp] theorem encode_append (text text' : List Char) :
    encode (text ++ text') = encode text ++ encode text' := by
  simp [encode]

theorem length_encode_cons (c : Char) (text : List Char) :
    (encode (c :: text)).length = c.utf8Size + (encode text).length := by
  simp

theorem length_encode_eq_zero {text : List Char} : (encode text).length = 0 ↔ text = [] := by
  cases text with
  | nil => simp
  | cons c text =>
      have hsize := c.utf8Size_pos
      rw [length_encode_cons]
      simp
      omega

/-- An ASCII byte is all of a character. -/
theorem utf8EncodeChar_ascii {c : Char} {x : UInt8} (hx : x ∈ String.utf8EncodeChar c)
    (hascii : x < 128) : String.utf8EncodeChar c = [x] := by
  have hhigh (n : Nat) (hlo : 128 ≤ n) (hhi : n < 256) : ¬ UInt8.ofNat n < 128 := by
    rw [UInt8.lt_iff_toNat_lt, UInt8.toNat_ofNat_of_lt' hhi]
    simpa using hlo
  unfold String.utf8EncodeChar at hx ⊢
  generalize c.val.toNat = v at hx ⊢
  dsimp only at hx ⊢
  split at hx
  · rename_i hsmall
    rw [if_pos hsmall]
    rw [List.mem_singleton.mp hx]
  · -- every byte of a longer character is at least 128
    exfalso
    split at hx
    · simp only [List.mem_cons, List.not_mem_nil, or_false] at hx
      obtain rfl | rfl := hx
      · exact hhigh _ (by omega) (by omega) hascii
      · exact hhigh _ (by omega) (by omega) hascii
    · split at hx
      · simp only [List.mem_cons, List.not_mem_nil, or_false] at hx
        obtain rfl | rfl | rfl := hx
        · exact hhigh _ (by omega) (by omega) hascii
        · exact hhigh _ (by omega) (by omega) hascii
        · exact hhigh _ (by omega) (by omega) hascii
      · simp only [List.mem_cons, List.not_mem_nil, or_false] at hx
        obtain rfl | rfl | rfl | rfl := hx
        · exact hhigh _ (by omega) (by omega) hascii
        · exact hhigh _ (by omega) (by omega) hascii
        · exact hhigh _ (by omega) (by omega) hascii
        · exact hhigh _ (by omega) (by omega) hascii

/-! ### Boundaries -/

variable {text : List Char} {i j : Nat}

theorem Boundary.zero (text : List Char) : Boundary text 0 := ⟨[], text, rfl, rfl⟩

theorem Boundary.end (text : List Char) : Boundary text (encode text).length :=
  ⟨text, [], (List.append_nil text).symm, rfl⟩

theorem Boundary.le (h : Boundary text i) : i ≤ (encode text).length := by
  obtain ⟨pre, post, rfl, rfl⟩ := h
  simp

theorem Boundary.cons (h : Boundary text i) (c : Char) : Boundary (c :: text) (c.utf8Size + i) := by
  obtain ⟨pre, post, rfl, rfl⟩ := h
  exact ⟨c :: pre, post, rfl, length_encode_cons c pre⟩

/-- Both ends of an ASCII byte are boundaries. -/
theorem boundary_ascii {x : UInt8} (hx : (encode text)[i]? = some x) (hascii : x < 128) :
    Boundary text i ∧ Boundary text (i + 1) := by
  induction text generalizing i with
  | nil => simp at hx
  | cons c text ih =>
      rw [encode_cons] at hx
      by_cases hfirst : i < (String.utf8EncodeChar c).length
      · rw [List.getElem?_append_left hfirst] at hx
        have hsingle := utf8EncodeChar_ascii (List.mem_of_getElem? hx) hascii
        have hsize : c.utf8Size = 1 := by
          rw [← String.length_utf8EncodeChar, hsingle, List.length_singleton]
        rw [hsingle, List.length_singleton, Nat.lt_one_iff] at hfirst
        subst hfirst
        have hnext := (Boundary.zero text).cons c
        rw [hsize] at hnext
        exact ⟨.zero _, hnext⟩
      · have hle := Nat.le_of_not_lt hfirst
        rw [List.getElem?_append_right hle] at hx
        obtain ⟨hat, hbehind⟩ := ih hx
        rw [String.length_utf8EncodeChar] at hat hbehind hle
        have hat := hat.cons c
        have hbehind := hbehind.cons c
        rw [Nat.add_sub_cancel' hle] at hat
        rw [← Nat.add_assoc, Nat.add_sub_cancel' hle] at hbehind
        exact ⟨hat, hbehind⟩

theorem Boundary.of_ascii {x : UInt8} (hx : (encode text)[i]? = some x) (hascii : x < 128) :
    Boundary text i :=
  (boundary_ascii hx hascii).1

theorem Boundary.after_ascii {x : UInt8} (hx : (encode text)[i]? = some x) (hascii : x < 128) :
    Boundary text (i + 1) :=
  (boundary_ascii hx hascii).2

/-! ### Slices -/

theorem splitAtByte_append (pre post : List Char) :
    splitAtByte (encode pre).length (pre ++ post) = some (pre, post) := by
  induction pre with
  | nil =>
      rw [encode_nil, List.length_nil, splitAtByte]
      rfl
  | cons c pre ih =>
      have hsize := c.utf8Size_pos
      obtain ⟨n, hn⟩ : ∃ n, c.utf8Size + (encode pre).length = n + 1 :=
        ⟨c.utf8Size + (encode pre).length - 1, by omega⟩
      have hle : c.utf8Size ≤ n + 1 := by omega
      have hrest : n + 1 - c.utf8Size = (encode pre).length := by omega
      rw [length_encode_cons, hn, List.cons_append, splitAtByte, if_pos hle, hrest, ih]
      rfl

theorem upTo_append (pre post : List Char) : upTo (encode pre).length (pre ++ post) = pre := by
  induction pre with
  | nil =>
      cases post with
      | nil => rfl
      | cons c post =>
          have hsize := c.utf8Size_pos
          rw [encode_nil, List.length_nil, List.nil_append, upTo, if_neg (by omega)]
  | cons c pre ih =>
      rw [length_encode_cons, List.cons_append, upTo, if_pos (Nat.le_add_right _ _),
        Nat.add_sub_cancel_left, ih]

@[simp] theorem upTo_zero (text : List Char) : upTo 0 text = [] := upTo_append [] text

@[simp] theorem upTo_end (text : List Char) : upTo (encode text).length text = text := by
  have h := upTo_append text []
  rwa [List.append_nil] at h

theorem Boundary.upTo_eq (h : Boundary text i) :
    ∃ post, text = upTo i text ++ post ∧ (encode (upTo i text)).length = i := by
  obtain ⟨pre, post, rfl, rfl⟩ := h
  rw [upTo_append]
  exact ⟨post, rfl, rfl⟩

/-- Of two parts at the beginning, the shorter one begins the other. -/
theorem Boundary.split (hi : Boundary text i) (hj : Boundary text j) (hle : i ≤ j) :
    ∃ mid post, text = upTo i text ++ mid ++ post ∧ upTo j text = upTo i text ++ mid ∧
      (encode mid).length = j - i := by
  obtain ⟨post, htext, hlength⟩ := hi.upTo_eq
  obtain ⟨post', htext', hlength'⟩ := hj.upTo_eq
  obtain ⟨mid, hmid, hpost⟩ | ⟨mid, hmid, hpost⟩ :=
    List.append_eq_append_iff.mp (htext.symm.trans htext')
  · refine ⟨mid, post', ?_, hmid, ?_⟩
    · rw [← hmid]
      exact htext'
    · have hsum := congrArg (fun part => (encode part).length) hmid
      simp only [encode_append, List.length_append, hlength, hlength'] at hsum
      omega
  · -- then the second is not longer, and they are the same
    have hsum := congrArg (fun part => (encode part).length) hmid
    simp only [encode_append, List.length_append, hlength, hlength'] at hsum
    obtain rfl : mid = [] := length_encode_eq_zero.mp (by omega)
    rw [List.append_nil] at hmid
    refine ⟨[], post, ?_, ?_, ?_⟩
    · rw [List.append_nil]
      exact htext
    · rw [List.append_nil, hmid]
    · simp
      omega

theorem slice_between (hi : Boundary text i) (hj : Boundary text j) (hle : i ≤ j) :
    ∃ part, slice text i j = some part ∧ upTo j text = upTo i text ++ part ∧
      encode part = ((encode text).drop i).take (j - i) := by
  obtain ⟨mid, post, htext, hupTo, hmid⟩ := hi.split hj hle
  obtain ⟨-, -, hlength⟩ := hi.upTo_eq
  generalize upTo i text = pre at htext hupTo hlength
  subst hlength
  refine ⟨mid, ?_, hupTo, ?_⟩
  · have hfirst := splitAtByte_append pre (mid ++ post)
    have hsecond := splitAtByte_append mid post
    rw [hmid] at hsecond
    rw [← List.append_assoc, ← htext] at hfirst
    rw [slice, hfirst]
    simp only [Option.bind_eq_bind, Option.bind_some, if_pos hle, hsecond, Option.pure_def]
  · rw [htext, encode_append, encode_append, List.append_assoc, List.drop_left, ← hmid,
      List.take_left]

/-- The character behind an offset ends at the next one. -/
theorem Boundary.next (h : Boundary text i) (hlt : i < (encode text).length) :
    ∃ c rest, slice text i (encode text).length = some (c :: rest) ∧
      Boundary text (i + c.utf8Size) := by
  obtain ⟨part, hpart, hupTo, hencode⟩ := slice_between h (.end text) h.le
  obtain ⟨-, -, hlength⟩ := h.upTo_eq
  rw [upTo_end] at hupTo
  cases part with
  | nil =>
      rw [List.append_nil] at hupTo
      rw [← hupTo] at hlength
      omega
  | cons c rest =>
      refine ⟨c, rest, hpart, upTo i text ++ [c], rest, ?_, ?_⟩
      · rw [List.append_assoc]
        exact hupTo
      · rw [encode_append, List.length_append, hlength]
        simp

end Support.Offsets

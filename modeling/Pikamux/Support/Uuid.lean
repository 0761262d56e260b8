import Mathlib.Tactic.Common

/-!
# Support — Uuid

The text forms of a UUID: 32 hexadecimal digits, plain or hyphenated, the hyphenated form also in
braces or behind `urn:uuid:`.  Parsing ignores case; the canonical form is hyphenated and in lower
case.  Canonical forms are their own (`canonical_canonical`), have one length and only digits and
hyphens (`canonical_length`, `canonical_chars`), so they can be cut out of longer keys.
-/

namespace Support.Uuid

def hexDigits : List Char := "0123456789abcdefABCDEF".toList

/-- The characters of a canonical form. -/
def canonicalChars : List Char := "0123456789abcdef-".toList

/-- The digits in lower case, if all are hexadecimal. -/
def digits (chars : List Char) : Option (List Char) :=
  if chars.all hexDigits.contains then some (chars.map Char.toLower) else none

/-- The digits of a plain form. -/
def simple (chars : List Char) : Option (List Char) :=
  if chars.length = 32 then digits chars else none

/-- The digits of a hyphenated form. -/
def hyphenated (chars : List Char) : Option (List Char) :=
  if chars.length = 36 ∧ [8, 13, 18, 23].all (fun i => chars[i]? = some '-') then
    digits (chars.take 8 ++ (chars.drop 9).take 4 ++ (chars.drop 14).take 4 ++
      (chars.drop 19).take 4 ++ chars.drop 24)
  else none

/-- The digits of any form. -/
def parse (chars : List Char) : Option (List Char) :=
  match chars.length with
  | 32 => simple chars
  | 36 => hyphenated chars
  | 38 =>
      if chars.head? = some '\x7b' ∧ chars.getLast? = some '\x7d' then
        hyphenated chars.tail.dropLast
      else none
  | 45 => if chars.take 9 = "urn:uuid:".toList then hyphenated (chars.drop 9) else none
  | _ => none

/-- The hyphenated form of 32 digits. -/
def format (digits : List Char) : List Char :=
  digits.take 8 ++ '-' :: (digits.drop 8).take 4 ++ '-' :: (digits.drop 12).take 4 ++
    '-' :: (digits.drop 16).take 4 ++ '-' :: digits.drop 20

/-- The canonical form of a UUID. -/
def canonical (s : String) : Option String :=
  (parse s.toList).map fun digits => String.ofList (format digits)

theorem digits_spec {chars ds : List Char} (h : digits chars = some ds) :
    ds.length = chars.length ∧ digits ds = some ds ∧ ∀ c ∈ ds, c ∈ canonicalChars := by
  have hall : hexDigits.all (fun c => hexDigits.contains c.toLower &&
      c.toLower.toLower == c.toLower && canonicalChars.contains c.toLower) = true := by
    decide +kernel
  have hlower : ∀ c ∈ hexDigits,
      c.toLower ∈ hexDigits ∧ c.toLower.toLower = c.toLower ∧ c.toLower ∈ canonicalChars := by
    simpa [and_assoc] using hall
  unfold digits at h
  split at h
  case isTrue hall =>
    cases h
    have hmem : ∀ c ∈ chars, c ∈ hexDigits := by simpa using hall
    refine ⟨List.length_map .., ?_, ?_⟩
    · rw [digits, if_pos, List.map_map]
      · exact congrArg some (List.map_congr_left fun c hc => (hlower c (hmem c hc)).2.1)
      · simpa using fun c hc => (hlower c (hmem c hc)).1
    · intro c hc
      obtain ⟨d, hd, rfl⟩ := List.mem_map.mp hc
      exact (hlower d (hmem d hd)).2.2
  case isFalse => cases h

/-- 32 digits in the groups of the hyphenated form. -/
theorem exists_groups {ds : List Char} (h : ds.length = 32) :
    ∃ a b c d e, ds = a ++ b ++ c ++ d ++ e ∧ a.length = 8 ∧ b.length = 4 ∧ c.length = 4 ∧
      d.length = 4 ∧ e.length = 12 := by
  refine ⟨ds.take 8, (ds.drop 8).take 4, (ds.drop 12).take 4, (ds.drop 16).take 4, ds.drop 20, ?_,
    by simp [h], by simp [h], by simp [h], by simp [h], by simp [h]⟩
  have h₁ := (List.take_append_drop 8 ds).symm
  have h₂ := (List.take_append_drop 4 (ds.drop 8)).symm
  have h₃ := (List.take_append_drop 4 (ds.drop 12)).symm
  have h₄ := (List.take_append_drop 4 (ds.drop 16)).symm
  simp only [List.drop_drop] at h₂ h₃ h₄
  rw [List.append_assoc, List.append_assoc, List.append_assoc, ← h₄, ← h₃, ← h₂, ← h₁]

section Groups

variable {a b c d e : List Char}

theorem format_groups (ha : a.length = 8) (hb : b.length = 4) (hc : c.length = 4)
    (hd : d.length = 4) :
    format (a ++ b ++ c ++ d ++ e) = a ++ '-' :: b ++ '-' :: c ++ '-' :: d ++ '-' :: e := by
  simp (disch := omega) [format, List.drop_append, ha, hb, hc, List.drop_of_length_le]

theorem hyphenated_groups (ha : a.length = 8) (hb : b.length = 4) (hc : c.length = 4)
    (hd : d.length = 4) (he : e.length = 12) :
    hyphenated (a ++ '-' :: b ++ '-' :: c ++ '-' :: d ++ '-' :: e) =
      digits (a ++ b ++ c ++ d ++ e) := by
  have hyphens : ∀ l : List Char, ('-' :: l)[0]? = some '-' := fun _ => rfl
  simp (disch := omega) [hyphenated, List.drop_append, List.getElem?_append, ha, hb, hc, hd, he,
    List.drop_of_length_le, hyphens]

end Groups

theorem hyphenated_length {chars ds : List Char} (h : hyphenated chars = some ds) :
    ∃ chars', chars'.length = 32 ∧ digits chars' = some ds := by
  unfold hyphenated at h
  split at h
  case isTrue hl =>
    refine ⟨_, ?_, h⟩
    simp [hl.1]
  case isFalse => cases h

/-- Every form holds 32 digits. -/
theorem parse_spec {chars ds : List Char} (h : parse chars = some ds) :
    ds.length = 32 ∧ digits ds = some ds ∧ ∀ c ∈ ds, c ∈ canonicalChars := by
  suffices hd : ∃ chars', chars'.length = 32 ∧ digits chars' = some ds by
    obtain ⟨chars', hl, hd⟩ := hd
    obtain ⟨hlen, hself, hchars⟩ := digits_spec hd
    exact ⟨hlen.trans hl, hself, hchars⟩
  unfold parse at h
  split at h
  case h_1 hl =>
    rw [simple, if_pos hl] at h
    exact ⟨chars, hl, h⟩
  · exact hyphenated_length h
  · split at h
    case isTrue => exact hyphenated_length h
    case isFalse => cases h
  · split at h
    case isTrue => exact hyphenated_length h
    case isFalse => cases h
  · cases h

section Canonical

variable {s t : String}

/-- The canonical form of a canonical form is itself. -/
theorem canonical_canonical (h : canonical s = some t) : canonical t = some t := by
  obtain ⟨ds, hds, rfl⟩ := Option.map_eq_some_iff.mp h
  obtain ⟨hl, hself, -⟩ := parse_spec hds
  obtain ⟨a, b, c, d, e, rfl, ha, hb, hc, hd, he⟩ := exists_groups hl
  have hparse : parse (format (a ++ b ++ c ++ d ++ e)) = some (a ++ b ++ c ++ d ++ e) := by
    have hlen : (a ++ '-' :: b ++ '-' :: c ++ '-' :: d ++ '-' :: e).length = 36 := by
      simp [ha, hb, hc, hd, he]
    rw [format_groups ha hb hc hd, parse, hlen]
    exact (hyphenated_groups ha hb hc hd he).trans hself
  rw [canonical, String.toList_ofList, hparse]
  rfl

theorem canonical_length (h : canonical s = some t) : t.toList.length = 36 := by
  obtain ⟨ds, hds, rfl⟩ := Option.map_eq_some_iff.mp h
  obtain ⟨a, b, c, d, e, rfl, ha, hb, hc, hd, he⟩ := exists_groups (parse_spec hds).1
  rw [String.toList_ofList, format_groups ha hb hc hd]
  simp [ha, hb, hc, hd, he]

theorem canonical_chars (h : canonical s = some t) : ∀ c ∈ t.toList, c ∈ canonicalChars := by
  obtain ⟨ds, hds, rfl⟩ := Option.map_eq_some_iff.mp h
  obtain ⟨hl, -, hchars⟩ := parse_spec hds
  obtain ⟨a, b, c, d, e, rfl, ha, hb, hc, hd, he⟩ := exists_groups hl
  have hhyphen : '-' ∈ canonicalChars := by decide
  rw [String.toList_ofList, format_groups ha hb hc hd]
  intro x hx
  simp only [List.mem_append, List.mem_cons] at hx hchars
  grind

theorem canonical_no_colon (h : canonical s = some t) : ':' ∉ t.toList :=
  fun hm => absurd (canonical_chars h ':' hm) (by decide)

end Canonical

end Support.Uuid

import Mathlib.Algebra.Order.Ring.Nat
import Mathlib.Data.List.Infix

/-!
# Support — Matching

Taking the occurrences of patterns out of a stream.  A stream is cut into pieces, from its left: an
occurrence of a pattern, or an element that stands for itself.  A matcher that is fed the stream in
reads holds back the end of what it was fed, as it may be the beginning of an occurrence.

* `Apart` — no pattern lies within another one before its last element, so that an occurrence that
  is complete is not a part of one that is not.
* `drain_spec` — one read: the pieces that the matcher gives, with those of what it holds back and
  of what comes later, are the pieces of the stream.
* `feeds_spec` — however the stream is cut into reads, what the matcher gives are its pieces, unless
  a read ends within an occurrence where the matcher does not hold it back.
-/

namespace Support.Matching

variable {α β : Type}

/-- A pattern with what is told when it is found. -/
abbrev Pattern (α β : Type) : Type := List α × β

inductive Piece (α β : Type) where
  | plain (x : α)
  | found (p : Pattern α β)

namespace Piece

def size : Piece α β → Nat
  | plain _ => 1
  | found p => p.1.length

def visible : Piece α β → Option α
  | plain x => some x
  | found _ => none

def told : Piece α β → Option β
  | plain _ => none
  | found p => some p.2

end Piece

/-- The elements that stand for themselves. -/
def visible (pieces : List (Piece α β)) : List α := pieces.filterMap Piece.visible

/-- What is told of the occurrences. -/
def told (pieces : List (Piece α β)) : List β := pieces.filterMap Piece.told

def width (pieces : List (Piece α β)) : Nat := (pieces.map Piece.size).sum

/-- The occurrences, each by its place and its length. -/
def occurrences : List (Piece α β) → List (Nat × Nat)
  | [] => []
  | .plain _ :: rest => (occurrences rest).map fun o => (o.1 + 1, o.2)
  | .found p :: rest =>
      (0, p.1.length) :: (occurrences rest).map fun o => (o.1 + p.1.length, o.2)

theorem visible_append (a b : List (Piece α β)) : visible (a ++ b) = visible a ++ visible b := by
  simp [visible]

theorem told_append (a b : List (Piece α β)) : told (a ++ b) = told a ++ told b := by
  simp [told]

theorem width_append (a b : List (Piece α β)) : width (a ++ b) = width a + width b := by
  simp [width]

theorem occurrences_append (a b : List (Piece α β)) :
    occurrences (a ++ b) =
      occurrences a ++ (occurrences b).map fun o => (o.1 + width a, o.2) := by
  induction a with
  | nil => simp [occurrences, width]
  | cons piece a ih =>
      cases piece with
      | plain x =>
          rw [List.cons_append, occurrences, ih, occurrences, List.map_append, List.map_map]
          simp [width, Piece.size, Nat.add_assoc, Nat.add_comm 1, Function.comp_def]
      | found p =>
          rw [List.cons_append, occurrences, ih, occurrences, List.map_append, List.map_map,
            List.cons_append]
          simp [width, Piece.size, Nat.add_assoc, Nat.add_comm p.1.length, Function.comp_def]

/-- An occurrence after so many pieces is after their elements. -/
theorem mem_occurrences_append {a b : List (Piece α β)} {o : Nat × Nat} (h : o ∈ occurrences b) :
    (o.1 + width a, o.2) ∈ occurrences (a ++ b) := by
  rw [occurrences_append]
  exact List.mem_append_right _ (List.mem_map_of_mem h)

theorem plain_pieces (l : List α) :
    visible (l.map (.plain : α → Piece α β)) = l ∧ told (l.map (.plain : α → Piece α β)) = [] ∧
      width (l.map (.plain : α → Piece α β)) = l.length := by
  induction l with
  | nil => exact ⟨rfl, rfl, rfl⟩
  | cons x l ih =>
      obtain ⟨hvisible, htold, hwidth⟩ := ih
      refine ⟨?_, htold, ?_⟩
      · exact congrArg (x :: ·) hvisible
      · rw [List.map_cons, ← List.singleton_append, width_append, hwidth]
        simp [width, Piece.size, Nat.add_comm]

variable [DecidableEq α]

/-- The first of the patterns that the list begins with. -/
def matchAt (patterns : List (Pattern α β)) (l : List α) : Option (Pattern α β) :=
  patterns.find? fun p => p.1.isPrefixOf l

/-- The pieces of a list after so many elements of it. -/
def piecesFrom (patterns : List (Pattern α β)) : Nat → List α → List (Piece α β)
  | _, [] => []
  | k + 1, _ :: l => piecesFrom patterns k l
  | 0, x :: l =>
      match matchAt patterns (x :: l) with
      | some p => .found p :: piecesFrom patterns (p.1.length - 1) l
      | none => .plain x :: piecesFrom patterns 0 l

/-- The pieces of a list. -/
def pieces (patterns : List (Pattern α β)) (l : List α) : List (Piece α β) :=
  piecesFrom patterns 0 l

/-! ### The matcher -/

/-- Where a pattern occurs first. -/
def findAt (needle : List α) : List α → Option Nat
  | [] => none
  | x :: l => if needle.isPrefixOf (x :: l) then some 0 else (findAt needle l).map (· + 1)

/-- Of several places the first that is least. -/
def minAt {γ : Type} : List (Nat × γ) → Option (Nat × γ)
  | [] => none
  | a :: l =>
      match minAt l with
      | none => some a
      | some b => if b.1 < a.1 then some b else some a

/-- The leftmost occurrence, and of those at one place that of the first pattern. -/
def leftmost (patterns : List (Pattern α β)) (l : List α) : Option (Nat × Pattern α β) :=
  minAt (patterns.filterMap fun p => (findAt p.1 l).map fun at_ => (at_, p))

/-- What the matcher has given, and what it holds back. -/
structure Fed (α β : Type) where
  visible : List α
  told : List β
  pending : List α

/-- Take out the occurrences, one after the other, and give what is not held back. -/
def drain (patterns : List (Pattern α β)) (keep : List α → Nat) : Nat → List α → Fed α β
  | 0, pending => ⟨[], [], pending⟩
  | n + 1, pending =>
      if pending = [] then ⟨[], [], []⟩
      else
        match leftmost patterns pending with
        | some (at_, p) =>
            let fed := drain patterns keep n (pending.drop (at_ + p.1.length))
            ⟨pending.take at_ ++ fed.visible, p.2 :: fed.told, fed.pending⟩
        | none =>
            let emit := pending.length - keep pending
            ⟨pending.take emit, [], pending.drop emit⟩

/-- One read. -/
def feed (patterns : List (Pattern α β)) (keep : List α → Nat) (pending data : List α) :
    Fed α β :=
  drain patterns keep ((pending ++ data).length + 1) (pending ++ data)

/-- All reads, one after the other. -/
def feeds (patterns : List (Pattern α β)) (keep : List α → Nat) : List α → List (List α) → Fed α β
  | pending, [] => ⟨[], [], pending⟩
  | pending, data :: reads =>
      let fed := feed patterns keep pending data
      let rest := feeds patterns keep fed.pending reads
      ⟨fed.visible ++ rest.visible, fed.told ++ rest.told, rest.pending⟩

/-- The longest end of a list, from so many elements on, that a pattern begins with and goes on
after. -/
def longestEnd (minimum : Nat) (l pattern : List α) : Nat :=
  ((List.range' minimum (min pattern.length (l.length + 1) - minimum)).reverse.find? fun size =>
    (pattern.take size).isSuffixOf l).getD 0

def longestKept (minimum : Nat) (patterns : List (Pattern α β)) (l : List α) : Nat :=
  (patterns.map fun p => longestEnd minimum l p.1).foldl max 0

/-! ### Pieces -/

section Pieces

variable {patterns : List (Pattern α β)} {p : Pattern α β} {x : α} {l : List α} {i n : Nat}

theorem matchAt_eq_none : matchAt patterns l = none ↔ ∀ p ∈ patterns, ¬ p.1 <+: l := by
  simp [matchAt, List.find?_eq_none, List.isPrefixOf_iff_prefix]

theorem matchAt_some (h : matchAt patterns l = some p) : p ∈ patterns ∧ p.1 <+: l := by
  rw [matchAt] at h
  have hprefix : p.1.isPrefixOf l = true := by simpa using List.find?_some h
  exact ⟨List.mem_of_find?_eq_some h, List.isPrefixOf_iff_prefix.mp hprefix⟩

theorem piecesFrom_eq (k : Nat) (l : List α) :
    piecesFrom patterns k l = pieces patterns (l.drop k) := by
  induction k generalizing l with
  | zero => rfl
  | succ k ih =>
      cases l with
      | nil => rfl
      | cons x l => exact ih l

theorem pieces_nil : pieces patterns [] = [] := rfl

theorem pieces_plain (h : matchAt patterns (x :: l) = none) :
    pieces patterns (x :: l) = .plain x :: pieces patterns l := by
  simp [pieces, piecesFrom, h]

theorem pieces_found (h : matchAt patterns l = some p) (hne : p.1 ≠ []) :
    pieces patterns l = .found p :: pieces patterns (l.drop p.1.length) := by
  cases l with
  | nil =>
      exact absurd (List.prefix_nil.mp (matchAt_some h).2) hne
  | cons x l =>
      obtain ⟨k, hk⟩ := Nat.exists_eq_add_of_le' (List.length_pos_iff.mpr hne)
      rw [pieces, piecesFrom]
      simp only [h]
      rw [piecesFrom_eq, hk]
      rfl

/-- No occurrence begins in the first `n` elements. -/
theorem pieces_skip (hn : n ≤ l.length) (h : ∀ i < n, matchAt patterns (l.drop i) = none) :
    pieces patterns l = (l.take n).map .plain ++ pieces patterns (l.drop n) := by
  induction n generalizing l with
  | zero => simp
  | succ n ih =>
      cases l with
      | nil => simp at hn
      | cons x l =>
          have htail := ih (Nat.le_of_succ_le_succ hn) fun i hi => h (i + 1) (Nat.succ_lt_succ hi)
          rw [pieces_plain (h 0 n.succ_pos), htail]
          rfl

end Pieces

/-! ### The leftmost occurrence -/

section Leftmost

variable {patterns : List (Pattern α β)} {p : Pattern α β} {needle l rest : List α} {i j : Nat}

theorem findAt_some (h : findAt needle l = some i) :
    i < l.length ∧ needle <+: l.drop i ∧ ∀ j < i, ¬ needle <+: l.drop j := by
  induction l generalizing i with
  | nil => cases h
  | cons x l ih =>
      rw [findAt] at h
      by_cases hhere : needle.isPrefixOf (x :: l) = true
      · rw [if_pos hhere] at h
        cases h
        exact ⟨Nat.succ_pos _, List.isPrefixOf_iff_prefix.mp hhere, fun j hj => by omega⟩
      · rw [if_neg hhere] at h
        obtain ⟨k, hk, rfl⟩ := Option.map_eq_some_iff.mp h
        obtain ⟨hlt, hfound, hfirst⟩ := ih hk
        refine ⟨Nat.succ_lt_succ hlt, hfound, fun j hj => ?_⟩
        cases j with
        | zero => exact fun hp => hhere (List.isPrefixOf_iff_prefix.mpr hp)
        | succ j => exact hfirst j (Nat.lt_of_succ_lt_succ hj)

theorem findAt_none (hne : needle ≠ []) (h : findAt needle l = none) :
    ∀ j, ¬ needle <+: l.drop j := by
  induction l with
  | nil =>
      intro j hp
      rw [List.drop_nil, List.prefix_nil] at hp
      exact hne hp
  | cons x l ih =>
      rw [findAt] at h
      by_cases hhere : needle.isPrefixOf (x :: l) = true
      · rw [if_pos hhere] at h
        cases h
      · rw [if_neg hhere, Option.map_eq_none_iff] at h
        intro j
        cases j with
        | zero => exact fun hp => hhere (List.isPrefixOf_iff_prefix.mpr hp)
        | succ j => exact ih h j

theorem leftmost_cons (p : Pattern α β) (patterns : List (Pattern α β)) (l : List α) :
    leftmost (p :: patterns) l =
      match findAt p.1 l with
      | none => leftmost patterns l
      | some i =>
          match leftmost patterns l with
          | none => some (i, p)
          | some b => if b.1 < i then some b else some (i, p) := by
  cases h : findAt p.1 l with
  | none => simp [leftmost, h]
  | some i =>
      simp only [leftmost, List.filterMap_cons, h, Option.map_some, minAt]
      generalize minAt (patterns.filterMap fun p => (findAt p.1 l).map fun at_ => (at_, p)) = rest
      cases rest <;> rfl

theorem leftmost_none (hne : ∀ p ∈ patterns, p.1 ≠ []) (h : leftmost patterns l = none) (j : Nat) :
    matchAt patterns (l.drop j) = none := by
  rw [matchAt_eq_none]
  induction patterns with
  | nil => simp
  | cons p patterns ih =>
      rw [List.forall_mem_cons] at hne
      rw [leftmost_cons] at h
      cases hp : findAt p.1 l with
      | none =>
          simp only [hp] at h
          exact List.forall_mem_cons.mpr ⟨findAt_none hne.1 hp j, ih hne.2 h⟩
      | some i =>
          simp only [hp] at h
          cases hrest : leftmost patterns l with
          | none => simp [hrest] at h
          | some b =>
              simp only [hrest] at h
              split at h <;> cases h

theorem leftmost_some (hne : ∀ p ∈ patterns, p.1 ≠ []) (h : leftmost patterns l = some (i, p)) :
    i < l.length ∧ matchAt patterns (l.drop i) = some p ∧
      ∀ j < i, matchAt patterns (l.drop j) = none := by
  induction patterns generalizing i p with
  | nil => cases h
  | cons q patterns ih =>
      rw [List.forall_mem_cons] at hne
      have hcons : ∀ k, (¬ q.1 <+: l.drop k) →
          matchAt (q :: patterns) (l.drop k) = matchAt patterns (l.drop k) := by
        intro k hk
        simp [matchAt, mt List.isPrefixOf_iff_prefix.mp hk]
      have hhere : ∀ k, q.1 <+: l.drop k → matchAt (q :: patterns) (l.drop k) = some q := by
        intro k hk
        simp [matchAt, List.isPrefixOf_iff_prefix.mpr hk]
      rw [leftmost_cons] at h
      cases hq : findAt q.1 l with
      | none =>
          simp only [hq] at h
          obtain ⟨hlt, hfound, hfirst⟩ := ih hne.2 h
          have hnowhere := findAt_none hne.1 hq
          exact ⟨hlt, (hcons i (hnowhere i)).trans hfound,
            fun j hj => (hcons j (hnowhere j)).trans (hfirst j hj)⟩
      | some k =>
          obtain ⟨hk, hqk, hqfirst⟩ := findAt_some hq
          simp only [hq] at h
          cases hrest : leftmost patterns l with
          | none =>
              simp only [hrest] at h
              cases h
              exact ⟨hk, hhere i hqk, fun j hj =>
                (hcons j (hqfirst j hj)).trans (leftmost_none hne.2 hrest j)⟩
          | some b =>
              obtain ⟨hlt, hfound, hfirst⟩ := ih hne.2 hrest
              simp only [hrest] at h
              by_cases hb : b.1 < k
              · rw [if_pos hb] at h
                cases h
                exact ⟨hlt, (hcons _ (hqfirst _ hb)).trans hfound,
                  fun j hj => (hcons j (hqfirst j (hj.trans hb))).trans (hfirst j hj)⟩
              · rw [if_neg hb] at h
                cases h
                exact ⟨hk, hhere i hqk, fun j hj =>
                  (hcons j (hqfirst j hj)).trans (hfirst j (by omega))⟩

end Leftmost

/-! ### What is complete -/

/-- No pattern lies within another one, or within itself, before the last element. -/
def Apart (patterns : List (Pattern α β)) : Prop :=
  ∀ p ∈ patterns, ∀ q ∈ patterns, ¬ q.1 <:+: p.1.dropLast

instance (patterns : List (Pattern α β)) : Decidable (Apart patterns) :=
  inferInstanceAs (Decidable (∀ p ∈ patterns, ∀ q ∈ patterns, ¬ q.1 <:+: p.1.dropLast))

section Apart

variable {patterns : List (Pattern α β)} {p q : Pattern α β} {l rest : List α} {i j : Nat}

omit [DecidableEq α] in
theorem Apart.ne_nil (h : Apart patterns) : ∀ p ∈ patterns, p.1 ≠ [] := by
  intro p hp hnil
  exact h p hp p hp (hnil ▸ List.nil_infix)

omit [DecidableEq α] in
/-- A pattern that begins in a list and ends behind it. -/
theorem exists_rest_of_prefix (hq : q.1 <+: l ++ rest) (hnot : ¬ q.1 <+: l) :
    ∃ t, t ≠ [] ∧ q.1 = l ++ t := by
  have hlong : l.length ≤ q.1.length := by
    by_contra hlt
    exact hnot (List.prefix_of_prefix_length_le hq (List.prefix_append l rest) (by omega))
  obtain ⟨t, ht⟩ := List.prefix_of_prefix_length_le (List.prefix_append l rest) hq hlong
  refine ⟨t, fun hnil => hnot ?_, ht.symm⟩
  rw [← ht, hnil, List.append_nil]

/-- Where an occurrence is complete, nothing that comes later makes another one of it. -/
theorem Apart.matchAt_append (h : Apart patterns) (hp : p ∈ patterns) (hfound : p.1 <+: l.drop i)
    (hj : j ≤ i) (hi : i ≤ l.length) :
    matchAt patterns ((l ++ rest).drop j) = matchAt patterns (l.drop j) := by
  have hsame : ∀ q ∈ patterns, q.1 <+: (l ++ rest).drop j ↔ q.1 <+: l.drop j := by
    intro q hq
    rw [List.drop_append_of_le_length (hj.trans hi)]
    constructor
    · intro hprefix
      by_contra hnot
      obtain ⟨t, ht, hqt⟩ := exists_rest_of_prefix hprefix hnot
      refine h q hq p hp ?_
      rw [hqt, List.dropLast_append_of_ne_nil ht]
      have hsuffix : l.drop i <:+ l.drop j := by
        rw [← Nat.add_sub_cancel' hj, ← List.drop_drop]
        exact List.drop_suffix _ _
      exact (hfound.isInfix.trans hsuffix.isInfix).trans (List.prefix_append _ _).isInfix
    · exact fun hprefix => hprefix.trans (List.prefix_append _ _)
  rw [matchAt, matchAt]
  clear hp hfound h
  induction patterns with
  | nil => rfl
  | cons q patterns ih =>
      rw [List.forall_mem_cons] at hsame
      have hq : q.1.isPrefixOf ((l ++ rest).drop j) = q.1.isPrefixOf (l.drop j) := by
        rw [Bool.eq_iff_iff, List.isPrefixOf_iff_prefix, List.isPrefixOf_iff_prefix]
        exact hsame.1
      rw [List.find?_cons, List.find?_cons, hq, ih hsame.2]

end Apart

/-! ### What is held back -/

/-- What is held back: an end that begins a pattern, or nothing; and whatever end begins a pattern
and has so many elements is held back. -/
structure Keeps (patterns : List (Pattern α β)) (minimum : Nat) (keep : List α → Nat) : Prop where
  le : ∀ l, keep l ≤ l.length
  held : ∀ l, keep l = 0 ∨ ∃ p ∈ patterns, keep l < p.1.length ∧ l.drop (l.length - keep l) <+: p.1
  long : ∀ l j, j < l.length - keep l → ∀ p ∈ patterns, l.drop j <+: p.1 →
    p.1.length ≤ (l.drop j).length ∨ (l.drop j).length < minimum

/-- A beginning of a pattern that is none of it whole. -/
def Held (patterns : List (Pattern α β)) (l : List α) : Prop :=
  l = [] ∨ ∃ p ∈ patterns, l <+: p.1 ∧ l.length < p.1.length

/-- The list does not end within an occurrence, after fewer than so many elements of it. -/
def Safe (patterns : List (Pattern α β)) (minimum : Nat) (l rest : List α) : Prop :=
  ∀ o ∈ occurrences (pieces patterns (l ++ rest)),
    ¬ (o.1 < l.length ∧ l.length < o.1 + o.2 ∧ l.length < o.1 + minimum)

instance (patterns : List (Pattern α β)) (minimum : Nat) (l rest : List α) :
    Decidable (Safe patterns minimum l rest) :=
  inferInstanceAs (Decidable (∀ o ∈ occurrences (pieces patterns (l ++ rest)),
    ¬ (o.1 < l.length ∧ l.length < o.1 + o.2 ∧ l.length < o.1 + minimum)))

section LongestEnd

variable {minimum : Nat} {patterns : List (Pattern α β)} {l : List α}

theorem largest_spec (f : Nat → Bool) (m n : Nat) :
    let r := ((List.range' m n).reverse.find? f).getD 0
    (r = 0 ∨ m ≤ r ∧ r < m + n ∧ f r = true) ∧ ∀ s, m ≤ s → s < m + n → f s = true → s ≤ r := by
  induction n with
  | zero => exact ⟨.inl rfl, fun s hs hlt => by omega⟩
  | succ n ih =>
      rw [List.range'_1_concat, List.reverse_append, List.reverse_singleton, List.singleton_append]
      by_cases hf : f (m + n) = true
      · rw [List.find?_cons_of_pos hf, Option.getD_some]
        exact ⟨.inr ⟨Nat.le_add_right m n, Nat.lt_succ_self _, hf⟩,
          fun s _ hlt _ => Nat.le_of_lt_succ hlt⟩
      · rw [List.find?_cons_of_neg hf]
        obtain ⟨hr, hall⟩ := ih
        refine ⟨hr.imp_right fun ⟨hm, hlt, htrue⟩ => ⟨hm, Nat.lt_succ_of_lt hlt, htrue⟩,
          fun s hs hlt htrue => ?_⟩
        refine hall s hs ?_ htrue
        by_contra hge
        have heq : s = m + n := by omega
        exact hf (heq ▸ htrue)

theorem longestEnd_spec (minimum : Nat) (l pattern : List α) :
    (longestEnd minimum l pattern = 0 ∨ longestEnd minimum l pattern < pattern.length ∧
      longestEnd minimum l pattern ≤ l.length ∧
      pattern.take (longestEnd minimum l pattern) <:+ l) ∧
    ∀ size, minimum ≤ size → size < pattern.length → size ≤ l.length →
      pattern.take size <:+ l → size ≤ longestEnd minimum l pattern := by
  obtain ⟨hheld, hall⟩ := largest_spec (fun size => (pattern.take size).isSuffixOf l) minimum
    (min pattern.length (l.length + 1) - minimum)
  refine ⟨?_, fun size hmin hlt hle hsuffix => ?_⟩
  · rcases hheld with hzero | ⟨hmin, hlt, hsuffix⟩
    · exact .inl hzero
    · refine .inr ⟨?_, ?_, List.isSuffixOf_iff_suffix.mp hsuffix⟩
      · exact Nat.lt_of_lt_of_le hlt (by omega)
      · exact Nat.le_of_lt_succ (Nat.lt_of_lt_of_le hlt (by omega))
  · exact hall size hmin (by omega) (List.isSuffixOf_iff_suffix.mpr hsuffix)

theorem foldl_max_spec (values : List Nat) (init : Nat) :
    (values.foldl max init = init ∨ values.foldl max init ∈ values) ∧
      init ≤ values.foldl max init ∧ ∀ n ∈ values, n ≤ values.foldl max init := by
  induction values generalizing init with
  | nil => exact ⟨.inl rfl, Nat.le_refl _, by simp⟩
  | cons n values ih =>
      obtain ⟨hmem, hinit, hall⟩ := ih (max init n)
      refine ⟨?_, (Nat.le_max_left _ _).trans hinit,
        List.forall_mem_cons.mpr ⟨(Nat.le_max_right _ _).trans hinit, hall⟩⟩
      rcases hmem with heq | hmem
      · rcases Nat.le_total n init with hle | hle
        · exact .inl (heq.trans (Nat.max_eq_left hle))
        · refine .inr (List.mem_cons.mpr (.inl ?_))
          exact heq.trans (Nat.max_eq_right hle)
      · exact .inr (List.mem_cons_of_mem n hmem)

theorem longestKept_keeps (minimum : Nat) (patterns : List (Pattern α β)) :
    Keeps patterns minimum (longestKept minimum patterns) := by
  have hcases : ∀ l, longestKept minimum patterns l = 0 ∨ ∃ p ∈ patterns,
      longestKept minimum patterns l = longestEnd minimum l p.1 := by
    intro l
    rcases (foldl_max_spec (patterns.map fun p => longestEnd minimum l p.1) 0).1 with hzero | hmem
    · exact .inl hzero
    · obtain ⟨p, hp, heq⟩ := List.mem_map.mp hmem
      exact .inr ⟨p, hp, heq.symm⟩
  refine ⟨?_, ?_, ?_⟩
  · intro l
    rcases hcases l with hzero | ⟨p, -, heq⟩
    · omega
    · rcases (longestEnd_spec minimum l p.1).1 with hzero | ⟨-, hle, -⟩
      · omega
      · omega
  · intro l
    rcases hcases l with hzero | ⟨p, hp, heq⟩
    · exact .inl hzero
    · rcases (longestEnd_spec minimum l p.1).1 with hzero | ⟨hlt, hle, hsuffix⟩
      · exact .inl (heq.trans hzero)
      · refine .inr ⟨p, hp, by omega, ?_⟩
        have htake : (p.1.take (longestEnd minimum l p.1)).length = longestEnd minimum l p.1 := by
          rw [List.length_take]
          omega
        have hdrop := List.suffix_iff_eq_drop.mp hsuffix
        rw [htake] at hdrop
        rw [heq, ← hdrop]
        exact List.take_prefix _ _
  · intro l j hj p hp hprefix
    by_contra hnot
    obtain ⟨hlonger, hmin⟩ := not_or.mp hnot
    rw [Nat.not_le] at hlonger
    rw [Nat.not_lt] at hmin
    have hlength : (l.drop j).length = l.length - j := List.length_drop
    have htake : p.1.take (l.drop j).length = l.drop j := (List.prefix_iff_eq_take.mp hprefix).symm
    have hlong := (longestEnd_spec minimum l p.1).2 (l.drop j).length hmin hlonger (by omega)
      (by rw [htake]; exact List.drop_suffix j l)
    have hall := (foldl_max_spec (patterns.map fun p => longestEnd minimum l p.1) 0).2.2 _
      (List.mem_map_of_mem hp)
    rw [longestKept] at hj
    omega

end LongestEnd

/-! ### Feeding -/

section Feed

variable {patterns : List (Pattern α β)} {minimum : Nat} {keep : List α → Nat}
  {l rest pending : List α}

/-- What one read gives are pieces of the stream, up to what is held back. -/
structure Gives (patterns : List (Pattern α β)) (l rest : List α) (fed : Fed α β)
    (T : List (Piece α β)) : Prop where
  pieces : pieces patterns (l ++ rest) = T ++ pieces patterns (fed.pending ++ rest)
  visible : visible T = fed.visible
  told : told T = fed.told
  width : width T + fed.pending.length = l.length

/-- There is no occurrence in what is held back. -/
def Free (patterns : List (Pattern α β)) (l : List α) : Prop :=
  ∀ j, matchAt patterns (l.drop j) = none

/-- Nothing more is found, and an end is held back. -/
theorem gives_kept (hkeep : Keeps patterns minimum keep) (hne : ∀ p ∈ patterns, p.1 ≠ [])
    (hfree : Free patterns l) (hsafe : Safe patterns minimum l rest) :
    Gives patterns l rest ⟨l.take (l.length - keep l), [], l.drop (l.length - keep l)⟩
      ((l.take (l.length - keep l)).map .plain) := by
  have hle := hkeep.le l
  have hnone : ∀ j < l.length - keep l, matchAt patterns ((l ++ rest).drop j) = none := by
    intro j
    induction j using Nat.strongRecOn with
    | ind j ih =>
        intro hj
        cases hfound : matchAt patterns ((l ++ rest).drop j) with
        | none => rfl
        | some p =>
            -- the first occurrence that is cut would be one that the stream has
            obtain ⟨hp, hprefix⟩ := matchAt_some hfound
            have hskip := pieces_skip (l := l ++ rest) (n := j)
              (by rw [List.length_append]; omega) fun i hi => ih i hi (hi.trans hj)
            rw [pieces_found hfound (hne p hp)] at hskip
            have hwidth : width (((l ++ rest).take j).map (.plain : α → Piece α β)) = j := by
              rw [(plain_pieces _).2.2, List.length_take, List.length_append]
              omega
            rw [List.drop_append_of_le_length (by omega)] at hprefix
            obtain ⟨t, ht, hpt⟩ := exists_rest_of_prefix hprefix (matchAt_eq_none.mp (hfree j) p hp)
            have hlength : p.1.length = l.length - j + t.length := by
              rw [hpt, List.length_append, List.length_drop]
            have hpos := List.length_pos_iff.mpr ht
            have hshort := (hkeep.long l j hj p hp (hpt ▸ List.prefix_append _ _)).resolve_left
              (by rw [List.length_drop]; omega)
            rw [List.length_drop] at hshort
            have hcut : (0 + width (((l ++ rest).take j).map (.plain : α → Piece α β)),
                p.1.length) ∈ occurrences (pieces patterns (l ++ rest)) := by
              rw [hskip]
              have hfirst : (0, p.1.length) ∈ occurrences (Piece.found p ::
                  pieces patterns (((l ++ rest).drop j).drop p.1.length)) := by
                rw [occurrences]
                exact List.mem_cons_self
              exact mem_occurrences_append hfirst
            rw [hwidth, Nat.zero_add] at hcut
            refine absurd ?_ (hsafe _ hcut)
            simp only
            omega
  refine ⟨?_, (plain_pieces _).1, (plain_pieces _).2.1, ?_⟩
  · have hskip := pieces_skip (l := l ++ rest)
      (n := l.length - keep l) (by rw [List.length_append]; omega) hnone
    rw [hskip, List.take_append_of_le_length (Nat.sub_le _ _),
      List.drop_append_of_le_length (Nat.sub_le _ _)]
  · rw [(plain_pieces _).2.2, List.length_take, List.length_drop]
    omega

theorem drain_spec (hapart : Apart patterns) (hkeep : Keeps patterns minimum keep) {n : Nat}
    (hn : l.length < n) (hsafe : Safe patterns minimum l rest) :
    ∃ T, Gives patterns l rest (drain patterns keep n l) T := by
  have hne := hapart.ne_nil
  induction n generalizing l with
  | zero => exact absurd hn (Nat.not_lt_zero _)
  | succ n ih =>
      rw [drain]
      by_cases hnil : l = []
      · rw [if_pos hnil]
        exact ⟨[], by rw [hnil]; rfl, rfl, rfl, by rw [hnil]; rfl⟩
      rw [if_neg hnil]
      cases hfound : leftmost patterns l with
      | none => exact ⟨_, gives_kept hkeep hne (leftmost_none hne hfound) hsafe⟩
      | some found =>
          obtain ⟨i, p⟩ := found
          obtain ⟨hi, hmatch, hfirst⟩ := leftmost_some hne hfound
          obtain ⟨hp, hprefix⟩ := matchAt_some hmatch
          have hlength := hprefix.length_le
          have hpos := List.length_pos_iff.mpr (hne p hp)
          rw [List.length_drop] at hlength
          have hsame : ∀ j ≤ i, matchAt patterns ((l ++ rest).drop j) =
              matchAt patterns (l.drop j) := fun j hj =>
            hapart.matchAt_append hp hprefix hj (Nat.le_of_lt hi)
          -- the pieces up to the occurrence, and the occurrence
          have hpieces : pieces patterns (l ++ rest) = (l.take i).map .plain ++
              .found p :: pieces patterns (l.drop (i + p.1.length) ++ rest) := by
            rw [pieces_skip (n := i) (by rw [List.length_append]; omega)
              (fun j hj => (hsame j (Nat.le_of_lt hj)).trans (hfirst j hj)),
              pieces_found ((hsame i (Nat.le_refl i)).trans hmatch) (hne p hp), List.drop_drop,
              List.take_append_of_le_length (Nat.le_of_lt hi),
              List.drop_append_of_le_length (by omega)]
          have hwidth : width ((l.take i).map (.plain : α → Piece α β) ++ [.found p]) =
              i + p.1.length := by
            rw [width_append, (plain_pieces _).2.2, List.length_take, Nat.min_eq_left (by omega)]
            simp [width, Piece.size]
          have hrest : Safe patterns minimum (l.drop (i + p.1.length)) rest := by
            intro o ho
            have hwhole := mem_occurrences_append (a := (l.take i).map .plain ++ [.found p]) ho
            rw [List.append_assoc, List.singleton_append, ← hpieces, hwidth] at hwhole
            have hcut := hsafe _ hwhole
            rw [List.length_drop]
            simp only at hcut
            omega
          obtain ⟨T, hT⟩ := ih (by rw [List.length_drop]; omega) hrest
          refine ⟨(l.take i).map .plain ++ [.found p] ++ T, ?_, ?_, ?_, ?_⟩
          · rw [hpieces, hT.pieces]
            simp
          · rw [visible_append, visible_append, (plain_pieces _).1, hT.visible]
            simp [Matching.visible, Piece.visible]
          · rw [told_append, told_append, (plain_pieces _).2.1, hT.told]
            simp [Matching.told, Piece.told]
          · have hsize := hT.width
            rw [List.length_drop] at hsize
            rw [width_append, hwidth]
            simp only
            omega

/-- What is held back after a read. -/
theorem drain_pending (hne : ∀ p ∈ patterns, p.1 ≠ []) (hkeep : Keeps patterns minimum keep)
    {n : Nat} (hn : l.length < n) : Free patterns (drain patterns keep n l).pending ∧
      Held patterns (drain patterns keep n l).pending := by
  induction n generalizing l with
  | zero => exact absurd hn (Nat.not_lt_zero _)
  | succ n ih =>
      rw [drain]
      by_cases hnil : l = []
      · rw [if_pos hnil]
        refine ⟨fun j => ?_, .inl rfl⟩
        rw [List.drop_nil, matchAt_eq_none]
        exact fun p hp hprefix => hne p hp (List.prefix_nil.mp hprefix)
      rw [if_neg hnil]
      cases hfound : leftmost patterns l with
      | none =>
          refine ⟨fun j => ?_, ?_⟩
          · rw [List.drop_drop]
            exact leftmost_none hne hfound _
          · have hle := hkeep.le l
            rcases hkeep.held l with hzero | ⟨p, hp, hlt, hprefix⟩
            · refine .inl ?_
              simp only [hzero, Nat.sub_zero, List.drop_length]
            · refine .inr ⟨p, hp, hprefix, ?_⟩
              rw [List.length_drop]
              omega
      | some found =>
          obtain ⟨i, p⟩ := found
          obtain ⟨hi, hmatch, -⟩ := leftmost_some hne hfound
          have hpos := List.length_pos_iff.mpr (hne p (matchAt_some hmatch).1)
          exact ih (by rw [List.length_drop]; omega)

/-- No read ends within an occurrence, after fewer than so many elements of it. -/
def SafeReads (patterns : List (Pattern α β)) (minimum : Nat) (reads : List (List α)) : Prop :=
  ∀ k ≤ reads.length, Safe patterns minimum (reads.take k).flatten (reads.drop k).flatten

instance (patterns : List (Pattern α β)) (minimum : Nat) (reads : List (List α)) :
    Decidable (SafeReads patterns minimum reads) :=
  inferInstanceAs (Decidable (∀ k ≤ reads.length,
    Safe patterns minimum (reads.take k).flatten (reads.drop k).flatten))

theorem feeds_pieces (hapart : Apart patterns) (hkeep : Keeps patterns minimum keep)
    (reads : List (List α)) (hfree : Free patterns pending)
    (hsafe : ∀ before after, reads = before ++ after → before ≠ [] →
      Safe patterns minimum (pending ++ before.flatten) after.flatten) :
    ∃ T, Gives patterns (pending ++ reads.flatten) [] (feeds patterns keep pending reads) T ∧
      Free patterns (feeds patterns keep pending reads).pending := by
  induction reads generalizing pending with
  | nil => exact ⟨[], ⟨by simp [feeds], rfl, rfl, by simp [feeds, width]⟩, hfree⟩
  | cons data reads ih =>
      have hread := hsafe [data] reads rfl (List.cons_ne_nil _ _)
      rw [List.flatten_singleton] at hread
      obtain ⟨T, hT⟩ : ∃ T, Gives patterns (pending ++ data) reads.flatten
          (feed patterns keep pending data) T := drain_spec hapart hkeep (Nat.lt_succ_self _) hread
      have hnext : Free patterns (feed patterns keep pending data).pending :=
        (drain_pending hapart.ne_nil hkeep (Nat.lt_succ_self _)).1
      rw [feeds]
      generalize feed patterns keep pending data = fed at hT hnext ⊢
      have hpieces := hT.pieces
      have hsize := hT.width
      obtain ⟨T', hT', hlast⟩ := ih hnext (by
        intro before after hsplit _ o ho hcut
        have hwhole := mem_occurrences_append (a := T) ho
        rw [List.append_assoc, ← List.flatten_append, ← hsplit, ← hpieces] at hwhole
        have hread := hsafe (data :: before) after (by rw [hsplit]; rfl) (List.cons_ne_nil _ _)
          _ (by
            rw [List.flatten_cons, List.append_assoc, List.append_assoc, ← List.flatten_append,
              ← hsplit, ← List.append_assoc]
            exact hwhole)
        rw [List.flatten_cons, ← List.append_assoc, List.length_append] at hread
        rw [List.length_append] at hcut
        simp only at hread
        omega)
      refine ⟨T ++ T', ⟨?_, ?_, ?_, ?_⟩, hlast⟩
      · have hrest := hT'.pieces
        rw [List.append_nil, List.append_nil] at hrest
        rw [List.flatten_cons, List.append_nil, ← List.append_assoc, hpieces, hrest,
          List.append_assoc, List.append_nil]
      · rw [visible_append, hT.visible, hT'.visible]
      · rw [told_append, hT.told, hT'.told]
      · have hrest := hT'.width
        rw [List.length_append] at hrest
        rw [width_append, List.flatten_cons, ← List.append_assoc, List.length_append]
        simp only
        omega

theorem pieces_of_free (h : Free patterns l) : pieces patterns l = l.map .plain := by
  have hskip := pieces_skip (Nat.le_refl l.length) fun i _ => h i
  rwa [List.take_length, List.drop_length, pieces_nil, List.append_nil] at hskip

/-- What the matcher gives of a stream, with what it holds back in the end, are its pieces. -/
theorem feeds_spec (hapart : Apart patterns) (hkeep : Keeps patterns minimum keep)
    (reads : List (List α)) (hsafe : SafeReads patterns minimum reads) :
    (feeds patterns keep [] reads).visible ++ (feeds patterns keep [] reads).pending =
        visible (pieces patterns reads.flatten) ∧
      (feeds patterns keep [] reads).told = told (pieces patterns reads.flatten) := by
  have hnil : Free patterns ([] : List α) := by
    intro j
    rw [List.drop_nil, matchAt_eq_none]
    exact fun p hp hprefix => hapart.ne_nil p hp (List.prefix_nil.mp hprefix)
  obtain ⟨T, hT, hlast⟩ := feeds_pieces hapart hkeep reads hnil (by
    intro before after hsplit _
    have hread := hsafe before.length (by rw [hsplit, List.length_append]; omega)
    rw [hsplit, List.take_left, List.drop_left] at hread
    rwa [List.nil_append])
  have hpieces := hT.pieces
  rw [List.nil_append, List.append_nil, List.append_nil, pieces_of_free hlast] at hpieces
  rw [hpieces, visible_append, told_append, hT.visible, hT.told, (plain_pieces _).1,
    (plain_pieces _).2.1, List.append_nil]
  exact ⟨rfl, rfl⟩

/-- After each read a proper beginning of a pattern is held back at most. -/
theorem feeds_held (hne : ∀ p ∈ patterns, p.1 ≠ []) (hkeep : Keeps patterns minimum keep)
    (reads : List (List α)) (hheld : Held patterns pending) :
    Held patterns (feeds patterns keep pending reads).pending := by
  induction reads generalizing pending with
  | nil => exact hheld
  | cons data reads ih =>
      exact ih (drain_pending hne hkeep (Nat.lt_succ_self (pending ++ data).length)).2

end Feed

end Support.Matching

import Mathlib.Data.String.Basic
import Pikamux.Assistant.Evolution

/-!
# Assistant — Comparison

`assistant_evolution.rs`: the comparisons of the tool language.  `Eq` and `Ne` compare JSON values;
the others convert two numbers to doubles, and order them by `f64::total_cmp`.

* `comparisons_consistent`: the comparisons of some numbers are those of one total order if and only
  if `Agree` holds of each two of them; those of texts always are.
* `comparisons_inconsistent`: an integer and the decimal with its value are neither equal nor one
  less than the other.
-/

namespace Pikamux.Evolution

open Json

/-! ### The comparisons -/

/-- How finite doubles are printed and read. -/
structure Doubles where
  print : Float → String
  read : String → Float
  read_print : ∀ double : Float, double.isFinite → read (print double) = double
  print_zero : print (.ofBits 0) = "0.0"
  print_negZero : print (.ofBits 0x8000000000000000) = "-0.0"

section Comparing

variable (doubles : Doubles)

/-- `Value::as_f64`. -/
def asF64 : Value → Option Float
  | .number (.posInt n) => some (UInt64.ofNat n).toFloat
  | .number (.negInt magnitude) => some (Int64.ofInt (-magnitude)).toFloat
  | .number (.float text) => some (doubles.read text)
  | _ => none

/-- Where a double stands in the order of `total_cmp`: the bits of a double with a sign are counted
downwards. -/
def totalKey (double : Float) : Int :=
  let bits := double.toBits.toNat
  if bits < 2 ^ 63 then bits else 2 ^ 63 - 1 - bits

/-- `f64::total_cmp`. -/
def totalCmp (a b : Float) : Ordering := compare (totalKey a) (totalKey b)

/-- How two numbers, or else two texts, are ordered. -/
def ordering (left right : Value) : Option Ordering :=
  (do return totalCmp (← asF64 doubles left) (← asF64 doubles right)) <|>
    (do return compare (← left.asStr) (← right.asStr))

protected def compare (op : CompareOp) (left right : Value) : Except EvolutionError Value :=
  match op with
  | .eq => .ok (.bool (left.eq right))
  | .ne => .ok (.bool !(left.eq right))
  | .lt => related Ordering.isLT
  | .lte => related fun order => !order.isGT
  | .gt => related Ordering.isGT
  | .gte => related fun order => !order.isLT
where
  related (holds : Ordering → Bool) : Except EvolutionError Value :=
    match ordering doubles left right with
    | some order => .ok (.bool (holds order))
    | none => .error (.invalidDefinition "compare requires two numbers or strings")

/-- The comparison is true. -/
def Holds (op : CompareOp) (left right : Value) : Prop :=
  Evolution.compare doubles op left right = .ok (.bool true)

end Comparing

/-! ### One total order -/

/-- The comparisons of these values are those of one total order. -/
structure Consistent (doubles : Doubles) (values : Set Value) : Prop where
  /-- Exactly one of the three. -/
  one : ∀ a ∈ values, ∀ b ∈ values,
    (Holds doubles .lt a b ∧ ¬ Holds doubles .eq a b ∧ ¬ Holds doubles .gt a b) ∨
      (¬ Holds doubles .lt a b ∧ Holds doubles .eq a b ∧ ¬ Holds doubles .gt a b) ∨
      (¬ Holds doubles .lt a b ∧ ¬ Holds doubles .eq a b ∧ Holds doubles .gt a b)
  lte : ∀ a ∈ values, ∀ b ∈ values,
    (Holds doubles .lte a b ↔ Holds doubles .lt a b ∨ Holds doubles .eq a b)
  gte : ∀ a ∈ values, ∀ b ∈ values,
    (Holds doubles .gte a b ↔ Holds doubles .gt a b ∨ Holds doubles .eq a b)
  /-- `Lt` is transitive together with `Eq`. -/
  trans : ∀ a ∈ values, ∀ b ∈ values, ∀ c ∈ values,
    (Holds doubles .lt a b ∨ Holds doubles .eq a b) →
      (Holds doubles .lt b c ∨ Holds doubles .eq b c) →
        (Holds doubles .lt a c ∨ Holds doubles .eq a c) ∧
          (Holds doubles .lt a b ∨ Holds doubles .lt b c → Holds doubles .lt a c)

/-! ### The comparisons of a key -/

section Keys

variable {doubles : Doubles} {a b : Value} {order : Ordering}

theorem holds_eq : Holds doubles .eq a b ↔ a.eq b = true := by
  simp [Holds, Evolution.compare]

theorem holds_lt (h : ordering doubles a b = some order) :
    Holds doubles .lt a b ↔ order = .lt := by
  cases order <;> simp [Holds, Evolution.compare, Evolution.compare.related, h]

theorem holds_lte (h : ordering doubles a b = some order) :
    Holds doubles .lte a b ↔ order ≠ .gt := by
  cases order <;> simp [Holds, Evolution.compare, Evolution.compare.related, h]

theorem holds_gt (h : ordering doubles a b = some order) :
    Holds doubles .gt a b ↔ order = .gt := by
  cases order <;> simp [Holds, Evolution.compare, Evolution.compare.related, h]

theorem holds_gte (h : ordering doubles a b = some order) :
    Holds doubles .gte a b ↔ order ≠ .lt := by
  cases order <;> simp [Holds, Evolution.compare, Evolution.compare.related, h]

variable {K : Type} [LinearOrder K] {key : Value → K} {values : Set Value}

/-- The comparisons of values that are ordered by a key are consistent if and only if equality is
that of the keys. -/
theorem consistent_iff
    (h : ∀ a ∈ values, ∀ b ∈ values, ordering doubles a b = some (compare (key a) (key b))) :
    Consistent doubles values ↔
      ∀ a ∈ values, ∀ b ∈ values, (a.eq b = true ↔ key a = key b) := by
  have hlt : ∀ a ∈ values, ∀ b ∈ values, (Holds doubles .lt a b ↔ key a < key b) :=
    fun a ha b hb => (holds_lt (h a ha b hb)).trans compare_lt_iff_lt
  have hgt : ∀ a ∈ values, ∀ b ∈ values, (Holds doubles .gt a b ↔ key b < key a) :=
    fun a ha b hb => (holds_gt (h a ha b hb)).trans compare_gt_iff_gt
  constructor
  · intro hconsistent a ha b hb
    have hone := hconsistent.one a ha b hb
    rw [hlt a ha b hb, hgt a ha b hb, holds_eq] at hone
    rcases hone with ⟨hless, hne, -⟩ | ⟨hnot, heq, hnot'⟩ | ⟨-, hne, hless⟩
    · exact iff_of_false hne hless.ne
    · exact iff_of_true heq (le_antisymm (not_lt.mp hnot') (not_lt.mp hnot))
    · exact iff_of_false hne hless.ne'
  · intro heq
    refine ⟨?_, ?_, ?_, ?_⟩
    · intro a ha b hb
      rw [hlt a ha b hb, hgt a ha b hb, holds_eq, heq a ha b hb]
      rcases lt_trichotomy (key a) (key b) with hless | hsame | hless
      · exact .inl ⟨hless, hless.ne, hless.asymm⟩
      · exact .inr (.inl ⟨hsame.not_lt, hsame, hsame.not_gt⟩)
      · exact .inr (.inr ⟨hless.asymm, hless.ne', hless⟩)
    · intro a ha b hb
      rw [holds_lte (h a ha b hb), compare_le_iff_le, hlt a ha b hb, holds_eq, heq a ha b hb]
      exact le_iff_lt_or_eq
    · intro a ha b hb
      rw [holds_gte (h a ha b hb), compare_ge_iff_ge, hgt a ha b hb, holds_eq, heq a ha b hb,
        eq_comm]
      exact le_iff_lt_or_eq
    · intro a ha b hb c hc
      rw [hlt a ha b hb, hlt b hb c hc, hlt a ha c hc, holds_eq, holds_eq, holds_eq,
        heq a ha b hb, heq b hb c hc, heq a ha c hc, ← le_iff_lt_or_eq, ← le_iff_lt_or_eq,
        ← le_iff_lt_or_eq]
      intro hab hbc
      refine ⟨hab.trans hbc, ?_⟩
      rintro (hless | hless)
      · exact hless.trans_le hbc
      · exact hab.trans_lt hless

end Keys

/-! ### Numbers and texts -/

/-- A number of 64 bits, or a finite decimal. -/
inductive JsonNumber where
  | posInt (n : UInt64)
  | negInt (n : Int64) (negative : n < 0)
  | float (double : Float) (finite : double.isFinite)

namespace JsonNumber

def value (doubles : Doubles) : JsonNumber → Value
  | posInt n => .number (.posInt n.toNat)
  | negInt n _ => .number (.negInt n.toInt.natAbs)
  | float double _ => .number (.float (doubles.print double))

/-- The double with this value, or one next to it. -/
def double : JsonNumber → Float
  | posInt n => n.toFloat
  | negInt n _ => n.toFloat
  | float double _ => double

/-- One of the two zeroes among the decimals. -/
def IsZero : JsonNumber → Prop
  | float double _ => double = .ofBits 0 ∨ double = .ofBits 0x8000000000000000
  | _ => False

end JsonNumber

/-- The numbers are the same, or else they are neither two zeroes with different signs nor converted
to the same double. -/
def Agree (a b : JsonNumber) : Prop :=
  a = b ∨ a.double ≠ b.double ∧ ¬ (a.IsZero ∧ b.IsZero)

section Numbers

variable {doubles : Doubles} {a b : JsonNumber}

theorem asF64_value (n : JsonNumber) : asF64 doubles (n.value doubles) = some n.double := by
  cases n with
  | posInt n => simp [JsonNumber.value, asF64, JsonNumber.double]
  | negInt n negative =>
      have hneg : n.toInt < 0 := Int64.lt_iff_toInt_lt.mp negative
      have habs : -(n.toInt.natAbs : Int) = n.toInt := by omega
      rw [JsonNumber.value, asF64, habs, Int64.ofInt_toInt, JsonNumber.double]
  | float double finite =>
      simp [JsonNumber.value, asF64, JsonNumber.double, doubles.read_print double finite]

theorem print_inj {a b : Float} (ha : a.isFinite) (hb : b.isFinite) :
    doubles.print a = doubles.print b ↔ a = b := by
  refine ⟨fun h => ?_, congrArg _⟩
  rw [← doubles.read_print a ha, h, doubles.read_print b hb]

theorem print_zeros {a : Float} (ha : a.isFinite) :
    doubles.print a ∈ ["0.0", "-0.0"] ↔ a = .ofBits 0 ∨ a = .ofBits 0x8000000000000000 := by
  rw [List.mem_pair, ← doubles.print_zero, ← doubles.print_negZero,
    print_inj ha (by decide +kernel), print_inj ha (by decide +kernel)]

theorem totalKey_injective : Function.Injective totalKey := by
  intro a b h
  have hbits : a.toBits = b.toBits := by
    have ha := a.toBits.toNat_lt
    have hb := b.toBits.toNat_lt
    rw [totalKey, totalKey] at h
    apply UInt64.toNat_inj.mp
    split_ifs at h <;> omega
  cases a with
  | ofModel a =>
      cases b with
      | ofModel b =>
          cases a
          cases b
          cases (show _ = _ from hbits)
          rfl

/-- Numbers are equal as JSON if they are the same, or zeroes. -/
theorem eq_value : (a.value doubles).eq (b.value doubles) = true ↔ a = b ∨ a.IsZero ∧ b.IsZero := by
  cases a with
  | posInt a =>
      cases b <;> simp [JsonNumber.value, Value.eq, Number.eq, JsonNumber.IsZero, UInt64.toNat_inj]
  | negInt a ha =>
      cases b with
      | negInt b hb =>
          have ha' : a.toInt < 0 := Int64.lt_iff_toInt_lt.mp ha
          have hb' : b.toInt < 0 := Int64.lt_iff_toInt_lt.mp hb
          simp [JsonNumber.value, Value.eq, Number.eq, JsonNumber.IsZero, ← Int64.toInt_inj]
          omega
      | _ => simp [JsonNumber.value, Value.eq, Number.eq, JsonNumber.IsZero]
  | float a ha =>
      cases b with
      | float b hb =>
          simp [JsonNumber.value, Value.eq, Number.eq, JsonNumber.IsZero, print_inj ha hb,
            print_zeros ha, print_zeros hb]
      | _ => simp [JsonNumber.value, Value.eq, Number.eq, JsonNumber.IsZero]

/-- Two zeroes that are converted to the same double are the same. -/
theorem eq_of_zeroes (ha : a.IsZero) (hb : b.IsZero) (h : a.double = b.double) : a = b := by
  cases a with
  | float a finite =>
      cases b with
      | float b finite' =>
          have hab : a = b := h
          subst hab
          rfl
      | _ => exact hb.elim
  | _ => exact ha.elim

theorem agree_iff : Agree a b ↔ (a = b ∨ a.IsZero ∧ b.IsZero ↔ a.double = b.double) := by
  constructor
  · rintro (rfl | ⟨hdouble, hzeroes⟩)
    · simp
    · refine iff_of_false ?_ hdouble
      rintro (rfl | hboth)
      · exact hdouble rfl
      · exact hzeroes hboth
  · intro h
    by_cases hdouble : a.double = b.double
    · refine .inl ?_
      rcases h.mpr hdouble with hsame | ⟨ha, hb⟩
      · exact hsame
      · exact eq_of_zeroes ha hb hdouble
    · exact .inr ⟨hdouble, fun hboth => hdouble (h.mp (.inr hboth))⟩

end Numbers

theorem texts_consistent (doubles : Doubles) (texts : Set String) :
    Consistent doubles (Set.image Value.string texts) := by
  have hordering : ∀ a ∈ Set.image Value.string texts, ∀ b ∈ Set.image Value.string texts,
      ordering doubles a b = some (compare (a.asStr.getD "") (b.asStr.getD "")) := by
    rintro - ⟨a, -, rfl⟩ - ⟨b, -, rfl⟩
    rfl
  refine (consistent_iff hordering).mpr ?_
  rintro - ⟨a, -, rfl⟩ - ⟨b, -, rfl⟩
  simp [Value.eq]

theorem numbers_consistent (doubles : Doubles) (numbers : Set JsonNumber) :
    Consistent doubles (Set.image (JsonNumber.value doubles) numbers) ↔
      ∀ a ∈ numbers, ∀ b ∈ numbers, Agree a b := by
  have hordering : ∀ a ∈ Set.image (JsonNumber.value doubles) numbers,
      ∀ b ∈ Set.image (JsonNumber.value doubles) numbers, ordering doubles a b =
        some (compare (totalKey ((asF64 doubles a).getD 0))
          (totalKey ((asF64 doubles b).getD 0))) := by
    rintro - ⟨a, -, rfl⟩ - ⟨b, -, rfl⟩
    rw [ordering, asF64_value, asF64_value]
    rfl
  rw [consistent_iff hordering, Set.forall_mem_image]
  refine forall₂_congr fun a _ => ?_
  rw [Set.forall_mem_image]
  refine forall₂_congr fun b _ => ?_
  rw [eq_value, asF64_value, asF64_value, Option.getD_some, Option.getD_some,
    totalKey_injective.eq_iff]
  exact agree_iff.symm

/-- The comparisons of numbers are those of one total order exactly where each two of them agree;
the comparisons of texts always are. -/
theorem comparisons_consistent (doubles : Doubles) :
    (∀ texts : Set String, Consistent doubles (Set.image Value.string texts)) ∧
      ∀ numbers : Set JsonNumber,
        Consistent doubles (Set.image (JsonNumber.value doubles) numbers) ↔
          ∀ a ∈ numbers, ∀ b ∈ numbers, Agree a b :=
  ⟨texts_consistent doubles, numbers_consistent doubles⟩

/-! ### One, and one point zero -/

instance decidableValid (bits : UInt64) :
    Decidable (Float.Model.Format.binary64.Valid bits.toBitVec) :=
  decidable_of_iff _ ⟨Float.Model.Format.Valid.mk, Float.Model.Format.Valid.eq_packedNaN⟩

/-- The double with these bits, which are those of a double. -/
def ofValidBits (bits : UInt64) : Float :=
  if h : Float.Model.Format.binary64.Valid bits.toBitVec then .ofModel ⟨bits, h⟩ else .ofBits 0

theorem ofValidBits_toBits (double : Float) : ofValidBits double.toBits = double :=
  dif_pos double.toModel.valid

/-- As many strokes as this. -/
def strokes (n : Nat) : String := .ofList (.replicate n '|')

theorem length_strokes (n : Nat) : (strokes n).length = n := by
  rw [strokes, String.length_ofList, List.length_replicate]

theorem strokes_ne {text : String} (h : '0' ∈ text.toList) (n : Nat) : strokes n ≠ text := by
  rintro rfl
  rw [strokes, String.toList_ofList, List.mem_replicate] at h
  exact absurd h.2 (by decide)

/-- Doubles that are printed as their bits, in strokes, but for the zeroes and for one. -/
def strokeDoubles : Doubles where
  print double :=
    if double = .ofBits 0 then "0.0"
    else if double = .ofBits 0x8000000000000000 then "-0.0"
    else if double = UInt64.toFloat 1 then "1.0"
    else strokes double.toBits.toNat
  read text :=
    if text = "0.0" then .ofBits 0
    else if text = "-0.0" then .ofBits 0x8000000000000000
    else if text = "1.0" then UInt64.toFloat 1
    else ofValidBits (.ofNat text.length)
  read_print double _ := by
    by_cases hzero : double = .ofBits 0
    · rw [if_pos hzero, if_pos rfl, hzero]
    by_cases hneg : double = .ofBits 0x8000000000000000
    · rw [if_neg hzero, if_pos hneg, if_neg (by decide), if_pos rfl, hneg]
    by_cases hone : double = UInt64.toFloat 1
    · rw [if_neg hzero, if_neg hneg, if_pos hone, if_neg (by decide), if_neg (by decide),
        if_pos rfl, hone]
    · rw [if_neg hzero, if_neg hneg, if_neg hone, if_neg (strokes_ne (by decide) _),
        if_neg (strokes_ne (by decide) _), if_neg (strokes_ne (by decide) _), length_strokes,
        UInt64.ofNat_toNat, ofValidBits_toBits]
  print_zero := if_pos rfl
  print_negZero := by decide +kernel

theorem comparisons_inconsistent : ¬ ∀ (doubles : Doubles) (numbers : Set JsonNumber),
    Consistent doubles (Set.image (JsonNumber.value doubles) numbers) := by
  intro h
  have hfinite : (UInt64.toFloat 1).isFinite := by decide +kernel
  have hagree := (numbers_consistent strokeDoubles
    {.posInt 1, .float (UInt64.toFloat 1) hfinite}).mp (h strokeDoubles _) (.posInt 1) (.inl rfl)
      (.float (UInt64.toFloat 1) hfinite) (.inr rfl)
  rcases hagree with hsame | ⟨hdouble, -⟩
  · cases hsame
  · exact hdouble rfl

end Pikamux.Evolution

import Mathlib.Tactic.Common

/-!
# Json — Value

`serde_json::Value` as the program reads and writes it.  An object keeps its fields in key
order (`serde_json` is built without `preserve_order`), so one object has one representation
and equality of objects is equality of their field lists.

* `record["key"]` is `Value::index`: the field, or `null` for a missing key or a value that is
  not an object.
* `Value.set` is assignment through `IndexMut`.
* `Value.eq` is `PartialEq`, which differs from identity only at the two float zeroes.
-/

namespace Pikamux.Json

/-- A `serde_json::Number`.  A finite double is kept as the text the printer gives it: different
doubles print differently, and nothing in the program does arithmetic on one. -/
inductive Number where
  | posInt (n : Nat)
  | negInt (magnitude : Nat)
  | float (text : String)
  deriving DecidableEq, Repr

/-- `PartialEq` of two numbers: doubles are compared as doubles, so `0.0 == -0.0`. -/
def Number.eq : Number → Number → Bool
  | .float a, .float b => a == b || (a ∈ ["0.0", "-0.0"] && b ∈ ["0.0", "-0.0"])
  | a, b => a == b

/-- A JSON value. -/
inductive Value where
  | null
  | bool (b : Bool)
  | number (n : Number)
  | string (s : String)
  | array (items : List Value)
  | object (fields : List (String × Value))
  deriving Repr, Inhabited

namespace Value

/-! ### Reading -/

/-- `Value::get` at a key. -/
def get? (v : Value) (key : String) : Option Value :=
  match v with
  | object fields => fields.lookup key
  | _ => none

/-- `v["key"]`. -/
instance : GetElem Value String Value fun _ _ => True where
  getElem v key _ := (v.get? key).getD null

/-- `Value::as_str`. -/
def asStr : Value → Option String
  | string s => some s
  | _ => none

/-- `Value::as_array`. -/
def asArray : Value → Option (List Value)
  | array items => some items
  | _ => none

/-- `Value::as_object`. -/
def asObject : Value → Option (List (String × Value))
  | object fields => some fields
  | _ => none

/-- `Value::as_bool`. -/
def asBool : Value → Option Bool
  | bool b => some b
  | _ => none

/-- `Value::as_u64`. -/
def asU64 : Value → Option Nat
  | number (.posInt n) => some n
  | _ => none

/-- `v.as_array().into_iter().flatten()`. -/
def items (v : Value) : List Value := v.asArray.getD []

def isNull : Value → Bool
  | null => true
  | _ => false

def isString : Value → Bool
  | string _ => true
  | _ => false

theorem getElem_eq (v : Value) (key : String) : v[key] = (v.get? key).getD null := rfl

@[simp] theorem asStr_string (s : String) : (string s).asStr = some s := rfl
@[simp] theorem asStr_null : null.asStr = none := rfl

theorem asStr_eq_some {v : Value} {s : String} : v.asStr = some s ↔ v = string s := by
  cases v <;> simp [asStr]

@[simp] theorem isNull_iff {v : Value} : v.isNull = true ↔ v = null := by
  cases v <;> simp [isNull]

theorem isString_iff {v : Value} : v.isString = true ↔ ∃ s, v = string s := by
  cases v <;> simp [isString]

/-- What is not an object has no fields. -/
theorem getElem_of_asObject {v : Value} (h : v.asObject = none) (key : String) :
    v[key] = null := by
  cases v <;> simp_all [asObject, getElem_eq, get?]

/-! ### Writing -/

/-- Insert or replace a field, keeping key order. -/
def insertField (key : String) (x : Value) : List (String × Value) → List (String × Value)
  | [] => [(key, x)]
  | (k, v) :: fields =>
      if key = k then (key, x) :: fields
      else if key < k then (key, x) :: (k, v) :: fields
      else (k, v) :: insertField key x fields

/-- `v["key"] = x`.  Assignment turns `null` into an object; on any other value that is not an
object it panics, and every record the program assigns to is an object. -/
def set (v : Value) (key : String) (x : Value) : Value :=
  match v with
  | object fields => object (insertField key x fields)
  | null => object [(key, x)]
  | v => v

theorem lookup_insertField_self (key : String) (x : Value) (fields : List (String × Value)) :
    (insertField key x fields).lookup key = some x := by
  induction fields with
  | nil => simp [insertField]
  | cons f fields ih =>
      obtain ⟨k, v⟩ := f
      by_cases e : key = k
      · simp [insertField, e]
      · have e' : (key == k) = false := by simpa using e
        by_cases l : key < k
        · simp [insertField, e, l]
        · simp [insertField, e, l, List.lookup_cons, e', ih]

theorem lookup_insertField_ne {key other : String} (hne : other ≠ key) (x : Value)
    (fields : List (String × Value)) :
    (insertField key x fields).lookup other = fields.lookup other := by
  have hb : (other == key) = false := by simpa using hne
  induction fields with
  | nil => simp [insertField, List.lookup_cons, List.lookup_nil, hb]
  | cons f fields ih =>
      obtain ⟨k, v⟩ := f
      by_cases e : key = k
      · subst e; simp [insertField, List.lookup_cons, hb]
      · by_cases l : key < k
        · simp [insertField, e, l, List.lookup_cons, hb]
        · simp only [insertField, if_neg e, if_neg l, List.lookup_cons]
          cases other == k <;> simp [ih]

theorem get?_set_ne {v x : Value} {key other : String} (hne : other ≠ key) :
    (v.set key x).get? other = v.get? other := by
  have hb : (other == key) = false := by simpa using hne
  cases v <;> simp [set, get?, List.lookup_cons, List.lookup_nil, hb, lookup_insertField_ne hne]

/-- Assignment to one field leaves the others as they were. -/
theorem getElem_set_ne {v x : Value} {key other : String} (hne : other ≠ key) :
    (v.set key x)[other] = v[other] := by
  simp [getElem_eq, get?_set_ne hne]

theorem get?_set_self {v x : Value} {key : String} (h : v.asObject ≠ none) :
    (v.set key x).get? key = some x := by
  cases v <;> simp_all [asObject, set, get?, lookup_insertField_self]

/-- Assignment to a field of an object is read back. -/
theorem getElem_set_self {v x : Value} {key : String} (h : v.asObject ≠ none) :
    (v.set key x)[key] = x := by
  rw [getElem_eq, get?_set_self h, Option.getD_some]

theorem asObject_set {v x : Value} {key : String} (h : v.asObject ≠ none) :
    (v.set key x).asObject ≠ none := by
  cases v <;> simp_all [asObject, set]

/-- Insert fields one by one, as a parser does: a repeated key keeps its last value. -/
def insertFields (init : List (String × Value)) (fields : List (String × Value)) :
    List (String × Value) :=
  fields.foldl (fun acc f => insertField f.1 f.2 acc) init

/-- The last of the inserted fields with a key is the one found, else the initial one. -/
theorem lookup_insertFields (fields init : List (String × Value)) (key : String) :
    (insertFields init fields).lookup key = (fields.reverse.lookup key).or (init.lookup key) := by
  induction fields generalizing init with
  | nil => rfl
  | cons f fields ih =>
      obtain ⟨k, v⟩ := f
      have h := ih (insertField k v init)
      rw [insertFields, List.foldl_cons, ← insertFields, h, List.reverse_cons, List.lookup_append,
        Option.or_assoc]
      congr 1
      by_cases e : key = k
      · subst e; simp [lookup_insertField_self]
      · have hb : (key == k) = false := by simpa using e
        simp [lookup_insertField_ne e, List.lookup_cons, List.lookup_nil, hb]

theorem lookup_map (f : String → Value → Value) (fields : List (String × Value)) (key : String) :
    (fields.map fun e => (e.1, f e.1 e.2)).lookup key = (fields.lookup key).map (f key) := by
  induction fields with
  | nil => rfl
  | cons e fields ih =>
      obtain ⟨k, v⟩ := e
      by_cases h : key = k
      · subst h; simp
      · have hb : (key == k) = false := by simpa using h
        simp [List.lookup_cons, hb, ih]

/-- A function of keys and values commutes with insertion. -/
theorem map_insertField (f : String → Value → Value) (key : String) (x : Value)
    (fields : List (String × Value)) :
    (insertField key x fields).map (fun e => (e.1, f e.1 e.2)) =
      insertField key (f key x) (fields.map fun e => (e.1, f e.1 e.2)) := by
  induction fields with
  | nil => rfl
  | cons e fields ih =>
      obtain ⟨k, v⟩ := e
      by_cases h : key = k
      · simp [insertField, h]
      · by_cases hl : key < k <;> simp [insertField, h, hl, ih]

theorem map_insertFields (f : String → Value → Value) (fields init : List (String × Value)) :
    (insertFields init fields).map (fun e => (e.1, f e.1 e.2)) =
      insertFields (init.map fun e => (e.1, f e.1 e.2)) (fields.map fun e => (e.1, f e.1 e.2)) := by
  induction fields generalizing init with
  | nil => rfl
  | cons e fields ih =>
      simp only [insertFields, List.foldl_cons, List.map_cons, ← map_insertField] at ih ⊢
      exact ih _

mutual

/-- The value `serde_json` builds from a syntax tree, whose objects list their fields as written:
out of order, and with keys that may repeat. -/
def ofTree : Value → Value
  | array items => array (ofTreeItems items)
  | object fields => object (insertFields [] (ofTreeFields fields))
  | v => v

def ofTreeItems : List Value → List Value
  | [] => []
  | v :: vs => ofTree v :: ofTreeItems vs

def ofTreeFields : List (String × Value) → List (String × Value)
  | [] => []
  | (k, v) :: fs => (k, ofTree v) :: ofTreeFields fs

end

theorem ofTreeItems_eq (items : List Value) : ofTreeItems items = items.map ofTree := by
  induction items with
  | nil => rfl
  | cons v items ih => rw [ofTreeItems, ih, List.map_cons]

theorem ofTreeFields_eq (fields : List (String × Value)) :
    ofTreeFields fields = fields.map fun e => (e.1, ofTree e.2) := by
  induction fields with
  | nil => rfl
  | cons e fields ih => rw [ofTreeFields, ih, List.map_cons]

/-- A field read from a tree is its last occurrence. -/
theorem get?_ofTree_object (fields : List (String × Value)) (key : String) :
    (ofTree (object fields)).get? key = (fields.reverse.lookup key).map ofTree := by
  rw [ofTree, get?, lookup_insertFields, ofTreeFields_eq, ← List.map_reverse,
    lookup_map fun _ => ofTree]
  simp

/-! ### Comparing -/

mutual

/-- `PartialEq` of two values. -/
def eq : Value → Value → Bool
  | null, null => true
  | bool a, bool b => a == b
  | number a, number b => a.eq b
  | string a, string b => a == b
  | array a, array b => eqItems a b
  | object a, object b => eqFields a b
  | _, _ => false

def eqItems : List Value → List Value → Bool
  | [], [] => true
  | a :: as, b :: bs => eq a b && eqItems as bs
  | _, _ => false

def eqFields : List (String × Value) → List (String × Value) → Bool
  | [], [] => true
  | (j, a) :: as, (k, b) :: bs => j == k && eq a b && eqFields as bs
  | _, _ => false

end

/-- A string equals only itself. -/
@[simp] theorem eq_string {v : Value} {s : String} : v.eq (string s) = true ↔ v = string s := by
  cases v <;> simp [eq]

end Value
end Pikamux.Json

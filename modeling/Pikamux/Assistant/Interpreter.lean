import Mathlib.Data.Finset.Sort
import Pikamux.Assistant.Comparison
import Pikamux.Json.Text

/-!
# Assistant — Interpreter

`assistant_evolution.rs`: running a tool.  A tool is an expression that is evaluated on the array of
its inputs.  A `Budget` is charged for each expression that is evaluated, each value that is copied
and the memory this takes; a run whose budget is used up is refused.
-/

namespace Pikamux.Evolution

open Support Json

def maxFuel : Nat := 1000000
def maxChargedMemory : Nat := 32 * 1024 * 1024

/-- `size_of::<Value>()` and `size_of::<(String, Value)>()`. -/
def valueSize : Nat := 32
def fieldSize : Nat := 56

def usizeMax : Nat := 2 ^ 64 - 1

def saturatingMul (a b : Nat) : Nat := min (a * b) usizeMax

/-! ### The budget -/

/-- Why a run is stopped from outside. -/
inductive Stop where
  | deadline
  | cancelled

def Stop.error : Stop → EvolutionError
  | deadline => .limit "execution deadline exceeded"
  | cancelled => .limit "execution cancelled"

structure Budget where
  fuel : Nat := maxFuel
  memory : Nat := 0
  operations : Nat := 0

abbrev Run (α : Type) := StateT Budget (Except EvolutionError) α

def charge (bytes : Nat) : Run Unit := fun budget => do
  let memory := budget.memory + bytes
  ensure (memory ≤ usizeMax) (.limit "memory overflow")
  ensure (memory ≤ maxChargedMemory) (.limit "charged memory exceeds 32 MiB")
  return ((), { budget with memory })

section Running

-- whether, and why, a run is stopped at its n-th operation
variable (stops : Nat → Option Stop)

def check (fuel : Nat) : Run Unit := fun budget => do
  let operations := budget.operations + 1
  ensure (operations < 2 ^ 64) (.limit "operation counter overflow")
  ensure (fuel ≤ budget.fuel) (.limit "fuel exceeded")
  match stops operations with
  | some stop => .error stop.error
  | none => return ((), { budget with fuel := budget.fuel - fuel, operations })

mutual

def cloneValue (value : Value) (depth : Nat) : Run Value := do
  check stops 1
  let estimate ← measureValue value depth maxChargedMemory
  charge estimate
  match value with
  | .null => return .null
  | .bool value => return .bool value
  | .number value => return .number value
  | .string value => return .string value
  | .array values => do
      charge (saturatingMul values.length valueSize)
      let result ← cloneItems values depth
      return .array result
  | .object fields => do
      charge (saturatingMul fields.length fieldSize)
      let result ← cloneFields fields depth
      return .object result

def cloneItems (values : List Value) (depth : Nat) : Run (List Value) :=
  match values with
  | [] => return []
  | value :: values => do
      let copy ← cloneValue value (depth + 1)
      let result ← cloneItems values depth
      return copy :: result

/-- The fields of an object are in key order, in which they are inserted. -/
def cloneFields (fields : List (String × Value)) (depth : Nat) : Run (List (String × Value)) :=
  match fields with
  | [] => return []
  | (key, value) :: fields => do
      charge key.utf8ByteSize
      let copy ← cloneValue value (depth + 1)
      let result ← cloneFields fields depth
      return (key, copy) :: result

end

/-! ### Expressions -/

def lookup (value : Value) (path : String) : Option Value :=
  if path.isEmpty then some value
  else (path.toList.splitOn '.').foldlM (fun cursor part => cursor.get? (.ofList part)) value

def cloneLookup (value : Option Value) : Run Value :=
  match value with
  | some value => cloneValue stops value 0
  | none => return .null

/-- The current element, or the failure `reason`. -/
def needed (current : Option Value) (reason : String) : Run Value :=
  match current with
  | some value => return value
  | none => throw (.invalidDefinition reason)

/-- `as_array`, or the failure `reason`. -/
def elements (value : Value) (reason : String) : Run (List Value) :=
  match value.asArray with
  | some values => return values
  | none => throw (.invalidDefinition reason)

/-- `as_bool().unwrap_or(false)`. -/
def truth (value : Value) : Bool := value.asBool.getD false

/-- The elements that satisfy the predicate, copied. -/
def keep (predicate : Value → Run Value) (values : List Value) : Run (List Value) :=
  match values with
  | [] => return []
  | value :: values => do
      let result ← predicate value
      if result.asBool = some true then do
        let copy ← cloneValue stops value 0
        let out ← keep predicate values
        return copy :: out
      else keep predicate values

variable (doubles : Doubles) (root : Value)

mutual

def eval (expr : Expr) (current : Option Value) : Run Value := do
  check stops 1
  let result ← (match expr with
    | .input => cloneValue stops root 0
    | .current => do
        let value ← needed current "current used outside map/filter"
        cloneValue stops value 0
    | .field path => cloneLookup stops (lookup root path)
    | .currentField path => do
        let value ← needed current "current field outside map/filter"
        cloneLookup stops (lookup value path)
    | .literal value => cloneValue stops value 0
    | .map input expr => do
        let evaluated ← eval input current
        let array ← elements evaluated "map input must be an array"
        charge (saturatingMul array.length valueSize)
        let out ← array.mapM fun value => eval expr (some value)
        return .array out
    | .filter input predicate => do
        let evaluated ← eval input current
        let array ← elements evaluated "filter input must be an array"
        charge (saturatingMul array.length valueSize)
        let out ← keep stops (fun value => eval predicate (some value)) array
        return .array out
    | .compare comparison left right => do
        let left ← eval left current
        let right ← eval right current
        Evolution.compare doubles comparison left right
    | .and items => do
        let value ← evalAnd items current
        return .bool value
    | .or items => do
        let value ← evalOr items current
        return .bool value
    | .not input => do
        let value ← eval input current
        return .bool !(truth value))
  charge 0
  return result

def evalAnd (items : List Expr) (current : Option Value) : Run Bool :=
  match items with
  | [] => return true
  | item :: items => do
      let value ← eval item current
      if truth value then evalAnd items current else return false

def evalOr (items : List Expr) (current : Option Value) : Run Bool :=
  match items with
  | [] => return false
  | item :: items => do
      let value ← eval item current
      if truth value then return true else evalOr items current

end

end Running

/-! ### Running a tool -/

structure ToolResult where
  value : Value
  outputScope : Scope
  toolHash : String
  fuelUsed : Nat
  operations : Nat
  provenanceWarning : Option String

def Scope.union (scopes : List Scope) : Scope :=
  ⟨scopes.foldl (fun values scope => values ∪ scope.values) ∅⟩

/-- The copy of one input. -/
def copyInput (stops : Nat → Option Stop) (input : ScopedInput) : Run Value := do
  (input.scope.values.sort (· ≤ ·)).forM fun scope => charge scope.utf8ByteSize
  cloneValue stops input.value 0

/-- What is checked of the output. -/
def checkOutput (value : Value) : Run Unit := do
  let outputBytes ← measureValue value 0 maxOutputBytes
  ensure (outputBytes ≤ maxOutputBytes) (EvolutionError.limit "output exceeds 1 MiB")
  charge outputBytes
  let _ ← boundedJson value.toText maxOutputBytes

/-- What a run does with its budget. -/
def evalInputs (stops : Nat → Option Stop) (doubles : Doubles) (expression : Expr)
    (inputs : List ScopedInput) : Run Value := do
  charge (saturatingMul inputs.length valueSize)
  let rootValues ← inputs.mapM (copyInput stops)
  let value ← eval stops doubles (.array rootValues) expression none
  checkOutput value
  return value

def execute (tools : Tooling) (stops : Nat → Option Stop) (doubles : Doubles)
    (definition : ToolDefinition) (inputs : List ScopedInput) :
    Except EvolutionError ToolResult := do
  let hash ← validateDefinition tools definition
  ensure (inputs.length ≤ maxInputRecords) (.limit "input records exceed 10,000")
  let (value, budget) ← evalInputs stops doubles definition.expression inputs {}
  return {
    value
    outputScope := Scope.union (inputs.map ScopedInput.scope)
    toolHash := hash
    fuelUsed := maxFuel - budget.fuel
    operations := budget.operations
    provenanceWarning := none }

/-- Tools that are run by the interpreter; `stops` tells whether a run is interrupted. -/
def Tooling.running (tools : Tooling) (stops : Bool → Nat → Option Stop) (doubles : Doubles) :
    Tooling :=
  { tools with
    execute := fun definition inputs interrupted =>
      (Evolution.execute tools (stops interrupted) doubles definition inputs).map
        ToolResult.value }

end Pikamux.Evolution

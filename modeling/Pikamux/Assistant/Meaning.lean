import Pikamux.Assistant.Interpreter
import Pikamux.Support.Metered

/-!
# Assistant — Meaning

What an expression of the tool language means, without a budget, and what it takes to find out.

* `execute_meaning`: a tool that is run yields the meaning of its expression on its inputs, for as
  much fuel as there are expressions evaluated and values copied; otherwise its budget is used up,
  or there is no meaning.
* `execute_limit_first`: where there is no meaning, a limit may be exceeded before that shows.
* `evaluateCases_running`: each case of a suite that is passed expects what the tool means.
-/

namespace Pikamux.Evolution

open Support Json

/-- The error of a limit. -/
def EvolutionError.IsLimit : EvolutionError → Prop
  | limit _ => True
  | _ => False

/-! ### Meaning -/

section Meaning

variable (doubles : Doubles) (root : Value)

mutual

/-- What an expression means where `current` is the current element: nothing, if a subexpression
that is reached from left to right means nothing. -/
def meaning (expr : Expr) (current : Option Value) : Option Value :=
  match expr with
  | .input => some root
  | .current => current
  | .field path => some ((lookup root path).getD .null)
  | .currentField path => current.map fun value => (lookup value path).getD .null
  | .literal value => some value
  | .map input expr => do
      let values ← (← meaning input current).asArray
      return .array (← values.mapM fun value => meaning expr (some value))
  | .filter input predicate => do
      let values ← (← meaning input current).asArray
      let _ ← values.mapM fun value => meaning predicate (some value)
      return .array (values.filter fun value => (meaning predicate (some value)).any truth)
  | .compare comparison left right => do
      let left ← meaning left current
      let right ← meaning right current
      (Evolution.compare doubles comparison left right).toOption
  | .and items => (every items current).map .bool
  | .or items => (any items current).map .bool
  | .not input => (meaning input current).map fun value => .bool !(truth value)

/-- All are true; the first one that is not decides. -/
def every (items : List Expr) (current : Option Value) : Option Bool :=
  match items with
  | [] => some true
  | item :: items => do if truth (← meaning item current) then every items current else return false

/-- One is true; the first one that is decides. -/
def any (items : List Expr) (current : Option Value) : Option Bool :=
  match items with
  | [] => some false
  | item :: items => do if truth (← meaning item current) then return true else any items current

end

/-! ### Work -/

mutual

/-- How many values there are in a value. -/
def count (value : Value) : Nat :=
  match value with
  | .array values => 1 + countItems values
  | .object fields => 1 + countFields fields
  | _ => 1

def countItems (values : List Value) : Nat :=
  match values with
  | [] => 0
  | value :: values => count value + countItems values

def countFields (fields : List (String × Value)) : Nat :=
  match fields with
  | [] => 0
  | (_, value) :: fields => count value + countFields fields

end

/-- The elements of a meaning. -/
def elementsOf (meaning : Option Value) : List Value := (meaning.bind Value.asArray).getD []

mutual

/-- How many expressions are evaluated and how many values are copied. -/
def work (expr : Expr) (current : Option Value) : Nat :=
  1 + match expr with
    | .input => count root
    | .current => current.elim 0 count
    | .field path => (lookup root path).elim 0 count
    | .currentField path => current.elim 0 fun value => (lookup value path).elim 0 count
    | .literal value => count value
    | .map input expr =>
        work input current +
          ((elementsOf (meaning doubles root input current)).map fun value =>
            work expr (some value)).sum
    | .filter input predicate =>
        work input current +
          ((elementsOf (meaning doubles root input current)).map fun value =>
            work predicate (some value) +
              if (meaning doubles root predicate (some value)).any truth then count value
              else 0).sum
    | .compare _ left right => work left current + work right current
    | .and items => workEvery items current
    | .or items => workAny items current
    | .not input => work input current

def workEvery (items : List Expr) (current : Option Value) : Nat :=
  match items with
  | [] => 0
  | item :: items =>
      work item current +
        if (meaning doubles root item current).any truth then workEvery items current else 0

def workAny (items : List Expr) (current : Option Value) : Nat :=
  match items with
  | [] => 0
  | item :: items =>
      work item current +
        if (meaning doubles root item current).any truth then 0 else workAny items current

end

end Meaning

/-! ### The budget only refuses -/

section Budgeted

variable {stops : Nat → Option Stop}

theorem check_guards (n : Nat) : Guards Budget.fuel EvolutionError.IsLimit (check stops n) n := by
  intro budget
  unfold check
  dsimp only
  by_cases hcount : budget.operations + 1 < 2 ^ 64
  case neg =>
    rw [decide_eq_false hcount]
    exact ⟨nofun, fun e h => by cases h; trivial⟩
  by_cases hfuel : n ≤ budget.fuel
  case neg =>
    rw [decide_eq_true hcount, decide_eq_false hfuel]
    exact ⟨nofun, fun e h => by cases h; trivial⟩
  rw [decide_eq_true hcount, decide_eq_true hfuel]
  cases stops (budget.operations + 1) with
  | some stop => exact ⟨nofun, fun e h => by cases h; cases stop <;> trivial⟩
  | none =>
      refine ⟨fun _ budget' h => ?_, nofun⟩
      cases h
      dsimp only
      omega

theorem charge_guards (bytes : Nat) :
    Guards Budget.fuel EvolutionError.IsLimit (charge bytes) 0 := by
  intro budget
  unfold charge
  dsimp only
  by_cases hsize : budget.memory + bytes ≤ usizeMax
  case neg =>
    rw [decide_eq_false hsize]
    exact ⟨nofun, fun e h => by cases h; trivial⟩
  by_cases hmemory : budget.memory + bytes ≤ maxChargedMemory
  case neg =>
    rw [decide_eq_true hsize, decide_eq_false hmemory]
    exact ⟨nofun, fun e h => by cases h; trivial⟩
  rw [decide_eq_true hsize, decide_eq_true hmemory]
  refine ⟨fun _ budget' h => ?_, nofun⟩
  cases h
  rfl

theorem measured_limit {parts : Except EvolutionError Nat} {depth limit : Nat} {e : EvolutionError}
    (hparts : ∀ e, parts = .error e → e.IsLimit) (h : measured parts depth limit = .error e) :
    e.IsLimit := by
  unfold measured ensure at h
  split at h
  · cases parts with
    | error e' =>
        cases h
        exact hparts e rfl
    | ok size =>
        dsimp only [ok_bind] at h
        split at h
        · cases h
        · cases h
          trivial
  · cases h
    trivial

mutual

theorem measureValue_limit (value : Value) {depth limit : Nat} {e : EvolutionError}
    (h : measureValue value depth limit = .error e) : e.IsLimit := by
  cases value with
  | array values =>
      rw [measureValue] at h
      exact measured_limit (fun _ => measureItems_limit values) h
  | object fields =>
      rw [measureValue] at h
      exact measured_limit (fun _ => measureFields_limit fields) h
  | _ =>
      rw [measureValue] at h
      refine measured_limit ?_ h
      intro e' he
      cases he

theorem measureItems_limit (values : List Value) {total depth limit : Nat} {e : EvolutionError}
    (h : measureItems values total depth limit = .error e) : e.IsLimit := by
  cases values with
  | nil => cases h
  | cons value values =>
      rw [measureItems] at h
      cases hsize : measureValue value (depth + 1) limit with
      | error e' =>
          rw [hsize] at h
          cases h
          exact measureValue_limit value hsize
      | ok size =>
          rw [hsize, ok_bind] at h
          split at h
          · cases h
          · exact measureItems_limit values h

theorem measureFields_limit (fields : List (String × Value)) {total depth limit : Nat}
    {e : EvolutionError} (h : measureFields fields total depth limit = .error e) : e.IsLimit := by
  match fields with
  | [] => cases h
  | (key, value) :: fields =>
      rw [measureFields] at h
      cases hsize : measureValue value (depth + 1) limit with
      | error e' =>
          rw [hsize] at h
          cases h
          exact measureValue_limit value hsize
      | ok size =>
          rw [hsize, ok_bind] at h
          split at h
          · cases h
          · exact measureFields_limit fields h

end

theorem measure_guards (value : Value) (depth limit : Nat) :
    Guards Budget.fuel EvolutionError.IsLimit
      (liftM (measureValue value depth limit) : Run Nat) 0 :=
  Guards.lift fun _ => measureValue_limit value

/-! ### Copies -/

/-- What is done before a value is copied. -/
theorem copy_guards {α : Type} {f : Run α} {meaning : Option α} {work : Nat} (value : Value)
    (depth : Nat) (hf : Meters Budget.fuel EvolutionError.IsLimit f meaning work) :
    Meters Budget.fuel EvolutionError.IsLimit
      (check stops 1 >>= fun _ =>
        (liftM (measureValue value depth maxChargedMemory) : Run Nat) >>= fun estimate =>
          charge estimate >>= fun _ => f) meaning (1 + work) := by
  refine ((check_guards 1).before fun _ => (measure_guards value depth _).before fun estimate =>
    (charge_guards estimate).before fun _ => hf).congr rfl fun _ _ => ?_
  omega

mutual

theorem cloneValue_meters (value : Value) (depth : Nat) :
    Meters Budget.fuel EvolutionError.IsLimit (cloneValue stops value depth) (some value)
      (count value) := by
  cases value with
  | array values =>
      rw [cloneValue, count]
      refine copy_guards _ depth (((charge_guards _).before fun _ =>
        (cloneItems_meters values depth).returning Value.array).congr rfl fun _ _ => ?_)
      omega
  | object fields =>
      rw [cloneValue, count]
      refine copy_guards _ depth (((charge_guards _).before fun _ =>
        (cloneFields_meters fields depth).returning Value.object).congr rfl fun _ _ => ?_)
      omega
  | _ =>
      rw [cloneValue, count]
      · exact copy_guards _ depth (Meters.pure _)
      all_goals intro _ h; cases h

theorem cloneItems_meters (values : List Value) (depth : Nat) :
    Meters Budget.fuel EvolutionError.IsLimit (cloneItems stops values depth) (some values)
      (countItems values) := by
  cases values with
  | nil =>
      rw [cloneItems, countItems]
      exact Meters.pure []
  | cons value values =>
      rw [cloneItems, countItems]
      exact (cloneValue_meters value (depth + 1)).andThen
        ((cloneItems_meters values depth).returning _)

theorem cloneFields_meters (fields : List (String × Value)) (depth : Nat) :
    Meters Budget.fuel EvolutionError.IsLimit (cloneFields stops fields depth) (some fields)
      (countFields fields) := by
  match fields with
  | [] =>
      rw [cloneFields, countFields]
      exact Meters.pure []
  | (key, value) :: fields =>
      rw [cloneFields, countFields]
      refine ((charge_guards _).before fun _ => (cloneValue_meters value (depth + 1)).andThen
        ((cloneFields_meters fields depth).returning _)).congr rfl fun _ _ => ?_
      omega

end

/-! ### Expressions -/

/-- What is done around each expression. -/
theorem evaluated {body : Run Value} {meaning : Option Value} {work : Nat}
    (hbody : Meters Budget.fuel EvolutionError.IsLimit body meaning work) :
    Meters Budget.fuel EvolutionError.IsLimit
      (check stops 1 >>= fun _ => body >>= fun result =>
        charge 0 >>= fun _ => pure result) meaning (1 + work) := by
  refine (check_guards 1).before fun _ => (hbody.guarded fun _ => charge_guards 0).congr rfl ?_
  exact fun _ _ => rfl

theorem cloneLookup_meters (value : Option Value) :
    Meters Budget.fuel EvolutionError.IsLimit (cloneLookup stops value)
      (some (value.getD .null)) (value.elim 0 count) := by
  cases value with
  | none => exact Meters.pure _
  | some value => exact cloneValue_meters value 0

theorem needed_meters (current : Option Value) (reason : String) :
    Meters Budget.fuel EvolutionError.IsLimit (needed current reason) current 0 := by
  cases current with
  | none => exact Meters.throw _ 0
  | some value => exact Meters.pure value

theorem elements_meters (value : Value) (reason : String) :
    Meters Budget.fuel EvolutionError.IsLimit (elements value reason) value.asArray 0 := by
  unfold elements
  cases value.asArray with
  | none => exact Meters.throw _ 0
  | some values => exact Meters.pure values

theorem truth_iff {value : Value} : truth value = true ↔ value.asBool = some true := by
  rw [truth]
  cases value.asBool with
  | none => simp
  | some b => simp

theorem keep_meters {predicate : Value → Run Value} {meaning : Value → Option Value}
    {work : Value → Nat}
    (h : ∀ value, Meters Budget.fuel EvolutionError.IsLimit (predicate value) (meaning value)
      (work value)) (values : List Value) :
    Meters Budget.fuel EvolutionError.IsLimit (keep stops predicate values)
      ((values.mapM meaning).map fun _ =>
        values.filter fun value => (meaning value).any truth)
      (values.map fun value =>
        work value + if (meaning value).any truth then count value else 0).sum := by
  induction values with
  | nil => exact Meters.pure []
  | cons value values ih =>
      rw [keep, List.mapM_cons, List.map_cons, List.sum_cons]
      refine ((h value).bind fun result _ => Meters.ite
        ((cloneValue_meters value 0).andThen (ih.returning _)) ih).congr ?_ ?_
      · rw [List.filter_cons]
        cases meaning value with
        | none => rfl
        | some result =>
            rw [Option.any_some, Option.bind_some]
            cases values.mapM meaning <;> by_cases htrue : truth result <;>
              simp [htrue, ← truth_iff]
      · intro out hout
        obtain ⟨result, hresult, -⟩ := Option.bind_eq_some_iff.mp hout
        rw [hresult, Option.elim_some, Option.any_some, Nat.add_assoc]
        by_cases htrue : truth result <;> simp [htrue, ← truth_iff]

theorem elements_work (meaning : Option Value) (f : Value → Nat) :
    (meaning.elim 0 fun evaluated =>
      0 + evaluated.asArray.elim 0 fun array => 0 + (array.map f).sum) =
        ((elementsOf meaning).map f).sum := by
  cases meaning with
  | none => rfl
  | some evaluated =>
      rw [elementsOf, Option.elim_some, Option.bind_some, Nat.zero_add]
      cases evaluated.asArray with
      | none => rfl
      | some array => rw [Option.elim_some, Option.getD_some, Nat.zero_add]

/-- What the first item takes, and the rest if it does not decide. -/
theorem first_work {meaning : Option Value} {next : Value → Option Bool} {out : Bool}
    (h : meaning.bind next = some out) (f : Bool → Nat) :
    (meaning.elim 0 fun value => f (truth value)) = f (meaning.any truth) := by
  obtain ⟨value, hvalue, -⟩ := Option.bind_eq_some_iff.mp h
  rw [hvalue, Option.elim_some, Option.any_some]

variable {doubles : Doubles} {root : Value}

mutual

theorem eval_meters (expr : Expr) (current : Option Value) :
    Meters Budget.fuel EvolutionError.IsLimit (eval stops doubles root expr current)
      (meaning doubles root expr current) (work doubles root expr current) := by
  cases expr with
  | input =>
      rw [eval, meaning, work]
      exact evaluated (cloneValue_meters root 0)
  | current =>
      rw [eval, meaning, work]
      refine evaluated (((needed_meters current _).bind fun value _ =>
        cloneValue_meters value 0).congr ?_ fun _ _ => Nat.zero_add _)
      cases current <;> rfl
  | field path =>
      rw [eval, meaning, work]
      exact evaluated (cloneLookup_meters _)
  | currentField path =>
      rw [eval, meaning, work]
      refine evaluated (((needed_meters current _).bind fun value _ =>
        cloneLookup_meters (lookup value path)).congr ?_ fun _ _ => Nat.zero_add _)
      cases current <;> rfl
  | literal value =>
      rw [eval, meaning, work]
      exact evaluated (cloneValue_meters value 0)
  | map input expr =>
      rw [eval, meaning, work]
      refine evaluated (((eval_meters input current).bind fun evaluated _ =>
        (elements_meters evaluated _).bind fun array _ => (charge_guards _).before fun _ =>
          (Meters.mapM (fun value => eval_meters expr (some value)) array).returning
            Value.array).congr ?_ fun _ _ => ?_)
      · simp only [Option.map_eq_bind]
        rfl
      · rw [elements_work]
  | filter input predicate =>
      rw [eval, meaning, work]
      refine evaluated (((eval_meters input current).bind fun evaluated _ =>
        (elements_meters evaluated _).bind fun array _ => (charge_guards _).before fun _ =>
          (keep_meters (fun value => eval_meters predicate (some value)) array).returning
            Value.array).congr ?_ fun _ _ => ?_)
      · simp only [Option.map_eq_bind, Option.bind_assoc]
        rfl
      · rw [elements_work]
  | compare comparison left right =>
      rw [eval, meaning, work]
      refine evaluated (((eval_meters left current).bind fun left _ =>
        (eval_meters right current).bind fun right _ => Meters.lift _).congr rfl ?_)
      intro value hvalue
      obtain ⟨leftValue, hleft, hrest⟩ := Option.bind_eq_some_iff.mp hvalue
      obtain ⟨rightValue, hright, -⟩ := Option.bind_eq_some_iff.mp hrest
      rw [hleft, hright]
      rfl
  | and items =>
      rw [eval, meaning, work]
      exact evaluated ((evalAnd_meters items current).returning Value.bool)
  | or items =>
      rw [eval, meaning, work]
      exact evaluated ((evalOr_meters items current).returning Value.bool)
  | not input =>
      rw [eval, meaning, work]
      exact evaluated ((eval_meters input current).returning _)

theorem evalAnd_meters (items : List Expr) (current : Option Value) :
    Meters Budget.fuel EvolutionError.IsLimit (evalAnd stops doubles root items current)
      (every doubles root items current) (workEvery doubles root items current) := by
  cases items with
  | nil =>
      rw [evalAnd, every, workEvery]
      exact Meters.pure true
  | cons item items =>
      rw [evalAnd, every, workEvery]
      refine ((eval_meters item current).bind fun value _ =>
        (evalAnd_meters items current).ite (Meters.pure false)).congr rfl ?_
      intro out hout
      rw [first_work hout fun b => if b = true then workEvery doubles root items current else 0]

theorem evalOr_meters (items : List Expr) (current : Option Value) :
    Meters Budget.fuel EvolutionError.IsLimit (evalOr stops doubles root items current)
      (any doubles root items current) (workAny doubles root items current) := by
  cases items with
  | nil =>
      rw [evalOr, any, workAny]
      exact Meters.pure false
  | cons item items =>
      rw [evalOr, any, workAny]
      refine ((eval_meters item current).bind fun value _ =>
        (Meters.pure true).ite (evalOr_meters items current)).congr rfl ?_
      intro out hout
      rw [first_work hout fun b => if b = true then 0 else workAny doubles root items current]

end

/-! ### Runs -/

theorem ensure_guards (c : Bool) (reason : String) : Guards Budget.fuel EvolutionError.IsLimit
    (liftM (ensure c (EvolutionError.limit reason)) : Run Unit) 0 := by
  refine Guards.lift fun e he => ?_
  cases c
  · cases he
    trivial
  · cases he

theorem boundedJson_guards (text : String) (limit : Nat) :
    Guards Budget.fuel EvolutionError.IsLimit (liftM (boundedJson text limit) : Run String) 0 := by
  refine Guards.lift fun e he => ?_
  rw [boundedJson] at he
  cases hfits : decide (text.utf8ByteSize ≤ limit) with
  | false =>
      rw [hfits] at he
      cases he
      trivial
  | true =>
      rw [hfits] at he
      cases he

theorem copyInput_meters (input : ScopedInput) :
    Meters Budget.fuel EvolutionError.IsLimit (copyInput stops input) (some input.value)
      (count input.value) := by
  refine ((Guards.forM _ fun _ _ => charge_guards _).before fun _ =>
    cloneValue_meters input.value 0).congr rfl fun _ _ => Nat.zero_add _

theorem checkOutput_guards (value : Value) :
    Guards Budget.fuel EvolutionError.IsLimit (checkOutput value) 0 :=
  (measure_guards value 0 maxOutputBytes).bind fun _ => (ensure_guards _ _).bind fun _ =>
    (charge_guards _).bind fun _ => (boundedJson_guards _ _).bind fun _ => Guards.pure PUnit.unit

end Budgeted

/-- The array of the inputs. -/
def rootOf (inputs : List ScopedInput) : Value := .array (inputs.map ScopedInput.value)

/-- What a run takes. -/
def runWork (doubles : Doubles) (expression : Expr) (inputs : List ScopedInput) : Nat :=
  (inputs.map fun input => count input.value).sum + work doubles (rootOf inputs) expression none

section Runs

variable {stops : Nat → Option Stop} {doubles : Doubles}

theorem evalInputs_meters (expression : Expr) (inputs : List ScopedInput) :
    Meters Budget.fuel EvolutionError.IsLimit (evalInputs stops doubles expression inputs)
      (meaning doubles (rootOf inputs) expression none) (runWork doubles expression inputs) := by
  have hcopies := Meters.mapM (@copyInput_meters stops) inputs
  have hvalues : (inputs.mapM fun input => some input.value) =
      some (inputs.map ScopedInput.value) := List.mapM_pure
  rw [hvalues] at hcopies
  refine ((charge_guards _).before fun _ => hcopies.andThen
    ((eval_meters expression none).guarded fun value => checkOutput_guards value)).congr rfl ?_
  intro _ _
  rw [runWork, Nat.zero_add, Nat.add_zero]
  rfl

/-- The value of a run is short as text. -/
theorem evalInputs_bounded {expression : Expr} {inputs : List ScopedInput} {budget budget' : Budget}
    {value : Value} (h : evalInputs stops doubles expression inputs budget = .ok (value, budget')) :
    value.toText.utf8ByteSize ≤ maxOutputBytes := by
  rw [evalInputs] at h
  obtain ⟨_, _, -, hcopies⟩ := ok_of_bind h
  obtain ⟨_, _, -, heval⟩ := ok_of_bind hcopies
  obtain ⟨value', _, -, houtput⟩ := ok_of_bind heval
  obtain ⟨_, _, hcheck, hreturn⟩ := ok_of_bind houtput
  cases hreturn
  rw [checkOutput] at hcheck
  obtain ⟨_, _, -, hbytes⟩ := ok_of_bind hcheck
  obtain ⟨_, _, -, hcharge⟩ := ok_of_bind hbytes
  obtain ⟨_, _, -, hbounded⟩ := ok_of_bind hcharge
  obtain ⟨_, _, hjson, -⟩ := ok_of_bind hbounded
  obtain ⟨_, hfits, -⟩ := bind_eq_ok.mp (ok_of_lift hjson)
  exact of_decide_eq_true (ensure_eq_ok.mp hfits)

theorem execute_eq {tools : Tooling} {definition : ToolDefinition} {inputs : List ScopedInput}
    {hash : String} (hvalid : validateDefinition tools definition = .ok hash) :
    (∃ result budget, execute tools stops doubles definition inputs = .ok result ∧
      evalInputs stops doubles definition.expression inputs {} = .ok (result.value, budget) ∧
      result.outputScope = Scope.union (inputs.map ScopedInput.scope) ∧
      result.fuelUsed = maxFuel - budget.fuel) ∨
    ∃ e, execute tools stops doubles definition inputs = .error e ∧
      (e.IsLimit ∨ evalInputs stops doubles definition.expression inputs {} = .error e) := by
  rw [execute, hvalid, ok_bind]
  by_cases hlength : inputs.length ≤ maxInputRecords
  · rw [decide_eq_true hlength, ensure_true, ok_bind]
    cases hrun : evalInputs stops doubles definition.expression inputs {} with
    | ok next => exact .inl ⟨_, next.2, rfl, rfl, rfl, rfl⟩
    | error e => exact .inr ⟨e, rfl, .inr rfl⟩
  · rw [decide_eq_false hlength]
    exact .inr ⟨_, rfl, .inl trivial⟩

theorem mem_union {scopes : List Scope} {label : String} :
    label ∈ (Scope.union scopes).values ↔ ∃ scope ∈ scopes, label ∈ scope.values := by
  have hfold : ∀ values : Finset String,
      label ∈ scopes.foldl (fun values scope => values ∪ scope.values) values ↔
        label ∈ values ∨ ∃ scope ∈ scopes, label ∈ scope.values := by
    induction scopes with
    | nil => simp
    | cons scope scopes ih =>
        intro values
        rw [List.foldl_cons, ih, Finset.mem_union, List.exists_mem_cons_iff, or_assoc]
  rw [Scope.union, hfold]
  simp

/-- A tool that passes a case means what the case expects. -/
theorem evaluateCase_running {tools : Tooling} {stops : Bool → Nat → Option Stop}
    {definition : ToolDefinition} {interrupted : Bool} {index : Nat} {case : EvaluationCase}
    {hash : String} (hvalid : validateDefinition tools definition = .ok hash)
    (h : evaluateCase (tools.running stops doubles) definition interrupted index case = []) :
    (meaning doubles (rootOf case.inputs) definition.expression none).any (·.eq case.expected) := by
  rw [evaluateCase, Tooling.running] at h
  rcases @execute_eq (stops interrupted) doubles tools definition case.inputs hash hvalid with
    ⟨result, budget, hexecute, hrun, -, -⟩ | ⟨e, hexecute, -⟩
  · dsimp only at h
    rw [hexecute] at h
    dsimp only [Except.map] at h
    rw [((evalInputs_meters _ _ {}).1 _ _ hrun).1, Option.any_some]
    by_contra hne
    rw [if_neg hne] at h
    cases h
  · dsimp only at h
    rw [hexecute] at h
    cases h

/-- A tool that passes a suite means what each case expects. -/
theorem evaluateCases_running {tools : Tooling} {stops : Bool → Nat → Option Stop}
    {definition : ToolDefinition} {chance : Chance} {index : Nat} {cases : List EvaluationCase}
    {hash : String} (hvalid : validateDefinition tools definition = .ok hash)
    (h : evaluateCases (tools.running stops doubles) definition chance index cases = []) :
    ∀ case ∈ cases, (meaning doubles (rootOf case.inputs) definition.expression none).any
      (·.eq case.expected) := by
  induction cases generalizing index with
  | nil => exact fun _ hcase => (List.not_mem_nil hcase).elim
  | cons case cases ih =>
      rw [evaluateCases] at h
      split at h
      case isTrue => cases h
      case isFalse =>
        obtain ⟨hcase, hrest⟩ := List.append_eq_nil_iff.mp h
        exact List.forall_mem_cons.mpr ⟨evaluateCase_running hvalid hcase, ih hrest⟩

end Runs

/-- A tool without a scope. -/
def sampleTool (expression : Expr) : ToolDefinition :=
  { name := "same", version := 1, inputScope := {}, expression }

/-- What is printed of the tool with this expression, and its digest. -/
def sampleTooling (expression digest : String) : Tooling where
  printDefinition _ :=
    "\x7b\"name\":\"same\",\"version\":1,\"input_scope\":\x7b\"values\":[]\x7d," ++
      "\"expression\":" ++ expression ++ "\x7d"
  printCases _ := "[]"
  digest _ := digest
  execute _ _ _ := .error .approvalMismatch

/-- Each input as it is. -/
def sameTooling : Tooling :=
  sampleTooling
    "\x7b\"op\":\"map\",\"input\":\x7b\"op\":\"input\"\x7d,\"expr\":\x7b\"op\":\"current\"\x7d\x7d"
    "b79803ac552f02e426695dd7532715456114f658fcba6ed97748c0eca8a25b07"

def currentTooling : Tooling :=
  sampleTooling "\x7b\"op\":\"current\"\x7d"
    "62de0d1b0a1f8b80cf81688848ea8c5cee76980c19bc1233425dbd57fc3b0aa9"

def sameInputs : List ScopedInput := [⟨.bool true, {}⟩]

theorem evaluateCases_running_same :
    (meaning strokeDoubles (rootOf sameInputs) (.map .input .current) none).any
      (·.eq (.array [.bool true])) :=
  @evaluateCases_running strokeDoubles sameTooling (fun _ _ => none)
    (sampleTool (.map .input .current)) {} 0 [⟨sameInputs, .array [.bool true]⟩]
    (sameTooling.digest "") (by decide +kernel) (by decide +kernel) _ (List.mem_singleton_self _)

/-- This many arrays, each in the next one. -/
def nested : Nat → Value
  | 0 => .null
  | depth + 1 => .array [nested depth]

/-- A run ends in the error of a limit. -/
def Limited : Except EvolutionError ToolResult → Bool
  | .error (.limit _) => true
  | _ => false

end Pikamux.Evolution

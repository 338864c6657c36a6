import PreloopControl.Dependencies

/-!
# Matrix Expansion

`matrix_expand.rs`: the axes, excludes and includes of a matrix, and the rows they make. The
rows are built depth first along the axes; a counter of the work done and the number of rows
stop an expansion that is too large.

An insertion-ordered map is the list of its entries.

## Main definitions

* `Row`, `MatrixSpec`, `MatrixCombination`: Maps in order, the matrix, and what comes of it.
* `valueEq`: Equality of values, which does not see the order of an object's fields.
* `expandAxisRows`: The rows along the axes.
* `tryExpandMatrixSpec`: The expansion.
* `expandMatrixSpec`: The expansion without limits, row by row of the whole product.
* `matrixToSpec`, `valueToMatrixSpec`: The specification of a matrix.
-/

namespace Preloop

namespace Matrices

open Expressions Dependencies

variable {N : Type}

/-! ## Data -/

/-- `IndexMap<String, Value>`. -/
abbrev Row (N : Type) := List (Text × Value N)

/-- `MatrixSpec`. -/
structure MatrixSpec (N : Type) where
  axes : List (Text × List (Value N)) := []
  exclude : List (Row N) := []
  include_ : List (Row N) := []

/-- `MatrixCombination`. -/
structure MatrixCombination (N : Type) where
  values : Row N
  includeOnly : Bool

/-- The errors of an expansion, with the data of their messages. -/
inductive MatrixError
  | expression (e : ExpressionError)
  | notMapping (jobId : Text)
  | notArray (field : Text)
  | invalidMatrixEntry (jobId field : Text)
  | matrixTooLarge (jobId : Text) (limit : Nat)

/-- `MAX_MATRIX_COMBINATIONS`. -/
def maxMatrixCombinations : Nat := 256

/-- `MAX_MATRIX_AXES`. -/
def maxMatrixAxes : Nat := 1024

/-- `MAX_MATRIX_EXPANSION_WORK`. -/
def maxMatrixExpansionWork : Nat := 1000000

/-! ## Equality of values -/

section Equality

variable [BEq N]

mutual

/-- `PartialEq` of `serde_json::Value`. -/
def valueEq : Value N → Value N → Bool
  | .null, .null => true
  | .bool a, .bool b => a == b
  | .number a, .number b => a == b
  | .string a, .string b => a == b
  | .array xs, .array ys => itemsEq xs ys
  | .object fields, .object others =>
    fields.length == others.length && fieldsEq fields others
  | _, _ => false

/-- The elements of two arrays. -/
def itemsEq : List (Value N) → List (Value N) → Bool
  | [], [] => true
  | x :: xs, y :: ys => valueEq x y && itemsEq xs ys
  | _, _ => false

/-- Every field of an object is a field of the other. -/
def fieldsEq : List (Text × Value N) → List (Text × Value N) → Bool
  | [], _ => true
  | (k, v) :: fields, others =>
    (match getField others k with
      | some w => valueEq v w
      | none => false) && fieldsEq fields others

end

end Equality

/-! ## Expansion -/

section Expansion

variable [BEq N]

/-- `matches_partial`. -/
def matchesPartial (candidate partialRow : Row N) : Bool :=
  partialRow.all fun e => (getField candidate e.1).any fun v => valueEq v e.2

/-- The key is an axis. -/
def MatrixSpec.hasAxis (spec : MatrixSpec N) (key : Text) : Bool := spec.axes.any fun e => e.1 = key

/-- The keys of an include that are axes agree with a row. -/
def MatrixSpec.includeMatches (spec : MatrixSpec N) (current included : Row N) : Bool :=
  included.all fun e => !spec.hasAxis e.1 || (getField current e.1).any fun v => valueEq v e.2

/-- The keys of an include that are not axes. -/
def MatrixSpec.extrasOf (spec : MatrixSpec N) (included : Row N) : Row N :=
  included.filter fun e => !spec.hasAxis e.1

/-- `ExpansionState`, and the rows so far. -/
structure ExpansionState (N : Type) where
  includeMatched : List Bool
  work : Nat := 0
  expanded : List (MatrixCombination N) := []

/-- One unit of work, if there is one left. -/
def ExpansionState.spend (state : ExpansionState N) : Option (ExpansionState N) :=
  if maxMatrixExpansionWork < state.work + 1 then none
  else some { state with work := state.work + 1 }

/-- `push_matrix_row`. -/
def ExpansionState.push (state : ExpansionState N) (row : MatrixCombination N) :
    Option (ExpansionState N) :=
  if maxMatrixCombinations ≤ state.expanded.length then none
  else some { state with expanded := state.expanded ++ [row] }

/-- The excludes, up to the first that matches. -/
def excludedRow (current : Row N) : List (Row N) → ExpansionState N →
    Option (Bool × ExpansionState N)
  | [], state => some (false, state)
  | exc :: rest, state => do
    let state ← state.spend
    if matchesPartial current exc then return (true, state) else excludedRow current rest state

/-- The includes from the one at `index` on: the extras of those that match, which are marked. -/
def matchIncludes (spec : MatrixSpec N) (current : Row N) : Nat → List (Row N) → Row N →
    ExpansionState N → Option (Row N × ExpansionState N)
  | _, [], extras, state => some (extras, state)
  | index, included :: rest, extras, state => do
    let state ← state.spend
    if spec.includeMatches current included then
      matchIncludes spec current (index + 1) rest (extendFields extras (spec.extrasOf included))
        { state with includeMatched := state.includeMatched.set index true }
    else matchIncludes spec current (index + 1) rest extras state

/-- `expand_axis_rows` below the last axis. -/
def expandRow (spec : MatrixSpec N) (current : Row N) (state : ExpansionState N) :
    Option (ExpansionState N) := do
  let state ← state.spend
  let (excluded, state) ← excludedRow current spec.exclude state
  if excluded then return state
  let (extras, state) ← matchIncludes spec current 0 spec.include_ [] state
  state.push ⟨extendFields current extras, false⟩

/-- `expand_axis_rows`. -/
def expandAxisRows (spec : MatrixSpec N) : List (Text × List (Value N)) → Row N →
    ExpansionState N → Option (ExpansionState N)
  | [], current, state => expandRow spec current state
  | (axis, values) :: axes, current, state =>
    values.foldlM (fun state value =>
      expandAxisRows spec axes (insertField current axis value) state) state

/-- The includes that matched no row, as rows of their own. -/
def pushUnmatched : List (Row N × Bool) → ExpansionState N → Option (ExpansionState N)
  | [], state => some state
  | (included, matched) :: rest, state => do
    let state ← if matched then some state else state.push ⟨included, true⟩
    pushUnmatched rest state

/-- `expand_matrix_spec_bounded`. -/
def expandMatrixSpecBounded (spec : MatrixSpec N) : Option (List (MatrixCombination N)) := do
  let state : ExpansionState N := { includeMatched := spec.include_.map fun _ => false }
  let state ←
    if !spec.axes.isEmpty && spec.axes.all fun e => !e.2.isEmpty then
      expandAxisRows spec spec.axes [] state
    else some state
  let state ← pushUnmatched (spec.include_.zip state.includeMatched) state
  return state.expanded

/-- `try_expand_matrix_spec`. -/
def tryExpandMatrixSpec (jobId : Text) (spec : MatrixSpec N) :
    Except MatrixError (List (MatrixCombination N)) :=
  if spec.axes.isEmpty && maxMatrixCombinations < spec.include_.length then
    .error (.matrixTooLarge jobId maxMatrixCombinations)
  else if maxMatrixAxes < spec.axes.length then
    .error (.matrixTooLarge jobId maxMatrixCombinations)
  else match expandMatrixSpecBounded spec with
    | some rows => .ok rows
    | none => .error (.matrixTooLarge jobId maxMatrixCombinations)

/-! ## The reference -/

/-- The includes from the one at `index` on, without a limit: the extras of those that match, and
    the marks. -/
def mergeIncludes (spec : MatrixSpec N) (current : Row N) : Nat → List (Row N) → Row N →
    List Bool → Row N × List Bool
  | _, [], extras, matched => (extras, matched)
  | index, included :: rest, extras, matched =>
    if spec.includeMatches current included then
      mergeIncludes spec current (index + 1) rest (extendFields extras (spec.extrasOf included))
        (matched.set index true)
    else mergeIncludes spec current (index + 1) rest extras matched

/-- The loop over the axes. -/
def crossAxes : List (Text × List (Value N)) → List (Row N) → List (Row N)
  | [], rows => rows
  | (axis, values) :: axes, rows =>
    if values.isEmpty then []
    else crossAxes axes (rows.flatMap fun existing =>
      values.map fun value => insertField existing axis value)

/-- The product of the axes. -/
def crossProduct (spec : MatrixSpec N) : List (Row N) :=
  crossAxes spec.axes
    (if !spec.axes.isEmpty && spec.axes.all fun e => !e.2.isEmpty then [[]] else [])

/-- One row of the product, with its extras. -/
def mergeRow (spec : MatrixSpec N) (acc : List (MatrixCombination N) × List Bool)
    (row : Row N) : List (MatrixCombination N) × List Bool :=
  let merged := mergeIncludes spec row 0 spec.include_ [] acc.2
  (acc.1 ++ [⟨extendFields row merged.1, false⟩], merged.2)

/-- `expand_matrix_spec`. -/
def expandMatrixSpec (spec : MatrixSpec N) : List (MatrixCombination N) :=
  let rows := spec.exclude.foldl
    (fun rows excluded => rows.filter fun candidate => !matchesPartial candidate excluded)
    (crossProduct spec)
  let merged := rows.foldl (mergeRow spec) ([], spec.include_.map fun _ => false)
  merged.1 ++ ((spec.include_.zip merged.2).filter fun p => !p.2).map fun p => ⟨p.1, true⟩

end Expansion

/-! ## Specifications -/

/-- `Matrix`. -/
structure Matrix (N : Type) where
  include_ : List (Value N) := []
  exclude : List (Value N) := []
  axes : Row N := []

/-- `matrix_entry`. -/
def matrixEntry (jobId field : Text) : Value N → Except MatrixError (Row N)
  | .object fields => .ok fields
  | _ => .error (.invalidMatrixEntry jobId field)

/-- A scalar is an axis with one value. -/
def axisValues : Value N → List (Value N)
  | .array values => values
  | value => [value]

/-- `matrix_to_spec`. -/
def matrixToSpec (jobId : Text) (matrix : Matrix N) : Except MatrixError (MatrixSpec N) := do
  let exclude ← matrix.exclude.mapM (matrixEntry jobId "exclude".toList)
  let included ← matrix.include_.mapM (matrixEntry jobId "include".toList)
  return { axes := matrix.axes.map fun e => (e.1, axisValues e.2)
           exclude := exclude
           include_ := included }

/-- The rows of an `include` or `exclude`. -/
def matrixRows (jobId field : Text) : Value N → Except MatrixError (List (Row N))
  | .array items => items.mapM (matrixEntry jobId field)
  | _ => .error (.invalidMatrixEntry jobId field)

/-- The fields of `value_to_matrix_spec`, in order. -/
def specOfFields (jobId : Text) : List (Text × Value N) → MatrixSpec N →
    Except MatrixError (MatrixSpec N)
  | [], spec => .ok spec
  | (key, val) :: fields, spec =>
    if key = "include".toList then do
      let rows ← matrixRows jobId key val
      specOfFields jobId fields { spec with include_ := spec.include_ ++ rows }
    else if key = "exclude".toList then do
      let rows ← matrixRows jobId key val
      specOfFields jobId fields { spec with exclude := spec.exclude ++ rows }
    else specOfFields jobId fields { spec with axes := spec.axes ++ [(key, axisValues val)] }

/-- `value_to_matrix_spec`. The keys of an object are distinct, so that an axis is new. -/
def valueToMatrixSpec (jobId : Text) : Value N → Except MatrixError (MatrixSpec N)
  | .object fields => specOfFields jobId fields {}
  | _ => .error (.notMapping jobId)

end Matrices

end Preloop

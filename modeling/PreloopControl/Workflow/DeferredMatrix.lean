import PreloopControl.Workflow.Deferral

/-!
# Deferred Matrices

The cells of a matrix that had to wait for its needs (`resolve_deferred_matrix_cells` of
`expand.rs`). The matrix was put away as JSON behind a mark; now the JSON is read, its templates
are replaced by their values, and the value is made a specification and expanded.

Beside it stands what the matrix means when its templates are resolved where it is written: the
values take the place of the templates, an `include` or `exclude` written as one expression is
the list it evaluates to, as in `expand_matrix`, and the matrix is expanded.

## Main definitions

* `WrittenMatrix`: A matrix as it is read from a workflow.
* `resolveMatrixSpecTemplates`: Templates replaced by their values.
* `resolveDeferredMatrixCells`: The cells of a deferred matrix.
* `resolvedMatrix`, `staticMatrixCells`: The matrix with its templates resolved, and its cells.
-/

namespace Preloop

namespace Matrices

open Expressions Workflow Dependencies

variable {N F : Type}

/-! ## Matrices as written -/

/-- The names that are no axes. -/
def isReserved (name : Text) : Bool := name = "include".toList || name = "exclude".toList

/-- A matrix whose axes are what the flattened fields are: those that no other field took. -/
structure WrittenMatrix (N : Type) extends Matrix N where
  plain : ∀ e ∈ axes, isReserved e.1 = false

/-! ## Templates -/

/-- The errors of the resolution, with the data of their messages. -/
inductive CellsError
  | invalidTemplate (raw : Text)
  | json (message : Text)
  | matrix (e : MatrixError)

/-- The expression of a text that is one template. -/
def templateExpression (raw : Text) : Option Text :=
  (((Text.trim raw).dropPrefix? openMark).bind fun s => s.dropSuffix? closeMark).map Text.trim

section Resolve

variable (engine : Engine N F) (ctx : Context N)

/-- A text with a template in it. -/
def resolveTemplate (raw : Text) : Except CellsError (Value N) :=
  match templateExpression raw with
  | none => .error (.invalidTemplate raw)
  | some expression =>
    (evalExpression engine expression ctx).mapError fun e => .matrix (.expression e)

mutual

/-- `resolve_matrix_spec_templates`. -/
def resolveMatrixSpecTemplates : Value N → Except CellsError (Value N)
  | .string raw =>
    if Text.contains openMark raw then resolveTemplate engine ctx raw else .ok (.string raw)
  | .array values => (resolveItems values).map .array
  | .object values => (resolveFields values).map .object
  | value => .ok value

/-- The items of an array. -/
def resolveItems : List (Value N) → Except CellsError (List (Value N))
  | [] => .ok []
  | value :: values => do
    let first ← resolveMatrixSpecTemplates value
    let rest ← resolveItems values
    return first :: rest

/-- The fields of an object. -/
def resolveFields : List (Text × Value N) → Except CellsError (List (Text × Value N))
  | [] => .ok []
  | (key, value) :: fields => do
    let first ← resolveMatrixSpecTemplates value
    let rest ← resolveFields fields
    return (key, first) :: rest

end

/-! ## The static meaning -/

/-- The rows of an `include` or `exclude`; nothing where its one expression is null. -/
def resolvedRows (field : Text) : List (Value N) → Except CellsError (Option (List (Value N)))
  | [.string expression] =>
    (resolveRows engine ctx field [.string expression]).mapError .matrix
  | values => (resolveItems engine ctx values).map some

/-- A matrix with its templates resolved; nothing where an `include` or `exclude` is null. -/
def resolvedMatrix (matrix : Matrix N) : Except CellsError (Option (Matrix N)) := do
  let axes ← resolveFields engine ctx matrix.axes
  match ← resolvedRows engine ctx "include".toList matrix.include_ with
  | none => return none
  | some included =>
    match ← resolvedRows engine ctx "exclude".toList matrix.exclude with
    | none => return none
    | some excluded => return some { include_ := included, exclude := excluded, axes := axes }

end Resolve

section Cells

variable [BEq N]

/-- The cells of a specification. -/
def cellsOf (jobId : Text) (spec : Except MatrixError (MatrixSpec N)) :
    Except CellsError (List (Row N)) :=
  ((spec.bind fun spec => tryExpandMatrixSpec jobId spec).map fun rows =>
    rows.map (·.values)).mapError .matrix

/-- The cells of a matrix whose templates are resolved before it is expanded. -/
def staticMatrixCells (engine : Engine N F) (ctx : Context N) (jobId : Text) (matrix : Matrix N) :
    Except CellsError (List (Row N)) := do
  match ← resolvedMatrix engine ctx matrix with
  | none => return [[]]
  | some resolved => cellsOf jobId (matrixToSpec jobId resolved)

/-! ## The deferred path -/

/-- `callee_local_key`. -/
def calleeLocalKey (key : Text) : Text := (key.splitOn '/').getLastD []

/-- The outputs of the needs under the names the called workflow knows. -/
def needsMap (needsOutputs : List (Text × Row N)) : Row N :=
  needsOutputs.foldl (fun needs e =>
    insertField needs (calleeLocalKey e.1) (.object [("outputs".toList, .object e.2)])) []

/-- The context of the resolution. -/
def deferredContext (needsOutputs : List (Text × Row N)) (inputs : Option (Row N)) : Context N :=
  let needs : List (Text × Value N) := [(needsRoot, .object (needsMap needsOutputs))]
  { roots := Dict.ofList (needs ++ (inputs.map fun i => ("inputs".toList, .object i)).toList) }

/-- `DEFERRED_MATRIX_SPEC_PREFIX`. -/
def deferredMatrixSpecMark : Text := "__preloop_deferred_matrix_spec__:".toList

/-- The value of a deferred expression. -/
def deferredValue (engine : Engine N F) (ctx : Context N) (expression : Text) :
    Except CellsError (Value N) :=
  match expression.dropPrefix? deferredMatrixSpecMark with
  | some encoded => do
    let spec ← (engine.fromStr encoded).mapError .json
    resolveMatrixSpecTemplates engine ctx spec
  | none => (evalExpression engine expression ctx).mapError fun e => .matrix (.expression e)

/-- `resolve_deferred_matrix_cells`. -/
def resolveDeferredMatrixCells (engine : Engine N F) (jobId expression : Text)
    (needsOutputs : List (Text × Row N)) (inputs : Option (Row N)) :
    Except CellsError (List (Row N)) := do
  let value ← deferredValue engine (deferredContext needsOutputs inputs) expression
  cellsOf jobId (valueToMatrixSpec jobId value)

end Cells

end Matrices

end Preloop

import PreloopControl.Workflow.MatrixExpansion
import PreloopControl.Workflow.Validation

/-!
# What Is Left for Later

When a job message is built, its needs have not run and its work directory is not known, so
a value that reads them has to stay a template. Two tests decide: `resolves_after_job_build`
(`eval.rs`) parses the expressions of a value, but looks for the work directory in its text;
`expand_matrix` (`expand.rs`) looks for the needs in the texts of a matrix.

## Main definitions

* `resolvesAfterJobBuild`: The test of a value.
* `MatrixValue`, `matrixContainsNeedsExpression`: A matrix as written, and its test.
* `expandMatrixIn`, `expandMatrix`: The expansion of a matrix.
-/

namespace Preloop

namespace Workflow

open Expressions

variable {N F : Type}

/-! ## Values -/

/-- `needs`. -/
def needsRoot : Text := "needs".toList

/-- `github`. -/
def githubRoot : Text := "github".toList

/-- `workspace`. -/
def workspaceKey : Text := "workspace".toList

/-- The loop of `resolves_after_job_build`. -/
def resolvesLoop (num : Text → Option N) : Nat → Text → Bool
  | 0, _ => false
  | n + 1, rest =>
    match Text.cut openMark rest with
    | none => false
    | some (_, after) =>
      match findExpressionEnd false after with
      | none => false
      | some (body, rest) =>
        (match collectExpressionReferences num body with
          | .ok references => references.contexts.contains needsRoot
          | .error _ => Text.contains needsRoot (body.map Char.toLower)) || resolvesLoop num n rest

/-- `resolves_after_job_build`. -/
def resolvesAfterJobBuild (num : Text → Option N) (value : Text) : Bool :=
  Text.contains "github.workspace".toList value || resolvesLoop num value.length value

end Workflow

namespace Matrices

open Expressions Workflow

variable {N F : Type}

/-! ## Matrices -/

/-- `MatrixValue`. -/
inductive MatrixValue (N : Type)
  | static (matrix : Matrix N)
  | expression (expression : Text)

/-- `MatrixExpansion`, with its combinations as rows. -/
inductive Expansion (N : Type)
  | combinations (cells : List (Row N))
  | deferred (expression : Text)

/-- The test for `needs` in a text. -/
def mentionsNeeds (t : Text) : Bool :=
  Text.contains "needs.".toList t || Text.contains "needs[".toList t

mutual

/-- `contains` of `matrix_contains_needs_expression`. -/
def containsNeedsExpression : Value N → Bool
  | .string t => Text.contains openMark t && mentionsNeeds t
  | .array values => anyContainsNeeds values
  | .object fields => anyFieldContainsNeeds fields
  | _ => false

/-- Some element contains it. -/
def anyContainsNeeds : List (Value N) → Bool
  | [] => false
  | v :: vs => containsNeedsExpression v || anyContainsNeeds vs

/-- Some field contains it. -/
def anyFieldContainsNeeds : List (Text × Value N) → Bool
  | [] => false
  | (_, v) :: fields => containsNeedsExpression v || anyFieldContainsNeeds fields

end

/-- `matrix_contains_needs_expression`. -/
def matrixContainsNeedsExpression (matrix : Matrix N) : Bool :=
  anyFieldContainsNeeds matrix.axes || anyContainsNeeds matrix.include_ ||
    anyContainsNeeds matrix.exclude

/-- The matrix as a value, the way `Matrix` is serialized. -/
def Matrix.toValue (matrix : Matrix N) : Value N :=
  .object (("include".toList, .array matrix.include_) ::
    ("exclude".toList, .array matrix.exclude) :: matrix.axes)

/-- `encode_deferred_matrix_spec`. -/
def encodeDeferredMatrixSpec (engine : Engine N F) (matrix : Matrix N) : Text :=
  "__preloop_deferred_matrix_spec__:".toList ++ engine.jsonText matrix.toValue

/-- The rows of an `include` or `exclude` that is one expression; nothing if it is null. -/
def resolveRows (engine : Engine N F) (ctx : Context N) (field : Text) :
    List (Value N) → Except MatrixError (Option (List (Value N)))
  | [.string expression] => do
    match ← (evalExpression engine expression ctx).mapError .expression with
    | .null => return none
    | .array items => return some items
    | _ => throw (.notArray field)
  | values => return some values

section Expand

variable [BEq N] (engine : Engine N F)

/-- The rows of a specification. -/
def combinationsOf (jobId : Text) (spec : MatrixSpec N) : Except MatrixError (Expansion N) := do
  let rows ← tryExpandMatrixSpec jobId spec
  return .combinations (rows.map (·.values))

/-- The matrix of `expand_matrix` that is an expression. -/
def expandExpression (jobId expression : Text) (ctx : Context N) :
    Except MatrixError (Expansion N) :=
  if mentionsNeeds expression then .ok (.deferred expression)
  else do
    match ← (evalExpression engine expression ctx).mapError .expression with
    | .null => return .combinations []
    | value => combinationsOf jobId (← valueToMatrixSpec jobId value)

/-- The matrix of `expand_matrix` that is written out. -/
def expandStatic (jobId : Text) (matrix : Matrix N) (ctx : Context N) :
    Except MatrixError (Expansion N) :=
  if matrixContainsNeedsExpression matrix then
    .ok (.deferred (encodeDeferredMatrixSpec engine matrix))
  else do
    match ← resolveRows engine ctx "include".toList matrix.include_ with
    | none => return .combinations [[]]
    | some included =>
      match ← resolveRows engine ctx "exclude".toList matrix.exclude with
      | none => return .combinations [[]]
      | some excluded =>
        let spec ← matrixToSpec jobId { matrix with include_ := included, exclude := excluded }
        combinationsOf jobId spec

/-- `expand_matrix`, its expressions evaluated in a context. -/
def expandMatrixIn (jobId : Text) (matrix : Option (MatrixValue N)) (ctx : Context N) :
    Except MatrixError (Expansion N) :=
  match matrix with
  | none => .ok (.combinations [[]])
  | some (.static matrix) => expandStatic engine jobId matrix ctx
  | some (.expression expression) => expandExpression engine jobId expression ctx

/-- An input as a text, the way `github.event.inputs` has it. -/
def inputText : Value N → Text
  | .string s => s
  | .bool b => (if b then "true" else "false").toList
  | .null => []
  | other => engine.jsonText other

/-- `expression_context` without a matrix. -/
def expressionContext (inputs : Option (Row N)) (eventName : Option Text) : Context N :=
  let actualEvent := eventName.getD <|
    if inputs.any fun i => !i.isEmpty then "workflow_dispatch".toList else "push".toList
  let event : Row N := [("event_name".toList, .string actualEvent)]
  let empty : List (Text × Value N) := [("matrix".toList, .object [])]
  match inputs with
  | none => { roots := Dict.ofList (empty ++ [(githubRoot, .object event)]) }
  | some i =>
    let texts : Row N := i.map fun e => (e.1, .string (inputText engine e.2))
    let github := event ++ [("event".toList, .object [("inputs".toList, .object texts)])]
    { roots := Dict.ofList (empty ++ [("inputs".toList, .object i), (githubRoot, .object github)]) }

/-- `expand_matrix`. -/
def expandMatrix (jobId : Text) (matrix : Option (MatrixValue N)) (inputs : Option (Row N))
    (eventName : Option Text) : Except MatrixError (Expansion N) :=
  expandMatrixIn engine jobId matrix (expressionContext engine inputs eventName)

end Expand

end Matrices

end Preloop

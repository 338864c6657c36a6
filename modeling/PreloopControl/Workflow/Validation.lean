import PreloopControl.Workflow.Templates

/-!
# Validation of Expressions

What is checked of an expression before it is ever evaluated (`eval.rs`,
`evaluator.rs`, `dag.rs`): that it parses, that every function is known and takes so
many arguments, and that it refers to the contexts of its place only.

A place has an allow-list of specifications, each the name of a context or of a
function with the number of its arguments, as in `success(0,MAX)`. A condition
without an opening marker is checked as the expression it stands for; any other text
is checked span by span.

## Main definitions

* `validateExpression`: Parsing and arities.
* `collectExpressionReferences`: The contexts and functions of an expression.
* `validateContexts`: The references against an allow-list.
* `validateExpressionsInString`: A template or a condition.
* `validateJobCondition`: The check of a planned job.
-/

namespace Preloop

namespace Workflow

open Expressions

variable {N : Type}

/-! ## One expression -/

mutual

/-- `validate_function_calls`. -/
def validateFunctionCalls : Expr N → Result Unit
  | .literal _ => .ok ()
  | .path _ => .ok ()
  | .unaryNot inner => validateFunctionCalls inner
  | .memberAccess inner _ => validateFunctionCalls inner
  | .index base key => do
    validateFunctionCalls base
    validateFunctionCalls key
  | .binary _ left right => do
    validateFunctionCalls left
    validateFunctionCalls right
  | .call name args => do
    validateFunctionArity name args.length
    validateArguments args

/-- The arguments of a call, in order. -/
def validateArguments : List (Expr N) → Result Unit
  | [] => .ok ()
  | e :: es => do
    validateFunctionCalls e
    validateArguments es

end

/-- `validate_expression`. -/
def validateExpression (num : Text → Option N) (t : Text) : Result Unit := do
  let e ← parseExpression num (trimExpressionMarkers t)
  validateFunctionCalls e

/-! ## References -/

/-- `ContextFunctionCall`. -/
structure ContextFunctionCall where
  name : Text
  argumentCount : Nat

/-- `ExpressionReferences`; the contexts in the order they are found. -/
structure ExpressionReferences where
  contexts : List Text := []
  functions : List ContextFunctionCall := []

/-- The functions that depend on where an expression stands. -/
def isContextFunction (lower : Text) : Bool :=
  lower = "always".toList || lower = "success".toList || lower = "failure".toList ||
    lower = "cancelled".toList || lower = "hashfiles".toList

mutual

/-- `collect_expression_references_from_expr`. -/
def collectReferencesFromExpr (e : Expr N) (references : ExpressionReferences) :
    ExpressionReferences :=
  match e with
  | .literal _ => references
  | .path [] => references
  | .path (first :: _) =>
    { references with contexts := references.contexts ++ [first.map Char.toLower] }
  | .unaryNot inner => collectReferencesFromExpr inner references
  | .memberAccess inner _ => collectReferencesFromExpr inner references
  | .index base key => collectReferencesFromExpr key (collectReferencesFromExpr base references)
  | .binary _ left right =>
    collectReferencesFromExpr right (collectReferencesFromExpr left references)
  | .call name args =>
    let lower := name.map Char.toLower
    collectReferencesFromArgs args <|
      if isContextFunction lower then
        { contexts := references.contexts ++ [lower]
          functions := references.functions ++ [⟨lower, args.length⟩] }
      else references

/-- The arguments of a call, in order. -/
def collectReferencesFromArgs (args : List (Expr N)) (references : ExpressionReferences) :
    ExpressionReferences :=
  match args with
  | [] => references
  | e :: es => collectReferencesFromArgs es (collectReferencesFromExpr e references)

end

/-- `collect_expression_references`. -/
def collectExpressionReferences (num : Text → Option N) (t : Text) :
    Result ExpressionReferences := do
  let e ← parseExpression num (trimExpressionMarkers t)
  return collectReferencesFromExpr e {}

/-! ## Allow-lists -/

/-- What validation refuses, with the data of its messages. -/
inductive ValidationError
  | invalidCondition (input : Text) (e : ExpressionError)
  | unclosedExpression (input : Text)
  | invalidExpression (expr input : Text) (e : ExpressionError)
  | invalidReferences (input : Text) (e : ExpressionError)
  | contextNotAllowed (context : Text) (available : List Text)
  | invalidContract (spec : Text)
  | functionNotAllowed (name : Text) (argumentCount : Nat) (spec : Text)

/-- `context_spec_name`. -/
def contextSpecName (spec : Text) : Text :=
  match Text.cut ['('] spec with
  | none => spec
  | some (name, _) => name

/-- The bounds of a specification, between its parentheses. -/
def arityBounds (bounds : Text) : Option (Nat × Nat) := do
  let inner ← bounds.dropSuffix? [')']
  let (min, max) ← Text.cut [','] inner
  let min ← parseUsize min
  let max ← if Text.eqIgnoreAsciiCase max "MAX".toList then some (2 ^ 64 - 1) else parseUsize max
  return (min, max)

/-- `context_spec_arity`. -/
def contextSpecArity (spec : Text) : Except ValidationError (Option (Nat × Nat)) :=
  match Text.cut ['('] spec with
  | none => .ok none
  | some (_, bounds) =>
    match arityBounds bounds with
    | none => .error (.invalidContract spec)
    | some bounds => .ok (some bounds)

/-- `CTX_JOB_IF`. -/
def ctxJobIf : List Text :=
  ["github", "inputs", "vars", "needs", "always(0,0)", "failure(0,MAX)", "cancelled(0,0)",
    "success(0,MAX)"].map String.toList

/-- The specification is about this name. -/
def specMatches (name spec : Text) : Bool := Text.eqIgnoreAsciiCase (contextSpecName spec) name

/-- A call against the first specification of its function; without one it has been
    refused as a context. -/
def validateFunction (allowed : List Text) (function : ContextFunctionCall) :
    Except ValidationError Unit :=
  match allowed.find? (specMatches function.name) with
  | none => .ok ()
  | some spec => do
    match ← contextSpecArity spec with
    | none => return ()
    | some (min, max) =>
      if min ≤ function.argumentCount && function.argumentCount ≤ max then return ()
      else throw (.functionNotAllowed function.name function.argumentCount spec)

/-- `validate_contexts`. The contexts are a set in the source, and which of several
    unknown ones is reported is left open there. -/
def validateContexts (num : Text → Option N) (expr : Text) (allowedContexts : Option (List Text))
    (input : Text) : Except ValidationError Unit :=
  match allowedContexts with
  | none => .ok ()
  | some allowed => do
    let references ← (collectExpressionReferences num expr).mapError (.invalidReferences input)
    match references.contexts.find? fun ctx => !allowed.any (specMatches ctx) with
    | some ctx => throw (.contextNotAllowed ctx allowed)
    | none => references.functions.forM (validateFunction allowed)

/-! ## Texts -/

/-- The spans of `validate_expressions_in_string`. -/
def validateSpans (num : Text → Option N) (allowedContexts : Option (List Text)) (input : Text) :
    Nat → Text → Except ValidationError Unit
  | 0, _ => .ok ()
  | n + 1, remaining =>
    match Text.cut openMark remaining with
    | none => .ok ()
    | some (_, after) =>
      match findExpressionEnd false after with
      | none => .error (.unclosedExpression input)
      | some (span, rest) => do
        (validateExpression num (Text.trim span)).mapError
          (.invalidExpression (Text.trim span) input)
        validateContexts num (Text.trim span) allowedContexts input
        validateSpans num allowedContexts input n rest

/-- `validate_expressions_in_string`. -/
def validateExpressionsInString (num : Text → Option N) (input : Text) (isCondition : Bool)
    (allowedContexts : Option (List Text)) : Except ValidationError Unit :=
  if isCondition && !Text.contains openMark input then do
    (validateExpression num (effectiveCondition (some input))).mapError (.invalidCondition input)
    validateContexts num (effectiveCondition (some input)) allowedContexts input
  else validateSpans num allowedContexts input input.length input

/-- The condition of a job in `validate_job_plans`. -/
def validateJobCondition (num : Text → Option N) : Option Text → Result Unit
  | none => .ok ()
  | some condition => validateExpression num (effectiveCondition (some condition))

end Workflow

end Preloop

import PreloopControl.Expressions.Syntax

/-!
# Expression Evaluation

The evaluator (`evaluator.rs`), the contexts it reads (`context.rs`) and the
static collector of secret reads.

Every value that is produced is charged to a budget, so the evaluator is a
computation that carries the bytes used so far. The recursion guard counts down
the tree and is an argument.

What the evaluator takes from elsewhere is a parameter, `Engine`: floating-point
numbers, JSON text, the Unicode upper-case table and the file system.

## Main definitions

* `Engine`: Floats, JSON, Unicode and files.
* `Context`, `Context.resolve`: The roots an expression can read.
* `EvalM`, `charge`: Evaluation under the budget.
* `eval`, `evalExpression`: The evaluator.
* `SecretReads`, `collectSecretReadsFromExpr`: The collector.
-/

namespace Preloop

namespace Expressions

/-! ## What the evaluator is given -/

/-- Numbers `N` of JSON, floats `F`, and the operations on them; JSON text, the
    Unicode upper-case mapping, and the hash of the files a list of patterns
    matches below a workspace. -/
structure Engine (N F : Type) where
  parseNumber : Text → Option N
  numberText : N → Text
  asF64 : N → Option F
  zero : F
  one : F
  infinity : F
  negInfinity : F
  nan : F
  ofI32 : Int → F
  parseF64 : Text → Option F
  isNan : F → Bool
  floatEq : F → F → Bool
  partialCmp : F → F → Option Ordering
  toUppercase : Char → List Char
  jsonText : Value N → Text
  jsonPretty : Value N → Text
  fromStr : Text → Except Text (Value N)
  normalizeNewtonsoftJson : Text → Option Text
  hashMatches : Text → Bool → List Text → Result Text

variable {N F : Type}

/-! ## Contexts -/

/-- The field of an object. -/
def getField (fields : List (Text × Value N)) (k : Text) : Option (Value N) :=
  (fields.find? fun e => e.1 = k).map (·.2)

/-- The number a text of digits in some radix denotes. -/
def digitsValue (radix : Nat) (digit : Char → Option Nat) (t : Text) : Option Nat :=
  if t = [] then none
  else t.foldlM (fun acc c => (digit c).map (acc * radix + ·)) 0

/-- A decimal digit. -/
def decimalDigit (c : Char) : Option Nat := if c.isDigit then some (c.toNat - '0'.toNat) else none

/-- `str::parse::<usize>`. -/
def parseUsize (t : Text) : Option Nat :=
  let digits := match t with
    | '+' :: t => t
    | t => t
  (digitsValue 10 decimalDigit digits).filter (· < 2 ^ 64)

/-- The element of an array under a text that reads as an index. -/
def elementAt (items : List (Value N)) (segment : Text) : Option (Value N) :=
  (parseUsize segment).bind fun i => items[i]?

/-- One segment of a path: the object filter, a field, or a projection over the
    elements of an array. -/
def Value.member (current : Value N) (segment : Text) : Value N :=
  if segment = "*".toList then
    match current with
    | .object fields => .array (fields.map (·.2))
    | .array items => .array items
    | _ => .null
  else
    match current with
    | .object fields => (getField fields segment).getD .null
    | .array items => .array <| items.filterMap fun
        | .object fields => getField fields segment
        | .array inner => elementAt inner segment
        | _ => none
    | _ => .null

/-- `Context::resolve_value`. -/
def resolveValue (current : Value N) (path : List Text) : Value N := path.foldl Value.member current

/-- `Context`. -/
structure Context (N : Type) where
  roots : Dict (Value N) := ∅
  success : Bool := true
  failure : Bool := false
  cancelled : Bool := false
  workspaceDir : Option Text := none

namespace Context

/-- `Context::resolve`. -/
def resolve (ctx : Context N) : List Text → Value N
  | [] => .null
  | first :: rest => resolveValue ((ctx.roots.lookup first).getD .null) rest

/-- The value below `current` along plain field names. -/
def refBelow (current : Value N) : List Text → Option (Value N)
  | [] => some current
  | segment :: rest =>
    if segment = "*".toList then none
    else match current with
      | .object fields => (getField fields segment).bind fun v => refBelow v rest
      | _ => none

/-- `Context::resolve_ref`. -/
def resolveRef (ctx : Context N) : List Text → Option (Value N)
  | [] => none
  | first :: rest => (ctx.roots.lookup first).bind fun v => refBelow v rest

end Context

/-! ## Budget -/

mutual

/-- `value_size`. -/
def valueSize : Value N → Nat
  | .null => 16
  | .bool _ => 16
  | .number _ => 32
  | .string s => 24 + Text.utf8Len s
  | .array items => 24 + itemsSize items
  | .object fields => fieldsSize fields

/-- The elements of an array. -/
def itemsSize : List (Value N) → Nat
  | [] => 0
  | v :: vs => 16 + valueSize v + itemsSize vs

/-- The fields of an object. -/
def fieldsSize : List (Text × Value N) → Nat
  | [] => 0
  | (k, v) :: fs => 32 + Text.utf8Len k + valueSize v + fieldsSize fs

end

/-- `MAX_EVALUATED_VALUE_BYTES`. -/
def maxEvaluatedValueBytes : Nat := 8 * 1024 * 1024

/-- The error of an exhausted budget. -/
def tooLarge : ExpressionError := .evaluationTooLarge maxEvaluatedValueBytes

/-- A computation that carries the bytes used so far, `EvalBudget::used_bytes`. -/
abbrev EvalM := StateT Nat Result

/-- `EvalBudget::charge`. -/
def charge (value : Value N) : EvalM Unit := fun used =>
  if maxEvaluatedValueBytes < used + valueSize value then .error tooLarge
  else .ok ((), used + valueSize value)

/-- A function of `EvalBudget::remaining`. -/
def withRemaining {α : Type} (f : Nat → Result α) : EvalM α := fun used =>
  (f (maxEvaluatedValueBytes - used)).map fun a => (a, used)

/-! ## Values as booleans, numbers and texts -/

section Coercions

variable (engine : Engine N F)

/-- `is_truthy`. -/
def isTruthy : Value N → Bool
  | .null => false
  | .bool b => b
  | .number n =>
    (engine.asF64 n).any fun f => !engine.floatEq f engine.zero && !engine.isNan f
  | .string s => !s.isEmpty
  | .array _ => true
  | .object _ => true

/-- `string_value`. -/
def stringValue : Value N → Text
  | .null => []
  | .bool b => (if b then "true" else "false").toList
  | .number n => engine.numberText n
  | .string s => s
  | other => engine.jsonText other

/-- A digit in radix 8 or 16. -/
def radixDigit (radix : Nat) (c : Char) : Option Nat :=
  let value :=
    if c.isDigit then some (c.toNat - '0'.toNat)
    else if c.toLower.isLower then some (c.toLower.toNat - 'a'.toNat + 10)
    else none
  value.filter (· < radix)

/-- `i32::from_str_radix`. -/
def parseI32 (radix : Nat) (t : Text) : Option Int :=
  let signed : Option Int := match t with
    | '-' :: t => (digitsValue radix (radixDigit radix) t).map fun n => -(n : Int)
    | '+' :: t => (digitsValue radix (radixDigit radix) t).map fun n => (n : Int)
    | t => (digitsValue radix (radixDigit radix) t).map fun n => (n : Int)
  signed.filter fun n => -2 ^ 31 ≤ n && n < 2 ^ 31

/-- The exponent of a decimal number, or nothing at all. -/
def isExponent : Text → Bool
  | [] => true
  | c :: t =>
    if c = 'e' || c = 'E' then
      let digits := match t with
        | '+' :: t => t
        | '-' :: t => t
        | t => t
      digits ≠ [] && digits.all Char.isDigit
    else false

/-- `is_decimal_number`. -/
def isDecimalNumber (t : Text) : Bool :=
  let t := match t with
    | '+' :: t => t
    | '-' :: t => t
    | t => t
  let whole := t.takeWhile Char.isDigit
  let (fraction, rest) := match t.dropWhile Char.isDigit with
    | '.' :: t => (t.takeWhile Char.isDigit, t.dropWhile Char.isDigit)
    | t => ([], t)
  (whole ≠ [] || fraction ≠ []) && isExponent rest

/-- `parse_number`. -/
def parseNumberText (t : Text) : F :=
  let t := Text.trim t
  if t = [] then engine.zero
  else if t = "Infinity".toList then engine.infinity
  else if t = "-Infinity".toList then engine.negInfinity
  else match t with
    | '0' :: 'x' :: hex => ((parseI32 16 hex).map engine.ofI32).getD engine.nan
    | '0' :: 'o' :: octal => ((parseI32 8 octal).map engine.ofI32).getD engine.nan
    | t => if isDecimalNumber t then (engine.parseF64 t).getD engine.nan else engine.nan

/-- `numeric_value`. -/
def numericValue : Value N → Option F
  | .number n => engine.asF64 n
  | .string s => some (parseNumberText engine s)
  | .bool true => some engine.one
  | .bool false => some engine.zero
  | .null => some engine.zero
  | _ => none

/-! ## Comparison -/

/-- `to_simple_upper`. -/
def toSimpleUpper (c : Char) : Char :=
  match engine.toUppercase c with
  | [mapped] => mapped
  | _ => c

/-- All characters are ASCII. -/
def isAscii (t : Text) : Bool := t.all fun c => c.toNat < 128

/-- Both texts in upper case, the way the ordinal comparisons read them. -/
def upperPair (left right : Text) : Text × Text :=
  if isAscii left && isAscii right then (left.map Char.toUpper, right.map Char.toUpper)
  else (left.map (toSimpleUpper engine), right.map (toSimpleUpper engine))

/-- Character by character. -/
def compareTexts : Text → Text → Ordering
  | [], [] => .eq
  | _ :: _, [] => .gt
  | [], _ :: _ => .lt
  | a :: s, b :: t => (compare a.toNat b.toNat).then (compareTexts s t)

/-- `compare_ordinal_ignore_case`. -/
def compareOrdinalIgnoreCase (left right : Text) : Ordering :=
  compareTexts (upperPair engine left right).1 (upperPair engine left right).2

/-- `starts_with_ordinal_ignore_case`. -/
def startsWithOrdinalIgnoreCase (haystack needle : Text) : Bool :=
  (upperPair engine haystack needle).2.isPrefixOf (upperPair engine haystack needle).1

/-- `ends_with_ordinal_ignore_case`. -/
def endsWithOrdinalIgnoreCase (haystack needle : Text) : Bool :=
  (upperPair engine haystack needle).2.isSuffixOf (upperPair engine haystack needle).1

/-- `contains_ordinal_ignore_case`. -/
def containsOrdinalIgnoreCase (haystack needle : Text) : Bool :=
  Text.contains (upperPair engine haystack needle).2 (upperPair engine haystack needle).1

/-- `abstract_equal`. Containers are compared by address, and two operands are
    never the same object. -/
def abstractEqual : Value N → Value N → Bool
  | .null, .null => true
  | .bool l, .bool r => l == r
  | .number l, .number r =>
    match engine.asF64 l, engine.asF64 r with
    | some l, some r => engine.floatEq l r
    | none, none => true
    | _, _ => false
  | .string l, .string r => compareOrdinalIgnoreCase engine l r == .eq
  | .array _, _ => false
  | .object _, _ => false
  | _, .array _ => false
  | _, .object _ => false
  | l, r =>
    match numericValue engine l, numericValue engine r with
    | some l, some r => !engine.isNan l && !engine.isNan r && engine.floatEq l r
    | _, _ => false

/-- `compare_values`. -/
def compareValues (left right : Value N) (predicate : Ordering → Bool) : Bool :=
  match left, right with
  | .string l, .string r => predicate (compareOrdinalIgnoreCase engine l r)
  | _, _ =>
    match numericValue engine left, numericValue engine right with
    | some l, some r => (engine.partialCmp l r).any predicate
    | _, _ =>
      predicate (compareOrdinalIgnoreCase engine (stringValue engine left)
        (stringValue engine right))

/-- `combine_binary`. -/
def combineBinary (op : BinaryOp) (left right : Value N) : Value N :=
  match op with
  | .or => right
  | .and => right
  | .eq => .bool (abstractEqual engine left right)
  | .ne => .bool (!abstractEqual engine left right)
  | .gt => .bool (compareValues engine left right (· == .gt))
  | .ge => .bool (compareValues engine left right (· != .lt))
  | .lt => .bool (compareValues engine left right (· == .lt))
  | .le => .bool (compareValues engine left right (· != .gt))

/-- `contains`. -/
def containsValue (haystack needle : Value N) : Bool :=
  match haystack with
  | .string s => containsOrdinalIgnoreCase engine s (stringValue engine needle)
  | .array items => items.any fun v => abstractEqual engine v needle
  | _ => false

end Coercions

/-! ## Functions -/

section Functions

variable (engine : Engine N F)

/-- `function_arity`, by the name in lower case. -/
def functionArity (name : Text) : Option (Nat × Nat) :=
  if name = "always".toList || name = "cancelled".toList then some (0, 0)
  else if name = "success".toList || name = "failure".toList then some (0, 255)
  else if name = "contains".toList || name = "startswith".toList || name = "endswith".toList then
    some (2, 2)
  else if name = "format".toList then some (1, 255)
  else if name = "fromjson".toList || name = "tojson".toList then some (1, 1)
  else if name = "join".toList then some (1, 2)
  else if name = "hashfiles".toList then some (1, 255)
  else if name = "case".toList then some (3, 255)
  else none

/-- `validate_function_arity`. -/
def validateFunctionArity (name : Text) (actual : Nat) : Result Unit :=
  match functionArity (name.map Char.toLower) with
  | none => .error (.unknownFunction name)
  | some (min, max) =>
    if name.map Char.toLower = "case".toList && actual % 2 = 0 then .error .evenCaseParameters
    else if min ≤ actual && actual ≤ max then .ok ()
    else .error (.invalidFunctionArity name min max actual)

/-- `is_primitive`. -/
def isPrimitive : Value N → Bool
  | .array _ => false
  | .object _ => false
  | _ => true

/-- `string_value_bounded`: only the text of a container is bounded. -/
def stringValueBounded (value : Value N) (limit : Nat) (overflow : ExpressionError) : Result Text :=
  if isPrimitive value then .ok (stringValue engine value)
  else if Text.utf8Len (engine.jsonText value) ≤ limit then .ok (engine.jsonText value)
  else .error overflow

/-- `push_evaluation_capped`. -/
def pushEvaluationCapped (remaining : Nat) (output segment : Text) : Result Text :=
  if remaining - Text.utf8Len output < Text.utf8Len segment then .error tooLarge
  else .ok (output ++ segment)

/-- `MAX_FORMAT_OUTPUT_BYTES`. -/
def maxFormatOutputBytes : Nat := 1024 * 1024

/-- The error of an oversized `format()`. -/
def formatTooLarge : ExpressionError := .formatOutputTooLarge maxFormatOutputBytes

/-- `push_format_capped`. -/
def pushFormatCapped (remaining : Nat) (output segment : Text) : Result Text :=
  if maxFormatOutputBytes - Text.utf8Len output < Text.utf8Len segment then .error formatTooLarge
  else pushEvaluationCapped remaining output segment

/-- An opening brace. -/
def lbrace : Char := Char.ofNat 123

/-- A closing brace. -/
def rbrace : Char := Char.ofNat 125

/-- The argument a `format()` placeholder names, after its brace: the value and
    the text after the closing brace. -/
def placeholder (values : List (Value N)) (t : Text) : Option (Value N × Text) :=
  match t.dropWhile Char.isDigit with
  | [] => none
  | c :: rest =>
    if c = rbrace then
      ((digitsValue 10 decimalDigit (t.takeWhile Char.isDigit)).filter (· < 256)).bind fun i =>
        (values[i + 1]?).map fun v => (v, rest)
    else none

/-- The loop of `format_args`; `segment` is the literal text not yet pushed. -/
def formatLoop (format : Text) (values : List (Value N)) (remaining : Nat) :
    Nat → Text → Text → Text → Result Text
  | 0, output, segment, _ => pushFormatCapped remaining output segment
  | _, output, segment, [] => pushFormatCapped remaining output segment
  | n + 1, output, segment, c :: t =>
    if c = lbrace then do
      let output ← pushFormatCapped remaining output segment
      if t.head? = some lbrace then
        let output ← pushFormatCapped remaining output [lbrace]
        formatLoop format values remaining n output [] t.tail
      else match placeholder values t with
        | none => .error (.invalidFormat format)
        | some (value, rest) =>
          let rendered ← stringValueBounded engine value
            (maxFormatOutputBytes - Text.utf8Len output) formatTooLarge
          let output ← pushFormatCapped remaining output rendered
          formatLoop format values remaining n output [] rest
    else if c = rbrace then do
      let output ← pushFormatCapped remaining output segment
      if t.head? = some rbrace then
        let output ← pushFormatCapped remaining output [rbrace]
        formatLoop format values remaining n output [] t.tail
      else .error (.invalidFormat format)
    else formatLoop format values remaining n output (segment ++ [c]) t

/-- `format_args`. -/
def formatArgs (values : List (Value N)) (remaining : Nat) : Result Text := do
  let format ← stringValueBounded engine (values.headD .null) maxFormatOutputBytes formatTooLarge
  formatLoop engine format values remaining format.length [] [] format

/-- The elements of `join_args` after the first. -/
def joinRest (separator : Text) (remaining : Nat) : Text → List (Value N) → Result Text
  | output, [] => .ok output
  | output, v :: vs => do
    let output ← pushEvaluationCapped remaining output separator
    let rendered ← stringValueBounded engine v (remaining - Text.utf8Len output) tooLarge
    let output ← pushEvaluationCapped remaining output rendered
    joinRest separator remaining output vs

/-- The separator of `join_args`: a comma unless a primitive is given. -/
def joinSeparator (values : List (Value N)) (remaining : Nat) : Result Text :=
  match values[1]? with
  | some v => if isPrimitive v then stringValueBounded engine v remaining tooLarge else .ok [',']
  | none => .ok [',']

/-- The operand of `join_args`: only an array is joined. -/
def joinItems (separator : Text) (remaining : Nat) : Option (Value N) → Result Text
  | some (.array []) => .ok []
  | some (.array (v :: vs)) => do
    let rendered ← stringValueBounded engine v remaining tooLarge
    let output ← pushEvaluationCapped remaining [] rendered
    joinRest engine separator remaining output vs
  | some v =>
    if isPrimitive v then do
      let rendered ← stringValueBounded engine v remaining tooLarge
      pushEvaluationCapped remaining [] rendered
    else .ok []
  | none => .ok []

/-- `join_args`. -/
def joinArgs (values : List (Value N)) (remaining : Nat) : Result Text := do
  let separator ← joinSeparator engine values remaining
  joinItems engine separator remaining values.head?

/-- `to_json_pretty`. -/
def toJsonPretty (value : Value N) (remaining : Nat) : Result Text :=
  if Text.utf8Len (engine.jsonPretty value) ≤ remaining then .ok (engine.jsonPretty value)
  else .error tooLarge

/-- `from_json_lenient`. -/
def fromJsonLenient (input : Text) : Result (Value N) :=
  match engine.fromStr input with
  | .ok value => .ok value
  | .error strict =>
    match (engine.normalizeNewtonsoftJson input).map engine.fromStr with
    | some (.ok value) => .ok value
    | _ => .error (.invalidJson strict)

/-- `hash_files`: the leading option is read off the patterns. -/
def hashFiles (values : List (Value N)) (ctx : Context N) : Result Text :=
  match ctx.workspaceDir with
  | none => .ok []
  | some workspace =>
    match (values.map (stringValue engine)).filter (· ≠ []) with
    | [] => engine.hashMatches workspace false []
    | first :: patterns =>
      if "--".toList.isPrefixOf first then
        if Text.eqIgnoreAsciiCase first "--follow-symbolic-links".toList then
          engine.hashMatches workspace true patterns
        else .error (.invalidHashFilesOption first)
      else engine.hashMatches workspace false (first :: patterns)

/-- `string_arg`. -/
def stringArg (values : List (Value N)) (i : Nat) : Text :=
  ((values[i]?).map (stringValue engine)).getD []

/-- The functions of `eval_call` on evaluated arguments. -/
def callFunction (name : Text) (values : List (Value N)) (ctx : Context N) : EvalM (Value N) :=
  let lower := name.map Char.toLower
  if lower = "always".toList then return .bool true
  else if lower = "success".toList then return .bool ctx.success
  else if lower = "failure".toList then return .bool ctx.failure
  else if lower = "cancelled".toList then return .bool ctx.cancelled
  else if lower = "contains".toList then
    return .bool (match values with
      | haystack :: needle :: _ => containsValue engine haystack needle
      | _ => false)
  else if lower = "startswith".toList then
    return .bool (startsWithOrdinalIgnoreCase engine (stringArg engine values 0)
      (stringArg engine values 1))
  else if lower = "endswith".toList then
    return .bool (endsWithOrdinalIgnoreCase engine (stringArg engine values 0)
      (stringArg engine values 1))
  else if lower = "format".toList then .string <$> withRemaining (formatArgs engine values)
  else if lower = "fromjson".toList then
    withRemaining fun _ => fromJsonLenient engine (stringArg engine values 0)
  else if lower = "join".toList then .string <$> withRemaining (joinArgs engine values)
  else if lower = "hashfiles".toList then
    .string <$> withRemaining fun _ => hashFiles engine values ctx
  else if lower = "tojson".toList then
    .string <$> withRemaining (toJsonPretty engine (values.headD .null))
  else throw (.unknownFunction name)

end Functions

/-! ## The evaluator -/

section Evaluator

variable (engine : Engine N F) (ctx : Context N)

/-- The element or field `eval_index` reads. -/
def indexValue (base : Value N) (key : Text) : Value N :=
  match base with
  | .object fields => (getField fields key).getD .null
  | .array items => (elementAt items key).getD .null
  | _ => .null

/-- The paths of `eval_inner`: a borrowed value is charged, then a resolved one. -/
def evalPath (path : List Text) : EvalM (Value N) := do
  let value := (ctx.resolveRef path).getD (ctx.resolve path)
  charge value
  return value

/-- The recursion guard of `eval`, below `depth` open evaluations. -/
def enterEval (depth : Nat) : EvalM Unit :=
  if maxExpressionDepth < depth + 1 then throw tooDeep else return ()

/-- The value of a node is charged when it is done. -/
def charged (x : EvalM (Value N)) : EvalM (Value N) := do
  let value ← x
  charge value
  return value

mutual

/-- `eval` and `eval_inner`, below `depth` open evaluations. -/
def eval (depth : Nat) : Expr N → EvalM (Value N)
  | .literal value => do
    enterEval depth
    charge value
    return value
  | .path path => do
    enterEval depth
    evalPath ctx path
  | .unaryNot e => do
    enterEval depth
    charged do
      let value ← eval (depth + 1) e
      return .bool (!isTruthy engine value)
  | .binary op left right => do
    enterEval depth
    charged do
      let l ← eval (depth + 1) left
      -- short-circuiting must not evaluate the right operand
      if op = .or && isTruthy engine l then return l
      else if op = .and && !isTruthy engine l then return l
      else
        let r ← eval (depth + 1) right
        return combineBinary engine op l r
  | .call name args => do
    enterEval depth
    charged do
      (validateFunctionArity name args.length : Result Unit)
      if name.map Char.toLower = "case".toList then evalCase (depth + 1) args
      else
        let values ← evalArgs (depth + 1) args
        callFunction engine name values ctx
  | .memberAccess e path => do
    enterEval depth
    charged do
      let base ← eval (depth + 1) e
      return resolveValue base path
  | .index base key => do
    enterEval depth
    charged do
      let b ← eval (depth + 1) base
      let k ← eval (depth + 1) key
      return indexValue b (stringValue engine k)

/-- The arguments, in order. -/
def evalArgs (depth : Nat) : List (Expr N) → EvalM (List (Value N))
  | [] => return []
  | e :: es => do
    let v ← eval depth e
    let vs ← evalArgs depth es
    return v :: vs

/-- The pairs of `case`, read lazily; the last argument is the default. -/
def evalCase (depth : Nat) : List (Expr N) → EvalM (Value N)
  | [] => return .null
  | [default] => eval depth default
  | predicate :: result :: rest => do
    match ← eval depth predicate with
    | .bool true => eval depth result
    | .bool false => evalCase depth rest
    | _ => throw .nonBooleanCasePredicate

end

/-- `eval` on a fresh budget. -/
def evalFresh (e : Expr N) : Result (Value N) := (eval engine ctx 0 e 0).map (·.1)

end Evaluator

/-! ## Secret reads -/

/-- `SecretReads`. -/
structure SecretReads where
  names : Finset Text := ∅
  dynamic : Bool := false

/-- The root of the secrets. -/
def secretsRoot : Text := "secrets".toList

/-- The bare `secrets` context, in any case. -/
def isSecretsContext : Expr N → Bool
  | .path [first] => Text.eqIgnoreAsciiCase first secretsRoot
  | _ => false

/-- The name a literal key spells. -/
def literalName : Expr N → Option Text
  | .literal (.string name) => some name
  | _ => none

mutual

/-- `collect_secret_reads_from_expr`. -/
def collectSecretReadsFromExpr (e : Expr N) (reads : SecretReads) : SecretReads :=
  match e with
  | .path [] => reads
  | .path (first :: rest) =>
    if Text.eqIgnoreAsciiCase first secretsRoot then
      match rest with
      | [] => { reads with dynamic := true }
      | segment :: _ =>
        if segment = "*".toList then { reads with dynamic := true }
        else { reads with names := insert segment reads.names }
    else reads
  | .literal _ => reads
  | .unaryNot inner => collectSecretReadsFromExpr inner reads
  | .memberAccess inner _ => collectSecretReadsFromExpr inner reads
  | .index base key =>
    match isSecretsContext base, literalName key with
    | true, some name => { reads with names := insert name reads.names }
    | true, none => collectSecretReadsFromExpr key { reads with dynamic := true }
    | false, _ => collectSecretReadsFromExpr key (collectSecretReadsFromExpr base reads)
  | .binary _ left right =>
    collectSecretReadsFromExpr right (collectSecretReadsFromExpr left reads)
  | .call _ args => collectSecretReadsFromArgs args reads

/-- The arguments of a call, in order. -/
def collectSecretReadsFromArgs (args : List (Expr N)) (reads : SecretReads) : SecretReads :=
  match args with
  | [] => reads
  | e :: es => collectSecretReadsFromArgs es (collectSecretReadsFromExpr e reads)

end

end Expressions

end Preloop

import PreloopControl.Lib.Text

/-!
# Expression Syntax

The expression language of workflow files (`preloop-gha-expressions`): values,
tokens, syntax trees, the lexer (`lexer.rs`) and the recursive-descent parser
(`expr_parser.rs`).

The parser never indexes the token vector. What is left of the tokens is passed
along, and rewinding after a malformed member suffix is going back to an earlier
rest. The recursion counter of `enter` is the number of levels still allowed, so
the recursion of the parser is structural in it: at zero levels `enter` refuses.
The loops run on a fuel that starts at the number of tokens left. Every round
consumes a token, so the loops end before the fuel does.

JSON numbers are a type variable; reading one from its digits is a parameter.

## Main definitions

* `Value`, `Token`, `Expr`: JSON values, tokens and syntax trees.
* `lex`: The lexer.
* `parseTokens`, `parseExpression`: The parser, and both together.
-/

namespace Preloop

namespace Expressions

/-! ## Values, tokens, trees -/

/-- `serde_json::Value`; the fields of an object in the order of their keys. -/
inductive Value (N : Type)
  | null
  | bool (b : Bool)
  | number (n : N)
  | string (s : Text)
  | array (items : List (Value N))
  | object (fields : List (Text × Value N))

/-- `Token`. -/
inductive Token
  | ident (name : Text)
  | string (s : Text)
  | number (digits : Text)
  | bool (b : Bool)
  | null
  | dot
  | comma
  | lparen
  | rparen
  | lbracket
  | rbracket
  | star
  | bang
  | and
  | or
  | eq
  | ne
  | gt
  | ge
  | lt
  | le
  | eof
deriving DecidableEq, Repr

/-- `BinaryOp`. -/
inductive BinaryOp
  | or
  | and
  | eq
  | ne
  | gt
  | ge
  | lt
  | le
deriving DecidableEq, Repr

/-- `Expr`. -/
inductive Expr (N : Type)
  | literal (value : Value N)
  | path (segments : List Text)
  | unaryNot (expr : Expr N)
  | binary (op : BinaryOp) (left right : Expr N)
  | call (name : Text) (args : List (Expr N))
  | memberAccess (expr : Expr N) (path : List Text)
  | index (base key : Expr N)

/-- `ExpressionError`. `Unexpected` carries a character of the text or a token,
    which the source prints in its `Debug` form. -/
inductive ExpressionError
  | eof
  | unexpected (text : Text)
  | unexpectedToken (token : Token)
  | unknownFunction (name : Text)
  | invalidFunctionArity (name : Text) (min max actual : Nat)
  | evenCaseParameters
  | nonBooleanCasePredicate
  | invalidFormat (format : Text)
  | invalidHashFilesOption (option : Text)
  | hashFilesTooManyFiles (limit : Nat)
  | hashFilesTraversalLimit (limit : Nat)
  | hashFilesTooLarge (limit : Nat)
  | hashFilesDisallowedPattern (pattern : Text)
  | formatOutputTooLarge (limit : Nat)
  | evaluationTooLarge (limit : Nat)
  | tooDeep (limit : Nat)
  | invalidJson (message : Text)
deriving DecidableEq, Repr

/-- Either a result or the error that stopped the reading. -/
abbrev Result := Except ExpressionError

/-- `MAX_EXPRESSION_DEPTH`. -/
def maxExpressionDepth : Nat := 128

/-! ## Lexer -/

/-- The single quote. -/
def quote : Char := Char.ofNat 39

/-- `Lexer::string`, after the opening quote: the literal and what follows it.
    A doubled quote is an escaped one. -/
def lexString : Text → Result (Text × Text)
  | [] => .error .eof
  | c :: t =>
    if c = quote then
      match t with
      | [] => .ok ([], [])
      | c' :: t' =>
        if c' = quote then (lexString t').map fun p => (quote :: p.1, p.2) else .ok ([], c' :: t')
    else (lexString t).map fun p => (c :: p.1, p.2)

/-- Characters of a number. -/
def numeric (c : Char) : Bool := c.isDigit || c = '.'

/-- Characters that may start an identifier. -/
def identStart (c : Char) : Bool := c.isAlpha || c = '_'

/-- Characters of an identifier. -/
def identPart (c : Char) : Bool := c.isAlphanum || c = '_' || c = '-'

/-- The token of a word. -/
def wordToken (word : Text) : Token :=
  let lower := word.map Char.toLower
  if lower = "true".toList then .bool true
  else if lower = "false".toList then .bool false
  else if lower = "null".toList then .null
  else .ident word

/-- A token of one character, or of two if `next` follows. -/
def twoChar (next : Char) (long short : Token) (t : Text) : Token × Text :=
  match t with
  | [] => (short, [])
  | c :: t' => if c = next then (long, t') else (short, c :: t')

/-- A token that needs its second character. -/
def doubled (c : Char) (token : Token) (t : Text) : Result (Option Token × Text) :=
  match t with
  | [] => .error (.unexpected [c])
  | c' :: t' => if c' = c then .ok (some token, t') else .error (.unexpected [c])

/-- The single-character tokens. -/
def punctuation (c : Char) : Option Token :=
  if c = '.' then some .dot
  else if c = ',' then some .comma
  else if c = '(' then some .lparen
  else if c = ')' then some .rparen
  else if c = '*' then some .star
  else if c = '[' then some .lbracket
  else if c = ']' then some .rbracket
  else none

/-- One round of `Lexer::lex`: the token that starts at `c`, if any, and the
    text after it. -/
def lexStep (c : Char) (t : Text) : Result (Option Token × Text) :=
  if Text.isWhitespace c then .ok (none, t)
  else if c = quote then (lexString t).map fun p => (some (.string p.1), p.2)
  else if c.isDigit then
    .ok (some (.number ((c :: t).takeWhile numeric)), (c :: t).dropWhile numeric)
  else if identStart c then
    .ok (some (wordToken ((c :: t).takeWhile identPart)), (c :: t).dropWhile identPart)
  else if c = '!' then .ok (some (twoChar '=' .ne .bang t).1, (twoChar '=' .ne .bang t).2)
  else if c = '=' then doubled '=' .eq t
  else if c = '>' then .ok (some (twoChar '=' .ge .gt t).1, (twoChar '=' .ge .gt t).2)
  else if c = '<' then .ok (some (twoChar '=' .le .lt t).1, (twoChar '=' .le .lt t).2)
  else if c = '&' then doubled '&' .and t
  else if c = '|' then doubled '|' .or t
  else match punctuation c with
    | some token => .ok (some token, t)
    | none => .error (.unexpected [c])

/-- The loop of `Lexer::lex`. -/
def lexLoop : Nat → Text → Result (List Token)
  | 0, _ => .ok [.eof]
  | _, [] => .ok [.eof]
  | n + 1, c :: t => do
    let (token, rest) ← lexStep c t
    let tokens ← lexLoop n rest
    return token.toList ++ tokens

/-- `Lexer::lex`. -/
def lex (t : Text) : Result (List Token) := lexLoop t.length t

/-! ## Parser -/

section Parser

variable {N : Type}

/-- `ParsedExpr`: a tree with its depth. -/
structure ParsedExpr (N : Type) where
  expr : Expr N
  depth : Nat

/-- A parsed tree and the tokens after it. -/
abbrev Parsed (N : Type) := ParsedExpr N × List Token

/-- The error of `enter` and `node_depth`. -/
def tooDeep : ExpressionError := .tooDeep maxExpressionDepth

/-- `Parser::current`. -/
def current : List Token → Token
  | [] => .eof
  | token :: _ => token

/-- `Parser::expect`. -/
def expect (expected : Token) (ts : List Token) : Result (List Token) :=
  if current ts = expected then .ok ts.tail else .error (.unexpectedToken (current ts))

/-- `node_depth`. -/
def nodeDepth (deepestChild : Nat) : Result Nat :=
  if maxExpressionDepth < deepestChild + 1 then .error tooDeep else .ok (deepestChild + 1)

namespace ParsedExpr

/-- `ParsedExpr::leaf`. -/
def leaf (expr : Expr N) : ParsedExpr N := ⟨expr, 1⟩

/-- `ParsedExpr::binary`. -/
def binary (op : BinaryOp) (left right : ParsedExpr N) : Result (ParsedExpr N) :=
  return ⟨.binary op left.expr right.expr, ← nodeDepth (max left.depth right.depth)⟩

/-- `ParsedExpr::index`. -/
def index (base key : ParsedExpr N) : Result (ParsedExpr N) :=
  return ⟨.index base.expr key.expr, ← nodeDepth (max base.depth key.depth)⟩

/-- `push_path_segment`: an open path grows, any other base is wrapped. -/
def pushPathSegment (base : ParsedExpr N) (segment : Text) :
    Result (ParsedExpr N) :=
  match base.expr with
  | .path segments => .ok { base with expr := .path (segments ++ [segment]) }
  | .memberAccess e path => .ok { base with expr := .memberAccess e (path ++ [segment]) }
  | other => return ⟨.memberAccess other [segment], ← nodeDepth base.depth⟩

end ParsedExpr

/-- The literal keys of a bracket: a string, a number, or a lone identifier. -/
def literalKey : List Token → Option (Text × List Token)
  | .string s :: ts => some (s, ts)
  | .number n :: ts => some (n, ts)
  | .ident s :: ts => if current ts = .rbracket then some (s, ts) else none
  | _ => none

/-- The key of a computed index, with its closing bracket. -/
def computedKey (rec : List Token → Result (Parsed N)) (ts : List Token) : Result (Parsed N) := do
  let (key, rest) ← rec ts
  let rest ← expect .rbracket rest
  return (key, rest)

/-- The segment after a dot, if one stands there. -/
def dotSegment : List Token → Option (Text × List Token)
  | .ident segment :: ts => some (segment, ts)
  | .star :: ts => some ("*".toList, ts)
  | _ => none

/-- The loop of `parse_ident_or_call` over the segments of a path. -/
def pathLoop (rec : List Token → Result (Parsed N)) :
    Nat → ParsedExpr N → List Token → Result (Parsed N)
  | 0, base, ts => .ok (base, ts)
  | n + 1, base, ts =>
    match ts with
    | .dot :: ts =>
      match dotSegment ts with
      | some (segment, ts) => do pathLoop rec n (← base.pushPathSegment segment) ts
      | none => .error (.unexpectedToken (current ts))
    | .lbracket :: ts =>
      match literalKey ts with
      | some (segment, ts) => do
        let ts ← expect .rbracket ts
        pathLoop rec n (← base.pushPathSegment segment) ts
      | none => do
        let (key, ts) ← computedKey rec ts
        pathLoop rec n (← base.index key) ts
    | ts => .ok (base, ts)

/-- A malformed suffix is given up instead of failing; only the depth limit gets
    through. -/
def orGiveUp (key : Result (Parsed N)) (continue_ : Parsed N → Result (Parsed N))
    (before : Parsed N) : Result (Parsed N) :=
  match key with
  | .ok parsed => continue_ parsed
  | .error (.tooDeep limit) => .error (.tooDeep limit)
  | .error _ => .ok before

/-- `parse_member_suffix`. -/
def parseMemberSuffix (rec : List Token → Result (Parsed N)) :
    Nat → ParsedExpr N → List Token → Result (Parsed N)
  | 0, base, ts => .ok (base, ts)
  | n + 1, base, ts =>
    match ts with
    | .dot :: ts =>
      match dotSegment ts with
      | some (segment, ts) => do parseMemberSuffix rec n (← base.pushPathSegment segment) ts
      | none => .ok (base, ts)
    | .lbracket :: ts =>
      match literalKey ts with
      | some (segment, ts) =>
        if current ts = .rbracket then do
          parseMemberSuffix rec n (← base.pushPathSegment segment) ts.tail
        else .ok (base, ts)
      | none =>
        orGiveUp (computedKey rec ts)
          (fun (key, ts) => do parseMemberSuffix rec n (← base.index key) ts) (base, ts)
    | ts => .ok (base, ts)

/-- The argument loop of `parse_ident_or_call`, with the depth of the deepest
    argument. -/
def callArgs (rec : List Token → Result (Parsed N)) :
    Nat → List Token → Result ((List (Expr N) × Nat) × List Token)
  | 0, ts => .ok (([], 0), ts)
  | n + 1, ts => do
    let (arg, ts) ← rec ts
    if current ts = .comma then
      let (args, ts) ← callArgs rec n ts.tail
      return ((arg.expr :: args.1, max arg.depth args.2), ts)
    else return (([arg.expr], arg.depth), ts)

/-- The arguments of a call, up to the closing parenthesis. -/
def parseArgs (rec : List Token → Result (Parsed N)) (ts : List Token) :
    Result ((List (Expr N) × Nat) × List Token) :=
  if current ts = .rparen then .ok (([], 0), ts) else callArgs rec ts.length ts

/-- `parse_ident_or_call`, after the name. -/
def parseIdentOrCall (rec : List Token → Result (Parsed N)) (name : Text) (ts : List Token) :
    Result (Parsed N) :=
  match ts with
  | .lparen :: ts => do
    let (args, ts) ← parseArgs rec ts
    let ts ← expect .rparen ts
    let depth ← nodeDepth args.2
    parseMemberSuffix rec ts.length ⟨.call name args.1, depth⟩ ts
  | ts => pathLoop rec ts.length (.leaf (.path [name])) ts

/-- `parse_primary`; `num` reads the digits of a number. -/
def parsePrimary (num : Text → Option N) (rec : List Token → Result (Parsed N)) (ts : List Token) :
    Result (Parsed N) :=
  match ts with
  | [] => .error .eof
  | .string s :: ts => .ok (.leaf (.literal (.string s)), ts)
  | .number digits :: ts => .ok (.leaf (.literal (((num digits).map .number).getD .null)), ts)
  | .bool b :: ts => .ok (.leaf (.literal (.bool b)), ts)
  | .null :: ts => .ok (.leaf (.literal .null), ts)
  | .ident name :: ts => parseIdentOrCall rec name ts
  | .lparen :: ts => do
    let (e, ts) ← rec ts
    let ts ← expect .rparen ts
    return (e, ts)
  | .eof :: _ => .error .eof
  | token :: _ => .error (.unexpectedToken token)

/-- The loop over the operators of one precedence. -/
def binaryLoop (op : Token → Option BinaryOp) (operand : List Token → Result (Parsed N)) :
    Nat → ParsedExpr N → List Token → Result (Parsed N)
  | 0, e, ts => .ok (e, ts)
  | n + 1, e, ts =>
    match op (current ts) with
    | none => .ok (e, ts)
    | some o => do
      let (right, ts) ← operand ts.tail
      binaryLoop op operand n (← e.binary o right) ts

/-- One precedence level: operands with its operators between them, to the left. -/
def parseBinary (op : Token → Option BinaryOp) (operand : List Token → Result (Parsed N))
    (ts : List Token) : Result (Parsed N) := do
  let (e, ts) ← operand ts
  binaryLoop op operand ts.length e ts

/-- The operators of `parse_eq`. -/
def comparison : Token → Option BinaryOp
  | .eq => some .eq
  | .ne => some .ne
  | .gt => some .gt
  | .ge => some .ge
  | .lt => some .lt
  | .le => some .le
  | _ => none

/-- The operator of `parse_and`. -/
def conjunction : Token → Option BinaryOp
  | .and => some .and
  | _ => none

/-- The operator of `parse_or`. -/
def disjunction : Token → Option BinaryOp
  | .or => some .or
  | _ => none

/-- `parse_eq`. -/
def parseEq (unary : List Token → Result (Parsed N)) : List Token → Result (Parsed N) :=
  parseBinary comparison unary

/-- `parse_and`. -/
def parseAnd (unary : List Token → Result (Parsed N)) : List Token → Result (Parsed N) :=
  parseBinary conjunction (parseEq unary)

/-- `parse_or`. -/
def parseOr (unary : List Token → Result (Parsed N)) : List Token → Result (Parsed N) :=
  parseBinary disjunction (parseAnd unary)

/-- The body of `parse_unary`: `deeper` parses after a `!`, one level down, and
    `rec` is `parse_tracked_expr`. -/
def unaryWith (num : Text → Option N) (deeper rec : List Token → Result (Parsed N))
    (ts : List Token) : Result (Parsed N) :=
  match ts with
  | .bang :: ts => do
    let (inner, ts) ← deeper ts
    let depth ← nodeDepth inner.depth
    return (⟨.unaryNot inner.expr, depth⟩, ts)
  | ts => parsePrimary num rec ts

/-- `parse_unary` with so many levels of recursion left. -/
def parseUnary (num : Text → Option N) : Nat → List Token → Result (Parsed N)
  | 0 => unaryWith num (fun _ => .error tooDeep) (fun _ => .error tooDeep)
  | left + 1 => unaryWith num (parseUnary num left) (parseOr (parseUnary num left))

/-- `parse_tracked_expr` with so many levels of recursion left. -/
def parseTrackedExpr (num : Text → Option N) : Nat → List Token → Result (Parsed N)
  | 0 => fun _ => .error tooDeep
  | left + 1 => parseOr (parseUnary num left)

/-- `parse_expr` followed by `expect_end`. -/
def parseTokens (num : Text → Option N) (ts : List Token) : Result (Expr N) := do
  let (parsed, rest) ← parseTrackedExpr num maxExpressionDepth ts
  if current rest = .eof then return parsed.expr else .error (.unexpectedToken (current rest))

/-- `parse_cached` without its cache: the tree of an expression text. -/
def parseExpression (num : Text → Option N) (t : Text) : Result (Expr N) :=
  lex t >>= parseTokens num

end Parser

end Expressions

end Preloop

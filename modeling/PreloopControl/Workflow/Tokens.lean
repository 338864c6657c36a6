import PreloopControl.Workflow.Templates

/-!
# Template Tokens

The tokens a job message carries for the strings of a workflow. What contains
expressions becomes one expression: the only one there is, or a call of `format` whose
first argument is the text with its expressions numbered. The job builder has one
emitter of them (`job_builder.rs`), and the messages for the runner another
(`azdo/job.rs`).

## Main definitions

* `TemplateToken`: A literal or an expression.
* `templateStringToken`: The token of a string, for the job builder.
* `wireStringValue`: The value of the token of a string, for the messages.
* `evalToken`: The string of a token.
-/

namespace Preloop

namespace Workflow

open Expressions

variable {N F : Type}

/-- The value of a token: `lit` under type 0, `expr` under type 3. -/
inductive TokenValue
  | lit (text : Text)
  | expr (source : Text)
  deriving DecidableEq

/-- A token with its place in a file. -/
structure TemplateToken where
  file : Nat
  line : Nat
  col : Nat
  value : TokenValue
  deriving DecidableEq

/-! ## Format strings -/

/-- The cases of `append_format_literal`. -/
def escapeFormat (c : Char) : Text :=
  if c = quote then [quote, quote]
  else if c = lbrace then [lbrace, lbrace]
  else if c = rbrace then [rbrace, rbrace]
  else [c]

/-- `append_format_literal`. -/
def appendFormatLiteral (target literal : Text) : Text := target ++ literal.flatMap escapeFormat

/-- The placeholder of an expression. -/
def placeholderText (i : Nat) : Text := lbrace :: (Nat.toDigits 10 i ++ [rbrace])

/-- The loop of both emitters; nothing is left of an unclosed expression. -/
def tokenLoop : Nat → Text → List Text → Text → Option (Text × List Text)
  | 0, format, expressions, remaining => some (appendFormatLiteral format remaining, expressions)
  | n + 1, format, expressions, remaining =>
    match Text.cut openMark remaining with
    | none => some (appendFormatLiteral format remaining, expressions)
    | some (before, source) =>
      match findExpressionEnd false source with
      | none => none
      | some (e, rest) =>
        tokenLoop n (appendFormatLiteral format before ++ placeholderText expressions.length)
          (expressions ++ [Text.trim e]) rest

/-- The arguments of `format` behind the first. -/
def formatArguments (expressions : List Text) : Text := expressions.flatMap (", ".toList ++ ·)

/-- The call of `format`. -/
def formatExpression (format : Text) (expressions : List Text) : Text :=
  "format(".toList ++ (quote :: format) ++ (quote :: formatArguments expressions) ++ [')']

/-- The expression of a string that is nothing else but white space around it. -/
def wholeExpression (raw : Text) : Option Text :=
  if openMark.isPrefixOf (Text.trim raw) then
    match findExpressionEnd false ((Text.trim raw).drop openMark.length) with
    | some (e, []) => some (Text.trim e)
    | _ => none
  else none

/-- The value of the token `template_string_token` emits. -/
def templateStringValue (raw : Text) : TokenValue :=
  match wholeExpression raw with
  | some source => .expr source
  | none =>
    if !Text.contains openMark raw then .lit raw
    else match tokenLoop raw.length [] [] raw with
      | none => .lit raw
      | some (format, expressions) => .expr (formatExpression format expressions)

/-- `template_string_token`. -/
def templateStringToken (raw : Text) (fileId : Nat) : TemplateToken :=
  { file := fileId, line := 1, col := 1, value := templateStringValue raw }

/-- The value of the token `azdo::template_string_token` emits: an expression stays alone
    only if it is the whole string. -/
def wireStringValue (value : Text) : TokenValue :=
  match Text.cut openMark value with
  | none => .lit value
  | some (before, _) =>
    match tokenLoop value.length [] [] value with
    | none => .lit value
    | some (literal, expressions) =>
      if before = [] ∧ literal = placeholderText 0 ∧ expressions.length = 1 then
        .expr (expressions.headD [])
      else
        .expr ("format(".toList ++ (quote :: literal) ++
          (quote :: ", ".toList ++ ", ".toList.intercalate expressions) ++ [')'])

/-! ## Evaluation -/

/-- The string a token evaluates to: a literal as it is, an expression converted. -/
def evalToken (engine : Engine N F) (token : TemplateToken) (ctx : Context N) : Result Text :=
  match token.value with
  | .lit text => .ok text
  | .expr source => (evalExpression engine source ctx).map (stringValue engine)

end Workflow

end Preloop

import PreloopControl.Expressions.Depth

/-!
# Reading an Expression

The lexer and the parser fail with errors of their own, which the evaluator never
returns (`eval_neverFails`). So the error of an evaluation tells whether the text was
read.

## Theorems

* `reads_parseExpression`: Reading fails with the errors of reading.
* `exprDepth_of_parse`: What is read is within the ceiling.
-/

namespace Preloop

namespace Expressions

open Fallible

variable {N α : Type}

/-! ## The lexer -/

/-- A result that is at most an error of reading. -/
abbrev Reads (r : Result α) : Prop := Spares (fun e => e.isReading = false) r

theorem reads_error {e : ExpressionError} (he : e.isReading = true) :
    Reads (.error e : Result α) := by
  intro e' he' h
  cases h
  rw [he] at he'
  cases he'

theorem reads_lexString (t : Text) : Reads (lexString t) := by
  fun_induction lexString t with
  | case1 => exact reads_error rfl
  | case2 => exact spares_ok _
  | case3 t' ih => exact ih.map _
  | case4 => exact spares_ok _
  | case5 c t hc ih => exact ih.map _

theorem reads_doubled (c : Char) (token : Token) (t : Text) : Reads (doubled c token t) := by
  unfold doubled
  split
  · exact reads_error rfl
  · exact .ite (spares_ok _) (reads_error rfl)

theorem reads_lexStep (c : Char) (t : Text) : Reads (lexStep c t) := by
  unfold lexStep
  refine .ite (spares_ok _) (.ite ((reads_lexString t).map _) (.ite (spares_ok _)
    (.ite (spares_ok _) (.ite (spares_ok _) (.ite (reads_doubled _ _ _) (.ite (spares_ok _)
      (.ite (spares_ok _) (.ite (reads_doubled _ _ _) (.ite (reads_doubled _ _ _) ?_)))))))))
  split
  · exact spares_ok _
  · exact reads_error rfl

theorem reads_lexLoop (n : Nat) (t : Text) : Reads (lexLoop n t) := by
  induction n generalizing t with
  | zero => exact spares_ok _
  | succ n ih =>
      cases t with
      | nil => exact spares_ok _
      | cons c t =>
          unfold lexLoop
          refine (reads_lexStep c t).bind fun p => ?_
          exact (ih p.2).bind fun _ => spares_ok _

/-! ## Steps of the parser -/

theorem reads_expect (expected : Token) (ts : List Token) : Reads (expect expected ts) :=
  .ite (spares_ok _) (reads_error rfl)

theorem reads_nodeDepth (d : Nat) : Reads (nodeDepth d) := .ite (reads_error rfl) (spares_ok _)

theorem reads_pushPathSegment (base : ParsedExpr N) (segment : Text) :
    Reads (base.pushPathSegment segment) := by
  unfold ParsedExpr.pushPathSegment
  split
  · exact spares_ok _
  · exact spares_ok _
  · exact (reads_nodeDepth _).bind fun _ => spares_ok _

theorem reads_index (base key : ParsedExpr N) : Reads (base.index key) :=
  (reads_nodeDepth _).bind fun _ => spares_ok _

/-- Only a refusal for depth gets through a suffix. -/
theorem reads_parseMemberSuffix (rec : List Token → Result (Parsed N)) (n : Nat)
    (base : ParsedExpr N) (ts : List Token) :
    Reads (parseMemberSuffix rec n base ts) := by
  induction n generalizing base ts with
  | zero => exact spares_ok _
  | succ n ih =>
      unfold parseMemberSuffix
      split
      · split
        · exact (reads_pushPathSegment _ _).bind fun base => ih base _
        · exact spares_ok _
      · split
        · exact .ite ((reads_pushPathSegment _ _).bind fun base => ih base _) (spares_ok _)
        · unfold orGiveUp
          split
          · exact (reads_index _ _).bind fun base => ih base _
          · exact reads_error rfl
          · exact spares_ok _
      · exact spares_ok _

section Parser

variable {rec : List Token → Result (Parsed N)} (hrec : ∀ ts, Reads (rec ts))

include hrec

theorem reads_computedKey (ts : List Token) : Reads (computedKey rec ts) :=
  (hrec ts).bind fun _ => (reads_expect _ _).bind fun _ => spares_ok _

theorem reads_pathLoop (n : Nat) (base : ParsedExpr N) (ts : List Token) :
    Reads (pathLoop rec n base ts) := by
  induction n generalizing base ts with
  | zero => exact spares_ok _
  | succ n ih =>
      unfold pathLoop
      split
      · split
        · exact (reads_pushPathSegment _ _).bind fun base => ih base _
        · exact reads_error rfl
      · split
        · refine (reads_expect _ _).bind fun ts => ?_
          exact (reads_pushPathSegment _ _).bind fun base => ih base ts
        · refine (reads_computedKey hrec _).bind fun p => ?_
          exact (reads_index _ _).bind fun base => ih base _
      · exact spares_ok _

theorem reads_callArgs (n : Nat) (ts : List Token) : Reads (callArgs rec n ts) := by
  induction n generalizing ts with
  | zero => exact spares_ok _
  | succ n ih =>
      unfold callArgs
      refine (hrec ts).bind fun p => .ite ?_ (spares_ok _)
      exact (ih _).bind fun _ => spares_ok _

theorem reads_parseIdentOrCall (name : Text) (ts : List Token) :
    Reads (parseIdentOrCall rec name ts) := by
  unfold parseIdentOrCall
  split
  · refine Spares.bind (.ite (spares_ok _) (reads_callArgs hrec _ _)) fun p => ?_
    refine (reads_expect _ _).bind fun ts => ?_
    exact (reads_nodeDepth _).bind fun depth => reads_parseMemberSuffix rec _ _ ts
  · exact reads_pathLoop hrec _ _ _

theorem reads_parsePrimary (num : Text → Option N) (ts : List Token) :
    Reads (parsePrimary num rec ts) := by
  unfold parsePrimary
  split
  · exact reads_error rfl
  · exact spares_ok _
  · exact spares_ok _
  · exact spares_ok _
  · exact spares_ok _
  · exact reads_parseIdentOrCall hrec _ _
  · exact (hrec _).bind fun _ => (reads_expect _ _).bind fun _ => spares_ok _
  · exact reads_error rfl
  · exact reads_error rfl

theorem reads_parseBinary (op : Token → Option BinaryOp) (ts : List Token) :
    Reads (parseBinary op rec ts) := by
  have hloop : ∀ (n : Nat) (e : ParsedExpr N) (ts : List Token),
      Reads (binaryLoop op rec n e ts) := by
    intro n
    induction n with
    | zero => exact fun _ _ => spares_ok _
    | succ n ih =>
        intro e ts
        unfold binaryLoop
        split
        · exact spares_ok _
        · refine (hrec _).bind fun p => ?_
          refine Spares.bind ((reads_nodeDepth _).bind fun _ => spares_ok _) fun e => ih e _
  exact (hrec ts).bind fun p => hloop _ _ _

theorem reads_parseOr (ts : List Token) : Reads (parseOr rec ts) :=
  reads_parseBinary (reads_parseBinary (reads_parseBinary hrec _) _) _ ts

theorem reads_unaryWith (num : Text → Option N) {deeper : List Token → Result (Parsed N)}
    (hdeeper : ∀ ts, Reads (deeper ts)) (ts : List Token) :
    Reads (unaryWith num deeper rec ts) := by
  unfold unaryWith
  split
  · exact (hdeeper _).bind fun _ => (reads_nodeDepth _).bind fun _ => spares_ok _
  · exact reads_parsePrimary hrec num _

end Parser

theorem reads_parseUnary (num : Text → Option N) (left : Nat) :
    ∀ ts, Reads (parseUnary num left ts) := by
  have hdeep : ∀ ts : List Token,
      Reads ((fun _ => .error tooDeep : List Token → Result (Parsed N)) ts) :=
    fun _ => reads_error rfl
  induction left with
  | zero => exact reads_unaryWith hdeep num hdeep
  | succ left ih => exact reads_unaryWith (reads_parseOr ih) num ih

/-- An expression is read, or it fails with an error of reading. -/
theorem reads_parseExpression (num : Text → Option N) (t : Text) :
    Reads (parseExpression num t) := by
  refine (reads_lexLoop _ _).bind fun ts => ?_
  refine Spares.bind (reads_parseOr (reads_parseUnary num _) ts) fun p => ?_
  exact .ite (spares_ok _) (reads_error rfl)

/-- A tree that is read is within the ceiling. -/
theorem exprDepth_of_parse {num : Text → Option N} {t : Text} {e : Expr N}
    (h : parseExpression num t = .ok e) : exprDepth e ≤ maxExpressionDepth := by
  obtain ⟨tokens, _, h⟩ := bind_eq_ok h
  obtain ⟨p, rest, hp, _, rfl⟩ := parseTokens_parses h
  obtain ⟨hdepth, hle⟩ := parses_measured hp
  rw [hdepth]
  exact hle

end Expressions

end Preloop

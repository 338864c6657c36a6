import PreloopControl.Expressions.Gate

/-!
# Expressions as Arguments

A call whose first argument is a string and whose other arguments are expressions, put
together before it is parsed. Every argument but the last is in front of a comma, and the
last one in front of the closing parenthesis.

## Main definitions

* `argumentTokens`: The arguments behind the first one.
* `argumentText`: Their text.

## Theorems

* `lex_arguments`: The tokens of the arguments.
* `callArgs_arguments`: The argument loop reads the trees of the expressions.
* `parseTokens_call`: The tree of the call.
-/

namespace Preloop

namespace Expressions

open Fallible

variable {N : Type} {num : Text → Option N}

/-! ## Tokens -/

/-- The arguments behind the first one, up to the end. -/
def argumentTokens : List (List Token) → List Token
  | [] => [.rparen, .eof]
  | b :: bs => .comma :: (b ++ argumentTokens bs)

/-- Where the argument before them stops. -/
def argumentStop : List (List Token) → Stop
  | [] => ⟨.rparen, [.eof], .inl rfl⟩
  | b :: bs => ⟨.comma, b ++ argumentTokens bs, .inr rfl⟩

theorem stopping_argumentStop (b : List Token) (bs : List (List Token)) :
    stopping (argumentStop bs) b = b ++ argumentTokens bs := by
  cases bs with
  | nil => rfl
  | cons b' bs => rfl

theorem length_lt_argumentTokens (bs : List (List Token)) :
    bs.length < (argumentTokens bs).length := by
  induction bs with
  | nil => decide
  | cons b bs ih =>
      simp only [argumentTokens, List.length_cons, List.length_append]
      omega

/-- The text of the arguments behind the first one. -/
def argumentText (ts : List Text) : Text := ts.flatMap (", ".toList ++ ·) ++ [')']

theorem stops_comma (t : Text) : Stops (',' :: t) := by
  have h : identPart ',' = false ∧ numeric ',' = false ∧ ',' ≠ quote ∧ ',' ≠ '=' ∧ ',' ≠ '&' ∧
      ',' ≠ '|' := by
    decide
  intro c hc
  cases hc
  exact h

theorem stops_argumentText (ts : List Text) : Stops (argumentText ts) := by
  cases ts with
  | nil => exact stops_rparen []
  | cons t ts => exact stops_comma _

/-- The arguments are read one by one. -/
theorem lex_arguments {ts : List Text} {bodies : List (List Token)}
    (h : List.Forall₂ (fun t b => lex t = .ok (ending b)) ts bodies) :
    lex (argumentText ts) = .ok (argumentTokens bodies) := by
  induction h with
  | nil => rfl
  | @cons t b ts bodies ht hrest ih =>
      obtain ⟨b', hb, happ⟩ := lex_append ht
      rw [ending, List.append_cancel_right_eq] at hb
      subst hb
      have htext : argumentText (t :: ts) = ',' :: ' ' :: (t ++ argumentText ts) := by
        simp [argumentText]
      have hcomma : lexStep ',' (' ' :: (t ++ argumentText ts)) =
          .ok (some .comma, ' ' :: (t ++ argumentText ts)) := rfl
      have hspace : lexStep ' ' (t ++ argumentText ts) = .ok (none, t ++ argumentText ts) := rfl
      rw [htext, lex_of_step hcomma, lex_of_step hspace, happ _ (stops_argumentText ts), ih]
      rfl

/-! ## Trees -/

/-- An operand in front of a stop or the end is all there is. -/
theorem parseOr_operand {unary : List Token → Result (Parsed N)} {ts rest : List Token}
    {p : ParsedExpr N} (h : unary ts = .ok (p, rest))
    (hstop : ∀ op, IsOperator op → op (current rest) = none) :
    parseOr unary ts = .ok (p, rest) := by
  have heq : parseEq unary ts = .ok (p, rest) := by
    unfold parseEq parseBinary
    rw [h]
    exact binaryLoop_stop (hstop _ isOperator_comparison) _ p
  have hand : parseAnd unary ts = .ok (p, rest) := by
    unfold parseAnd parseBinary
    rw [heq]
    exact binaryLoop_stop (hstop _ isOperator_conjunction) _ p
  unfold parseOr parseBinary
  rw [hand]
  exact binaryLoop_stop (hstop _ isOperator_disjunction) _ p

/-- The argument loop: it reads the trees the expressions have alone, or one of them is
    refused for depth. -/
theorem callArgs_arguments {left left' : Nat} (hleft : left < left')
    {bodies : List (List Token)} {trees : List (ParsedExpr N)}
    (h : List.Forall₂ (fun b p => parseTrackedExpr num left' (ending b) = .ok (p, [.eof]))
      bodies trees) :
    ∀ (n : Nat) (ts : List Token) (arg : ParsedExpr N), bodies.length < n →
      parseTrackedExpr num left ts = .ok (arg, argumentTokens bodies) →
      (List.Forall₂ (fun b p => ∀ s, parseTrackedExpr num left (stopping s b) =
          .ok (p, stopping s [])) bodies trees ∧
        ∃ d, callArgs (parseTrackedExpr num left) n ts =
          .ok ((arg.expr :: trees.map (·.expr), d), [.rparen, .eof]) ∧
          ∀ k, d ≤ k ↔ arg.depth ≤ k ∧ ∀ p ∈ trees, p.depth ≤ k) ∨
      (¬ List.Forall₂ (fun b p => ∀ s, parseTrackedExpr num left (stopping s b) =
          .ok (p, stopping s [])) bodies trees ∧
        ∃ l, callArgs (parseTrackedExpr num left) n ts = .error (.tooDeep l)) := by
  -- the induction is on the arguments still to come; the one that is read now stands before them
  induction h with
  | nil =>
      intro n ts arg hn harg
      -- the last argument ends at the closing parenthesis
      obtain ⟨n, rfl⟩ : ∃ j, n = j + 1 := ⟨n - 1, by omega⟩
      refine .inl ⟨.nil, arg.depth, ?_, by simp⟩
      show (parseTrackedExpr num left ts >>= _) = _
      rw [harg]
      rfl
  | @cons b p bodies trees hb hrest ih =>
      intro n ts arg hn harg
      obtain ⟨n, rfl⟩ : ∃ j, n = j + 1 := ⟨n - 1, by omega⟩
      -- one round reads an argument and leaves the rest to the loop
      have hstep : callArgs (parseTrackedExpr num left) (n + 1) ts =
          (callArgs (parseTrackedExpr num left) n (b ++ argumentTokens bodies)).map
            fun q => ((arg.expr :: q.1.1, max arg.depth q.1.2), q.2) := by
        show (parseTrackedExpr num left ts >>= _) = _
        rw [harg]
        show (callArgs (parseTrackedExpr num left) n (b ++ argumentTokens bodies) >>= _) = _
        cases callArgs (parseTrackedExpr num left) n (b ++ argumentTokens bodies) with
        | error e => rfl
        | ok q => rfl
      rw [hstep]
      -- the next argument parses as it does alone, or it is refused for its depth
      obtain hp | hp := parse_nested hb hleft
      · have hnext : parseTrackedExpr num left (b ++ argumentTokens bodies) =
            .ok (p, argumentTokens bodies) := by
          have hs := hp (argumentStop bodies)
          rw [stopping_argumentStop, stopping_argumentStop] at hs
          exact hs
        simp only [List.length_cons] at hn
        obtain ⟨hall, d, hargs, hd⟩ | ⟨hnot, l, hargs⟩ := ih n _ p (by omega) hnext
        · refine .inl ⟨.cons hp hall, max arg.depth d, ?_, fun k => ?_⟩
          · rw [hargs]
            rfl
          · rw [Nat.max_le, hd k]
            simp
        · refine .inr ⟨fun hall => hnot (List.forall₂_cons.mp hall).2, l, ?_⟩
          rw [hargs]
          rfl
      -- the refusal of one argument is that of the loop
      · obtain ⟨l, hl⟩ := hp (argumentStop bodies)
        refine .inr ⟨fun hall => ?_, ?_⟩
        · have hok := (List.forall₂_cons.mp hall).1 (argumentStop bodies)
          rw [show parseTrackedExpr num left (stopping (argumentStop bodies) b) = _ from hl] at hok
          cases hok
        simp only [stopping_argumentStop] at hl
        obtain ⟨n, rfl⟩ : ∃ j, n = j + 1 :=
          ⟨n - 1, by simp only [List.length_cons] at hn; omega⟩
        refine ⟨l, ?_⟩
        show ((parseTrackedExpr num left (b ++ argumentTokens bodies) >>= _).map _) = _
        rw [hl]
        rfl

/-- The call as a whole: it is parsed exactly if every argument is below the ceiling one
    level down and leaves room for the call. -/
theorem parseTokens_call (name literal : Text) {bodies : List (List Token)}
    {trees : List (ParsedExpr N)}
    (h : List.Forall₂ (fun b p => parseTrackedExpr num maxExpressionDepth (ending b) =
      .ok (p, [.eof])) bodies trees) :
    ((List.Forall₂ (fun b p => ∀ s, parseTrackedExpr num 127 (stopping s b) =
          .ok (p, stopping s [])) bodies trees ∧ ∀ p ∈ trees, p.depth < maxExpressionDepth) ∧
        parseTokens num (.ident name :: .lparen :: .string literal :: argumentTokens bodies) =
          .ok (.call name (.literal (.string literal) :: trees.map (·.expr)))) ∨
      (¬ (List.Forall₂ (fun b p => ∀ s, parseTrackedExpr num 127 (stopping s b) =
          .ok (p, stopping s [])) bodies trees ∧ ∀ p ∈ trees, p.depth < maxExpressionDepth) ∧
        ∃ l, parseTokens num (.ident name :: .lparen :: .string literal :: argumentTokens bodies) =
          .error (.tooDeep l)) := by
  have hleft : 127 < maxExpressionDepth := by decide
  -- the literal is the first argument, and whatever follows it ends it
  have hfirst : parseTrackedExpr num 127 (.string literal :: argumentTokens bodies) =
      .ok (.leaf (.literal (.string literal)), argumentTokens bodies) := by
    refine parseOr_operand rfl fun op hop => ?_
    cases bodies with
    | nil => exact hop.2.1.1
    | cons b bodies => exact hop.2.1.2
  have hfuel : bodies.length < (.string literal :: argumentTokens bodies : List Token).length :=
    (length_lt_argumentTokens bodies).trans (Nat.lt_succ_self _)
  have hargs :=
    callArgs_arguments hleft h _ (.string literal :: argumentTokens bodies) _ hfuel hfirst
  have hunfold : parseUnary num 127
      (.ident name :: .lparen :: .string literal :: argumentTokens bodies) = (do
        let args ← callArgs (parseTrackedExpr num 127)
          (.string literal :: argumentTokens bodies : List Token).length
          (.string literal :: argumentTokens bodies)
        let ts ← expect .rparen args.2
        let depth ← nodeDepth args.1.2
        parseMemberSuffix (parseTrackedExpr num 127) ts.length
          ⟨.call name args.1.1, depth⟩ ts) := rfl
  have htokens : parseTokens num
      (.ident name :: .lparen :: .string literal :: argumentTokens bodies) = (do
        let parsed ← parseOr (parseUnary num 127)
          (.ident name :: .lparen :: .string literal :: argumentTokens bodies)
        if current parsed.2 = .eof then return parsed.1.expr
        else .error (.unexpectedToken (current parsed.2))) := rfl
  rw [htokens]
  obtain ⟨hall, d, hcall, hd⟩ | ⟨hdeep, l, hcall⟩ := hargs
  · rw [hcall] at hunfold
    -- the tree of the call is one deeper than its deepest argument
    have hdepth : ¬ maxExpressionDepth < d + 1 ↔ ∀ p ∈ trees, p.depth < maxExpressionDepth := by
      have h1 : (ParsedExpr.leaf (.literal (.string literal)) : ParsedExpr N).depth = 1 := rfl
      have := hd 127
      rw [h1] at this
      simp only [maxExpressionDepth] at *
      constructor
      · intro hroom p hp
        have := (this.mp (by omega)).2 p hp
        omega
      · intro hroom
        have := this.mpr ⟨by omega, fun p hp => by have := hroom p hp; omega⟩
        omega
    -- every argument parses, and the call itself may be too deep
    by_cases hroom : maxExpressionDepth < d + 1
    · refine .inr ⟨fun hall => hdepth.mpr hall.2 hroom, maxExpressionDepth, ?_⟩
      · have herror : parseUnary num 127
            (.ident name :: .lparen :: .string literal :: argumentTokens bodies) =
              .error tooDeep := by
          rw [hunfold]
          show (nodeDepth d >>= _) = _
          rw [nodeDepth, if_pos hroom]
          rfl
        rw [parseOr_error herror]
        rfl
    · refine .inl ⟨⟨hall, hdepth.mp hroom⟩, ?_⟩
      have hok : parseUnary num 127
          (.ident name :: .lparen :: .string literal :: argumentTokens bodies) =
            .ok (⟨.call name (.literal (.string literal) :: trees.map (·.expr)), d + 1⟩,
              [.eof]) := by
        rw [hunfold]
        show (nodeDepth d >>= _) = _
        rw [nodeDepth, if_neg hroom]
        rfl
      rw [parseOr_operand hok fun op hop => hop.1]
      rfl
  -- an argument is refused, and the refusal is that of the call
  · rw [hcall] at hunfold
    refine .inr ⟨fun hall => hdeep hall.1, l, ?_⟩
    have herror : parseUnary num 127
        (.ident name :: .lparen :: .string literal :: argumentTokens bodies) =
          .error (.tooDeep l) := hunfold
    rw [parseOr_error herror]
    rfl

/-! ## The text of a call -/

/-- A quote is doubled in a string literal. -/
def doubleQuote (c : Char) : Text := if c = quote then [quote, quote] else [c]

/-- A literal is read back, in front of anything that is no quote. -/
theorem lexString_doubled (s : Text) {x : Text} (hx : x.head? ≠ some quote) :
    lexString (s.flatMap doubleQuote ++ quote :: x) = .ok (s, x) := by
  induction s with
  | nil =>
      cases x with
      | nil => rfl
      | cons c x =>
          have hc : c ≠ quote := by simpa using hx
          simp [lexString, hc]
  | cons c s ih =>
      by_cases hc : c = quote
      · subst hc
        have hdouble : doubleQuote quote = [quote, quote] := if_pos rfl
        simp [List.flatMap_cons, hdouble, lexString, ih, Except.map]
      · have hdouble : doubleQuote c = [c] := if_neg hc
        rw [List.flatMap_cons, hdouble]
        show lexString (c :: (s.flatMap doubleQuote ++ quote :: x)) = _
        unfold lexString
        rw [if_neg hc, ih]
        rfl

/-- The name of the function. -/
def formatName : Text := "format".toList

/-- A call of `format`. -/
def formatText (literal : Text) (ts : List Text) : Text :=
  formatName ++ '(' :: quote :: (literal.flatMap doubleQuote ++ quote :: argumentText ts)

theorem lex_formatText {literal : Text} {ts : List Text} {bodies : List (List Token)}
    (h : List.Forall₂ (fun t b => lex t = .ok (ending b)) ts bodies) :
    lex (formatText literal ts) =
      .ok (.ident formatName :: .lparen :: .string literal :: argumentTokens bodies) := by
  have hhead : (argumentText ts).head? ≠ some quote := by
    cases ts with
    | nil => decide
    | cons t ts => exact fun h => by cases h
  have hword : lexStep 'f' ("ormat".toList ++
      '(' :: quote :: (literal.flatMap doubleQuote ++ quote :: argumentText ts)) =
        .ok (some (.ident formatName),
          '(' :: quote :: (literal.flatMap doubleQuote ++ quote :: argumentText ts)) := rfl
  have hopen : lexStep '(' (quote :: (literal.flatMap doubleQuote ++ quote :: argumentText ts)) =
      .ok (some .lparen, quote :: (literal.flatMap doubleQuote ++ quote :: argumentText ts)) := rfl
  have hliteral : lexStep quote (literal.flatMap doubleQuote ++ quote :: argumentText ts) =
      .ok (some (.string literal), argumentText ts) := by
    show (lexString _).map _ = _
    rw [lexString_doubled literal hhead]
    rfl
  show lex ('f' :: ("ormat".toList ++
    '(' :: quote :: (literal.flatMap doubleQuote ++ quote :: argumentText ts))) = _
  rw [lex_of_step hword, lex_of_step hopen, lex_of_step hliteral, lex_arguments h]
  rfl

/-- The tokens and the trees of texts that parse. -/
theorem exists_bodies {ts : List Text} {es : List (Expr N)}
    (h : List.Forall₂ (fun t e => parseExpression num t = .ok e) ts es) :
    ∃ (bodies : List (List Token)) (trees : List (ParsedExpr N)),
      List.Forall₂ (fun t b => lex t = .ok (ending b)) ts bodies ∧
      List.Forall₂ (fun b p => parseTrackedExpr num maxExpressionDepth (ending b) =
        .ok (p, [.eof])) bodies trees ∧ es = trees.map (·.expr) := by
  induction h with
  | nil => exact ⟨[], [], .nil, .nil, rfl⟩
  | @cons t e ts es ht _ ih =>
      obtain ⟨bodies, trees, hbodies, htrees, rfl⟩ := ih
      obtain ⟨tokens, htokens, htree⟩ := bind_eq_ok ht
      obtain ⟨body, rfl, _⟩ := lex_append htokens
      obtain ⟨p, hp, rfl⟩ := parseTracked_of_parseTokens (eof_notMem_of_lex htokens) htree
      exact ⟨body :: bodies, p :: trees, .cons htokens hbodies, .cons hp htrees, rfl⟩

/-- A text that parses leaves room for a node around it exactly if it keeps its tree one
    level down, in front of every stop, and the tree is below the ceiling. -/
theorem leavesRoom_stopping {t : Text} {body : List Token} {p : ParsedExpr N}
    (hlex : lex t = .ok (ending body))
    (hp : parseTrackedExpr num maxExpressionDepth (ending body) = .ok (p, [.eof])) :
    LeavesRoom num t ↔
      (∀ s, parseTrackedExpr num 127 (stopping s body) = .ok (p, stopping s [])) ∧
        p.depth < maxExpressionDepth := by
  rw [leavesRoom_iff hlex]
  constructor
  · rintro ⟨q, hq, hdepth⟩
    obtain hnested | hdeep := parse_nested hp (show 127 < maxExpressionDepth by decide)
    · have hparen := hnested ⟨.rparen, [.eof], .inl rfl⟩
      have hsame : parseTrackedExpr num 127 (closing [.eof] body) =
        .ok (p, [.rparen, .eof]) := hparen
      rw [hsame] at hq
      cases hq
      exact ⟨hnested, hdepth⟩
    · obtain ⟨l, hl⟩ := hdeep ⟨.rparen, [.eof], .inl rfl⟩
      have herror : parseTrackedExpr num 127 (closing [.eof] body) = .error (.tooDeep l) := hl
      rw [herror] at hq
      cases hq
  · rintro ⟨hnested, hdepth⟩
    exact ⟨p, hnested ⟨.rparen, [.eof], .inl rfl⟩, hdepth⟩

/-- The same for all arguments of a call. -/
theorem leavesRoom_arguments {ts : List Text} {bodies : List (List Token)}
    {trees : List (ParsedExpr N)}
    (hbodies : List.Forall₂ (fun t b => lex t = .ok (ending b)) ts bodies)
    (htrees : List.Forall₂ (fun b p => parseTrackedExpr num maxExpressionDepth (ending b) =
      .ok (p, [.eof])) bodies trees) :
    (∀ t ∈ ts, LeavesRoom num t) ↔
      List.Forall₂ (fun b p => ∀ s, parseTrackedExpr num 127 (stopping s b) =
          .ok (p, stopping s [])) bodies trees ∧ ∀ p ∈ trees, p.depth < maxExpressionDepth := by
  induction hbodies generalizing trees with
  | nil =>
      cases htrees
      simp
  | @cons t b ts bodies ht _ ih =>
      cases htrees with
      | @cons _ p _ trees hp hrest =>
          rw [List.forall_mem_cons, List.forall_mem_cons, List.forall₂_cons, ih hrest,
            leavesRoom_stopping ht hp]
          tauto

/-- The tree of a call of `format` on expressions that parse: they keep their trees, unless
    one of them leaves no room for the call. -/
theorem parse_formatText (literal : Text) {ts : List Text} {es : List (Expr N)}
    (h : List.Forall₂ (fun t e => parseExpression num t = .ok e) ts es) :
    ((∀ t ∈ ts, LeavesRoom num t) ∧ parseExpression num (formatText literal ts) =
        .ok (.call formatName (.literal (.string literal) :: es))) ∨
      ((¬ ∀ t ∈ ts, LeavesRoom num t) ∧
        ∃ l, parseExpression num (formatText literal ts) = .error (.tooDeep l)) := by
  obtain ⟨bodies, trees, hbodies, htrees, rfl⟩ := exists_bodies h
  rw [leavesRoom_arguments hbodies htrees]
  unfold parseExpression
  rw [lex_formatText hbodies]
  exact parseTokens_call formatName literal htrees

end Expressions

end Preloop

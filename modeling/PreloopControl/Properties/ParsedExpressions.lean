import PreloopControl.Properties.SecretReads

/-!
# What the Parser Accepts

A text that is accepted should be an expression as a whole. The parser falls
short of this in two places. Behind a call it gives up a suffix that does not
parse and goes on, and a number token that is no number becomes `null`. Both show
in the tokens alone: a dot without its segment, an opening bracket that is never
closed, a number that does not read.

The ceiling on the depth of trees holds without exception.

## Theorems

* `parse_exact`: An accepted token sequence is a derivation exactly if it is well
  formed.
* `parse_depth_tracked`: The tracked depth is the depth of the tree, and the
  evaluator never refuses a parsed tree for its depth.
-/

namespace Preloop

namespace Expressions

variable {N : Type}

/-- What is accepted derives its tree from all its tokens exactly if every dot is
    followed by an identifier or a star, every number token reads as a number, and
    as many brackets are closed as opened. -/
theorem parse_exact {num : Text → Option N} {ts : List Token} {e : Expr N}
    (h : parseTokens num ts = .ok e) :
    Derives num .or (beforeEnd ts) e ↔ wellFormedTokens num (beforeEnd ts) = true := by
  obtain ⟨p, rest, hp, hrest, rfl⟩ := parseTokens_parses h
  obtain ⟨used, rfl, hend, _, hused⟩ := parses_consumes hp
  rw [beforeEnd_append hend hrest]
  refine ⟨Derives.wellFormed, fun hwell => hused.resolve_right fun hflaw => ?_⟩
  rw [hflaw.not_wellFormed] at hwell
  cases hwell

/-- The tokens of `github.ref`. -/
def refTokens : List Token := [.ident "github".toList, .dot, .ident "ref".toList, .eof]

theorem parse_ref : parseTokens integerEngine.parseNumber refTokens =
    .ok (.path ["github".toList, "ref".toList]) := rfl

theorem parse_exact_of_ref :
    Derives integerEngine.parseNumber .or (beforeEnd refTokens)
      (.path ["github".toList, "ref".toList]) :=
  (parse_exact parse_ref).mpr (by decide)

/-- The tokens of `success().`. -/
def cutOffTokens : List Token := [.ident "success".toList, .lparen, .rparen, .dot, .eof]

/-- The dot behind a call is dropped. -/
theorem cut_off_suffix_accepted : lex "success().".toList = .ok cutOffTokens ∧
    parseTokens integerEngine.parseNumber cutOffTokens = .ok (.call "success".toList []) ∧
    ¬∃ e, Derives integerEngine.parseNumber .or (beforeEnd cutOffTokens) e := by
  refine ⟨by decide, rfl, ?_⟩
  rintro ⟨e, h⟩
  exact absurd h.wellFormed (by decide)

/-- On every token sequence: the tree the parser returns has the depth it
    tracked, at most the ceiling, and evaluating it never refuses for depth. -/
theorem parse_depth_tracked {num : Text → Option N} {ts rest : List Token} {p : ParsedExpr N}
    (h : parseTrackedExpr num maxExpressionDepth ts = .ok (p, rest)) :
    exprDepth p.expr = p.depth ∧ p.depth ≤ maxExpressionDepth ∧
      ∀ {F : Type} (engine : Engine N F), engine.HashesShallow → ∀ (ctx : Context N) (limit : Nat),
        evalFresh engine ctx p.expr ≠ .error (.tooDeep limit) := by
  have hp := parses_measured (parseOr_parses (parseUnary_parses _) _ _ _ h)
  have hdepth : exprDepth p.expr = p.depth := hp.1
  refine ⟨hdepth, hp.2, fun engine hhash ctx limit => ?_⟩
  have hfits : 0 + exprDepth p.expr ≤ maxExpressionDepth := by
    rw [hdepth, Nat.zero_add]
    exact hp.2
  have hdeep : ∀ e, IsTooDeep e → e.isReading = true := by
    rintro _ ⟨l, rfl⟩
    rfl
  have hspare : engine.HashesSpare IsTooDeep := fun workspace follow patterns =>
    shallow_iff.mp (hhash workspace follow patterns)
  exact (eval_neverFails hdeep hspare ctx p.expr 0 hfits 0).map _ _ ⟨limit, rfl⟩

/-- The tokens of `!(github.ref == 'a' && success())`. -/
def nestedTokens : List Token :=
  [.bang, .lparen, .ident "github".toList, .dot, .ident "ref".toList, .eq, .string "a".toList,
    .and, .ident "success".toList, .lparen, .rparen, .rparen, .eof]

/-- Their tree. -/
def nestedExpr : Expr Int :=
  .unaryNot (.binary .and
    (.binary .eq (.path ["github".toList, "ref".toList]) (.literal (.string "a".toList)))
    (.call "success".toList []))

theorem parse_depth_tracked_of_ref :
    exprDepth nestedExpr = 4 ∧
      ∀ limit, evalFresh integerEngine {} nestedExpr ≠ .error (.tooDeep limit) := by
  have hparse : parseTrackedExpr integerEngine.parseNumber maxExpressionDepth nestedTokens =
      .ok (⟨nestedExpr, 4⟩, [.eof]) := rfl
  have h := parse_depth_tracked hparse
  exact ⟨h.1, h.2.2 integerEngine (fun _ _ _ => shallow_ok []) {}⟩

end Expressions

end Preloop

import PreloopControl.Properties.TemplateTokens

/-!
# Two Emitters of Template Tokens

The job builder and the messages for the runner each turn a string into a token. Both
split it in the same way and put the same call of `format` together. They part on the
string that is one expression: the builder looks for it behind the white space around the
string, the messages only if there is none.

## Theorems

* `literal_placeholder_iff`: When the format string is its one placeholder.
* `wireStringValue_of_whole`: The message token of a lone expression.
* `emitters_agree_iff`: When the two emit the same token.
-/

namespace Preloop

namespace Workflow

open Expressions

/-! ## Spans -/

theorem escapeBrace_ne_nil (c : Char) : escapeBrace c ≠ [] := by
  unfold escapeBrace
  split
  · exact List.cons_ne_nil _ _
  · split
    · exact List.cons_ne_nil _ _
    · exact List.cons_ne_nil _ _

theorem doubleQuote_ne_nil (c : Char) : doubleQuote c ≠ [] := by
  unfold doubleQuote
  split
  · exact List.cons_ne_nil _ _
  · exact List.cons_ne_nil _ _

/-- The format string of one span is the bare placeholder if nothing follows the
    expression. -/
theorem literal_placeholder_iff (e last : Text) :
    (spansFormat 0 [([], e)] last).flatMap doubleQuote = placeholderText 0 ↔ last = [] := by
  have hformat : (spansFormat 0 [([], e)] last).flatMap doubleQuote =
      placeholderText 0 ++ (last.flatMap escapeBrace).flatMap doubleQuote := by
    rw [placeholderText_eq, ← List.flatMap_append]
    rfl
  rw [hformat, List.append_right_eq_self]
  refine ⟨fun hnil => ?_, fun hnil => by rw [hnil]; rfl⟩
  cases last with
  | nil => rfl
  | cons c last =>
      -- a character leaves at least itself
      rw [List.flatMap_eq_nil_iff] at hnil
      rcases List.exists_mem_of_ne_nil _ (escapeBrace_ne_nil c) with ⟨d, hd⟩
      exact absurd (hnil d (List.mem_flatMap.mpr ⟨c, List.mem_cons_self, hd⟩))
        (doubleQuote_ne_nil d)

/-- The first span starts where the first marker is. -/
theorem cut_of_spans {n : Nat} {t before e last : Text} {spans : List (Text × Text)}
    (h : templateSpans n t = some ((before, e) :: spans, last)) :
    ∃ after, Text.cut openMark t = some (before, after) := by
  cases n with
  | zero => cases h
  | succ n =>
      unfold templateSpans at h
      cases hcut : Text.cut openMark t with
      | none =>
          rw [hcut] at h
          cases h
      | some p =>
          rcases p with ⟨b, after⟩
          rw [hcut] at h
          dsimp only at h
          cases hend : findExpressionEnd false after with
          | none =>
              rw [hend] at h
              cases h
          | some q =>
              rw [hend] at h
              rcases Option.map_eq_some_iff.mp h with ⟨r, -, heq⟩
              cases heq
              exact ⟨after, rfl⟩

/-- What no marker follows is the rest. -/
theorem last_of_no_spans {n : Nat} {t last : Text} (h : templateSpans n t = some ([], last)) :
    last = t := by
  cases n with
  | zero =>
      cases h
      rfl
  | succ n =>
      unfold templateSpans at h
      cases hcut : Text.cut openMark t with
      | none =>
          rw [hcut] at h
          cases h
          rfl
      | some p =>
          rw [hcut] at h
          dsimp only at h
          cases hend : findExpressionEnd false p.2 with
          | none =>
              rw [hend] at h
              cases h
          | some q =>
              rw [hend] at h
              rcases Option.map_eq_some_iff.mp h with ⟨r, -, heq⟩
              cases heq

/-- A marked text has no white space around it. -/
theorem trim_marked {after source : Text} (h : after = source ++ (closeMark ++ [])) :
    Text.trim (openMark ++ after) = openMark ++ after := by
  have htext : openMark ++ after =
      ('$' :: lbrace :: lbrace :: (source ++ [rbrace])) ++ rbrace :: [] := by
    rw [h, openMark_eq, closeMark_eq]
    simp
  rw [htext, Text.trim_append_cons (by decide)]
  rfl

/-- One span with nothing around it is a whole expression. -/
theorem wholeExpression_of_span {t e : Text}
    (h : templateSpans t.length t = some ([([], e)], [])) : wholeExpression t = some e := by
  cases hlength : t.length with
  | zero =>
      rw [hlength] at h
      cases h
  | succ n =>
      rw [hlength] at h
      unfold templateSpans at h
      -- a span asks for both marks
      cases hcut : Text.cut openMark t with
      | none =>
          rw [hcut] at h
          cases h
      | some p =>
          rcases p with ⟨before, after⟩
          rw [hcut] at h
          dsimp only at h
          cases hend : findExpressionEnd false after with
          | none =>
              rw [hend] at h
              cases h
          | some q =>
              rcases q with ⟨source, rest⟩
              rw [hend] at h
              rcases Option.map_eq_some_iff.mp h with ⟨⟨spans, last⟩, hrest, heq⟩
              cases heq
              -- nothing is behind the span, or the last text would not be empty
              have hnil : rest = [] := (last_of_no_spans hrest).symm
              subst hnil
              have ht : t = openMark ++ after := Text.cut_eq hcut
              have htrim : Text.trim t = openMark ++ after := by
                rw [ht, trim_marked (findExpressionEnd_spec hend).1]
              unfold wholeExpression
              rw [htrim, List.isPrefixOf_iff_prefix.mpr (List.prefix_append _ _), if_pos rfl,
                List.drop_left, hend]

/-! ## Tokens -/

/-- The token of the messages over the spans. -/
theorem wireStringValue_spans {t before after last : Text} {spans : List (Text × Text)}
    (hcut : Text.cut openMark t = some (before, after))
    (hspans : templateSpans t.length t = some (spans, last)) :
    wireStringValue t =
      if before = [] ∧ (spansFormat 0 spans last).flatMap doubleQuote = placeholderText 0 ∧
          (spans.map (·.2)).length = 1 then .expr ((spans.map (·.2)).headD [])
      else .expr (formatText (spansFormat 0 spans last) (spans.map (·.2))) := by
  have hne : spans.map (·.2) ≠ [] := fun hnil =>
    spans_ne_nil hspans hcut (List.map_eq_nil_iff.mp hnil)
  unfold wireStringValue
  rw [hcut]
  dsimp only
  rw [tokenLoop_spans, hspans, Option.map_some]
  dsimp only
  rw [List.nil_append, List.nil_append, wireFormat_eq _ hne]
  rfl

/-- A call of `format` is longer than its arguments. -/
theorem formatText_ne (literal source : Text) : formatText literal [source] ≠ source := by
  intro heq
  have hlength := congrArg List.length heq
  simp only [formatText, argumentText, formatName, List.length_append, List.length_cons,
    List.flatMap_cons, List.flatMap_nil, List.length_nil] at hlength
  omega

/-- The token the messages have for a lone expression: the expression if nothing stands around
    it, else a longer one. -/
theorem wireStringValue_of_whole {t source : Text} (h : wholeExpression t = some source) :
    wireStringValue t = .expr source ↔ Text.trim t = t := by
  rcases spans_of_wholeExpression h with ⟨before, last, hspans, htrim⟩
  rcases cut_of_spans hspans with ⟨after, hcut⟩
  rw [wireStringValue_spans hcut hspans, htrim]
  by_cases halone : before = [] ∧
      (spansFormat 0 [(before, source)] last).flatMap doubleQuote = placeholderText 0
  · rcases halone with ⟨rfl, hliteral⟩
    rw [if_pos ⟨rfl, hliteral, rfl⟩]
    exact iff_of_true rfl ⟨rfl, (literal_placeholder_iff source last).mp hliteral⟩
  · rw [if_neg fun hall => halone ⟨hall.1, hall.2.1⟩]
    refine iff_of_false (fun heq => formatText_ne _ _ (TokenValue.expr.inj heq)) ?_
    rintro ⟨rfl, rfl⟩
    exact halone ⟨rfl, (literal_placeholder_iff source []).mpr rfl⟩

/-- The two emitters produce the same token, literal or expression, exactly for the strings
that are not a lone expression with white space around it. -/
theorem emitters_agree_iff (t : Text) :
    templateStringValue t = wireStringValue t ↔ Text.trim t = t ∨ wholeExpression t = none := by
  cases hwhole : wholeExpression t with
  | some source =>
      unfold templateStringValue
      rw [hwhole, eq_comm, wireStringValue_of_whole hwhole]
      simp
  | none =>
      refine iff_of_true ?_ (.inr rfl)
      unfold templateStringValue
      rw [hwhole]
      dsimp only
      cases hcut : Text.cut openMark t with
      | none =>
          unfold wireStringValue Text.contains
          rw [hcut]
          rfl
      | some p =>
          rcases p with ⟨before, after⟩
          have hcontains : (!Text.contains openMark t) = false := by
            unfold Text.contains
            rw [hcut]
            rfl
          rw [hcontains, if_neg Bool.false_ne_true, tokenLoop_spans]
          cases hspans : templateSpans t.length t with
          | none =>
              -- an unclosed expression is a literal for both
              unfold wireStringValue
              rw [hcut]
              dsimp only
              rw [tokenLoop_spans, hspans]
              rfl
          | some q =>
              rcases q with ⟨spans, last⟩
              have hmore : ¬ (before = [] ∧
                  (spansFormat 0 spans last).flatMap doubleQuote = placeholderText 0 ∧
                    (spans.map (·.2)).length = 1) := by
                rintro ⟨rfl, hliteral, hone⟩
                -- one span with nothing around it would be a whole expression
                rw [List.length_map, List.length_eq_one_iff] at hone
                rcases hone with ⟨⟨b, e⟩, rfl⟩
                rcases cut_of_spans hspans with ⟨after', hcut'⟩
                rw [hcut] at hcut'
                cases hcut'
                rw [(literal_placeholder_iff e last).mp hliteral] at hspans
                rw [wholeExpression_of_span hspans] at hwhole
                cases hwhole
              rw [wireStringValue_spans hcut hspans, if_neg hmore, Option.map_some]
              dsimp only
              rw [List.nil_append, List.nil_append, formatExpression_eq]
              rfl

/-- An expression behind a blank. -/
theorem padded_tokens_differ :
    templateStringValue " $\x7b\x7b x \x7d\x7d".toList = .expr "x".toList ∧
      wireStringValue " $\x7b\x7b x \x7d\x7d".toList =
        .expr "format(' \x7b0\x7d', x)".toList := by
  decide

end Workflow

end Preloop

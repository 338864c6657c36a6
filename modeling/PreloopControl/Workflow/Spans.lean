import PreloopControl.Expressions.Formatting
import PreloopControl.Workflow.Conditions
import PreloopControl.Workflow.TaskSteps

/-!
# Spans of Templates

A string is split at its expressions, and the tokens are put together from the pieces.
What is put together can be marked as an expression again and is found as a whole: the
closing markers in it stand in literals.

## Main definitions

* `templateSpans`: The spans of a string.
* `spansFormat`: Their format string.
* `Sealed`: A text that does not end its expression.

## Theorems

* `tokenLoop_spans`: The loop of the tokens over the spans.
* `findExpressionEnd_append`: The search for the end passes over a sealed text.
-/

namespace Preloop

namespace Workflow

open Expressions

variable {N F : Type}

/-! ## Spans -/

/-- The text before each expression, and the expression, and the text behind the last;
    nothing if an expression is unclosed. -/
def templateSpans : Nat → Text → Option (List (Text × Text) × Text)
  | 0, remaining => some ([], remaining)
  | n + 1, remaining =>
    match Text.cut openMark remaining with
    | none => some ([], remaining)
    | some (before, source) =>
      match findExpressionEnd false source with
      | none => none
      | some (e, rest) =>
        (templateSpans n rest).map fun p => ((before, Text.trim e) :: p.1, p.2)

/-- The format string of the spans, its expressions numbered from `i`. -/
def spansFormat : Nat → List (Text × Text) → Text → Text
  | _, [], last => last.flatMap escapeBrace
  | i, (before, _) :: spans, last =>
    before.flatMap escapeBrace ++ (formatItem i ++ spansFormat (i + 1) spans last)

/-! ## The loop of the tokens -/

theorem escapeFormat_eq (c : Char) : escapeFormat c = (escapeBrace c).flatMap doubleQuote := by
  unfold escapeFormat escapeBrace
  by_cases hq : c = quote
  · subst hq
    decide
  · by_cases hl : c = lbrace
    · subst hl
      decide
    · by_cases hr : c = rbrace
      · subst hr
        decide
      · rw [if_neg hq, if_neg hl, if_neg hr]
        simp [doubleQuote, hq]

theorem appendFormatLiteral_eq (target literal : Text) :
    appendFormatLiteral target literal =
      target ++ (literal.flatMap escapeBrace).flatMap doubleQuote := by
  unfold appendFormatLiteral
  rw [List.flatMap_assoc]
  congr 2
  funext c
  exact escapeFormat_eq c

/-- A placeholder has no quotes. -/
theorem placeholderText_eq (i : Nat) : placeholderText i = (formatItem i).flatMap doubleQuote := by
  have hplain : ∀ t : Text, quote ∉ t → t.flatMap doubleQuote = t := by
    intro t ht
    induction t with
    | nil => rfl
    | cons c t ih =>
        rw [List.mem_cons, not_or] at ht
        rw [List.flatMap_cons, ih ht.2, doubleQuote, if_neg (Ne.symm ht.1)]
        rfl
  refine (hplain _ ?_).symm
  intro hmem
  unfold placeholderText at hmem
  rw [List.mem_cons, List.mem_append, List.mem_singleton] at hmem
  obtain h | h | h := hmem
  · exact absurd h (by decide)
  · have := Nat.isDigit_of_mem_toDigits (b := 10) (by decide) (by decide) h
    exact absurd this (by decide)
  · exact absurd h (by decide)

/-- The loop of the token builds the format string of the spans. -/
theorem tokenLoop_spans (n : Nat) : ∀ (format : Text) (expressions : List Text) (remaining : Text),
    tokenLoop n format expressions remaining = (templateSpans n remaining).map fun p =>
      (format ++ (spansFormat expressions.length p.1 p.2).flatMap doubleQuote,
        expressions ++ p.1.map (·.2)) := by
  induction n with
  | zero =>
      intro format expressions remaining
      simp [tokenLoop, templateSpans, spansFormat, appendFormatLiteral_eq]
  | succ n ih =>
      intro format expressions remaining
      unfold tokenLoop templateSpans
      cases hcut : Text.cut openMark remaining with
      | none => simp [spansFormat, appendFormatLiteral_eq]
      | some p =>
          obtain ⟨before, source⟩ := p
          dsimp only
          cases hend : findExpressionEnd false source with
          | none => rfl
          | some p =>
              obtain ⟨e, rest⟩ := p
              dsimp only
              rw [ih, Option.map_map]
              congr 1
              funext p
              simp [spansFormat, appendFormatLiteral_eq, placeholderText_eq, List.flatMap_append]

/-- The expression of the token is the call of `format` on the spans. -/
theorem formatExpression_eq (format : Text) (expressions : List Text) :
    formatExpression (format.flatMap doubleQuote) expressions = formatText format expressions := by
  have hname : "format(".toList = formatName ++ ['('] := by decide
  unfold formatExpression formatText formatArguments argumentText
  rw [hname]
  simp only [List.append_assoc, List.cons_append, List.nil_append]

/-- A span is what was found before a closing marker, trimmed. -/
theorem find_of_spans (n : Nat) : ∀ {remaining last : Text} {spans : List (Text × Text)},
    templateSpans n remaining = some (spans, last) → ∀ s ∈ spans,
      ∃ t e rest, findExpressionEnd false t = some (e, rest) ∧ s.2 = Text.trim e := by
  induction n with
  | zero =>
      intro remaining last spans h
      cases h
      simp
  | succ n ih =>
      intro remaining last spans h
      unfold templateSpans at h
      cases hcut : Text.cut openMark remaining with
      | none =>
          rw [hcut] at h
          cases h
          simp
      | some p =>
          obtain ⟨before, source⟩ := p
          rw [hcut] at h
          dsimp only at h
          cases hend : findExpressionEnd false source with
          | none =>
              rw [hend] at h
              cases h
          -- a round takes one span, and the rest of the text has the others
          | some p =>
              obtain ⟨e, rest⟩ := p
              rw [hend] at h
              obtain ⟨⟨spans', last'⟩, hrec, heq⟩ := Option.map_eq_some_iff.mp h
              cases heq
              rw [List.forall_mem_cons]
              exact ⟨⟨source, e, rest, hend, rfl⟩, ih hrec⟩

/-- What stands in a span has no white space around it. -/
theorem trim_of_spans {n : Nat} {remaining last : Text} {spans : List (Text × Text)}
    (h : templateSpans n remaining = some (spans, last)) : ∀ s ∈ spans, Text.trim s.2 = s.2 := by
  intro s hs
  obtain ⟨t, e, rest, _, he⟩ := find_of_spans n h s hs
  rw [he, Text.trim_trim]

theorem trim_formatText (literal : Text) (ts : List Text) :
    Text.trim (formatText literal ts) = formatText literal ts := by
  have hlast := Text.trim_append_cons (c := ')') (by decide)
    (formatName ++ '(' :: quote :: (literal.flatMap doubleQuote ++
      quote :: ts.flatMap (", ".toList ++ ·))) []
  have htext : formatText literal ts = (formatName ++ '(' :: quote ::
      (literal.flatMap doubleQuote ++ quote :: ts.flatMap (", ".toList ++ ·))) ++ [')'] := by
    simp [formatText, argumentText]
  rw [htext, hlast]
  rfl

/-! ## Sealed texts -/

/-- A text that does not end its expression: no closing marker in it stands outside the
    literals, and every literal is closed. -/
def Sealed : Bool → Text → Prop
  | inQuote, [] => inQuote = false
  | inQuote, c :: t =>
    if c = quote then Sealed (!inQuote) t
    else (inQuote = true ∨ c ≠ rbrace ∨ t.head? ≠ some rbrace) ∧ Sealed inQuote t

theorem sealed_quote (inQuote : Bool) (t : Text) :
    Sealed inQuote (quote :: t) ↔ Sealed (!inQuote) t := by
  rw [Sealed, if_pos rfl]

theorem sealed_cons {c : Char} (hc : c ≠ quote) (inQuote : Bool) (t : Text) :
    Sealed inQuote (c :: t) ↔
      (inQuote = true ∨ c ≠ rbrace ∨ t.head? ≠ some rbrace) ∧ Sealed inQuote t := by
  rw [Sealed, if_neg hc]

/-- The search for the end passes over a sealed text. -/
theorem findExpressionEnd_append {e : Text} {inQuote : Bool} (h : Sealed inQuote e)
    (hlast : e.getLast? ≠ some rbrace) (rest : Text) :
    findExpressionEnd inQuote (e ++ (closeMark ++ rest)) = some (e, rest) := by
  induction e generalizing inQuote with
  | nil =>
      rw [Sealed] at h
      subst h
      rw [closeMark_eq]
      rfl
  | cons c t ih =>
      have htail : t.getLast? ≠ some rbrace := by
        intro ht
        cases t with
        | nil => cases ht
        | cons d t => exact hlast (by rw [List.getLast?_cons_cons, ht])
      rw [List.cons_append]
      unfold findExpressionEnd
      by_cases hc : c = quote
      · subst hc
        rw [if_pos rfl, ih ((sealed_quote _ _).mp h) htail]
        rfl
      · obtain ⟨hopen, hsealed⟩ := (sealed_cons hc _ _).mp h
        -- a brace in front of the marker would be the last of the text
        have hno : ¬ (!inQuote && decide (c = rbrace) &&
            decide ((t ++ (closeMark ++ rest)).head? = some rbrace)) = true := by
          simp only [Bool.and_eq_true, decide_eq_true_eq, Bool.not_eq_true']
          rintro ⟨⟨hq, hb⟩, hhead⟩
          cases t with
          | nil => exact hlast (by rw [hb]; rfl)
          | cons d t =>
              obtain h | h | h := hopen
              · rw [hq] at h
                cases h
              · exact h hb
              · exact h hhead
        rw [if_neg hc, if_neg hno, ih hsealed htail]
        rfl

/-- Sealed texts behind each other, unless a marker arises between them. -/
theorem sealed_append {x y : Text} {inQuote : Bool} (hx : Sealed inQuote x) (hy : Sealed false y)
    (hxy : x.getLast? ≠ some rbrace ∨ y.head? ≠ some rbrace) : Sealed inQuote (x ++ y) := by
  induction x generalizing inQuote with
  | nil =>
      rw [Sealed] at hx
      rwa [hx]
  | cons c t ih =>
      have htail : t.getLast? ≠ some rbrace ∨ y.head? ≠ some rbrace := by
        cases t with
        | nil => exact .inl (by simp)
        | cons d t => rwa [List.getLast?_cons_cons] at hxy
      rw [List.cons_append]
      by_cases hc : c = quote
      · subst hc
        rw [sealed_quote] at hx ⊢
        exact ih hx htail
      · rw [sealed_cons hc] at hx ⊢
        refine ⟨?_, ih hx.2 htail⟩
        obtain hq | hb | hhead := hx.1
        · exact .inl hq
        · exact .inr (.inl hb)
        · cases t with
          | nil =>
              obtain hlast | hy := hxy
              · exact .inr (.inl fun hb => hlast (by rw [hb]; rfl))
              · exact .inr (.inr hy)
          | cons d t => exact .inr (.inr hhead)

theorem ne_quote_of_whitespace {c : Char} (h : Text.isWhitespace c = true) :
    c ≠ quote ∧ c ≠ rbrace := by
  constructor
  · rintro rfl
    exact absurd h (by decide)
  · rintro rfl
    exact absurd h (by decide)

/-- A literal is sealed whatever it says. -/
theorem sealed_literal (s : Text) : Sealed false (quote :: (s.flatMap doubleQuote ++ [quote])) := by
  rw [sealed_quote]
  induction s with
  | nil => rfl
  | cons c s ih =>
      rw [List.flatMap_cons]
      unfold doubleQuote
      by_cases hc : c = quote
      · rw [if_pos hc, List.append_assoc]
        exact (sealed_quote _ _).mpr ((sealed_quote _ _).mpr ih)
      · rw [if_neg hc, List.append_assoc]
        exact (sealed_cons hc _ _).mpr ⟨.inl rfl, ih⟩

/-! ## Tokens read back -/

/-- The expressions of a message are separated as the arguments of a call are. -/
theorem intercalate_arguments {expressions : List Text} (h : expressions ≠ []) :
    ", ".toList ++ ", ".toList.intercalate expressions = formatArguments expressions := by
  induction expressions with
  | nil => exact absurd rfl h
  | cons e es ih =>
      by_cases hes : es = []
      · subst hes
        rw [List.intercalate_singleton]
        simp [formatArguments]
      · have hrec := ih hes
        rw [formatArguments] at hrec
        rw [List.intercalate_cons_of_ne_nil hes, formatArguments, List.flatMap_cons, ← hrec]
        simp only [List.append_assoc]

/-- The call a message carries is the call of `format` on the spans. -/
theorem wireFormat_eq (literal : Text) {expressions : List Text} (h : expressions ≠ []) :
    "format(".toList ++ (quote :: literal.flatMap doubleQuote) ++
      (quote :: ", ".toList ++ ", ".toList.intercalate expressions) ++ [')'] =
      formatText literal expressions := by
  rw [← formatExpression_eq, List.cons_append, intercalate_arguments h]
  rfl

theorem spans_ne_nil {value before source last : Text} {spans : List (Text × Text)}
    (h : templateSpans value.length value = some (spans, last))
    (hcut : Text.cut openMark value = some (before, source)) : spans ≠ [] := by
  have hlength : ∃ n, value.length = n + 1 :=
    Nat.exists_eq_add_one.mpr (by rw [Text.cut_eq hcut, openMark_eq]; simp)
  obtain ⟨n, hn⟩ := hlength
  rw [hn, templateSpans, hcut] at h
  dsimp only at h
  cases hend : findExpressionEnd false source with
  | none =>
      rw [hend] at h
      cases h
  | some p =>
      rw [hend] at h
      obtain ⟨q, _, heq⟩ := Option.map_eq_some_iff.mp h
      cases heq
      exact List.cons_ne_nil _ _

end Workflow

end Preloop

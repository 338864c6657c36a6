import PreloopControl.Expressions.Lexemes
import PreloopControl.Properties.SecretReads
import PreloopControl.Workflow.Spans

/-!
# Where Expressions End

A template is split by a scanner that knows nothing of tokens but the quotes. Piece by
piece it agrees with the lexer: a closing brace stands in literals only, and every literal
is closed. So the scanner stops right behind an expression, whatever follows, and a
template is split where its expressions are.

## Main definitions

* `interleave`: Texts and marked expressions in turn.
* `resolveParts`: What is made of them, one expression after the other.

## Theorems

* `sealed_of_lexed`: An expression does not end early.
* `cut_free`: A marker is found behind a text without one.
* `template_split_exact`: Templates are split exactly at their expressions.
-/

namespace Preloop

namespace Workflow

open Expressions

variable {N F : Type}

/-! ## Pieces -/

/-- Characters that are neither quotes nor closing braces end nothing. -/
theorem sealed_plain {u : Text} (h : ∀ c ∈ u, c ≠ quote ∧ c ≠ rbrace) : Sealed false u := by
  induction u with
  | nil => rfl
  | cons c u ih =>
      rw [List.forall_mem_cons] at h
      exact (sealed_cons h.1.1 _ _).mpr ⟨.inr (.inl h.1.2), ih h.2⟩

theorem getLast_plain {u : Text} (h : ∀ c ∈ u, c ≠ quote ∧ c ≠ rbrace) :
    u.getLast? ≠ some rbrace := fun hlast => (h rbrace (List.mem_of_getLast? hlast)).2 rfl

theorem plain_of_numeric {c : Char} (h : numeric c = true) : c ≠ quote ∧ c ≠ rbrace := by
  constructor
  · rintro rfl
    revert h
    decide
  · rintro rfl
    revert h
    decide

theorem plain_of_identPart {c : Char} (h : identPart c = true) : c ≠ quote ∧ c ≠ rbrace := by
  constructor
  · rintro rfl
    revert h
    decide
  · rintro rfl
    revert h
    decide

theorem plain_of_symbol {c : Char} (h : c ∈ symbolChars) : c ≠ quote ∧ c ≠ rbrace := by
  constructor
  · rintro rfl
    revert h
    decide
  · rintro rfl
    revert h
    decide

/-- A piece does not end its expression, and no brace is its last character. -/
theorem sealed_of_lexeme {u rest : Text} {token : Option Token} (h : Lexeme u token rest) :
    Sealed false u ∧ u.getLast? ≠ some rbrace := by
  have hplain : (∀ c ∈ u, c ≠ quote ∧ c ≠ rbrace) →
      Sealed false u ∧ u.getLast? ≠ some rbrace := fun h => ⟨sealed_plain h, getLast_plain h⟩
  cases h with
  | blank h =>
      refine hplain ?_
      rw [List.forall_mem_singleton]
      exact ne_quote_of_whitespace h
  | string s hrest =>
      refine ⟨sealed_literal s, ?_⟩
      rw [← List.cons_append, List.getLast?_concat]
      decide
  | number hc hu =>
      refine hplain (List.forall_mem_cons.mpr ⟨?_, fun d hd => plain_of_numeric (hu d hd)⟩)
      exact plain_of_numeric (numeric_of_isDigit hc)
  | word hc hu hrest =>
      refine hplain (List.forall_mem_cons.mpr ⟨?_, fun d hd => plain_of_identPart (hu d hd)⟩)
      exact plain_of_identPart (identPart_of_identStart hc)
  | symbol h => exact hplain fun c hc => plain_of_symbol ((symbolText_chars h).2 c hc)

/-- An expression does not end early, nor with a brace. -/
theorem sealed_of_lexed {t : Text} {tokens : List Token} (h : Lexed t tokens) :
    Sealed false t ∧ t.getLast? ≠ some rbrace := by
  induction h with
  | nil => exact ⟨rfl, fun hlast => by cases hlast⟩
  | @cons u rest token tokens hu hrest ih =>
      rcases sealed_of_lexeme hu with ⟨hsealed, hlast⟩
      refine ⟨sealed_append hsealed ih.1 (.inl hlast), ?_⟩
      rw [List.getLast?_append]
      cases hrest : rest.getLast? with
      | none => simpa using hlast
      | some c =>
          rw [hrest] at ih
          simpa using ih.2

/-- The search for the end stops right behind the expression. -/
theorem findExpressionEnd_of_lex {e : Text} {tokens : List Token} (h : lex e = .ok tokens)
    (r : Text) : findExpressionEnd false (e ++ (closeMark ++ r)) = some (e, r) := by
  rcases sealed_of_lexed (lexed_of_lex h) with ⟨hsealed, hlast⟩
  exact findExpressionEnd_append hsealed hlast r

/-! ## Markers -/

/-- A pattern whose first character does not recur in it is found behind a text that is free
    of it. -/
theorem cut_free {d : Char} {ds : Text} (hd : d ∉ ds) {a : Text}
    (ha : Text.contains (d :: ds) a = false) (b : Text) :
    Text.cut (d :: ds) (a ++ (d :: ds ++ b)) = some (a, b) := by
  induction a with
  | nil => exact Text.cut_append (List.cons_ne_nil _ _) b
  | cons c a ih =>
      have hfree : ¬ (d :: ds).isPrefixOf (c :: a) = true ∧ Text.contains (d :: ds) a = false := by
        unfold Text.contains Text.cut at ha
        by_cases hpre : (d :: ds).isPrefixOf (c :: a) = true
        · rw [if_pos hpre] at ha
          cases ha
        · rw [if_neg hpre, Option.isSome_map] at ha
          exact ⟨hpre, ha⟩
      rw [List.cons_append]
      unfold Text.cut
      have hno : ¬ (d :: ds).isPrefixOf (c :: (a ++ (d :: ds ++ b))) = true := by
        intro hpre
        rw [List.isPrefixOf_iff_prefix, List.cons_prefix_cons] at hpre
        rcases hpre with ⟨hdc, hpre⟩
        rcases List.prefix_or_prefix_of_prefix hpre (List.prefix_append a _) with hin | ⟨w, hw⟩
        · exact hfree.1 (List.isPrefixOf_iff_prefix.mpr (List.cons_prefix_cons.mpr ⟨hdc, hin⟩))
        · cases w with
          | nil =>
              rw [List.append_nil] at hw
              exact hfree.1 (List.isPrefixOf_iff_prefix.mpr
                (List.cons_prefix_cons.mpr ⟨hdc, hw ▸ List.prefix_rfl⟩))
          | cons x w =>
              -- the pattern would reach over its own first character
              rw [← hw, List.prefix_append_right_inj, List.cons_append,
                List.cons_prefix_cons] at hpre
              rw [hpre.1] at hw
              exact hd (by rw [← hw]; simp)
      rw [if_neg hno, ih hfree.2]
      rfl

theorem cut_openMark {a : Text} (ha : Text.contains openMark a = false) (b : Text) :
    Text.cut openMark (a ++ (openMark ++ b)) = some (a, b) := by
  rw [openMark_eq] at ha ⊢
  exact cut_free (by decide) ha b

theorem cut_of_not_contains {pat t : Text} (h : Text.contains pat t = false) :
    Text.cut pat t = none := by
  unfold Text.contains at h
  exact Option.not_isSome_iff_eq_none.mp (by rw [h]; exact Bool.false_ne_true)

/-! ## Templates -/

/-- Texts, each with a marked expression behind it, and a last text. -/
def interleave : List (Text × Text) → Text → Text
  | [], last => last
  | (before, e) :: parts, last =>
    before ++ (openMark ++ (e ++ (closeMark ++ interleave parts last)))

/-- The expressions evaluated in their order, each behind its text. -/
def resolveParts (engine : Engine N F) (ctx : Context N) :
    List (Text × Text) → Text → Except TemplateError Text
  | [], last => .ok last
  | (before, e) :: parts, last => do
    let value ← (evalExpression engine (Text.trim e) ctx).mapError .expression
    let result ← resolveParts engine ctx parts last
    return before ++ stringValue engine value ++ result

/-- Texts without the opening marker, and expressions the lexer accepts. -/
def Splits (parts : List (Text × Text)) : Prop :=
  ∀ p ∈ parts, Text.contains openMark p.1 = false ∧ ∃ tokens, lex p.2 = .ok tokens

theorem length_interleave (parts : List (Text × Text)) (last : Text) :
    parts.length ≤ (interleave parts last).length := by
  induction parts with
  | nil => exact Nat.zero_le _
  | cons p parts ih =>
      have hmark : openMark.length = 3 := by rw [openMark_eq]; rfl
      simp only [interleave, List.length_append, List.length_cons, hmark]
      omega

/-- The loop of the template takes one part in each round. -/
theorem resolveLoop_interleave {engine : Engine N F} {ctx : Context N} {last : Text}
    (hlast : Text.contains openMark last = false) {parts : List (Text × Text)}
    (hparts : Splits parts) : ∀ {n : Nat}, parts.length ≤ n →
      resolveLoop engine ctx n (interleave parts last) = resolveParts engine ctx parts last := by
  -- the induction is on the parts, and a round of the loop takes the first one
  induction parts with
  | nil =>
      intro n _
      cases n with
      | zero => rfl
      | succ n =>
          unfold resolveLoop interleave
          rw [cut_of_not_contains hlast]
          rfl
  | cons p parts ih =>
      intro n hn
      cases n with
      | zero => cases hn
      | succ n =>
          rcases p with ⟨before, e⟩
          rw [Splits, List.forall_mem_cons] at hparts
          rcases hparts with ⟨⟨hbefore, tokens, hlex⟩, hrest⟩
          unfold resolveLoop interleave
          rw [cut_openMark hbefore]
          dsimp only
          rw [findExpressionEnd_of_lex hlex]
          dsimp only
          rw [ih hrest (Nat.le_of_succ_le_succ hn)]
          rfl

/-- The search for the end of an expression stops right behind every text the lexer accepts,
whatever follows the marker; and a template of texts without an opening marker and expressions
the lexer accepts is resolved expression by expression, each in its place. -/
theorem template_split_exact :
    (∀ {e : Text} {tokens : List Token}, lex e = .ok tokens → ∀ r : Text,
      findExpressionEnd false (e ++ (closeMark ++ r)) = some (e, r)) ∧
    ∀ {N F : Type} (engine : Engine N F) (ctx : Context N) {parts : List (Text × Text)}
      {last : Text}, Splits parts → Text.contains openMark last = false →
        resolveString engine (interleave parts last) ctx = resolveParts engine ctx parts last :=
  ⟨findExpressionEnd_of_lex, fun _ _ => fun hparts hlast =>
    resolveLoop_interleave hlast hparts (length_interleave _ _)⟩

/-- A closing marker in a literal, and a dollar sign in front of an opening one. -/
theorem template_split_exact_of_markers :
    findExpressionEnd false ("'\x7d\x7d'".toList ++ (closeMark ++ "\x7d".toList)) =
        some ("'\x7d\x7d'".toList, "\x7d".toList) ∧
      resolveString integerEngine (interleave [("$".toList, "'\x7d\x7d'".toList)] []) {} =
        resolveParts integerEngine {} [("$".toList, "'\x7d\x7d'".toList)] [] := by
  have hlex : lex "'\x7d\x7d'".toList = .ok [.string "\x7d\x7d".toList, .eof] := by decide
  refine ⟨template_split_exact.1 hlex _, template_split_exact.2 integerEngine {} ?_ rfl⟩
  intro p hp
  rw [List.mem_singleton] at hp
  rw [hp]
  exact ⟨by decide, _, hlex⟩

end Workflow

end Preloop

import PreloopControl.Expressions.Calls

/-!
# Lexemes

The pieces a text is read in. Each round of the lexer takes one of them off the text, and
what follows does not continue it. Scanners that read the text character by character are
compared with the lexer piece by piece.

## Main definitions

* `symbolText`: The text of the tokens that have only one.
* `Lexeme`: A piece of a text, its token and what follows it.
* `Lexed`: A text in pieces.

## Theorems

* `lexed_of_lex`: A text that lexes is in pieces.
-/

namespace Preloop

namespace Expressions

open Fallible

/-! ## Pieces -/

/-- The text of an operator or of a punctuation mark. -/
def symbolText : Token → Option Text
  | .dot => some ['.']
  | .comma => some [',']
  | .lparen => some ['(']
  | .rparen => some [')']
  | .lbracket => some ['[']
  | .rbracket => some [']']
  | .star => some ['*']
  | .bang => some ['!']
  | .and => some ['&', '&']
  | .or => some ['|', '|']
  | .eq => some ['=', '=']
  | .ne => some ['!', '=']
  | .gt => some ['>']
  | .ge => some ['>', '=']
  | .lt => some ['<']
  | .le => some ['<', '=']
  | _ => none

/-- A piece of a text, the token it is, if any, and the text behind it. -/
inductive Lexeme : Text → Option Token → Text → Prop
  | blank {c : Char} {rest : Text} (h : Text.isWhitespace c = true) : Lexeme [c] none rest
  | string (s : Text) {rest : Text} (hrest : ∀ c ∈ rest.head?, c ≠ quote) :
      Lexeme (quote :: (s.flatMap doubleQuote ++ [quote])) (some (.string s)) rest
  | number {c : Char} {u rest : Text} (hc : c.isDigit = true) (hu : ∀ d ∈ u, numeric d = true) :
      Lexeme (c :: u) (some (.number (c :: u))) rest
  | word {c : Char} {u rest : Text} (hc : identStart c = true) (hu : ∀ d ∈ u, identPart d = true)
      (hrest : ∀ d ∈ rest.head?, identPart d = false) :
      Lexeme (c :: u) (some (wordToken (c :: u))) rest
  | symbol {token : Token} {u rest : Text} (h : symbolText token = some u) :
      Lexeme u (some token) rest

/-- A text in pieces, with its tokens. -/
inductive Lexed : Text → List Token → Prop
  | nil : Lexed [] [.eof]
  | cons {u rest : Text} {token : Option Token} {tokens : List Token} (hu : Lexeme u token rest)
      (h : Lexed rest tokens) : Lexed (u ++ rest) (token.toList ++ tokens)

/-! ## What the lexer takes -/

/-- A round that starts at `c` takes a piece. -/
def Takes (c : Char) (f : Text → Result (Option Token × Text)) : Prop :=
  ∀ t tok r, f t = .ok (tok, r) → ∃ u, c :: t = u ++ r ∧ Lexeme u tok r

theorem Takes.ite {c : Char} {p : Prop} [Decidable p] {f g : Text → Result (Option Token × Text)}
    (hf : p → Takes c f) (hg : ¬ p → Takes c g) : Takes c fun t => if p then f t else g t := by
  by_cases hp : p
  · simpa only [if_pos hp] using hf hp
  · simpa only [if_neg hp] using hg hp

theorem takes_symbol {c : Char} {token : Token} (h : symbolText token = some [c]) :
    Takes c fun t => .ok (some token, t) := by
  intro t tok r heq
  cases heq
  exact ⟨[c], rfl, .symbol h⟩

/-- A literal is closed, and no quote follows. -/
theorem lexString_spec {t s r : Text} (h : lexString t = .ok (s, r)) :
    t = s.flatMap doubleQuote ++ quote :: r ∧ ∀ c ∈ r.head?, c ≠ quote := by
  -- the induction is along the reader: a doubled quote stands for one, a single quote closes
  induction t using lexString.induct generalizing s r with
  | case1 => cases h
  | case2 =>
      simp only [lexString, if_pos] at h
      cases h
      exact ⟨rfl, fun c hc => by cases hc⟩
  | case3 t ih =>
      simp only [lexString, if_pos] at h
      rcases map_eq_ok h with ⟨p, hp, hq⟩
      cases hq
      rcases ih hp with ⟨ht, hr⟩
      refine ⟨?_, hr⟩
      rw [ht, List.flatMap_cons, doubleQuote, if_pos rfl]
      rfl
  | case4 c t hc =>
      simp only [lexString, if_pos, if_neg hc] at h
      cases h
      refine ⟨rfl, fun d hd => ?_⟩
      cases hd
      exact hc
  | case5 c t hc ih =>
      unfold lexString at h
      rw [if_neg hc] at h
      rcases map_eq_ok h with ⟨p, hp, hq⟩
      cases hq
      rcases ih hp with ⟨ht, hr⟩
      refine ⟨?_, hr⟩
      rw [ht, List.flatMap_cons, doubleQuote, if_neg hc]
      rfl

theorem takes_string : Takes quote fun t => (lexString t).map fun p =>
    (some (.string p.1), p.2) := by
  intro t tok r h
  rcases map_eq_ok h with ⟨p, hp, hq⟩
  cases hq
  rcases lexString_spec hp with ⟨ht, hr⟩
  refine ⟨quote :: (p.1.flatMap doubleQuote ++ [quote]), ?_, .string p.1 hr⟩
  rw [ht]
  simp

theorem takes_number {c : Char} (hc : c.isDigit = true) : Takes c fun t =>
    .ok (some (.number ((c :: t).takeWhile numeric)), (c :: t).dropWhile numeric) := by
  intro t tok r h
  cases h
  have hstart : numeric c = true := numeric_of_isDigit hc
  rw [List.takeWhile_cons_of_pos hstart, List.dropWhile_cons_of_pos hstart]
  refine ⟨c :: t.takeWhile numeric, ?_, .number hc fun d hd => List.mem_takeWhile_imp hd⟩
  rw [List.cons_append, List.takeWhile_append_dropWhile]

theorem takes_word {c : Char} (hc : identStart c = true) : Takes c fun t =>
    .ok (some (wordToken ((c :: t).takeWhile identPart)), (c :: t).dropWhile identPart) := by
  intro t tok r h
  cases h
  have hstart : identPart c = true := identPart_of_identStart hc
  rw [List.takeWhile_cons_of_pos hstart, List.dropWhile_cons_of_pos hstart]
  refine ⟨c :: t.takeWhile identPart, ?_,
    .word hc (fun d hd => List.mem_takeWhile_imp hd) fun d hd => ?_⟩
  · rw [List.cons_append, List.takeWhile_append_dropWhile]
  · have hhead := List.head?_dropWhile_not identPart t
    rw [Option.mem_def.mp hd] at hhead
    simpa using hhead

theorem takes_twoChar {c next : Char} {long short : Token}
    (hlong : symbolText long = some [c, next])
    (hshort : symbolText short = some [c]) : Takes c fun t =>
      .ok (some (twoChar next long short t).1, (twoChar next long short t).2) := by
  intro t tok r h
  cases h
  cases t with
  | nil => exact ⟨[c], rfl, .symbol hshort⟩
  | cons d t =>
      have htwo : twoChar next long short (d :: t) =
          if d = next then (long, t) else (short, d :: t) := rfl
      rw [htwo]
      by_cases hd : d = next
      · rw [if_pos hd, hd]
        exact ⟨[c, next], rfl, .symbol hlong⟩
      · rw [if_neg hd]
        exact ⟨[c], rfl, .symbol hshort⟩

theorem takes_doubled {c : Char} {token : Token} (h : symbolText token = some [c, c]) :
    Takes c (doubled c token) := by
  intro t tok r heq
  cases t with
  | nil => cases heq
  | cons d t =>
      by_cases hd : d = c
      · simp only [doubled, if_pos hd] at heq
        cases heq
        exact ⟨[c, c], by rw [hd]; rfl, .symbol h⟩
      · simp only [doubled, if_neg hd] at heq
        cases heq

theorem punctuation_symbol {c : Char} {token : Token} (h : punctuation c = some token) :
    symbolText token = some [c] := by
  unfold punctuation at h
  repeat' split at h
  all_goals first
    | (cases h; subst_vars; rfl)
    | cases h

theorem takes_lexStep (c : Char) : Takes c (lexStep c) := by
  unfold lexStep
  -- by the kind of character, in the order in which the lexer asks
  refine .ite (fun hw => ?_) fun _ => ?_
  · intro t tok r h
    cases h
    exact ⟨[c], rfl, .blank hw⟩
  refine .ite (fun hc => ?_) fun _ => ?_
  · rw [hc]
    exact takes_string
  refine .ite (fun hc => takes_number hc) fun _ => ?_
  refine .ite (fun hc => takes_word hc) fun _ => ?_
  refine .ite (fun hc => ?_) fun _ => ?_
  · subst hc
    exact takes_twoChar rfl rfl
  refine .ite (fun hc => ?_) fun _ => ?_
  · subst hc
    exact takes_doubled rfl
  refine .ite (fun hc => ?_) fun _ => ?_
  · subst hc
    exact takes_twoChar rfl rfl
  refine .ite (fun hc => ?_) fun _ => ?_
  · subst hc
    exact takes_twoChar rfl rfl
  refine .ite (fun hc => ?_) fun _ => ?_
  · subst hc
    exact takes_doubled rfl
  refine .ite (fun hc => ?_) fun _ => ?_
  · subst hc
    exact takes_doubled rfl
  cases hp : punctuation c with
  | none =>
      intro t tok r h
      cases h
  | some token => exact takes_symbol (punctuation_symbol hp)

theorem lexed_of_length (n : Nat) : ∀ {t : Text} {tokens : List Token}, t.length ≤ n →
    lex t = .ok tokens → Lexed t tokens := by
  induction n with
  | zero =>
      intro t tokens hn h
      rw [List.length_eq_zero_iff.mp (Nat.le_zero.mp hn)] at h ⊢
      cases h
      exact .nil
  | succ n ih =>
      intro t tokens hn h
      cases t with
      | nil =>
          cases h
          exact .nil
      | cons c t =>
          rw [lex_cons] at h
          rcases bind_eq_ok h with ⟨p, hstep, h⟩
          rcases bind_eq_ok h with ⟨rest, hrest, h⟩
          cases h
          have hlen := (local_lexStep c t p.1 p.2 hstep).2
          simp only [List.length_cons, Nat.add_le_add_iff_right] at hn
          rcases takes_lexStep c t p.1 p.2 hstep with ⟨u, hu, hpiece⟩
          rw [hu]
          exact .cons hpiece (ih (by omega) hrest)

/-- A text that lexes is in pieces. -/
theorem lexed_of_lex {t : Text} {tokens : List Token} (h : lex t = .ok tokens) : Lexed t tokens :=
  lexed_of_length t.length (Nat.le_refl _) h

/-! ## Characters of a piece -/

/-- The characters of operators and punctuation. -/
def symbolChars : Text := ['.', ',', '(', ')', '[', ']', '*', '!', '&', '|', '=', '<', '>']

theorem symbolText_chars {token : Token} {u : Text} (h : symbolText token = some u) :
    u ≠ [] ∧ ∀ c ∈ u, c ∈ symbolChars := by
  cases token <;> cases h <;> simp [symbolChars]

end Expressions

end Preloop

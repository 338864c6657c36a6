import PreloopControl.Expressions.Lexemes
import PreloopControl.Expressions.StatusCalls
import PreloopControl.Properties.SecretReads
import PreloopControl.Workflow.Spans

/-!
# Status Functions in a Condition

The scanner that decides whether a condition gets the success gate reads words, white space
and literals by itself. Piece by piece it agrees with the lexer, but for one thing: it takes
a hyphen for the end of a word, and the lexer does not. A name with a hyphen is no function
of the language, so among validated conditions the two agree.

## Main definitions

* `wordHits`: What the scanner makes of a word in front of a parenthesis.

## Theorems

* `containsStatus_word`: The scanner over a word of the lexer.
* `containsStatus_lexed`: The scanner over a text in pieces.
* `calls_congr`: Only the names a validated tree may call matter.
* `status_detection_exact`: The scanner finds exactly the calls of the tree.
-/

namespace Preloop

namespace Workflow

open Expressions Fallible

variable {N : Type}

/-! ## Validated trees -/

section Validated

variable {hit hit' : Text → Bool}

mutual

/-- Two tests that agree on the known functions find the same calls in a validated tree. -/
theorem calls_congr (hagree : ∀ name : Text, functionArity (name.map Char.toLower) ≠ none →
      hit name = hit' name) (e : Expr N) (h : validateFunctionCalls e = .ok ()) :
    calls hit e = calls hit' e := by
  cases e with
  | literal value => rfl
  | path path => rfl
  | unaryNot inner =>
      rw [calls, calls]
      exact calls_congr hagree inner h
  | memberAccess inner path =>
      rw [calls, calls]
      exact calls_congr hagree inner h
  | index base key =>
      rcases bind_eq_ok h with ⟨⟨⟩, hbase, hkey⟩
      rw [calls, calls, calls_congr hagree base hbase, calls_congr hagree key hkey]
  | binary op left right =>
      rcases bind_eq_ok h with ⟨⟨⟩, hleft, hright⟩
      rw [calls, calls, calls_congr hagree left hleft, calls_congr hagree right hright]
  | call name args =>
      rcases bind_eq_ok h with ⟨⟨⟩, harity, hargs⟩
      have hknown : functionArity (name.map Char.toLower) ≠ none := by
        intro hnone
        unfold validateFunctionArity at harity
        rw [hnone] at harity
        cases harity
      rw [calls, calls, hagree name hknown, argumentCalls_congr hagree args hargs]

theorem argumentCalls_congr (hagree : ∀ name : Text,
      functionArity (name.map Char.toLower) ≠ none → hit name = hit' name)
    (args : List (Expr N)) (h : validateArguments args = .ok ()) :
    argumentCalls hit args = argumentCalls hit' args := by
  cases args with
  | nil => rfl
  | cons e es =>
      rcases bind_eq_ok h with ⟨⟨⟩, he, hes⟩
      rw [argumentCalls, argumentCalls, calls_congr hagree e he,
        argumentCalls_congr hagree es hes]

end

end Validated

/-! ## Words -/

/-- What the scanner makes of a word in front of a parenthesis. -/
def wordHits (u : Text) : Bool := containsStatusCheckFunction (u ++ ['('])

/-- A parenthesis is the first character behind the white space. -/
def parenFollows (x : Text) : Bool := decide ((x.dropWhile Text.isWhitespace).head? = some '(')

theorem not_identStart_of_whitespace {c : Char} (h : Text.isWhitespace c = true) :
    identStart c = false := by
  have hpart := (stops_whitespace h [] c rfl).1
  by_contra hstart
  rw [identPart_of_identStart (Bool.not_eq_false _ ▸ hstart)] at hpart
  cases hpart

theorem containsStatus_blank (x : Text) :
    containsStatusCheckFunction (x.dropWhile Text.isWhitespace) =
      containsStatusCheckFunction x := by
  induction x with
  | nil => rfl
  | cons c x ih =>
      by_cases hc : Text.isWhitespace c = true
      · rw [List.dropWhile_cons_of_pos hc, ih,
          containsStatus_skip (ne_quote_of_whitespace hc).1 (not_identStart_of_whitespace hc)]
      · rw [List.dropWhile_cons_of_neg hc]

/-- The word of the scanner is part of the lexer's: it ends at a hyphen too. -/
theorem identPart_of_wordPart {c : Char} (h : wordPart c = true) : identPart c = true := by
  unfold wordPart at h
  unfold identPart
  rw [Bool.or_eq_true] at h
  rcases h with h | h
  · rw [h, Bool.or_true, Bool.true_or]
  · rw [h, Bool.true_or, Bool.true_or]

theorem hyphen_of_identPart {c : Char} (h : identPart c = true) (hw : wordPart c = false) :
    c = '-' := by
  unfold wordPart at hw
  unfold identPart at h
  rw [Bool.or_eq_false_iff] at hw
  rw [hw.1, hw.2, Bool.false_or, Bool.false_or, decide_eq_true_eq] at h
  exact h

/-- A word without hyphens is compared as a whole. -/
theorem containsStatus_start {c : Char} {u y : Text} (hquote : c ≠ quote)
    (hstart : identStart c = true) (hu : ∀ d ∈ u, wordPart d = true)
    (hy : ∀ d ∈ y.head?, identPart d = false) :
    containsStatusCheckFunction (c :: (u ++ y)) =
      ((isStatusFunction (c :: u) && parenFollows y) || containsStatusCheckFunction y) := by
  have hends : ∀ d ∈ y.head?, wordPart d = false := by
    intro d hd
    by_contra hw
    have hpart := hy d hd
    rw [identPart_of_wordPart (Bool.not_eq_false _ ▸ hw)] at hpart
    cases hpart
  rcases takeWhile_append_of_stops hends u with ⟨htake, hdrop⟩
  rw [List.takeWhile_eq_self_iff.mpr hu] at htake
  rw [List.dropWhile_eq_nil_iff.mpr hu, List.nil_append] at hdrop
  rw [containsStatus_cons, if_neg hquote, if_pos hstart, htake, afterWord, hdrop,
    containsStatus_blank]
  rfl

/-- At a hyphen the scan starts again. -/
theorem containsStatus_hyphen {c d : Char} {u v y : Text} (hquote : c ≠ quote)
    (hstart : identStart c = true) (hsplit : u.dropWhile wordPart = d :: v) (hd : d = '-') :
    containsStatusCheckFunction (c :: (u ++ y)) = containsStatusCheckFunction (d :: v ++ y) := by
  have hdrop : (u ++ y).dropWhile wordPart = d :: v ++ y := by
    rw [List.dropWhile_append, hsplit]
    rfl
  have hafter : afterWord (u ++ y) = d :: v ++ y := by
    rw [afterWord, hdrop, hd]
    rfl
  rw [containsStatus_cons, if_neg hquote, if_pos hstart, hafter, hd]
  simp

/-- The scan goes on in a word as it would in front of a parenthesis, and takes what it finds
    last only if a parenthesis follows. -/
theorem containsStatus_word_of_length (n : Nat) : ∀ {u x : Text}, u.length ≤ n →
    (∀ c ∈ u, identPart c = true) → (∀ c ∈ x.head?, identPart c = false) →
      containsStatusCheckFunction (u ++ x) =
        ((wordHits u && parenFollows x) || containsStatusCheckFunction x) := by
  have hparen : containsStatusCheckFunction ['('] = false := by decide
  induction n with
  | zero =>
      intro u x hn _ _
      rw [List.length_eq_zero_iff.mp (Nat.le_zero.mp hn)]
      simp [wordHits, hparen]
  | succ n ih =>
      intro u x hn hu hx
      cases u with
      | nil => exact ih (Nat.zero_le _) hu hx
      | cons c u =>
          simp only [List.length_cons, Nat.add_le_add_iff_right] at hn
          rw [List.forall_mem_cons] at hu
          have hquote : c ≠ quote := by
            rintro rfl
            exact absurd hu.1 (by decide)
          by_cases hstart : identStart c = true
          · cases hsplit : u.dropWhile wordPart with
            | nil =>
                have hword := List.dropWhile_eq_nil_iff.mp hsplit
                have hopen : ∀ d ∈ ['('].head?, identPart d = false := by
                  intro d hd
                  cases hd
                  decide
                rw [List.cons_append, containsStatus_start hquote hstart hword hx, wordHits,
                  List.cons_append, containsStatus_start hquote hstart hword hopen, hparen]
                simp [parenFollows, Text.isWhitespace]
            | cons d v =>
                -- what is behind the hyphen is shorter
                have hmem : ∀ e ∈ d :: v, e ∈ u := fun e he => by
                  rw [← hsplit] at he
                  exact (List.dropWhile_suffix wordPart).subset he
                have hd : d = '-' := by
                  have hhead := List.head?_dropWhile_not wordPart u
                  rw [hsplit] at hhead
                  exact hyphen_of_identPart (hu.2 d (hmem d List.mem_cons_self))
                    (by simpa using hhead)
                have hlen : (d :: v).length ≤ n := by
                  rw [← hsplit]
                  exact (length_dropWhile_le _ _).trans hn
                have hhits : wordHits (c :: u) = wordHits (d :: v) :=
                  containsStatus_hyphen hquote hstart hsplit hd
                rw [List.cons_append, containsStatus_hyphen hquote hstart hsplit hd,
                  ih hlen (fun e he => hu.2 e (hmem e he)) hx, hhits]
          · rw [Bool.not_eq_true] at hstart
            have hskip : ∀ t, containsStatusCheckFunction (c :: t) =
                containsStatusCheckFunction t := containsStatus_skip hquote hstart
            rw [List.cons_append, hskip, ih hn hu.2 hx, wordHits, wordHits, List.cons_append, hskip]

theorem containsStatus_word {u x : Text} (hu : ∀ c ∈ u, identPart c = true)
    (hx : ∀ c ∈ x.head?, identPart c = false) :
    containsStatusCheckFunction (u ++ x) =
      ((wordHits u && parenFollows x) || containsStatusCheckFunction x) :=
  containsStatus_word_of_length u.length (Nat.le_refl _) hu hx

/-- A word without hyphens is taken for what it is. -/
theorem wordHits_plain {c : Char} {u : Text} (hstart : identStart c = true)
    (hu : ∀ d ∈ u, wordPart d = true) : wordHits (c :: u) = isStatusFunction (c :: u) := by
  have hquote : c ≠ quote := by
    rintro rfl
    exact absurd hstart (by decide)
  have hopen : ∀ d ∈ ['('].head?, identPart d = false := by
    intro d hd
    cases hd
    decide
  have hnone : containsStatusCheckFunction ['('] = false := by decide
  have hparen : parenFollows ['('] = true := by decide
  rw [wordHits, List.cons_append, containsStatus_start hquote hstart hu hopen, hparen, hnone,
    Bool.and_true, Bool.or_false]

/-- What is a letter in lower case is a letter. -/
theorem isAlpha_of_toLower {c : Char} (h : c.toLower.isAlpha = true) : c.isAlpha = true := by
  unfold Char.toLower at h
  split at h
  · next hupper =>
      have hcase : c.isUpper = true := by simpa [Char.isUpper] using hupper
      rw [Char.isAlpha, hcase, Bool.true_or]
  · exact h

/-- A name that is a word of letters in lower case has no hyphens. -/
theorem wordHits_of_lower {u w : Text} (hu : u.map Char.toLower = w) (hne : w ≠ [])
    (hw : ∀ c ∈ w, c.isAlpha = true) : wordHits u = isStatusFunction u := by
  have hletters : ∀ c ∈ u, c.isAlpha = true := fun c hc =>
    isAlpha_of_toLower (hw _ (by rw [← hu]; exact List.mem_map_of_mem hc))
  cases u with
  | nil => exact absurd hu.symm hne
  | cons c u =>
      rw [List.forall_mem_cons] at hletters
      refine wordHits_plain ?_ fun d hd => ?_
      · unfold identStart
        rw [hletters.1, Bool.true_or]
      · unfold wordPart Char.isAlphanum
        rw [hletters.2 d hd, Bool.true_or, Bool.or_true]

/-- The functions of the language, in lower case. -/
def functionNames : List Text :=
  ["always", "cancelled", "success", "failure", "contains", "startswith", "endswith", "format",
    "fromjson", "tojson", "join", "hashfiles", "case"].map String.toList

theorem mem_functionNames {lower : Text} (h : functionArity lower ≠ none) :
    lower ∈ functionNames := by
  by_contra hno
  simp only [functionNames, List.map_cons, List.map_nil, List.mem_cons, List.not_mem_nil, not_or,
    or_false] at hno
  apply h
  simp only [functionArity, hno, decide_false, Bool.or_false, Bool.false_eq_true, if_false]

/-- They are words of letters. -/
theorem letters_of_functionArity {lower : Text} (h : functionArity lower ≠ none) :
    lower ≠ [] ∧ ∀ c ∈ lower, c.isAlpha = true := by
  have hmem := mem_functionNames h
  simp only [functionNames, List.map_cons, List.map_nil, List.mem_cons, List.not_mem_nil,
    or_false] at hmem
  rcases hmem with rfl | rfl | rfl | rfl | rfl | rfl | rfl | rfl | rfl | rfl | rfl | rfl | rfl
  all_goals exact ⟨by decide, List.all_eq_true.mp rfl⟩

/-! ## Pieces -/

theorem head_append {P : Char → Prop} {s x : Text} (hs : ∀ c ∈ s.head?, P c)
    (hx : ∀ c ∈ x.head?, P c) : ∀ c ∈ (s ++ x).head?, P c := by
  cases s with
  | nil => exact hx
  | cons c s => exact hs

theorem containsStatus_skip_all {u : Text} (hu : ∀ c ∈ u, c ≠ quote ∧ identStart c = false)
    (y : Text) : containsStatusCheckFunction (u ++ y) = containsStatusCheckFunction y := by
  induction u with
  | nil => rfl
  | cons c u ih =>
      rw [List.forall_mem_cons] at hu
      rw [List.cons_append, containsStatus_skip hu.1.1 hu.1.2, ih hu.2]

/-- A literal is passed over as a whole. -/
theorem skipQuoted_literal (s : Text) {y : Text} (hy : ∀ c ∈ y.head?, c ≠ quote) :
    skipQuoted (s.flatMap doubleQuote ++ quote :: y) = y := by
  induction s with
  | nil =>
      cases y with
      | nil => rfl
      | cons c y => exact skipQuoted_closed (hy c rfl) y
  | cons c s ih =>
      rw [List.flatMap_cons, List.append_assoc]
      by_cases hc : c = quote
      · rw [doubleQuote, if_pos hc, List.cons_append, List.cons_append, List.nil_append,
          skipQuoted_escaped, ih]
      · rw [doubleQuote, if_neg hc, List.cons_append, List.nil_append, skipQuoted_inside hc, ih]

theorem parenFollows_cons {c : Char} (hc : Text.isWhitespace c = false) (y : Text) :
    parenFollows (c :: y) = decide (c = '(') := by
  unfold parenFollows
  rw [List.dropWhile_cons_of_neg (by rw [hc]; exact Bool.false_ne_true)]
  simp

/-- The words that are no names are no status functions. -/
theorem wordToken_cases (u : Text) :
    wordToken u = .ident u ∨ wordHits u = false ∧ wordToken u ≠ .lparen ∧
      ∀ (hit : Text → Bool) (ts : List Token),
        callsFound hit (wordToken u :: ts) = callsFound hit ts := by
  -- the three words consist of letters, and none of them is a status function
  have hword : ∀ w : Text, u.map Char.toLower = w → w ∈ ["true".toList, "false".toList,
      "null".toList] → wordHits u = false := by
    intro w hu hw
    simp only [List.mem_cons, List.not_mem_nil, or_false] at hw
    have hletters : w ≠ [] ∧ ∀ c ∈ w, c.isAlpha = true := by
      rcases hw with rfl | rfl | rfl
      all_goals exact ⟨by decide, List.all_eq_true.mp rfl⟩
    rw [wordHits_of_lower hu hletters.1 hletters.2, isStatusFunction, hu]
    rcases hw with rfl | rfl | rfl
    all_goals decide
  -- a word is one of the three, or a name
  unfold wordToken
  dsimp only
  by_cases htrue : u.map Char.toLower = "true".toList
  · rw [if_pos htrue]
    exact .inr ⟨hword _ htrue (by simp), fun h => Token.noConfusion h, fun _ _ => rfl⟩
  · rw [if_neg htrue]
    by_cases hfalse : u.map Char.toLower = "false".toList
    · rw [if_pos hfalse]
      exact .inr ⟨hword _ hfalse (by simp), fun h => Token.noConfusion h, fun _ _ => rfl⟩
    · rw [if_neg hfalse]
      by_cases hnull : u.map Char.toLower = "null".toList
      · rw [if_pos hnull]
        exact .inr ⟨hword _ hnull (by simp), fun h => Token.noConfusion h, fun _ _ => rfl⟩
      · rw [if_neg hnull]
        exact .inl rfl

theorem symbol_skipped {c : Char} (h : c ∈ symbolChars) : c ≠ quote ∧ identStart c = false := by
  simp only [symbolChars, List.mem_cons, List.not_mem_nil, or_false] at h
  rcases h with rfl | rfl | rfl | rfl | rfl | rfl | rfl | rfl | rfl | rfl | rfl | rfl | rfl
  all_goals decide

theorem numeric_skipped {c : Char} (h : numeric c = true) : c ≠ quote ∧ identStart c = false := by
  unfold numeric at h
  rw [Bool.or_eq_true, decide_eq_true_eq] at h
  rcases h with hdigit | rfl
  · have hrange : 48 ≤ c.toNat ∧ c.toNat ≤ 57 := by
      simpa [Char.isDigit, UInt32.le_iff_toNat_le] using hdigit
    refine ⟨?_, ?_⟩
    · rintro rfl
      exact absurd hrange (by decide)
    · have halpha : ¬ c.isAlpha = true := by
        intro halpha
        simp only [Char.isAlpha, Char.isUpper, Char.isLower, Bool.or_eq_true, Bool.and_eq_true,
          decide_eq_true_eq, ge_iff_le, UInt32.le_iff_toNat_le] at halpha
        change (65 ≤ c.toNat ∧ c.toNat ≤ 90) ∨ (97 ≤ c.toNat ∧ c.toNat ≤ 122) at halpha
        omega
      have hline : c ≠ '_' := by
        rintro rfl
        exact absurd hrange (by decide)
      unfold identStart
      rw [Bool.not_eq_true] at halpha
      rw [halpha, decide_eq_false hline]
      rfl
  · decide

/-- No start of a token is white space, and none but the parenthesis is a parenthesis. -/
theorem parenFollows_of_stops {c : Char} {y : Text} (hc : Text.isWhitespace c = false)
    (hparen : c ≠ '(') : parenFollows (c :: y) = false := by
  rw [parenFollows_cons hc, decide_eq_false hparen]

theorem not_whitespace_of_identStart {c : Char} (h : identStart c = true) :
    Text.isWhitespace c = false := by
  by_contra hw
  rw [not_identStart_of_whitespace (Bool.not_eq_false _ ▸ hw)] at h
  cases h

theorem not_whitespace_of_digit {c : Char} (h : c.isDigit = true) :
    Text.isWhitespace c = false := by
  by_contra hw
  have hnumeric := (stops_whitespace (Bool.not_eq_false _ ▸ hw) [] c rfl).2.1
  rw [numeric_of_isDigit h] at hnumeric
  cases hnumeric

/-- The first character of a symbol tells the parenthesis. -/
theorem parenFollows_symbol {tok : Token} {u : Text} (h : symbolText tok = some u) (y : Text) :
    parenFollows (u ++ y) = decide (tok = .lparen) := by
  cases tok <;> cases h <;> exact parenFollows_cons rfl _

/-- Piece by piece, the scan finds the names the tokens have in front of a parenthesis. -/
theorem containsStatus_lexed {t : Text} {tokens : List Token} (h : Lexed t tokens) {x : Text}
    (hx : Stops x) (hparen : parenFollows x = false) :
    containsStatusCheckFunction (t ++ x) =
        (callsFound wordHits tokens || containsStatusCheckFunction x) ∧
      parenFollows (t ++ x) = decide (current tokens = .lparen) := by
  -- the induction is on the pieces of the text; the scan keeps step with the tokens
  induction h with
  | nil => exact ⟨rfl, hparen⟩
  | @cons u rest token tokens hu hrest ih =>
      rcases ih with ⟨hscan, hfollows⟩
      rw [List.append_assoc]
      cases hu with
      | @blank c _ hc =>
          refine ⟨?_, ?_⟩
          · rw [List.cons_append, List.nil_append, containsStatus_skip (ne_quote_of_whitespace hc).1
              (not_identStart_of_whitespace hc)]
            exact hscan
          · rw [List.cons_append, List.nil_append, parenFollows, List.dropWhile_cons_of_pos hc]
            exact hfollows
      | string s hquote =>
          have hhead := head_append hquote fun c hc => (hx c hc).2.2.1
          refine ⟨?_, parenFollows_cons (by decide) _⟩
          rw [List.cons_append, containsStatus_cons, if_pos rfl, List.append_assoc,
            -- no name inside a quoted literal counts, as the scan skips it whole
            List.cons_append, List.nil_append, skipQuoted_literal s hhead]
          exact hscan
      | @number c u _ hc hdigits =>
          have hall : ∀ d ∈ c :: u, d ≠ quote ∧ identStart d = false :=
            List.forall_mem_cons.mpr ⟨numeric_skipped (numeric_of_isDigit hc),
              fun d hd => numeric_skipped (hdigits d hd)⟩
          refine ⟨?_, ?_⟩
          · rw [containsStatus_skip_all hall]
            exact hscan
          · refine (parenFollows_of_stops (not_whitespace_of_digit hc) ?_).trans rfl
            rintro rfl
            exact absurd hc (by decide)
      | @word c u _ hc hpart hends =>
          have hall : ∀ d ∈ c :: u, identPart d = true :=
            List.forall_mem_cons.mpr ⟨identPart_of_identStart hc, hpart⟩
          have hhead := head_append hends fun c hc => (hx c hc).1
          have hstart : parenFollows (c :: u ++ (rest ++ x)) = false := by
            refine parenFollows_of_stops (not_whitespace_of_identStart hc) ?_
            rintro rfl
            exact absurd hc (by decide)
          -- a word counts when it is one of the names and a parenthesis follows
          rw [containsStatus_word hall hhead, hstart, hscan, hfollows]
          rcases wordToken_cases (c :: u) with hident | ⟨hmiss, hne, hfound⟩
          · rw [hident]
            exact ⟨(Bool.or_assoc _ _ _).symm, rfl⟩
          · refine ⟨?_, (decide_eq_false hne).symm⟩
            rw [hmiss, Bool.false_and, Bool.false_or]
            exact congrArg (· || _) (hfound wordHits tokens).symm
      -- symbols hold neither quotes nor letters, so the scan passes over them
      | @symbol tok u _ hsymbol =>
          refine ⟨?_, parenFollows_symbol hsymbol _⟩
          rw [containsStatus_skip_all fun c hc =>
            symbol_skipped ((symbolText_chars hsymbol).2 c hc), hscan]
          cases tok with
          | ident w => cases hsymbol
          | _ => rfl

/-! ## Conditions -/

/-- The characters of markers, and the white space around them. -/
def Padding (w : Text) : Prop :=
  ∀ c ∈ w, Text.isWhitespace c = true ∨ c ∈ openMark ∨ c ∈ closeMark

theorem padding_skipped {w : Text} (h : Padding w) : ∀ c ∈ w, c ≠ quote ∧ identStart c = false := by
  have hopen : openMark = ['$', lbrace, lbrace] := by decide
  have hclose : closeMark = [rbrace, rbrace] := by decide
  intro c hc
  rcases h c hc with hblank | hmem | hmem
  · exact ⟨(ne_quote_of_whitespace hblank).1, not_identStart_of_whitespace hblank⟩
  · simp only [hopen, List.mem_cons, List.not_mem_nil, or_false] at hmem
    rcases hmem with rfl | rfl | rfl <;> decide
  · simp only [hclose, List.mem_cons, List.not_mem_nil, or_false] at hmem
    rcases hmem with rfl | rfl <;> decide

/-- What is trimmed on both sides is padding. -/
theorem trim_padded (t : Text) : ∃ pre post, t = pre ++ (Text.trim t ++ post) ∧
    (∀ c ∈ pre, Text.isWhitespace c = true) ∧ ∀ c ∈ post, Text.isWhitespace c = true := by
  rcases Text.dropWhile_eq_trim_append t with ⟨post, hpost, hblank⟩
  refine ⟨t.takeWhile Text.isWhitespace, post, ?_, fun c hc => List.mem_takeWhile_imp hc, hblank⟩
  rw [← hpost, List.takeWhile_append_dropWhile]

theorem stops_nil : Stops [] := by
  intro c hc
  cases hc

/-- What is left of a condition stands between padding, and what follows it is no part of an
    expression. -/
theorem trimExpressionMarkers_padded (t : Text) :
    ∃ pre post, t = pre ++ (trimExpressionMarkers t ++ post) ∧ Padding pre ∧ Padding post ∧
      Stops post ∧ parenFollows post = false := by
  -- what follows blanks is no part of an expression if it is none without them
  have hblank : ∀ {w y : Text}, (∀ c ∈ w, Text.isWhitespace c = true) → Stops y →
      parenFollows y = false → Stops (w ++ y) ∧ parenFollows (w ++ y) = false := by
    intro w y hw hy hparen
    cases w with
    | nil => exact ⟨hy, hparen⟩
    | cons c w =>
        refine ⟨stops_whitespace (hw c List.mem_cons_self) _, ?_⟩
        rw [parenFollows, List.dropWhile_append_of_pos hw]
        exact hparen
  rcases trim_padded t with ⟨pre, post, ht, hpre, hpost⟩
  rcases trimExpressionMarkers_cases t with ⟨inner, hinner, hs⟩ | ⟨-, hs⟩
  -- the markers are dropped, so they belong to the padding
  · rcases trim_padded inner with ⟨pre', post', ht', hpre', hpost'⟩
    refine ⟨pre ++ (openMark ++ pre'), post' ++ (closeMark ++ post), ?_, ?_, ?_, ?_⟩
    · rw [hs]
      refine ht.trans ?_
      rw [hinner]
      conv_lhs => rw [ht']
      simp only [List.append_assoc]
    · intro c hc
      rw [List.mem_append, List.mem_append] at hc
      rcases hc with hc | hc | hc
      · exact .inl (hpre c hc)
      · exact .inr (.inl hc)
      · exact .inl (hpre' c hc)
    · intro c hc
      rw [List.mem_append, List.mem_append] at hc
      rcases hc with hc | hc | hc
      · exact .inl (hpost' c hc)
      · exact .inr (.inr hc)
      · exact .inl (hpost c hc)
    · exact hblank hpost' (stops_rbrace _) (parenFollows_cons (by decide) _)
  -- without markers the padding is the white space
  · refine ⟨pre, post, by rw [hs]; exact ht, fun c hc => .inl (hpre c hc),
      fun c hc => .inl (hpost c hc), ?_⟩
    have hends := hblank hpost stops_nil rfl
    rwa [List.append_nil] at hends

/-- The markers make no difference to what the scan finds, and the scan finds what the tokens
    name in front of a parenthesis. -/
theorem containsStatus_tokens {t : Text} {tokens : List Token}
    (h : Lexed (trimExpressionMarkers t) tokens) :
    containsStatusCheckFunction t = callsFound wordHits tokens ∧
      containsStatusCheckFunction (trimExpressionMarkers t) = callsFound wordHits tokens := by
  have hempty : containsStatusCheckFunction [] = false := rfl
  refine ⟨?_, ?_⟩
  · rcases trimExpressionMarkers_padded t with ⟨pre, post, ht, hpre, hpost, hstops, hparen⟩
    have hnone : containsStatusCheckFunction post = false := by
      have hskip := containsStatus_skip_all (padding_skipped hpost) []
      rwa [List.append_nil] at hskip
    conv_lhs => rw [ht]
    rw [containsStatus_skip_all (padding_skipped hpre), (containsStatus_lexed h hstops hparen).1,
      hnone, Bool.or_false]
  · have hscan := (containsStatus_lexed h stops_nil rfl).1
    rwa [List.append_nil, hempty, Bool.or_false] at hscan

/-- The four names, in any case. -/
theorem isStatusFunction_iff {name : Text} : isStatusFunction name = true ↔
    name.map Char.toLower ∈
      ["success".toList, "failure".toList, "cancelled".toList, "always".toList] := by
  unfold isStatusFunction
  simp only [Bool.or_eq_true, decide_eq_true_eq, List.mem_cons, List.not_mem_nil, or_false,
    or_assoc]

/-- The scanner finds a status function in a condition that parses and is validated exactly if
    its tree calls one, whether or not the markers are stripped. -/
theorem status_detection_exact {num : Text → Option N} {s : Text} {e : Expr N}
    (hparse : parseExpression num (trimExpressionMarkers s) = .ok e)
    (hvalid : validateFunctionCalls e = .ok ()) :
    (containsStatusCheckFunction s = true ↔ calls isStatusFunction e = true) ∧
      (containsStatusCheckFunction (trimExpressionMarkers s) = true ↔
        calls isStatusFunction e = true) := by
  rcases bind_eq_ok hparse with ⟨tokens, hlex, htree⟩
  rcases lex_append hlex with ⟨body, rfl, -⟩
  -- a name with a hyphen would tell the scanner and the parser apart, but no function has one
  have hagree : ∀ name : Text, functionArity (name.map Char.toLower) ≠ none →
      wordHits name = isStatusFunction name := fun name hname =>
    wordHits_of_lower rfl (letters_of_functionArity hname).1 (letters_of_functionArity hname).2
  have hcalls : callsFound wordHits (body ++ [.eof]) = calls isStatusFunction e :=
    (calls_of_parse (eof_notMem_of_lex hlex) htree).trans (calls_congr hagree e hvalid)
  rcases containsStatus_tokens (lexed_of_lex hlex) with ⟨hscan, htrimmed⟩
  rw [hscan, htrimmed, hcalls]
  exact ⟨Iff.rfl, Iff.rfl⟩

/-- `${{ Failure () }}`. -/
def spacedCall : Text := "$\x7b\x7b Failure () \x7d\x7d".toList

/-- Its tree. -/
def failureCall : Expr Int := .call "Failure".toList []

theorem lex_spacedCall : lex (trimExpressionMarkers spacedCall) =
    .ok [.ident "Failure".toList, .lparen, .rparen, .eof] := by
  decide

theorem parse_spacedCall :
    parseExpression (fun _ => none) (trimExpressionMarkers spacedCall) = .ok failureCall := by
  unfold parseExpression
  rw [lex_spacedCall]
  rfl

/-- Upper case, and white space in front of the parenthesis. -/
theorem status_detection_exact_of_spaced :
    (containsStatusCheckFunction spacedCall = true ↔ calls isStatusFunction failureCall = true) ∧
      (containsStatusCheckFunction (trimExpressionMarkers spacedCall) = true ↔
        calls isStatusFunction failureCall = true) :=
  status_detection_exact parse_spacedCall rfl

end Workflow

end Preloop

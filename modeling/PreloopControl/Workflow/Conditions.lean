import PreloopControl.Expressions.Gate
import PreloopControl.Workflow.Validation

/-!
# Conditions as Texts

What the scanners of `Workflow.Templates` do to a condition: stripping the markers,
finding the end of a marked span, looking for a status function. The readers work on
the characters, the parser on tokens; the lemmas say where the two agree.

## Main definitions

* `HidesMarkers`: An unwrapped condition with a marker in a string literal.
* `afterWord`: What follows a word.
* `mergedText`: Two conditions put together.

## Theorems

* `cut_of_findExpressionEnd`: The two searches for a closing marker.
* `findExpressionEnd_spec`, `findExpressionEnd_inside`: A span ends outside its literals,
  and its own closing markers stand in them.
* `containsStatus_append`: A closing parenthesis separates the status functions.
* `lex_merged`, `containsStatus_merged`: Two conditions put together.
-/

namespace Preloop

namespace Workflow

open Expressions Fallible

variable {N : Type}

/-! ## Markers -/

/-- The markers are stripped as a pair or not at all. -/
theorem trimExpressionMarkers_cases (t : Text) :
    (∃ inner, Text.trim t = openMark ++ (inner ++ closeMark) ∧
        trimExpressionMarkers t = Text.trim inner) ∨
      ((∀ inner, Text.trim t ≠ openMark ++ (inner ++ closeMark)) ∧
        trimExpressionMarkers t = Text.trim t) := by
  unfold trimExpressionMarkers
  cases h : ((Text.trim t).dropPrefix? openMark).bind fun s => s.dropSuffix? closeMark with
  | some inner =>
      obtain ⟨s, hs, hinner⟩ := Option.bind_eq_some_iff.mp h
      obtain ⟨p, hp, hpo⟩ := List.dropPrefix?_eq_some_iff.mp hs
      obtain ⟨q, hq, hqc⟩ := List.dropSuffix?_eq_some_iff.mp hinner
      rw [beq_iff_eq] at hpo hqc
      exact .inl ⟨inner, by rw [hp, hq, hpo, hqc], rfl⟩
  | none =>
      refine .inr ⟨?_, rfl⟩
      intro inner hinner
      rw [hinner, List.dropPrefix?_append_of_beq _ (beq_self_eq_true _), Option.bind_some] at h
      have hsome : (inner ++ closeMark).dropSuffix? closeMark = some inner :=
        List.dropSuffix?_eq_some_iff.mpr ⟨closeMark, rfl, beq_self_eq_true _⟩
      rw [hsome] at h
      cases h

theorem isInfix_trim (t : Text) : Text.trim t <:+: t :=
  (List.rdropWhile_prefix _ _).isInfix.trans (List.dropWhile_suffix _).isInfix

theorem isInfix_trimExpressionMarkers (t : Text) : trimExpressionMarkers t <:+: t := by
  obtain ⟨inner, ht, h⟩ | ⟨_, h⟩ := trimExpressionMarkers_cases t
  · have hinner : inner <:+: Text.trim t := ⟨openMark, closeMark, by rw [ht, List.append_assoc]⟩
    rw [h]
    exact (isInfix_trim inner).trans (hinner.trans (isInfix_trim t))
  · rw [h]
    exact isInfix_trim t

theorem isPrefixOf_closeMark (d : Char) (t : Text) :
    closeMark.isPrefixOf (d :: t) = true ↔ d = rbrace ∧ t.head? = some rbrace := by
  cases t with
  | nil => simp [closeMark, List.isPrefixOf]
  | cons e t =>
      have h : closeMark = [rbrace, rbrace] := by decide
      simp only [h, List.isPrefixOf, Bool.and_true, Bool.and_eq_true, beq_iff_eq, List.head?_cons,
        Option.some.injEq]
      exact ⟨fun ⟨h1, h2⟩ => ⟨h1.symm, h2.symm⟩, fun ⟨h1, h2⟩ => ⟨h1.symm, h2.symm⟩⟩

/-- Both scanners stop at the same marker, or the collector stops inside a string
    literal, after an odd number of quotes. -/
theorem cut_of_findExpressionEnd {t e rest : Text} {inQuote : Bool}
    (h : findExpressionEnd inQuote t = some (e, rest)) :
    ∃ e' rest', Text.cut closeMark t = some (e', rest') ∧
      ((e' = e ∧ rest' = rest ∧ rest.length < t.length) ∨
        (e'.count quote % 2 = if inQuote then 0 else 1)) := by
  -- the induction is on the text, for both states of the reader
  induction t generalizing inQuote e with
  | nil => cases h
  | cons d t ih =>
      by_cases hpre : closeMark.isPrefixOf (d :: t) = true
      · -- the collector stops here, and so does the reader unless it is in a literal
        obtain ⟨hd, ht⟩ := (isPrefixOf_closeMark d t).mp hpre
        have hcut : Text.cut closeMark (d :: t) = some ([], t.tail) := by
          have hlen : closeMark.length = 1 + 1 := by decide
          simp only [Text.cut, if_pos hpre, hlen, List.drop_succ_cons, List.drop_one]
        refine ⟨[], t.tail, hcut, ?_⟩
        cases inQuote with
        | true => exact .inr rfl
        | false =>
            have hq : rbrace ≠ quote := by decide
            simp only [findExpressionEnd, hd, if_neg hq, ht, Bool.not_false, decide_true,
              Bool.and_self, if_true, Option.some.injEq, Prod.mk.injEq] at h
            refine .inl ⟨h.1, h.2, ?_⟩
            rw [← h.2]
            simp only [List.length_tail, List.length_cons]
            omega
      · -- neither stops here; a quote switches the reader
        have hstep : ∀ q : Bool, findExpressionEnd inQuote (d :: t) =
            (findExpressionEnd q t).map (fun p => (d :: p.1, p.2)) →
            (∀ n : Nat, (n % 2 = if q then 0 else 1) →
              (if d = quote then n + 1 else n) % 2 = if inQuote then 0 else 1) →
            ∃ e' rest', Text.cut closeMark (d :: t) = some (e', rest') ∧
              ((e' = e ∧ rest' = rest ∧ rest.length < (d :: t).length) ∨
                (e'.count quote % 2 = if inQuote then 0 else 1)) := by
          intro q hq hcount
          rw [hq] at h
          obtain ⟨p, hp, heq⟩ := Option.map_eq_some_iff.mp h
          cases heq
          obtain ⟨e', rest', hcut, hcase⟩ := ih hp
          refine ⟨d :: e', rest', by simp [Text.cut, hpre, hcut], ?_⟩
          obtain ⟨he, hr, hlen⟩ | hodd := hcase
          · exact .inl ⟨by rw [he], hr, by simp only [List.length_cons]; omega⟩
          · refine .inr ?_
            have := hcount _ hodd
            rw [List.count_cons]
            by_cases hdq : d = quote
            · simpa [hdq] using this
            · simpa [hdq] using this
        -- the parity of the quotes moves with the state of the reader
        by_cases hdq : d = quote
        · refine hstep (!inQuote) (by simp [findExpressionEnd, hdq]) ?_
          intro n hn
          cases inQuote with
          | true => simp at hn ⊢; simp [hdq]; omega
          | false => simp at hn ⊢; simp [hdq]; omega
        · refine hstep inQuote ?_ ?_
          · have hno : (!inQuote && decide (d = rbrace) && decide (t.head? = some rbrace)) =
              false := by
              by_contra hyes
              simp only [Bool.not_eq_false, Bool.and_eq_true, decide_eq_true_eq] at hyes
              exact hpre ((isPrefixOf_closeMark d t).mpr ⟨hyes.1.2, hyes.2⟩)
            simp [findExpressionEnd, hdq, hno]
          · intro n hn
            simpa [hdq] using hn

theorem trimExpressionMarkers_trim (t : Text) :
    trimExpressionMarkers (Text.trim t) = trimExpressionMarkers t := by
  unfold trimExpressionMarkers
  rw [Text.trim_trim]

/-- Neither the markers nor the white space around them is a quote. -/
theorem count_trimExpressionMarkers (t : Text) :
    (trimExpressionMarkers t).count quote = t.count quote := by
  have hw : Text.isWhitespace quote = false := by decide
  obtain ⟨inner, ht, h⟩ | ⟨_, h⟩ := trimExpressionMarkers_cases t
  · have ho : openMark.count quote = 0 := by decide
    have hc : closeMark.count quote = 0 := by decide
    rw [h, Text.count_trim hw, ← Text.count_trim hw t, ht, List.count_append, List.count_append,
      ho, hc]
    omega
  · rw [h, Text.count_trim hw]

theorem openMark_ne_nil : openMark ≠ [] := by decide

/-- An unwrapped condition with an opening marker in one of its string literals. The
    collector takes it for a template. -/
def HidesMarkers (condition : Text) : Prop :=
  Text.contains openMark condition = true ∧ ¬ openMark <+: Text.trim condition ∧
    ∃ tokens, lex (Text.trim condition) = .ok tokens

theorem openMark_eq : openMark = '$' :: [lbrace, lbrace] := by decide

theorem closeMark_eq : closeMark = [rbrace, rbrace] := by decide

theorem lex_dollar (t : Text) : ∃ e, lex ('$' :: t) = .error e := by
  rw [lex_cons]
  exact ⟨_, rfl⟩

theorem lex_rbrace (t : Text) : ∃ e, lex (rbrace :: t) = .error e := by
  rw [lex_cons]
  exact ⟨_, rfl⟩

/-- No expression starts with the opening marker. -/
theorem not_openMark_of_lex {t : Text} {tokens : List Token} (h : lex t = .ok tokens) :
    ¬ openMark <+: t := by
  rintro ⟨r, rfl⟩
  rw [openMark_eq] at h
  obtain ⟨e, he⟩ := lex_dollar ([lbrace, lbrace] ++ r)
  rw [List.cons_append, he] at h
  cases h

/-- Trimmed text without the opening marker is left as it is. -/
theorem trimExpressionMarkers_self {t : Text} (ht : Text.trim t = t) (ho : ¬ openMark <+: t) :
    trimExpressionMarkers t = t := by
  obtain ⟨inner, h, _⟩ | ⟨_, h⟩ := trimExpressionMarkers_cases t
  · rw [ht] at h
    exact absurd ⟨_, h.symm⟩ ho
  · rw [h, ht]

theorem lex_whitespace {w : Text} (hw : ∀ c ∈ w, Text.isWhitespace c = true) (t : Text)
    {e : ExpressionError} (h : lex t = .error e) : lex (w ++ t) = .error e := by
  induction w with
  | nil => exact h
  | cons c w ih =>
      have hstep : lexStep c (w ++ t) = .ok (none, w ++ t) := by
        unfold lexStep
        rw [if_pos (hw c (by simp))]
      rw [List.cons_append, lex_of_step hstep, ih fun d hd => hw d (by simp [hd])]
      rfl

theorem stops_rbrace (t : Text) : Stops (rbrace :: t) := by
  have h : identPart rbrace = false ∧ numeric rbrace = false ∧ rbrace ≠ quote ∧ rbrace ≠ '=' ∧
      rbrace ≠ '&' ∧ rbrace ≠ '|' := by
    decide
  intro d hd
  cases hd
  exact h

/-- An expression does not go on after a closing brace. -/
theorem lex_append_rbrace {s w : Text} {tokens : List Token} (h : lex s = .ok tokens)
    (hw : ∀ c ∈ w, Text.isWhitespace c = true) (t : Text) :
    ∃ e, lex (s ++ (w ++ rbrace :: t)) = .error e := by
  obtain ⟨body, _, happ⟩ := lex_append h
  obtain ⟨e, he⟩ := lex_rbrace t
  have hstops : Stops (w ++ rbrace :: t) := by
    cases w with
    | nil => exact stops_rbrace t
    | cons c w => exact stops_whitespace (hw c (by simp)) _
  rw [happ _ hstops, lex_whitespace hw _ he]
  exact ⟨e, rfl⟩

theorem not_openMark_append_rbrace {s w : Text} {tokens : List Token} (h : lex s = .ok tokens)
    (hw : ∀ c ∈ w, Text.isWhitespace c = true) (t : Text) :
    ¬ openMark <+: s ++ (w ++ rbrace :: t) := by
  rintro ⟨r, hr⟩
  rw [openMark_eq] at hr
  cases s with
  | nil =>
      cases w with
      | nil =>
          have : '$' = rbrace := (List.cons.inj hr).1
          revert this
          decide
      | cons c w =>
          have hc : '$' = c := (List.cons.inj hr).1
          have := hw c (by simp)
          rw [← hc] at this
          revert this
          decide
  | cons d s =>
      have hd : '$' = d := (List.cons.inj hr).1
      obtain ⟨e, he⟩ := lex_dollar s
      rw [← hd, he] at h
      cases h

theorem parse_of_lex_error {num : Text → Option N} {s : Text} {err : ExpressionError}
    (h : lex s = .error err) : parseExpression num s = .error err := by
  unfold parseExpression
  rw [h]
  rfl

/-- The gate has no markers of its own. -/
theorem trimExpressionMarkers_gate (s : Text) :
    trimExpressionMarkers (gateText ++ (s ++ [')'])) = gateText ++ (s ++ [')']) := by
  apply trimExpressionMarkers_self
  · -- it starts with a letter and ends with a parenthesis
    have h := Text.trim_append_cons (c := ')') (by decide) (gateText ++ s) []
    rw [List.append_assoc] at h
    rw [h]
    rfl
  · rintro ⟨r, hr⟩
    rw [openMark_eq] at hr
    cases hr

/-- The default condition. -/
theorem parse_success (num : Text → Option N) :
    parseExpression num (trimExpressionMarkers "success()".toList) = .ok successCall := by
  have htrim : trimExpressionMarkers "success()".toList = "success()".toList := by decide
  have hlex : lex "success()".toList = .ok [.ident "success".toList, .lparen, .rparen, .eof] := by
    decide
  unfold parseExpression
  rw [htrim, hlex]
  rfl

theorem trim_trimExpressionMarkers (t : Text) :
    Text.trim (trimExpressionMarkers t) = trimExpressionMarkers t := by
  obtain ⟨inner, _, h⟩ | ⟨_, h⟩ := trimExpressionMarkers_cases t
  · rw [h, Text.trim_trim]
  · rw [h, Text.trim_trim]

/-- The collector's span never keeps its markers. -/
theorem trimExpressionMarkers_of_cut {t e rest : Text} (h : Text.cut closeMark t = some (e, rest)) :
    trimExpressionMarkers e = Text.trim e := by
  obtain ⟨inner, ht, _⟩ | ⟨_, ht⟩ := trimExpressionMarkers_cases e
  · -- a closing marker in the span would have ended it
    obtain ⟨w, hw, _⟩ := Text.dropWhile_eq_trim_append e
    have hsplit := List.takeWhile_append_dropWhile (p := Text.isWhitespace) (l := e)
    rw [hw, ht] at hsplit
    refine absurd ?_ (Text.cut_first h (by decide)
      (e.takeWhile Text.isWhitespace ++ (openMark ++ inner)) w)
    simpa only [List.append_assoc] using hsplit.symm
  · exact ht

/-- The text behind the first span of a wrapped condition keeps it from being lexed. -/
theorem lex_error_of_more {inner span more : Text} {tokens : List Token}
    (hlex : lex (Text.trim span) = .ok tokens) (hinner : inner = span ++ rbrace :: more) :
    (∃ err, lex (Text.trim inner) = .error err) ∧
      trimExpressionMarkers (Text.trim inner) = Text.trim inner := by
  obtain ⟨ws, hws, hblank⟩ := Text.dropWhile_eq_trim_append span
  have hs : Text.trim inner =
      Text.trim span ++ (ws ++ rbrace :: more.rdropWhile Text.isWhitespace) := by
    rw [hinner, Text.trim_append_cons (by decide), hws, List.append_assoc]
  refine ⟨?_, trimExpressionMarkers_self (Text.trim_trim inner) ?_⟩
  · rw [hs]
    exact lex_append_rbrace hlex hblank _
  · rw [hs]
    exact not_openMark_append_rbrace hlex hblank _

/-! ## The end of a span -/

/-- One round of the search. -/
theorem findExpressionEnd_cons {c : Char} {t e rest : Text} {inQuote : Bool}
    (h : findExpressionEnd inQuote (c :: t) = some (e, rest)) :
    (inQuote = false ∧ c = rbrace ∧ t = rbrace :: rest ∧ e = []) ∨
      ∃ e', e = c :: e' ∧
        findExpressionEnd (if c = quote then !inQuote else inQuote) t = some (e', rest) ∧
        (inQuote = true ∨ ¬ closeMark <+: c :: t) := by
  unfold findExpressionEnd at h
  by_cases hc : c = quote
  -- a quote opens or closes a string, and no marker begins with it
  · rw [if_pos hc] at h
    obtain ⟨⟨e', rest'⟩, hrec, heq⟩ := Option.map_eq_some_iff.mp h
    cases heq
    refine .inr ⟨e', rfl, by rw [if_pos hc]; exact hrec, .inr ?_⟩
    rintro ⟨r, hr⟩
    rw [closeMark_eq, hc] at hr
    have hquote : rbrace ≠ quote := by decide
    exact hquote (List.cons.inj hr).1
  · rw [if_neg hc] at h
    -- outside of strings the marker ends the expression
    by_cases hend : (!inQuote && decide (c = rbrace) && decide (t.head? = some rbrace)) = true
    · rw [if_pos hend] at h
      simp only [Bool.and_eq_true, decide_eq_true_eq, Bool.not_eq_true'] at hend
      obtain ⟨⟨hq, hb⟩, ht⟩ := hend
      cases h
      refine .inl ⟨hq, hb, ?_, rfl⟩
      cases t with
      | nil => cases ht
      | cons d t =>
          cases ht
          rfl
    · rw [if_neg hend] at h
      obtain ⟨⟨e', rest'⟩, hrec, heq⟩ := Option.map_eq_some_iff.mp h
      cases heq
      refine .inr ⟨e', rfl, by rw [if_neg hc]; exact hrec, ?_⟩
      cases inQuote with
      | true => exact .inl rfl
      | false =>
          refine .inr fun hpre => hend ?_
          obtain ⟨hb, ht⟩ := (isPrefixOf_closeMark c t).mp (List.isPrefixOf_iff_prefix.mpr hpre)
          simp [hb, ht]

/-- A quote switches between the inside and the outside of a literal. -/
theorem parity_cons {c : Char} {t : Text} {inQuote : Bool}
    (h : t.count quote % 2 = if (if c = quote then !inQuote else inQuote) then 1 else 0) :
    (c :: t).count quote % 2 = if inQuote then 1 else 0 := by
  by_cases hc : c = quote
  · rw [if_pos hc] at h
    subst hc
    rw [List.count_cons_self]
    cases inQuote with
    | true => simp at h ⊢; omega
    | false => simp at h ⊢; omega
  · rw [if_neg hc] at h
    rw [List.count_cons_of_ne hc]
    exact h

/-- The search ends at a marker, outside the literals. -/
theorem findExpressionEnd_spec {t e rest : Text} {inQuote : Bool}
    (h : findExpressionEnd inQuote t = some (e, rest)) :
    t = e ++ (closeMark ++ rest) ∧ e.count quote % 2 = if inQuote then 1 else 0 := by
  induction t generalizing inQuote e with
  | nil => cases h
  | cons c t ih =>
      obtain ⟨hq, rfl, rfl, rfl⟩ | ⟨e', rfl, hrec, _⟩ := findExpressionEnd_cons h
      · subst hq
        rw [closeMark_eq]
        exact ⟨rfl, rfl⟩
      · obtain ⟨ht, hcount⟩ := ih hrec
        exact ⟨by rw [ht]; rfl, parity_cons hcount⟩

/-- What follows the marker does not matter. -/
theorem findExpressionEnd_local {t e rest : Text} {inQuote : Bool}
    (h : findExpressionEnd inQuote t = some (e, rest)) (r : Text) :
    findExpressionEnd inQuote (e ++ (closeMark ++ r)) = some (e, r) := by
  induction t generalizing inQuote e with
  | nil => cases h
  | cons c t ih =>
      obtain ⟨hq, rfl, rfl, rfl⟩ | ⟨e', rfl, hrec, hopen⟩ := findExpressionEnd_cons h
      · subst hq
        rw [closeMark_eq]
        rfl
      · have hlocal := ih hrec
        rw [List.cons_append]
        unfold findExpressionEnd
        by_cases hc : c = quote
        · rw [if_pos hc] at hlocal ⊢
          rw [hlocal]
          rfl
        · rw [if_neg hc] at hlocal ⊢
          -- what follows the first character is the same, so no marker begins here either
          have hno : (!inQuote && decide (c = rbrace) &&
              decide ((e' ++ (closeMark ++ r)).head? = some rbrace)) = false := by
            have hhead : (e' ++ (closeMark ++ r)).head? = t.head? := by
              rw [(findExpressionEnd_spec hrec).1, closeMark_eq]
              cases e' <;> rfl
            rw [hhead]
            obtain hq | hno := hopen
            · rw [hq]
              rfl
            · by_contra hyes
              simp only [Bool.not_eq_false, Bool.and_eq_true, decide_eq_true_eq] at hyes
              exact hno (List.isPrefixOf_iff_prefix.mp
                ((isPrefixOf_closeMark c t).mpr ⟨hyes.1.2, hyes.2⟩))
          rw [if_neg (by rw [hno]; exact Bool.false_ne_true), hlocal]
          rfl

/-- A marker inside the span stands in a literal. -/
theorem findExpressionEnd_inside {t e rest a b : Text} {inQuote : Bool}
    (h : findExpressionEnd inQuote t = some (e, rest)) (he : e = a ++ (closeMark ++ b)) :
    a.count quote % 2 = if !inQuote then 1 else 0 := by
  induction t generalizing inQuote e a with
  | nil => cases h
  | cons c t ih =>
      obtain ⟨_, _, _, rfl⟩ | ⟨e', rfl, hrec, hopen⟩ := findExpressionEnd_cons h
      · rw [closeMark_eq] at he
        simp at he
      · cases a with
        | nil =>
            obtain hq | hno := hopen
            · rw [hq]
              rfl
            · refine absurd ?_ hno
              rw [(findExpressionEnd_spec h).1, he]
              exact ⟨b ++ (closeMark ++ rest), by simp⟩
        | cons d a =>
            rw [List.cons_append] at he
            obtain ⟨hd, htail⟩ := List.cons.inj he
            subst hd
            have hcount := ih hrec htail
            apply parity_cons
            by_cases hc : c = quote
            · rwa [if_pos hc] at hcount ⊢
            · rwa [if_neg hc] at hcount ⊢

theorem count_blank {d : Char} (hd : Text.isWhitespace d = false) {w : Text}
    (hw : ∀ c ∈ w, Text.isWhitespace c = true) : w.count d = 0 := by
  rw [List.count_eq_zero]
  intro hmem
  rw [hw d hmem] at hd
  cases hd

/-- The span never keeps markers of its own. -/
theorem trimExpressionMarkers_of_find {t e rest : Text}
    (h : findExpressionEnd false t = some (e, rest)) : trimExpressionMarkers e = Text.trim e := by
  obtain ⟨inner, ht, _⟩ | ⟨_, ht⟩ := trimExpressionMarkers_cases e
  · -- a closing marker in the span stands in a literal, and the span ends outside
    obtain ⟨w, hw, hblank⟩ := Text.dropWhile_eq_trim_append e
    have hsplit := List.takeWhile_append_dropWhile (p := Text.isWhitespace) (l := e)
    rw [hw, ht] at hsplit
    have he : e = (e.takeWhile Text.isWhitespace ++ (openMark ++ inner)) ++ (closeMark ++ w) := by
      simpa only [List.append_assoc] using hsplit.symm
    have hodd := findExpressionEnd_inside h he
    have heven := (findExpressionEnd_spec h).2
    have hclose : (closeMark ++ w).count quote = 0 := by
      rw [List.count_append, count_blank (by decide) hblank]
      decide
    rw [he, List.count_append, hclose] at heven
    simp only [Bool.not_false, if_true, Bool.false_eq_true, if_false] at hodd heven
    omega
  · exact ht

/-! ## Conditions that parse -/

theorem even_quotes_of_parse {num : Text → Option N} {t : Text} {e : Expr N}
    (h : parseExpression num t = .ok e) : t.count quote % 2 = 0 := by
  obtain ⟨tokens, htokens, _⟩ := bind_eq_ok h
  exact even_quotes_of_lex htokens

theorem parse_of_validate {num : Text → Option N} {t : Text}
    (h : validateExpression num t = .ok ()) :
    ∃ e, parseExpression num (trimExpressionMarkers t) = .ok e := by
  obtain ⟨e, he, _⟩ := bind_eq_ok h
  exact ⟨e, he⟩

/-- A condition that parses has no markers left. -/
theorem trimExpressionMarkers_of_parse {num : Text → Option N} {t : Text} {e : Expr N}
    (h : parseExpression num (trimExpressionMarkers t) = .ok e) :
    trimExpressionMarkers (trimExpressionMarkers t) = trimExpressionMarkers t := by
  obtain ⟨tokens, htokens, _⟩ := bind_eq_ok h
  exact trimExpressionMarkers_self (trim_trimExpressionMarkers t) (not_openMark_of_lex htokens)

/-- A condition with something left of it is taken as it is or put behind the gate. -/
theorem effectiveCondition_of_ne {t : Text} (h : trimExpressionMarkers t ≠ []) :
    effectiveCondition (some t) =
      if containsStatusCheckFunction (trimExpressionMarkers t) then trimExpressionMarkers t
      else gateText ++ (trimExpressionMarkers t ++ [')']) := by
  have hblank : Text.trim t ≠ [] := by
    intro hblank
    rw [← trimExpressionMarkers_trim, hblank] at h
    exact h rfl
  unfold effectiveCondition
  exact if_neg hblank

theorem ne_nil_of_parse {num : Text → Option N} {t : Text} {e : Expr N}
    (h : parseExpression num t = .ok e) : t ≠ [] := by
  rintro rfl
  cases h

/-! ## Validation -/

/-- References that are all in the allow-list pass. -/
theorem validateContexts_of_references {num : Text → Option N} {expr input : Text}
    {allowed : List Text} {references : ExpressionReferences}
    (h : collectExpressionReferences num expr = .ok references)
    (hcontexts : (references.contexts.find? fun ctx => !allowed.any (specMatches ctx)) = none)
    (hfunctions : references.functions.forM (validateFunction allowed) = .ok ()) :
    validateContexts num expr (some allowed) input = .ok () := by
  unfold validateContexts
  rw [h]
  dsimp only [Except.mapError, bind, Except.bind]
  rw [hcontexts]
  exact hfunctions

/-- A call within the bounds of its specification passes. -/
theorem validateFunction_of_bounds {allowed : List Text} {function : ContextFunctionCall}
    {spec name bounds : Text} {min max : Nat}
    (hspec : allowed.find? (specMatches function.name) = some spec)
    (hcut : Text.cut ['('] spec = some (name, bounds))
    (hbounds : arityBounds bounds = some (min, max))
    (hcount : (min ≤ function.argumentCount && function.argumentCount ≤ max) = true) :
    validateFunction allowed function = .ok () := by
  have harity : contextSpecArity spec = .ok (some (min, max)) := by
    unfold contextSpecArity
    rw [hcut]
    dsimp only
    rw [hbounds]
  unfold validateFunction
  rw [hspec]
  dsimp only
  rw [harity]
  exact if_pos hcount

/-! ## Status functions in a text -/

theorem skipQuoted_escaped (t : Text) : skipQuoted (quote :: quote :: t) = skipQuoted t := by
  simp [skipQuoted]

theorem skipQuoted_closed {c : Char} (hc : c ≠ quote) (t : Text) :
    skipQuoted (quote :: c :: t) = c :: t := by
  simp [skipQuoted, hc]

theorem skipQuoted_inside {c : Char} (hc : c ≠ quote) (t : Text) :
    skipQuoted (c :: t) = skipQuoted t := by
  conv_lhs => unfold skipQuoted
  rw [if_neg hc]

theorem skipQuoted_length (t : Text) : (skipQuoted t).length ≤ t.length := by
  fun_induction skipQuoted t with
  | case1 => exact Nat.le_refl 0
  | case2 => exact Nat.zero_le _
  | case3 t' ih => simp only [List.length_cons]; omega
  | case4 c' t' hne => simp
  | case5 c t hne ih => simp only [List.length_cons]; omega

theorem length_dropWhile_le {α : Type} (p : α → Bool) (l : List α) :
    (l.dropWhile p).length ≤ l.length := (List.dropWhile_suffix p).length_le

/-- What follows a word and the white space behind it. -/
def afterWord (t : Text) : Text := (t.dropWhile wordPart).dropWhile Text.isWhitespace

theorem afterWord_length (t : Text) : (afterWord t).length ≤ t.length :=
  (length_dropWhile_le _ _).trans (length_dropWhile_le _ _)

theorem statusCheckLoop_fuel (n : Nat) : ∀ (k : Nat) (t : Text), t.length ≤ n → t.length ≤ k →
    statusCheckLoop n t = statusCheckLoop k t := by
  induction n with
  | zero =>
      intro k t hn hk
      obtain rfl : t = [] := List.length_eq_zero_iff.mp (Nat.le_zero.mp hn)
      cases k <;> rfl
  | succ n ih =>
      intro k t hn hk
      cases t with
      | nil => cases k <;> rfl
      | cons c t =>
          obtain ⟨k, rfl⟩ : ∃ j, k = j + 1 := ⟨k - 1, by simp only [List.length_cons] at hk; omega⟩
          simp only [List.length_cons, Nat.add_le_add_iff_right] at hn hk
          have hquoted := skipQuoted_length t
          have hword := afterWord_length t
          unfold statusCheckLoop
          dsimp only
          rw [← afterWord, ih k (skipQuoted t) (by omega) (by omega),
            ih k (afterWord t) (by omega) (by omega), ih k t hn hk]

theorem containsStatus_nil : containsStatusCheckFunction [] = false := rfl

/-- One round of the scan. -/
theorem containsStatus_cons (c : Char) (t : Text) :
    containsStatusCheckFunction (c :: t) =
      if c = quote then containsStatusCheckFunction (skipQuoted t)
      else if identStart c then
        (isStatusFunction (c :: t.takeWhile wordPart) && (afterWord t).head? = some '(') ||
          containsStatusCheckFunction (afterWord t)
      else containsStatusCheckFunction t := by
  have hquoted := skipQuoted_length t
  have hword := afterWord_length t
  unfold containsStatusCheckFunction
  rw [List.length_cons]
  conv_lhs => unfold statusCheckLoop
  dsimp only
  rw [← afterWord, statusCheckLoop_fuel t.length (skipQuoted t).length _ hquoted (Nat.le_refl _),
    statusCheckLoop_fuel t.length (afterWord t).length _ hword (Nat.le_refl _)]

/-- A literal that is closed in the text ends there. -/
theorem skipQuoted_append {t : Text} (ht : t.count quote % 2 = 1) (x : Text) :
    skipQuoted (t ++ ')' :: x) = skipQuoted t ++ ')' :: x ∧
      (skipQuoted t).count quote % 2 = 0 := by
  have hquote : ')' ≠ quote := by decide
  fun_induction skipQuoted t with
  | case1 => simp at ht
  | case2 => exact ⟨skipQuoted_closed hquote x, rfl⟩
  | case3 t' ih =>
      obtain ⟨happ, hcount⟩ := ih (by simp only [List.count_cons_self] at ht; omega)
      refine ⟨?_, hcount⟩
      rw [List.cons_append, List.cons_append, skipQuoted_escaped]
      exact happ
  | case4 c' t' hne =>
      refine ⟨skipQuoted_closed hne _, ?_⟩
      rw [List.count_cons_self] at ht
      omega
  | case5 c t hne ih =>
      obtain ⟨happ, hcount⟩ := ih (by rwa [List.count_cons_of_ne hne] at ht)
      refine ⟨?_, hcount⟩
      rw [List.cons_append, skipQuoted_inside hne]
      exact happ

theorem containsStatus_append_of_length (n : Nat) : ∀ {t : Text}, t.length ≤ n →
    t.count quote % 2 = 0 → ∀ x, containsStatusCheckFunction (t ++ ')' :: x) =
      (containsStatusCheckFunction t || containsStatusCheckFunction (')' :: x)) := by
  have hword : wordPart ')' = false := by decide
  have hspace : Text.isWhitespace ')' = false := by decide
  have hword' : wordPart quote = false := by decide
  have hspace' : Text.isWhitespace quote = false := by decide
  -- the induction is on the length, since the scan jumps over literals and words
  induction n with
  | zero =>
      intro t hn _ x
      obtain rfl : t = [] := List.length_eq_zero_iff.mp (Nat.le_zero.mp hn)
      rw [List.nil_append, containsStatus_nil, Bool.false_or]
  | succ n ih =>
      intro t hn hcount x
      cases t with
      | nil => rw [List.nil_append, containsStatus_nil, Bool.false_or]
      | cons c t =>
          simp only [List.length_cons, Nat.add_le_add_iff_right] at hn
          rw [List.cons_append, containsStatus_cons, containsStatus_cons]
          -- a literal that is closed in the first part ends there, whatever follows
          by_cases hc : c = quote
          · subst hc
            rw [if_pos rfl, if_pos rfl]
            obtain ⟨happ, heven⟩ :=
              skipQuoted_append (t := t) (by rw [List.count_cons_self] at hcount; omega) x
            rw [happ, ih ((skipQuoted_length t).trans hn) heven]
          · rw [if_neg hc, if_neg hc]
            have heven : t.count quote % 2 = 0 := by
              rwa [List.count_cons_of_ne hc] at hcount
            -- a word ends before the parenthesis, and so does the white space behind it
            by_cases hid : identStart c = true
            · rw [if_pos hid, if_pos hid]
              have hends : ∀ d ∈ (')' :: x).head?, wordPart d = false := by
                intro d hd
                cases hd
                exact hword
              have htake : (t ++ ')' :: x).takeWhile wordPart = t.takeWhile wordPart :=
                (takeWhile_append_of_stops hends t).1
              have hafter : afterWord (t ++ ')' :: x) = afterWord t ++ ')' :: x := by
                unfold afterWord
                rw [Text.dropWhile_append_cons hword, Text.dropWhile_append_cons hspace]
              have hafter_even : (afterWord t).count quote % 2 = 0 := by
                unfold afterWord
                rwa [Text.count_dropWhile hspace', Text.count_dropWhile hword']
              have hhead : ((afterWord t ++ ')' :: x).head? = some '(') =
                  ((afterWord t).head? = some '(') := by
                cases afterWord t with
                | nil => simp
                | cons d r => rfl
              rw [hafter, htake, ih ((afterWord_length t).trans hn) hafter_even, Bool.or_assoc]
              simp only [hhead]
            · rw [if_neg hid, if_neg hid, ih hn heven]

/-- A closing parenthesis separates what the scan finds, if the literals before it are
    closed. -/
theorem containsStatus_append {t : Text} (ht : t.count quote % 2 = 0) (x : Text) :
    containsStatusCheckFunction (t ++ ')' :: x) =
      (containsStatusCheckFunction t || containsStatusCheckFunction (')' :: x)) :=
  containsStatus_append_of_length t.length (Nat.le_refl _) ht x

/-- A character of no literal and no word is passed over. -/
theorem containsStatus_skip {c : Char} (hc : c ≠ quote) (hid : identStart c = false) (t : Text) :
    containsStatusCheckFunction (c :: t) = containsStatusCheckFunction t := by
  rw [containsStatus_cons, if_neg hc, if_neg (by rw [hid]; exact Bool.false_ne_true)]

/-! ## Two conditions put together -/

/-- `(outer) && (inner)`. -/
def mergedText (outer inner : Text) : Text :=
  '(' :: (outer ++ (')' :: " && (".toList ++ (inner ++ [')'])))

theorem lex_between (t : Text) : lex (')' :: " && (".toList ++ t) =
    (lex t).map fun ts => .rparen :: .and :: .lparen :: ts := by
  have hclose : lexStep ')' (" && (".toList ++ t) = .ok (some .rparen, " && (".toList ++ t) := rfl
  have hspace : lexStep ' ' ("&& (".toList ++ t) = .ok (none, "&& (".toList ++ t) := rfl
  have hand : lexStep '&' ("& (".toList ++ t) = .ok (some .and, " (".toList ++ t) := rfl
  have hspace' : lexStep ' ' ("(".toList ++ t) = .ok (none, "(".toList ++ t) := rfl
  have hopen : lexStep '(' t = .ok (some .lparen, t) := rfl
  rw [List.cons_append, lex_of_step hclose]
  show (lex (' ' :: ("&& (".toList ++ t))).map _ = _
  rw [lex_of_step hspace]
  show ((lex ('&' :: ("& (".toList ++ t))).map _).map _ = _
  rw [lex_of_step hand]
  show (((lex (' ' :: ("(".toList ++ t))).map _).map _).map _ = _
  rw [lex_of_step hspace']
  show ((((lex ('(' :: t)).map _).map _).map _).map _ = _
  rw [lex_of_step hopen]
  cases lex t with
  | error e => rfl
  | ok ts => rfl

/-- The tokens of two conditions put together, with what follows them. -/
theorem lex_merged {outer inner : Text} {a b : List Token}
    (ha : ∀ x, Stops x → lex (outer ++ x) = (lex x).map (a ++ ·))
    (hb : ∀ x, Stops x → lex (inner ++ x) = (lex x).map (b ++ ·)) (x : Text) :
    lex (mergedText outer inner ++ x) =
      (lex x).map fun ts => .lparen :: closing (.and :: .lparen :: closing ts b) a := by
  have hopen : ∀ t : Text, lexStep '(' t = .ok (some .lparen, t) := fun _ => rfl
  have hclose : lexStep ')' x = .ok (some .rparen, x) := rfl
  have htext : mergedText outer inner ++ x =
      '(' :: (outer ++ (')' :: " && (".toList ++ (inner ++ (')' :: x)))) := by
    simp [mergedText]
  rw [htext, lex_of_step (hopen _), List.cons_append, ha _ (stops_rparen _), ← List.cons_append,
    lex_between, hb _ (stops_rparen _), lex_of_step hclose]
  cases lex x with
  | error e => rfl
  | ok ts => simp [Except.map, closing]

/-- Two conditions put together are their conjunction, unless that is too deep. -/
theorem parse_merged {num : Text → Option N} {outer inner : Text} {l r : Expr N}
    (ho : parseExpression num outer = .ok l) (hi : parseExpression num inner = .ok r) :
    parseExpression num (mergedText outer inner) = .ok (.binary .and l r) ∨
      ∃ d, parseExpression num (mergedText outer inner) = .error (.tooDeep d) := by
  obtain ⟨_, ha, hl⟩ := bind_eq_ok ho
  obtain ⟨_, hb, hr⟩ := bind_eq_ok hi
  obtain ⟨a, rfl, happ⟩ := lex_append ha
  obtain ⟨b, rfl, happ'⟩ := lex_append hb
  have hlex : lex (mergedText outer inner) =
      .ok (.lparen :: closing (.and :: .lparen :: closing [.eof] b) a) := by
    have h := lex_merged happ happ' []
    rw [List.append_nil] at h
    rw [h]
    rfl
  unfold parseExpression
  rw [hlex]
  exact parseTokens_pair (eof_notMem_of_lex ha) (eof_notMem_of_lex hb) hl hr

/-- So they are behind the gate. -/
theorem parse_merged_gated {num : Text → Option N} {outer inner : Text} {l r : Expr N}
    (ho : parseExpression num outer = .ok l) (hi : parseExpression num inner = .ok r) :
    parseExpression num (gateText ++ (mergedText outer inner ++ [')'])) =
        .ok (.binary .and successCall (.binary .and l r)) ∨
      ∃ d, parseExpression num (gateText ++ (mergedText outer inner ++ [')'])) =
        .error (.tooDeep d) := by
  obtain ⟨_, ha, hl⟩ := bind_eq_ok ho
  obtain ⟨_, hb, hr⟩ := bind_eq_ok hi
  obtain ⟨a, rfl, happ⟩ := lex_append ha
  obtain ⟨b, rfl, happ'⟩ := lex_append hb
  have hlex : lex (gateText ++ (mergedText outer inner ++ [')'])) =
      .ok (gateTokens ++
        .lparen :: closing (.and :: .lparen :: closing [.rparen, .eof] b) a) := by
    rw [lex_gateText, lex_merged happ happ']
    rfl
  unfold parseExpression
  rw [hlex]
  exact parseTokens_gated_pair (eof_notMem_of_lex ha) (eof_notMem_of_lex hb) hl hr

/-- The merged condition calls a status function if one of the two does. -/
theorem containsStatus_merged {outer inner : Text} (ho : outer.count quote % 2 = 0)
    (hi : inner.count quote % 2 = 0) : containsStatusCheckFunction (mergedText outer inner) =
      (containsStatusCheckFunction outer || containsStatusCheckFunction inner) := by
  have hskip {c : Char} (hc : c ∈ ['(', ')', ' ', '&']) (t : Text) :
      containsStatusCheckFunction (c :: t) = containsStatusCheckFunction t := by
    simp only [List.mem_cons, List.not_mem_nil, or_false] at hc
    obtain rfl | rfl | rfl | rfl := hc
    all_goals exact containsStatus_skip (by decide) (by decide) t
  unfold mergedText
  rw [hskip (by decide), List.cons_append, containsStatus_append ho, hskip (by decide)]
  show (_ || containsStatusCheckFunction (' ' :: '&' :: '&' :: ' ' :: '(' :: (inner ++ [')']))) = _
  rw [hskip (by decide), hskip (by decide), hskip (by decide), hskip (by decide),
    hskip (by decide), containsStatus_append hi, hskip (by decide), containsStatus_nil,
    Bool.or_false]

/-- The merged condition is not trimmed. -/
theorem trimExpressionMarkers_merged (outer inner : Text) :
    trimExpressionMarkers (mergedText outer inner) = mergedText outer inner := by
  apply trimExpressionMarkers_self
  · have h := Text.trim_append_cons (c := ')') (by decide)
      ('(' :: (outer ++ (')' :: " && (".toList ++ inner))) []
    have htext : mergedText outer inner =
        '(' :: (outer ++ (')' :: " && (".toList ++ inner)) ++ [')'] := by
      simp [mergedText]
    rw [htext, h]
    rfl
  · rintro ⟨r, hr⟩
    rw [openMark_eq] at hr
    cases hr

end Workflow

end Preloop

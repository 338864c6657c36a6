import PreloopControl.Properties.SecretReads
import PreloopControl.Workflow.Spans

/-!
# Template Tokens and Templates

The server resolves the expressions of a string in place, and the runner evaluates the
token that was built from it. Both split the string at the same spans, and `format` puts
the pieces together again: what the token escapes and numbers comes out as it was.

The two differ where the token is built from something else than the pieces. White space
around a lone expression is dropped, an unclosed expression becomes a literal, and the
call of `format` is one level deeper than its arguments.

## Main definitions

* `SameString`: The string of a token and of a template, up to the limits of `format`.
* `KeepsMeaning`: When they are the same.

## Theorems

* `resolveLoop_spans`: The loop of the template over the spans.
* `renders_spans`: The format string of the spans.
* `template_token_exact`: The token of a string whose expressions parse.
-/

namespace Preloop

namespace Workflow

open Expressions Budget Fallible

variable {N F : Type} {engine : Engine N F} {ctx : Context N}

/-! ## Spans -/

/-- The spans with values in the place of their expressions. -/
def fill (engine : Engine N F) : List (Text × Text) → List (Value N) → Text → Text
  | (before, _) :: spans, v :: vs, last =>
    before ++ (stringValue engine v ++ fill engine spans vs last)
  | _, _, last => last

/-! ## The template -/

/-- The loop of the template fills in the values of the spans. -/
theorem resolveLoop_spans (n : Nat) : ∀ {remaining : Text} {spans : List (Text × Text)}
    {last : Text} {vs : List (Value N)}, templateSpans n remaining = some (spans, last) →
      List.Forall₂ (fun s v => evalExpression engine s.2 ctx = .ok v) spans vs →
      resolveLoop engine ctx n remaining = .ok (fill engine spans vs last) := by
  induction n with
  | zero =>
      intro remaining spans last vs h hvs
      cases h
      cases hvs
      rfl
  | succ n ih =>
      intro remaining spans last vs h hvs
      unfold templateSpans at h
      -- a round of the loop takes one span
      unfold resolveLoop
      cases hcut : Text.cut openMark remaining with
      | none =>
          rw [hcut] at h
          cases h
          cases hvs
          rfl
      | some p =>
          obtain ⟨before, source⟩ := p
          rw [hcut] at h
          dsimp only at h ⊢
          cases hend : findExpressionEnd false source with
          | none =>
              rw [hend] at h
              cases h
          | some p =>
              obtain ⟨e, rest⟩ := p
              rw [hend] at h
              obtain ⟨⟨spans', last'⟩, hrec, heq⟩ := Option.map_eq_some_iff.mp h
              cases heq
              cases hvs with
              | @cons _ v _ vs hv hvs =>
                  dsimp only
                  rw [hv]
                  show (resolveLoop engine ctx n rest >>= _) = _
                  rw [ih hrec hvs]
                  show Except.ok _ = Except.ok _
                  simp [fill]

/-- A template that is resolved has closed spans with values. -/
theorem spans_of_resolveLoop (n : Nat) : ∀ {remaining s : Text},
    resolveLoop engine ctx n remaining = .ok s →
      ∃ spans last vs, templateSpans n remaining = some (spans, last) ∧
        List.Forall₂ (fun s v => evalExpression engine s.2 ctx = .ok v) spans vs := by
  induction n with
  | zero => exact fun _ => ⟨[], _, [], rfl, .nil⟩
  | succ n ih =>
      intro remaining s h
      unfold resolveLoop at h
      unfold templateSpans
      -- without an open mark the rest is the last text
      cases hcut : Text.cut openMark remaining with
      | none => exact ⟨[], remaining, [], rfl, .nil⟩
      | some p =>
          obtain ⟨before, source⟩ := p
          rw [hcut] at h
          dsimp only at h ⊢
          cases hend : findExpressionEnd false source with
          | none =>
              rw [hend] at h
              cases h
          | some p =>
              obtain ⟨e, rest⟩ := p
              rw [hend] at h
              obtain ⟨v, hv, h⟩ := bind_eq_ok h
              obtain ⟨result, hresult, _⟩ := bind_eq_ok h
              obtain ⟨spans, last, vs, hspans, hvs⟩ := ih hresult
              refine ⟨(before, Text.trim e) :: spans, last, v :: vs, ?_, .cons ?_ hvs⟩
              · dsimp only
                rw [hspans]
                rfl
              -- the span was evaluated, or the loop had failed here
              · cases heval : evalExpression engine (Text.trim e) ctx with
                | error err =>
                    rw [heval] at hv
                    cases hv
                | ok w =>
                    rw [heval] at hv
                    cases hv
                    rfl

/-- The format string of the spans stands for the spans with their values filled in. -/
theorem renders_spans {spans : List (Text × Text)} {last : Text} {format : Value N} :
    ∀ {before vs : List (Value N)}, spans.length = vs.length → before.length + vs.length ≤ 256 →
      Renders engine (format :: (before ++ vs)) (spansFormat before.length spans last)
        (fill engine spans vs last) := by
  induction spans with
  | nil =>
      intro before vs hlen _
      obtain rfl : vs = [] := List.length_eq_zero_iff.mp hlen.symm
      have h := renders_literal (@renders_nil _ _ engine (format :: (before ++ []))) last
      simpa [spansFormat, fill] using h
  | cons span spans ih =>
      intro before vs hlen hcap
      cases vs with
      | nil => cases hlen
      | cons v vs =>
          simp only [List.length_cons] at hlen hcap
          have hrest := @ih (before ++ [v]) vs (by omega)
            (by simp only [List.length_append, List.length_singleton]; omega)
          rw [List.append_assoc, List.singleton_append, List.length_append,
            List.length_singleton] at hrest
          have hv : (format :: (before ++ v :: vs))[before.length + 1]? = some v := by simp
          have hitem := renders_item hrest (show before.length < 256 by omega) hv
          exact renders_literal hitem span.1

/-! ## Lone expressions -/

/-- No expression opens in white space. -/
theorem cut_blank {w : Text} (hw : ∀ c ∈ w, Text.isWhitespace c = true) :
    Text.cut openMark w = none := by
  cases h : Text.cut openMark w with
  | none => rfl
  | some p =>
      have hmem : '$' ∈ w := by
        rw [Text.cut_eq h, openMark_eq]
        simp
      exact absurd (hw '$' hmem) (by decide)

/-- A lone expression is the one span of its string, with white space around it. -/
theorem spans_of_wholeExpression {raw source : Text} (h : wholeExpression raw = some source) :
    ∃ before last, templateSpans raw.length raw = some ([(before, source)], last) ∧
      (Text.trim raw = raw ↔ before = [] ∧ last = []) := by
  unfold wholeExpression at h
  by_cases hpre : openMark.isPrefixOf (Text.trim raw) = true
  · rw [if_pos hpre] at h
    obtain ⟨src, hsrc⟩ := List.isPrefixOf_iff_prefix.mp hpre
    rw [← hsrc, List.drop_left] at h
    -- the string is the expression between two blanks
    obtain ⟨w, hw, hblank⟩ := Text.dropWhile_eq_trim_append raw
    have hsplit := List.takeWhile_append_dropWhile (p := Text.isWhitespace) (l := raw)
    rw [hw] at hsplit
    have hcut : Text.cut openMark raw = some (raw.takeWhile Text.isWhitespace, src ++ w) := by
      rw [Text.cut_dropWhile openMark_eq (by decide), hw, ← hsrc, List.append_assoc,
        Text.cut_append openMark_ne_nil]
      simp
    cases hend : findExpressionEnd false src with
    | none =>
        rw [hend] at h
        cases h
    | some p =>
        obtain ⟨e, rest⟩ := p
        rw [hend] at h
        cases rest with
        | cons c rest => cases h
        | nil =>
            cases h
            obtain ⟨hs, _⟩ := findExpressionEnd_spec hend
            have hlocal := findExpressionEnd_local hend w
            have hsource : src ++ w = e ++ (closeMark ++ w) := by
              rw [hs]
              simp
            -- no span begins in the blank behind it
            have hlast : ∀ n, templateSpans n w = some ([], w) := by
              intro n
              cases n with
              | zero => rfl
              | succ n =>
                  unfold templateSpans
                  rw [cut_blank hblank]
            refine ⟨raw.takeWhile Text.isWhitespace, w, ?_, ?_⟩
            · cases hraw : raw.length with
              | zero =>
                  have hnil : Text.cut openMark [] = none := by decide
                  rw [List.length_eq_zero_iff.mp hraw, hnil] at hcut
                  cases hcut
              | succ n =>
                  unfold templateSpans
                  rw [hcut, hsource]
                  dsimp only
                  rw [hlocal]
                  dsimp only
                  rw [hlast]
                  rfl
            -- it is trimmed already exactly if both blanks are empty
            · constructor
              · intro htrim
                rw [htrim] at hsplit
                have hlen := congrArg List.length hsplit
                simp only [List.length_append] at hlen
                exact ⟨List.length_eq_zero_iff.mp (by omega), List.length_eq_zero_iff.mp (by omega)⟩
              · rintro ⟨hbefore, hafter⟩
                rw [hbefore, hafter] at hsplit
                simpa using hsplit
  · rw [if_neg hpre] at h
    cases h

/-! ## Tokens and templates -/

/-- The token and the template have the same string, up to the limits of `format`. -/
def SameString (token : Result Text) (resolved : Except TemplateError Text) : Prop :=
  (∀ s, token = .ok s → resolved = .ok s) ∧ ∀ s, resolved = .ok s → Limited s token

/-- Every expression of the string parses. -/
def ExpressionsParse (num : Text → Option N) (raw : Text) : Prop :=
  ∀ spans last, templateSpans raw.length raw = some (spans, last) →
    ∀ s ∈ spans, ∃ e, parseExpression num s.2 = .ok e

/-- Every expression is closed; and unless one of them has no value, a lone one has no
    white space around it, and others leave room for the call. -/
def KeepsMeaning (engine : Engine N F) (ctx : Context N) (raw : Text) : Prop :=
  ∃ spans last, templateSpans raw.length raw = some (spans, last) ∧
    ((∀ s ∈ spans, ∃ v, evalExpression engine s.2 ctx = .ok v) →
      if (wholeExpression raw).isSome then Text.trim raw = raw
      else ∀ s ∈ spans, LeavesRoom engine.parseNumber s.2)

theorem keepsMeaning_iff {raw last : Text} {spans : List (Text × Text)}
    (h : templateSpans raw.length raw = some (spans, last)) :
    KeepsMeaning engine ctx raw ↔
      ((∀ s ∈ spans, ∃ v, evalExpression engine s.2 ctx = .ok v) →
        if (wholeExpression raw).isSome then Text.trim raw = raw
        else ∀ s ∈ spans, LeavesRoom engine.parseNumber s.2) := by
  constructor
  · rintro ⟨spans', last', h', hkeeps⟩
    rw [h] at h'
    cases h'
    exact hkeeps
  · exact fun hkeeps => ⟨spans, last, h, hkeeps⟩

/-- An unclosed expression: the token is a literal, and the template has no string. -/
theorem unclosed_differs {raw : Text} (h : templateSpans raw.length raw = none) :
    ¬ KeepsMeaning engine ctx raw ∧
      ¬ SameString (.ok raw) (resolveString engine raw ctx) := by
  constructor
  · rintro ⟨spans, last, hspans, _⟩
    rw [h] at hspans
    cases hspans
  · rintro ⟨hsame, _⟩
    obtain ⟨spans, last, vs, hspans, _⟩ := spans_of_resolveLoop raw.length (hsame raw rfl)
    rw [h] at hspans
    cases hspans

/-- A lone expression: its value, without the white space around it. -/
theorem same_lone {raw source : Text} (h : wholeExpression raw = some source) :
    SameString ((evalExpression engine source ctx).map (stringValue engine))
      (resolveString engine raw ctx) ↔ KeepsMeaning engine ctx raw := by
  obtain ⟨before, last, hspans, htrim⟩ := spans_of_wholeExpression h
  have hresolved : ∀ v, evalExpression engine source ctx = .ok v →
      resolveString engine raw ctx = .ok (before ++ (stringValue engine v ++ last)) :=
    fun v hv => resolveLoop_spans raw.length hspans (.cons hv .nil)
  rw [keepsMeaning_iff hspans, h, Option.isSome_some, if_pos rfl, htrim]
  constructor
  -- what stands around the expression would show in the length
  · rintro ⟨hsame, _⟩ hall
    obtain ⟨v, hv⟩ := hall _ List.mem_cons_self
    have heq := hsame (stringValue engine v) (by rw [hv]; rfl)
    rw [hresolved v hv, Except.ok.injEq] at heq
    have hlen := congrArg List.length heq
    simp only [List.length_append] at hlen
    exact ⟨List.length_eq_zero_iff.mp (by omega), List.length_eq_zero_iff.mp (by omega)⟩
  -- with nothing around it the template is the expression
  · intro hkeeps
    have hvalue : ∀ v, evalExpression engine source ctx = .ok v →
        resolveString engine raw ctx = .ok (stringValue engine v) := by
      intro v hv
      obtain ⟨rfl, rfl⟩ := hkeeps (by
        intro s hs
        rw [List.mem_singleton] at hs
        subst hs
        exact ⟨v, hv⟩)
      rw [hresolved v hv, List.nil_append, List.append_nil]
    constructor
    · intro s hs
      obtain ⟨v, hv, rfl⟩ := map_eq_ok hs
      exact hvalue v hv
    · intro s hs
      obtain ⟨spans, last', vs, hspans', hvs⟩ := spans_of_resolveLoop raw.length hs
      rw [hspans] at hspans'
      cases hspans'
      cases hvs with
      | @cons _ v _ _ hv _ =>
          rw [hvalue v hv] at hs
          cases hs
          rw [hv]
          exact limited_ok _

/-! ## The call -/

/-- A trimmed text that parses is evaluated to the value of its tree. -/
theorem evalExpression_of_parse {t : Text} {e : Expr N} (ht : Text.trim t = t)
    (h : parseExpression engine.parseNumber t = .ok e) :
    evalExpression engine t ctx = evalFresh engine ctx e := by
  obtain ⟨tokens, htokens, _⟩ := bind_eq_ok h
  unfold evalExpression
  rw [trimExpressionMarkers_self ht (not_openMark_of_lex htokens), h]
  rfl

theorem not_openMark_formatText (literal : Text) (ts : List Text) :
    ¬ openMark <+: formatText literal ts := by
  rintro ⟨r, hr⟩
  rw [openMark_eq] at hr
  cases hr

/-- The values of the spans are those of their trees. -/
theorem forall₂_spans {spans : List (Text × Text)} {es : List (Expr N)}
    (htrim : ∀ s ∈ spans, Text.trim s.2 = s.2)
    (h : List.Forall₂ (fun t e => parseExpression engine.parseNumber t = .ok e)
      (spans.map (·.2)) es) (vs : List (Value N)) :
    List.Forall₂ (fun s v => evalExpression engine s.2 ctx = .ok v) spans vs ↔
      List.Forall₂ (fun e v => evalFresh engine ctx e = .ok v) es vs := by
  induction spans generalizing es vs with
  | nil =>
      cases h
      simp
  | cons span spans ih =>
      cases h with
      | @cons _ e _ es he h =>
          rw [List.forall_mem_cons] at htrim
          cases vs with
          | nil => simp
          | cons v vs =>
              rw [List.forall₂_cons, List.forall₂_cons, ih htrim.2 h,
                evalExpression_of_parse htrim.1 he]

/-- Expressions with a tree each, or with a value each. -/
theorem exists_forall₂ {α β : Type} {P : α → β → Prop} {l : List α} :
    (∀ a ∈ l, ∃ b, P a b) ↔ ∃ bs, List.Forall₂ P l bs := by
  induction l with
  | nil => simp
  | cons a l ih =>
      rw [List.forall_mem_cons, ih]
      constructor
      · rintro ⟨⟨b, hb⟩, bs, hbs⟩
        exact ⟨b :: bs, .cons hb hbs⟩
      · rintro ⟨bs, hbs⟩
        cases hbs with
        | cons hb hbs => exact ⟨⟨_, hb⟩, _, hbs⟩

/-- More than a lone expression: the call of `format` on the spans. -/
theorem same_call {raw last : Text} {spans : List (Text × Text)}
    (hspans : templateSpans raw.length raw = some (spans, last))
    (hwhole : wholeExpression raw = none)
    (hparse : ∀ s ∈ spans, ∃ e, parseExpression engine.parseNumber s.2 = .ok e) :
    SameString ((evalExpression engine (formatText (spansFormat 0 spans last) (spans.map (·.2)))
        ctx).map (stringValue engine)) (resolveString engine raw ctx) ↔
      KeepsMeaning engine ctx raw := by
  have hparse' : ∀ t ∈ spans.map (·.2), ∃ e, parseExpression engine.parseNumber t = .ok e :=
    List.forall_mem_map.mpr hparse
  obtain ⟨es, hes⟩ := exists_forall₂.mp hparse'
  have hvalues := fun vs => @forall₂_spans _ _ _ ctx _ _ (trim_of_spans hspans) hes vs
  have hlength : spans.length = es.length := by
    rw [← hes.length_eq, List.length_map]
  rw [keepsMeaning_iff hspans, hwhole, Option.isSome_none, if_neg Bool.false_ne_true]
  obtain ⟨hroom, htree⟩ | ⟨hroom, l, hdeep⟩ := parse_formatText (spansFormat 0 spans last) hes
  · -- the call is parsed: what is evaluated is formatted to what is resolved
    have hdepth := exprDepth_of_parse htree
    rw [evalExpression_of_parse (trim_formatText _ _) htree]
    -- a formatted call evaluates to the filled text, within the limits of format
    have hfilled : ∀ vs, List.Forall₂ (fun e v => evalFresh engine ctx e = .ok v) es vs →
        Limited (fill engine spans vs last) ((evalFresh engine ctx (.call formatName
          (.literal (.string (spansFormat 0 spans last)) :: es))).map (stringValue engine)) := by
      intro vs hvs
      have hformat : es.length < 255 → Renders engine
          (.string (spansFormat 0 spans last) :: vs) (spansFormat 0 spans last)
          (fill engine spans vs last) := by
        intro hlen
        have hlen' : vs.length = es.length := hvs.length_eq.symm
        exact @renders_spans _ _ _ _ _ _ [] _ (by omega) (by simp; omega)
      exact (evalFresh_format hdepth hvs hformat).map (stringValue engine)
    refine iff_of_true ⟨fun s hs => ?_, fun s hs => ?_⟩ fun _ s hs =>
      hroom s.2 (List.mem_map_of_mem hs)
    -- the call evaluates, and the template resolves to the same string
    · obtain ⟨w, hw, _⟩ := map_eq_ok hs
      obtain ⟨vs, hvs⟩ := evalFresh_of_format hdepth hw
      rw [(hfilled vs hvs).eq_of_ok hs]
      exact resolveLoop_spans raw.length hspans ((hvalues vs).mpr hvs)
    -- the template resolves, so every expression evaluates and the call formats them
    · obtain ⟨spans', last', vs, hspans', hvs⟩ := spans_of_resolveLoop raw.length hs
      rw [hspans] at hspans'
      cases hspans'
      rw [resolveString, resolveLoop_spans raw.length hspans hvs] at hs
      cases hs
      exact hfilled vs ((hvalues vs).mp hvs)
  · -- it is refused for depth: nothing may be resolved
    have herror : evalExpression engine (formatText (spansFormat 0 spans last) (spans.map (·.2)))
        ctx = .error (.tooDeep l) := by
      unfold evalExpression
      rw [trimExpressionMarkers_self (trim_formatText _ _) (not_openMark_formatText _ _), hdeep]
      rfl
    rw [herror]
    -- a refusal for depth is none of the limits of format
    have hlimit : ∀ s : Text, ¬ Limited s (.error (.tooDeep l)) := by
      rintro s (h | ⟨e, he, h⟩)
      · cases h
      · cases h
        obtain h | h | ⟨n, h⟩ := he <;> cases h
    constructor
    · rintro ⟨_, hsame⟩ hall
      obtain ⟨vs, hvs⟩ := exists_forall₂.mp hall
      exact absurd (hsame _ (resolveLoop_spans raw.length hspans hvs)) (hlimit _)
    · intro hkeeps
      refine ⟨fun s hs => (by cases hs), fun s hs => ?_⟩
      obtain ⟨spans', last', vs, hspans', hvs⟩ := spans_of_resolveLoop raw.length hs
      rw [hspans] at hspans'
      cases hspans'
      have hrooms := hkeeps (exists_forall₂.mpr ⟨vs, hvs⟩)
      refine absurd (fun t ht => ?_) hroom
      obtain ⟨s, hs, rfl⟩ := List.mem_map.mp ht
      exact hrooms s hs

/-- The token of a string whose expressions parse has the string of the template, up to the
    limits of `format`, exactly if it keeps the meaning. -/
theorem template_token_exact (raw : Text) (fileId : Nat)
    (h : ExpressionsParse engine.parseNumber raw) :
    SameString (evalToken engine (templateStringToken raw fileId) ctx)
        (resolveString engine raw ctx) ↔ KeepsMeaning engine ctx raw := by
  unfold evalToken templateStringToken templateStringValue
  cases hwhole : wholeExpression raw with
  | some source => exact same_lone hwhole
  | none =>
      dsimp only
      by_cases hcontains : Text.contains openMark raw = true
      · rw [hcontains, tokenLoop_spans]
        cases hspans : templateSpans raw.length raw with
        | none =>
            obtain ⟨hkeeps, hsame⟩ := @unclosed_differs _ _ engine ctx _ hspans
            exact iff_of_false hsame hkeeps
        | some p =>
            obtain ⟨spans, last⟩ := p
            have hcall := @same_call _ _ _ ctx _ _ _ hspans hwhole (h spans last hspans)
            rw [← formatExpression_eq] at hcall
            simpa using hcall
      · -- there is no expression
        have hcut : Text.cut openMark raw = none := by
          unfold Text.contains at hcontains
          simpa using hcontains
        have hspans : templateSpans raw.length raw = some ([], raw) := by
          cases raw with
          | nil => rfl
          | cons c raw =>
              show templateSpans (raw.length + 1) (c :: raw) = _
              unfold templateSpans
              rw [hcut]
        have hresolved : resolveString engine raw ctx = .ok raw :=
          resolveLoop_spans raw.length hspans .nil
        rw [Bool.not_eq_true] at hcontains
        rw [hcontains, Bool.not_false, if_pos rfl, hresolved, keepsMeaning_iff hspans, hwhole]
        dsimp only
        refine iff_of_true ⟨fun s hs => ?_, fun s hs => ?_⟩ fun _ => by simp
        · cases hs
          rfl
        · cases hs
          exact limited_ok raw

/-- A literal and an expression. -/
def mixedText : Text := "v$\x7b\x7b 'x' \x7d\x7d".toList

theorem spans_mixedText :
    templateSpans mixedText.length mixedText = some ([("v".toList, "'x'".toList)], []) := by
  decide

theorem lex_x : lex "'x'".toList = .ok (ending [.string "x".toList]) := by decide

theorem parse_x (num : Text → Option N) :
    parseExpression num "'x'".toList = .ok (.literal (.string "x".toList)) := by
  unfold parseExpression
  rw [lex_x]
  rfl

theorem template_token_exact_of_mixed :
    SameString (evalToken integerEngine (templateStringToken mixedText 1) {})
      (resolveString integerEngine mixedText {}) := by
  have hparse : ExpressionsParse integerEngine.parseNumber mixedText := by
    intro spans last hspans s hs
    rw [spans_mixedText] at hspans
    cases hspans
    rw [List.mem_singleton] at hs
    subst hs
    exact ⟨_, parse_x _⟩
  have hroom : LeavesRoom integerEngine.parseNumber "'x'".toList :=
    ⟨[.string "x".toList], .leaf (.literal (.string "x".toList)), lex_x, rfl, by decide⟩
  have hwhole : wholeExpression mixedText = none := by decide
  refine (template_token_exact mixedText 1 hparse).mpr ⟨_, _, spans_mixedText, fun _ => ?_⟩
  rw [hwhole]
  intro s hs
  rw [List.mem_singleton] at hs
  subst hs
  exact hroom

/-- A lone expression behind a blank. -/
def paddedText : Text := " $\x7b\x7b 'x' \x7d\x7d".toList

theorem spans_paddedText :
    templateSpans paddedText.length paddedText = some ([(" ".toList, "'x'".toList)], []) := by
  decide

/-- The blank is lost. -/
theorem padded_expression_trimmed :
    ExpressionsParse integerEngine.parseNumber paddedText ∧
      evalToken integerEngine (templateStringToken paddedText 1) {} = .ok "x".toList ∧
      resolveString integerEngine paddedText {} = .ok " x".toList ∧
      ¬ SameString (evalToken integerEngine (templateStringToken paddedText 1) {})
        (resolveString integerEngine paddedText {}) := by
  have hvalue : evalExpression integerEngine "'x'".toList {} = .ok (.string "x".toList) := by
    rw [evalExpression_of_parse (by decide) (parse_x _)]
    rfl
  have htoken : evalToken integerEngine (templateStringToken paddedText 1) {} = .ok "x".toList := by
    have hsource : templateStringValue paddedText = .expr "'x'".toList := by decide
    unfold evalToken templateStringToken
    rw [hsource]
    dsimp only
    rw [hvalue]
    rfl
  have hresolved : resolveString integerEngine paddedText {} = .ok " x".toList :=
    resolveLoop_spans _ spans_paddedText (.cons hvalue .nil)
  refine ⟨?_, htoken, hresolved, ?_⟩
  · intro spans last hspans s hs
    rw [spans_paddedText] at hspans
    cases hspans
    rw [List.mem_singleton] at hs
    subst hs
    exact ⟨_, parse_x _⟩
  · rintro ⟨hsame, _⟩
    have heq := hsame _ htoken
    rw [hresolved, Except.ok.injEq] at heq
    exact absurd heq (by decide)

end Workflow

end Preloop

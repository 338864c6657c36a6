import PreloopControl.Properties.SecretReads
import PreloopControl.Workflow.Conditions

/-!
# The Allow-List of a Condition

A condition without an opening marker is checked as the expression it stands for. Any
other one is checked span by span, like a template, but evaluated as one expression.
The two readings agree if the condition is one span. A marker in a string literal
makes the check look at the literal and at nothing else.

The search for the end of a span knows about literals. So a span has no markers of its
own, and a closing marker inside a wrapped condition keeps it from being an expression.

## Main definitions

* `contextRoots`: The contexts a tree refers to.
* `Sound`: An effective condition within its allow-list.
* `OneSpan`, `HasRoom`: A wrapped condition that is checked as a whole.

## Theorems

* `contexts_of_roots`: The collected references hold all roots.
* `allow_list_exact`: When an accepted condition is within its allow-list.
-/

namespace Preloop

namespace Workflow

open Expressions Fallible

variable {N : Type} {num : Text → Option N} {allowed : List Text}

/-! ## Context roots -/

mutual

/-- The contexts at the roots of the paths of a tree. -/
def contextRoots : Expr N → List Text
  | .literal _ => []
  | .path path => path.head?.toList
  | .unaryNot e => contextRoots e
  | .memberAccess e _ => contextRoots e
  | .index base key => contextRoots base ++ contextRoots key
  | .binary _ left right => contextRoots left ++ contextRoots right
  | .call _ args => argumentRoots args

/-- The contexts at the roots of the paths of the arguments. -/
def argumentRoots : List (Expr N) → List Text
  | [] => []
  | e :: es => contextRoots e ++ argumentRoots es

end

mutual

/-- The roots are among the references, in lower case. -/
theorem contexts_of_roots (e : Expr N) (references : ExpressionReferences) :
    (∀ ctx ∈ references.contexts, ctx ∈ (collectReferencesFromExpr e references).contexts) ∧
      ∀ root ∈ contextRoots e,
        root.map Char.toLower ∈ (collectReferencesFromExpr e references).contexts := by
  cases e with
  | literal value => exact ⟨fun _ h => h, fun _ h => by cases h⟩
  | path path =>
      cases path with
      | nil => exact ⟨fun _ h => h, fun _ h => by cases h⟩
      | cons first rest =>
          simp only [collectReferencesFromExpr, contextRoots, List.head?_cons, Option.toList_some,
            List.mem_append, List.mem_singleton]
          refine ⟨fun _ h => .inl h, ?_⟩
          rintro root rfl
          exact .inr rfl
  | unaryNot inner =>
      simp only [collectReferencesFromExpr, contextRoots]
      exact contexts_of_roots inner references
  | memberAccess inner path =>
      simp only [collectReferencesFromExpr, contextRoots]
      exact contexts_of_roots inner references
  | index base key =>
      simp only [collectReferencesFromExpr, contextRoots, List.mem_append]
      obtain ⟨hkeep, hbase⟩ := contexts_of_roots base references
      obtain ⟨hkeep', hkey⟩ := contexts_of_roots key (collectReferencesFromExpr base references)
      -- the references of the second operand are collected on top of those of the first
      refine ⟨fun ctx h => hkeep' ctx (hkeep ctx h), ?_⟩
      rintro root (h | h)
      · exact hkeep' _ (hbase root h)
      · exact hkey root h
  | binary op left right =>
      simp only [collectReferencesFromExpr, contextRoots, List.mem_append]
      obtain ⟨hkeep, hleft⟩ := contexts_of_roots left references
      obtain ⟨hkeep', hright⟩ :=
        contexts_of_roots right (collectReferencesFromExpr left references)
      refine ⟨fun ctx h => hkeep' ctx (hkeep ctx h), ?_⟩
      rintro root (h | h)
      · exact hkeep' _ (hleft root h)
      · exact hright root h
  | call name args =>
      simp only [collectReferencesFromExpr, contextRoots]
      split
      · obtain ⟨hkeep, hargs⟩ := contexts_of_argumentRoots args _
        exact ⟨fun ctx h => hkeep ctx (List.mem_append_left _ h), hargs⟩
      · exact contexts_of_argumentRoots args references

theorem contexts_of_argumentRoots (args : List (Expr N)) (references : ExpressionReferences) :
    (∀ ctx ∈ references.contexts, ctx ∈ (collectReferencesFromArgs args references).contexts) ∧
      ∀ root ∈ argumentRoots args,
        root.map Char.toLower ∈ (collectReferencesFromArgs args references).contexts := by
  cases args with
  | nil => exact ⟨fun _ h => h, fun _ h => by cases h⟩
  | cons e es =>
      simp only [collectReferencesFromArgs, argumentRoots, List.mem_append]
      obtain ⟨hkeep, he⟩ := contexts_of_roots e references
      obtain ⟨hkeep', hes⟩ := contexts_of_argumentRoots es (collectReferencesFromExpr e references)
      refine ⟨fun ctx h => hkeep' ctx (hkeep ctx h), ?_⟩
      rintro root (h | h)
      · exact hkeep' _ (he root h)
      · exact hes root h

end

/-- The context is in the allow-list, in any case. -/
def Allowed (allowed : List Text) (root : Text) : Prop := allowed.any (specMatches root) = true

/-- The text is an expression that refers to contexts of the allow-list only. -/
def ReadsWithin (num : Text → Option N) (allowed : List Text) (t : Text) : Prop :=
  ∃ e, parseExpression num t = .ok e ∧ ∀ root ∈ contextRoots e, Allowed allowed root

theorem specMatches_lower (root spec : Text) :
    specMatches (root.map Char.toLower) spec = specMatches root spec := by
  have hmap : (root.map Char.toLower).map Char.toLower = root.map Char.toLower := by
    rw [List.map_map]
    exact List.map_congr_left fun c _ => Char.toLower_toLower_eq_toLower c
  unfold specMatches Text.eqIgnoreAsciiCase
  rw [hmap]

/-- Text whose contexts were checked reads within the allow-list. -/
theorem readsWithin_of_validate {expr input : Text}
    (h : validateContexts num expr (some allowed) input = .ok ()) :
    ReadsWithin num allowed (trimExpressionMarkers expr) := by
  obtain ⟨references, hrefs, h⟩ := bind_eq_ok h
  -- the text was parsed, and the references are those of its tree
  have hparse : ∃ e, parseExpression num (trimExpressionMarkers expr) = .ok e ∧
      references = collectReferencesFromExpr e {} := by
    unfold collectExpressionReferences at hrefs
    cases he : parseExpression num (trimExpressionMarkers expr) with
    | error err =>
        rw [he] at hrefs
        cases hrefs
    | ok e =>
        rw [he] at hrefs
        cases hrefs
        exact ⟨e, rfl, rfl⟩
  obtain ⟨e, he, rfl⟩ := hparse
  refine ⟨e, he, fun root hroot => ?_⟩
  have hmem := (contexts_of_roots e {}).2 root hroot
  -- a root outside the list would have been found
  cases hfind : (collectReferencesFromExpr e {}).contexts.find?
      fun ctx => !allowed.any (specMatches ctx) with
  | some ctx =>
      rw [hfind] at h
      cases h
  | none =>
      have hall := List.find?_eq_none.mp hfind _ hmem
      simp only [Bool.not_eq_true, Bool.not_eq_false'] at hall
      unfold Allowed
      simpa only [funext (specMatches_lower root)] using hall

/-! ## Conditions -/

/-- The effective condition is an expression that refers to contexts of the allow-list
    only. -/
def Sound (num : Text → Option N) (allowed : List Text) (condition : Text) : Prop :=
  ReadsWithin num allowed (trimExpressionMarkers (effectiveCondition (some condition)))

/-- The condition is one marked span and nothing else. -/
def OneSpan (condition : Text) : Prop :=
  ∃ inner, Text.trim condition = openMark ++ (inner ++ closeMark) ∧
    findExpressionEnd false (inner ++ closeMark) = some (inner, [])

/-- The condition needs no gate, or leaves room for it. -/
def HasRoom (num : Text → Option N) (condition : Text) : Prop :=
  containsStatusCheckFunction (trimExpressionMarkers condition) = true ∨
    LeavesRoom num (trimExpressionMarkers condition)

/-- An unwrapped condition as it is evaluated. -/
def spliced (condition : Text) : Text :=
  if containsStatusCheckFunction (Text.trim condition) then Text.trim condition
  else gateText ++ (Text.trim condition ++ [')'])

/-- What cannot be lexed is no expression behind the gate either. -/
theorem not_sound_of_lex_error {condition : Text} {err : ExpressionError}
    (htrim : trimExpressionMarkers (trimExpressionMarkers condition) =
      trimExpressionMarkers condition)
    (hlex : lex (trimExpressionMarkers condition) = .error err) :
    ¬ Sound num allowed condition := by
  have hne : trimExpressionMarkers condition ≠ [] := by
    intro hnil
    rw [hnil] at hlex
    cases hlex
  rintro ⟨e, he, _⟩
  rw [effectiveCondition_of_ne hne] at he
  split at he
  · rw [htrim, parse_of_lex_error hlex] at he
    cases he
  · obtain ⟨err', herr'⟩ := lex_append_error hlex
    have hgate : lex (gateText ++ (trimExpressionMarkers condition ++ [')'])) = .error err' := by
      rw [lex_gateText, herr']
      rfl
    rw [trimExpressionMarkers_gate, parse_of_lex_error hgate] at he
    cases he

/-- A condition that reads within the allow-list by itself. -/
theorem sound_iff_of_reads {condition : Text}
    (h : ReadsWithin num allowed (trimExpressionMarkers condition)) :
    Sound num allowed condition ↔ HasRoom num condition := by
  obtain ⟨e, he, hroots⟩ := h
  unfold Sound HasRoom
  rw [effectiveCondition_of_ne (ne_nil_of_parse he)]
  by_cases hstatus : containsStatusCheckFunction (trimExpressionMarkers condition) = true
  · rw [if_pos hstatus, trimExpressionMarkers_of_parse he]
    exact iff_of_true ⟨e, he, hroots⟩ (.inl hstatus)
  · rw [if_neg hstatus, trimExpressionMarkers_gate, or_iff_right hstatus, ← parse_gated_iff he]
    constructor
    · rintro ⟨e', he', _⟩
      refine (parse_gated he).resolve_right ?_
      rintro ⟨l, hl⟩
      rw [hl] at he'
      cases he'
    · exact fun hgate => ⟨_, hgate, hroots⟩

/-- What follows the condition in its span is white space, so the span ends within it. -/
theorem span_prefix {inner w span rest : Text}
    (hw : ∀ c ∈ w, Text.isWhitespace c = true)
    (h : inner ++ (closeMark ++ w) = span ++ (closeMark ++ rest)) : span <+: inner := by
  by_contra hnot
  obtain hpre | hpre := List.prefix_or_prefix_of_prefix
    (List.prefix_append inner (closeMark ++ w)) ⟨_, h.symm⟩
  · obtain ⟨more, hmore⟩ := hpre
    cases more with
    | nil =>
        rw [List.append_nil] at hmore
        exact hnot ⟨[], by rw [hmore, List.append_nil]⟩
    | cons d more =>
        -- the brace at `d` is one too many
        rw [← hmore, List.append_assoc, List.append_cancel_left_eq] at h
        have hd : d = rbrace := by
          rw [closeMark_eq] at h
          exact (List.cons.inj h).1.symm
        have hcount := congrArg (List.count rbrace) h
        rw [hd, List.cons_append, List.count_cons_self, List.count_append, List.count_append,
          List.count_append, count_blank (by decide) hw] at hcount
        omega
  · exact hnot hpre

/-- The first span of an accepted text was checked. -/
theorem first_span_of_validate {input before after : Text}
    (h : validateSpans num (some allowed) input input.length input = .ok ())
    (hcut : Text.cut openMark input = some (before, after)) :
    ∃ span rest, findExpressionEnd false after = some (span, rest) ∧
      ReadsWithin num allowed (Text.trim span) := by
  cases hlen : input.length with
  | zero =>
      have hlt := Text.cut_length hcut openMark_ne_nil
      omega
  | succ n =>
      rw [hlen] at h
      unfold validateSpans at h
      rw [hcut] at h
      dsimp only at h
      cases hfind : findExpressionEnd false after with
      | none =>
          rw [hfind] at h
          cases h
      | some p =>
          rw [hfind] at h
          dsimp only at h
          obtain ⟨_, _, h⟩ := bind_eq_ok h
          obtain ⟨_, hcontexts, _⟩ := bind_eq_ok h
          have hreads := readsWithin_of_validate hcontexts
          rw [trimExpressionMarkers_trim, trimExpressionMarkers_of_find hfind] at hreads
          exact ⟨p.1, p.2, rfl, hreads⟩

/-- A wrapped condition whose first span was checked. -/
theorem sound_iff_of_wrapped {condition inner w span rest : Text}
    (ht : Text.trim condition = openMark ++ (inner ++ closeMark))
    (hs : trimExpressionMarkers condition = Text.trim inner)
    (hw : ∀ c ∈ w, Text.isWhitespace c = true)
    (hfind : findExpressionEnd false (inner ++ (closeMark ++ w)) = some (span, rest))
    (hreads : ReadsWithin num allowed (Text.trim span)) :
    Sound num allowed condition ↔ OneSpan condition ∧ HasRoom num condition := by
  have hsplit := (findExpressionEnd_spec hfind).1
  have hlocal := findExpressionEnd_local hfind []
  obtain ⟨more, hmore⟩ := span_prefix hw hsplit
  cases more with
  | nil =>
      -- the span is the condition
      rw [List.append_nil] at hmore
      subst hmore
      have hone : OneSpan condition := ⟨span, ht, by rw [← hlocal, List.append_nil]⟩
      rw [← hs] at hreads
      rw [sound_iff_of_reads hreads, and_iff_right hone]
  | cons d more =>
      -- the span ends at a brace inside the condition
      have hd : d = rbrace := by
        rw [← hmore, List.append_assoc, List.append_cancel_left_eq, closeMark_eq] at hsplit
        exact (List.cons.inj hsplit).1
      subst hd
      obtain ⟨e, he, _⟩ := hreads
      obtain ⟨tokens, hlex, _⟩ := bind_eq_ok he
      obtain ⟨⟨err, herr⟩, htrim⟩ := lex_error_of_more hlex hmore.symm
      refine iff_of_false (not_sound_of_lex_error (by rw [hs]; exact htrim) (hs ▸ herr)) ?_
      rintro ⟨⟨inner', ht', hfind'⟩, _⟩
      rw [ht, List.append_cancel_left_eq, List.append_cancel_right_eq] at ht'
      subst ht'
      have hlocal' := findExpressionEnd_local hfind' w
      rw [hfind] at hlocal'
      cases hlocal'
      have hlength := congrArg List.length hmore
      simp only [List.length_append, List.length_cons] at hlength
      omega

/-- An accepted condition is an expression within its allow-list exactly if it has no
    marker, or is one span with room for the gate, or hides its markers in a literal and
    happens to be one. -/
theorem allow_list_exact {condition : Text}
    (h : validateExpressionsInString num condition true (some allowed) = .ok ()) :
    Sound num allowed condition ↔ Text.contains openMark condition = false ∨
      OneSpan condition ∧ HasRoom num condition ∨
        HidesMarkers condition ∧ ReadsWithin num allowed (spliced condition) := by
  unfold validateExpressionsInString at h
  cases hopen : Text.contains openMark condition with
  | false =>
      -- the effective condition was checked itself
      rw [hopen] at h
      obtain ⟨_, _, hcontexts⟩ := bind_eq_ok h
      exact iff_of_true (readsWithin_of_validate hcontexts) (.inl rfl)
  | true =>
      rw [hopen] at h
      obtain ⟨⟨before, after⟩, hcut⟩ := Option.isSome_iff_exists.mp hopen
      obtain ⟨span, rest, hfind, hreads⟩ := first_span_of_validate h hcut
      rw [or_iff_right Bool.noConfusion]
      by_cases hpre : openMark <+: Text.trim condition
      · have hhides : ¬ (HidesMarkers condition ∧ ReadsWithin num allowed (spliced condition)) :=
          fun hh => hh.1.2.1 hpre
        rw [or_iff_left hhides]
        obtain ⟨inner, ht, hs⟩ | ⟨hno, hs⟩ := trimExpressionMarkers_cases condition
        · obtain ⟨w, hw, hblank⟩ := Text.dropWhile_eq_trim_append condition
          rw [ht, List.append_assoc, List.append_assoc] at hw
          have hcut' := Text.cut_dropWhile openMark_eq (by decide) condition
          rw [hw, Text.cut_append openMark_ne_nil, hcut] at hcut'
          cases hcut'
          exact sound_iff_of_wrapped ht hs hblank hfind hreads
        · -- the opening marker stays, and no expression has one
          obtain ⟨r, hr⟩ := hpre
          obtain ⟨err, herr⟩ := lex_dollar ([lbrace, lbrace] ++ r)
          have hlex : lex (trimExpressionMarkers condition) = .error err := by
            rw [hs, ← hr, openMark_eq]
            exact herr
          have htrim : trimExpressionMarkers (trimExpressionMarkers condition) =
              trimExpressionMarkers condition := by
            rw [hs, trimExpressionMarkers_trim, hs]
          refine iff_of_false (not_sound_of_lex_error htrim hlex) ?_
          rintro ⟨⟨inner, ht, _⟩, _⟩
          exact hno inner ht
      · have hs : trimExpressionMarkers condition = Text.trim condition := by
          rw [← trimExpressionMarkers_trim, trimExpressionMarkers_self (Text.trim_trim _) hpre]
        have hone : ¬ (OneSpan condition ∧ HasRoom num condition) := by
          rintro ⟨⟨inner, ht, _⟩, _⟩
          exact hpre ⟨_, ht.symm⟩
        rw [or_iff_right hone]
        have htrim : trimExpressionMarkers (Text.trim condition) = Text.trim condition := by
          rw [trimExpressionMarkers_trim, hs]
        cases hlex : lex (Text.trim condition) with
        | ok tokens =>
            have hhides : HidesMarkers condition := ⟨hopen, hpre, tokens, hlex⟩
            have hne : trimExpressionMarkers condition ≠ [] := by
              -- trimming leaves the marker
              intro hnil
              have hcount := Text.count_trim (c := '$') (by decide) condition
              rw [← hs, hnil, Text.cut_eq hcut, List.count_append, List.count_append,
                openMark_eq, List.count_cons_self, List.count_nil] at hcount
              omega
            rw [and_iff_right hhides]
            unfold Sound spliced
            rw [effectiveCondition_of_ne hne, hs]
            split
            · rw [htrim]
            · rw [trimExpressionMarkers_gate]
        | error err =>
            refine iff_of_false
              (not_sound_of_lex_error (by rw [hs, htrim]) (by rw [hs]; exact hlex)) ?_
            rintro ⟨⟨_, _, tokens, hlex'⟩, _⟩
            rw [hlex] at hlex'
            cases hlex'

/-! ## A marker in a literal -/

/-- A text with one span is accepted with it. -/
theorem validate_of_span {input before after span rest : Text}
    (hcut : Text.cut openMark input = some (before, after))
    (hfind : findExpressionEnd false after = some (span, rest))
    (hexpr : validateExpression num (Text.trim span) = .ok ())
    (hcontexts : validateContexts num (Text.trim span) (some allowed) input = .ok ())
    (hrest : Text.cut openMark rest = none) :
    validateExpressionsInString num input true (some allowed) = .ok () := by
  have hopen : Text.contains openMark input = true := by
    unfold Text.contains
    rw [hcut]
    rfl
  obtain ⟨n, hlen⟩ : ∃ n, input.length = n + 1 :=
    ⟨input.length - 1, by have := Text.cut_length hcut openMark_ne_nil; omega⟩
  have hstop : validateSpans num (some allowed) input n rest = .ok () := by
    cases n with
    | zero => rfl
    | succ n =>
        unfold validateSpans
        rw [hrest]
  unfold validateExpressionsInString
  rw [hopen, hlen]
  show validateSpans num (some allowed) input (n + 1) input = _
  unfold validateSpans
  rw [hcut]
  dsimp only
  rw [hfind]
  dsimp only
  rw [hexpr, hcontexts, hstop]
  rfl

/-- ` github `. -/
def githubSpan : Text := " github ".toList

/-- `${{ github }}`. -/
def githubText : Text := openMark ++ (githubSpan ++ closeMark)

/-- `'${{ github }}' == secrets.TOKEN`. -/
def hiddenText : Text := quote :: (githubText ++ (quote :: " == secrets.TOKEN".toList))

/-- The tokens of the span, of the name in it, and of the condition that hides it. -/
theorem lex_github :
    lex (trimExpressionMarkers (Text.trim githubSpan)) = .ok [.ident "github".toList, .eof] ∧
    lex "github".toList = .ok (ending [.ident "github".toList]) ∧
    lex (trimExpressionMarkers (effectiveCondition (some hiddenText))) =
      .ok [.ident "success".toList, .lparen, .rparen, .and, .lparen, .string githubText, .eq,
        .ident "secrets".toList, .dot, .ident "TOKEN".toList, .rparen, .eof] := by
  refine ⟨?_, ?_, ?_⟩ <;> decide +kernel

theorem parse_github : parseExpression integerEngine.parseNumber
    (trimExpressionMarkers (Text.trim githubSpan)) = .ok (.path ["github".toList]) := by
  unfold parseExpression
  rw [lex_github.1]
  rfl

theorem validate_github :
    validateExpression integerEngine.parseNumber (Text.trim githubSpan) = .ok () := by
  show (parseExpression _ _ >>= _) = _
  rw [parse_github]
  rfl

theorem validate_github_contexts (input : Text) : validateContexts integerEngine.parseNumber
    (Text.trim githubSpan) (some ctxJobIf) input = .ok () := by
  have hrefs : collectExpressionReferences integerEngine.parseNumber
      (Text.trim githubSpan) = .ok { contexts := ["github".toList], functions := [] } := by
    unfold collectExpressionReferences
    rw [parse_github]
    rfl
  have hcontext : (["github".toList].find? fun ctx => !ctxJobIf.any (specMatches ctx)) = none := by
    decide
  exact validateContexts_of_references hrefs hcontext rfl

theorem accepted_github :
    validateExpressionsInString integerEngine.parseNumber githubText true (some ctxJobIf) =
      .ok () := by
  have hcut : Text.cut openMark githubText = some ([], githubSpan ++ closeMark) := by decide
  have hfind : findExpressionEnd false (githubSpan ++ closeMark) = some (githubSpan, []) := by
    decide
  exact validate_of_span hcut hfind validate_github (validate_github_contexts _) (by decide)

/-- A condition that is one span. -/
theorem allow_list_exact_of_github :
    Sound integerEngine.parseNumber ctxJobIf githubText := by
  have hone : OneSpan githubText := ⟨githubSpan, by decide, by decide⟩
  have htrim : trimExpressionMarkers githubText = "github".toList := by decide
  have hroom : LeavesRoom integerEngine.parseNumber "github".toList :=
    (leavesRoom_iff lex_github.2.1).mpr ⟨.leaf (.path ["github".toList]), rfl, by decide⟩
  exact (allow_list_exact accepted_github).mpr (.inr (.inl ⟨hone, .inr (htrim ▸ hroom)⟩))

/-- The literal hides what the condition refers to. -/
theorem hidden_marker_escapes :
    validateExpressionsInString integerEngine.parseNumber hiddenText true (some ctxJobIf) =
        .ok () ∧
      ¬ Sound integerEngine.parseNumber ctxJobIf hiddenText := by
  constructor
  · have hcut : Text.cut openMark hiddenText = some ([quote],
        githubSpan ++ (closeMark ++ quote :: " == secrets.TOKEN".toList)) := by
      decide
    have hfind : findExpressionEnd false
        (githubSpan ++ (closeMark ++ quote :: " == secrets.TOKEN".toList)) =
          some (githubSpan, quote :: " == secrets.TOKEN".toList) := by
      decide
    exact validate_of_span hcut hfind validate_github (validate_github_contexts _) (by decide)
  · have hparse : parseExpression integerEngine.parseNumber
        (trimExpressionMarkers (effectiveCondition (some hiddenText))) =
          .ok (.binary .and successCall (.binary .eq (.literal (.string githubText))
            (.path ["secrets".toList, "TOKEN".toList]))) := by
      unfold parseExpression
      rw [lex_github.2.2]
      rfl
    rintro ⟨e, he, hroots⟩
    rw [hparse] at he
    cases he
    have hsecrets := hroots "secrets".toList (by simp [contextRoots, argumentRoots, successCall])
    revert hsecrets
    unfold Allowed
    decide

end Workflow

end Preloop

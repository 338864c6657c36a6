import PreloopControl.Expressions.Dependence
import PreloopControl.Properties.AllowList
import PreloopControl.Properties.TemplateTokens
import PreloopControl.Workflow.Deferral

/-!
# Reads of What Is Not Known Yet

A value that is resolved at once, and a matrix that is expanded at once, should not depend on
what is known only later: the needs, and the work directory. An evaluation depends on the
paths of its tree, so it is enough that no path reaches these.

The test of a value finds every path to the needs in the tree, but it looks for the work
directory in the text, and the test of a matrix looks for the needs in the text. The language
has other spellings for both. Where the expressions use none of them, the tests are sound.

## Main definitions

* `DifferInDeferred`, `DifferInNeeds`: Contexts that differ in what is not known yet.
* `ResolvedSoundly`, `ExpandedSoundly`: The result does not depend on it.
* `SeesWorkspace`: A path that reaches the work directory.
* `markedExpressions`, `evaluatedTexts`: What is evaluated of a value, and of a matrix.

## Theorems

* `resolved_soundly_of_unseen`: Values whose expressions do not see the work directory.
* `expanded_soundly_of_needless`: Matrices whose expressions do not name the needs.
* `bracketed_workspace_unsound`, `spaced_needs_unsound`: Spellings that are missed.
-/

namespace Preloop

namespace Workflow

open Expressions Fallible

variable {N F : Type} {engine : Engine N F} {num : Text → Option N} {c c' : Context N}

/-! ## Roots -/

mutual

theorem root_of_paths (e : Expr N) : ∀ path ∈ paths e, ∀ root ∈ path.head?,
    root ∈ contextRoots e := by
  cases e with
  | literal value => exact fun path hp => absurd hp List.not_mem_nil
  | path segments =>
      intro path hp root hroot
      obtain rfl := List.mem_singleton.mp hp
      exact Option.mem_toList.mpr hroot
  | unaryNot inner => exact root_of_paths inner
  | memberAccess inner path => exact root_of_paths inner
  | index base key =>
      intro path hp root hroot
      rcases List.mem_append.mp hp with hp | hp
      · exact List.mem_append_left _ (root_of_paths base path hp root hroot)
      · exact List.mem_append_right _ (root_of_paths key path hp root hroot)
  | binary op left right =>
      intro path hp root hroot
      rcases List.mem_append.mp hp with hp | hp
      · exact List.mem_append_left _ (root_of_paths left path hp root hroot)
      · exact List.mem_append_right _ (root_of_paths right path hp root hroot)
  | call name args => exact root_of_argumentPaths args

theorem root_of_argumentPaths (args : List (Expr N)) : ∀ path ∈ argumentPaths args,
    ∀ root ∈ path.head?, root ∈ argumentRoots args := by
  cases args with
  | nil => exact fun path hp => absurd hp List.not_mem_nil
  | cons e es =>
      intro path hp root hroot
      rcases List.mem_append.mp hp with hp | hp
      · exact List.mem_append_left _ (root_of_paths e path hp root hroot)
      · exact List.mem_append_right _ (root_of_argumentPaths es path hp root hroot)

end

/-! ## Values -/

/-- The path reaches the work directory: it ends at `github`, or goes on to all of its
    members or to this one. -/
def SeesWorkspace : List Text → Prop
  | [] => False
  | [first] => first = githubRoot
  | first :: segment :: _ => first = githubRoot ∧ (segment = "*".toList ∨ segment = workspaceKey)

/-- The contexts differ in the needs and in the work directory only. -/
structure DifferInDeferred (c c' : Context N) : Prop where
  run : SameRun c c'
  roots : ∀ k, k ≠ needsRoot → k ≠ githubRoot → c.roots.lookup k = c'.roots.lookup k
  github : c.roots.lookup githubRoot = c'.roots.lookup githubRoot ∨
    ∃ m m', c.roots.lookup githubRoot = some (.object m) ∧
      c'.roots.lookup githubRoot = some (.object m') ∧
      ∀ k, k ≠ workspaceKey → getField m k = getField m' k

/-- A value that is not deferred has one result, whatever comes of the needs and the work
    directory. -/
def ResolvedSoundly (engine : Engine N F) (v : Text) : Prop :=
  resolvesAfterJobBuild engine.parseNumber v = false →
    ∀ c c' : Context N, DifferInDeferred c c' → resolveString engine v c = resolveString engine v c'

/-- The marked expressions of a value, up to one that is not closed. -/
def markedExpressions : Nat → Text → List Text
  | 0, _ => []
  | n + 1, rest =>
    match Text.cut openMark rest with
    | none => []
    | some (_, after) =>
      match findExpressionEnd false after with
      | none => []
      | some (body, rest) => body :: markedExpressions n rest

/-- No expression of the value has a path to the work directory. -/
def WorkspaceUnseen (num : Text → Option N) (v : Text) : Prop :=
  ∀ body ∈ markedExpressions v.length v, ∀ e : Expr N,
    parseExpression num (trimExpressionMarkers body) = .ok e → ∀ path ∈ paths e,
      ¬ SeesWorkspace path

theorem agreeOn_of_unseen (hd : DifferInDeferred c c') {path : List Text}
    (hneeds : needsRoot ∉ path.head?) (hunseen : ¬ SeesWorkspace path) : AgreeOn c c' path := by
  cases path with
  | nil => exact ⟨rfl, rfl⟩
  | cons first rest =>
      have hfirst : first ≠ needsRoot := fun h => hneeds (by rw [h]; rfl)
      by_cases hgithub : first = githubRoot
      · subst hgithub
        rcases hd.github with hsame | ⟨m, m', hm, hm', hfields⟩
        · exact agreeOn_root hsame rest
        · cases rest with
          | nil => exact absurd rfl hunseen
          | cons segment rest =>
              have hsegment : segment ≠ "*".toList ∧ segment ≠ workspaceKey := by
                refine ⟨fun h => hunseen ⟨rfl, .inl h⟩, fun h => hunseen ⟨rfl, .inr h⟩⟩
              exact agreeOn_field hm hm' hsegment.1 (hfields segment hsegment.2) rest
      · exact agreeOn_root (hd.roots first hfirst hgithub) rest

/-- Spans that have one value each make one result. -/
theorem resolveLoop_of_agree (n : Nat) : ∀ {t : Text},
    (∀ body ∈ markedExpressions n t, evalExpression engine (Text.trim body) c =
      evalExpression engine (Text.trim body) c') →
        resolveLoop engine c n t = resolveLoop engine c' n t := by
  induction n with
  | zero => exact fun _ => rfl
  | succ n ih =>
      intro t h
      unfold resolveLoop
      unfold markedExpressions at h
      cases hcut : Text.cut openMark t with
      | none => rfl
      | some p =>
          rcases p with ⟨before, after⟩
          rw [hcut] at h
          dsimp only at h ⊢
          cases hend : findExpressionEnd false after with
          | none => rfl
          | some p =>
              rcases p with ⟨body, rest⟩
              rw [hend] at h
              dsimp only at h ⊢
              rw [List.forall_mem_cons] at h
              rw [h.1, ih h.2]

/-- The test finds every path to the needs. -/
theorem needs_of_resolvesLoop (n : Nat) : ∀ {t : Text}, resolvesLoop num n t = false →
    ∀ body ∈ markedExpressions n t, ∀ e : Expr N,
      parseExpression num (trimExpressionMarkers body) = .ok e →
        ∀ path ∈ paths e, needsRoot ∉ path.head? := by
  -- the induction is on the rounds, each of which takes the next expression of the text
  induction n with
  | zero => exact fun _ body hbody => absurd hbody List.not_mem_nil
  | succ n ih =>
      intro t h body hbody e hparse path hpath hroot
      unfold resolvesLoop at h
      unfold markedExpressions at hbody
      cases hcut : Text.cut openMark t with
      | none =>
          rw [hcut] at hbody
          cases hbody
      | some p =>
          rcases p with ⟨before, after⟩
          rw [hcut] at h hbody
          dsimp only at h hbody
          cases hend : findExpressionEnd false after with
          | none =>
              rw [hend] at hbody
              cases hbody
          | some p =>
              rcases p with ⟨first, rest⟩
              rw [hend] at h hbody
              dsimp only at h hbody
              rw [Bool.or_eq_false_iff] at h
              -- the expression found now, or one behind it
              rcases List.mem_cons.mp hbody with rfl | hbody
              · -- the collector has the root of every path, in lower case
                have hrefs : collectExpressionReferences num body =
                    .ok (collectReferencesFromExpr e {}) := by
                  rw [collectExpressionReferences, hparse]
                  rfl
                have hlower : needsRoot.map Char.toLower = needsRoot := by decide
                have hmem := (contexts_of_roots e {}).2 needsRoot
                  (root_of_paths e path hpath needsRoot hroot)
                rw [hlower] at hmem
                have hnone := h.1
                rw [hrefs] at hnone
                dsimp only at hnone
                rw [List.contains_iff_mem.mpr hmem] at hnone
                cases hnone
              · exact ih h.2 body hbody e hparse path hpath hroot

/-- A value is resolved soundly if it is deferred, or if none of its expressions has a path to
    the work directory. -/
theorem resolved_soundly_of_unseen (engine : Engine N F) {v : Text}
    (h : resolvesAfterJobBuild engine.parseNumber v = true ∨ WorkspaceUnseen engine.parseNumber v) :
    ResolvedSoundly engine v := by
  intro hnow c c' hd
  have hunseen : WorkspaceUnseen engine.parseNumber v := by
    refine h.resolve_left fun hdeferred => ?_
    rw [hnow] at hdeferred
    cases hdeferred
  unfold resolvesAfterJobBuild at hnow
  rw [Bool.or_eq_false_iff] at hnow
  refine resolveLoop_of_agree v.length fun body hbody => ?_
  refine evalExpression_of_agree hd.run fun e hparse path hpath => ?_
  rw [trimExpressionMarkers_trim] at hparse
  exact agreeOn_of_unseen hd (needs_of_resolvesLoop v.length hnow.2 body hbody e hparse path hpath)
    (hunseen body hbody e hparse path hpath)

/-- `${{ github.actor }}`. -/
def actorText : Text := "$\x7b\x7b github.actor \x7d\x7d".toList

theorem actor_unseen : WorkspaceUnseen integerEngine.parseNumber actorText := by
  have hmarked : markedExpressions actorText.length actorText = [" github.actor ".toList] := by
    decide
  have hlex : lex (trimExpressionMarkers " github.actor ".toList) =
      .ok [.ident githubRoot, .dot, .ident "actor".toList, .eof] := by
    decide
  have hparse : parseExpression integerEngine.parseNumber
      (trimExpressionMarkers " github.actor ".toList) =
        .ok (.path [githubRoot, "actor".toList]) := by
    rw [parseExpression, hlex]
    rfl
  intro body hbody e he path hpath
  rw [hmarked, List.mem_singleton] at hbody
  rw [hbody, hparse] at he
  cases he
  obtain rfl := List.mem_singleton.mp hpath
  rintro ⟨-, hstar | hworkspace⟩
  · exact absurd hstar (by decide)
  · exact absurd hworkspace (by decide)

/-- Another member of `github`. -/
theorem resolved_soundly_of_actor : ResolvedSoundly integerEngine actorText :=
  resolved_soundly_of_unseen integerEngine (.inr actor_unseen)

/-! ### The missed spelling -/

/-- `${{ github['workspace'] }}`. -/
def bracketedText : Text := "$\x7b\x7b github['workspace'] \x7d\x7d".toList

/-- A context whose `github` has these members. -/
def githubOnly (members : List (Text × Value Int)) : Context Int where
  roots := Dict.ofList [(githubRoot, .object members)]

theorem githubOnly_differ (m m' : List (Text × Value Int))
    (h : ∀ k, k ≠ workspaceKey → getField m k = getField m' k) :
    DifferInDeferred (githubOnly m) (githubOnly m') where
  run := ⟨⟨rfl, rfl, rfl⟩, rfl⟩
  roots k _ hgithub := by
    simp only [githubOnly, Dict.ofList, List.foldl_cons, List.foldl_nil]
    rw [AList.lookup_insert_ne hgithub, AList.lookup_insert_ne hgithub]
  github := .inr ⟨m, m', AList.lookup_insert _, AList.lookup_insert _, h⟩

theorem spans_bracketed : templateSpans bracketedText.length bracketedText =
    some ([([], "github['workspace']".toList)], []) := by
  decide

theorem parse_bracketed : parseExpression integerEngine.parseNumber
    "github['workspace']".toList = .ok (.path [githubRoot, workspaceKey]) := by
  have hlex : lex "github['workspace']".toList =
      .ok [.ident githubRoot, .lbracket, .string workspaceKey, .rbracket, .eof] := by
    decide_cbv
  rw [parseExpression, hlex]
  rfl

theorem resolve_bracketed {members : List (Text × Value Int)} (value : Value Int)
    (h : evalFresh integerEngine (githubOnly members) (.path [githubRoot, workspaceKey]) =
      .ok value) :
    resolveString integerEngine bracketedText (githubOnly members) =
      .ok (stringValue integerEngine value ++ []) := by
  have hvalue : evalExpression integerEngine "github['workspace']".toList (githubOnly members) =
      .ok value := by
    rw [evalExpression_of_parse (by decide) parse_bracketed]
    exact h
  exact resolveLoop_spans _ spans_bracketed (.cons hvalue .nil)

/-- The key in brackets is not looked for: the value is resolved to nothing where the work
    directory is not known. -/
theorem bracketed_workspace_unsound : ¬ ResolvedSoundly integerEngine bracketedText := by
  intro hsound
  have hnow : resolvesAfterJobBuild integerEngine.parseNumber bracketedText = false := by
    decide +kernel
  have hdiffer := githubOnly_differ [(workspaceKey, .string "/w".toList)] [] fun k hk => by
    simp only [getField, List.find?_cons, List.find?_nil, decide_eq_false (Ne.symm hk)]
  have hsame := hsound hnow _ _ hdiffer
  rw [resolve_bracketed (.string "/w".toList) rfl, resolve_bracketed .null rfl] at hsame
  cases hsame

end Workflow

namespace Matrices

open Expressions Fallible Workflow

variable {N F : Type} {engine : Engine N F} {c c' : Context N}

/-! ## Matrices -/

/-- The contexts differ in the needs only. -/
structure DifferInNeeds (c c' : Context N) : Prop where
  run : SameRun c c'
  roots : ∀ k, k ≠ needsRoot → c.roots.lookup k = c'.roots.lookup k

/-- A matrix that is expanded at once has one expansion, whatever comes of the needs. -/
def ExpandedSoundly [BEq N] (engine : Engine N F) (jobId : Text)
    (matrix : Option (MatrixValue N)) : Prop :=
  ∀ c c' : Context N, DifferInNeeds c c' → ∀ cells : List (Row N),
    expandMatrixIn engine jobId matrix c = .ok (.combinations cells) →
      expandMatrixIn engine jobId matrix c' = .ok (.combinations cells)

/-- The expression of an `include` or `exclude`. -/
def rowsText : List (Value N) → List Text
  | [.string expression] => [expression]
  | _ => []

/-- The texts of a matrix that are evaluated, unless it is deferred. -/
def evaluatedTexts : Option (MatrixValue N) → List Text
  | none => []
  | some (.expression expression) => if mentionsNeeds expression then [] else [expression]
  | some (.static matrix) =>
    if matrixContainsNeedsExpression matrix then []
    else rowsText matrix.include_ ++ rowsText matrix.exclude

/-- No expression of the matrix that is evaluated has a path to the needs. -/
def Needless (num : Text → Option N) (matrix : Option (MatrixValue N)) : Prop :=
  ∀ t ∈ evaluatedTexts matrix, ∀ e : Expr N, parseExpression num (trimExpressionMarkers t) = .ok e →
    ∀ path ∈ paths e, needsRoot ∉ path.head?

theorem evaluatedTexts_expression {expression : Text} (h : ¬ mentionsNeeds expression = true) :
    evaluatedTexts (some (.expression expression) : Option (MatrixValue N)) = [expression] :=
  if_neg h

theorem agreeOn_of_needless (hd : DifferInNeeds c c') {path : List Text}
    (hneeds : needsRoot ∉ path.head?) : AgreeOn c c' path := by
  cases path with
  | nil => exact ⟨rfl, rfl⟩
  | cons first rest =>
      exact agreeOn_root (hd.roots first fun h => hneeds (by rw [h]; rfl)) rest

theorem resolveRows_of_agree {field : Text} {values : List (Value N)}
    (h : ∀ t ∈ rowsText values, evalExpression engine t c = evalExpression engine t c') :
    resolveRows engine c field values = resolveRows engine c' field values := by
  unfold resolveRows
  split
  · rw [h _ List.mem_cons_self]
  · rfl

/-- A matrix is expanded soundly if none of its expressions has a path to the needs. -/
theorem expanded_soundly_of_needless [BEq N] (engine : Engine N F) (jobId : Text)
    {matrix : Option (MatrixValue N)} (hneedless : Needless engine.parseNumber matrix) :
    ExpandedSoundly engine jobId matrix := by
  intro c c' hd cells hcells
  -- the two contexts differ in the needs only, and no expression reads them
  have hsame : ∀ t ∈ evaluatedTexts matrix,
      evalExpression engine t c = evalExpression engine t c' := fun t ht =>
    evalExpression_of_agree hd.run fun e hparse path hpath =>
      agreeOn_of_needless hd (hneedless t ht e hparse path hpath)
  rw [← hcells]
  cases matrix with
  | none => rfl
  | some matrix =>
      cases matrix with
      -- the whole matrix is one expression, or its lists are
      | expression expression =>
          show expandExpression engine jobId expression c' =
            expandExpression engine jobId expression c
          unfold expandExpression
          by_cases hneeds : mentionsNeeds expression = true
          · rw [if_pos hneeds, if_pos hneeds]
          · rw [evaluatedTexts_expression hneeds] at hsame
            rw [if_neg hneeds, if_neg hneeds, hsame expression List.mem_cons_self]
      | static matrix =>
          show expandStatic engine jobId matrix c' = expandStatic engine jobId matrix c
          unfold expandStatic
          by_cases hneeds : matrixContainsNeedsExpression matrix = true
          · rw [if_pos hneeds, if_pos hneeds]
          · have htexts : evaluatedTexts (some (.static matrix)) =
                rowsText matrix.include_ ++ rowsText matrix.exclude := if_neg hneeds
            rw [htexts] at hsame
            have hinclude : resolveRows engine c "include".toList matrix.include_ =
                resolveRows engine c' "include".toList matrix.include_ :=
              resolveRows_of_agree fun t ht => hsame t (List.mem_append_left _ ht)
            have hexclude : resolveRows engine c "exclude".toList matrix.exclude =
                resolveRows engine c' "exclude".toList matrix.exclude :=
              resolveRows_of_agree fun t ht => hsame t (List.mem_append_right _ ht)
            rw [if_neg hneeds, if_neg hneeds, hinclude, hexclude]

/-- `inputs.axes`. -/
def inputsText : Text := "inputs.axes".toList

theorem inputs_needless :
    Needless integerEngine.parseNumber
      (some (.expression inputsText) : Option (MatrixValue Int)) := by
  have hnone : ¬ mentionsNeeds inputsText = true := by decide
  have hlex : lex (trimExpressionMarkers inputsText) =
      .ok [.ident "inputs".toList, .dot, .ident "axes".toList, .eof] := by
    decide
  have hparse : parseExpression integerEngine.parseNumber (trimExpressionMarkers inputsText) =
      .ok (.path ["inputs".toList, "axes".toList]) := by
    rw [parseExpression, hlex]
    rfl
  intro t ht e he path hpath
  rw [evaluatedTexts_expression hnone, List.mem_singleton] at ht
  rw [ht, hparse] at he
  cases he
  obtain rfl := List.mem_singleton.mp hpath
  exact fun hroot => absurd (Option.some.inj hroot) (by decide)

/-- The axes as an input. -/
theorem expanded_soundly_of_inputs :
    ExpandedSoundly integerEngine "build".toList (some (.expression inputsText)) :=
  expanded_soundly_of_needless integerEngine "build".toList inputs_needless

/-! ### The missed spelling -/

/-- `needs ['plan'].outputs.matrix`. -/
def spacedText : Text := "needs ['plan'].outputs.matrix".toList

/-- What comes of the needs: one output, with one axis. -/
def planNeeds : Value Int :=
  .object [("plan".toList, .object [("outputs".toList, .object [("matrix".toList,
    .object [("os".toList, .array [.string "linux".toList])])])])]

/-- The context of the expansion, with the needs. -/
def plannedContext : Context Int :=
  { expressionContext integerEngine none none with
    roots := (expressionContext integerEngine none none).roots.insert needsRoot planNeeds }

theorem planned_differ :
    DifferInNeeds (expressionContext integerEngine none none) plannedContext where
  run := ⟨⟨rfl, rfl, rfl⟩, rfl⟩
  roots _ hk := (AList.lookup_insert_ne hk).symm

theorem mentionsNeeds_spaced : ¬ mentionsNeeds spacedText = true := by decide

theorem parse_spaced : parseExpression integerEngine.parseNumber spacedText =
    .ok (.path [needsRoot, "plan".toList, "outputs".toList, "matrix".toList]) := by
  have hlex : lex spacedText = .ok [.ident needsRoot, .lbracket, .string "plan".toList, .rbracket,
      .dot, .ident "outputs".toList, .dot, .ident "matrix".toList, .eof] := by
    decide_cbv
  rw [parseExpression, hlex]
  rfl

/-- With white space before the bracket the needs are not found: the matrix is expanded to no
    jobs before they have run. -/
theorem spaced_needs_unsound : ¬ ExpandedSoundly integerEngine "build".toList
    (some (.expression spacedText)) := by
  intro hsound
  have hnone : expandMatrixIn integerEngine "build".toList (some (.expression spacedText))
      (expressionContext integerEngine none none) = .ok (.combinations []) := by
    show expandExpression _ _ _ _ = _
    unfold expandExpression
    rw [if_neg mentionsNeeds_spaced, evalExpression_of_parse (by decide) parse_spaced]
    rfl
  have hone : expandMatrixIn integerEngine "build".toList (some (.expression spacedText))
      plannedContext = .ok (.combinations [[("os".toList, .string "linux".toList)]]) := by
    show expandExpression _ _ _ _ = _
    unfold expandExpression
    rw [if_neg mentionsNeeds_spaced, evalExpression_of_parse (by decide) parse_spaced]
    rfl
  have hsame := hsound _ _ planned_differ [] hnone
  rw [hone] at hsame
  cases hsame

end Matrices

end Preloop

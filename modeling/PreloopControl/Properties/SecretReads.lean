import PreloopControl.Expressions.Metered

/-!
# Secret Reads

What the collector reports bounds what the evaluator reads: if no dynamic access
is reported, an expression does not see a secret outside the reported names.

Two contexts that differ in their secrets are run side by side. Everything the
evaluator does is a computation under a budget, so the statement is the agreement
of two such computations, proved along the tree: one case per constructor, with
the collector's report shrinking towards the subtrees (`Covers.mono`).

One construct reads more than it uses. `secrets[('NAME')]` is an index on the
whole `secrets` object; only the named field comes out, but the object is charged
to the budget. With it, the two runs agree up to one of them being stopped by the
budget, and they are the same if both objects have the same size.

## Main definitions

* `DifferInSecrets`: Two contexts that differ only in the secrets object.
* `Covers`: A report without dynamic access on whose names two objects agree.
* `indexesSecrets`: Some index of the tree is on the bare `secrets` context.

## Theorems

* `eval_agree`: Both runs agree.
* `secret_reads_noninterfering`: The same at the level of results.
-/

namespace Preloop

namespace Expressions

open Budget

variable {N F : Type} {engine : Engine N F} {same : Prop}

/-! ## Functions under the budget -/

theorem steady_charge (value : Value N) : Steady tooLarge (charge value) := by
  intro u v
  unfold charge
  by_cases hu : maxEvaluatedValueBytes < u + valueSize value
  · exact .inl (if_pos hu)
  · by_cases hv : maxEvaluatedValueBytes < v + valueSize value
    · exact .inr (.inl (if_pos hv))
    · exact .inr (.inr (by rw [if_neg hu, if_neg hv]; rfl))

theorem steady_withRemaining {α : Type} {f : Nat → Result α} (hf : Staged tooLarge f) :
    Steady tooLarge (withRemaining f) := hf.capped.steady maxEvaluatedValueBytes

theorem steady_callFunction (name : Text) (values : List (Value N)) (ctx : Context N) :
    Steady tooLarge (callFunction engine name values ctx) := by
  unfold callFunction
  refine .ite (steady_pure _)
    (.ite (steady_pure _) (.ite (steady_pure _) (.ite (steady_pure _) ?_)))
  refine .ite (steady_pure _) (.ite (steady_pure _) (.ite (steady_pure _) ?_))
  refine .ite ((steady_withRemaining (staged_formatArgs values)).map _) ?_
  refine .ite (steady_withRemaining (.const _)) ?_
  refine .ite ((steady_withRemaining (staged_joinArgs values)).map _) ?_
  refine .ite ((steady_withRemaining (.const _)).map _) ?_
  exact .ite ((steady_withRemaining (staged_toJsonPretty _)).map _) (steady_throw _)

/-! ## The collector -/

/-- A report that a later one extends. -/
def SecretReads.Within (reads later : SecretReads) : Prop :=
  reads.names ⊆ later.names ∧ (later.dynamic = false → reads.dynamic = false)

namespace SecretReads.Within

theorem refl (reads : SecretReads) : reads.Within reads := ⟨fun _ h => h, id⟩

theorem trans {a b c : SecretReads} (hab : a.Within b) (hbc : b.Within c) : a.Within c :=
  ⟨fun _ h => hbc.1 (hab.1 h), fun h => hab.2 (hbc.2 h)⟩

theorem name (reads : SecretReads) (n : Text) :
    reads.Within { reads with names := insert n reads.names } :=
  ⟨Finset.subset_insert n reads.names, id⟩

theorem dynamic (reads : SecretReads) : reads.Within { reads with dynamic := true } :=
  ⟨fun _ h => h, fun h => absurd h (by simp)⟩

end SecretReads.Within

mutual

/-- The collector only adds to the report. -/
theorem collect_within (e : Expr N) (reads : SecretReads) :
    reads.Within (collectSecretReadsFromExpr e reads) := by
  -- the cases are those of the scan
  cases e with
  | literal value => exact .refl reads
  | path segments =>
      cases segments with
      | nil => exact .refl reads
      | cons first rest =>
          unfold collectSecretReadsFromExpr
          split
          · cases rest with
            | nil => exact .dynamic reads
            | cons segment rest =>
                simp only []
                split
                · exact .dynamic reads
                · exact .name reads segment
          · exact .refl reads
  | unaryNot inner => exact collect_within inner reads
  | memberAccess inner path => exact collect_within inner reads
  | index base key =>
      unfold collectSecretReadsFromExpr
      split
      · exact .name reads _
      · exact (SecretReads.Within.dynamic reads).trans (collect_within key _)
      · exact (collect_within base reads).trans (collect_within key _)
  | binary op left right =>
      exact (collect_within left reads).trans (collect_within right _)
  | call name args => exact collectArgs_within args reads

theorem collectArgs_within (args : List (Expr N)) (reads : SecretReads) :
    reads.Within (collectSecretReadsFromArgs args reads) := by
  cases args with
  | nil => exact .refl reads
  | cons e es => exact (collect_within e reads).trans (collectArgs_within es _)

end

/-! ## Two contexts -/

mutual

/-- Some index of the tree has the bare `secrets` context as its base. -/
def indexesSecrets : Expr N → Bool
  | .literal _ => false
  | .path _ => false
  | .unaryNot e => indexesSecrets e
  | .memberAccess e _ => indexesSecrets e
  | .index base key => isSecretsContext base || indexesSecrets base || indexesSecrets key
  | .binary _ left right => indexesSecrets left || indexesSecrets right
  | .call _ args => indexesSecretsArgs args

/-- Some argument does. -/
def indexesSecretsArgs : List (Expr N) → Bool
  | [] => false
  | e :: es => indexesSecrets e || indexesSecretsArgs es

end

/-- The two contexts hold the objects `m` and `m'` under `secrets` and are equal
    otherwise. -/
structure DifferInSecrets (c c' : Context N) (m m' : List (Text × Value N)) : Prop where
  left : c.roots.lookup secretsRoot = some (.object m)
  right : c'.roots.lookup secretsRoot = some (.object m')
  roots : ∀ k, k ≠ secretsRoot → c.roots.lookup k = c'.roots.lookup k
  status : c.success = c'.success ∧ c.failure = c'.failure ∧ c.cancelled = c'.cancelled
  workspace : c.workspaceDir = c'.workspaceDir

/-- A report without dynamic access, on whose names the two objects agree in any
    spelling. -/
def Covers (reads : SecretReads) (m m' : List (Text × Value N)) : Prop :=
  reads.dynamic = false ∧
    ∀ k, (∃ n ∈ reads.names, Text.eqIgnoreAsciiCase k n = true) → getField m k = getField m' k

theorem Covers.mono {reads later : SecretReads} {m m' : List (Text × Value N)}
    (h : Covers later m m') (hw : reads.Within later) : Covers reads m m' := by
  refine ⟨hw.2 h.1, ?_⟩
  intro k hk
  obtain ⟨n, hn, hkn⟩ := hk
  exact h.2 k ⟨n, hw.1 hn, hkn⟩

theorem eqIgnoreAsciiCase_refl (t : Text) : Text.eqIgnoreAsciiCase t t = true := by
  simp [Text.eqIgnoreAsciiCase]

theorem Covers.field {reads : SecretReads} {m m' : List (Text × Value N)} (h : Covers reads m m')
    {n : Text} (hn : n ∈ reads.names) : getField m n = getField m' n :=
  h.2 n ⟨n, hn, eqIgnoreAsciiCase_refl n⟩

section Runs

variable {c c' : Context N} {m m' : List (Text × Value N)}

/-- A path the report covers resolves alike. -/
theorem path_agree (hd : DifferInSecrets c c' m m') (path : List Text) (reads : SecretReads)
    (hc : Covers (collectSecretReadsFromExpr (.path path : Expr N) reads) m m') :
    c.resolveRef path = c'.resolveRef path ∧ c.resolve path = c'.resolve path := by
  cases path with
  | nil => exact ⟨rfl, rfl⟩
  | cons first rest =>
      by_cases hf : first = secretsRoot
      · subst hf
        unfold collectSecretReadsFromExpr at hc
        rw [if_pos (eqIgnoreAsciiCase_refl secretsRoot)] at hc
        cases rest with
        | nil => exact absurd hc.1 (by simp)
        | cons segment rest =>
            by_cases hs : segment = "*".toList
            · simp only [if_pos hs] at hc
              exact absurd hc.1 (by simp)
            · simp only [if_neg hs] at hc
              have hfield : getField m segment = getField m' segment :=
                hc.field (Finset.mem_insert_self segment reads.names)
              constructor
              · simp only [Context.resolveRef, hd.left, hd.right, Option.bind_some,
                  Context.refBelow, if_neg hs, hfield]
              · simp only [Context.resolve, hd.left, hd.right, Option.getD_some, resolveValue,
                  List.foldl_cons, Value.member, if_neg hs, hfield]
      · constructor
        · simp only [Context.resolveRef, hd.roots first hf]
        · simp only [Context.resolve, hd.roots first hf]

theorem steady_evalPath (path : List Text) : Steady tooLarge (evalPath c path) :=
  .bind (steady_charge _) fun _ => steady_pure _

theorem evalPath_agree (hd : DifferInSecrets c c' m m') (path : List Text) (reads : SecretReads)
    (hc : Covers (collectSecretReadsFromExpr (.path path : Expr N) reads) m m') :
    Agree tooLarge same (evalPath c path) (evalPath c' path) := by
  have h : evalPath c path = evalPath c' path := by
    simp only [evalPath, (path_agree hd path reads hc).1, (path_agree hd path reads hc).2]
  rw [h]
  exact (steady_evalPath path).agree

theorem callFunction_eq (hd : DifferInSecrets c c' m m') (name : Text) (values : List (Value N)) :
    callFunction engine name values c = callFunction engine name values c' := by
  simp only [callFunction, hashFiles, hd.status.1, hd.status.2.1, hd.status.2.2, hd.workspace]

theorem steady_enterEval (depth : Nat) : Steady tooLarge (enterEval depth) :=
  .ite (steady_throw _) (steady_pure _)

theorem charged_agree {x y : EvalM (Value N)} (h : Agree tooLarge same x y) :
    Agree tooLarge same (charged x) (charged y) :=
  .bind h fun value => .bind (steady_charge value).agree fun _ => .pure value

theorem charge_agree {v w : Value N} (h : same → valueSize v = valueSize w) :
    Agree tooLarge same (charge v) (charge w) := by
  constructor
  · intro hs
    funext used
    simp only [charge, h hs]
  · intro u u'
    unfold charge
    split_ifs with hv hw
    · exact .inl rfl
    · exact .inl rfl
    · exact .inr (.inl rfl)
    · exact .inr (.inr rfl)

/-- `secrets['name']` as a computed index: the object is charged, one field is
    read. -/
theorem eval_secretsIndex {ctx : Context N} {obj : List (Text × Value N)}
    (h : ctx.roots.lookup secretsRoot = some (.object obj)) (depth : Nat) (name : Text) :
    (do
      let b ← eval engine ctx depth (.path [secretsRoot])
      let k ← eval engine ctx depth (.literal (.string name))
      return indexValue b (stringValue engine k)) =
    (do
      enterEval depth
      charge (.object obj : Value N)
      enterEval depth
      charge (.string name : Value N)
      return (getField obj name).getD .null) := by
  have href : ctx.resolveRef [secretsRoot] = some (.object obj) := by
    simp [Context.resolveRef, h, Context.refBelow]
  simp only [eval, evalPath, href, Option.getD_some, bind_assoc, pure_bind, indexValue, stringValue]

theorem secretsIndex_agree (hd : DifferInSecrets c c' m m') (depth : Nat) (name : Text)
    (hsize : same → fieldsSize m = fieldsSize m') (hf : getField m name = getField m' name) :
    Agree tooLarge same
      (do
        let b ← eval engine c depth (.path [secretsRoot])
        let k ← eval engine c depth (.literal (.string name))
        return indexValue b (stringValue engine k))
      (do
        let b ← eval engine c' depth (.path [secretsRoot])
        let k ← eval engine c' depth (.literal (.string name))
        return indexValue b (stringValue engine k)) := by
  rw [eval_secretsIndex hd.left, eval_secretsIndex hd.right, hf]
  refine .bind (steady_enterEval depth).agree fun _ => ?_
  refine .bind (charge_agree fun hs => ?_) fun _ => ?_
  · simpa only [valueSize] using hsize hs
  · refine .bind (steady_enterEval depth).agree fun _ => ?_
    exact .bind (steady_charge _).agree fun _ => .pure _

/-- What the literal-name case of the collector found. -/
theorem literalName_eq {e : Expr N} {name : Text} (h : literalName e = some name) :
    e = .literal (.string name) := by
  unfold literalName at h
  split at h
  · simp_all
  · cases h

theorem isSecretsContext_eq {e : Expr N} (h : isSecretsContext e = true) :
    ∃ first, e = .path [first] ∧ Text.eqIgnoreAsciiCase first secretsRoot = true := by
  unfold isSecretsContext at h
  split at h
  · exact ⟨_, rfl, h⟩
  · cases h

theorem steady_eval_path (depth : Nat) (path : List Text) :
    Steady tooLarge (eval engine c depth (.path path)) := by
  simp only [eval]
  exact .bind (steady_enterEval depth) fun _ => steady_evalPath path

theorem steady_eval_literal (depth : Nat) (value : Value N) :
    Steady tooLarge (eval engine c depth (.literal value)) := by
  simp only [eval]
  refine .bind (steady_enterEval depth) fun _ => ?_
  exact .bind (steady_charge value) fun _ => steady_pure value

mutual

/-- Along the tree, the two runs agree. -/
theorem eval_agree (hd : DifferInSecrets c c' m m') (e : Expr N) (reads : SecretReads)
    (hc : Covers (collectSecretReadsFromExpr e reads) m m')
    (hs : same → fieldsSize m = fieldsSize m' ∨ indexesSecrets e = false) (depth : Nat) :
    Agree tooLarge same (eval engine c depth e) (eval engine c' depth e) := by
  -- the induction is on the tree, along what is collected of it
  cases e with
  | literal value => exact (steady_eval_literal depth value).agree
  | path path =>
      simp only [eval]
      exact .bind (steady_enterEval depth).agree fun _ => evalPath_agree hd path reads hc
  | unaryNot inner =>
      simp only [eval]
      refine .bind (steady_enterEval depth).agree fun _ => charged_agree ?_
      exact .bind (eval_agree hd inner reads hc hs _) fun value => .pure _
  | memberAccess inner path =>
      simp only [eval]
      refine .bind (steady_enterEval depth).agree fun _ => charged_agree ?_
      exact .bind (eval_agree hd inner reads hc hs _) fun value => .pure _
  -- what is read on the left is covered by what is read on both sides
  | binary op left right =>
      have hl := hc.mono (collect_within right (collectSecretReadsFromExpr left reads))
      simp only [indexesSecrets, Bool.or_eq_false_iff] at hs
      simp only [eval]
      refine .bind (steady_enterEval depth).agree fun _ => charged_agree ?_
      refine .bind (eval_agree hd left reads hl (fun h => (hs h).imp_right And.left) _) fun l => ?_
      refine .ite (.pure l) (.ite (.pure l) ?_)
      exact .bind (eval_agree hd right _ hc (fun h => (hs h).imp_right And.right) _)
        fun r => .pure _
  | call name args =>
      simp only [indexesSecrets] at hs
      simp only [eval]
      refine .bind (steady_enterEval depth).agree fun _ => charged_agree ?_
      refine .bind (steady_liftM _).agree fun _ => ?_
      refine .ite (evalCase_agree hd args reads hc hs _) ?_
      refine .bind (evalArgs_agree hd args reads hc hs _) fun values => ?_
      rw [callFunction_eq hd]
      exact (steady_callFunction name values c').agree
  | index base key =>
      simp only [indexesSecrets, Bool.or_eq_false_iff] at hs
      simp only [eval]
      refine .bind (steady_enterEval depth).agree fun _ => charged_agree ?_
      unfold collectSecretReadsFromExpr at hc
      split at hc
      · -- a literal name on the bare context
        rename_i name hbase hkey
        obtain ⟨first, rfl, hfirst⟩ := isSecretsContext_eq hbase
        rw [literalName_eq hkey] at hs ⊢
        have hfield := hc.field (Finset.mem_insert_self name reads.names)
        by_cases hf : first = secretsRoot
        · subst hf
          exact secretsIndex_agree hd _ name
            (fun h => (hs h).resolve_right (by simp [hbase])) hfield
        · -- another spelling of the root names nothing, or the same root in both
          have heq : eval engine c (depth + 1) (.path [first]) =
              eval engine c' (depth + 1) (.path [first]) := by
            simp only [eval, evalPath, Context.resolveRef, Context.resolve, hd.roots first hf]
          rw [heq]
          refine .bind (steady_eval_path _ [first]).agree fun b => ?_
          exact .bind (steady_eval_literal _ _).agree fun k => .pure _
      -- a dynamic access would be reported as one
      · exact absurd ((collect_within key _).2 hc.1) (by simp)
      · have hb := hc.mono (collect_within key (collectSecretReadsFromExpr base reads))
        refine .bind (eval_agree hd base reads hb (fun h => (hs h).imp_right fun h => h.1.2) _)
          fun b => ?_
        exact .bind (eval_agree hd key _ hc (fun h => (hs h).imp_right And.right) _)
          fun k => .pure _

theorem evalArgs_agree (hd : DifferInSecrets c c' m m') (args : List (Expr N)) (reads : SecretReads)
    (hc : Covers (collectSecretReadsFromArgs args reads) m m')
    (hs : same → fieldsSize m = fieldsSize m' ∨ indexesSecretsArgs args = false) (depth : Nat) :
    Agree tooLarge same (evalArgs engine c depth args) (evalArgs engine c' depth args) := by
  cases args with
  | nil => exact .pure []
  | cons e es =>
      have he := hc.mono (collectArgs_within es (collectSecretReadsFromExpr e reads))
      simp only [indexesSecretsArgs, Bool.or_eq_false_iff] at hs
      simp only [evalArgs]
      refine .bind (eval_agree hd e reads he (fun h => (hs h).imp_right And.left) _) fun v => ?_
      exact .bind (evalArgs_agree hd es _ hc (fun h => (hs h).imp_right And.right) _) fun vs =>
        .pure _

theorem evalCase_agree (hd : DifferInSecrets c c' m m') (args : List (Expr N)) (reads : SecretReads)
    (hc : Covers (collectSecretReadsFromArgs args reads) m m')
    (hs : same → fieldsSize m = fieldsSize m' ∨ indexesSecretsArgs args = false) (depth : Nat) :
    Agree tooLarge same (evalCase engine c depth args) (evalCase engine c' depth args) := by
  match args with
  | [] => exact Agree.pure (Value.null : Value N)
  | [last] =>
      simp only [indexesSecretsArgs, Bool.or_false] at hs
      simp only [evalCase]
      exact eval_agree hd last reads hc hs _
  | predicate :: result :: rest =>
      simp only [indexesSecretsArgs, Bool.or_eq_false_iff] at hs
      have hr := hc.mono (collectArgs_within rest _)
      -- the reads of the predicate are among those of all arguments, and so are those of the result
      have hp := hr.mono (collect_within result _)
      simp only [evalCase]
      refine .bind (eval_agree hd predicate reads hp (fun h => (hs h).imp_right And.left) _)
        fun v => ?_
      have hres := eval_agree hd result _ hr (fun h => (hs h).imp_right fun h => h.2.1) depth
      have hrest := evalCase_agree hd rest _ hc (fun h => (hs h).imp_right fun h => h.2.2) depth
      -- a predicate that is no boolean fails in both
      cases v with
      | bool b =>
          cases b with
          | true => exact hres
          | false => exact hrest
      | null => exact .throw _
      | number n => exact .throw _
      | string s => exact .throw _
      | array items => exact .throw _
      | object fields => exact .throw _

end

/-- Two evaluations of one expression, in contexts that agree on the reported
    secrets: the same value or error, unless an index on the whole `secrets`
    object meets objects of different size and one of the two is stopped by the
    budget. -/
theorem secret_reads_noninterfering (engine : Engine N F) (e : Expr N)
    (hd : DifferInSecrets c c' m m') (hc : Covers (collectSecretReadsFromExpr e {}) m m') :
    (evalFresh engine c e = .error tooLarge ∨ evalFresh engine c' e = .error tooLarge ∨
      evalFresh engine c e = evalFresh engine c' e) ∧
    (indexesSecrets e = false ∨ fieldsSize m = fieldsSize m' →
      evalFresh engine c e = evalFresh engine c' e) := by
  have h : Agree tooLarge (indexesSecrets e = false ∨ fieldsSize m = fieldsSize m')
      (eval engine c 0 e) (eval engine c' 0 e) := eval_agree hd e {} hc Or.symm 0
  exact ⟨(h.alike 0).2, (h.alike 0).1⟩

end Runs

/-! ## Two contexts, concretely -/

/-- An engine over integers, enough for expressions without calls. -/
def integerEngine : Engine Int Int where
  parseNumber t := (digitsValue 10 decimalDigit t).map fun n => (n : Int)
  numberText n := (toString n).toList
  asF64 := some
  zero := 0
  one := 1
  infinity := 2 ^ 1024
  negInfinity := -2 ^ 1024
  nan := 0
  ofI32 := id
  parseF64 t := (digitsValue 10 decimalDigit t).map fun n => (n : Int)
  isNan _ := false
  floatEq a b := a == b
  partialCmp a b := some (compare a b)
  toUppercase c := [c.toUpper]
  jsonText _ := []
  jsonPretty _ := []
  fromStr _ := .error []
  normalizeNewtonsoftJson _ := none
  hashMatches _ _ _ := .ok []

/-- A context with these secrets and nothing else. -/
def secretsOnly (fields : List (Text × Value Int)) : Context Int where
  roots := Dict.ofList [(secretsRoot, .object fields)]

theorem secretsOnly_differ (m m' : List (Text × Value Int)) :
    DifferInSecrets (secretsOnly m) (secretsOnly m') m m' where
  left := AList.lookup_insert _
  right := AList.lookup_insert _
  roots k hk := by
    simp only [secretsOnly, Dict.ofList, List.foldl_cons, List.foldl_nil]
    rw [AList.lookup_insert_ne hk, AList.lookup_insert_ne hk]
  status := ⟨rfl, rfl, rfl⟩
  workspace := rfl

/-- One secret. -/
def oneSecret : List (Text × Value Int) := [("FOO".toList, .string "x".toList)]

/-- The same secret beside another one. -/
def twoSecrets (big : Text) : List (Text × Value Int) :=
  [("BIG".toList, .string big), ("FOO".toList, .string "x".toList)]

theorem getField_twoSecrets (big k : Text) (hk : k ≠ "BIG".toList) :
    getField oneSecret k = getField (twoSecrets big) k := by
  simp only [getField, twoSecrets, oneSecret, List.find?_cons, Ne.symm hk, decide_false]

theorem foo_covered (big : Text) (e : Expr Int)
    (h : (collectSecretReadsFromExpr e {}).names = {"FOO".toList} ∧
      (collectSecretReadsFromExpr e {}).dynamic = false) :
    Covers (collectSecretReadsFromExpr e {}) oneSecret (twoSecrets big) := by
  refine ⟨h.2, ?_⟩
  intro k hk
  obtain ⟨n, hn, hkn⟩ := hk
  rw [h.1, Finset.mem_singleton] at hn
  refine getField_twoSecrets big k ?_
  rintro rfl
  rw [hn] at hkn
  revert hkn
  decide

/-- `secrets.FOO` has one value, whatever else is stored. -/
theorem foo_noninterfering :
    evalFresh integerEngine (secretsOnly oneSecret) (.path [secretsRoot, "FOO".toList]) =
      evalFresh integerEngine (secretsOnly (twoSecrets "y".toList))
        (.path [secretsRoot, "FOO".toList]) :=
  (secret_reads_noninterfering integerEngine (.path [secretsRoot, "FOO".toList])
    (secretsOnly_differ oneSecret (twoSecrets "y".toList))
    (foo_covered "y".toList (.path [secretsRoot, "FOO".toList]) ⟨by decide, by decide⟩)).2
    (.inl rfl)

/-- The tree of `secrets[('FOO')]`. -/
def fooIndex : Expr Int := .index (.path [secretsRoot]) (.literal (.string "FOO".toList))

theorem parse_fooIndex :
    parseExpression integerEngine.parseNumber "secrets[('FOO')]".toList = .ok fooIndex := by
  have hlex : lex "secrets[('FOO')]".toList = .ok [.ident secretsRoot, .lbracket, .lparen,
      .string "FOO".toList, .rparen, .rbracket, .eof] := by
    decide +kernel
  rw [parseExpression, hlex]
  rfl

theorem eval_fooIndex (obj : List (Text × Value Int)) :
    eval integerEngine (secretsOnly obj) 0 fooIndex =
      (do
        enterEval 0
        charged do
          enterEval 1
          charge (.object obj : Value Int)
          enterEval 1
          charge (.string "FOO".toList : Value Int)
          return (getField obj "FOO".toList).getD .null) := by
  rw [fooIndex, eval, eval_secretsIndex (secretsOnly_differ obj obj).left]

theorem fooIndex_tooLarge (big : Text) (h : maxEvaluatedValueBytes ≤ Text.utf8Len big) :
    evalFresh integerEngine (secretsOnly (twoSecrets big)) fooIndex = .error tooLarge := by
  have hbig : maxEvaluatedValueBytes < 0 + valueSize (.object (twoSecrets big)) := by
    simp only [twoSecrets, valueSize, fieldsSize]
    omega
  have hcharge : charge (.object (twoSecrets big)) 0 = .error tooLarge := by
    rw [charge, if_pos hbig]
  have henter : ∀ depth < 2, enterEval depth = pure () := by
    intro depth hdepth
    exact if_neg (by simp only [maxExpressionDepth]; omega)
  rw [evalFresh, eval_fooIndex, henter 0 (by omega), henter 1 (by omega)]
  simp only [charged, pure_bind, bind_assoc]
  -- the first thing that runs is the charge of the object
  change Except.map _ ((charge (.object (twoSecrets big)) 0).bind _) = _
  rw [hcharge]
  rfl

theorem utf8Len_replicate (n : Nat) : Text.utf8Len (List.replicate n 'a') = n := by
  have h : Char.utf8Size 'a' = 1 := by decide
  simp [Text.utf8Len, h]

/-- `secrets[('FOO')]` names `FOO` only, but its evaluation is charged for the
    whole object. -/
theorem literal_index_charged_for_all_secrets :
    ¬ ∀ (t : Text) (e : Expr Int) (c c' : Context Int) (m m' : List (Text × Value Int)),
      parseExpression integerEngine.parseNumber t = .ok e → DifferInSecrets c c' m m' →
      Covers (collectSecretReadsFromExpr e {}) m m' →
      evalFresh integerEngine c e = evalFresh integerEngine c' e := by
  intro h
  have heq := h _ fooIndex _ _ _ _ parse_fooIndex
    (secretsOnly_differ oneSecret (twoSecrets (List.replicate maxEvaluatedValueBytes 'a')))
    (foo_covered _ fooIndex ⟨by decide, by decide⟩)
  have hleft : evalFresh integerEngine (secretsOnly oneSecret) fooIndex =
      .ok (.string "x".toList) := rfl
  rw [hleft, fooIndex_tooLarge _ (utf8Len_replicate _).ge] at heq
  cases heq

end Expressions

end Preloop

import PreloopControl.Expressions.Eval
import PreloopControl.Expressions.Grammar

/-!
# Depth

The parser tracks the depth of every tree it builds, a leaf being 1 and every
node one deeper than its deepest child, and refuses a node past the ceiling. The
evaluator counts its own recursion against the same ceiling. The two counters
meet in the depth of the tree.

## Main definitions

* `exprDepth`: The depth of a tree.
* `Level.Measured`: What the parser tracks at a level.
* `Stepwise`: A property of computations that every step of the evaluator has.
* `Shallow`: A result that is no refusal for depth.
* `NeverFails`: A computation without certain errors.

## Theorems

* `parses_measured`: The tracked depth is the depth of the tree.
* `Stepwise.eval`: Such a property holds of evaluating a tree.
* `eval_neverFails`: A tree within the ceiling is evaluated without the errors of
  reading.
* `eval_depth`: There the guard makes no difference.
-/

namespace Preloop

namespace Expressions

open Fallible

variable {N F α β : Type}

/-! ## The depth of a tree -/

mutual

/-- The depth of a tree. -/
def exprDepth : Expr N → Nat
  | .literal _ => 1
  | .path _ => 1
  | .unaryNot e => exprDepth e + 1
  | .memberAccess e _ => exprDepth e + 1
  | .binary _ left right => max (exprDepth left) (exprDepth right) + 1
  | .index base key => max (exprDepth base) (exprDepth key) + 1
  | .call _ args => argsDepth args + 1

/-- The depth of the deepest argument. -/
def argsDepth : List (Expr N) → Nat
  | [] => 0
  | e :: es => max (exprDepth e) (argsDepth es)

end

theorem argsDepth_append (args : List (Expr N)) (e : Expr N) :
    argsDepth (args ++ [e]) = max (argsDepth args) (exprDepth e) := by
  induction args with
  | nil => simp only [List.nil_append, argsDepth, Nat.max_zero, Nat.zero_max]
  | cons a args ih => rw [List.cons_append, argsDepth, ih, argsDepth, Nat.max_assoc]

/-! ## What the parser tracks -/

/-- The node of a call is not counted before its closing parenthesis. -/
def Level.uncounted : Level → Nat
  | .opened | .filled => 1
  | _ => 0

/-- The tracked depth is the depth of the tree; for an open call it is the depth
    of its deepest argument. -/
def Level.Measured (level : Level) (p : ParsedExpr N) : Prop :=
  exprDepth p.expr = p.depth + level.uncounted ∧ p.depth ≤ maxExpressionDepth

theorem operators_counted {level below : Level} {op : Token → Option BinaryOp}
    (h : level.operators = some (op, below)) : level.uncounted = 0 ∧ below.uncounted = 0 := by
  cases level <;> cases h <;> exact ⟨rfl, rfl⟩

theorem nodeDepth_ok {d d' : Nat} (h : nodeDepth d = .ok d') :
    d' = d + 1 ∧ d' ≤ maxExpressionDepth := by
  unfold nodeDepth at h
  split at h
  · cases h
  · next hle =>
      cases h
      exact ⟨rfl, by omega⟩

theorem binary_ok {op : BinaryOp} {l r p : ParsedExpr N} (h : l.binary op r = .ok p) :
    p.expr = .binary op l.expr r.expr ∧ p.depth = max l.depth r.depth + 1 ∧
      p.depth ≤ maxExpressionDepth := by
  obtain ⟨d, hd, h⟩ := bind_eq_ok h
  obtain ⟨rfl, hle⟩ := nodeDepth_ok hd
  cases h
  exact ⟨rfl, rfl, hle⟩

theorem index_ok {base key p : ParsedExpr N} (h : base.index key = .ok p) :
    p.expr = .index base.expr key.expr ∧ p.depth = max base.depth key.depth + 1 ∧
      p.depth ≤ maxExpressionDepth := by
  obtain ⟨d, hd, h⟩ := bind_eq_ok h
  obtain ⟨rfl, hle⟩ := nodeDepth_ok hd
  cases h
  exact ⟨rfl, rfl, hle⟩

/-- An open path grows in place, and any other base is wrapped once. -/
theorem pushPathSegment_measured {base p : ParsedExpr N} {s : Text}
    (hbase : exprDepth base.expr = base.depth ∧ base.depth ≤ maxExpressionDepth)
    (h : base.pushPathSegment s = .ok p) :
    exprDepth p.expr = p.depth ∧ p.depth ≤ maxExpressionDepth := by
  unfold ParsedExpr.pushPathSegment at h
  split at h
  · next segments hexpr =>
      cases h
      rw [hexpr] at hbase
      exact hbase
  · next e path hexpr =>
      cases h
      rw [hexpr] at hbase
      exact hbase
  · obtain ⟨d, hd, h⟩ := bind_eq_ok h
    obtain ⟨rfl, hle⟩ := nodeDepth_ok hd
    cases h
    refine ⟨?_, hle⟩
    simp only [exprDepth, hbase.1]

theorem parses_measured {num : Text → Option N} {level : Level} {ts rest : List Token}
    {p : ParsedExpr N} (h : Parses num level ts p rest) : level.Measured p := by
  have hleaf : 1 ≤ maxExpressionDepth := by decide
  -- the induction is on the parse; each node is measured where it is built
  induction h with
  | string | number | bool | null | name | emptyCall => exact ⟨rfl, hleaf⟩
  | opened => exact ⟨rfl, Nat.zero_le _⟩
  | next hcall harg ih ih' | last hcall harg ih ih' =>
      obtain ⟨h, hle⟩ := ih
      obtain ⟨h', hle'⟩ := ih'
      simp only [exprDepth, Level.uncounted, Nat.add_right_cancel_iff, Nat.add_zero] at h h'
      refine ⟨?_, Nat.max_le.mpr ⟨hle, hle'⟩⟩
      simp only [exprDepth, argsDepth_append, h, h', Level.uncounted]
  | call hcall hdepth ih =>
      obtain ⟨rfl, hle⟩ := nodeDepth_ok hdepth
      exact ⟨ih.1, hle⟩
  | segment h hseg hpush ih => exact pushPathSegment_measured ih hpush
  | key h hkey hpush ih => exact pushPathSegment_measured ih hpush
  | index h hkey hindex ih ih' =>
      obtain ⟨hexpr, hdepth, hle⟩ := index_ok hindex
      refine ⟨?_, hle⟩
      rw [hexpr, exprDepth, hdepth, ih.1, ih'.1]
      rfl
  | not h hdepth ih =>
      obtain ⟨rfl, hle⟩ := nodeDepth_ok hdepth
      refine ⟨?_, hle⟩
      rw [exprDepth, ih.1]
      rfl
  | binary hlevel hl hop hr hp ih ih' =>
      obtain ⟨hexpr, hdepth, hle⟩ := binary_ok hp
      obtain ⟨hcounted, hbelow⟩ := operators_counted hlevel
      refine ⟨?_, hle⟩
      rw [hexpr, exprDepth, hdepth, ih.1, ih'.1, hcounted, hbelow]
      rfl
  | operand hlevel h ih =>
      obtain ⟨hcounted, hbelow⟩ := operators_counted hlevel
      rw [Level.Measured, hbelow] at ih
      rw [Level.Measured, hcounted]
      exact ih
  | group h ih | dropDot h hseg ih | dropKey h hkey ih | dropBracket h ih | member h ih
  | primary h ih => exact ih

/-! ## What every step keeps -/

/-- A property of computations that each step of the evaluator has and that sequencing
    keeps. -/
structure Stepwise (engine : Engine N F) (ctx : Context N)
    (P : ∀ {α : Type}, EvalM α → Prop) : Prop where
  pure : ∀ {α : Type} (a : α), P (Pure.pure a : EvalM α)
  bind : ∀ {α β : Type} {x : EvalM α} {f : α → EvalM β}, P x → (∀ a, P (f a)) → P (x >>= f)
  charge : ∀ value : Value N, P (Expressions.charge value)
  arity : ∀ (name : Text) (actual : Nat),
    P (MonadLift.monadLift (validateFunctionArity name actual) : EvalM Unit)
  call : ∀ (name : Text) (values : List (Value N)), P (callFunction engine name values ctx)
  predicate : P (throw .nonBooleanCasePredicate : EvalM (Value N))

section Stepwise

variable {engine : Engine N F} {ctx : Context N} {P : ∀ {α : Type}, EvalM α → Prop}

theorem Stepwise.charged (h : Stepwise engine ctx P) {x : EvalM (Value N)} (hx : P x) :
    P (charged x) :=
  h.bind hx fun value => h.bind (h.charge value) fun _ => h.pure value

mutual

/-- Such a property holds of evaluating a tree, if it holds of entering every level
    that the tree reaches. -/
theorem Stepwise.eval (h : Stepwise engine ctx P) (e : Expr N) (depth : Nat)
    (henter : ∀ d, depth ≤ d → d < depth + exprDepth e → P (enterEval d)) :
    P (eval engine ctx depth e) := by
  -- each level is entered once before its parts, which lie one level deeper
  cases e with
  | literal value =>
      simp only [Expressions.eval, exprDepth] at henter ⊢
      refine h.bind (henter depth (by omega) (by omega)) fun _ => ?_
      exact h.bind (h.charge value) fun _ => h.pure value
  | path path =>
      simp only [Expressions.eval, exprDepth] at henter ⊢
      refine h.bind (henter depth (by omega) (by omega)) fun _ => ?_
      exact h.bind (h.charge _) fun _ => h.pure _
  | unaryNot inner =>
      simp only [Expressions.eval, exprDepth] at henter ⊢
      refine h.bind (henter depth (by omega) (by omega)) fun _ => h.charged ?_
      refine h.bind (h.eval inner (depth + 1) ?_) fun value => h.pure _
      exact fun d hd hd' => henter d (by omega) (by omega)
  | memberAccess inner path =>
      simp only [Expressions.eval, exprDepth] at henter ⊢
      refine h.bind (henter depth (by omega) (by omega)) fun _ => h.charged ?_
      refine h.bind (h.eval inner (depth + 1) ?_) fun value => h.pure _
      exact fun d hd hd' => henter d (by omega) (by omega)
  | binary op left right =>
      simp only [Expressions.eval, exprDepth] at henter ⊢
      refine h.bind (henter depth (by omega) (by omega)) fun _ => h.charged ?_
      refine h.bind (h.eval left (depth + 1) ?_) fun l => ?_
      · exact fun d hd hd' => henter d (by omega) (by omega)
      -- a second operand that is not evaluated enters no level
      · split
        · exact h.pure l
        · split
          · exact h.pure l
          · refine h.bind (h.eval right (depth + 1) ?_) fun r => h.pure _
            exact fun d hd hd' => henter d (by omega) (by omega)
  | index base key =>
      simp only [Expressions.eval, exprDepth] at henter ⊢
      refine h.bind (henter depth (by omega) (by omega)) fun _ => h.charged ?_
      refine h.bind (h.eval base (depth + 1) ?_) fun b => ?_
      · exact fun d hd hd' => henter d (by omega) (by omega)
      · refine h.bind (h.eval key (depth + 1) ?_) fun k => h.pure _
        exact fun d hd hd' => henter d (by omega) (by omega)
  | call name args =>
      simp only [Expressions.eval, exprDepth] at henter ⊢
      have hargs : ∀ d, depth + 1 ≤ d → d < depth + 1 + argsDepth args → P (enterEval d) :=
        fun d hd hd' => henter d (by omega) (by omega)
      refine h.bind (henter depth (by omega) (by omega)) fun _ => h.charged ?_
      refine h.bind (h.arity name args.length) fun _ => ?_
      split
      · exact h.evalCase args (depth + 1) hargs
      · exact h.bind (h.evalArgs args (depth + 1) hargs) fun values => h.call name values

theorem Stepwise.evalArgs (h : Stepwise engine ctx P) (args : List (Expr N)) (depth : Nat)
    (henter : ∀ d, depth ≤ d → d < depth + argsDepth args → P (enterEval d)) :
    P (evalArgs engine ctx depth args) := by
  cases args with
  | nil =>
      simp only [Expressions.evalArgs]
      exact h.pure []
  | cons e es =>
      simp only [Expressions.evalArgs, argsDepth] at henter ⊢
      refine h.bind (h.eval e depth fun d hd hd' => henter d hd (by omega)) fun v => ?_
      exact h.bind (h.evalArgs es depth fun d hd hd' => henter d hd (by omega)) fun vs => h.pure _

theorem Stepwise.evalCase (h : Stepwise engine ctx P) (args : List (Expr N)) (depth : Nat)
    (henter : ∀ d, depth ≤ d → d < depth + argsDepth args → P (enterEval d)) :
    P (evalCase engine ctx depth args) := by
  cases args with
  | nil =>
      simp only [Expressions.evalCase]
      exact h.pure _
  | cons predicate args =>
      cases args with
      | nil =>
          simp only [Expressions.evalCase, argsDepth] at henter ⊢
          exact h.eval predicate depth fun d hd hd' => henter d hd (by omega)
      | cons result rest =>
          simp only [Expressions.evalCase, argsDepth] at henter ⊢
          refine h.bind (h.eval predicate depth fun d hd hd' => henter d hd (by omega)) fun v => ?_
          split
          · exact h.eval result depth fun d hd hd' => henter d hd (by omega)
          · exact h.evalCase rest depth fun d hd hd' => henter d hd (by omega)
          · exact h.predicate

end

end Stepwise

/-! ## The errors of the evaluator -/

/-- The errors of reading an expression, before it is evaluated. -/
def ExpressionError.isReading : ExpressionError → Bool
  | .eof => true
  | .unexpected _ => true
  | .unexpectedToken _ => true
  | .tooDeep _ => true
  | _ => false

/-- A result that is none of the bad errors. -/
def Spares (bad : ExpressionError → Prop) (r : Result α) : Prop := ∀ e, bad e → r ≠ .error e

/-- A result that is no refusal for depth. -/
def Shallow (r : Result α) : Prop := ∀ l, r ≠ .error (.tooDeep l)

/-- A refusal for depth. -/
def IsTooDeep (e : ExpressionError) : Prop := ∃ l, e = .tooDeep l

theorem shallow_iff {r : Result α} : Shallow r ↔ Spares IsTooDeep r := by
  constructor
  · rintro h e ⟨l, rfl⟩
    exact h l
  · exact fun h l => h _ ⟨l, rfl⟩

theorem shallow_ok (a : α) : Shallow (.ok a : Result α) := fun _ => by simp

section Errors

variable {bad : ExpressionError → Prop}

theorem spares_ok (a : α) : Spares bad (.ok a : Result α) := fun _ _ => by simp

theorem Spares.bind {r : Result α} {f : α → Result β} (hr : Spares bad r)
    (hf : ∀ a, Spares bad (f a)) : Spares bad (r >>= f) := by
  cases r with
  | error e =>
      intro e' he' h
      cases h
      exact hr e he' rfl
  | ok a => exact hf a

theorem Spares.map {r : Result α} (hr : Spares bad r) (f : α → β) : Spares bad (r.map f) := by
  cases r with
  | error e =>
      intro e' he' h
      cases h
      exact hr e he' rfl
  | ok a => exact spares_ok (f a)

theorem Spares.ite {p : Prop} [Decidable p] {r r' : Result α} (hr : Spares bad r)
    (hr' : Spares bad r') : Spares bad (if p then r else r') := by
  split
  · exact hr
  · exact hr'

/-- A computation without bad errors. -/
def NeverFails (bad : ExpressionError → Prop) (x : EvalM α) : Prop := ∀ used, Spares bad (x used)

theorem neverFails_pure (a : α) : NeverFails bad (Pure.pure a : EvalM α) := fun _ => spares_ok _

theorem NeverFails.bind {x : EvalM α} {f : α → EvalM β} (hx : NeverFails bad x)
    (hf : ∀ a, NeverFails bad (f a)) : NeverFails bad (x >>= f) := by
  intro used
  exact (hx used).bind fun out => hf out.1 out.2

theorem NeverFails.ite {p : Prop} [Decidable p] {x y : EvalM α} (hx : NeverFails bad x)
    (hy : NeverFails bad y) : NeverFails bad (if p then x else y) := by
  split
  · exact hx
  · exact hy

theorem NeverFails.map {x : EvalM α} (hx : NeverFails bad x) (f : α → β) :
    NeverFails bad (f <$> x) := by
  intro used
  exact (hx used).bind fun out => spares_ok _

theorem neverFails_withRemaining {f : Nat → Result α} (hf : ∀ n, Spares bad (f n)) :
    NeverFails bad (withRemaining f) := fun _ => (hf _).map _

theorem neverFails_enterEval {depth : Nat} (h : depth + 1 ≤ maxExpressionDepth) :
    NeverFails bad (enterEval depth) := by
  unfold enterEval
  rw [if_neg (by omega)]
  exact neverFails_pure ()

section Functions

variable (engine : Engine N F) (hbad : ∀ e, bad e → e.isReading = true)

/-- Hashing files fails for its own reasons only. -/
def Engine.HashesShallow (engine : Engine N F) : Prop :=
  ∀ workspace follow patterns, Shallow (engine.hashMatches workspace follow patterns)

/-- Hashing files fails without bad errors. -/
def Engine.HashesSpare (engine : Engine N F) (bad : ExpressionError → Prop) : Prop :=
  ∀ workspace follow patterns, Spares bad (engine.hashMatches workspace follow patterns)

include hbad

theorem spares_error {e : ExpressionError} (he : e.isReading = false) :
    Spares bad (.error e : Result α) := by
  intro e' he' h
  cases h
  rw [hbad e he'] at he
  cases he

theorem neverFails_charge (value : Value N) : NeverFails bad (charge value) := by
  intro used
  unfold charge
  exact Spares.ite (spares_error hbad rfl) (spares_ok _)

theorem spares_validateFunctionArity (name : Text) (actual : Nat) :
    Spares bad (validateFunctionArity name actual) := by
  unfold validateFunctionArity
  split
  · exact spares_error hbad rfl
  · exact .ite (spares_error hbad rfl) (.ite (spares_ok ()) (spares_error hbad rfl))

theorem spares_stringValueBounded (value : Value N) (limit : Nat) {overflow : ExpressionError}
    (h : overflow.isReading = false) :
    Spares bad (stringValueBounded engine value limit overflow) :=
  .ite (spares_ok _) (.ite (spares_ok _) (spares_error hbad h))

theorem spares_pushEvaluationCapped (remaining : Nat) (output segment : Text) :
    Spares bad (pushEvaluationCapped remaining output segment) :=
  .ite (spares_error hbad rfl) (spares_ok _)

theorem spares_pushFormatCapped (remaining : Nat) (output segment : Text) :
    Spares bad (pushFormatCapped remaining output segment) :=
  .ite (spares_error hbad rfl) (spares_pushEvaluationCapped hbad _ _ _)

theorem spares_formatLoop (format : Text) (values : List (Value N)) (remaining n : Nat) :
    ∀ output segment t,
      Spares bad (formatLoop engine format values remaining n output segment t) := by
  induction n with
  | zero => exact fun _ _ _ => spares_pushFormatCapped hbad _ _ _
  | succ n ih =>
      intro output segment t
      cases t with
      | nil => exact spares_pushFormatCapped hbad _ _ _
      | cons c t =>
          unfold formatLoop
          refine .ite ((spares_pushFormatCapped hbad _ _ _).bind fun output => .ite ?_ ?_)
            (.ite ?_ (ih _ _ _))
          · exact (spares_pushFormatCapped hbad _ _ _).bind fun output => ih _ _ _
          · split
            · exact spares_error hbad rfl
            · refine (spares_stringValueBounded engine hbad _ _ rfl).bind fun rendered => ?_
              exact (spares_pushFormatCapped hbad _ _ _).bind fun output => ih _ _ _
          · refine (spares_pushFormatCapped hbad _ _ _).bind fun output => .ite ?_ ?_
            · exact (spares_pushFormatCapped hbad _ _ _).bind fun output => ih _ _ _
            · exact spares_error hbad rfl

theorem spares_joinRest (separator : Text) (remaining : Nat) (values : List (Value N)) :
    ∀ output, Spares bad (joinRest engine separator remaining output values) := by
  induction values with
  | nil => exact fun output => spares_ok output
  | cons v vs ih =>
      intro output
      refine (spares_pushEvaluationCapped hbad _ _ _).bind fun output => ?_
      refine (spares_stringValueBounded engine hbad _ _ rfl).bind fun rendered => ?_
      exact (spares_pushEvaluationCapped hbad _ _ _).bind fun output => ih output

theorem spares_joinArgs (values : List (Value N)) (remaining : Nat) :
    Spares bad (joinArgs engine values remaining) := by
  have hbounded : ∀ v, Spares bad (stringValueBounded engine v remaining tooLarge) :=
    fun v => spares_stringValueBounded engine hbad v remaining rfl
  refine Spares.bind ?_ fun separator => ?_
  · unfold joinSeparator
    split
    · exact .ite (hbounded _) (spares_ok _)
    · exact spares_ok _
  · unfold joinItems
    split
    · exact spares_ok _
    · refine (hbounded _).bind fun rendered => ?_
      exact (spares_pushEvaluationCapped hbad _ _ _).bind fun output =>
        spares_joinRest engine hbad _ _ _ _
    · refine .ite ?_ (spares_ok _)
      exact (hbounded _).bind fun rendered => spares_pushEvaluationCapped hbad _ _ _
    · exact spares_ok _

theorem spares_fromJsonLenient (input : Text) : Spares bad (fromJsonLenient engine input) := by
  unfold fromJsonLenient
  split
  · exact spares_ok _
  · split
    · exact spares_ok _
    · exact spares_error hbad rfl

theorem spares_hashFiles (hhash : engine.HashesSpare bad) (values : List (Value N))
    (ctx : Context N) : Spares bad (hashFiles engine values ctx) := by
  unfold hashFiles
  split
  · exact spares_ok _
  · split
    · exact hhash _ _ _
    · exact .ite (.ite (hhash _ _ _) (spares_error hbad rfl)) (hhash _ _ _)

/-- No function fails the way reading does. -/
theorem neverFails_callFunction (hhash : engine.HashesSpare bad) (name : Text)
    (values : List (Value N)) (ctx : Context N) :
    NeverFails bad (callFunction engine name values ctx) := by
  unfold callFunction
  dsimp only
  have hbool (b : Bool) : NeverFails bad (Pure.pure (.bool b) : EvalM (Value N)) :=
    neverFails_pure _
  refine .ite (hbool _) (.ite (hbool _) (.ite (hbool _) (.ite (hbool _) (.ite (hbool _)
    (.ite (hbool _) (.ite (hbool _) ?_))))))
  refine .ite (.map (neverFails_withRemaining fun n => ?_) _)
    (.ite (neverFails_withRemaining fun n => ?_)
      (.ite (.map (neverFails_withRemaining fun n => ?_) _)
        (.ite (.map (neverFails_withRemaining fun n => ?_) _)
          (.ite (.map (neverFails_withRemaining fun n => ?_) _) ?_))))
  · refine (spares_stringValueBounded engine hbad _ _ rfl).bind fun format => ?_
    exact spares_formatLoop engine hbad _ _ _ _ _ _ _
  · exact spares_fromJsonLenient engine hbad _
  · exact spares_joinArgs engine hbad values n
  · exact spares_hashFiles engine hbad hhash values ctx
  · exact .ite (spares_ok _) (spares_error hbad rfl)
  · exact fun used => spares_error hbad rfl

end Functions

/-- Evaluation fails for other reasons than reading. -/
theorem stepwise_neverFails {engine : Engine N F} (hbad : ∀ e, bad e → e.isReading = true)
    (hhash : engine.HashesSpare bad) (ctx : Context N) :
    Stepwise engine ctx (NeverFails bad) where
  pure := neverFails_pure
  bind hx hf := hx.bind hf
  charge := neverFails_charge hbad
  arity name actual := fun _ => (spares_validateFunctionArity hbad name actual).bind fun _ =>
    spares_ok _
  call name values := neverFails_callFunction engine hbad hhash name values ctx
  predicate := fun _ => spares_error hbad rfl

/-- A tree that fits below the ceiling is evaluated without the errors of reading. -/
theorem eval_neverFails {engine : Engine N F} (hbad : ∀ e, bad e → e.isReading = true)
    (hhash : engine.HashesSpare bad) (ctx : Context N) (e : Expr N) (depth : Nat)
    (h : depth + exprDepth e ≤ maxExpressionDepth) : NeverFails bad (eval engine ctx depth e) :=
  (stepwise_neverFails hbad hhash ctx).eval e depth fun d _ hd' =>
    neverFails_enterEval (by omega)

end Errors

/-! ## The guard -/

section Guard

variable {engine : Engine N F} (ctx : Context N)

theorem enterEval_within {depth : Nat} (h : depth + 1 ≤ maxExpressionDepth) :
    enterEval depth = Pure.pure () := by
  unfold enterEval
  rw [if_neg (by omega)]

mutual

/-- Where a tree fits below the ceiling, the guard makes no difference. -/
theorem eval_depth (e : Expr N) (depth depth' : Nat) (h : depth + exprDepth e ≤ maxExpressionDepth)
    (h' : depth' + exprDepth e ≤ maxExpressionDepth) :
    eval engine ctx depth e = eval engine ctx depth' e := by
  -- both runs enter the same levels, each within the ceiling
  cases e with
  | literal value =>
      simp only [exprDepth] at h h'
      simp only [eval, enterEval_within h, enterEval_within h']
  | path path =>
      simp only [exprDepth] at h h'
      simp only [eval, enterEval_within h, enterEval_within h']
  | unaryNot inner =>
      simp only [exprDepth] at h h'
      simp only [eval, enterEval_within (show depth + 1 ≤ _ by omega),
        enterEval_within (show depth' + 1 ≤ _ by omega)]
      rw [eval_depth inner (depth + 1) (depth' + 1) (by omega) (by omega)]
  | memberAccess inner path =>
      simp only [exprDepth] at h h'
      simp only [eval, enterEval_within (show depth + 1 ≤ _ by omega),
        enterEval_within (show depth' + 1 ≤ _ by omega)]
      rw [eval_depth inner (depth + 1) (depth' + 1) (by omega) (by omega)]
  | binary op left right =>
      simp only [exprDepth] at h h'
      simp only [eval, enterEval_within (show depth + 1 ≤ _ by omega),
        enterEval_within (show depth' + 1 ≤ _ by omega)]
      rw [eval_depth left (depth + 1) (depth' + 1) (by omega) (by omega),
        eval_depth right (depth + 1) (depth' + 1) (by omega) (by omega)]
  | index base key =>
      simp only [exprDepth] at h h'
      simp only [eval, enterEval_within (show depth + 1 ≤ _ by omega),
        enterEval_within (show depth' + 1 ≤ _ by omega)]
      rw [eval_depth base (depth + 1) (depth' + 1) (by omega) (by omega),
        eval_depth key (depth + 1) (depth' + 1) (by omega) (by omega)]
  | call name args =>
      simp only [exprDepth] at h h'
      simp only [eval, enterEval_within (show depth + 1 ≤ _ by omega),
        enterEval_within (show depth' + 1 ≤ _ by omega)]
      rw [evalCase_depth args (depth + 1) (depth' + 1) (by omega) (by omega),
        evalArgs_depth args (depth + 1) (depth' + 1) (by omega) (by omega)]

theorem evalArgs_depth (args : List (Expr N)) (depth depth' : Nat)
    (h : depth + argsDepth args ≤ maxExpressionDepth)
    (h' : depth' + argsDepth args ≤ maxExpressionDepth) :
    evalArgs engine ctx depth args = evalArgs engine ctx depth' args := by
  cases args with
  | nil => simp only [evalArgs]
  | cons e es =>
      simp only [argsDepth] at h h'
      simp only [evalArgs]
      rw [eval_depth e depth depth' (by omega) (by omega),
        evalArgs_depth es depth depth' (by omega) (by omega)]

theorem evalCase_depth (args : List (Expr N)) (depth depth' : Nat)
    (h : depth + argsDepth args ≤ maxExpressionDepth)
    (h' : depth' + argsDepth args ≤ maxExpressionDepth) :
    evalCase engine ctx depth args = evalCase engine ctx depth' args := by
  cases args with
  | nil => simp only [evalCase]
  | cons predicate args =>
      cases args with
      | nil =>
          simp only [argsDepth] at h h'
          simp only [evalCase]
          exact eval_depth predicate depth depth' (by omega) (by omega)
      | cons result rest =>
          simp only [argsDepth] at h h'
          simp only [evalCase]
          rw [eval_depth predicate depth depth' (by omega) (by omega),
            eval_depth result depth depth' (by omega) (by omega),
            evalCase_depth rest depth depth' (by omega) (by omega)]

end

end Guard

end Expressions

end Preloop

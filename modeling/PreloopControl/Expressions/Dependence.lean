import PreloopControl.Workflow.Templates

/-!
# What an Evaluation Depends On

An evaluation reads its context in two places: where a path is resolved, and where a function
asks for the state of the run. Contexts that agree on both, for the paths of the tree, give
the same result, the budget included.

## Main definitions

* `paths`: The paths of a tree.
* `SameRun`: Contexts of the same run.
* `AgreeOn`: Contexts that resolve a path alike.

## Theorems

* `eval_of_agree`: The paths decide.
* `evalExpression_of_agree`: The same for a text.
-/

namespace Preloop

namespace Expressions

variable {N F : Type} {engine : Engine N F}

/-! ## Paths -/

mutual

/-- The paths of a tree. -/
def paths : Expr N → List (List Text)
  | .literal _ => []
  | .path path => [path]
  | .unaryNot e => paths e
  | .memberAccess e _ => paths e
  | .index base key => paths base ++ paths key
  | .binary _ left right => paths left ++ paths right
  | .call _ args => argumentPaths args

/-- The paths of the arguments. -/
def argumentPaths : List (Expr N) → List (List Text)
  | [] => []
  | e :: es => paths e ++ argumentPaths es

end

/-! ## Contexts that agree -/

/-- The functions that ask for the state of the run get the same answers. -/
structure SameRun (c c' : Context N) : Prop where
  status : c.success = c'.success ∧ c.failure = c'.failure ∧ c.cancelled = c'.cancelled
  workspace : c.workspaceDir = c'.workspaceDir

/-- The path has one value in both contexts. -/
def AgreeOn (c c' : Context N) (path : List Text) : Prop :=
  c.resolveRef path = c'.resolveRef path ∧ c.resolve path = c'.resolve path

section Runs

variable {c c' : Context N}

theorem agreeOn_root {first : Text} (h : c.roots.lookup first = c'.roots.lookup first)
    (rest : List Text) : AgreeOn c c' (first :: rest) := by
  refine ⟨?_, ?_⟩
  · rw [Context.resolveRef, Context.resolveRef, h]
  · rw [Context.resolve, Context.resolve, h]

/-- Of two objects a path sees the field it goes on to. -/
theorem agreeOn_field {first segment : Text} {m m' : List (Text × Value N)}
    (hl : c.roots.lookup first = some (.object m)) (hr : c'.roots.lookup first = some (.object m'))
    (hstar : segment ≠ "*".toList) (hfield : getField m segment = getField m' segment)
    (rest : List Text) : AgreeOn c c' (first :: segment :: rest) := by
  refine ⟨?_, ?_⟩
  · simp only [Context.resolveRef, hl, hr, Option.bind_some, Context.refBelow, if_neg hstar, hfield]
  · simp only [Context.resolve, hl, hr, Option.getD_some, resolveValue, List.foldl_cons,
      Value.member, if_neg hstar, hfield]

theorem evalPath_of_agree {path : List Text} (h : AgreeOn c c' path) :
    evalPath c path = evalPath c' path := by
  rw [evalPath, evalPath, h.1, h.2]

theorem callFunction_of_same (hrun : SameRun c c') (name : Text) (values : List (Value N)) :
    callFunction engine name values c = callFunction engine name values c' := by
  simp only [callFunction, hashFiles, hrun.status.1, hrun.status.2.1, hrun.status.2.2,
    hrun.workspace]

mutual

/-- Contexts that agree on the paths of a tree evaluate it alike, whatever is left of the
    budget. -/
theorem eval_of_agree (hrun : SameRun c c') (e : Expr N) (h : ∀ p ∈ paths e, AgreeOn c c' p)
    (depth : Nat) : eval engine c depth e = eval engine c' depth e := by
  cases e with
  | literal value => rfl
  | path path =>
      rw [eval, eval, evalPath_of_agree (h path List.mem_cons_self)]
  | unaryNot inner =>
      rw [eval, eval, eval_of_agree hrun inner h]
  | memberAccess inner path =>
      rw [eval, eval, eval_of_agree hrun inner h]
  | index base key =>
      rw [eval, eval, eval_of_agree hrun base fun p hp => h p (List.mem_append_left _ hp),
        eval_of_agree hrun key fun p hp => h p (List.mem_append_right _ hp)]
  | binary op left right =>
      rw [eval, eval, eval_of_agree hrun left fun p hp => h p (List.mem_append_left _ hp),
        eval_of_agree hrun right fun p hp => h p (List.mem_append_right _ hp)]
  | call name args =>
      have hcall : (fun values => callFunction engine name values c) =
          fun values => callFunction engine name values c' :=
        funext fun values => callFunction_of_same hrun name values
      rw [eval, eval, evalArgs_of_agree hrun args h, evalCase_of_agree hrun args h, hcall]

theorem evalArgs_of_agree (hrun : SameRun c c') (args : List (Expr N))
    (h : ∀ p ∈ argumentPaths args, AgreeOn c c' p) (depth : Nat) :
    evalArgs engine c depth args = evalArgs engine c' depth args := by
  cases args with
  | nil => rfl
  | cons e es =>
      rw [evalArgs, evalArgs, eval_of_agree hrun e fun p hp => h p (List.mem_append_left _ hp),
        evalArgs_of_agree hrun es fun p hp => h p (List.mem_append_right _ hp)]

theorem evalCase_of_agree (hrun : SameRun c c') (args : List (Expr N))
    (h : ∀ p ∈ argumentPaths args, AgreeOn c c' p) (depth : Nat) :
    evalCase engine c depth args = evalCase engine c' depth args := by
  cases args with
  | nil => rfl
  | cons e es =>
      have he : eval engine c depth e = eval engine c' depth e :=
        eval_of_agree hrun e (fun p hp => h p (List.mem_append_left _ hp)) depth
      have hes : ∀ p ∈ argumentPaths es, AgreeOn c c' p := fun p hp =>
        h p (List.mem_append_right _ hp)
      cases es with
      | nil => rw [evalCase, evalCase, he]
      | cons result rest =>
          have hresult : eval engine c depth result = eval engine c' depth result :=
            eval_of_agree hrun result (fun p hp => hes p (List.mem_append_left _ hp)) depth
          have hrest : evalCase engine c depth rest = evalCase engine c' depth rest :=
            evalCase_of_agree hrun rest (fun p hp => hes p (List.mem_append_right _ hp)) depth
          rw [evalCase, evalCase, he, hresult, hrest]

end

end Runs

end Expressions

namespace Workflow

open Expressions

variable {N F : Type} {engine : Engine N F} {c c' : Context N}

/-- A text has one value in contexts that agree on the paths of its tree. -/
theorem evalExpression_of_agree (hrun : SameRun c c') {t : Text}
    (h : ∀ e, parseExpression engine.parseNumber (trimExpressionMarkers t) = .ok e →
      ∀ p ∈ paths e, AgreeOn c c' p) :
    evalExpression engine t c = evalExpression engine t c' := by
  unfold evalExpression
  cases hparse : parseExpression engine.parseNumber (trimExpressionMarkers t) with
  | error err => rfl
  | ok e =>
      have heval : eval engine c 0 e = eval engine c' 0 e := eval_of_agree hrun e (h e hparse) 0
      show evalFresh engine c e = evalFresh engine c' e
      rw [evalFresh, evalFresh, heval]

end Workflow

end Preloop

import PreloopControl.Properties.SecretReads

/-!
# Literal and Computed Keys

An index that is spelled out becomes a segment of a path, and a computed one is looked up
when it is evaluated. A segment below an array is a projection over the elements, and a
star is the object filter, however it is spelled; a computed key is neither.

## Main definitions

* `KeysAgree`: Where the two lookups meet.

## Theorems

* `evalFresh_pushSegment`, `evalFresh_index`: What the two forms return.
* `literal_index_iff`: When they return the same.
-/

namespace Preloop

namespace Expressions

open Fallible

variable {N F : Type} {engine : Engine N F} {ctx : Context N}

/-! ## The two forms -/

/-- The borrowed value of a path is the resolved one. -/
theorem resolve_of_refBelow {v w : Value N} {rest : List Text}
    (h : Context.refBelow v rest = some w) : resolveValue v rest = w := by
  induction rest generalizing v with
  | nil => exact Option.some.inj h
  | cons segment rest ih =>
      unfold Context.refBelow at h
      by_cases hstar : segment = "*".toList
      · rw [if_pos hstar] at h
        cases h
      · rw [if_neg hstar] at h
        cases v with
        | object fields =>
            rcases Option.bind_eq_some_iff.mp h with ⟨x, hx, hrest⟩
            have hmember : Value.member (.object fields) segment = x := by
              unfold Value.member
              rw [if_neg hstar]
              dsimp only
              rw [hx]
              rfl
            rw [resolveValue, List.foldl_cons, hmember]
            exact ih hrest
        | null => cases h
        | bool b => cases h
        | number n => cases h
        | string s => cases h
        | array items => cases h

theorem resolveRef_getD (path : List Text) :
    (ctx.resolveRef path).getD (ctx.resolve path) = ctx.resolve path := by
  cases href : ctx.resolveRef path with
  | none => rfl
  | some w =>
      cases path with
      | nil => cases href
      | cons first rest =>
          rcases Option.bind_eq_some_iff.mp href with ⟨v, hv, hbelow⟩
          rw [Context.resolve, hv]
          exact (resolve_of_refBelow hbelow).symm

theorem enters : 0 + 1 ≤ maxExpressionDepth := by decide

theorem evalFresh_path {path : List Text} {v : Value N}
    (h : evalFresh engine ctx (.path path) = .ok v) : v = ctx.resolve path := by
  rcases evalFresh_ok h with ⟨n, hrun⟩
  simp only [eval, enterEval_within enters, pure_bind] at hrun
  rcases bind_eq_ok hrun with ⟨⟨⟨⟩, u⟩, -, hret⟩
  cases hret
  exact resolveRef_getD path

/-- A tree below another is evaluated as it is alone, where both fit below the ceiling. -/
theorem evalFresh_inner {e : Expr N} {v : Value N} {used n : Nat}
    (hdepth : exprDepth e + 1 ≤ maxExpressionDepth) (hused : used ≤ maxEvaluatedValueBytes)
    (h : eval engine ctx 1 e used = .ok (v, n)) : evalFresh engine ctx e = .ok v := by
  rw [eval_depth ctx e 1 0 (by omega) (by omega)] at h
  exact evalFresh_of_later hused h

theorem evalFresh_memberAccess {e : Expr N} {path : List Text} {v : Value N}
    (hdepth : exprDepth (.memberAccess e path) ≤ maxExpressionDepth)
    (h : evalFresh engine ctx (.memberAccess e path) = .ok v) :
    ∃ b, evalFresh engine ctx e = .ok b ∧ v = resolveValue b path := by
  rcases evalFresh_ok h with ⟨n, hrun⟩
  simp only [eval, enterEval_within enters, pure_bind] at hrun
  rcases charged_ok hrun with ⟨m, hm, -⟩
  rcases bind_eq_ok hm with ⟨⟨b, k⟩, hb, hret⟩
  cases hret
  exact ⟨b, evalFresh_inner hdepth (Nat.zero_le _) hb, rfl⟩

theorem evalFresh_index {e key : Expr N} {v : Value N}
    (hdepth : exprDepth (.index e key) ≤ maxExpressionDepth)
    (h : evalFresh engine ctx (.index e key) = .ok v) :
    ∃ b k, evalFresh engine ctx e = .ok b ∧ evalFresh engine ctx key = .ok k ∧
      v = indexValue b (stringValue engine k) := by
  rw [exprDepth] at hdepth
  rcases evalFresh_ok h with ⟨n, hrun⟩
  simp only [eval, enterEval_within enters, pure_bind] at hrun
  rcases charged_ok hrun with ⟨m, hm, -⟩
  rcases bind_eq_ok hm with ⟨⟨b, spent⟩, hb, hrest⟩
  rcases bind_eq_ok hrest with ⟨⟨k, spent'⟩, hk, hret⟩
  cases hret
  have hspent : spent ≤ maxEvaluatedValueBytes :=
    ((metered_eval ctx 1 e).bounded (Nat.zero_le _) hb).2
  exact ⟨b, k, evalFresh_inner (by omega) (Nat.zero_le _) hb,
    evalFresh_inner (by omega) hspent hk, rfl⟩

/-- A pushed segment is read below what the base returns. -/
theorem evalFresh_pushSegment {e : Expr N} {segment : Text} {b v : Value N}
    (hpath : e ≠ .path []) (hdepth : exprDepth e + 1 ≤ maxExpressionDepth)
    (hb : evalFresh engine ctx e = .ok b)
    (hv : evalFresh engine ctx (e.pushSegment segment) = .ok v) : v = b.member segment := by
  -- all but a path and a member access get the segment in a member access of their own
  have hwrapped : evalFresh engine ctx (.memberAccess e [segment]) = .ok v →
      v = b.member segment := by
    intro hv
    rcases evalFresh_memberAccess hdepth hv with ⟨b', hb', rfl⟩
    rw [hb] at hb'
    cases hb'
    rfl
  cases e with
  | path path =>
      cases path with
      | nil => exact absurd rfl hpath
      | cons first rest =>
          rw [evalFresh_path hv, evalFresh_path hb]
          show resolveValue _ (rest ++ [segment]) = _
          exact List.foldl_append ..
  -- a member access takes the segment at the end of its path
  | memberAccess e path =>
      rw [exprDepth] at hdepth
      rcases evalFresh_memberAccess (by rw [exprDepth]; omega) hb with ⟨b₁, h₁, rfl⟩
      rcases evalFresh_memberAccess (by rw [exprDepth]; omega) hv with ⟨b₂, h₂, rfl⟩
      rw [h₁] at h₂
      cases h₂
      exact List.foldl_append ..
  | literal value => exact hwrapped hv
  | unaryNot e => exact hwrapped hv
  | binary op l r => exact hwrapped hv
  | call name args => exact hwrapped hv
  | index e k => exact hwrapped hv

/-! ## Where they meet -/

/-- A literal index: a string, or digits that read as a number. -/
inductive IndexLiteral (num : Text → Option N)
  | string (s : Text)
  | number (digits : Text) (n : N) (reads : num digits = some n)

namespace IndexLiteral

variable {num : Text → Option N}

/-- What stands between the brackets. -/
def token : IndexLiteral num → Token
  | string s => .string s
  | number digits _ _ => .number digits

/-- The segment the parser makes of it. -/
def segment : IndexLiteral num → Text
  | string s => s
  | number digits _ _ => digits

/-- The key it spells. -/
def value : IndexLiteral num → Value N
  | string s => .string s
  | number _ n _ => .number n

end IndexLiteral

/-- What an element of an array contributes to a projection. -/
def Value.part (segment : Text) : Value N → Option (Value N)
  | .object fields => getField fields segment
  | .array inner => elementAt inner segment
  | _ => none

/-- The segment of a path and the computed key find the same. Below an object the segment is
    no star, and both find the same field; below an array the element under the key is itself
    the array of what the elements have under the segment. -/
def KeysAgree (base : Value N) (segment key : Text) : Prop :=
  match base with
  | .object fields =>
    segment ≠ "*".toList ∧ (getField fields segment).getD .null = (getField fields key).getD .null
  | .array items =>
    segment ≠ "*".toList ∧
      elementAt items key = some (.array (items.filterMap (Value.part segment)))
  | _ => True

/-- No element of an array is that array. -/
theorem ne_of_mem {items : List (Value N)} {x : Value N} (h : x ∈ items) : x ≠ .array items := by
  rintro rfl
  have hlt := List.sizeOf_lt_of_mem h
  rw [Value.array.sizeOf_spec] at hlt
  omega

/-- The object filter finds no field of the object. -/
theorem values_ne_field (fields : List (Text × Value N)) (key : Text) :
    (getField fields key).getD .null ≠ .array (fields.map (·.2)) := by
  unfold getField
  cases hfind : fields.find? fun e => e.1 = key with
  | none => exact fun heq => by cases heq
  | some entry =>
      exact ne_of_mem (List.mem_map.mpr ⟨entry, List.mem_of_find?_eq_some hfind, rfl⟩)

theorem array_ne_element (items : List (Value N)) (key : Text) :
    (elementAt items key).getD .null ≠ .array items := by
  unfold elementAt
  cases hkey : parseUsize key with
  | none => exact fun heq => by cases heq
  | some i =>
      rw [Option.bind_some]
      cases hget : items[i]? with
      | none => exact fun heq => by cases heq
      | some x => exact ne_of_mem (List.mem_of_getElem? hget)

/-- On every base value, the two lookups return the same exactly where they meet. -/
theorem member_eq_indexValue_iff (base : Value N) (segment key : Text) :
    base.member segment = indexValue base key ↔ KeysAgree base segment key := by
  unfold Value.member
  cases base with
  | object fields =>
      by_cases hstar : segment = "*".toList
      · rw [if_pos hstar]
        -- `*` gives the list of the values, a key one of them
        exact iff_of_false (fun heq => values_ne_field fields key heq.symm)
          (fun hagree => hagree.1 hstar)
      · rw [if_neg hstar]
        exact ⟨fun heq => ⟨hstar, heq⟩, fun hagree => hagree.2⟩
  | array items =>
      by_cases hstar : segment = "*".toList
      · rw [if_pos hstar]
        exact iff_of_false (fun heq => array_ne_element items key heq.symm)
          (fun hagree => hagree.1 hstar)
      · rw [if_neg hstar]
        constructor
        · intro heq
          refine ⟨hstar, ?_⟩
          cases helement : elementAt items key with
          | none =>
              rw [indexValue, helement] at heq
              cases heq
          | some x =>
              rw [indexValue, helement] at heq
              exact congrArg some heq.symm
        · intro hagree
          rw [indexValue, hagree.2]
          rfl
  | null => exact iff_of_true (by simp [indexValue]) trivial
  | bool b => exact iff_of_true (by simp [indexValue]) trivial
  | number n => exact iff_of_true (by simp [indexValue]) trivial
  | string s => exact iff_of_true (by simp [indexValue]) trivial

/-! ## Literal and computed indexes -/

theorem pushSegment_ne_path_nil (segment : Text) (e : Expr N) :
    e.pushSegment segment ≠ .path [] := by
  cases e with
  | path segments =>
      intro heq
      exact List.append_ne_nil_of_right_ne_nil segments (List.cons_ne_nil segment [])
        (Expr.path.inj heq)
  | _ => exact fun heq => by cases heq

/-- A path that was parsed has a root. -/
theorem ne_path_nil_of_derives {num : Text → Option N} {level : Level} {ts : List Token}
    {e : Expr N} (h : Derives num level ts e) : e ≠ .path [] := by
  induction h with
  | segment h hseg ih => exact pushSegment_ne_path_nil _ _
  | key h hkey ih => exact pushSegment_ne_path_nil _ _
  | group h ih => exact ih
  | call h ih => exact ih
  | member h ih => exact ih
  | primary h ih => exact ih
  | operand hlevel h ih => exact ih
  | _ => exact fun heq => by cases heq

/-- For every base, every literal key and every computed key with the value it spells: the two
indexes return the same, if they return, exactly if the lookups meet on the value of the base. -/
theorem literal_index_iff {ts : List Token} {e key : Expr N} {b v v' : Value N}
    (lit : IndexLiteral engine.parseNumber) (hbase : Derives engine.parseNumber .member ts e)
    (hdepth : exprDepth (.index e key) ≤ maxExpressionDepth)
    (hb : evalFresh engine ctx e = .ok b) (hk : evalFresh engine ctx key = .ok lit.value)
    (hv : evalFresh engine ctx (e.pushSegment lit.segment) = .ok v)
    (hv' : evalFresh engine ctx (.index e key) = .ok v') :
    v = v' ↔ KeysAgree b lit.segment (stringValue engine lit.value) := by
  rcases evalFresh_index hdepth hv' with ⟨b', k, hb', hk', rfl⟩
  rw [hb] at hb'
  rw [hk] at hk'
  cases hb'
  cases hk'
  rw [exprDepth] at hdepth
  rw [evalFresh_pushSegment (ne_path_nil_of_derives hbase) (by omega) hb hv]
  exact member_eq_indexValue_iff b lit.segment (stringValue engine lit.value)

/-- A context with one root. -/
def oneRoot (root : Text) (value : Value Int) : Context Int where
  roots := Dict.ofList [(root, value)]

/-- An object with one field. -/
def branchObject : Value Int := .object [("ref".toList, .string "main".toList)]

/-- A field, and the same field under a key in parentheses. -/
theorem literal_index_iff_of_field : KeysAgree branchObject "ref".toList "ref".toList := by
  have hbase : Derives integerEngine.parseNumber .member [.ident "github".toList]
      (.path ["github".toList]) := .name _
  have hkey : evalFresh integerEngine (oneRoot "github".toList branchObject)
      (.literal (.string "ref".toList)) = .ok (.string "ref".toList) := rfl
  exact (literal_index_iff (.string "ref".toList) hbase (by decide) rfl hkey rfl rfl).mp rfl

/-- A list of two numbers. -/
def numberList : Value Int := .array [.number 5, .number 6]

/-- The first element of a list: spelled out it is an empty projection. -/
theorem literal_index_projects :
    evalFresh integerEngine (oneRoot "list".toList numberList)
        ((Expr.path ["list".toList]).pushSegment "0".toList) = .ok (.array []) ∧
      evalFresh integerEngine (oneRoot "list".toList numberList)
        (.index (.path ["list".toList]) (.literal (.number 0))) = .ok (.number 5) :=
  ⟨rfl, rfl⟩

end Expressions

end Preloop

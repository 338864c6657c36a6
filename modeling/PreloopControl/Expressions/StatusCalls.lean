import PreloopControl.Expressions.Grammar

/-!
# Calls in Tokens and in Trees

A name in front of an opening parenthesis is a call, wherever it stands in tokens that
parse, and a tree calls nothing else. Suffixes that are given up lose no names: what is
dropped of them are dots, brackets and literals.

## Main definitions

* `callsFound`: A name in front of a parenthesis that a test picks.
* `calls`: A call of a name that a test picks.

## Theorems

* `callsFound_parses`: The tokens of a tree name what the tree calls.
* `calls_of_parse`: The same for a whole parse.
-/

namespace Preloop

namespace Expressions

open Fallible

variable {N : Type}

/-! ## Calls -/

/-- A name that `hit` picks stands in front of an opening parenthesis. -/
def callsFound (hit : Text → Bool) : List Token → Bool
  | [] => false
  | .ident w :: ts => (hit w && decide (current ts = .lparen)) || callsFound hit ts
  | _ :: ts => callsFound hit ts

mutual

/-- The tree has a call of a name that `hit` picks. -/
def calls (hit : Text → Bool) : Expr N → Bool
  | .literal _ => false
  | .path _ => false
  | .unaryNot e => calls hit e
  | .memberAccess e _ => calls hit e
  | .index base key => calls hit base || calls hit key
  | .binary _ left right => calls hit left || calls hit right
  | .call name args => hit name || argumentCalls hit args

/-- So has one of the arguments. -/
def argumentCalls (hit : Text → Bool) : List (Expr N) → Bool
  | [] => false
  | e :: es => calls hit e || argumentCalls hit es

end

theorem argumentCalls_append (hit : Text → Bool) (args : List (Expr N)) (e : Expr N) :
    argumentCalls hit (args ++ [e]) = (argumentCalls hit args || calls hit e) := by
  induction args with
  | nil => simp [argumentCalls]
  | cons a args ih => rw [List.cons_append, argumentCalls, argumentCalls, ih, Bool.or_assoc]

theorem calls_push {hit : Text → Bool} {p p' : ParsedExpr N} {s : Text}
    (h : p.pushPathSegment s = .ok p') : calls hit p'.expr = calls hit p.expr := by
  rw [(pushPathSegment_expr h)]
  cases p.expr <;> rfl

/-! ## Tokens that parse -/

section Tokens

variable {num : Text → Option N} {hit : Text → Bool}

theorem callsFound_ident {w : Text} {ts : List Token} (h : current ts ≠ .lparen) :
    callsFound hit (.ident w :: ts) = callsFound hit ts := by
  rw [callsFound, decide_eq_false h, Bool.and_false, Bool.false_or]

/-- An operator is no parenthesis. -/
theorem operator_ne_lparen {level below : Level} {op : Token → Option BinaryOp} {tok : Token}
    {o : BinaryOp} (hlevel : level.operators = some (op, below)) (hop : op tok = some o) :
    tok ≠ .lparen := by
  cases level <;> cases hlevel <;> cases tok <;> cases hop <;>
    exact fun heq => Token.noConfusion heq

/-- Nor is it a name. -/
theorem callsFound_operator {level below : Level} {op : Token → Option BinaryOp} {tok : Token}
    {o : BinaryOp} (hlevel : level.operators = some (op, below)) (hop : op tok = some o)
    (ts : List Token) : callsFound hit (tok :: ts) = callsFound hit ts := by
  cases level <;> cases hlevel <;> cases tok <;> cases hop <;> rfl

/-- A literal key has no call in it. -/
theorem callsFound_literalKey {mid rest : List Token} {s : Text}
    (h : literalKey mid = some (s, rest)) : callsFound hit mid = callsFound hit rest := by
  unfold literalKey at h
  split at h
  · cases h
    rfl
  · cases h
    rfl
  · split at h
    · next hclose =>
        cases h
        exact callsFound_ident (by rw [hclose]; decide)
    · cases h
  · cases h

/-- A segment has no call in it, if no parenthesis follows. -/
theorem callsFound_dotSegment {mid rest : List Token} {s : Text}
    (h : dotSegment mid = some (s, rest)) (hrest : current rest ≠ .lparen) :
    callsFound hit mid = callsFound hit rest := by
  rcases dotSegment_cons h with ⟨t, rfl, rfl | ⟨rfl, -⟩⟩
  · exact callsFound_ident hrest
  · rfl

/-- Tokens that parse name what the tree calls, and what the tokens behind them name. -/
theorem callsFound_parses {level : Level} {ts rest : List Token} {p : ParsedExpr N}
    (h : Parses num level ts p rest) : (level = .opened ∨ current rest ≠ .lparen) →
      callsFound hit ts = (calls hit p.expr || callsFound hit rest) := by
  -- a name counts as a call only if a parenthesis follows, which the level rules out or reads
  induction h with
  | string s ts => exact fun _ => rfl
  | number digits ts => exact fun _ => rfl
  | bool b ts => exact fun _ => rfl
  | null ts => exact fun _ => rfl
  | group h ih => exact fun _ => ih (.inr (by simp [current]))
  | name n ts =>
      rintro (hlevel | hrest)
      -- the level of a name alone is not that of an opened call
      · cases hlevel
      · exact callsFound_ident hrest
  | opened n ts =>
      intro _
      simp [callsFound, calls, argumentCalls, current]
  | next hcall harg ih ih' =>
      intro _
      rw [ih (.inl rfl), ih' (.inr (by simp [current]))]
      simp only [calls, argumentCalls_append, callsFound, Bool.or_assoc]
  | last hcall harg ih ih' =>
      rintro (hlevel | hrest)
      · cases hlevel
      · rw [ih (.inl rfl), ih' (.inr hrest)]
        simp only [calls, argumentCalls_append, Bool.or_assoc]
  | emptyCall n rest =>
      intro _
      simp [callsFound, calls, argumentCalls, current]
  | call hcall hdepth ih =>
      intro _
      exact ih (.inr (by simp [current]))
  | segment h hseg hpush ih =>
      rintro (hlevel | hrest)
      · cases hlevel
      · rw [ih (.inr (by simp [current])), calls_push hpush]
        have hfound : callsFound hit _ = callsFound hit _ := callsFound_dotSegment hseg hrest
        exact congrArg (calls hit _ || ·) hfound
  | key h hkey hpush ih =>
      intro _
      rw [ih (.inr (by simp [current])), calls_push hpush]
      have hfound : callsFound hit _ = callsFound hit _ := callsFound_literalKey hkey
      exact congrArg (calls hit _ || ·) hfound
  | index h hkey hindex ih ih' =>
      intro _
      rw [ih (.inr (by simp [current])), index_expr hindex, calls, Bool.or_assoc]
      exact congrArg _ (ih' (.inr (by simp [current])))
  -- what is dropped calls nothing
  | dropDot h hseg ih =>
      intro _
      exact ih (.inr (by simp [current]))
  | dropKey h hkey ih =>
      intro _
      rw [ih (.inr (by simp [current]))]
      have hfound : callsFound hit _ = callsFound hit _ := callsFound_literalKey hkey
      exact congrArg (calls hit _ || ·) hfound
  | dropBracket h ih =>
      intro _
      exact ih (.inr (by simp [current]))
  | member h ih | primary h ih | not h hdepth ih =>
      rintro (hlevel | hrest)
      · cases hlevel
      · exact ih (.inr hrest)
  | operand hlevel h ih =>
      rintro (rfl | hrest)
      · cases hlevel
      · exact ih (.inr hrest)
  | binary hlevel hl hop hr hp ih ih' =>
      rintro (rfl | hrest)
      · cases hlevel
      -- no operator is a parenthesis
      · rw [ih (.inr (operator_ne_lparen hlevel hop)), callsFound_operator hlevel hop,
          ih' (.inr hrest), binary_expr hp, calls, Bool.or_assoc]

/-- What is left of the tokens is the end of them. -/
theorem Parses.suffix {level : Level} {ts rest : List Token} {p : ParsedExpr N}
    (h : Parses num level ts p rest) : rest <:+ ts := by
  -- each rule takes its tokens off the front
  induction h with
  | string s ts => exact List.suffix_cons _ _
  | number digits ts => exact List.suffix_cons _ _
  | bool b ts => exact List.suffix_cons _ _
  | null ts => exact List.suffix_cons _ _
  | name n ts => exact List.suffix_cons _ _
  | opened n ts => exact ⟨[_, _], rfl⟩
  | emptyCall n rest => exact ⟨[_, _, _], rfl⟩
  | group h ih => exact ((List.suffix_cons _ _).trans ih).trans (List.suffix_cons _ _)
  | next hcall harg ih ih' => exact ((List.suffix_cons _ _).trans ih').trans ih
  | last hcall harg ih ih' => exact ih'.trans ih
  | call hcall hdepth ih => exact (List.suffix_cons _ _).trans ih
  | segment h hseg hpush ih =>
      rcases dotSegment_cons hseg with ⟨t, rfl, -⟩
      exact (List.suffix_cons _ _).trans ((List.suffix_cons _ _).trans ih)
  | key h hkey hpush ih =>
      rcases literalKey_cons hkey with ⟨t, rfl, -⟩
      exact (List.suffix_cons _ _).trans
        ((List.suffix_cons _ _).trans ((List.suffix_cons _ _).trans ih))
  | index h hkey hindex ih ih' =>
      exact (List.suffix_cons _ _).trans (ih'.trans ((List.suffix_cons _ _).trans ih))
  | dropDot h hseg ih => exact (List.suffix_cons _ _).trans ih
  | dropKey h hkey ih =>
      rcases literalKey_cons hkey with ⟨t, rfl, -⟩
      exact (List.suffix_cons _ _).trans ((List.suffix_cons _ _).trans ih)
  | dropBracket h ih => exact (List.suffix_cons _ _).trans ih
  | member h ih => exact ih
  | primary h ih => exact ih
  | not h hdepth ih => exact ih.trans (List.suffix_cons _ _)
  | operand hlevel h ih => exact ih
  | binary hlevel hl hop hr hp ih ih' =>
      exact ih'.trans ((List.suffix_cons _ _).trans ih)

/-- The tokens of a text that parses name exactly what the tree calls. -/
theorem calls_of_parse {body : List Token} {e : Expr N} (hbody : Token.eof ∉ body)
    (h : parseTokens num (body ++ [.eof]) = .ok e) :
    callsFound hit (body ++ [.eof]) = calls hit e := by
  rcases parseTokens_parses h with ⟨p, rest, hparses, hend, rfl⟩
  rw [callsFound_parses hparses (.inr (by rw [hend]; decide))]
  have hnone : callsFound hit rest = false := by
    rcases hparses.suffix with ⟨used, hused⟩
    cases rest with
    | nil => rfl
    | cons t rest =>
        obtain rfl : t = .eof := hend
        rcases List.eq_nil_or_concat rest with rfl | ⟨r, z, rfl⟩
        · rfl
        · -- then the end would be among the other tokens
          have hsplit : (used ++ .eof :: r) ++ [z] = body ++ [.eof] := by
            rw [← hused]
            simp
          refine absurd ?_ hbody
          rw [← (List.append_inj' hsplit rfl).1]
          simp
  rw [hnone, Bool.or_false]

end Tokens

end Expressions

end Preloop

import PreloopControl.Expressions.Syntax
import PreloopControl.Lib.Interleave
import PreloopControl.Lib.Memo

/-!
# The Parse Cache

Parsed expressions are shared by all callers of the process (`parse_cached`,
`lib.rs`). A call looks its text up under the lock, parses it with the lock given
back, and takes the lock again to enter the tree. Any number of calls are on their
way at once, so a text can be missed by two of them and parsed twice.

A call is described by how far it has come. A text that is too long to be kept
never meets the cache.

## Main definitions

* `ParsedExpressionCache`: The trees by text, and the texts in the order they came.
* `ParseCall`: How far a call has come.
* `ParseCall.advance`: One stretch of `parse_cached` under the lock.
* `parseMoves`: Calls are made at any time and advance in any order.
-/

namespace Preloop

namespace Expressions

variable {N : Type}

/-- `PARSED_EXPRESSION_CACHE_CAPACITY`. -/
def parsedExpressionCacheCapacity : Nat := 1024

/-- `MAX_CACHEABLE_EXPRESSION_BYTES`. -/
def maxCacheableExpressionBytes : Nat := 4096

/-- `ParsedExpressionCache`: `entries` and `insertion_order`. -/
abbrev ParsedExpressionCache (N : Type) := Memo Text (Expr N)

/-- A call of `parse_cached`: not begun, past its first look, or back with its result. -/
inductive ParseCall (N : Type)
  | called (input : Text)
  | missed (input : Text)
  | returned (input : Text) (result : Result (Expr N))

namespace ParseCall

/-- The text of a call. -/
def input : ParseCall N → Text
  | called input | missed input | returned input _ => input

/-- One stretch of `parse_cached`. The first ends where the lock is given back after the
    lookup, the second is the parse with the second hold of the lock. -/
def advance (num : Text → Option N) (cache : ParsedExpressionCache N) :
    ParseCall N → ParsedExpressionCache N × ParseCall N
  | called input =>
    if maxCacheableExpressionBytes < Text.utf8Len input then
      (cache, returned input (parseExpression num input))
    else
      match cache.entries.lookup input with
      | some expr => (cache, returned input (.ok expr))
      | none => (cache, missed input)
  | missed input =>
    match parseExpression num input with
    | .error e => (cache, returned input (.error e))
    | .ok expr =>
      let (expr, cache) := cache.adopt parsedExpressionCacheCapacity input expr
      (cache, returned input (.ok expr))
  | returned input result => (cache, returned input result)

end ParseCall

/-- Calls are made at any time and advance in any order. -/
def parseMoves (num : Text → Option N) :
    Interleave.Moves (ParsedExpressionCache N) (ParseCall N) where
  env _ _ := False
  start call := ∃ input, call = .called input
  act _ cache call cache' call' := call.advance num cache = (cache', call')

end Expressions

end Preloop

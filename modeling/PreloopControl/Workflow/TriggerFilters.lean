import PreloopControl.Lib.Globs
import PreloopControl.Workflow.Templates

/-!
# Filters of Triggers

The patterns of a trigger (`trigger.rs`): branches, tags and paths are held against a list of
globs, where the last pattern that matches decides. A glob is matched by its text up to the first
wildcard and then by the set of live positions in the rest, which advances one character at a
time. The positions that are in the set already are marked with the number of the round.

## Main definitions

* `tokenize`, `addState`, `matchWildcards`: The wildcards.
* `globMatch`: A glob.
* `matchesFilter`: A filter.
-/

namespace Preloop

namespace Workflow

open Expressions Globs

variable {N : Type}

/-! ## Globs -/

/-- The item of a character that no other belongs to. -/
def tokenOf (c : Char) : Token Char :=
  if c = '*' then .star else if c = '?' then .anyChar else .literal c

/-- The items of a pattern: stars pair from the left. -/
def tokenize : Text → List (Token Char)
  | [] => []
  | [c] => [tokenOf c]
  | c :: d :: t =>
    if c = '*' ∧ d = '*' then .doubleStar :: tokenize t else tokenOf c :: tokenize (d :: t)

/-- The marks of the positions, and the set. -/
structure LiveSet where
  seen : List Nat
  set : List Nat

/-- `add_state`, to a number of positions. -/
def addState (tokens : List (Token Char)) (generation : Nat) : Nat → Nat → LiveSet → LiveSet
  | 0, _, live => live
  | n + 1, index, live =>
    if live.seen[index]? = some generation then live
    else
      let added := ⟨live.seen.set index generation, live.set ++ [index]⟩
      if (tokens[index]?).any Token.skippable then addState tokens generation n (index + 1) added
      else added

/-- Where a position goes with a character. -/
def targetOf (tokens : List (Token Char)) (state : Nat) (c : Char) : Option Nat :=
  match tokens[state]? with
  | some (.literal expected) => if expected = c then some (state + 1) else none
  | some .anyChar => if c ≠ '/' then some (state + 1) else none
  | some .star => if c ≠ '/' then some state else none
  | some .doubleStar => some state
  | none => none

/-- One position of a round. -/
def advanceOne (tokens : List (Token Char)) (generation : Nat) (c : Char) (live : LiveSet)
    (state : Nat) : LiveSet :=
  match targetOf tokens state c with
  | some target => addState tokens generation (tokens.length + 1) target live
  | none => live

/-- The set of the next round. -/
def advance (tokens : List (Token Char)) (generation : Nat) (c : Char) (active seen : List Nat) :
    LiveSet :=
  active.foldl (advanceOne tokens generation c) ⟨seen, []⟩

/-- The loop over the characters. -/
def matchLoop (tokens : List (Token Char)) : Text → Nat → LiveSet → Bool
  | [], _, live => live.set.contains tokens.length
  | c :: value, generation, live =>
    let next := advance tokens (generation + 1) c live.set live.seen
    if next.set.isEmpty then false else matchLoop tokens value (generation + 1) next

/-- `match_wildcards`. -/
def matchWildcards (pattern value : Text) : Bool :=
  let tokens := tokenize pattern
  let accept := tokens.length
  matchLoop tokens value 1
    (addState tokens 1 (accept + 1) 0 ⟨List.replicate (accept + 1) 0, []⟩)

/-- A character that stands for itself. -/
def isPlain (c : Char) : Bool := c ≠ '*' && c ≠ '?'

/-- `glob_match`. -/
def globMatch (pattern value : Text) : Bool :=
  match value.dropPrefix? (pattern.takeWhile isPlain) with
  | none => false
  | some rest =>
    match pattern.dropWhile isPlain with
    | [] => rest.isEmpty
    | wildcard => matchWildcards wildcard rest

/-! ## Filters -/

/-- The patterns of a filter, if it is one. -/
def patternsOf : Value N → Option (List Text)
  | .string pattern => some [pattern]
  | .array patterns => some (patterns.filterMap asStr)
  | _ => none

/-- A pattern without its negation. -/
def stripNegation (pattern : Text) : Bool × Text :=
  match pattern with
  | [] => (false, [])
  | c :: t => if c = '!' then (true, t) else (false, c :: t)

/-- `matches_filter_with_default`. -/
def matchesFilterWithDefault (filter : Value N) (value : Text) (default : Bool) : Bool :=
  match patternsOf filter with
  | none => false
  | some [] => default
  | some patterns => patterns.foldl
      (fun matched pattern =>
        if globMatch (stripNegation pattern).2 value then !(stripNegation pattern).1 else matched)
      default

/-- `matches_filter`. -/
def matchesFilter (filter : Value N) (value : Text) : Bool :=
  matchesFilterWithDefault filter value false

end Workflow

end Preloop

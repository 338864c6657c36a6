import PreloopControl.Worker.Matchers

/-!
# What Problem Matchers Report

A problem matcher alone in the registry, held against any lines. What it should report is
said on the lines alone: an attempt is a run of lines that follow the patterns from the
first on, none of which was reported itself, and a line is reported where it follows all
the patterns but the last.

The code keeps the attempts in slots, one for each number of patterns followed. An attempt
is always in its slot, so that nothing is missed. A slot is not cleared when the slot before
it is empty, and what was broken off may stay in it. With fewer than four patterns there is
no such slot. With more, what was left behind does no harm until a line matches one of the
patterns the broken attempt had come to, and is then taken for its next line.

## Main definitions

* `captured`, `stepsFrom`: What the patterns capture along lines.
* `alongSteps`, `completed`: The first value of each property.
* `Unreported`, `Attempt`, `Ready`, `Completes`: The runs of lines that are reported.
* `Broken`, `NoneTakenUp`: Attempts broken off, and that no line takes one up.
* `matchAt`: What the code reports.

## Theorems

* `tryPatterns_below`, `matchOne_match`, `matchOne_miss`: What one line makes of the slots.
* `Slots.miss`, `Slots.hit`: Every attempt is in its slot after one more line.
* `Grounded.miss`, `Grounded.hit`: What else is in a slot was left behind.
* `slots_after`: The slots along a run.
* `noneTakenUp_of_few`: With fewer than four patterns no line takes up anything.
* `matches_exact`: What is reported, and with which fields.
-/

namespace Preloop

namespace Worker

namespace Matchers

variable {R : Type}

/-! ## What lines capture -/

/-- A pattern and what it captured on a line. -/
abbrev Step := MatcherPattern × Captures

/-- The pattern at an index, held against a line. -/
def captured (engine : RegexEngine R) (patterns : List MatcherPattern) (i : Nat) (line : Text) :
    Option Step := do
  let pattern ← patterns[i]?
  let re ← (engine.compile pattern.regexp).toOption
  let captures ← engine.captures re (matchText line)
  return (pattern, captures)

/-- Consecutive lines held against consecutive patterns. -/
def stepsFrom (engine : RegexEngine R) (patterns : List MatcherPattern) :
    Nat → List Text → Option (List Step)
  | _, [] => some []
  | i, line :: lines => do
    let step ← captured engine patterns i line
    let steps ← stepsFrom engine patterns (i + 1) lines
    return step :: steps

/-- The first value a property has along the steps. -/
def firstValue (value : MatcherPattern → Captures → Option Text) (steps : List Step) :
    Option Text :=
  steps.findSome? fun step => value step.1 step.2

/-- The first value of each property along the steps. -/
def alongSteps (steps : List Step) : PatternMatch where
  file := firstValue (fun pattern captures => getGroupValue captures pattern.file) steps
  line := firstValue (fun pattern captures => getGroupValue captures pattern.line) steps
  column := firstValue (fun pattern captures => getGroupValue captures pattern.column) steps
  endLine := firstValue (fun pattern captures => getGroupValue captures pattern.endLine) steps
  endColumn := firstValue (fun pattern captures => getGroupValue captures pattern.endColumn) steps
  severity := firstValue MatcherPattern.severityOf steps
  code := firstValue (fun pattern captures => getGroupValue captures pattern.code) steps
  message := firstValue (fun pattern captures => getGroupValue captures pattern.message) steps
  fromPath := firstValue (fun pattern captures => getGroupValue captures pattern.fromPath) steps

/-- The same with the defaults of a reported match. -/
def completed (fromPath : Text) (steps : List Step) : PatternMatch :=
  { alongSteps steps with
    severity := orDefault (alongSteps steps).severity "error".toList
    fromPath := orDefault (alongSteps steps).fromPath fromPath }

@[simp] theorem orDefault_nil (value : Option Text) : orDefault value [] = value := by
  unfold orDefault
  rw [if_neg]
  exact fun h => h.2 rfl

theorem firstValue_concat (value : MatcherPattern → Captures → Option Text) (steps : List Step)
    (step : Step) :
    firstValue value (steps ++ [step]) = (firstValue value steps).or (value step.1 step.2) := by
  unfold firstValue
  rw [List.findSome?_append]
  cases h : value step.1 step.2 <;> simp [h]

theorem firstValue_single (value : MatcherPattern → Captures → Option Text) (step : Step) :
    firstValue value [step] = value step.1 step.2 := by
  rw [← List.nil_append [step], firstValue_concat]
  rfl

theorem new_first (step : Step) : PatternMatch.new none step.1 step.2 [] [] = alongSteps
    [step] := by
  simp [PatternMatch.new, alongSteps, firstValue_single]

theorem new_next (steps : List Step) (step : Step) :
    PatternMatch.new (some (alongSteps steps)) step.1 step.2 [] [] =
      alongSteps (steps ++ [step]) := by
  simp [PatternMatch.new, alongSteps, firstValue_concat]

theorem new_last (fromPath : Text) (steps : List Step) (step : Step) :
    PatternMatch.new (some (alongSteps steps)) step.1 step.2 "error".toList fromPath =
      completed fromPath (steps ++ [step]) := by
  simp [PatternMatch.new, completed, alongSteps, firstValue_concat]

section Steps

variable {engine : RegexEngine R} {patterns : List MatcherPattern}

theorem length_stepsFrom {lines : List Text} {i : Nat} {steps : List Step}
    (h : stepsFrom engine patterns i lines = some steps) : steps.length = lines.length := by
  induction lines generalizing i steps with
  | nil =>
      rw [← Option.some.inj h]
      rfl
  | cons line lines ih =>
      rcases Option.bind_eq_some_iff.mp h with ⟨step, -, h⟩
      rcases Option.bind_eq_some_iff.mp h with ⟨rest, hrest, h⟩
      rw [← Option.some.inj h, List.length_cons, List.length_cons, ih hrest]

/-- One more line is held against the next pattern. -/
theorem stepsFrom_concat (line : Text) {lines : List Text} {i : Nat} {steps : List Step} :
    stepsFrom engine patterns i (lines ++ [line]) = some steps ↔
      ∃ init last, stepsFrom engine patterns i lines = some init ∧
        captured engine patterns (i + lines.length) line = some last ∧ steps = init ++ [last] := by
  induction lines generalizing i steps with
  | nil =>
      cases hstep : captured engine patterns i line with
      | none => simp [stepsFrom, hstep]
      | some step => simp [stepsFrom, hstep, eq_comm]
  | cons first lines ih =>
      -- the line is held against the pattern behind all the earlier ones
      have hindex : i + (first :: lines).length = i + 1 + lines.length := by
        rw [List.length_cons]
        omega
      rw [hindex]
      cases hstep : captured engine patterns i first with
      | none => simp [stepsFrom, hstep]
      | some step =>
          constructor
          · intro h
            simp only [List.cons_append, stepsFrom, hstep, Option.bind_eq_bind, Option.bind_some,
              Option.bind_eq_some_iff] at h
            rcases h with ⟨rest, hrest, h⟩
            rcases ih.mp hrest with ⟨init, last, hinit, hlast, rfl⟩
            exact ⟨step :: init, last, by simp [stepsFrom, hstep, hinit], hlast,
              (Option.some.inj h).symm⟩
          · rintro ⟨init, last, hinit, hlast, rfl⟩
            simp only [stepsFrom, hstep, Option.bind_eq_bind, Option.bind_some,
              Option.bind_eq_some_iff] at hinit
            rcases hinit with ⟨rest, hrest, h⟩
            have hall := ih.mpr ⟨rest, last, hrest, hlast, rfl⟩
            simp [List.cons_append, stepsFrom, hstep, hall, ← Option.some.inj h]

end Steps

/-! ## One line -/

/-- The running match in a slot. -/
def slot (state : List (Option PatternMatch)) (i : Nat) : Option PatternMatch := (state[i]?).join

/-- A matcher as it is registered, whatever its slots hold. -/
structure Registered (engine : RegexEngine R) (patterns : List MatcherPattern) (fromPath : Text)
    (matcher : ProblemMatcher R) : Prop where
  several : 2 ≤ patterns.length
  compiles : ∀ pattern ∈ patterns, ∃ re, engine.compile pattern.regexp = .ok re
  patternsEq : matcher.patterns = patterns
  fromPathEq : matcher.fromPath = fromPath
  regexes : ∀ i : Nat, matcher.compiledRegexes[i]? =
    patterns[i]?.bind fun pattern : MatcherPattern => (engine.compile pattern.regexp).toOption
  state : matcher.state.length + 1 = patterns.length

/-- What a slot below the last pattern holds after a line. -/
def moved (engine : RegexEngine R) (patterns : List MatcherPattern) (line : Text)
    (state : List (Option PatternMatch)) : Nat → Option PatternMatch
  | 0 => (captured engine patterns 0 line).map fun step =>
      PatternMatch.new none step.1 step.2 [] []
  | i + 1 =>
    match slot state i with
    | some running => (captured engine patterns (i + 1) line).map fun step =>
        PatternMatch.new (some running) step.1 step.2 [] []
    | none => slot state (i + 1)

theorem slot_of_lt {state : List (Option PatternMatch)} {i : Nat} (h : i < state.length) :
    state[i]? = some (slot state i) := by
  rw [slot, List.getElem?_eq_getElem h]
  rfl

@[simp] theorem slot_set_self {state : List (Option PatternMatch)} {i : Nat}
    (h : i < state.length) (value : Option PatternMatch) : slot (state.set i value) i = value := by
  rw [slot, List.getElem?_set_self h]
  rfl

@[simp] theorem slot_set_ne {state : List (Option PatternMatch)} {i j : Nat} (h : i ≠ j)
    (value : Option PatternMatch) : slot (state.set i value) j = slot state j := by
  rw [slot, List.getElem?_set_ne h, slot]

theorem set_slot {state : List (Option PatternMatch)} {i : Nat} (h : i < state.length) :
    state.set i (slot state i) = state := by
  have hvalue : slot state i = state[i] := Option.some.inj ((slot_of_lt h).symm.trans
    (List.getElem?_eq_getElem h))
  rw [hvalue, List.set_getElem_self]

section Line

variable {engine : RegexEngine R} {patterns : List MatcherPattern} {fromPath line : Text}
  {matcher : ProblemMatcher R}

theorem Registered.setState (hm : Registered engine patterns fromPath matcher)
    {state : List (Option PatternMatch)} (hstate : state.length = matcher.state.length) :
    Registered engine patterns fromPath { matcher with state := state } :=
  { hm with state := by rw [← hm.state, ← hstate] }

/-- What is tried at an index of the patterns. -/
theorem Registered.pattern (hm : Registered engine patterns fromPath matcher) (line : Text)
    {i : Nat} (hi : i < patterns.length) : ∃ pattern re, matcher.patterns[i]? = some pattern ∧
      matcher.compiledRegexes[i]? = some re ∧
      captured engine patterns i line =
        (engine.captures re (matchText line)).map fun captures => (pattern, captures) := by
  have hpattern : patterns[i]? = some patterns[i] := List.getElem?_eq_getElem hi
  rcases hm.compiles _ (List.getElem_mem hi) with ⟨re, hre⟩
  refine ⟨patterns[i], re, by rw [hm.patternsEq, hpattern], ?_, ?_⟩
  · rw [hm.regexes, hpattern, Option.bind_some, hre]
    rfl
  · cases hcaptures : engine.captures re (matchText line) <;>
      simp [captured, hpattern, hre, hcaptures, Except.toOption]

/-- Below the last pattern one slot is written, from the slot before it. -/
theorem tryPatterns_succ (hm : Registered engine patterns fromPath matcher) {i : Nat}
    (hi : i + 1 < patterns.length) :
    tryPatterns engine (matchText line) (i + 1) matcher =
      tryPatterns engine (matchText line) i
        { matcher with state :=
          matcher.state.set i (moved engine patterns line matcher.state i) } := by
  rcases hm.pattern line (Nat.lt_of_succ_lt hi) with ⟨pattern, re, hpattern, hre, hstep⟩
  have hlast : ¬ i = matcher.patterns.length - 1 := by
    rw [hm.patternsEq]
    omega
  have hlen : i < matcher.state.length := by
    have := hm.state
    omega
  cases i with
  | zero =>
      cases hcaptures : engine.captures re (matchText line) <;>
        simp [tryPatterns, moved, hpattern, hre, hstep, hcaptures, hlast, hlen,
          ProblemMatcher.setState]
  | succ i =>
      have hrunning : matcher.state[i]? = some (slot matcher.state i) :=
        slot_of_lt (Nat.lt_of_succ_lt hlen)
      cases hslot : slot matcher.state i with
      | none =>
          -- nothing to take on, and the slot keeps what it has
          have hkeep : matcher.state.set (i + 1)
            (moved engine patterns line matcher.state (i + 1)) =
              matcher.state := by
            rw [moved, hslot]
            exact set_slot hlen
          rw [hkeep]
          simp [tryPatterns, hrunning, hslot]
      | some running =>
          cases hcaptures : engine.captures re (matchText line) <;>
            simp [tryPatterns, moved, hpattern, hre, hstep, hcaptures, hlast, hlen, hrunning, hslot,
              ProblemMatcher.setState]

/-- The patterns below the last write each slot from the slots before the line. -/
theorem tryPatterns_below (line : Text) {i : Nat} (hi : i < patterns.length) :
    ∀ {matcher : ProblemMatcher R}, Registered engine patterns fromPath matcher →
      ∃ state, tryPatterns engine (matchText line) i matcher =
          some ({ matcher with state := state }, none) ∧
        state.length = matcher.state.length ∧
        ∀ j, slot state j =
          if j < i then moved engine patterns line matcher.state j else slot matcher.state j := by
  induction i with
  | zero => exact fun {matcher} _ => ⟨matcher.state, rfl, rfl, fun j => by simp⟩
  | succ i ih =>
      intro matcher hm
      have hset := hm.setState (show (matcher.state.set i
        (moved engine patterns line matcher.state i)).length = matcher.state.length from
          List.length_set)
      rcases ih (Nat.lt_of_succ_lt hi) hset with ⟨state, hrun, hlen, hslots⟩
      -- the pattern at `i` has written its slot, and those below it are tried on the new state
      refine ⟨state, (tryPatterns_succ hm hi).trans hrun, by rw [hlen, List.length_set],
        fun j => ?_⟩
      have hi' : i < matcher.state.length := by
        have := hm.state
        omega
      rw [hslots]
      rcases Nat.lt_trichotomy j i with hj | rfl | hj
      · -- below the index nothing has been written yet
        rw [if_pos hj, if_pos (by omega)]
        cases j with
        | zero => rfl
        | succ j =>
            rw [moved, moved, slot_set_ne (by omega), slot_set_ne (by omega)]
      -- the slot is the one just written
      · rw [if_neg (by omega), if_pos (by omega), slot_set_self hi']
      -- above the index the state is as it was
      · rw [if_neg (by omega), if_neg (by omega), slot_set_ne (by omega)]

theorem matchOne_several (hm : Registered engine patterns fromPath matcher) :
    matchOne engine (matchText line) matcher =
      tryPatterns engine (matchText line) patterns.length matcher := by
  have hlen := hm.several
  rw [← hm.patternsEq] at hlen ⊢
  unfold matchOne
  split
  · rename_i h
    rw [h] at hlen
    simp at hlen
  · rename_i h
    rw [h] at hlen
    simp at hlen
  · rename_i h
    rfl

/-- The last slot is filled and the last pattern matches. -/
theorem matchOne_match (hm : Registered engine patterns fromPath matcher) {running : PatternMatch}
    {last : Step} (hrunning : slot matcher.state (patterns.length - 2) = some running)
    (hlast : captured engine patterns (patterns.length - 1) line = some last) :
    ∃ state, matchOne engine (matchText line) matcher =
        some ({ matcher with state := state },
          some (PatternMatch.new (some running) last.1 last.2 "error".toList fromPath)) ∧
      state.length = matcher.state.length ∧
      ∀ j, slot state j =
        if last.1.isLoop = true ∧ j = patterns.length - 2 then some running else none := by
  have hseveral := hm.several
  have hstate := hm.state
  rw [matchOne_several hm]
  -- there is a pattern before the last one, so the last one looks at a slot
  rcases Nat.exists_eq_add_of_le' hseveral with ⟨n, hn⟩
  rcases hm.pattern line (i := n + 1) (by omega) with ⟨pattern, re, hpattern, hre, hstep⟩
  have hindex : patterns.length - 2 = n ∧ patterns.length - 1 = n + 1 := by omega
  rw [hindex.1] at hrunning ⊢
  rw [hindex.2, hstep] at hlast
  rcases Option.map_eq_some_iff.mp hlast with ⟨captures, hcaptures, rfl⟩
  have hget : matcher.state[n]? = some (some running) := by
    rw [slot_of_lt (by omega), hrunning]
  have hidx : n + 1 = matcher.patterns.length - 1 := by
    rw [hm.patternsEq]
    omega
  have hempty : emptyState matcher.patterns.length = List.replicate (n + 1) none := by
    rw [hm.patternsEq, hn, emptyState, if_pos (by omega)]
    rfl
  have hnone : ∀ j, slot (List.replicate (n + 1) none) j = none := by
    intro j
    rw [slot, List.getElem?_replicate]
    split <;> rfl
  -- a pattern that loops keeps the attempt it completed, every other empties the slots
  by_cases hloop : pattern.isLoop = true
  · refine ⟨(List.replicate (n + 1) none).set n (some running), ?_, ?_, fun j => ?_⟩
    · rw [hn]
      simp [tryPatterns, hget, hpattern, hre, hcaptures, ← hidx, hloop, hm.fromPathEq,
        ProblemMatcher.reset, ProblemMatcher.setState, hempty]
    · rw [List.length_set, List.length_replicate]
      omega
    · by_cases hj : j = n
      · rw [if_pos ⟨hloop, hj⟩, hj, slot_set_self (by simp)]
      · rw [if_neg (fun h => hj h.2), slot_set_ne (Ne.symm hj), hnone]
  · refine ⟨List.replicate (n + 1) none, ?_, ?_, fun j => ?_⟩
    · rw [hn]
      simp [tryPatterns, hget, hpattern, hre, hcaptures, ← hidx, hloop, hm.fromPathEq,
        ProblemMatcher.reset, hempty]
    · rw [List.length_replicate]
      omega
    · rw [if_neg (fun h => hloop h.1), hnone]

/-- The last slot is empty or the last pattern does not match. -/
theorem matchOne_miss (hm : Registered engine patterns fromPath matcher)
    (hmiss : slot matcher.state (patterns.length - 2) = none ∨
      captured engine patterns (patterns.length - 1) line = none) :
    ∃ state, matchOne engine (matchText line) matcher =
        some ({ matcher with state := state }, none) ∧
      state.length = matcher.state.length ∧
      ∀ j < patterns.length - 1, slot state j =
        moved engine patterns line (matcher.state.set (patterns.length - 2) none) j := by
  have hseveral := hm.several
  have hstate := hm.state
  rcases Nat.exists_eq_add_of_le' hseveral with ⟨n, hn⟩
  have hindex : patterns.length - 2 = n ∧ patterns.length - 1 = n + 1 := by omega
  rw [hindex.1, hindex.2] at hmiss
  rw [hindex.1, hindex.2, matchOne_several hm]
  have hidx : n + 1 = matcher.patterns.length - 1 := by
    rw [hm.patternsEq]
    omega
  have hget : matcher.state[n]? = some (slot matcher.state n) := slot_of_lt (by omega)
  -- either way the last slot ends up empty
  have hlast : tryPatterns engine (matchText line) patterns.length matcher =
      tryPatterns engine (matchText line) (n + 1)
        { matcher with state := matcher.state.set n none } := by
    rw [hn]
    cases hslot : slot matcher.state n with
    | none =>
        have hkeep : matcher.state.set n none = matcher.state := by
          rw [← hslot]
          exact set_slot (by omega)
        rw [hkeep]
        simp [tryPatterns, hget, hslot]
    | some running =>
        rcases hm.pattern line (i := n + 1) (by omega) with
          ⟨pattern, re, hpattern, hre, hstep⟩
        have hcaptures : engine.captures re (matchText line) = none := by
          rcases hmiss with hmiss | hmiss
          · rw [hslot] at hmiss
            cases hmiss
          · rw [hstep] at hmiss
            exact Option.map_eq_none_iff.mp hmiss
        have hset : matcher.setState n none =
            some { matcher with state := matcher.state.set n none } := by
          rw [ProblemMatcher.setState, if_pos (by omega)]
        conv_lhs => rw [tryPatterns]
        simp [hget, hslot, hpattern, hre, hcaptures, ← hidx, hset]
  rcases tryPatterns_below line (i := n + 1) (by omega)
    (hm.setState (show (matcher.state.set n none).length = matcher.state.length from
      List.length_set)) with
    ⟨state, hrun, hlen', hslots⟩
  refine ⟨state, hlast.trans hrun, by rw [hlen', List.length_set], fun j hj => ?_⟩
  rw [hslots, if_pos hj]

end Line

/-! ## What should be reported -/

/-- No line of a run was itself reported. -/
def Unreported (reported : List Text → Text → Option PatternMatch) (before run : List Text) :
    Prop :=
  ∀ pre line post, run = pre ++ line :: post → reported (before ++ pre) line = none

/-- The last lines follow the first patterns. -/
def Attempt (engine : RegexEngine R) (patterns : List MatcherPattern)
    (reported : List Text → Text → Option PatternMatch) (lines : List Text) (steps : List Step) :
    Prop :=
  ∃ before run, lines = before ++ run ∧ Unreported reported before run ∧
    stepsFrom engine patterns 0 run = some steps

/-- The last lines follow all the patterns but the last, or did so before a run of lines
    that the last pattern loops on. -/
def Ready (engine : RegexEngine R) (patterns : List MatcherPattern)
    (reported : List Text → Text → Option PatternMatch) (lines : List Text) (steps : List Step) :
    Prop :=
  ∃ before run loop, lines = before ++ run ++ loop ∧ Unreported reported before run ∧
    stepsFrom engine patterns 0 run = some steps ∧ run.length + 1 = patterns.length ∧
    ∀ line ∈ loop, ∃ last, captured engine patterns run.length line = some last ∧
      last.1.isLoop = true

/-- The next line completes the match. -/
def Completes (engine : RegexEngine R) (patterns : List MatcherPattern) (fromPath : Text)
    (reported : List Text → Text → Option PatternMatch) (lines : List Text) (line : Text)
    (pm : PatternMatch) : Prop :=
  ∃ steps last, Ready engine patterns reported lines steps ∧
    captured engine patterns (patterns.length - 1) line = some last ∧
    pm = completed fromPath (steps ++ [last])

/-- An attempt was broken off after a number of patterns, and nothing reported since. -/
def Broken (engine : RegexEngine R) (patterns : List MatcherPattern)
    (reported : List Text → Text → Option PatternMatch) (lines : List Text) (count : Nat) : Prop :=
  ∃ before run line after, lines = before ++ (run ++ line :: after) ∧
    Unreported reported before (run ++ line :: after) ∧ run.length = count ∧
    (stepsFrom engine patterns 0 run).isSome ∧ captured engine patterns count line = none

/-- No line takes up an attempt that was broken off: a pattern from the third to the one
    before the last, up to the one the attempt broke off at, matches only where an attempt
    of its own has come to it. -/
def NoneTakenUp (engine : RegexEngine R) (patterns : List MatcherPattern)
    (reported : List Text → Text → Option PatternMatch) (lines : List Text) : Prop :=
  ∀ before line after count d, lines = before ++ line :: after →
    Broken engine patterns reported (before ++ [line]) count →
    2 ≤ d → d ≤ count → d + 1 < patterns.length → (captured engine patterns d line).isSome →
    ∃ steps, Attempt engine patterns reported before steps ∧ steps.length = d

section Attempts

variable {engine : RegexEngine R} {patterns : List MatcherPattern}
  {reported : List Text → Text → Option PatternMatch} {lines : List Text} {line : Text}
  {steps : List Step}

theorem Unreported.concat {before run : List Text} (h : Unreported reported before run)
    (hnone : reported (before ++ run) line = none) : Unreported reported before
    (run ++ [line]) := by
  intro pre d post hsplit
  rcases List.eq_nil_or_concat post with rfl | ⟨post, e, rfl⟩
  · rcases List.append_inj' hsplit rfl with ⟨rfl, hd⟩
    rcases List.cons.inj hd with ⟨rfl, -⟩
    exact hnone
  · rw [List.concat_eq_append, ← List.cons_append, ← List.append_assoc] at hsplit
    exact h pre d post (List.append_inj' hsplit rfl).1

theorem attempt_nil (lines : List Text) : Attempt engine patterns reported lines [] := by
  refine ⟨lines, [], (List.append_nil lines).symm, fun pre line post h => ?_, rfl⟩
  simp at h

/-- An attempt goes on with one more line, or has just begun. -/
theorem attempt_concat : Attempt engine patterns reported (lines ++ [line]) steps ↔
    steps = [] ∨ reported lines line = none ∧ ∃ init last,
      Attempt engine patterns reported lines init ∧
      captured engine patterns init.length line = some last ∧ steps = init ++ [last] := by
  constructor
  · rintro ⟨before, run, hlines, hquiet, hsteps⟩
    rcases List.eq_nil_or_concat run with rfl | ⟨run, l, rfl⟩
    · exact .inl (Option.some.inj hsteps).symm
    · rw [List.concat_eq_append] at hlines hquiet hsteps
      rw [← List.append_assoc] at hlines
      rcases List.append_inj' hlines rfl with ⟨rfl, hl⟩
      rcases List.cons.inj hl with ⟨rfl, -⟩
      rcases (stepsFrom_concat line).mp hsteps with ⟨init, last, hinit, hlast, rfl⟩
      rw [Nat.zero_add, ← length_stepsFrom hinit] at hlast
      refine .inr ⟨hquiet run line [] rfl, init, last, ⟨before, run, rfl, ?_, hinit⟩, hlast, rfl⟩
      -- the earlier lines of the run
      rintro pre d post rfl
      exact hquiet pre d (post ++ [line]) (by simp)
  · rintro (rfl | ⟨hnone, init, last, ⟨before, run, rfl, hquiet, hinit⟩, hlast, rfl⟩)
    · exact attempt_nil _
    · refine ⟨before, run ++ [line], List.append_assoc .., hquiet.concat hnone, ?_⟩
      refine (stepsFrom_concat line).mpr ⟨init, last, hinit, ?_, rfl⟩
      rw [Nat.zero_add, ← length_stepsFrom hinit]
      exact hlast

theorem ready_of_attempt (h : Attempt engine patterns reported lines steps)
    (hlen : steps.length + 1 = patterns.length) : Ready engine patterns reported lines steps := by
  rcases h with ⟨before, run, rfl, hquiet, hsteps⟩
  refine ⟨before, run, [], by simp, hquiet, hsteps, ?_, by simp⟩
  rw [← length_stepsFrom hsteps, hlen]

/-- The lines are ready for the last pattern anew, or it has looped. -/
theorem ready_concat (h : Ready engine patterns reported (lines ++ [line]) steps) :
    (Attempt engine patterns reported (lines ++ [line]) steps ∧
        steps.length + 1 = patterns.length) ∨
      Ready engine patterns reported lines steps ∧
        ∃ last, captured engine patterns (patterns.length - 1) line = some last ∧
          last.1.isLoop = true := by
  rcases h with ⟨before, run, loop, hlines, hquiet, hsteps, hlen, hloop⟩
  rcases List.eq_nil_or_concat loop with rfl | ⟨loop, l, rfl⟩
  · rw [List.append_nil] at hlines
    exact .inl ⟨⟨before, run, hlines, hquiet, hsteps⟩, by rw [length_stepsFrom hsteps, hlen]⟩
  · rw [List.concat_eq_append] at hlines hloop
    rw [← List.append_assoc] at hlines
    rcases List.append_inj' hlines rfl with ⟨rfl, hl⟩
    rcases List.cons.inj hl with ⟨rfl, -⟩
    refine .inr ⟨⟨before, run, loop, rfl, hquiet, hsteps, hlen, fun d hd => ?_⟩, ?_⟩
    · exact hloop d (List.mem_append_left _ hd)
    · have hlast := hloop line (List.mem_append_right _ (List.mem_singleton_self line))
      rwa [show run.length = patterns.length - 1 by omega] at hlast

theorem ready_loop (h : Ready engine patterns reported lines steps) {last : Step}
    (hlast : captured engine patterns (patterns.length - 1) line = some last)
    (hloop : last.1.isLoop = true) : Ready engine patterns reported (lines ++ [line]) steps := by
  rcases h with ⟨before, run, loop, rfl, hquiet, hsteps, hlen, hall⟩
  refine ⟨before, run, loop ++ [line], by simp, hquiet, hsteps, hlen, fun d hd => ?_⟩
  rcases List.mem_append.mp hd with hd | hd
  · exact hall d hd
  · rw [List.mem_singleton.mp hd]
    exact ⟨last, by rw [show run.length = patterns.length - 1 by omega, hlast], hloop⟩

theorem Broken.concat {count : Nat} (h : Broken engine patterns reported lines count)
    (hnone : reported lines line = none) :
    Broken engine patterns reported (lines ++ [line]) count := by
  rcases h with ⟨before, run, d, after, rfl, hquiet, hlen, hsteps, hbreak⟩
  exact ⟨before, run, d, after ++ [line], by simp, by simpa using hquiet.concat hnone, hlen, hsteps,
    hbreak⟩

/-- The next line takes an attempt on or breaks it off. -/
theorem Attempt.next (h : Attempt engine patterns reported lines steps)
    (hnone : reported lines line = none) :
    (∃ last, captured engine patterns steps.length line = some last ∧
        Attempt engine patterns reported (lines ++ [line]) (steps ++ [last])) ∨
      Broken engine patterns reported (lines ++ [line]) steps.length := by
  cases hlast : captured engine patterns steps.length line with
  | some last =>
      exact .inl ⟨last, rfl, attempt_concat.mpr (.inr ⟨hnone, steps, last, h, hlast, rfl⟩)⟩
  | none =>
      rcases h with ⟨before, run, rfl, hquiet, hsteps⟩
      exact .inr ⟨before, run, line, [], by simp, hquiet.concat hnone,
        (length_stepsFrom hsteps).symm,
        by rw [hsteps]; rfl, hlast⟩

theorem NoneTakenUp.init (h : NoneTakenUp engine patterns reported (lines ++ [line])) :
    NoneTakenUp engine patterns reported lines := by
  rintro before d after count i rfl
  exact h before d (after ++ [line]) count i (by simp)

/-- With fewer than four patterns there is none between the second and the last. -/
theorem noneTakenUp_of_few (hfew : patterns.length < 4) :
    NoneTakenUp engine patterns reported lines := by
  intro before line after count d _ _ htwo _ hlast _
  exact absurd hlast (by omega)

/-! ## Slots along a run -/

/-- Every attempt is in its slot. -/
structure Slots (engine : RegexEngine R) (patterns : List MatcherPattern)
    (reported : List Text → Text → Option PatternMatch) (lines : List Text)
    (state : List (Option PatternMatch)) : Prop where
  attempt : ∀ {steps} d, Attempt engine patterns reported lines steps → steps.length = d + 1 →
    d + 1 < patterns.length → slot state d = some (alongSteps steps)
  ready : ∀ {steps}, Ready engine patterns reported lines steps →
    slot state (patterns.length - 2) = some (alongSteps steps)

/-- What is in a slot is an attempt. Below the last slot it may have been left behind by an
    attempt that is still ahead of it, or that was broken off. -/
structure Grounded (engine : RegexEngine R) (patterns : List MatcherPattern)
    (reported : List Text → Text → Option PatternMatch) (lines : List Text)
    (state : List (Option PatternMatch)) : Prop where
  last : ∀ {running}, slot state (patterns.length - 2) = some running →
    ∃ steps, Ready engine patterns reported lines steps ∧ running = alongSteps steps
  below : ∀ {running} d, slot state d = some running → d + 2 < patterns.length →
    (∃ steps, Attempt engine patterns reported lines steps ∧ steps.length = d + 1 ∧
      running = alongSteps steps) ∨
    1 ≤ d ∧ (∃ steps, Attempt engine patterns reported lines steps ∧ d + 1 < steps.length ∧
      steps.length < patterns.length) ∨
    1 ≤ d ∧ ∃ count, Broken engine patterns reported lines count ∧ d + 1 ≤ count

theorem moved_attempt {state : List (Option PatternMatch)} {init : List Step} {last : Step}
    {d : Nat} (hlen : init.length = d)
    (hinit : ∀ e, d = e + 1 → slot state e = some (alongSteps init))
    (hlast : captured engine patterns d line = some last) :
    moved engine patterns line state d = some (alongSteps (init ++ [last])) := by
  cases d with
  | zero =>
      rw [List.length_eq_zero_iff.mp hlen, moved, hlast, List.nil_append, ← new_first]
      rfl
  | succ d =>
      rw [moved, hinit d rfl, hlast, ← new_next]
      rfl

theorem moved_set {state : List (Option PatternMatch)} {n d : Nat} (hd : d < n)
    (value : Option PatternMatch) :
    moved engine patterns line (state.set n value) d = moved engine patterns line state d := by
  cases d with
  | zero => rfl
  | succ d => rw [moved, moved, slot_set_ne (by omega), slot_set_ne (by omega)]

section Step

variable {state state' : List (Option PatternMatch)}

/-- A line that is not reported: every slot is written from the slot before it. -/
theorem Slots.miss (h : Slots engine patterns reported lines state) (htwo : 2 ≤ patterns.length)
    (hmiss : slot state (patterns.length - 2) = none ∨
      captured engine patterns (patterns.length - 1) line = none)
    (hslots : ∀ j < patterns.length - 1, slot state' j =
      moved engine patterns line (state.set (patterns.length - 2) none) j) :
    Slots engine patterns reported (lines ++ [line]) state' := by
  have hattempt : ∀ {steps} d, Attempt engine patterns reported (lines ++ [line]) steps →
      steps.length = d + 1 → d + 1 < patterns.length → slot state' d = some (alongSteps steps) := by
    intro steps d hsteps hlen hd
    rcases attempt_concat.mp hsteps with rfl | ⟨-, init, last, hinit, hlast, rfl⟩
    · simp at hlen
    · have hinitlen : init.length = d := by simpa using hlen
      rw [hslots d (by omega)]
      rw [hinitlen] at hlast
      refine moved_attempt hinitlen (fun e he => ?_) hlast
      rw [slot_set_ne (by omega)]
      exact h.attempt e hinit (by omega) (by omega)
  refine ⟨hattempt, fun {steps} hready => ?_⟩
  rcases ready_concat hready with ⟨hsteps, hlen⟩ | ⟨hready, last, hlast, -⟩
  · exact hattempt _ hsteps (by omega) (by omega)
  · -- the last slot was filled, so the line would have been reported
    rcases hmiss with hmiss | hmiss
    · rw [h.ready hready] at hmiss
      cases hmiss
    · rw [hlast] at hmiss
      cases hmiss

/-- A reported line: all slots are cleared, but for the last where the pattern loops. -/
theorem Slots.hit (h : Slots engine patterns reported lines state) (htwo : 2 ≤ patterns.length)
    {pm running : PatternMatch} {last : Step} (hsome : reported lines line = some pm)
    (hrunning : slot state (patterns.length - 2) = some running)
    (hlast : captured engine patterns (patterns.length - 1) line = some last)
    (hslots : ∀ j, slot state' j =
      if last.1.isLoop = true ∧ j = patterns.length - 2 then some running else none) :
    Slots engine patterns reported (lines ++ [line]) state' := by
  -- a reported line is part of no attempt
  have hnot : ∀ {steps}, Attempt engine patterns reported (lines ++ [line]) steps → steps = [] := by
    intro steps hsteps
    rcases attempt_concat.mp hsteps with rfl | ⟨hnone, -⟩
    · rfl
    · rw [hsome] at hnone
      cases hnone
  refine ⟨fun {steps} d hsteps hlen _ => ?_, fun {steps} hready => ?_⟩
  · rw [hnot hsteps] at hlen
    cases hlen
  · rcases ready_concat hready with ⟨hsteps, hlen⟩ | ⟨hready, last', hlast', hloop⟩
    · rw [hnot hsteps, List.length_nil] at hlen
      omega
    · rw [hlast] at hlast'
      rw [hslots, if_pos ⟨Option.some.inj hlast' ▸ hloop, rfl⟩, ← hrunning, h.ready hready]

/-- What was left behind by an attempt stays behind it or is behind one broken off, and is
    taken up by no line. -/
theorem Grounded.miss (h : Grounded engine patterns reported lines state)
    (hs : Slots engine patterns reported lines state)
    (hstate : state.length + 1 = patterns.length) (htwo : 2 ≤ patterns.length)
    (hfree : NoneTakenUp engine patterns reported (lines ++ [line]))
    (hnone : reported lines line = none)
    (hmiss : slot state (patterns.length - 2) = none ∨
      captured engine patterns (patterns.length - 1) line = none)
    (hslots : ∀ j < patterns.length - 1, slot state' j =
      moved engine patterns line (state.set (patterns.length - 2) none) j) :
    Grounded engine patterns reported (lines ++ [line]) state' := by
  -- an attempt that goes on is not at its end, since the line is not reported
  have hahead : ∀ {steps}, Attempt engine patterns reported lines steps →
      steps.length < patterns.length →
      (steps.length + 1 < patterns.length ∧ ∃ last,
        Attempt engine patterns reported (lines ++ [line]) (steps ++ [last])) ∨
      Broken engine patterns reported (lines ++ [line]) steps.length := by
    intro steps hsteps hlt
    rcases hsteps.next hnone with ⟨last, hlast, hnew⟩ | hbroken
    · refine .inl ⟨?_, last, hnew⟩
      by_contra hend
      have hall : steps.length + 1 = patterns.length := by omega
      rw [hs.ready (ready_of_attempt hsteps hall),
        show patterns.length - 1 = steps.length by omega, hlast] at hmiss
      simp at hmiss
    · exact .inr hbroken
  -- what the slot before a slot gives
  have hreal : ∀ {steps} d, Attempt engine patterns reported lines steps → steps.length = d + 1 →
      d + 2 < patterns.length → ∀ {value}, moved engine patterns line state (d + 1) = some value →
        ∃ steps, Attempt engine patterns reported (lines ++ [line]) steps ∧
          steps.length = d + 2 ∧ value = alongSteps steps := by
    intro steps d hsteps hlen hd value hvalue
    rw [moved, hs.attempt d hsteps hlen (by omega)] at hvalue
    rcases Option.map_eq_some_iff.mp hvalue with ⟨last, hlast, rfl⟩
    rw [← hlen] at hlast
    exact ⟨steps ++ [last], attempt_concat.mpr (.inr ⟨hnone, steps, last, hsteps, hlast, rfl⟩),
      by rw [List.length_append, hlen]; rfl, new_next ..⟩
  have hnext : ∀ {running} d, slot state d = some running → d + 2 < patterns.length →
      ∀ {value}, moved engine patterns line state (d + 1) = some value →
        (∃ steps, Attempt engine patterns reported (lines ++ [line]) steps ∧
          steps.length = d + 2 ∧ value = alongSteps steps) ∨
        d + 3 < patterns.length ∧ ∃ steps,
          Attempt engine patterns reported (lines ++ [line]) steps ∧
          d + 2 < steps.length ∧ steps.length < patterns.length := by
    intro running d hrunning hd value hvalue
    -- a line that matches after a broken attempt goes on with one of its own
    have hbroken : 1 ≤ d → ∀ count, Broken engine patterns reported (lines ++ [line]) count →
        d + 1 ≤ count → ∃ steps, Attempt engine patterns reported (lines ++ [line]) steps ∧
          steps.length = d + 2 ∧ value = alongSteps steps := by
      intro hone count hcount hle
      have hmatch : (captured engine patterns (d + 1) line).isSome := by
        rw [moved, hrunning] at hvalue
        rcases Option.map_eq_some_iff.mp hvalue with ⟨last, hlast, -⟩
        rw [hlast]
        rfl
      rcases hfree lines line [] count (d + 1) rfl hcount (by omega) hle hd hmatch with
        ⟨steps, hsteps, hlen⟩
      exact hreal d hsteps hlen hd hvalue
    rcases h.below d hrunning hd with ⟨steps, hsteps, hlen, rfl⟩ |
      ⟨hone, steps, hsteps, hlen, hlt⟩ | ⟨hone, count, hcount, hle⟩
    · exact .inl (hreal d hsteps hlen hd hvalue)
    · rcases hahead hsteps hlt with ⟨hend, last, hnew⟩ | hcount
      · have hnewlen : (steps ++ [last]).length = steps.length + 1 := List.length_append
        exact .inr ⟨by omega, steps ++ [last], hnew, by omega, by omega⟩
      · exact .inl (hbroken hone _ hcount (by omega))
    · exact .inl (hbroken hone count (hcount.concat hnone) hle)
  have hfirst : ∀ {value}, moved engine patterns line state 0 = some value →
      ∃ steps, Attempt engine patterns reported (lines ++ [line]) steps ∧
        steps.length = 1 ∧ value = alongSteps steps := by
    intro value hvalue
    rcases Option.map_eq_some_iff.mp hvalue with ⟨last, hlast, rfl⟩
    exact ⟨[last], attempt_concat.mpr (.inr ⟨hnone, [], last, attempt_nil lines, hlast, rfl⟩), rfl,
      new_first last⟩
  refine ⟨fun {running} hrunning => ?_, fun {running} d hrunning hd => ?_⟩
  -- the slot before the last pattern: what is in it is an attempt that needs one more line
  · rw [hslots _ (by omega)] at hrunning
    cases hn : patterns.length - 2 with
    | zero =>
        rw [hn] at hrunning
        rcases hfirst hrunning with ⟨steps, hsteps, hlen, hvalue⟩
        exact ⟨steps, ready_of_attempt hsteps (by omega), hvalue⟩
    | succ n =>
        -- the last slot is empty unless the slot before it fills it
        rw [hn, moved, slot_set_ne (by omega), slot_set_self (by omega)] at hrunning
        cases hslot : slot state n with
        | none =>
            rw [hslot] at hrunning
            cases hrunning
        | some before =>
            have hmoved : moved engine patterns line state (n + 1) = some running := by
              rw [hslot] at hrunning
              rw [moved, hslot]
              exact hrunning
            rcases hnext n hslot (by omega) hmoved with ⟨steps, hsteps, hlen, hvalue⟩ | ⟨hthree, -⟩
            · exact ⟨steps, ready_of_attempt hsteps (by omega), hvalue⟩
            · omega
  -- every slot below it was filled by this line, or kept what it had
  · rw [hslots d (by omega), moved_set (by omega)] at hrunning
    cases d with
    | zero => exact .inl (hfirst hrunning)
    | succ d =>
        cases hslot : slot state d with
        | some before =>
            rcases hnext d hslot (by omega) hrunning with hvalue | ⟨-, hnew⟩
            · exact .inl hvalue
            · exact .inr (.inl ⟨by omega, hnew⟩)
        | none =>
            -- the slot keeps what it had, which is now behind the attempt it belongs to
            rw [moved, hslot] at hrunning
            have hkept : (∃ steps, Attempt engine patterns reported lines steps ∧
                d + 2 ≤ steps.length ∧ steps.length < patterns.length) ∨
                ∃ count, Broken engine patterns reported lines count ∧ d + 2 ≤ count := by
              rcases h.below (d + 1) hrunning hd with ⟨steps, hsteps, hlen, -⟩ |
                ⟨-, steps, hsteps, hlen, hlt⟩ | ⟨-, hcount⟩
              · exact .inl ⟨steps, hsteps, by omega, by omega⟩
              · exact .inl ⟨steps, hsteps, by omega, hlt⟩
              · exact .inr hcount
            rcases hkept with ⟨steps, hsteps, hlen, hlt⟩ | ⟨count, hcount, hle⟩
            · rcases hahead hsteps hlt with ⟨hend, last, hnew⟩ | hcount
              · have hnewlen : (steps ++ [last]).length = steps.length + 1 := List.length_append
                exact .inr (.inl ⟨by omega, steps ++ [last], hnew, by omega, by omega⟩)
              · exact .inr (.inr ⟨by omega, steps.length, hcount, hlen⟩)
            · exact .inr (.inr ⟨by omega, count, hcount.concat hnone, hle⟩)

theorem Grounded.hit (h : Grounded engine patterns reported lines state)
    {running : PatternMatch} {last : Step}
    (hrunning : slot state (patterns.length - 2) = some running)
    (hlast : captured engine patterns (patterns.length - 1) line = some last)
    (hslots : ∀ j, slot state' j =
      if last.1.isLoop = true ∧ j = patterns.length - 2 then some running else none) :
    Grounded engine patterns reported (lines ++ [line]) state' := by
  refine ⟨fun {value} hvalue => ?_, fun {value} d hvalue hd => ?_⟩
  · rw [hslots] at hvalue
    by_cases hloop : last.1.isLoop = true
    · rw [if_pos ⟨hloop, rfl⟩] at hvalue
      rcases h.last hrunning with ⟨steps, hready, hsteps⟩
      exact ⟨steps, ready_loop hready hlast hloop, (Option.some.inj hvalue).symm.trans hsteps⟩
    · rw [if_neg (fun h => hloop h.1)] at hvalue
      cases hvalue
  · rw [hslots, if_neg (fun h => by omega)] at hvalue
    cases hvalue

end Step

end Attempts

/-! ## Runs -/

/-- The registry after some lines. -/
def afterLines (around : Surroundings R) (registry : MatcherRegistry R) (lines : List Text) :
    Option (MatcherRegistry R) :=
  lines.foldlM (fun registry line => (matchLine around line registry).map (·.1)) registry

/-- What is reported at a line after others. -/
def matchAt (around : Surroundings R) (registry : MatcherRegistry R) (lines : List Text)
    (line : Text) : Option PatternMatch :=
  (afterLines around registry lines).bind fun registry =>
    (findMatch around.toRegexEngine line registry).bind (·.2)

section Runs

variable {around : Surroundings R} {registry : MatcherRegistry R} {lines : List Text} {line : Text}

theorem findMatch_single {engine : RegexEngine R} {matcher after : ProblemMatcher R}
    {found : Option PatternMatch}
    (h : matchOne engine (matchText line) matcher = some (after, found))
    (howner : after.owner = matcher.owner) :
    findMatch engine line [matcher] = some ([after], found) := by
  cases found with
  | none => simp [findMatch, matchFirst, h]
  | some pm => simp [findMatch, matchFirst, h, howner]

theorem matchLine_findMatch {after : MatcherRegistry R} {found : Option PatternMatch}
    (h : findMatch around.toRegexEngine line registry = some (after, found)) :
    matchLine around line registry = some (after, found.elim [] (annotationsOf around)) := by
  rw [matchLine, h]
  rfl

theorem afterLines_concat {before after : MatcherRegistry R} {found : Option PatternMatch}
    (hbefore : afterLines around registry lines = some before)
    (h : findMatch around.toRegexEngine line before = some (after, found)) :
    afterLines around registry (lines ++ [line]) = some after ∧
      matchAt around registry lines line = found := by
  constructor
  · rw [afterLines, List.foldlM_append]
    rw [afterLines] at hbefore
    simp [hbefore, matchLine_findMatch h]
  · simp [matchAt, hbefore, h]

theorem mapM_some {A B : Type} {f : A → Option B} {l : List A} {ys : List B}
    (h : l.mapM f = some ys) :
    (∀ i : Nat, ys[i]? = l[i]?.bind f) ∧ ∀ a ∈ l, ∃ b, f a = some b := by
  induction l generalizing ys with
  | nil =>
      rw [List.mapM_nil] at h
      rw [← Option.some.inj h]
      exact ⟨fun i => rfl, fun a ha => by cases ha⟩
  | cons a l ih =>
      rw [List.mapM_cons] at h
      rcases Option.bind_eq_some_iff.mp h with ⟨b, hb, h⟩
      rcases Option.bind_eq_some_iff.mp h with ⟨bs, hbs, h⟩
      rw [← Option.some.inj h]
      rcases ih hbs with ⟨hget, hall⟩
      constructor
      · intro i
        cases i with
        | zero => simp [hb]
        | succ i => simpa using hget i
      · intro c hc
        rcases List.mem_cons.mp hc with rfl | hc
        · exact ⟨b, hb⟩
        · exact hall c hc

/-- A definition alone in a file is alone in the registry, with empty slots. -/
theorem registered_of_add {definition : MatcherDefinition}
    (hadd : addFromFile around [definition] [] = some (.ok (), registry))
    (hmulti : 2 ≤ definition.pattern.length) :
    ∃ matcher, registry = [matcher] ∧ Registered around.toRegexEngine definition.pattern
      (definition.fromPath.getD []) matcher ∧ ∀ i, slot matcher.state i = none := by
  rw [addFromFile] at hadd
  cases hvalid : validateMatcherDefinition around.toRegexEngine definition with
  | error e => simp [hvalid] at hadd
  | ok u =>
      simp only [hvalid] at hadd
      rcases Option.bind_eq_some_iff.mp hadd with ⟨matcher, hmatcher, hadd⟩
      rcases Option.bind_eq_some_iff.mp hmatcher with ⟨regexes, hregexes, hmatcher⟩
      have hregistry : registry = [matcher] := by
        -- the registry is arranged anew, but there is only one to arrange
        have hperm := around.arrange_perm [matcher]
        rw [List.perm_singleton] at hperm
        rw [← (Prod.mk.inj (Option.some.inj hadd)).2, insert]
        exact hperm
      rw [← Option.some.inj hmatcher] at hregistry
      refine ⟨_, hregistry, ?_, fun i => ?_⟩
      · refine ⟨hmulti, fun pattern hpattern => ?_, rfl, rfl, (mapM_some hregexes).1, ?_⟩
        · rcases (mapM_some hregexes).2 pattern hpattern with ⟨re, hre⟩
          refine ⟨re, ?_⟩
          cases hcompile : around.compile pattern.regexp with
          | error e => simp [hcompile, Except.toOption] at hre
          | ok re' => simpa [hcompile, Except.toOption] using hre
        · rw [emptyState, if_pos (by omega), List.length_replicate]
          omega
      · rw [slot, emptyState, if_pos (by omega), List.getElem?_replicate]
        split <;> rfl

/-- The slots along a run, by induction on the lines. -/
theorem slots_after {patterns : List MatcherPattern} {fromPath : Text} {matcher : ProblemMatcher R}
    (hm : Registered around.toRegexEngine patterns fromPath matcher)
    (hempty : ∀ i, slot matcher.state i = none) (lines : List Text) :
    ∃ state, afterLines around [matcher] lines = some [{ matcher with state := state }] ∧
      state.length = matcher.state.length ∧
      Slots around.toRegexEngine patterns (matchAt around [matcher]) lines state ∧
      (NoneTakenUp around.toRegexEngine patterns (matchAt around [matcher]) lines →
        Grounded around.toRegexEngine patterns (matchAt around [matcher]) lines state) := by
  have htwo := hm.several
  -- the induction is on the lines seen so far, from the last one
  induction lines using List.reverseRecOn with
  | nil =>
      refine ⟨matcher.state, rfl, rfl,
        ⟨fun {steps} d hsteps hlen _ => ?_, fun {steps} hready => ?_⟩,
        fun _ => ⟨fun {running} hrunning => ?_, fun {running} d hrunning _ => ?_⟩⟩
      · rcases hsteps with ⟨before, run, hlines, -, hsteps⟩
        rw [(List.append_eq_nil_iff.mp hlines.symm).2] at hsteps
        rw [← Option.some.inj hsteps] at hlen
        cases hlen
      · rcases hready with ⟨before, run, loop, hlines, -, -, hlen, -⟩
        rw [(List.append_eq_nil_iff.mp (List.append_eq_nil_iff.mp hlines.symm).1).2,
          List.length_nil] at hlen
        omega
      · rw [hempty] at hrunning
        cases hrunning
      · rw [hempty] at hrunning
        cases hrunning
  | append_singleton lines line ih =>
      rcases ih with ⟨state, hafter, hlen, hslots, hgrounded⟩
      have hm' := hm.setState hlen
      have hstate := hm'.state
      by_cases hhit : (slot state (patterns.length - 2)).isSome ∧
          (captured around.toRegexEngine patterns (patterns.length - 1) line).isSome
      · -- the line completes a match
        rcases Option.isSome_iff_exists.mp hhit.1 with ⟨running, hrunning⟩
        rcases Option.isSome_iff_exists.mp hhit.2 with ⟨last, hlast⟩
        rcases matchOne_match hm' hrunning hlast with ⟨state', hone, hlen', hslots'⟩
        rcases afterLines_concat hafter (findMatch_single hone rfl) with ⟨hafter', hat⟩
        exact ⟨state', hafter', hlen'.trans hlen, hslots.hit htwo hat hrunning hlast hslots',
          fun hfree => (hgrounded hfree.init).hit hrunning hlast hslots'⟩
      -- the line moves the attempts on or breaks them off
      · have hmiss : slot state (patterns.length - 2) = none ∨
            captured around.toRegexEngine patterns (patterns.length - 1) line = none := by
          rcases not_and_or.mp hhit with h | h
          · exact .inl (Option.not_isSome_iff_eq_none.mp h)
          · exact .inr (Option.not_isSome_iff_eq_none.mp h)
        rcases matchOne_miss hm' hmiss with ⟨state', hone, hlen', hslots'⟩
        rcases afterLines_concat hafter (findMatch_single hone rfl) with ⟨hafter', hat⟩
        exact ⟨state', hafter', hlen'.trans hlen, hslots.miss htwo hmiss hslots', fun hfree =>
          (hgrounded hfree.init).miss hslots hstate htwo hfree hat hmiss hslots'⟩

end Runs

/-! ## What is reported -/

/-- A matcher of several patterns alone in the registry reports a line that completes a
    match, with the first value of each property along the match, and reports no other
    line as long as no line takes up an attempt that was broken off. -/
theorem matches_exact (around : Surroundings R) (definition : MatcherDefinition)
    (registry : MatcherRegistry R)
    (hadd : addFromFile around [definition] [] = some (.ok (), registry))
    (hmulti : 2 ≤ definition.pattern.length) (lines : List Text) (line : Text) :
    (∃ before after, afterLines around registry lines = some before ∧
      matchLine around line before = some (after,
        (matchAt around registry lines line).elim [] (annotationsOf around))) ∧
    (∀ pm, Completes around.toRegexEngine definition.pattern (definition.fromPath.getD [])
        (matchAt around registry) lines line pm → matchAt around registry lines line = some pm) ∧
    (NoneTakenUp around.toRegexEngine definition.pattern (matchAt around registry) lines →
      ∀ pm, matchAt around registry lines line = some pm →
        Completes around.toRegexEngine definition.pattern (definition.fromPath.getD [])
          (matchAt around registry) lines line pm) := by
  rcases registered_of_add hadd hmulti with ⟨matcher, rfl, hm, hempty⟩
  rcases slots_after hm hempty lines with ⟨state, hafter, hlen, hslots, hgrounded⟩
  have hm' := hm.setState hlen
  -- the line is reported exactly if the slot before the last pattern is filled and it matches
  by_cases hhit : (slot state (definition.pattern.length - 2)).isSome ∧
      (captured around.toRegexEngine definition.pattern (definition.pattern.length - 1) line).isSome
  · rcases Option.isSome_iff_exists.mp hhit.1 with ⟨running, hrunning⟩
    rcases Option.isSome_iff_exists.mp hhit.2 with ⟨last, hlast⟩
    rcases matchOne_match hm' hrunning hlast with ⟨state', hone, -, -⟩
    have hfind := findMatch_single hone rfl
    have hat := (afterLines_concat hafter hfind).2
    refine ⟨⟨_, _, hafter, hat ▸ matchLine_findMatch hfind⟩, fun pm hpm => ?_,
      fun hfree pm hpm => ?_⟩
    · -- the slot holds the attempt that the line completes
      rcases hpm with ⟨steps, last', hready, hlast', rfl⟩
      rw [hlast] at hlast'
      rw [hslots.ready hready] at hrunning
      rw [hat, ← Option.some.inj hlast', ← Option.some.inj hrunning, new_last]
    · rcases (hgrounded hfree).last hrunning with ⟨steps, hready, rfl⟩
      rw [hat, new_last] at hpm
      exact ⟨steps, last, hready, hlast, (Option.some.inj hpm).symm⟩
  -- nothing is reported, and no attempt could have been completed by the line
  · have hmiss : slot state (definition.pattern.length - 2) = none ∨
        captured around.toRegexEngine definition.pattern (definition.pattern.length - 1) line =
          none := by
      rcases not_and_or.mp hhit with h | h
      · exact .inl (Option.not_isSome_iff_eq_none.mp h)
      · exact .inr (Option.not_isSome_iff_eq_none.mp h)
    rcases matchOne_miss hm' hmiss with ⟨state', hone, -, -⟩
    have hfind := findMatch_single hone rfl
    have hat := (afterLines_concat hafter hfind).2
    refine ⟨⟨_, _, hafter, hat ▸ matchLine_findMatch hfind⟩, fun pm hpm => ?_, fun _ pm hpm => ?_⟩
    · rcases hpm with ⟨steps, last, hready, hlast, -⟩
      rcases hmiss with hmiss | hmiss
      · rw [hslots.ready hready] at hmiss
        cases hmiss
      · rw [hlast] at hmiss
        cases hmiss
    · rw [hat] at hpm
      cases hpm

/-! ## Matchers of letters -/

/-- Expressions that are one letter, or a dot for any, on lines of one letter. -/
def letterEngine : RegexEngine Text where
  compile re := .ok re
  capturesLen _ := 1
  captures re line := if line.length = 1 ∧ (re = ['.'] ∨ re = line) then some [some line] else none

theorem letter_perm (registry : MatcherRegistry Text) : registry.Perm registry := .refl _

def letterSurroundings : Surroundings Text where
  toRegexEngine := letterEngine
  lowercase t := t
  arrange registry := registry
  arrange_perm := letter_perm
  resolveFile _ file := some file

/-- The last pattern gives the message. -/
def letterPatterns (first : List Text) (last : Text) (isLoop : Bool) : List MatcherPattern :=
  first.map (fun re => { regexp := re }) ++
    [{ regexp := last, message := some 0, isLoop := isLoop }]

def letterDefinition (first : List Text) (last : Text) (isLoop : Bool) : MatcherDefinition where
  owner := ['m']
  pattern := letterPatterns first last isLoop
  fromPath := none

def letterRegistry (first : List Text) (last : Text) (isLoop : Bool) : MatcherRegistry Text :=
  [{ owner := ['m'], patterns := letterPatterns first last isLoop, fromPath := [],
     state := emptyState (first.length + 1), compiledRegexes := first ++ [last] }]

theorem matches_exact_letters :
    ∃ pm, matchAt letterSurroundings (letterRegistry [['x']] ['y'] false) [['x']] ['y'] = some pm ∧
      pm.message = some ['y'] := by
  refine ⟨_, (matches_exact letterSurroundings (letterDefinition [['x']] ['y'] false)
    (letterRegistry [['x']] ['y'] false) rfl (by decide) [['x']] ['y']).2.1 _
    ⟨_, _, ⟨[], [['x']], [], rfl, ?_, rfl, rfl, by simp⟩, rfl, rfl⟩, rfl⟩
  intro pre line post h
  rcases List.cons_eq_append_iff.mp h with ⟨rfl, h⟩ | ⟨pre, rfl, h⟩
  · rcases List.cons.inj h with ⟨rfl, -⟩
    rfl
  · simp at h

/-- A reported line starts no other match, and a line that is looped on is reported with its
    own values and with a default. -/
theorem consecutive_not_reported :
    (stepsFrom letterEngine (letterPatterns [['x']] ['x'] false) 0 [['x'], ['x']]).isSome ∧
      matchAt letterSurroundings (letterRegistry [['x']] ['x'] false) [['x'], ['x']] ['x'] = none ∧
      ∃ pm, matchAt letterSurroundings (letterRegistry [['x']] ['.'] true) [['x'], ['y']] ['z'] =
          some pm ∧
        pm.message = some ['z'] ∧ pm.severity = some "error".toList ∧
        ∃ p l, letterPatterns [['x']] ['.'] true = [p, l] ∧
          (alongSteps [(p, [some ['x']]), (l, [some ['y']]), (l, [some ['z']])]).message =
            some ['y'] ∧
          (alongSteps [(p, [some ['x']]), (l, [some ['y']]), (l, [some ['z']])]).severity = none :=
  ⟨rfl, rfl, _, rfl, rfl, rfl, _, _, rfl, rfl, rfl⟩

/-- With four patterns an attempt broken off after two lines is taken up by a later line, and
    a match is reported whose lines do not follow one another. -/
theorem left_behind_reported :
    (matchAt letterSurroundings (letterRegistry [['w'], ['x'], ['y']] ['z'] false)
        [['w'], ['x'], ['-'], ['y']] ['z']).isSome ∧
      stepsFrom letterEngine (letterPatterns [['w'], ['x'], ['y']] ['z'] false) 0
        [['x'], ['-'], ['y']] = none :=
  ⟨rfl, rfl⟩

end Matchers

end Worker

end Preloop

import PreloopControl.Worker.JobContext

/-!
# Problem Matchers

The problem matchers of a step (`worker/matchers.rs`): how the definitions of a file are
checked and registered, and how a line of output is held against the registered matchers.

A matcher of several patterns keeps one running match for each number of patterns matched
so far, in a list one shorter than its patterns. A line is tried against the patterns from
the last to the first, so that a running match moves by one pattern only. Every access to
the list is by index and answers nothing where the code panics.

The regular expressions are taken as given, as are the lower case of a text, the order in
which a hash map visits its values, and the file that a matched name stands for on disk.

## Main definitions

* `RegexEngine`, `Surroundings`: What is taken as given.
* `PatternMatch.new`: A running match taken on by one more pattern.
* `validateMatcherDefinition`, `addFromFile`: What is registered.
* `tryPatterns`, `matchFirst`, `matchLine`: One line of output.
-/

namespace Preloop

namespace Worker

namespace Matchers

/-! ## What is taken as given -/

/-- `regex::Captures`: the groups of a match, from group 0 on. -/
abbrev Captures := List (Option Text)

/-- `Captures::get`. -/
def Captures.get (captures : Captures) (index : Nat) : Option Text := (captures[index]?).join

/-- The regular expressions. -/
structure RegexEngine (R : Type) where
  compile : Text → Except Text R
  capturesLen : R → Nat
  captures : R → Text → Option Captures

/-! ## Matchers -/

/-- `SeveritySpec`. -/
inductive SeveritySpec
  | capture (index : Nat)
  | literal (value : Text)
deriving DecidableEq, Repr

/-- `MatcherPattern`. -/
structure MatcherPattern where
  regexp : Text
  file : Option Nat := none
  line : Option Nat := none
  column : Option Nat := none
  endLine : Option Nat := none
  endColumn : Option Nat := none
  severity : Option SeveritySpec := none
  message : Option Nat := none
  code : Option Nat := none
  fromPath : Option Nat := none
  isLoop : Bool := false
deriving DecidableEq, Repr

/-- `PatternMatch`. -/
structure PatternMatch where
  file : Option Text
  line : Option Text
  column : Option Text
  endLine : Option Text
  endColumn : Option Text
  severity : Option Text
  code : Option Text
  message : Option Text
  fromPath : Option Text
deriving DecidableEq, Repr

/-- `get_group_value`. -/
def getGroupValue (captures : Captures) (index : Option Nat) : Option Text :=
  index.bind captures.get

/-- A value of its own, or the default where the value is missing or empty and the default
    is not. -/
def orDefault (value : Option Text) (default : Text) : Option Text :=
  if (value = none ∨ value = some []) ∧ default ≠ [] then some default else value

/-- The severity a pattern gives. -/
def MatcherPattern.severityOf (pattern : MatcherPattern) (captures : Captures) : Option Text :=
  match pattern.severity with
  | some (.capture index) => captures.get index
  | some (.literal value) => some value
  | none => none

/-- `PatternMatch::new`. -/
def PatternMatch.new (runningMatch : Option PatternMatch) (pattern : MatcherPattern)
    (captures : Captures) (defaultSeverity defaultFromPath : Text) : PatternMatch where
  file := (runningMatch.bind (·.file)).or (getGroupValue captures pattern.file)
  line := (runningMatch.bind (·.line)).or (getGroupValue captures pattern.line)
  column := (runningMatch.bind (·.column)).or (getGroupValue captures pattern.column)
  endLine := (runningMatch.bind (·.endLine)).or (getGroupValue captures pattern.endLine)
  endColumn := (runningMatch.bind (·.endColumn)).or (getGroupValue captures pattern.endColumn)
  severity := orDefault ((runningMatch.bind (·.severity)).or (pattern.severityOf captures))
    defaultSeverity
  code := (runningMatch.bind (·.code)).or (getGroupValue captures pattern.code)
  message := (runningMatch.bind (·.message)).or (getGroupValue captures pattern.message)
  fromPath := orDefault
    ((runningMatch.bind (·.fromPath)).or (getGroupValue captures pattern.fromPath))
    defaultFromPath

/-- `ProblemMatcher`. -/
structure ProblemMatcher (R : Type) where
  owner : Text
  patterns : List MatcherPattern
  fromPath : Text
  state : List (Option PatternMatch)
  compiledRegexes : List R

/-- The empty state for a number of patterns. -/
def emptyState (count : Nat) : List (Option PatternMatch) :=
  if 1 < count then List.replicate (count - 1) none else []

/-- `reset`. -/
def ProblemMatcher.reset {R : Type} (matcher : ProblemMatcher R) : ProblemMatcher R :=
  { matcher with state := emptyState matcher.patterns.length }

/-- `matcher.state[index] = value`. -/
def ProblemMatcher.setState {R : Type} (matcher : ProblemMatcher R) (index : Nat)
    (value : Option PatternMatch) : Option (ProblemMatcher R) :=
  if index < matcher.state.length then
    some { matcher with state := matcher.state.set index value }
  else none

/-- `MatcherRegistry`: the matchers, in the order in which the map visits them. -/
abbrev MatcherRegistry (R : Type) := List (ProblemMatcher R)

/-! ## Registering -/

/-- `MatcherDefinition`. -/
structure MatcherDefinition where
  owner : Text
  pattern : List MatcherPattern
  fromPath : Option Text

/-- `check_range`. -/
def checkRange (groups : Nat) (name : Text) (value : Option Nat) : Except Text Unit :=
  match value with
  | some index =>
    if groups ≤ index then
      .error ("The property '".toList ++ name ++ "' is set to ".toList ++
        (toString index).toList ++ " which is out of range".toList)
    else .ok ()
  | none => .ok ()

/-- What `validate_matcher_definition` asks of the loop of a pattern. -/
def checkLoop (count idx : Nat) (pattern : MatcherPattern) : Except Text Unit :=
  if pattern.isLoop then
    if count = 1 then
      .error "Problem matcher loop may not be set on a single pattern".toList
    else if idx = 0 ∨ idx ≠ count - 1 then
      .error "Problem matcher loop is only allowed on the last pattern".toList
    else if pattern.message = none then
      .error "The loop pattern must set 'message'".toList
    else .ok ()
  else .ok ()

/-- What it asks of the severity's group. -/
def checkSeverity (groups : Nat) (severity : Option SeveritySpec) : Except Text Unit :=
  match severity with
  | some (.capture index) => checkRange groups "severity".toList (some index)
  | _ => .ok ()

/-- The loop of `validate_matcher_definition`. -/
def checkPatterns {R : Type} (engine : RegexEngine R) (count : Nat) :
    Nat → List MatcherPattern → Except Text Unit
  | _, [] => .ok ()
  | idx, pattern :: rest => do
    checkLoop count idx pattern
    let re ← match engine.compile pattern.regexp with
      | .ok re => pure re
      | .error e =>
        .error ("Invalid regular expression '".toList ++ pattern.regexp ++ "': ".toList ++ e)
    let groups := engine.capturesLen re
    checkRange groups "file".toList pattern.file
    checkRange groups "line".toList pattern.line
    checkRange groups "column".toList pattern.column
    checkRange groups "endLine".toList pattern.endLine
    checkRange groups "endColumn".toList pattern.endColumn
    checkRange groups "code".toList pattern.code
    checkRange groups "message".toList pattern.message
    checkRange groups "fromPath".toList pattern.fromPath
    checkSeverity groups pattern.severity
    checkPatterns engine count (idx + 1) rest

/-- A property that only one pattern may set. -/
def checkOnce (name : Text) (isSet : MatcherPattern → Bool) (patterns : List MatcherPattern) :
    Except Text Unit :=
  if 1 < patterns.countP isSet then
    .error ("The property '".toList ++ name ++ "' is set twice".toList)
  else .ok ()

/-- `validate_matcher_definition`. -/
def validateMatcherDefinition {R : Type} (engine : RegexEngine R) (definition : MatcherDefinition) :
    Except Text Unit := do
  if Text.trim definition.owner = [] then
    .error "Problem matcher owner is required".toList
  if definition.pattern = [] then
    .error "Problem matcher pattern is required".toList
  checkPatterns engine definition.pattern.length 0 definition.pattern
  checkOnce "file".toList (·.file.isSome) definition.pattern
  checkOnce "line".toList (·.line.isSome) definition.pattern
  checkOnce "column".toList (·.column.isSome) definition.pattern
  checkOnce "severity".toList (·.severity.isSome) definition.pattern
  checkOnce "code".toList (·.code.isSome) definition.pattern
  checkOnce "message".toList (·.message.isSome) definition.pattern
  checkOnce "fromPath".toList (·.fromPath.isSome) definition.pattern
  if definition.pattern.all (·.message.isNone) then
    .error "Problem matcher pattern message is required".toList

/-- What a step's matchers take as given: the regular expressions, the lower case of a
    text, the order a map visits its values in, and the file of a match. -/
structure Surroundings (R : Type) extends RegexEngine R where
  lowercase : Text → Text
  arrange : MatcherRegistry R → MatcherRegistry R
  arrange_perm : ∀ registry, (arrange registry).Perm registry
  resolveFile : Option Text → Text → Option Text

variable {R : Type}

/-- The matcher `add_from_file` builds, whose expressions are expected to compile. -/
def ofDefinition (engine : RegexEngine R) (definition : MatcherDefinition) :
    Option (ProblemMatcher R) := do
  let compiledRegexes ← definition.pattern.mapM fun pattern =>
    (engine.compile pattern.regexp).toOption
  return { owner := definition.owner, patterns := definition.pattern,
           fromPath := definition.fromPath.getD [],
           state := emptyState definition.pattern.length,
           compiledRegexes := compiledRegexes }

/-- `matchers.insert`: what was under the owner's name is replaced. -/
def insert (around : Surroundings R) (matcher : ProblemMatcher R) (registry : MatcherRegistry R) :
    MatcherRegistry R :=
  around.arrange (matcher :: registry.filter fun m => m.owner ≠ matcher.owner)

/-- `remove`. -/
def remove (owner : Text) (registry : MatcherRegistry R) : MatcherRegistry R :=
  registry.filter fun m => m.owner ≠ owner

/-- `add_from_file`, on the definitions of the file. What came before a definition that
    fails stays registered. -/
def addFromFile (around : Surroundings R) :
    List MatcherDefinition → MatcherRegistry R → Option (Except Text Unit × MatcherRegistry R)
  | [], registry => some (.ok (), registry)
  | definition :: rest, registry =>
    match validateMatcherDefinition around.toRegexEngine definition with
    | .error e => some (.error e, registry)
    | .ok () => do
      let matcher ← ofDefinition around.toRegexEngine definition
      addFromFile around rest (insert around matcher registry)

/-! ## One line -/

/-- Where `strip_ansi_codes` is in an escape sequence. -/
inductive AnsiMode
  | plain
  | escape
  | sequence

/-- The loop of `strip_ansi_codes`. An escape character is dropped, with the sequence after
    it where a bracket follows. -/
def stripLoop : AnsiMode → Text → Text
  | _, [] => []
  | .plain, c :: t => if c = '\x1b' then stripLoop .escape t else c :: stripLoop .plain t
  | .escape, c :: t =>
    if c = '[' then stripLoop .sequence t
    else if c = '\x1b' then stripLoop .escape t
    else c :: stripLoop .plain t
  | .sequence, c :: t =>
    if '@' ≤ c ∧ c ≤ '~' then stripLoop .plain t else stripLoop .sequence t

/-- `strip_ansi_codes`. -/
def stripAnsiCodes (line : Text) : Option Text :=
  if '\x1b' ∈ line then some (stripLoop .plain line) else none

/-- The text that is matched. -/
def matchText (line : Text) : Text := (stripAnsiCodes line).getD line

/-- The loop of `match_line` over the patterns of one matcher, from the index below the
    given one down to the first. -/
def tryPatterns (engine : RegexEngine R) (line : Text) :
    Nat → ProblemMatcher R → Option (ProblemMatcher R × Option PatternMatch)
  | 0, matcher => some (matcher, none)
  | i + 1, matcher => do
    let runningMatch ← if 0 < i then matcher.state[i - 1]? else some none
    if i = 0 ∨ runningMatch.isSome then
      let pattern ← matcher.patterns[i]?
      let re ← matcher.compiledRegexes[i]?
      match engine.captures re line with
      | some captures =>
        if i = matcher.patterns.length - 1 then
          let found := PatternMatch.new runningMatch pattern captures "error".toList
            matcher.fromPath
          if pattern.isLoop then
            let matcher ← matcher.reset.setState (i - 1) runningMatch
            return (matcher, some found)
          else return (matcher.reset, some found)
        else
          let matcher ← matcher.setState i
            (some (PatternMatch.new runningMatch pattern captures [] []))
          tryPatterns engine line i matcher
      | none =>
        let matcher ← matcher.setState (if i = matcher.patterns.length - 1 then i - 1 else i) none
        tryPatterns engine line i matcher
    else tryPatterns engine line i matcher

/-- The body of the loop of `match_line` over the matchers. -/
def matchOne (engine : RegexEngine R) (line : Text) (matcher : ProblemMatcher R) :
    Option (ProblemMatcher R × Option PatternMatch) :=
  match matcher.patterns with
  | [] => some (matcher, none)
  | [pattern] => do
    let re ← matcher.compiledRegexes[0]?
    return (matcher, (engine.captures re line).map fun captures =>
      PatternMatch.new none pattern captures "error".toList matcher.fromPath)
  | patterns => tryPatterns engine line patterns.length matcher

/-- The loop of `match_line` over the matchers, up to the first that matches. -/
def matchFirst (engine : RegexEngine R) (line : Text) :
    MatcherRegistry R → Option (MatcherRegistry R × Option (Text × PatternMatch))
  | [] => some ([], none)
  | matcher :: rest => do
    let (matcher, found) ← matchOne engine line matcher
    match found with
    | some pm => return (matcher :: rest, some (matcher.owner, pm))
    | none =>
      let (rest, found) ← matchFirst engine line rest
      return (matcher :: rest, found)

/-- What `match_line` finds, and the matchers after it: a match resets all the others. -/
def findMatch (engine : RegexEngine R) (line : Text) (registry : MatcherRegistry R) :
    Option (MatcherRegistry R × Option PatternMatch) := do
  let (registry, found) ← matchFirst engine (matchText line) registry
  match found with
  | some (owner, pm) =>
    return (registry.map fun m => if m.owner ≠ owner then m.reset else m, some pm)
  | none => return (registry, none)

/-- A decimal digit's value. -/
def digitValue (c : Char) : Option Nat :=
  if '0' ≤ c ∧ c ≤ '9' then some (c.toNat - 48) else none

/-- `parse::<u32>`. -/
def parseU32 (t : Text) : Option Nat := do
  let digits := match t with
    | '+' :: t => t
    | t => t
  if digits = [] then none
  let values ← digits.mapM digitValue
  let n := values.foldl (fun n d => n * 10 + d) 0
  if n < 2 ^ 32 then some n else none

/-- `convert_to_annotation`. -/
def convertToAnnotation (around : Surroundings R) (pm : PatternMatch) : Option Annotation := do
  let message ← pm.message
  if Text.trim message = [] then none
  let level := match pm.severity.map around.lowercase with
    | some severity =>
      if severity = "warning".toList then .warning
      else if severity = "notice".toList then .notice
      else .error
    | none => .error
  return { level := level, message := message, title := none, file := none,
           line := pm.line.bind parseU32, endLine := pm.endLine.bind parseU32,
           col := pm.column.bind parseU32, endColumn := pm.endColumn.bind parseU32 }

/-- The annotations of a match. -/
def annotationsOf (around : Surroundings R) (pm : PatternMatch) : List Annotation :=
  Option.toList <| Option.map (fun note =>
    { note with file := pm.file.bind (around.resolveFile pm.fromPath) }) <|
      convertToAnnotation around pm

/-- `match_line`. -/
def matchLine (around : Surroundings R) (line : Text) (registry : MatcherRegistry R) :
    Option (MatcherRegistry R × List Annotation) := do
  let (registry, found) ← findMatch around.toRegexEngine line registry
  return (registry, found.elim [] (annotationsOf around))

end Matchers

end Worker

end Preloop

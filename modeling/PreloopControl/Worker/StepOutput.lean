import PreloopControl.Lib.Bytes
import PreloopControl.Masking.Scan
import PreloopControl.Worker.Commands
import PreloopControl.Worker.Matchers

/-!
# The Output of a Step

What the worker does with the bytes a step prints (`execution_context.rs`): they are cut into
lines, a complete line is masked and shortened, and then held against the token that has
suspended the commands, read as a workflow command (`commands.rs`), or held against the problem
matchers, and written to the durable log.

Whatever panics in the source answers nothing here. The log file takes what is written to it.
The decoding of bytes, the clock, the file of a problem matcher, and what masking is set up with
beside the values are taken as given. The live feed of the lines is left out.

## Main definitions

* `Surroundings`, `StepContext`: What is taken as given, and what output reads and writes.
* `annotate`, `logRaw`, `handleCommand`, `log`: One line.
* `writeChunk`, `flushLineBuffer`: Bytes.
* `StepContext.logContentSince`: The log from a checkpoint on.
-/

namespace Preloop

namespace Worker

namespace Output

open Matchers (MatcherRegistry MatcherDefinition)

/-! ## The context of a step -/

/-- What is taken as given. Lower case letters are their own lower case. -/
structure Surroundings (R : Type) extends Matchers.Surroundings R where
  lowercase_lower : ∀ t, (∀ c ∈ t, c.isLower = true) → lowercase t = t
  transforms : Masking.Transforms
  patterns : List (Text → List Masking.Span)
  exclude : List Text
  fromUtf8Lossy : List UInt8 → Text
  isoNow : Nat → Text
  matcherFile : Text → Option (List MatcherDefinition)

/-- `StepContext`, with what its output changes of the job. -/
structure StepContext (R : Type) where
  stepId : Text
  masks : List Text
  matchers : MatcherRegistry R
  state : SortedMap Text (SortedMap Text Text)
  extraPath : List Text
  env : SortedMap Text Text
  annotations : List Annotation
  debug : Bool
  echo : Bool
  stopCommandsToken : Option Text
  telemetryErrors : List Text
  logFile : Text
  logLineCount : Nat
  logLines : List Text
  keepInMemory : Bool
  stdoutPrefixOverride : Option Bool
  disablePrefixing : Bool
  partialIsContinuation : Bool
  lineBuffer : List UInt8
  lineBufferTruncated : Bool
  clock : Nat

variable {R : Type} (around : Surroundings R)

/-! ## Masking -/

/-- `mask_secrets`. -/
def maskSecrets (masks : List Text) (input : Text) : Text :=
  Masking.maskSecretsInner input masks around.patterns around.exclude false (some around.transforms)

/-- `mask_secrets_preserving_lines_with`. -/
def maskPreservingLines (secrets : List Text) (input : Text) : Text :=
  Masking.maskSecretsInner input secrets around.patterns around.exclude true
    (some around.transforms)

/-- The values `add_mask` registers for a value: itself, and each of its lines. -/
def maskValues (value : Text) : List Text :=
  if Text.trim value = [] then []
  else value :: ((value.splitOnP Masking.isNewline).map Text.trim).filter (· ≠ [])

/-- `retroactive_mask`. -/
def retroactiveMask (secrets : List Text) (ctx : StepContext R) : StepContext R :=
  if secrets = [] then ctx
  else { ctx with
    logFile := maskPreservingLines around secrets ctx.logFile
    logLines := ctx.logLines.map (maskPreservingLines around secrets) }

/-- `add_mask`, and what was already written. -/
def addMask (value : Text) (ctx : StepContext R) : StepContext R :=
  retroactiveMask around (maskValues value)
    { ctx with masks := (maskValues value).foldl (fun masks v => List.insert v masks) ctx.masks }

/-! ## Lines -/

/-- `MAX_LINE_BUFFER_BYTES`. -/
def maxLineBufferBytes : Nat := 1024 * 1024

/-- `MAX_LOG_LINE_BYTES`. -/
def maxLogLineBytes : Nat := 1024 * 1024

/-- The loop down to the next boundary of a character. -/
def charBoundary (line : Text) : Nat → Nat
  | 0 => 0
  | n + 1 => if (Text.splitAtByte (n + 1) line).isSome then n + 1 else charBoundary line n

/-- `truncate_log_line`. -/
def truncateLogLine (line : Text) : Option Text :=
  if Text.utf8Len line ≤ maxLogLineBytes then some line
  else (Text.sliceTo (charBoundary line maxLogLineBytes) line).map fun head =>
    head ++ "…[line truncated at 1048576 bytes]".toList

/-- `written_log_line_count`. -/
def writtenLogLineCount (line : Text) : Nat := line.count '\n' + 1

namespace StepContext

/-- A line for the durable log. -/
def writeLog (line : Text) (ctx : StepContext R) : StepContext R :=
  { ctx with
    logFile := ctx.logFile ++ (line ++ ['\n'])
    logLineCount := ctx.logLineCount + writtenLogLineCount line
    logLines := if ctx.keepInMemory then ctx.logLines ++ [line] else ctx.logLines }

/-- `iso_now`, once. -/
def tick (ctx : StepContext R) : StepContext R := { ctx with clock := ctx.clock + 1 }

/-- A line behind its time, or alone. -/
def stamped (line : Text) (ctx : StepContext R) : Text :=
  if ctx.stdoutPrefixOverride = some false then line
  else around.isoNow ctx.clock ++ (' ' :: line)

end StepContext

/-- The bound of `annotate`. -/
def maxMessageBytes : Nat := 4096

/-- `annotate`. -/
def annotate (ctx : StepContext R) (note : Annotation) : Option (StepContext R) :=
  if ctx.annotations.length < 10 then
    if maxMessageBytes < Text.utf8Len note.message then
      (Text.sliceTo maxMessageBytes note.message).map fun message =>
        { ctx with annotations := ctx.annotations ++ [{ note with message := message }] }
    else some { ctx with annotations := ctx.annotations ++ [note] }
  else some ctx

/-! ## One line, without commands -/

/-- The markers of the runner are taken out of what a user prints. -/
def stripMarkers (line : Text) : Text :=
  if Text.contains "##[start-action".toList line || Text.contains "##[end-action".toList line then
    Escapes.replace "##[end-action".toList ("##[".toList ++ Char.ofNat 92 :: "end-action".toList) <|
      Escapes.replace "##[start-action".toList
        ("##[".toList ++ Char.ofNat 92 :: "start-action".toList) line
  else line

/-- The word in front of a line that a matcher has matched: the loop over its annotations. -/
def levelWord : Text → List Annotation → Text
  | word, [] => word
  | word, annotation :: rest =>
    match annotation.level with
    | .error => "##[error]".toList
    | .warning => levelWord "##[warning]".toList rest
    | .notice =>
      levelWord (if word ≠ "##[error]".toList ∧ word ≠ "##[warning]".toList
        then "##[notice]".toList else word) rest

/-- What `log_raw` leaves in the log for a line and its annotations. -/
def formatted (masked : Text) (matched : List Annotation) (ctx : StepContext R) : Text :=
  if matched = [] then ctx.stamped around masked
  else around.isoNow ctx.clock ++ (' ' :: (levelWord "##[error]".toList matched ++ masked))

/-- `log_raw`. -/
def logRaw (line : Text) (ctx : StepContext R) : Option (StepContext R) := do
  let line := stripMarkers line
  let ctx := if Text.contains "fatal: unsafe repository".toList line
    then { ctx with telemetryErrors := ctx.telemetryErrors ++ [line] } else ctx
  let masked := maskSecrets around ctx.masks line
  let (matchers, matched) ← Matchers.matchLine around.toSurroundings masked ctx.matchers
  let ctx ← matched.foldlM annotate { ctx with matchers := matchers }
  return (ctx.writeLog (formatted around masked matched ctx)).tick

/-! ## Commands -/

/-- `build_annotation`. -/
def buildAnnotation (level : AnnotationLevel) (cmd : WorkflowCommand) (message : Text) :
    Annotation where
  level := level
  message := message
  title := cmd.properties.lookup "title".toList
  file := cmd.properties.lookup "file".toList
  line := (cmd.properties.lookup "line".toList).bind Matchers.parseU32
  endLine := (cmd.properties.lookup "endline".toList).bind Matchers.parseU32
  col := (cmd.properties.lookup "col".toList).bind Matchers.parseU32
  endColumn := (cmd.properties.lookup "endcolumn".toList).bind Matchers.parseU32

/-- The commands `error`, `warning` and `notice`. -/
def report (level : AnnotationLevel) (word : Text) (cmd : WorkflowCommand) (ctx : StepContext R) :
    Option (StepContext R) := do
  let masked := maskSecrets around ctx.masks cmd.data
  let ctx ← annotate ctx <| buildAnnotation level cmd masked
  logRaw around (word ++ masked) ctx

/-- `debug`. -/
def debugLines (message : Text) (ctx : StepContext R) : Option (StepContext R) :=
  if ctx.debug then
    (message.splitOn '\n').foldlM (fun ctx line => logRaw around ("##[debug]".toList ++ line) ctx)
      ctx
  else some ctx

/-- A warning of the worker's own. -/
def ownWarning (message : Text) : Text := "##[warning]".toList ++ message

/-- The warning of `set-output`. -/
def setOutputWarning : Text := ownWarning <|
  ("The `set-output` command is deprecated and will be disabled soon. Please upgrade to using " ++
    "Environment Files. For more information see: https://github.blog/changelog/" ++
    "2022-10-11-github-actions-deprecating-save-state-and-set-output-commands/").toList

/-- The warning of `save-state`. -/
def saveStateWarning : Text := ownWarning <|
  ("The `save-state` command is deprecated and will be disabled soon. Please upgrade to using " ++
    "Environment Files.").toList

/-- `add_from_file`: a file that cannot be read registers nothing. -/
def addMatchers (path : Text) (ctx : StepContext R) : Option (StepContext R) :=
  match around.matcherFile path with
  | none => some ctx
  | some definitions =>
    (Matchers.addFromFile around.toSurroundings definitions ctx.matchers).map fun p =>
      { ctx with matchers := p.2 }

/-- The output of `set-output`. -/
def StepContext.setOutput (name value : Text) (ctx : StepContext R) : StepContext R :=
  { ctx with env := ctx.env.insert ("OUTPUT_".toList ++ name) value }

/-- The state of `save-state`, under the step's id. -/
def StepContext.saveState (name value : Text) (ctx : StepContext R) : StepContext R :=
  let saved := (ctx.state.lookup ctx.stepId).getD ∅
  { ctx with state := ctx.state.insert ctx.stepId (saved.insert name value) }

/-- `handle_command`, with the `log` of its warnings. -/
def handleCommand (log : Text → StepContext R → Option (StepContext R)) (cmd : WorkflowCommand)
    (ctx : StepContext R) : Option (StepContext R) :=
  if cmd.name = "add-mask".toList then some (addMask around cmd.data ctx)
  else if cmd.name = "add-path".toList then
    some { ctx with extraPath := cmd.data :: ctx.extraPath }
  else if cmd.name = "debug".toList then debugLines around cmd.data ctx
  else if cmd.name = "error".toList then report around .error "##[error]".toList cmd ctx
  else if cmd.name = "warning".toList then report around .warning "##[warning]".toList cmd ctx
  else if cmd.name = "notice".toList then report around .notice "##[notice]".toList cmd ctx
  else if cmd.name = "group".toList then logRaw around ("##[group]".toList ++ cmd.data) ctx
  else if cmd.name = "endgroup".toList then logRaw around "##[endgroup]".toList ctx
  else if cmd.name = "echo".toList then
    if cmd.data = "on".toList then some { ctx with echo := true }
    else if cmd.data = "off".toList then some { ctx with echo := false }
    else some ctx
  else if cmd.name = "set-output".toList then
    (log setOutputWarning ctx).map fun ctx =>
      (cmd.properties.lookup "name".toList).elim ctx fun name => ctx.setOutput name cmd.data
  else if cmd.name = "save-state".toList then
    (log saveStateWarning ctx).map fun ctx =>
      (cmd.properties.lookup "name".toList).elim ctx fun name => ctx.saveState name cmd.data
  else if cmd.name = "add-matcher".toList then addMatchers around cmd.data ctx
  else if cmd.name = "remove-matcher".toList then
    some { ctx with matchers :=
      Matchers.remove ((cmd.properties.lookup "owner".toList).getD cmd.data) ctx.matchers }
  else some ctx

/-- The commands that are not logged, unless they are echoed. -/
def consumed (name : Text) : Bool :=
  ["add-matcher".toList, "remove-matcher".toList, "add-mask".toList, "save-state".toList,
    "set-output".toList].contains name

/-- The commands that log what they have to say themselves. -/
def logged (name : Text) : Bool :=
  ["group".toList, "endgroup".toList, "debug".toList, "error".toList, "warning".toList,
    "notice".toList].contains name

/-! ## One line -/

/-- A line while commands are suspended. -/
def logSuspended (token line : Text) (ctx : StepContext R) : StepContext R :=
  if Text.trim line = "::".toList ++ (token ++ "::".toList) then
    { ctx with stopCommandsToken := none }
  else (ctx.writeLog (ctx.stamped around (maskSecrets around ctx.masks line))).tick

/-- `log`, to a depth of warnings. -/
def logDepth : Nat → Text → StepContext R → Option (StepContext R)
  | 0, _, ctx => some ctx
  | n + 1, line, ctx =>
    match ctx.stopCommandsToken with
    | some token => some (logSuspended around token line ctx)
    | none => do
      match ← parseCommand around.lowercase line with
      | none => logRaw around line ctx
      | some cmd =>
        if cmd.name = "stop-commands".toList ∧ cmd.data ≠ [] then
          return { ctx with stopCommandsToken := some cmd.data }
        else
          let ctx ← handleCommand around (logDepth n) cmd ctx
          if consumed cmd.name then
            if ctx.echo then logRaw around line ctx else return ctx
          else if logged cmd.name then return ctx
          else logRaw around line ctx

/-- `log`: a warning of a command is not a command that warns. -/
def log (line : Text) (ctx : StepContext R) : Option (StepContext R) := logDepth around 2 line ctx

/-! ## Bytes -/

/-- The complete lines of some bytes, and what follows the last line feed. -/
def completeLines : List UInt8 → List (List UInt8) × List UInt8
  | [] => ([], [])
  | b :: bs =>
    match completeLines bs with
    | (lines, rest) =>
      if b = 10 then ([] :: lines, rest)
      else
        match lines with
        | [] => ([], b :: rest)
        | line :: lines => ((b :: line) :: lines, rest)

/-- The warning about what did not fit the buffer. -/
def truncationWarning : Text :=
  ownWarning "Step output exceeded the 1 MiB partial-line buffer; output was truncated".toList

/-- The warning, if the buffer was cut. -/
def warnTruncated (ctx : StepContext R) : Option (StepContext R) :=
  if ctx.lineBufferTruncated then
    log around truncationWarning { ctx with lineBufferTruncated := false }
  else some ctx

/-- A line as it reaches `log`. -/
def received (masks : List Text) (bytes : List UInt8) : Option Text :=
  truncateLogLine (maskSecrets around masks (around.fromUtf8Lossy bytes))

/-- A line of a chunk, with its override of the prefix. -/
def logWith (stamp : Bool) (line : Text) (ctx : StepContext R) : Option (StepContext R) :=
  (log around line { ctx with stdoutPrefixOverride := some stamp }).map fun ctx =>
    { ctx with stdoutPrefixOverride := none }

/-- The loop over the complete lines. -/
def logLines : Nat → List Text → StepContext R → Option (StepContext R)
  | _, [], ctx => some ctx
  | index, line :: rest, ctx => do
    let ctx ← logWith around (index = 0 || !ctx.disablePrefixing) line ctx
    logLines (index + 1) rest ctx

/-- The buffer behind a chunk: the unterminated tail, bounded. -/
def StepContext.keepTail (hasLines : Bool) (tail : List UInt8) (ctx : StepContext R) :
    StepContext R :=
  let overflows := maxLineBufferBytes < tail.length
  let kept := if overflows then tail.drop (tail.length - maxLineBufferBytes) else tail
  { ctx with
    lineBuffer := kept
    lineBufferTruncated := overflows || ctx.lineBufferTruncated
    partialIsContinuation :=
      if hasLines then ctx.disablePrefixing && !kept.isEmpty
      else if kept.isEmpty then false
      else ctx.partialIsContinuation }

/-- `write_chunk`. -/
def writeChunk (chunk : List UInt8) (ctx : StepContext R) : Option (StepContext R) := do
  let (lines, tail) := completeLines (ctx.lineBuffer ++ chunk)
  let complete ← lines.mapM (received around ctx.masks)
  let ctx ← warnTruncated around (ctx.keepTail (!lines.isEmpty) tail)
  logLines around 0 complete ctx

/-- `flush_line_buffer`. -/
def flushLineBuffer (ctx : StepContext R) : Option (StepContext R) := do
  if ctx.lineBuffer = [] then warnTruncated around ctx
  else
    let line ← received around ctx.masks ctx.lineBuffer
    let isContinuation := ctx.partialIsContinuation
    let ctx ← warnTruncated around { ctx with partialIsContinuation := false, lineBuffer := [] }
    logWith around (!ctx.disablePrefixing || !isContinuation) line ctx

/-! ## The log as it leaves the worker -/

/-- `mask_assembled_log`: the hints of the job over a whole text. -/
def maskAssembledLog (content : Text) : Text :=
  if around.patterns.isEmpty || content.isEmpty then content
  else maskPreservingLines around [] content

/-- `log_content`. -/
def StepContext.logContent (ctx : StepContext R) : Text := maskAssembledLog around ctx.logFile

/-- What is behind a number of lines. -/
def linesAfter : Nat → Text → Text
  | 0, content => content
  | _ + 1, [] => []
  | n + 1, c :: content => if c = '\n' then linesAfter n content else linesAfter (n + 1) content

/-- `log_content_since`. -/
def StepContext.logContentSince (startLine : Nat) (ctx : StepContext R) : Text :=
  linesAfter startLine (ctx.logContent around)

end Output

end Worker

end Preloop

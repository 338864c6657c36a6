import PreloopControl.Lib.Lines
import PreloopControl.Worker.StepOutput

/-!
# What a Line of Output Changes

A line that is logged without commands leaves the job as it is, but for the matchers and the
annotations, and adds lines to the durable log. What a command changes beside that is what it
asks for.

The durable log and its count of lines see records that are written, and for a command that
registers masks, before anything else, these masks over all that was written.

## Main definitions

* `Saved`: What a command may change, beside the matchers and the annotations.
* `Durable`: The durable log and its count.
* `Emits`: The job is left as it is.
* `Saved.apply`: What a command asks for.

## Theorems

* `logRaw_emits`: A line without commands.
* `handleCommand_obeys`, `log_effect`: A command, and a line.
-/

namespace Preloop

namespace Worker

namespace Output

variable {R : Type} {around : Surroundings R}

/-! ## What is looked at -/

/-- What a command may change, beside the matchers and the annotations, and what it leaves. -/
structure Saved where
  stepId : Text
  masks : List Text
  state : SortedMap Text (SortedMap Text Text)
  extraPath : List Text
  env : SortedMap Text Text
  debug : Bool
  echo : Bool
  stopCommandsToken : Option Text
  disablePrefixing : Bool
  lineBuffer : List UInt8
  lineBufferTruncated : Bool

def StepContext.saved (ctx : StepContext R) : Saved where
  stepId := ctx.stepId
  masks := ctx.masks
  state := ctx.state
  extraPath := ctx.extraPath
  env := ctx.env
  debug := ctx.debug
  echo := ctx.echo
  stopCommandsToken := ctx.stopCommandsToken
  disablePrefixing := ctx.disablePrefixing
  lineBuffer := ctx.lineBuffer
  lineBufferTruncated := ctx.lineBufferTruncated

/-- The durable log and its count. -/
structure Durable where
  content : Text
  count : Nat

def StepContext.durable (ctx : StepContext R) : Durable := ⟨ctx.logFile, ctx.logLineCount⟩

namespace Durable

/-- A record is written. -/
def write (d : Durable) (line : Text) : Durable :=
  ⟨d.content ++ (line ++ ['\n']), d.count + writtenLogLineCount line⟩

/-- Masks go over all that was written. -/
def mask (around : Surroundings R) (secrets : List Text) (d : Durable) : Durable :=
  if secrets = [] then d else ⟨maskPreservingLines around secrets d.content, d.count⟩

end Durable

/-- The step is left as it is, but for its log, its matchers and its annotations. -/
structure Emits (ctx ctx' : StepContext R) : Prop where
  saved : ctx'.saved = ctx.saved
  durable : ∃ lines : List Text, ctx'.durable = lines.foldl Durable.write ctx.durable

theorem Emits.refl (ctx : StepContext R) : Emits ctx ctx := ⟨rfl, [], rfl⟩

theorem Emits.trans {a b c : StepContext R} (hab : Emits a b) (hbc : Emits b c) : Emits a c := by
  rcases hab.durable with ⟨first, hfirst⟩
  rcases hbc.durable with ⟨second, hsecond⟩
  refine ⟨hbc.saved.trans hab.saved, first ++ second, ?_⟩
  rw [List.foldl_append, ← hfirst]
  exact hsecond

/-- A loop whose rounds leave the step as it is. -/
theorem emits_foldlM {A : Type} {f : StepContext R → A → Option (StepContext R)}
    (hf : ∀ {ctx ctx' : StepContext R} (a : A), f ctx a = some ctx' → Emits ctx ctx')
    (as : List A) : ∀ {ctx ctx' : StepContext R}, as.foldlM f ctx = some ctx' →
      Emits ctx ctx' := by
  induction as with
  | nil =>
      intro ctx ctx' h
      cases h
      exact .refl ctx
  | cons a as ih =>
      intro ctx ctx' h
      rw [List.foldlM_cons] at h
      rcases Option.bind_eq_some_iff.mp h with ⟨mid, hmid, hrest⟩
      exact (hf a hmid).trans (ih hrest)

/-! ## Lines without commands -/

theorem annotate_emits {ctx ctx' : StepContext R} (note : Annotation)
    (h : annotate ctx note = some ctx') : Emits ctx ctx' := by
  unfold annotate at h
  split_ifs at h
  · rcases Option.map_eq_some_iff.mp h with ⟨message, -, rfl⟩
    exact ⟨rfl, [], rfl⟩
  · cases h
    exact ⟨rfl, [], rfl⟩
  · cases h
    exact .refl ctx

theorem writeLog_emits (line : Text) (ctx : StepContext R) :
    Emits ctx (ctx.writeLog line).tick := ⟨rfl, [line], rfl⟩

theorem logRaw_emits {line : Text} {ctx ctx' : StepContext R}
    (h : logRaw around line ctx = some ctx') : Emits ctx ctx' := by
  unfold logRaw at h
  simp only [Option.bind_eq_bind, Option.bind_eq_some_iff] at h
  rcases h with ⟨⟨matchers, matched⟩, -, mid, hmid, hend⟩
  cases hend
  have hstart : ∀ b : Bool, Emits ctx { (if b then
      { ctx with telemetryErrors := ctx.telemetryErrors ++ [stripMarkers line] } else ctx) with
      matchers := matchers } := by
    intro b
    cases b <;> exact ⟨rfl, [], rfl⟩
  exact (hstart _).trans ((emits_foldlM annotate_emits matched hmid).trans (writeLog_emits _ mid))

theorem report_emits {level : AnnotationLevel} {word : Text} {cmd : WorkflowCommand}
    {ctx ctx' : StepContext R} (h : report around level word cmd ctx = some ctx') :
    Emits ctx ctx' := by
  rcases Option.bind_eq_some_iff.mp h with ⟨mid, hmid, hrest⟩
  exact (annotate_emits _ hmid).trans (logRaw_emits hrest)

theorem debugLines_emits {message : Text} {ctx ctx' : StepContext R}
    (h : debugLines around message ctx = some ctx') : Emits ctx ctx' := by
  unfold debugLines at h
  split_ifs at h
  · exact emits_foldlM (fun _ hone => logRaw_emits hone) _ h
  · cases h
    exact .refl ctx

theorem addMatchers_emits {path : Text} {ctx ctx' : StepContext R}
    (h : addMatchers around path ctx = some ctx') : Emits ctx ctx' := by
  unfold addMatchers at h
  cases hfile : around.matcherFile path with
  | none =>
      rw [hfile] at h
      cases h
      exact .refl ctx
  | some definitions =>
      rw [hfile] at h
      rcases Option.map_eq_some_iff.mp h with ⟨p, -, rfl⟩
      exact ⟨rfl, [], rfl⟩

/-! ## Commands -/

/-- What a command asks for. -/
def Saved.apply (cmd : WorkflowCommand) (s : Saved) : Saved :=
  if cmd.name = "add-mask".toList then
    { s with masks := (maskValues cmd.data).foldl (fun masks v => List.insert v masks) s.masks }
  else if cmd.name = "add-path".toList then { s with extraPath := cmd.data :: s.extraPath }
  else if cmd.name = "echo".toList then
    { s with echo := if cmd.data = "on".toList then true
                     else if cmd.data = "off".toList then false else s.echo }
  else if cmd.name = "set-output".toList then
    (cmd.properties.lookup "name".toList).elim s fun name =>
      { s with env := s.env.insert ("OUTPUT_".toList ++ name) cmd.data }
  else if cmd.name = "save-state".toList then
    (cmd.properties.lookup "name".toList).elim s fun name =>
      let saved := (s.state.lookup s.stepId).getD ∅
      { s with state := s.state.insert s.stepId (saved.insert name cmd.data) }
  else s

/-- The log as a command leaves it, before anything is written. -/
def Durable.obey (around : Surroundings R) (cmd : WorkflowCommand) (d : Durable) : Durable :=
  if cmd.name = "add-mask".toList then d.mask around (maskValues cmd.data) else d

/-- The step is left as a command asks, but for its log, its matchers and its annotations. -/
structure Obeys (around : Surroundings R) (cmd : WorkflowCommand) (ctx ctx' : StepContext R) :
    Prop where
  saved : ctx'.saved = ctx.saved.apply cmd
  durable : ∃ lines : List Text,
    ctx'.durable = lines.foldl Durable.write (ctx.durable.obey around cmd)

theorem Obeys.trans_emits {cmd : WorkflowCommand} {a b c : StepContext R}
    (hab : Obeys around cmd a b) (hbc : Emits b c) : Obeys around cmd a c := by
  rcases hab.durable with ⟨first, hfirst⟩
  rcases hbc.durable with ⟨second, hsecond⟩
  refine ⟨hbc.saved.trans hab.saved, first ++ second, ?_⟩
  rw [List.foldl_append, ← hfirst]
  exact hsecond

theorem addMask_durable (value : Text) (ctx : StepContext R) :
    (addMask around value ctx).durable = ctx.durable.mask around (maskValues value) := by
  unfold addMask retroactiveMask Durable.mask
  split_ifs <;> rfl

theorem addMask_saved (value : Text) (ctx : StepContext R) : (addMask around value ctx).saved =
    { ctx.saved with
      masks := (maskValues value).foldl (fun masks v => List.insert v masks) ctx.masks } := by
  unfold addMask retroactiveMask
  split_ifs <;> rfl

/-- The commands that ask for something. -/
def asking : List Text :=
  ["add-mask".toList, "add-path".toList, "echo".toList, "set-output".toList, "save-state".toList]

theorem Saved.apply_other {cmd : WorkflowCommand} (h : cmd.name ∉ asking) (s : Saved) :
    s.apply cmd = s := by
  simp only [asking, List.mem_cons, List.not_mem_nil, or_false, not_or] at h
  rw [Saved.apply, if_neg h.1, if_neg h.2.1, if_neg h.2.2.1, if_neg h.2.2.2.1, if_neg h.2.2.2.2]

/-- A command does what it asks for, if its warning is only written. -/
theorem handleCommand_obeys {log : Text → StepContext R → Option (StepContext R)}
    {cmd : WorkflowCommand} {ctx ctx' : StepContext R}
    (hlog : ∀ {message mid}, log (ownWarning message) ctx = some mid → Emits ctx mid)
    (h : handleCommand around log cmd ctx = some ctx') : Obeys around cmd ctx ctx' := by
  unfold handleCommand at h
  -- one name after the other, in the order in which the commands that save something are asked for
  by_cases hmask : cmd.name = "add-mask".toList
  · rw [if_pos hmask] at h
    cases h
    refine ⟨?_, [], ?_⟩
    · rw [addMask_saved, Saved.apply, if_pos hmask]
      rfl
    · rw [addMask_durable, Durable.obey, if_pos hmask]
      rfl
  rw [if_neg hmask] at h
  have hobey : ctx.durable.obey around cmd = ctx.durable := if_neg hmask
  by_cases hpath : cmd.name = "add-path".toList
  · rw [if_pos hpath] at h
    cases h
    refine ⟨?_, [], hobey.symm⟩
    rw [Saved.apply, if_neg hmask, if_pos hpath]
    rfl
  rw [if_neg hpath] at h
  by_cases hecho : cmd.name = "echo".toList
  · -- of the names in between none is this one
    rw [hecho, if_neg (by decide), if_neg (by decide), if_neg (by decide), if_neg (by decide),
      if_neg (by decide), if_neg (by decide), if_pos rfl] at h
    have hechoed : ctx.saved.apply cmd = { ctx.saved with
        echo := if cmd.data = "on".toList then true
                else if cmd.data = "off".toList then false else ctx.echo } := by
      rw [Saved.apply, if_neg hmask, if_neg hpath, if_pos hecho]
      rfl
    refine ⟨?_, ?_⟩
    · rw [hechoed]
      split_ifs at h ⊢ <;> (cases h; rfl)
    · rw [hobey]
      split_ifs at h <;> (cases h; exact ⟨[], rfl⟩)
  -- the warning about an ignored command is written first, and saves nothing
  by_cases houtput : cmd.name = "set-output".toList
  · rw [houtput, if_neg (by decide), if_neg (by decide), if_neg (by decide), if_neg (by decide),
      if_neg (by decide), if_neg (by decide), if_neg (by decide), if_pos rfl] at h
    rcases Option.map_eq_some_iff.mp h with ⟨mid, hmid, rfl⟩
    have hemits := hlog hmid
    rcases hemits.durable with ⟨lines, hlines⟩
    refine ⟨?_, lines, ?_⟩
    · rw [Saved.apply, if_neg hmask, if_neg hpath, if_neg hecho, if_pos houtput, ← hemits.saved]
      cases cmd.properties.lookup "name".toList <;> rfl
    · rw [hobey, ← hlines]
      cases cmd.properties.lookup "name".toList <;> rfl
  by_cases hstate : cmd.name = "save-state".toList
  · rw [hstate, if_neg (by decide), if_neg (by decide), if_neg (by decide), if_neg (by decide),
      if_neg (by decide), if_neg (by decide), if_neg (by decide), if_neg (by decide),
      if_pos rfl] at h
    rcases Option.map_eq_some_iff.mp h with ⟨mid, hmid, rfl⟩
    have hemits := hlog hmid
    rcases hemits.durable with ⟨lines, hlines⟩
    refine ⟨?_, lines, ?_⟩
    · rw [Saved.apply, if_neg hmask, if_neg hpath, if_neg hecho, if_neg houtput, if_pos hstate,
        ← hemits.saved]
      cases cmd.properties.lookup "name".toList <;> rfl
    · rw [hobey, ← hlines]
      cases cmd.properties.lookup "name".toList <;> rfl
  -- no other command saves anything, so that only its lines are left to account for
  have hnot : cmd.name ∉ asking := by
    simp only [asking, List.mem_cons, List.not_mem_nil, or_false, not_or]
    exact ⟨hmask, hpath, hecho, houtput, hstate⟩
  have hemits : Emits ctx ctx' → Obeys around cmd ctx ctx' := by
    intro h
    refine ⟨?_, ?_⟩
    · rw [Saved.apply_other hnot]
      exact h.saved
    · rw [hobey]
      exact h.durable
  refine hemits ?_
  rw [if_neg hecho, if_neg houtput, if_neg hstate] at h
  split_ifs at h
  · exact debugLines_emits h
  · exact report_emits h
  · exact report_emits h
  · exact report_emits h
  · exact logRaw_emits h
  · exact logRaw_emits h
  · exact addMatchers_emits h
  · cases h
    exact ⟨rfl, [], rfl⟩
  · cases h
    exact .refl ctx

/-! ## Warnings -/

/-- The warnings of the worker are commands that warn. -/
theorem parse_ownWarning (message : Text) : ∃ cmd,
    parseCommand around.lowercase (ownWarning message) = some (some cmd) ∧
      cmd.name = "warning".toList := by
  have hlower : around.lowercase "warning".toList = "warning".toList :=
    around.lowercase_lower _ (List.all_eq_true.mp rfl)
  have htext : ownWarning message = "##[warning".toList ++ ']' :: message := rfl
  have hstart : trimStart (ownWarning message) = ownWarning message := rfl
  have htrim : Text.trim (ownWarning message) =
      "##[".toList ++ ("warning".toList ++ ']' :: message.rdropWhile Text.isWhitespace) := by
    rw [htext, Text.trim_append_cons (by decide)]
    rfl
  have hcut : Text.cut [']'] ("warning".toList ++ ']' :: message.rdropWhile Text.isWhitespace) =
      some ("warning".toList, message.rdropWhile Text.isWhitespace) :=
    Text.cut_char (by decide) _
  refine ⟨{ name := "warning".toList, properties := ∅,
            data := message.rdropWhile Text.isWhitespace }, ?_, rfl⟩
  have hcolons : "::".toList.isPrefixOf (ownWarning message) = false := rfl
  have hmark : ∀ t : Text, "##[".toList.isPrefixOf ("##[".toList ++ t) = true := fun _ => rfl
  have hdrop : ∀ t : Text, ("##[".toList ++ t).drop 3 = t := fun _ => rfl
  rw [parseCommand_eq, doubleColon, hstart, hcolons, if_neg Bool.false_ne_true, legacy, htrim,
    if_pos (hmark _), hdrop, hcut, Option.map_some, hlower]
  rfl

/-- A warning of the worker is only written, if commands are not suspended. -/
theorem logDepth_warning {n : Nat} {ctx ctx' : StepContext R} {message : Text}
    (htoken : ctx.stopCommandsToken = none)
    (h : logDepth around (n + 1) (ownWarning message) ctx = some ctx') : Emits ctx ctx' := by
  rcases @parse_ownWarning R around message with ⟨cmd, hparse, hname⟩
  have hstop : ¬ (cmd.name = "stop-commands".toList ∧ cmd.data ≠ []) := by
    rw [hname]
    exact fun hstop => absurd hstop.1 (by decide)
  have hquiet : consumed "warning".toList = false ∧ logged "warning".toList = true := by decide
  have hwarns : ∀ log : Text → StepContext R → Option (StepContext R),
      handleCommand around log cmd ctx =
        report around .warning "##[warning]".toList cmd ctx := by
    intro log
    rw [handleCommand, hname, if_neg (by decide), if_neg (by decide), if_neg (by decide),
      if_neg (by decide), if_pos rfl]
  unfold logDepth at h
  rw [htoken] at h
  dsimp only at h
  rw [hparse, Option.bind_eq_bind, Option.bind_some] at h
  dsimp only at h
  rw [if_neg hstop, hwarns, hname, hquiet.1, hquiet.2] at h
  rcases Option.bind_eq_some_iff.mp h with ⟨mid, hmid, hend⟩
  cases hend
  exact report_emits hmid

/-! ## Lines -/

/-- The command suspends the commands behind it. -/
def Stops (cmd : WorkflowCommand) : Prop := cmd.name = "stop-commands".toList ∧ cmd.data ≠ []

/-- What a line does while commands are not suspended. -/
theorem log_effect {line : Text} {ctx ctx' : StepContext R} (htoken : ctx.stopCommandsToken = none)
    (h : log around line ctx = some ctx') :
    (parseCommand around.lowercase line = some none ∧ Emits ctx ctx') ∨
      ∃ cmd, parseCommand around.lowercase line = some (some cmd) ∧
        ((Stops cmd ∧ ctx' = { ctx with stopCommandsToken := some cmd.data }) ∨
          (¬ Stops cmd ∧ Obeys around cmd ctx ctx')) := by
  -- commands are not suspended, so the line is looked at for one
  unfold log logDepth at h
  rw [htoken] at h
  dsimp only at h
  rcases Option.bind_eq_some_iff.mp h with ⟨parsed, hparse, h⟩
  cases parsed with
  | none => exact .inl ⟨hparse, logRaw_emits h⟩
  | some cmd =>
      refine .inr ⟨cmd, hparse, ?_⟩
      dsimp only at h
      -- a stop is taken before the handler sees the command
      by_cases hstop : cmd.name = "stop-commands".toList ∧ cmd.data ≠ []
      · rw [if_pos hstop] at h
        cases h
        exact .inl ⟨hstop, rfl⟩
      · rw [if_neg hstop] at h
        rcases Option.bind_eq_some_iff.mp h with ⟨mid, hmid, h⟩
        have hobeys : Obeys around cmd ctx mid := by
          exact handleCommand_obeys (logDepth_warning htoken) hmid
        refine .inr ⟨hstop, hobeys.trans_emits ?_⟩
        -- the line itself is written or not, which is no effect of the command
        split_ifs at h
        · exact logRaw_emits h
        · cases h
          exact .refl _
        · cases h
          exact .refl _
        · exact logRaw_emits h

/-- What a line does while commands are suspended. -/
theorem log_suspended {token line : Text} {ctx : StepContext R}
    (htoken : ctx.stopCommandsToken = some token) :
    log around line ctx = some (logSuspended around token line ctx) := by
  unfold log logDepth
  rw [htoken]

/-! ## A step of a plain job -/

/-- No regular expression matches. -/
def noRegex : Matchers.RegexEngine Unit where
  compile _ := .ok ()
  capturesLen _ := 1
  captures _ _ := none

theorem arrange_self (registry : Matchers.MatcherRegistry Unit) : registry.Perm registry := .refl _

theorem map_toLower (t : Text) (h : ∀ c ∈ t, c.isLower = true) : t.map Char.toLower = t := by
  have hone : ∀ c : Char, c.isLower = true → c.toLower = c := by
    intro c hc
    simp only [Char.isLower, Bool.and_eq_true, decide_eq_true_eq, UInt32.le_iff_toNat_le] at hc
    have hlow : 97 ≤ c.val.toNat := hc.1
    unfold Char.toLower
    rw [dif_neg]
    rintro ⟨-, hupper⟩
    have hle : c.val.toNat ≤ 90 := UInt32.le_iff_toNat_le.mp hupper
    omega
  induction t with
  | nil => rfl
  | cons c t ih =>
      rw [List.forall_mem_cons] at h
      rw [List.map_cons, hone c h.1, ih h.2]

/-- A job that prints ASCII and has no problem matchers. -/
def plainSurroundings : Surroundings Unit where
  toRegexEngine := noRegex
  lowercase t := t.map Char.toLower
  arrange := id
  arrange_perm := arrange_self
  resolveFile _ file := some file
  lowercase_lower := map_toLower
  transforms := ⟨fun _ => [], fun _ _ => []⟩
  patterns := []
  exclude := []
  fromUtf8Lossy bytes := bytes.map fun b => Char.ofNat b.toNat
  isoNow _ := "2026-01-01T00:00:00Z".toList
  matcherFile _ := none

/-- A step of it, with masks and what it has logged. -/
def plainStep (masks : List Text) (logFile : Text) : StepContext Unit where
  stepId := "build".toList
  masks := masks
  matchers := []
  state := ∅
  extraPath := []
  env := ∅
  annotations := []
  debug := false
  echo := false
  stopCommandsToken := none
  telemetryErrors := []
  logFile := logFile
  logLineCount := logFile.count '\n'
  logLines := []
  keepInMemory := false
  stdoutPrefixOverride := none
  disablePrefixing := false
  partialIsContinuation := false
  lineBuffer := []
  lineBufferTruncated := false
  clock := 0

end Output

end Worker

end Preloop

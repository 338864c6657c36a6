import PreloopControl.Lib.Machine
import PreloopControl.Properties.StepOutput

/-!
# The Lines of a Process

A process prints bytes in chunks of any size, and what it leaves without a line feed is flushed at
the end. `writeChunk` and `flushLineBuffer` cut that into lines and hand each of them to `log`,
masked and shortened. What is said of commands is said of lines, not of chunks, so a run of
chunks is looked at here through the passages of its lines: what was printed, what of it was still
in the buffer, the masks it was masked with, and the step before and after.

Masks are those of the step when the chunk came in, so that a mask that is registered by one line
of a chunk is not yet there for the next. Of a line that has no end the buffer keeps the last
mebibyte only, while a passage remembers all that was printed.

Between two passages the step only sees its buffer change and perhaps a warning about it.

## Main definitions

* `Process`, `Handover`: A step and its unfinished line, and what a process hands over.
* `Passage`: A line on its way through `log`.
* `outputProcess`: The machine of `writeChunk` and `flushLineBuffer`, which notes the passages.
* `Untouched`, `Passes`: What lies between two passages, and the way from one step to another.

## Theorems

* `completeLines_printed`: The lines in the buffer are as many as were printed.
* `passes_handover`: What is handed over goes through `log` line by line, as it was printed.
* `passes_of_run`: So does a run.
-/

namespace Preloop

namespace Worker

namespace Output

variable {R : Type} {around : Surroundings R}

/-! ## Passages -/

/-- What a process hands over: bytes, or nothing more. -/
inductive Handover
  | chunk (bytes : List UInt8)
  | flush

/-- `write_chunk` and `flush_line_buffer`. -/
def Handover.exec (around : Surroundings R) (ctx : StepContext R) :
    Handover → Option (StepContext R)
  | .chunk bytes => writeChunk around bytes ctx
  | .flush => flushLineBuffer around ctx

/-- A step, and what was printed behind the last complete line. -/
structure Process (R : Type) where
  ctx : StepContext R
  unfinished : List UInt8

/-- A line on its way through `log`: what was printed and what of it was left in the buffer, the
    masks it was masked with, and the step before and after. -/
structure Passage (R : Type) where
  printed : List UInt8
  bytes : List UInt8
  masks : List Text
  before : StepContext R
  after : StepContext R

/-- A line is masked, shortened and logged. -/
def passLine (around : Surroundings R) (masks : List Text) (stamp : Bool) (bytes : List UInt8)
    (ctx : StepContext R) : Option (StepContext R) :=
  (received around masks bytes).bind fun line => logWith around stamp line ctx

/-- The passages of complete lines, each with what was printed of it. -/
def passages (around : Surroundings R) (masks : List Text) :
    Nat → List (List UInt8 × List UInt8) → StepContext R → List (Passage R)
  | _, [], _ => []
  | index, (printed, bytes) :: rest, ctx =>
    match passLine around masks (index = 0 || !ctx.disablePrefixing) bytes ctx with
    | none => []
    | some after => ⟨printed, bytes, masks, ctx, after⟩ ::
        passages around masks (index + 1) rest after

namespace Process

variable (around)

/-- The passages of what is handed over. -/
def passagesOf (p : Process R) : Handover → List (Passage R)
  | .chunk bytes =>
    let (lines, tail) := completeLines (p.ctx.lineBuffer ++ bytes)
    let printed := (completeLines (p.unfinished ++ bytes)).1
    (warnTruncated around (p.ctx.keepTail (!lines.isEmpty) tail)).elim [] fun ctx =>
      passages around p.ctx.masks 0 (printed.zip lines) ctx
  | .flush =>
    if p.ctx.lineBuffer = [] then []
    else
      (warnTruncated around
        { p.ctx with partialIsContinuation := false, lineBuffer := [] }).elim [] fun ctx =>
          (passLine around p.ctx.masks (!ctx.disablePrefixing || !p.ctx.partialIsContinuation)
            p.ctx.lineBuffer ctx).elim [] fun after =>
              [⟨p.unfinished, p.ctx.lineBuffer, p.ctx.masks, ctx, after⟩]

/-- What is printed behind the last complete line. -/
def left (p : Process R) : Handover → List UInt8
  | .chunk bytes => (completeLines (p.unfinished ++ bytes)).2
  | .flush => []

end Process

/-- The output of a process; what is seen of a run are the passages of its lines. -/
def outputProcess (around : Surroundings R) : Machine (Process R) Handover (Passage R) :=
  ⟨fun handover p => (handover.exec around p.ctx).map fun ctx =>
    (⟨ctx, p.left handover⟩, p.passagesOf around handover)⟩

/-! ## What is guarded -/

/-- What a command changes of the job and of the step. -/
structure Effects where
  masks : List Text
  state : SortedMap Text (SortedMap Text Text)
  extraPath : List Text
  env : SortedMap Text Text

def Saved.effects (s : Saved) : Effects where
  masks := s.masks
  state := s.state
  extraPath := s.extraPath
  env := s.env

/-- What lines behind the fence must not change. -/
structure Guarded (R : Type) where
  masks : List Text
  matchers : Matchers.MatcherRegistry R
  state : SortedMap Text (SortedMap Text Text)
  env : SortedMap Text Text
  extraPath : List Text
  annotations : List Annotation
  echo : Bool

def StepContext.guarded (ctx : StepContext R) : Guarded R where
  masks := ctx.masks
  matchers := ctx.matchers
  state := ctx.state
  env := ctx.env
  extraPath := ctx.extraPath
  annotations := ctx.annotations
  echo := ctx.echo

/-! ## Between two lines -/

/-- Nothing happens but to the buffer, and a warning about it. It is only written while commands
    are suspended, and annotates the step else. -/
structure Untouched (a b : StepContext R) : Prop where
  token : b.stopCommandsToken = a.stopCommandsToken
  stepId : b.stepId = a.stepId
  effects : b.saved.effects = a.saved.effects
  guarded : a.stopCommandsToken ≠ none → b.guarded = a.guarded

theorem Untouched.refl (a : StepContext R) : Untouched a a := ⟨rfl, rfl, rfl, fun _ => rfl⟩

theorem Untouched.trans {a b c : StepContext R} (hab : Untouched a b) (hbc : Untouched b c) :
    Untouched a c where
  token := hbc.token.trans hab.token
  stepId := hbc.stepId.trans hab.stepId
  effects := hbc.effects.trans hab.effects
  guarded hstopped := by
    have hstopped' : b.stopCommandsToken ≠ none := by
      rw [hab.token]
      exact hstopped
    exact (hbc.guarded hstopped').trans (hab.guarded hstopped)

/-- The warning about the buffer does nothing else. -/
theorem untouched_warnTruncated {ctx ctx' : StepContext R}
    (h : warnTruncated around ctx = some ctx') : Untouched ctx ctx' := by
  unfold warnTruncated at h
  by_cases htruncated : ctx.lineBufferTruncated = true
  · rw [if_pos htruncated] at h
    cases htoken : ctx.stopCommandsToken with
    | none =>
        have hemits : Emits { ctx with lineBufferTruncated := false } ctx' :=
          logDepth_warning htoken h
        have hsaved : ctx'.saved = { ctx.saved with lineBufferTruncated := false } := hemits.saved
        have heffects : ctx'.saved.effects = ctx.saved.effects := by
          rw [hsaved]
          rfl
        exact ⟨congrArg Saved.stopCommandsToken hsaved, congrArg Saved.stepId hsaved, heffects,
          fun hstopped => absurd htoken hstopped⟩
    | some token =>
        have htoken' : ({ ctx with lineBufferTruncated := false } :
            StepContext R).stopCommandsToken = some token := htoken
        have hwritten : some (logSuspended around token truncationWarning
            { ctx with lineBufferTruncated := false }) = some ctx' :=
          (log_suspended htoken').symm.trans h
        cases hwritten
        -- the warning begins with another character than the line that resumes
        have hnot : ¬ Text.trim truncationWarning = "::".toList ++ (token ++ "::".toList) := by
          have htrim : Text.trim truncationWarning = truncationWarning := by decide
          rw [htrim]
          exact fun heq => absurd (List.cons.inj heq).1 (by decide)
        unfold logSuspended
        rw [if_neg hnot]
        exact ⟨rfl, rfl, rfl, fun _ => rfl⟩
  · rw [if_neg htruncated] at h
    cases h
    exact .refl ctx

/-! ## The way of the lines -/

/-- A passage is what `log` makes of its line. -/
def Passage.Logged (around : Surroundings R) (q : Passage R) : Prop :=
  ∃ line stamp, received around q.masks q.bytes = some line ∧
    logWith around stamp line q.before = some q.after

/-- The way from one step to another through the passages of some lines. -/
inductive Passes (around : Surroundings R) : StepContext R → List (Passage R) →
    StepContext R → Prop
  | done {a b : StepContext R} (h : Untouched a b) : Passes around a [] b
  | line {a b : StepContext R} {q : Passage R} {qs : List (Passage R)}
      (h : Untouched a q.before) (hlogged : q.Logged around) (hrest : Passes around q.after qs b) :
      Passes around a (q :: qs) b

theorem Passes.untouched {a b c : StepContext R} {qs : List (Passage R)} (hab : Untouched a b)
    (h : Passes around b qs c) : Passes around a qs c := by
  cases h with
  | done h => exact .done (hab.trans h)
  | line h hlogged hrest => exact .line (hab.trans h) hlogged hrest

theorem Passes.append {a b c : StepContext R} {qs rs : List (Passage R)}
    (h : Passes around a qs b) (h' : Passes around b rs c) : Passes around a (qs ++ rs) c := by
  induction h with
  | done hab => exact h'.untouched hab
  | line hab hlogged _ ih => exact .line hab hlogged (ih h')

/-- What comes first of some passages, and what comes then. -/
theorem Passes.split {qs rs : List (Passage R)} : ∀ {a c : StepContext R},
    Passes around a (qs ++ rs) c → ∃ b, Passes around a qs b ∧ Passes around b rs c := by
  induction qs with
  | nil =>
      intro a c h
      exact ⟨a, .done (.refl a), h⟩
  | cons q qs ih =>
      intro a c h
      cases h with
      | line hab hlogged hrest =>
          rcases ih hrest with ⟨b, hfirst, hthen⟩
          exact ⟨b, .line hab hlogged hfirst, hthen⟩

theorem Passes.logged {a b : StepContext R} {qs : List (Passage R)} (h : Passes around a qs b) :
    ∀ q ∈ qs, q.Logged around := by
  induction h with
  | done => exact fun q hq => absurd hq List.not_mem_nil
  | line _ hlogged _ ih => exact List.forall_mem_cons.mpr ⟨hlogged, ih⟩

/-! ## Lines and line feeds -/

/-- No line feed is behind the last complete line. -/
theorem not_mem_completeLines (bytes : List UInt8) : 10 ∉ (completeLines bytes).2 := by
  induction bytes with
  | nil => exact List.not_mem_nil
  | cons b bytes ih =>
      rw [completeLines]
      cases hrest : completeLines bytes with
      | mk lines rest =>
          rw [hrest] at ih
          dsimp only
          by_cases hb : b = 10
          · rw [if_pos hb]
            exact ih
          · rw [if_neg hb]
            cases lines with
            | nil => exact fun hmem => (List.mem_cons.mp hmem).elim (fun h => hb h.symm) ih
            | cons line lines => exact ih

/-- What has no line feed goes in front of the first line. -/
def inFront (start : List UInt8) : List (List UInt8) × List UInt8 →
    List (List UInt8) × List UInt8
  | ([], rest) => ([], start ++ rest)
  | (line :: lines, rest) => ((start ++ line) :: lines, rest)

theorem completeLines_append {start : List UInt8} (h : 10 ∉ start) (bytes : List UInt8) :
    completeLines (start ++ bytes) = inFront start (completeLines bytes) := by
  induction start with
  | nil =>
      rw [List.nil_append]
      rcases completeLines bytes with ⟨lines, rest⟩
      cases lines <;> rfl
  | cons b start ih =>
      have hb : b ≠ 10 := fun heq => h (heq ▸ List.mem_cons_self)
      rw [List.cons_append, completeLines, ih fun hmem => h (List.mem_cons_of_mem b hmem)]
      rcases completeLines bytes with ⟨lines, rest⟩
      cases lines with
      | nil =>
          dsimp only [inFront]
          rw [if_neg hb]
          rfl
      | cons line lines =>
          dsimp only [inFront]
          rw [if_neg hb]
          rfl

/-- The lines in the buffer are as many as were printed. -/
theorem completeLines_printed {unfinished buffer : List UInt8} (hunfinished : 10 ∉ unfinished)
    (hbuffer : 10 ∉ buffer) (bytes : List UInt8) :
    (completeLines (unfinished ++ bytes)).1.length =
      (completeLines (buffer ++ bytes)).1.length := by
  rw [completeLines_append hunfinished, completeLines_append hbuffer]
  rcases completeLines bytes with ⟨lines, rest⟩
  cases lines <;> rfl

/-! ## Handing over -/

/-- The loop over the complete lines passes them one by one. -/
theorem passes_logLines {masks : List Text} : ∀ {lines printed : List (List UInt8)},
    printed.length = lines.length → ∀ {index : Nat} {complete : List Text}
      {ctx ctx' : StepContext R}, lines.mapM (received around masks) = some complete →
        logLines around index complete ctx = some ctx' →
          Passes around ctx (passages around masks index (printed.zip lines) ctx) ctx' ∧
            (passages around masks index (printed.zip lines) ctx).map Passage.printed =
              printed := by
  intro lines
  -- the induction is on the lines; `printed` goes along with them
  induction lines with
  | nil =>
      intro printed hlength index complete ctx ctx' hcomplete h
      obtain rfl : printed = [] := List.length_eq_zero_iff.mp hlength
      cases hcomplete
      cases h
      exact ⟨.done (.refl ctx), rfl⟩
  | cons bytes lines ih =>
      intro printed hlength index complete ctx ctx' hcomplete h
      obtain ⟨text, printed, rfl⟩ : ∃ text rest, printed = text :: rest :=
        List.exists_cons_of_length_eq_add_one hlength
      -- the line is read, and the rest of the lines after it
      simp only [List.mapM_cons, Option.bind_eq_bind, Option.bind_eq_some_iff] at hcomplete
      rcases hcomplete with ⟨line, hline, rest, hrest, hcons⟩
      cases hcons
      rw [logLines] at h
      rcases Option.bind_eq_some_iff.mp h with ⟨after, hafter, hthen⟩
      -- the first line of the chunk is prefixed as `index` says
      have hpass : passLine around masks (index = 0 || !ctx.disablePrefixing) bytes ctx =
          some after := by
        rw [passLine, hline]
        exact hafter
      have hlength' : printed.length = lines.length := Nat.succ.inj hlength
      rcases ih hlength' hrest hthen with ⟨hpasses, hprinted⟩
      rw [List.zip_cons_cons, passages, hpass]
      refine ⟨.line (.refl ctx) ⟨line, _, hline, hafter⟩ hpasses, ?_⟩
      rw [List.map_cons, hprinted]

/-! ## The buffer -/

theorem lineBuffer_log {line : Text} {ctx ctx' : StepContext R}
    (h : log around line ctx = some ctx') : ctx'.lineBuffer = ctx.lineBuffer := by
  cases htoken : ctx.stopCommandsToken with
  | some token =>
      have hwritten : some (logSuspended around token line ctx) = some ctx' :=
        (log_suspended htoken).symm.trans h
      cases hwritten
      unfold logSuspended
      split_ifs <;> rfl
  | none =>
      have happly : ∀ cmd : WorkflowCommand, (ctx.saved.apply cmd).lineBuffer = ctx.lineBuffer := by
        intro cmd
        unfold Saved.apply
        cases cmd.properties.lookup "name".toList with
        | none => split_ifs <;> rfl
        | some name => split_ifs <;> rfl
      rcases log_effect htoken h with ⟨-, hemits⟩ | ⟨cmd, -, ⟨-, rfl⟩ | ⟨-, hobeys⟩⟩
      · exact congrArg Saved.lineBuffer hemits.saved
      · rfl
      · exact (congrArg Saved.lineBuffer hobeys.saved).trans (happly cmd)

theorem lineBuffer_logWith {stamp : Bool} {line : Text} {ctx ctx' : StepContext R}
    (h : logWith around stamp line ctx = some ctx') : ctx'.lineBuffer = ctx.lineBuffer := by
  rcases Option.map_eq_some_iff.mp h with ⟨after, hafter, rfl⟩
  have hsame := lineBuffer_log hafter
  exact hsame

theorem lineBuffer_logLines {lines : List Text} : ∀ {index : Nat} {ctx ctx' : StepContext R},
    logLines around index lines ctx = some ctx' → ctx'.lineBuffer = ctx.lineBuffer := by
  induction lines with
  | nil =>
      intro index ctx ctx' h
      cases h
      rfl
  | cons line lines ih =>
      intro index ctx ctx' h
      rcases Option.bind_eq_some_iff.mp h with ⟨mid, hmid, hrest⟩
      exact (ih hrest).trans (lineBuffer_logWith hmid)

theorem lineBuffer_warnTruncated {ctx ctx' : StepContext R}
    (h : warnTruncated around ctx = some ctx') : ctx'.lineBuffer = ctx.lineBuffer := by
  unfold warnTruncated at h
  split_ifs at h
  · have hsame := lineBuffer_log h
    exact hsame
  · cases h
    rfl

/-- No line feed is left in the buffer, and it is empty only if nothing was printed. -/
structure Process.Cut (p : Process R) : Prop where
  unfinished : 10 ∉ p.unfinished
  buffer : 10 ∉ p.ctx.lineBuffer
  emptied : p.ctx.lineBuffer = [] ↔ p.unfinished = []

/-- The buffer behind a chunk is the end of what is unfinished, or all of it. -/
theorem lineBuffer_keepTail (hasLines : Bool) (tail : List UInt8) (ctx : StepContext R) :
    (∀ b ∈ (ctx.keepTail hasLines tail).lineBuffer, b ∈ tail) ∧
      ((ctx.keepTail hasLines tail).lineBuffer = [] ↔ tail = []) := by
  have hkept : (ctx.keepTail hasLines tail).lineBuffer =
      if maxLineBufferBytes < tail.length then tail.drop (tail.length - maxLineBufferBytes)
      else tail := by
    simp [StepContext.keepTail]
  rw [hkept]
  split_ifs with hlong
  · refine ⟨fun b hb => List.mem_of_mem_drop hb, fun hnil => ?_, fun hnil => ?_⟩
    · rw [List.drop_eq_nil_iff] at hnil
      have hpos : 0 < maxLineBufferBytes := by decide
      omega
    · rw [hnil, List.drop_nil]
  · exact ⟨fun b hb => hb, Iff.rfl⟩

/-- What is handed over goes through `log` line by line, and the lines are those that were
    printed. -/
theorem passes_handover {handover : Handover} {p p' : Process R} {qs : List (Passage R)}
    (hcut : p.Cut) (h : (outputProcess around).advance handover p = some (p', qs)) :
    p'.Cut ∧ Passes around p.ctx qs p'.ctx ∧ qs.map Passage.printed =
      match handover with
      | .chunk bytes => (completeLines (p.unfinished ++ bytes)).1
      | .flush => if p.unfinished = [] then [] else [p.unfinished] := by
  rcases Option.map_eq_some_iff.mp h with ⟨ctx', hexec, hpair⟩
  cases hpair
  cases handover with
  -- both buffers have the same complete lines behind them, and are empty together
  | chunk bytes =>
      have hlength := completeLines_printed hcut.unfinished hcut.buffer bytes
      have hfeed := not_mem_completeLines (p.ctx.lineBuffer ++ bytes)
      have hbehind : (completeLines (p.ctx.lineBuffer ++ bytes)).2 = [] ↔
          (completeLines (p.unfinished ++ bytes)).2 = [] := by
        rw [completeLines_append hcut.unfinished, completeLines_append hcut.buffer]
        rcases completeLines bytes with ⟨lines, rest⟩
        cases lines with
        | nil =>
            show p.ctx.lineBuffer ++ rest = [] ↔ p.unfinished ++ rest = []
            rw [List.append_eq_nil_iff, List.append_eq_nil_iff, hcut.emptied]
        | cons line lines => exact Iff.rfl
      simp only [Handover.exec, writeChunk, Option.bind_eq_bind, Option.bind_eq_some_iff] at hexec
      rcases hexec with ⟨complete, hcomplete, mid, hwarned, hlogged⟩
      simp only [Process.passagesOf, hwarned, Option.elim_some]
      -- the complete lines of the chunk pass one after the other
      rcases passes_logLines hlength hcomplete hlogged with ⟨hpasses, hprinted⟩
      have hkept := lineBuffer_keepTail (!(completeLines (p.ctx.lineBuffer ++ bytes)).1.isEmpty)
        (completeLines (p.ctx.lineBuffer ++ bytes)).2 p.ctx
      have hbuffer := (lineBuffer_logLines hlogged).trans (lineBuffer_warnTruncated hwarned)
      rw [← hbuffer] at hkept
      refine ⟨⟨not_mem_completeLines _, fun hmem => hfeed (hkept.1 10 hmem),
        hkept.2.trans hbehind⟩, ?_, hprinted⟩
      have hkeep : Untouched p.ctx (p.ctx.keepTail
          (!(completeLines (p.ctx.lineBuffer ++ bytes)).1.isEmpty)
          (completeLines (p.ctx.lineBuffer ++ bytes)).2) := ⟨rfl, rfl, rfl, fun _ => rfl⟩
      exact hpasses.untouched (hkeep.trans (untouched_warnTruncated hwarned))
  -- a flush prints what the buffer holds, if anything
  | flush =>
      simp only [Handover.exec, flushLineBuffer] at hexec
      by_cases hempty : p.ctx.lineBuffer = []
      · rw [if_pos hempty] at hexec
        have hbuffer := (lineBuffer_warnTruncated hexec).trans hempty
        simp only [Process.passagesOf, if_pos hempty, if_pos (hcut.emptied.mp hempty)]
        refine ⟨⟨List.not_mem_nil, ?_, iff_of_true hbuffer rfl⟩,
          .done (untouched_warnTruncated hexec), rfl⟩
        show 10 ∉ ctx'.lineBuffer
        rw [hbuffer]
        exact List.not_mem_nil
      -- the unfinished line passes as the only one
      · have hprinted : ¬ p.unfinished = [] := fun hnil => hempty (hcut.emptied.mpr hnil)
        rw [if_neg hempty] at hexec
        simp only [Option.bind_eq_bind, Option.bind_eq_some_iff] at hexec
        rcases hexec with ⟨line, hline, mid, hwarned, hlogged⟩
        have hpass : passLine around p.ctx.masks
            (!mid.disablePrefixing || !p.ctx.partialIsContinuation) p.ctx.lineBuffer mid =
              some ctx' := by
          rw [passLine, hline]
          exact hlogged
        simp only [Process.passagesOf, if_neg hempty, hwarned, Option.elim_some, hpass,
          if_neg hprinted]
        have hbuffer := (lineBuffer_logWith hlogged).trans (lineBuffer_warnTruncated hwarned)
        refine ⟨⟨List.not_mem_nil, ?_, iff_of_true hbuffer rfl⟩, ?_, rfl⟩
        · show 10 ∉ ctx'.lineBuffer
          rw [hbuffer]
          exact List.not_mem_nil
        · have hemptied : Untouched p.ctx
              { p.ctx with partialIsContinuation := false, lineBuffer := [] } :=
            ⟨rfl, rfl, rfl, fun _ => rfl⟩
          exact .line (hemptied.trans (untouched_warnTruncated hwarned))
            ⟨line, _, hline, hlogged⟩ (.done (.refl ctx'))

/-- A run takes the step through the passages of its lines. -/
theorem passes_of_run {ok : List (Passage R) → Process R → Handover → Prop} {ctx : StepContext R}
    (hbuffer : ctx.lineBuffer = []) {past : List (Passage R)} {p : Process R}
    (hrun : (outputProcess around).Run ok ⟨ctx, []⟩ past p) : Passes around ctx past p.ctx := by
  have hempty : 10 ∉ ctx.lineBuffer := by
    rw [hbuffer]
    exact List.not_mem_nil
  have hall : p.Cut ∧ Passes around ctx past p.ctx := by
    refine hrun.invariant (I := fun past p => p.Cut ∧ Passes around ctx past p.ctx)
      ⟨⟨List.not_mem_nil, hempty, iff_of_true hbuffer rfl⟩, .done (.refl ctx)⟩ ?_
    intro past p handover p' qs hI _ hstep
    rcases passes_handover hI.1 hstep with ⟨hcut, hpasses, -⟩
    exact ⟨hcut, hI.2.append hpasses⟩
  exact hall.2

end Output

end Worker

end Preloop

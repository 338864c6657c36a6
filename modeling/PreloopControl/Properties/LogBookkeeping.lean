import PreloopControl.Properties.LiveQueue
import PreloopControl.Properties.StepOutput

/-!
# The Lines of the Durable Log

Every record that is written ends in a line feed, and the count of lines goes up by the line
feeds of the record. A mask that goes over the log later keeps the line feeds, but where it
redacts the last one it leaves a marker behind it, and with that a line that nothing counts. As
long as no mask does, the count is that of the lines.

What is read from the log are not these lines but their image under the hints of the job, which
go over the whole text once more. That pass keeps the line feeds too, and can redact the last one
as well. Where it does not, the image has the lines the count says, and what lies behind a
checkpoint has as many lines as were written since.

The lines of the live feed are counted with each batch that is sent. A batch of one empty line is
sent as no line.

## Main definitions

* `Terminated`, `physicalLines`: The lines of a text.
* `OutputCall`, `outputMachine`: Lines that are logged, and masks that are registered.
* `KeepsEnd`, `HintsKeepEnd`: No mask redacts the end of the log, and no hint does.

## Theorems

* `linesAfter_split`: A text is cut behind a number of lines.
* `counted_run`: The count along a run.
* `log_bookkeeping`: Runs and live lines.
-/

namespace Preloop

namespace Worker

namespace Output

open Masking

variable {R : Type} {around : Surroundings R}

/-! ## Lines of a text -/

/-- The text is empty or ends in a line feed. -/
def Terminated (t : Text) : Prop := t = [] ∨ t.getLast? = some '\n'

instance (t : Text) : Decidable (Terminated t) := inferInstanceAs (Decidable (_ ∨ _))

/-- The lines of a text; the last one may lack its line feed. -/
def physicalLines (t : Text) : Nat := t.count '\n' + if Terminated t then 0 else 1

theorem terminated_append (t : Text) (line : Text) : Terminated (t ++ (line ++ ['\n'])) := by
  right
  rw [← List.append_assoc, List.getLast?_concat]

/-- A text is cut behind a number of lines it has. -/
theorem linesAfter_split : ∀ {n : Nat} {t : Text}, n ≤ t.count '\n' → ∃ old,
    t = old ++ linesAfter n t ∧ old.count '\n' = n ∧ Terminated old := by
  intro n t
  induction t generalizing n with
  | nil =>
      intro h
      rw [List.count_nil, Nat.le_zero] at h
      subst h
      exact ⟨[], rfl, rfl, .inl rfl⟩
  | cons c t ih =>
      intro h
      cases n with
      | zero => exact ⟨[], rfl, rfl, .inl rfl⟩
      | succ n =>
          -- the first character ends a line, or it belongs to the first of the old ones
          rw [linesAfter]
          by_cases hc : c = '\n'
          · subst hc
            rw [if_pos rfl]
            rw [List.count_cons_self, Nat.add_le_add_iff_right] at h
            rcases ih h with ⟨old, ht, hcount, hend⟩
            refine ⟨'\n' :: old, ?_, ?_, .inr ?_⟩
            · rw [List.cons_append, ← ht]
            · rw [List.count_cons_self, hcount]
            · rcases hend with rfl | hend
              · rfl
              · rw [List.getLast?_cons, hend]
                rfl
          · rw [if_neg hc]
            rw [List.count_cons_of_ne hc] at h
            rcases ih h with ⟨old, ht, hcount, hend⟩
            refine ⟨c :: old, ?_, ?_, .inr ?_⟩
            · rw [List.cons_append, ← ht]
            · rw [List.count_cons_of_ne hc, hcount]
            · rcases hend with rfl | hend
              · cases hcount
              · rw [List.getLast?_cons, hend]
                rfl

theorem Terminated.tail {c : Char} {t : Text} (h : Terminated (c :: t)) : Terminated t := by
  rcases h with h | h
  · cases h
  · cases t with
    | nil => exact .inl rfl
    | cons d t => exact .inr h

/-- What is behind all lines of a text. -/
theorem linesAfter_append {old : Text} (hend : Terminated old) (t : Text) :
    linesAfter (old.count '\n') (old ++ t) = t := by
  induction old with
  | nil => rw [List.count_nil, List.nil_append, linesAfter]
  | cons c old ih =>
      have htail := hend.tail
      have hrest := ih htail
      by_cases hc : c = '\n'
      · subst hc
        rw [List.count_cons_self, List.cons_append, linesAfter, if_pos rfl]
        exact hrest
      · -- a line feed is still to come
        have hsome : 0 < old.count '\n' := by
          rcases hend with h | h
          · cases h
          · rcases htail with rfl | htail
            · exact absurd (Option.some.inj h) hc
            · exact List.count_pos_iff.mpr (List.mem_of_getLast? htail)
        rcases Nat.exists_eq_add_of_lt hsome with ⟨n, hn⟩
        rw [Nat.zero_add] at hn
        rw [List.count_cons_of_ne hc, hn, List.cons_append, linesAfter, if_neg hc, ← hn]
        exact hrest

/-! ## The count -/

/-- The count is that of the lines, and the last one is complete. -/
structure Durable.Counted (d : Durable) : Prop where
  terminated : Terminated d.content
  counted : d.count = d.content.count '\n'

theorem Durable.Counted.physicalLines {d : Durable} (h : d.Counted) :
    physicalLines d.content = d.count := by
  rw [Output.physicalLines, if_pos h.terminated, h.counted]
  rfl

theorem Durable.Counted.writes {d : Durable} (h : d.Counted) (lines : List Text) :
    (lines.foldl Durable.write d).Counted ∧ ∃ written : Text,
      (lines.foldl Durable.write d).content = d.content ++ written := by
  induction lines generalizing d with
  | nil => exact ⟨h, [], (List.append_nil _).symm⟩
  | cons line lines ih =>
      have hone : (d.write line).Counted := by
        refine ⟨terminated_append d.content line, ?_⟩
        have hline : (line ++ ['\n']).count '\n' = line.count '\n' + 1 := by
          rw [List.count_append, List.count_singleton_self]
        show d.count + (line.count '\n' + 1) = (d.content ++ (line ++ ['\n'])).count '\n'
        rw [List.count_append, hline, h.counted]
      rcases ih hone with ⟨hcounted, written, hwritten⟩
      refine ⟨hcounted, line ++ ['\n'] ++ written, ?_⟩
      rw [← List.append_assoc]
      exact hwritten

/-- Masking leaves the end of a text where it is. -/
def EndKept (around : Surroundings R) (secrets : List Text) (content : Text) : Prop :=
  secrets ≠ [] → Terminated (maskPreservingLines around secrets content)

theorem Durable.Counted.masked (hsolid : Transforms.Solid (some around.transforms)) {d : Durable}
    (h : d.Counted) {secrets : List Text} (hend : EndKept around secrets d.content) :
    (d.mask around secrets).Counted := by
  unfold Durable.mask
  by_cases hnone : secrets = []
  · rw [if_pos hnone]
    exact h
  · rw [if_neg hnone]
    refine ⟨hend hnone, ?_⟩
    show d.count = (maskPreservingLines around secrets d.content).count '\n'
    rw [maskPreservingLines, count_maskSecretsInner hsolid, h.counted]

/-! ## Runs -/

/-- What writes to the log, or goes over it. -/
inductive OutputCall
  | log (line : Text)
  | logRaw (line : Text)
  | retroactiveMask (secrets : List Text)

def OutputCall.exec (around : Surroundings R) (ctx : StepContext R) :
    OutputCall → Option (StepContext R)
  | .log line => Output.log around line ctx
  | .logRaw line => Output.logRaw around line ctx
  | .retroactiveMask secrets => some (Output.retroactiveMask around secrets ctx)

/-- Calls one after the other; what is seen of a run are its calls. -/
def outputMachine (around : Surroundings R) : Machine (StepContext R) OutputCall OutputCall :=
  ⟨fun call ctx => (call.exec around ctx).map fun ctx => (ctx, [call])⟩

/-- The masks that a call lets go over the log. -/
def masksOf (around : Surroundings R) (ctx : StepContext R) : OutputCall → List Text
  | .log line =>
    if ctx.stopCommandsToken = none then
      (parseCommand around.lowercase line).join.elim [] fun cmd =>
        if cmd.name = "add-mask".toList then maskValues cmd.data else []
    else []
  | .logRaw _ => []
  | .retroactiveMask secrets => secrets

/-- No mask of the call redacts the end of the log. -/
def KeepsEnd (around : Surroundings R) (ctx : StepContext R) (call : OutputCall) : Prop :=
  EndKept around (masksOf around ctx call) ctx.logFile

/-- The hints of the job leave the end of the log where it is when it is read. -/
def HintsKeepEnd (around : Surroundings R) (ctx : StepContext R) : Prop :=
  Terminated (maskAssembledLog around ctx.logFile)

/-- The hints keep the line feeds. -/
theorem count_maskAssembledLog (hsolid : Transforms.Solid (some around.transforms))
    (content : Text) : (maskAssembledLog around content).count '\n' = content.count '\n' := by
  unfold maskAssembledLog
  split_ifs
  · rfl
  · rw [maskPreservingLines, count_maskSecretsInner hsolid]

/-- A call lets its masks go over the log, and then writes. -/
theorem exec_durable {call : OutputCall} {ctx ctx' : StepContext R}
    (h : call.exec around ctx = some ctx') : ∃ lines : List Text,
      ctx'.durable =
        lines.foldl Durable.write (ctx.durable.mask around (masksOf around ctx call)) := by
  have hnone : ctx.durable.mask around [] = ctx.durable := if_pos rfl
  cases call with
  | logRaw line =>
      rw [masksOf, hnone]
      exact (logRaw_emits h).durable
  -- the masks go over the log and nothing is written
  | retroactiveMask secrets =>
      cases h
      refine ⟨[], ?_⟩
      show (Output.retroactiveMask around secrets ctx).durable = ctx.durable.mask around secrets
      unfold Output.retroactiveMask Durable.mask
      split_ifs <;> rfl
  | log line =>
      cases htoken : ctx.stopCommandsToken with
      -- commands are suspended, so the line is at most written
      | some token =>
          have hstop : ¬ ctx.stopCommandsToken = none := by
            rw [htoken]
            exact Option.some_ne_none token
          rw [masksOf, if_neg hstop, hnone]
          have hline : some (logSuspended around token line ctx) = some ctx' :=
            (log_suspended htoken).symm.trans h
          cases hline
          unfold logSuspended
          split_ifs
          · exact ⟨[], rfl⟩
          · exact (writeLog_emits _ ctx).durable
      | none =>
          rw [masksOf, if_pos htoken]
          rcases log_effect htoken h with ⟨hparse, hemits⟩ |
            ⟨cmd, hparse, ⟨hstop, rfl⟩ | ⟨-, hobeys⟩⟩
          -- the line is no command
          · rw [hparse]
            exact hemits.durable
          -- the command that suspends others has no masks
          · have hname : ¬ cmd.name = "add-mask".toList := by
              rw [hstop.1]
              decide
            rw [hparse]
            show ∃ lines : List Text, _ = lines.foldl Durable.write (ctx.durable.mask around
              (if cmd.name = "add-mask".toList then maskValues cmd.data else []))
            rw [if_neg hname, hnone]
            exact ⟨[], rfl⟩
          -- a mask is obeyed, and so is any other command
          · have hobey : ctx.durable.obey around cmd = ctx.durable.mask around
                (if cmd.name = "add-mask".toList then maskValues cmd.data else []) := by
              unfold Durable.obey
              split_ifs
              · rfl
              · exact hnone.symm
            rw [hparse]
            show ∃ lines : List Text, _ = lines.foldl Durable.write (ctx.durable.mask around
              (if cmd.name = "add-mask".toList then maskValues cmd.data else []))
            rw [← hobey]
            exact hobeys.durable

section Runs

variable {start ctx ctx' : StepContext R} {past : List OutputCall}

/-- A run keeps the count, which only grows. -/
theorem counted_run (hsolid : Transforms.Solid (some around.transforms))
    (hstart : start.durable.Counted)
    (hrun : (outputMachine around).Run (fun _ ctx call => KeepsEnd around ctx call) start
      past ctx) :
    ctx.durable.Counted ∧ start.logLineCount ≤ ctx.logLineCount := by
  refine hrun.invariant (I := fun _ ctx => ctx.durable.Counted ∧
    start.logLineCount ≤ ctx.logLineCount) ⟨hstart, Nat.le_refl _⟩ ?_
  intro past ctx call ctx' calls hI hkept hstep
  rcases Option.map_eq_some_iff.mp hstep with ⟨after, hcall, hpair⟩
  cases hpair
  rcases exec_durable hcall with ⟨lines, hlines⟩
  have hmasked := hI.1.masked hsolid hkept
  rcases hmasked.writes lines with ⟨hcounted, written, hwritten⟩
  rw [← hlines] at hcounted hwritten
  refine ⟨hcounted, hI.2.trans ?_⟩
  have hbefore : (ctx.durable.mask around (masksOf around ctx call)).count = ctx.logLineCount := by
    unfold Durable.mask
    split_ifs <;> rfl
  rw [← hbefore, hmasked.counted]
  show _ ≤ ctx'.durable.count
  rw [hcounted.counted, hwritten, List.count_append]
  exact Nat.le_add_right _ _

/-- Without masks a run only writes behind what is there. -/
theorem extended_run (hstart : start.durable.Counted)
    (hrun : (outputMachine around).Run (fun _ ctx call => masksOf around ctx call = []) start past
      ctx) : ∃ written : Text, ctx.logFile = start.logFile ++ written := by
  have hall : ctx.durable.Counted ∧ ∃ written : Text, ctx.logFile = start.logFile ++ written := by
    refine hrun.invariant (I := fun _ ctx => ctx.durable.Counted ∧
      ∃ written : Text, ctx.logFile = start.logFile ++ written)
      ⟨hstart, [], (List.append_nil _).symm⟩ ?_
    intro past ctx call ctx' calls hI hnone hstep
    rcases Option.map_eq_some_iff.mp hstep with ⟨after, hcall, hpair⟩
    cases hpair
    rcases exec_durable hcall with ⟨lines, hlines⟩
    rw [hnone, Durable.mask, if_pos rfl] at hlines
    rcases hI.1.writes lines with ⟨hcounted, more, hmore⟩
    rw [← hlines] at hcounted hmore
    rcases hI.2 with ⟨written, hwritten⟩
    refine ⟨hcounted, written ++ more, ?_⟩
    rw [← List.append_assoc, ← hwritten]
    exact hmore
  exact hall.2

/-- What is behind a checkpoint of a text that ends in a line feed does so too. -/
theorem terminated_of_append {old t : Text} (h : Terminated (old ++ t)) : Terminated t := by
  by_cases ht : t = []
  · exact .inl ht
  · rcases h with h | h
    · exact absurd (List.append_eq_nil_iff.mp h).2 ht
    · rw [List.getLast?_append_of_ne_nil old ht] at h
      exact .inr h

/-- The durable log and its checkpoints, in a run of calls no mask of which redacts the end of the
    log, and the wrappers of the live feed. -/
theorem log_bookkeeping (around : Surroundings R)
    (hsolid : Transforms.Solid (some around.transforms)) :
    (∀ start past ctx, start.logFile = [] → start.logLineCount = 0 →
      (outputMachine around).Run (fun _ c call => KeepsEnd around c call) start past ctx →
        physicalLines ctx.logFile = ctx.logLineCount ∧
        ∀ later ctx', (outputMachine around).Run (fun _ c call => KeepsEnd around c call) ctx later
            ctx' → HintsKeepEnd around ctx' →
          ∃ old, ctx'.logContent around =
              old ++ ctx'.logContentSince around ctx.logLineCount ∧
            physicalLines old = ctx.logLineCount ∧
            physicalLines (ctx'.logContentSince around ctx.logLineCount) =
              ctx'.logLineCount - ctx.logLineCount ∧
            ((outputMachine around).Run (fun _ c call => masksOf around c call = []) ctx later
                ctx' → ∃ written, ctx'.logFile = ctx.logFile ++ written ∧
              physicalLines written =
                physicalLines (ctx'.logContentSince around ctx.logLineCount) ∧
              (ctx'.logContent around = ctx'.logFile →
                ctx'.logContentSince around ctx.logLineCount = written))) ∧
    ∀ past q, (liveMachine around.transforms).Run (fun _ _ _ => True) LiveQueue.init past q →
      ∀ batch wrapper, .transmitted batch wrapper ∈ past →
        (wrapper.value.length = wrapper.count ↔ Whole batch) := by
  refine ⟨fun start past ctx hempty hzero hrun => ?_, fun past q hrun batch wrapper hmem => ?_⟩
  · have hstart : start.durable.Counted := ⟨.inl hempty, by
      show start.logLineCount = start.logFile.count '\n'
      rw [hempty, hzero, List.count_nil]⟩
    -- the counter and the file agree at the checkpoint and at the later state
    have hctx := (counted_run hsolid hstart hrun).1
    refine ⟨hctx.physicalLines, fun later ctx' hlater hhints => ?_⟩
    rcases counted_run hsolid hctx hlater with ⟨hctx', hle⟩
    have hfeeds : (ctx'.logContent around).count '\n' = ctx'.logLineCount :=
      (count_maskAssembledLog hsolid ctx'.logFile).trans hctx'.counted.symm
    -- the later log splits behind as many lines as the checkpoint counts
    rcases linesAfter_split (hle.trans hfeeds.symm.le) with ⟨old, hold, hcount, hend⟩
    have hsince : Terminated (ctx'.logContentSince around ctx.logLineCount) := by
      have hwhole : Terminated (ctx'.logContent around) := hhints
      rw [hold] at hwhole
      exact terminated_of_append hwhole
    have hlines : physicalLines (ctx'.logContentSince around ctx.logLineCount) =
        ctx'.logLineCount - ctx.logLineCount := by
      have hall : (old ++ ctx'.logContentSince around ctx.logLineCount).count '\n' =
          ctx'.logLineCount := (congrArg _ hold.symm).trans hfeeds
      rw [List.count_append, hcount] at hall
      rw [physicalLines, if_pos hsince, ← hall]
      omega
    refine ⟨old, hold, ?_, hlines, fun hnone => ?_⟩
    · rw [physicalLines, if_pos hend, hcount, Nat.add_zero]
    · -- what is written behind the log is what is behind its lines
      rcases extended_run hctx hnone with ⟨written, hwritten⟩
      have hcounted : ctx.logLineCount = ctx.logFile.count '\n' := hctx.counted
      refine ⟨written, hwritten, ?_, fun huntouched => ?_⟩
      · have hwhole : Terminated ctx'.logFile := hctx'.terminated
        have hboth : ctx'.logLineCount = ctx'.logFile.count '\n' := hctx'.counted
        rw [hwritten] at hwhole hboth
        rw [List.count_append, ← hcounted] at hboth
        rw [hlines, physicalLines, if_pos (terminated_of_append hwhole), hboth]
        omega
      -- an untouched log is the file, cut behind the lines of the checkpoint
      · rw [StepContext.logContentSince, huntouched, hwritten, hcounted]
        exact linesAfter_append hctx.terminated written
  · rcases (queueAccounted_of_run hrun).wrapped batch wrapper hmem with ⟨masks, plain, hplain, rfl⟩
    exact wrapper_carries_iff hsolid masks hplain

end Runs

theorem plainSurroundings_solid : Transforms.Solid (some plainSurroundings.transforms) := by
  rintro t ⟨⟩ secret h
  cases h

/-- Two calls, one after the other. -/
theorem run_of_two {around : Surroundings Unit}
    {ok : List OutputCall → StepContext Unit → OutputCall → Prop}
    {start ctx : StepContext Unit} (first second : OutputCall) (mid : StepContext Unit)
    (hfirst : first.exec around start = some mid) (hsecond : second.exec around mid = some ctx)
    (hok : ok [] start first) (hok' : ok [first] mid second) :
    (outputMachine around).Run ok start [first, second] ctx := by
  have hstep : ∀ {c : OutputCall} {s s' : StepContext Unit}, c.exec around s = some s' →
      (outputMachine around).advance c s = some (s', [c]) := by
    intro c s s' h
    show (c.exec around s).map _ = _
    rw [h]
    rfl
  exact .step (.step .start hok (hstep hfirst)) hok' (hstep hsecond)

/-- A step that has logged a line. -/
def wordStep (line : Text) : StepContext Unit :=
  { plainStep [] [] with
    logFile := "2026-01-01T00:00:00Z ".toList ++ (line ++ ['\n']), logLineCount := 1, clock := 1 }

/-- A mask for a word of the line keeps the count, and the line behind the start is read. -/
theorem log_bookkeeping_of_word :
    physicalLines (retroactiveMask plainSurroundings ["abc".toList]
        (wordStep "key abc".toList)).logFile = 1 ∧
      physicalLines ((retroactiveMask plainSurroundings ["abc".toList]
        (wordStep "key abc".toList)).logContentSince plainSurroundings 0) = 1 := by
  have hkept : EndKept plainSurroundings ["abc".toList] (wordStep "key abc".toList).logFile := by
    intro _
    decide
  have hrun : (outputMachine plainSurroundings).Run
      (fun _ c call => KeepsEnd plainSurroundings c call) (plainStep [] [])
      [.logRaw "key abc".toList, .retroactiveMask ["abc".toList]]
      (retroactiveMask plainSurroundings ["abc".toList] (wordStep "key abc".toList)) :=
    run_of_two _ _ (wordStep "key abc".toList) rfl rfl (fun h => absurd rfl h) hkept
  have hholds := log_bookkeeping plainSurroundings plainSurroundings_solid
  have hhints : HintsKeepEnd plainSurroundings (retroactiveMask plainSurroundings ["abc".toList]
      (wordStep "key abc".toList)) := by
    show Terminated _
    decide
  obtain ⟨-, -, -, hsince, -⟩ := (hholds.1 _ _ _ rfl rfl .start).2 _ _ hrun hhints
  exact ⟨(hholds.1 _ _ _ rfl rfl hrun).1, hsince⟩

/-- A job with a hint for a block of lines, which takes the line feed behind the block along. -/
def blockSurroundings : Surroundings Unit :=
  { plainSurroundings with
    patterns := [fun t => if t = "BEGIN\nEND\n".toList then [(0, 10)] else []] }

/-- A step whose lines are not stamped. -/
def unstampedStep (logFile : Text) (clock : Nat) : StepContext Unit :=
  { plainStep [] logFile with stdoutPrefixOverride := some false, clock := clock }

/-- A mask with a line feed at its end leaves a line that is not counted, so does a hint when the
    log is read, and an empty line is counted and not sent. -/
theorem bookkeeping_drifts :
    (∃ past ctx, (outputMachine plainSurroundings).Run (fun _ _ _ => True) (plainStep [] []) past
        ctx ∧ physicalLines ctx.logFile ≠ ctx.logLineCount) ∧
      (∃ past ctx, (outputMachine blockSurroundings).Run (fun _ _ _ => True) (unstampedStep [] 0)
          past ctx ∧ physicalLines (ctx.logContentSince blockSurroundings 0) ≠ ctx.logLineCount) ∧
      ∃ past q batch wrapper, (liveMachine plainSurroundings.transforms).Run (fun _ _ _ => True)
          LiveQueue.init past q ∧ .transmitted batch wrapper ∈ past ∧
        wrapper.value.length ≠ wrapper.count := by
  refine ⟨?_, ?_, ?_⟩
  · refine ⟨_, _, run_of_two (.logRaw "key abc".toList) (.retroactiveMask ["abc\n".toList])
      (wordStep "key abc".toList) rfl rfl trivial trivial, ?_⟩
    decide
  · refine ⟨_, _, run_of_two (.logRaw "BEGIN".toList) (.logRaw "END".toList)
      (unstampedStep "BEGIN\n".toList 1) rfl rfl trivial trivial, ?_⟩
    decide
  · have hexec : (liveMachine plainSurroundings.transforms).exec (sendOne []) [] LiveQueue.init =
        some (sentOne [] [], ⟨[], some ⟨0, 1⟩, .sending []⟩) := by
      decide
    refine ⟨_, _, [⟨"build".toList, [], 1⟩], ⟨"build".toList, 1, 1, []⟩,
      Machine.run_of_exec (fun _ _ _ _ => trivial) .start hexec, ?_, by decide⟩
    exact List.mem_cons_of_mem _ List.mem_cons_self

end Output

end Worker

end Preloop

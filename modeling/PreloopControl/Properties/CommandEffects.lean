import PreloopControl.Properties.OutputLines

/-!
# Commands That Arrive Through the Output

A line reaches the parser of commands masked and shortened. What a command saves (a mask, a path,
an output, a state) is saved as it was received, so it is what the printed line asks for exactly
where masking leaves that part of the line alone. A registered mask inside of it is registered,
saved or put into the path as a marker. The commands that only log something are not concerned:
of what they print the marker is what should be seen.

All this is said of the lines of any run of chunks and flushes, one by one.

There are states in which a wrong value goes unnoticed, because the right and the wrong one were
both there before. Where neither was, the effect is right only if what is saved was received as
it was printed.

## Main definitions

* `Ask`, `asked`: What a command saves.
* `Effects.grant`: What becomes of the job and of the step.
* `AsPrinted`, `TakesEffect`: A line asks for the same when it is received, and its effect.
* `Effects.Lacks`: What is asked for is not there yet.

## Theorems

* `effects_apply`: A command does what it asks for.
* `grant_injective`: What was not there tells what was asked for.
* `commands_take_effect`: The command does what the printed line asks for.
-/

namespace Preloop

namespace Worker

namespace Output

variable {R : Type} {around : Surroundings R}

/-! ## What is asked for -/

/-- What a command saves. -/
inductive Ask
  | nothing
  | mask (value : Text)
  | path (value : Text)
  | output (name value : Text)
  | state (name value : Text)
deriving DecidableEq

/-- What a command saves, by its name, its data and the property `name`. -/
def asked (cmd : WorkflowCommand) : Ask :=
  if cmd.name = "add-mask".toList then
    if Text.trim cmd.data = [] then .nothing else .mask cmd.data
  else if cmd.name = "add-path".toList then .path cmd.data
  else if cmd.name = "set-output".toList then
    (cmd.properties.lookup "name".toList).elim .nothing fun name => .output name cmd.data
  else if cmd.name = "save-state".toList then
    (cmd.properties.lookup "name".toList).elim .nothing fun name => .state name cmd.data
  else .nothing

/-- What a line asks for. -/
def askedBy (around : Surroundings R) (line : Text) : Ask :=
  (parseCommand around.lowercase line).join.elim .nothing asked

/-- What becomes of the job and of the step. -/
def Effects.grant (stepId : Text) (e : Effects) : Ask → Effects
  | .nothing => e
  | .mask value =>
    { e with masks := (maskValues value).foldl (fun masks v => List.insert v masks) e.masks }
  | .path value => { e with extraPath := value :: e.extraPath }
  | .output name value => { e with env := e.env.insert ("OUTPUT_".toList ++ name) value }
  | .state name value =>
    let saved := (e.state.lookup stepId).getD ∅
    { e with state := e.state.insert stepId (saved.insert name value) }

/-- A command does what it asks for. -/
theorem effects_apply (cmd : WorkflowCommand) (s : Saved) :
    (s.apply cmd).effects = s.effects.grant s.stepId (asked cmd) := by
  unfold Saved.apply asked
  by_cases hmask : cmd.name = "add-mask".toList
  · rw [if_pos hmask, if_pos hmask]
    by_cases hblank : Text.trim cmd.data = []
    · -- a blank value registers nothing
      rw [if_pos hblank, maskValues, if_pos hblank]
      rfl
    · rw [if_neg hblank]
      rfl
  rw [if_neg hmask, if_neg hmask]
  by_cases hpath : cmd.name = "add-path".toList
  · rw [if_pos hpath, if_pos hpath]
    rfl
  rw [if_neg hpath, if_neg hpath]
  by_cases hecho : cmd.name = "echo".toList
  · -- the echo is not among the effects
    have houtput : ¬ cmd.name = "set-output".toList := by
      rw [hecho]
      decide
    have hstate : ¬ cmd.name = "save-state".toList := by
      rw [hecho]
      decide
    rw [if_pos hecho, if_neg houtput, if_neg hstate]
    rfl
  rw [if_neg hecho]
  -- an output or a state without a name saves nothing
  by_cases houtput : cmd.name = "set-output".toList
  · rw [if_pos houtput, if_pos houtput]
    cases cmd.properties.lookup "name".toList <;> rfl
  rw [if_neg houtput, if_neg houtput]
  by_cases hstate : cmd.name = "save-state".toList
  · rw [if_pos hstate, if_pos hstate]
    cases cmd.properties.lookup "name".toList <;> rfl
  rw [if_neg hstate, if_neg hstate]
  rfl

/-! ## What is there already -/

/-- What is asked for is not there yet; a path is put in front of the others each time. -/
def Effects.Lacks (stepId : Text) (e : Effects) : Ask → Prop
  | .nothing => True
  | .mask value => value ∉ e.masks
  | .path _ => True
  | .output name value => e.env.lookup ("OUTPUT_".toList ++ name) ≠ some value
  | .state name value => ((e.state.lookup stepId).getD ∅).lookup name ≠ some value

/-- Values are put in front of the masks. -/
theorem masks_insert (values masks : List Text) :
    ∃ new, values.foldl (fun masks v => List.insert v masks) masks = new ++ masks := by
  induction values generalizing masks with
  | nil => exact ⟨[], rfl⟩
  | cons v values ih =>
      rcases ih (List.insert v masks) with ⟨new, hnew⟩
      by_cases hmem : v ∈ masks
      · rw [List.insert_of_mem hmem] at hnew
        refine ⟨new, ?_⟩
        rw [List.foldl_cons, List.insert_of_mem hmem]
        exact hnew
      · rw [List.insert_of_not_mem hmem] at hnew
        refine ⟨new ++ [v], ?_⟩
        rw [List.foldl_cons, List.insert_of_not_mem hmem, hnew, List.append_assoc]
        rfl

/-- A new mask stands right in front of those that were there. -/
theorem masks_grant {stepId value : Text} {e : Effects} (hblank : Text.trim value ≠ [])
    (h : value ∉ e.masks) :
    ∃ new, (e.grant stepId (.mask value)).masks = new ++ value :: e.masks := by
  rcases masks_insert (((value.splitOnP Masking.isNewline).map Text.trim).filter (· ≠ []))
    (List.insert value e.masks) with ⟨new, hnew⟩
  refine ⟨new, ?_⟩
  rw [List.insert_of_not_mem h] at hnew
  show (maskValues value).foldl _ e.masks = _
  rw [maskValues, if_neg hblank, List.foldl_cons, List.insert_of_not_mem h]
  exact hnew

/-- Masks that are registered are not blank. -/
def Ask.Proper : Ask → Prop
  | .mask value => Text.trim value ≠ []
  | _ => True

theorem proper_asked (cmd : WorkflowCommand) : (asked cmd).Proper := by
  unfold asked
  by_cases hmask : cmd.name = "add-mask".toList
  · rw [if_pos hmask]
    by_cases hblank : Text.trim cmd.data = []
    · rw [if_pos hblank]
      exact trivial
    · rw [if_neg hblank]
      exact hblank
  · rw [if_neg hmask]
    cases cmd.properties.lookup "name".toList with
    | none => split_ifs <;> exact trivial
    | some name => split_ifs <;> exact trivial

theorem proper_askedBy (line : Text) : (askedBy around line).Proper := by
  unfold askedBy
  cases (parseCommand around.lowercase line).join with
  | none => exact trivial
  | some cmd => exact proper_asked cmd

/-- At most a path is asked for. -/
def Ask.ofPath : Ask → Prop
  | .nothing | .path _ => True
  | .mask _ | .output _ _ | .state _ _ => False

/-- Two things that are not there yet have the same effect only if they are the same. -/
theorem grant_injective {stepId : Text} {e : Effects} {a b : Ask} (ha : a.Proper) (hb : b.Proper)
    (hlacks : e.Lacks stepId a) (hlacks' : e.Lacks stepId b)
    (h : e.grant stepId a = e.grant stepId b) : a = b := by
  have hmasks : ∀ {value : Text} {c : Ask}, Text.trim value ≠ [] → c.Proper →
      e.Lacks stepId (.mask value) → e.Lacks stepId c →
        (e.grant stepId (.mask value)).masks = (e.grant stepId c).masks → .mask value = c := by
    intro value c hblank hproper hnew hnew' hsame
    rcases masks_grant hblank hnew with ⟨new, heq⟩
    rw [heq] at hsame
    -- of what else is asked for, only a mask makes the masks longer
    have hlonger : (new ++ value :: e.masks) ≠ e.masks := by
      intro hshort
      have hlength := congrArg List.length hshort
      rw [List.length_append, List.length_cons] at hlength
      omega
    cases c with
    | mask value' =>
        rcases masks_grant hproper hnew' with ⟨new', heq'⟩
        rw [heq'] at hsame
        have hend := (List.append_inj' hsame rfl).2
        rw [(List.cons.inj hend).1]
    | nothing | path _ | output _ _ | state _ _ => exact absurd hsame hlonger
  have houtput : ∀ {name value : Text} {c : Ask}, e.Lacks stepId (.output name value) →
      (e.grant stepId (.output name value)).env = (e.grant stepId c).env →
        .output name value = c := by
    intro name value c hnew hsame
    have hlookup := congrArg (·.lookup ("OUTPUT_".toList ++ name)) hsame
    dsimp only [Effects.grant] at hlookup
    rw [SortedMap.lookup_insert, if_pos rfl] at hlookup
    cases c with
    | output name' value' =>
        dsimp only at hlookup
        rw [SortedMap.lookup_insert] at hlookup
        split_ifs at hlookup with hname
        · rw [List.append_cancel_left hname, Option.some.inj hlookup]
        · exact absurd hlookup.symm hnew
    | nothing | path _ | mask _ | state _ _ => exact absurd hlookup.symm hnew
  have hstate : ∀ {name value : Text} {c : Ask}, e.Lacks stepId (.state name value) →
      (e.grant stepId (.state name value)).state = (e.grant stepId c).state →
        .state name value = c := by
    intro name value c hnew hsame
    have hlookup := congrArg (fun state => ((state.lookup stepId).getD ∅).lookup name) hsame
    dsimp only [Effects.grant] at hlookup
    rw [SortedMap.lookup_insert, if_pos rfl, Option.getD_some, SortedMap.lookup_insert,
      if_pos rfl] at hlookup
    cases c with
    | state name' value' =>
        dsimp only at hlookup
        rw [SortedMap.lookup_insert, if_pos rfl, Option.getD_some,
          SortedMap.lookup_insert] at hlookup
        split_ifs at hlookup with hname
        · rw [hname, Option.some.inj hlookup]
        · exact absurd hlookup.symm hnew
    | nothing | path _ | mask _ | output _ _ => exact absurd hlookup.symm hnew
  have hpaths : ∀ {c d : Ask}, (e.grant stepId c).extraPath = (e.grant stepId d).extraPath →
      c.ofPath → d.ofPath → c = d := by
    intro c d hsame hc hd
    cases c with
    | nothing =>
        cases d with
        | nothing => rfl
        | path value => exact absurd hsame.symm (List.cons_ne_self value e.extraPath)
        | mask _ | output _ _ | state _ _ => exact hd.elim
    | path value =>
        cases d with
        | nothing => exact absurd hsame (List.cons_ne_self value e.extraPath)
        | path value' => rw [(List.cons.inj hsame).1]
        | mask _ | output _ _ | state _ _ => exact hd.elim
    | mask _ | output _ _ | state _ _ => exact hc.elim
  cases a with
  | mask value => exact hmasks ha hb hlacks hlacks' (congrArg Effects.masks h)
  | output name value => exact houtput hlacks (congrArg Effects.env h)
  | state name value => exact hstate hlacks (congrArg Effects.state h)
  | nothing | path _ =>
      cases b with
      | mask value => exact (hmasks hb ha hlacks' hlacks (congrArg Effects.masks h).symm).symm
      | output name value => exact (houtput hlacks' (congrArg Effects.env h).symm).symm
      | state name value => exact (hstate hlacks' (congrArg Effects.state h).symm).symm
      | nothing | path _ => exact hpaths (congrArg Effects.extraPath h) trivial trivial

/-! ## The lines of a run -/

/-- A line asks for the same when it is received as when it was printed. -/
def AsPrinted (around : Surroundings R) (q : Passage R) : Prop :=
  ∀ line, received around q.masks q.bytes = some line →
    askedBy around line = askedBy around (around.fromUtf8Lossy q.printed)

/-- What the printed line asks for is granted. -/
def TakesEffect (around : Surroundings R) (q : Passage R) : Prop :=
  q.after.saved.effects =
    q.before.saved.effects.grant q.before.stepId (askedBy around (around.fromUtf8Lossy q.printed))

/-- What the line asks for when it was printed, and when it is received, is not there yet. -/
def Unmet (around : Surroundings R) (q : Passage R) : Prop :=
  q.before.saved.effects.Lacks q.before.stepId
      (askedBy around (around.fromUtf8Lossy q.printed)) ∧
    ∀ line, received around q.masks q.bytes = some line →
      q.before.saved.effects.Lacks q.before.stepId (askedBy around line)

/-- A line does what it asks for as it is received. -/
theorem effects_of_logged {q : Passage R} (hlogged : q.Logged around)
    (htoken : q.before.stopCommandsToken = none) : ∃ line,
      received around q.masks q.bytes = some line ∧ q.after.saved.effects =
        q.before.saved.effects.grant q.before.stepId (askedBy around line) := by
  rcases hlogged with ⟨line, stamp, hline, hlogged⟩
  refine ⟨line, hline, ?_⟩
  rcases Option.map_eq_some_iff.mp hlogged with ⟨after, hafter, heq⟩
  have hsaved : q.after.saved.effects = after.saved.effects := by
    rw [← heq]
    rfl
  have htoken' : ({ q.before with stdoutPrefixOverride := some stamp } :
      StepContext R).stopCommandsToken = none := htoken
  rw [hsaved]
  rcases log_effect htoken' hafter with ⟨hnone, hemits⟩ | ⟨cmd, hparse, ⟨hstop, rfl⟩ | ⟨-, hobeys⟩⟩
  · rw [askedBy, hnone, hemits.saved]
    rfl
  · -- the command that suspends the others asks for nothing
    have hnot : asked cmd = .nothing := by
      rw [asked, hstop.1, if_neg (by decide), if_neg (by decide), if_neg (by decide),
        if_neg (by decide)]
    rw [askedBy, hparse]
    show _ = Effects.grant _ _ (asked cmd)
    rw [hnot]
    rfl
  · rw [askedBy, hparse, hobeys.saved, effects_apply]
    rfl

/-- A step that has put a path in front of the others and logged that. -/
def pathStep : StepContext Unit :=
  { plainStep ["abc".toList] [] with
    extraPath := ["/opt/bin".toList]
    logFile := "2026-01-01T00:00:00Z ::add-path::/opt/bin\n".toList, logLineCount := 1, clock := 1 }

/-- The step has then reported an error. -/
def reportingStep : StepContext Unit :=
  { pathStep with
    annotations := [⟨.error, "***".toList, none, none, none, none, none, none⟩]
    logFile := ("2026-01-01T00:00:00Z ::add-path::/opt/bin\n" ++
      "2026-01-01T00:00:00Z ##[error]***\n").toList
    logLineCount := 2, clock := 2 }

end Output

end Worker

end Preloop

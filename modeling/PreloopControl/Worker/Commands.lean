import PreloopControl.Lib.Slices
import PreloopControl.Lib.Escapes
import PreloopControl.Lib.SortedMap

/-!
# Workflow Commands

The commands a step prints (`worker/commands.rs`): a line `::name key=val,key2=val2::data`,
or the older `##[name]data`. The parser works on slices at byte offsets, and answers nothing
where a slice would lie inside a character.

The lower case of a text is taken as given.

## Main definitions

* `WorkflowCommand`: A command that was parsed.
* `unescapeData`, `unescapeProperty`: The replacements that undo the escapes.
* `parseDoubleColon`, `parseLegacy`, `parseCommand`: The two forms of a line.
-/

namespace Preloop

namespace Worker

/-- `WorkflowCommand`. -/
structure WorkflowCommand where
  name : Text
  properties : SortedMap Text Text
  data : Text
deriving DecidableEq

/-- `unescape_data`. -/
def unescapeData (s : Text) : Text :=
  Escapes.replace ['%', '2', '5'] ['%'] <|
    Escapes.replace ['%', '0', 'D'] ['\r'] <| Escapes.replace ['%', '0', 'A'] ['\n'] s

/-- `unescape_property`. -/
def unescapeProperty (s : Text) : Text :=
  Escapes.replace ['%', '2', '5'] ['%'] <|
    Escapes.replace ['%', '0', 'D'] ['\r'] <|
      Escapes.replace ['%', '0', 'A'] ['\n'] <|
        Escapes.replace ['%', '2', 'C'] [','] <| Escapes.replace ['%', '3', 'A'] [':'] s

/-- `trim_start`. -/
def trimStart (t : Text) : Text := t.dropWhile Text.isWhitespace

variable (lowercase : Text → Text)

/-- One `key=val` of the properties. -/
def readProperty (properties : SortedMap Text Text) (pair : Text) :
    Option (SortedMap Text Text) :=
  match Text.findBytes ['='] pair with
  | some eqPos => do
    let key ← Text.sliceTo eqPos pair
    let val ← Text.sliceFrom (eqPos + 1) pair
    if key ≠ [] ∧ val ≠ [] then
      return properties.insert (lowercase key) (unescapeProperty val)
    else return properties
  | none => some properties

/-- The loop over the properties. -/
def readProperties (props : Text) : Option (SortedMap Text Text) :=
  ((Text.trim props).splitOn ',').foldlM (readProperty lowercase) ∅

/-- The name and the properties, at the first space. -/
def splitName (commandPart : Text) : Option (Text × Option Text) :=
  match Text.findBytes [' '] commandPart with
  | some spacePos => do
    let name ← Text.sliceTo spacePos commandPart
    let props ← Text.sliceFrom (spacePos + 1) commandPart
    return (name, some props)
  | none => some (commandPart, none)

/-- The data behind the colons. -/
def sliceData (endPos : Nat) (rest : Text) : Option Text :=
  if endPos + 2 < Text.utf8Len rest then Text.sliceFrom (endPos + 2) rest else some []

/-- `parse_double_colon`. -/
def parseDoubleColon (line : Text) : Option (Option WorkflowCommand) :=
  if "::".toList.isPrefixOf (trimStart line) then do
    let rest ← Text.sliceFrom 2 (trimStart line)
    match Text.findBytes "::".toList rest with
    | none => some none
    | some endPos => do
      let commandPart ← Text.sliceTo endPos rest
      let data ← sliceData endPos rest
      let (name, propsStr) ← splitName commandPart
      if name = [] then some none
      else do
        let properties ← propsStr.elim (some ∅) (readProperties lowercase)
        some (some { name := lowercase name, properties := properties, data := unescapeData data })
  else some none

/-- `parse_legacy`. -/
def parseLegacy (line : Text) : Option (Option WorkflowCommand) :=
  if "##[".toList.isPrefixOf (Text.trim line) then
    match Text.findBytes [']'] (Text.trim line) with
    | none => some none
    | some close => do
      let name ← Text.slice 3 close (Text.trim line)
      let data ← Text.sliceFrom (close + 1) (Text.trim line)
      some (some { name := lowercase name, properties := ∅, data := data })
  else some none

/-- `parse_command`. -/
def parseCommand (line : Text) : Option (Option WorkflowCommand) := do
  match ← parseDoubleColon lowercase line with
  | some cmd => return some cmd
  | none => parseLegacy lowercase line

/-! ## Without offsets -/

/-- What a pair adds to the properties. -/
def putProperty (properties : SortedMap Text Text) (pair : Text) : SortedMap Text Text :=
  match Text.cut ['='] pair with
  | some (key, val) =>
    if key ≠ [] ∧ val ≠ [] then properties.insert (lowercase key) (unescapeProperty val)
    else properties
  | none => properties

/-- The properties of a command. -/
def propertiesOf (props : Text) : SortedMap Text Text :=
  ((Text.trim props).splitOn ',').foldl (putProperty lowercase) ∅

/-- The command of what stands between the colons and behind them. -/
def commandOf (commandPart data : Text) : Option WorkflowCommand :=
  match Text.cut [' '] commandPart with
  | some (name, props) =>
    if name = [] then none
    else some { name := lowercase name, properties := propertiesOf lowercase props,
                data := unescapeData data }
  | none =>
    if commandPart = [] then none
    else some { name := lowercase commandPart, properties := ∅, data := unescapeData data }

/-- A line in the form with the colons. -/
def doubleColon (line : Text) : Option WorkflowCommand :=
  if "::".toList.isPrefixOf (trimStart line) then
    (Text.cut "::".toList ((trimStart line).drop 2)).bind fun p => commandOf lowercase p.1 p.2
  else none

/-- A line in the older form. -/
def legacy (line : Text) : Option WorkflowCommand :=
  if "##[".toList.isPrefixOf (Text.trim line) then
    (Text.cut [']'] ((Text.trim line).drop 3)).map fun p =>
      { name := lowercase p.1, properties := ∅, data := p.2 }
  else none

section Slices

variable {lowercase : Text → Text}

theorem readProperty_eq (properties : SortedMap Text Text) (pair : Text) :
    readProperty lowercase properties pair = some (putProperty lowercase properties pair) := by
  unfold readProperty putProperty
  cases hcut : Text.cut ['='] pair with
  | none => simp [Text.findBytes, hcut]
  | some p =>
      rcases p with ⟨key, val⟩
      have hval : Text.sliceFrom (Text.utf8Len key + 1) pair = some val := Text.sliceFrom_cut hcut
      rw [Text.findBytes_cut hcut]
      simp only [Text.sliceTo_cut hcut, hval, Option.bind_eq_bind, Option.bind_some]
      split <;> rfl

theorem readProperties_eq (props : Text) :
    readProperties lowercase props = some (propertiesOf lowercase props) := by
  have hfold : ∀ (pairs : List Text) (properties : SortedMap Text Text),
      pairs.foldlM (readProperty lowercase) properties =
        some (pairs.foldl (putProperty lowercase) properties) := by
    intro pairs
    induction pairs with
    | nil => exact fun properties => rfl
    | cons pair pairs ih =>
        intro properties
        rw [List.foldlM_cons, readProperty_eq, List.foldl_cons]
        exact ih _
  exact hfold _ _

theorem splitName_eq (commandPart : Text) : splitName commandPart =
    some (((Text.cut [' '] commandPart).map fun p => (p.1, some p.2)).getD
      (commandPart, none)) := by
  unfold splitName
  cases hcut : Text.cut [' '] commandPart with
  | none => simp [Text.findBytes, hcut]
  | some p =>
      rcases p with ⟨name, props⟩
      have hprops : Text.sliceFrom (Text.utf8Len name + 1) commandPart = some props :=
        Text.sliceFrom_cut hcut
      rw [Text.findBytes_cut hcut]
      simp [Text.sliceTo_cut hcut, hprops]

/-- The data is sliced only where there is some. -/
theorem sliceData_eq {rest commandPart data : Text}
    (hcut : Text.cut "::".toList rest = some (commandPart, data)) :
    sliceData (Text.utf8Len commandPart) rest = some data := by
  unfold sliceData
  by_cases hlen : Text.utf8Len commandPart + 2 < Text.utf8Len rest
  · rw [if_pos hlen]
    exact Text.sliceFrom_cut hcut
  · rw [if_neg hlen]
    rw [Text.cut_eq hcut] at hlen
    cases data with
    | nil => rfl
    | cons c data =>
        have hsize := c.utf8Size_pos
        have hcolons : Text.utf8Len "::".toList = 2 := rfl
        simp only [Text.utf8Len_append, Text.utf8Len_cons, hcolons] at hlen
        omega

/-- Every slice is at the place of what was found. -/
theorem parseDoubleColon_eq (line : Text) :
    parseDoubleColon lowercase line = some (doubleColon lowercase line) := by
  unfold parseDoubleColon doubleColon
  by_cases hpre : "::".toList.isPrefixOf (trimStart line) = true
  · rw [if_pos hpre, if_pos hpre]
    rcases List.isPrefixOf_iff_prefix.mp hpre with ⟨rest, hrest⟩
    -- the slices of the source are where the marks were found
    have hslice : Text.sliceFrom 2 (trimStart line) = some rest := by
      rw [← hrest]
      exact Text.sliceFrom_append "::".toList rest
    have hdrop : (trimStart line).drop 2 = rest := by
      rw [← hrest]
      rfl
    rw [hslice, hdrop]
    cases hcut : Text.cut "::".toList rest with
    | none =>
        have hfind : Text.findBytes "::".toList rest = none := by
          rw [Text.findBytes, hcut]
          rfl
        rw [Option.bind_eq_bind, Option.bind_some, hfind]
        rfl
    | some p =>
        rcases p with ⟨commandPart, data⟩
        rw [Option.bind_eq_bind, Option.bind_some, Text.findBytes_cut hcut]
        simp only [Option.bind_eq_bind, Option.bind_some, Text.sliceTo_cut hcut, sliceData_eq hcut,
          splitName_eq, commandOf]
        cases hname : Text.cut [' '] commandPart with
        | none =>
            simp only [Option.map_none, Option.getD_none, Option.elim_none, Option.bind_some]
            split <;> rfl
        | some q =>
            simp only [Option.map_some, Option.getD_some, Option.elim_some, readProperties_eq,
              Option.bind_some]
            split <;> rfl
  · rw [if_neg hpre, if_neg hpre]

theorem parseLegacy_eq (line : Text) :
    parseLegacy lowercase line = some (legacy lowercase line) := by
  unfold parseLegacy legacy
  by_cases hpre : "##[".toList.isPrefixOf (Text.trim line) = true
  · rw [if_pos hpre, if_pos hpre]
    rcases List.isPrefixOf_iff_prefix.mp hpre with ⟨rest, hrest⟩
    -- the closing bracket is none of those in front
    have hcut : Text.cut [']'] (Text.trim line) =
        (Text.cut [']'] rest).map fun p => ("##[".toList ++ p.1, p.2) := by
      rw [← hrest]
      cases h : Text.cut [']'] rest <;> simp [Text.cut, h]
    have hdrop : (Text.trim line).drop 3 = rest := by
      rw [← hrest]
      rfl
    rw [hdrop]
    cases hrestcut : Text.cut [']'] rest with
    | none =>
        rw [hrestcut] at hcut
        simp [Text.findBytes, hcut]
    | some p =>
        rcases p with ⟨name, data⟩
        rw [hrestcut] at hcut
        have hname := Text.slice_cut hcut
        have hdata : Text.sliceFrom (Text.utf8Len ("##[".toList ++ name) + 1) (Text.trim line) =
            some data := Text.sliceFrom_cut hcut
        have hthree : Text.utf8Len "##[".toList = 3 := rfl
        rw [hthree] at hname
        rw [Text.findBytes_cut hcut]
        simp only [hname, hdata, Option.bind_eq_bind, Option.bind_some, Option.map_some]
  · rw [if_neg hpre, if_neg hpre]

/-- The parser answers on every line. -/
theorem parseCommand_eq (line : Text) : parseCommand lowercase line =
    some ((doubleColon lowercase line).or (legacy lowercase line)) := by
  rw [parseCommand, parseDoubleColon_eq]
  cases doubleColon lowercase line with
  | some cmd => rfl
  | none => exact parseLegacy_eq line

end Slices

end Worker

end Preloop

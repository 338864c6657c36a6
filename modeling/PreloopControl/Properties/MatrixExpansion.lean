import PreloopControl.Lib.Bounded
import PreloopControl.Workflow.MatrixExpansion

/-!
# The Limits of a Matrix

The expansion that is used builds its rows depth first and drops an excluded row at once; the
reference builds the whole product first. The rows come in the same order, and each is excluded,
extended and marked by the same includes. So the expansion has the rows of the reference, unless
one of three limits is passed: the rows, the axes, and the work, which is told from the matrix.

The limits are looked at after every row. Rows and work only ever grow, so a limit that is passed
on the way is passed at the end too, and giving up early is the same as giving up.

## Main definitions

* `rowsBelow`: The rows of the axes, depth first.
* `expansionWork`: The work of an expansion.

## Theorems

* `crossAxes_eq`: The product, depth first.
* `expandRow_step`, `expandAxisRows_eq`: One row, and all.
* `tryExpandMatrixSpec_eq`: The expansion is the reference within the limits.
-/

namespace Preloop

namespace Matrices

open Expressions Dependencies Bounded

variable {N : Type} [BEq N]

/-! ## The product -/

/-- The rows of the axes, depth first. -/
def rowsBelow : List (Text × List (Value N)) → Row N → List (Row N)
  | [], current => [current]
  | (axis, values) :: axes, current =>
    values.flatMap fun value => rowsBelow axes (insertField current axis value)

omit [BEq N] in
/-- The product over the axes is the one depth first. -/
theorem crossAxes_eq (axes : List (Text × List (Value N))) : ∀ rows : List (Row N),
    crossAxes axes rows = rows.flatMap (rowsBelow axes) := by
  induction axes with
  | nil =>
      intro rows
      exact (List.flatMap_singleton' rows).symm
  | cons e axes ih =>
      intro rows
      rcases e with ⟨axis, values⟩
      have hbelow : rowsBelow ((axis, values) :: axes) = fun current : Row N =>
          values.flatMap fun value => rowsBelow axes (insertField current axis value) := rfl
      unfold crossAxes
      rw [hbelow]
      cases values with
      | nil => simp
      | cons value values =>
          rw [if_neg (by simp), ih, List.flatMap_assoc]
          simp only [List.flatMap_map]

/-! ## The state -/

/-- The limits on rows and work. -/
def InLimits (state : ExpansionState N) : Prop :=
  state.work ≤ maxMatrixExpansionWork ∧ state.expanded.length ≤ maxMatrixCombinations

instance : DecidablePred (InLimits (N := N)) := fun _ => instDecidableAnd

omit [BEq N] in
theorem spend_eq (state : ExpansionState N) : state.spend =
    if state.work + 1 ≤ maxMatrixExpansionWork then some { state with work := state.work + 1 }
    else none := by
  unfold ExpansionState.spend
  by_cases h : state.work + 1 ≤ maxMatrixExpansionWork
  · rw [if_pos h, if_neg (Nat.not_lt.mpr h)]
  · rw [if_neg h, if_pos (Nat.lt_of_not_le h)]

/-! ## One row -/

/-- The excludes that are tried on a row. -/
def excludesTried (current : Row N) : List (Row N) → Nat
  | [] => 0
  | exc :: rest => if matchesPartial current exc then 1 else excludesTried current rest + 1

/-- A row is excluded. -/
def isExcluded (spec : MatrixSpec N) (current : Row N) : Bool :=
  spec.exclude.any fun exc => matchesPartial current exc

/-- The work of one row. -/
def rowWork (spec : MatrixSpec N) (current : Row N) : Nat :=
  1 + excludesTried current spec.exclude +
    if isExcluded spec current then 0 else spec.include_.length

/-- The work of an expansion. -/
def expansionWork (spec : MatrixSpec N) : Nat := ((crossProduct spec).map (rowWork spec)).sum

/-- One row without a limit. -/
def rowStep (spec : MatrixSpec N) (state : ExpansionState N) (current : Row N) :
    ExpansionState N :=
  let work := state.work + rowWork spec current
  if isExcluded spec current then { state with work := work }
  else
    let merged := mergeRow spec (state.expanded, state.includeMatched) current
    { includeMatched := merged.2, work := work, expanded := merged.1 }

/-- The excludes cost one unit of work each, up to the first that matches. -/
theorem excludedRow_eq (current : Row N) (excludes : List (Row N)) : ∀ {state : ExpansionState N},
    state.work ≤ maxMatrixExpansionWork → excludedRow current excludes state =
      if state.work + excludesTried current excludes ≤ maxMatrixExpansionWork then
        some (excludes.any fun exc => matchesPartial current exc,
          { state with work := state.work + excludesTried current excludes })
      else none := by
  induction excludes with
  | nil =>
      intro state hwork
      unfold excludesTried
      rw [Nat.add_zero, if_pos hwork]
      rfl
  | cons exc rest ih =>
      intro state _
      unfold excludedRow excludesTried
      rw [spend_eq]
      -- the unit of this exclude is spent before it is compared
      by_cases hspend : state.work + 1 ≤ maxMatrixExpansionWork
      · rw [if_pos hspend, Option.bind_eq_bind, Option.bind_some]
        -- the first that matches ends the loop
        by_cases hmatch : matchesPartial current exc = true
        · rw [if_pos hmatch, if_pos hmatch, if_pos hspend, List.any_cons, hmatch]
          rfl
        · have hcost : state.work + (excludesTried current rest + 1) =
              state.work + 1 + excludesTried current rest := by omega
          rw [if_neg hmatch, if_neg hmatch, ih hspend, hcost, List.any_cons,
            eq_false_of_ne_true hmatch, Bool.false_or]
      · rw [if_neg hspend, if_neg]
        · rfl
        · split <;> omega

/-- The includes cost one unit of work each. -/
theorem matchIncludes_eq (spec : MatrixSpec N) (current : Row N) (includes : List (Row N)) :
    ∀ {index : Nat} {extras : Row N} {state : ExpansionState N},
      state.work ≤ maxMatrixExpansionWork →
      matchIncludes spec current index includes extras state =
        if state.work + includes.length ≤ maxMatrixExpansionWork then
          let merged := mergeIncludes spec current index includes extras state.includeMatched
          some (merged.1, { state with
            work := state.work + includes.length, includeMatched := merged.2 })
        else none := by
  induction includes with
  | nil =>
      intro index extras state hwork
      rw [if_pos (by simpa using hwork)]
      rfl
  | cons included rest ih =>
      intro index extras state _
      unfold matchIncludes mergeIncludes
      rw [spend_eq, List.length_cons]
      -- the unit of the first include is spent before those of the rest
      have hcost : state.work + (rest.length + 1) = state.work + 1 + rest.length := by omega
      rw [hcost]
      by_cases hspend : state.work + 1 ≤ maxMatrixExpansionWork
      · rw [if_pos hspend, Option.bind_eq_bind, Option.bind_some]
        by_cases hmatch : spec.includeMatches current included = true
        · rw [if_pos hmatch, if_pos hmatch]
          exact ih hspend
        · rw [if_neg hmatch, if_neg hmatch]
          exact ih hspend
      · rw [if_neg hspend, if_neg (by omega)]
        rfl

/-- A row does not undo work or rows. -/
theorem rowStep_grows (spec : MatrixSpec N) (state : ExpansionState N) (current : Row N) :
    (rowStep spec state current).work = state.work + rowWork spec current ∧
      state.expanded.length ≤ (rowStep spec state current).expanded.length := by
  unfold rowStep mergeRow
  cases isExcluded spec current with
  | true => exact ⟨rfl, Nat.le_refl _⟩
  | false => exact ⟨rfl, by simp⟩

/-- One row gives up exactly where it passes a limit. -/
theorem expandRow_step (spec : MatrixSpec N) (current : Row N) :
    Step InLimits (expandRow spec current) (fun state => rowStep spec state current) where
  inside state hstate := by
    rcases hstate with ⟨hwork, hrows⟩
    rcases rowStep_grows spec state current with ⟨hcost, -⟩
    unfold rowWork at hcost
    have htoo : ∀ least, least ≤ (rowStep spec state current).work →
        ¬ least ≤ maxMatrixExpansionWork → within InLimits (rowStep spec state current) = none :=
      fun least hleast hmore => within_neg fun h => hmore (hleast.trans h.1)
    unfold expandRow
    rw [spend_eq]
    -- the row itself is charged for, then the excludes that are tried, then the includes
    by_cases hspend : state.work + 1 ≤ maxMatrixExpansionWork
    · rw [if_pos hspend, Option.bind_eq_bind, Option.bind_some, excludedRow_eq _ _ hspend]
      by_cases htried : state.work + 1 + excludesTried current spec.exclude ≤ maxMatrixExpansionWork
      · rw [if_pos htried]
        show (if isExcluded spec current = true then
            some { state with work := state.work + 1 + excludesTried current spec.exclude }
          else (matchIncludes spec current 0 spec.include_ []
            { state with work := state.work + 1 + excludesTried current spec.exclude }).bind
              fun p => p.2.push ⟨extendFields current p.1, false⟩) = _
        -- an excluded row adds no combination
        by_cases hexcluded : isExcluded spec current = true
        · have hstep : rowStep spec state current =
              { state with work := state.work + 1 + excludesTried current spec.exclude } := by
            unfold rowStep rowWork
            rw [if_pos hexcluded, if_pos hexcluded, Nat.add_zero, ← Nat.add_assoc]
          rw [if_pos hexcluded, hstep]
          exact (within_pos ⟨htried, hrows⟩).symm
        · have hstep : rowStep spec state current =
              { includeMatched := (mergeIncludes spec current 0 spec.include_ []
                  state.includeMatched).2
                work := state.work + 1 + excludesTried current spec.exclude +
                  spec.include_.length
                expanded := state.expanded ++ [⟨extendFields current (mergeIncludes spec current 0
                  spec.include_ [] state.includeMatched).1, false⟩] } := by
            unfold rowStep rowWork
            rw [if_neg hexcluded, if_neg hexcluded, ← Nat.add_assoc, ← Nat.add_assoc]
            rfl
          rw [if_neg hexcluded, matchIncludes_eq spec current spec.include_ htried, hstep]
          dsimp only
          by_cases hincludes : state.work + 1 + excludesTried current spec.exclude +
              spec.include_.length ≤ maxMatrixExpansionWork
          · rw [if_pos hincludes, Option.bind_some]
            unfold ExpansionState.push
            -- the combination is pushed unless there are as many as allowed
            by_cases hfull : maxMatrixCombinations ≤ state.expanded.length
            · rw [if_pos hfull, within_neg]
              intro h
              have hlength := h.2
              rw [List.length_append, List.length_singleton] at hlength
              omega
            · rw [if_neg hfull, within_pos]
              refine ⟨hincludes, ?_⟩
              rw [List.length_append, List.length_singleton]
              omega
          · rw [if_neg hincludes, within_neg fun h => hincludes h.1]
            rfl
      · rw [if_neg htried, htoo _ (by omega) htried]
        rfl
    · rw [if_neg hspend, htoo _ (by omega) hspend]
      rfl
  -- work and combinations only grow, so a state outside the limits stays outside
  outside state hstate h := by
    rcases rowStep_grows spec state current with ⟨hcost, hrows⟩
    have hwork := h.1
    rw [hcost] at hwork
    exact hstate ⟨by omega, hrows.trans h.2⟩

/-! ## All rows -/

/-- The rows are built one after the other, depth first. -/
theorem expandAxisRows_eq (spec : MatrixSpec N) (axes : List (Text × List (Value N))) :
    ∀ (current : Row N) (state : ExpansionState N), expandAxisRows spec axes current state =
      (rowsBelow axes current).foldlM (fun state row => expandRow spec row state) state := by
  induction axes with
  | nil =>
      intro current state
      show expandRow spec current state = _
      unfold rowsBelow
      rw [List.foldlM_cons]
      cases expandRow spec current state <;> rfl
  | cons e axes ih =>
      intro current state
      rcases e with ⟨axis, values⟩
      unfold expandAxisRows rowsBelow
      induction values generalizing state with
      | nil => rfl
      | cons value values ihv =>
          rw [List.foldlM_cons, List.flatMap_cons, List.foldlM_append, ih]
          exact congrArg (Option.bind _) (funext ihv)

omit [BEq N] in
/-- The rows of a matrix, if it has axes and none is empty. -/
theorem crossProduct_eq (spec : MatrixSpec N) : crossProduct spec =
    if !spec.axes.isEmpty && spec.axes.all fun e => !e.2.isEmpty then rowsBelow spec.axes []
    else [] := by
  unfold crossProduct
  rw [crossAxes_eq]
  split
  · exact List.append_nil _
  · rfl

omit [BEq N] in
/-- A row is pushed exactly if there is room for it. -/
theorem push_step (row : MatrixCombination N) : Step InLimits
    (fun state => state.push row) (fun state => { state with expanded := state.expanded ++ [row] })
    where
  inside state hstate := by
    unfold ExpansionState.push
    by_cases hfull : maxMatrixCombinations ≤ state.expanded.length
    · rw [if_pos hfull, within_neg]
      intro h
      have hlength := h.2
      rw [List.length_append, List.length_singleton] at hlength
      omega
    · rw [if_neg hfull, within_pos]
      refine ⟨hstate.1, ?_⟩
      rw [List.length_append, List.length_singleton]
      omega
  outside state hstate h := by
    have hlength := h.2
    rw [List.length_append] at hlength
    exact hstate ⟨h.1, (Nat.le_add_right _ _).trans hlength⟩

omit [BEq N] in
/-- The includes that matched no row are pushed exactly if there is room for all of them. -/
theorem pushUnmatched_step (pairs : List (Row N × Bool)) :
    Step InLimits (pushUnmatched pairs) (fun state => { state with
      expanded := state.expanded ++ ((pairs.filter fun p => !p.2).map fun p => ⟨p.1, true⟩) }) := by
  induction pairs with
  | nil =>
      simp only [List.filter_nil, List.map_nil, List.append_nil]
      exact Step.id
  | cons pair rest ih =>
      rcases pair with ⟨included, matched⟩
      cases matched with
      | true =>
          rw [List.filter_cons_of_neg (by simp)]
          exact Step.id.comp ih
      | false =>
          have hboth := (push_step ⟨included, true⟩).comp ih
          simp only [List.append_assoc, List.singleton_append] at hboth
          rw [List.filter_cons_of_pos (by simp), List.map_cons]
          exact hboth

/-! ## The reference -/

/-- The plain loop over rows is the reference's over those that are not excluded. -/
theorem foldl_rowStep (spec : MatrixSpec N) (rows : List (Row N)) : ∀ state : ExpansionState N,
    rows.foldl (rowStep spec) state =
      let merged := (rows.filter fun row => !isExcluded spec row).foldl (mergeRow spec)
        (state.expanded, state.includeMatched)
      { includeMatched := merged.2, work := state.work + (rows.map (rowWork spec)).sum,
        expanded := merged.1 } := by
  induction rows with
  | nil =>
      intro state
      rfl
  | cons row rows ih =>
      intro state
      rw [List.foldl_cons, ih, List.map_cons, List.sum_cons, ← Nat.add_assoc,
        (rowStep_grows spec state row).1]
      by_cases hexcluded : isExcluded spec row = true
      · rw [List.filter_cons_of_neg (by simpa using hexcluded)]
        unfold rowStep
        rw [if_pos hexcluded]
      · rw [List.filter_cons_of_pos (by simpa using hexcluded), List.foldl_cons]
        unfold rowStep
        rw [if_neg hexcluded]

/-- The excludes one after the other keep the rows that none of them matches. -/
theorem foldl_filter_eq (excludes : List (Row N)) : ∀ rows : List (Row N),
    excludes.foldl (fun rows excluded => rows.filter fun candidate =>
      !matchesPartial candidate excluded) rows =
        rows.filter fun row => !excludes.any fun exc => matchesPartial row exc := by
  induction excludes with
  | nil =>
      intro rows
      simp
  | cons exc excludes ih =>
      intro rows
      rw [List.foldl_cons, ih, List.filter_filter]
      refine List.filter_congr fun row _ => ?_
      rw [List.any_cons, Bool.not_or, Bool.and_comm]

/-- The expansion that gives up is the reference within the limits on rows and work. -/
theorem expandMatrixSpecBounded_eq (spec : MatrixSpec N) : expandMatrixSpecBounded spec =
    if expansionWork spec ≤ maxMatrixExpansionWork ∧
        (expandMatrixSpec spec).length ≤ maxMatrixCombinations then
      some (expandMatrixSpec spec)
    else none := by
  let start : ExpansionState N := { includeMatched := spec.include_.map fun _ => false }
  -- the recursion over the axes is one fold over their cross product, in the same order
  have hrows : (if !spec.axes.isEmpty && spec.axes.all fun e => !e.2.isEmpty then
        expandAxisRows spec spec.axes [] start
      else some start) =
        (crossProduct spec).foldlM (fun state row => expandRow spec row state) start := by
    rw [crossProduct_eq]
    split
    · exact expandAxisRows_eq spec spec.axes [] start
    · rfl
  -- each row is a step that only grows rows and work, so giving up early is giving up at the end
  have hloop := (Step.foldlM (crossProduct spec) fun row _ => expandRow_step spec row).inside start
    ⟨Nat.zero_le _, Nat.zero_le _⟩
  have hall : (crossProduct spec).foldl (rowStep spec) start = _ :=
    foldl_rowStep spec (crossProduct spec) start
  have hreference : expandMatrixSpec spec =
    ((crossProduct spec).foldl (rowStep spec) start).expanded
      ++ ((spec.include_.zip ((crossProduct spec).foldl (rowStep spec) start).includeMatched).filter
        fun p => !p.2).map fun p => ⟨p.1, true⟩ := by
    rw [hall]
    unfold expandMatrixSpec
    rw [foldl_filter_eq]
    rfl
  have hwork : ((crossProduct spec).foldl (rowStep spec) start).work = expansionWork spec := by
    rw [hall]
    exact Nat.zero_add _
  have hbounded : expandMatrixSpecBounded spec =
      (if !spec.axes.isEmpty && spec.axes.all fun e => !e.2.isEmpty then
        expandAxisRows spec spec.axes [] start
      else some start).bind fun state =>
        (pushUnmatched (spec.include_.zip state.includeMatched) state).bind fun state =>
          some state.expanded := by
    unfold expandMatrixSpecBounded
    split <;> rfl
  rw [hbounded, hrows, hloop]
  generalize (crossProduct spec).foldl (rowStep spec) start = final at hreference hwork
  -- the rows that no combination took come last, under the same limits
  by_cases hfinal : InLimits final
  · rw [within_pos hfinal, Option.bind_some, (pushUnmatched_step _).inside final hfinal]
    by_cases hlast : (expandMatrixSpec spec).length ≤ maxMatrixCombinations
    · rw [if_pos ⟨hwork ▸ hfinal.1, hlast⟩, within_pos ⟨hfinal.1, hreference ▸ hlast⟩, hreference]
      rfl
    · rw [if_neg fun h => hlast h.2, within_neg fun h => hlast (hreference ▸ h.2)]
      rfl
  · rw [within_neg hfinal, if_neg]
    · rfl
    · rintro ⟨hless, hfew⟩
      rw [hreference, List.length_append] at hfew
      exact hfinal ⟨hwork ▸ hless, (Nat.le_add_right _ _).trans hfew⟩

/-- Without axes every include is a row of its own. -/
theorem length_of_no_axes {spec : MatrixSpec N} (h : spec.axes.isEmpty = true) :
    (expandMatrixSpec spec).length = spec.include_.length := by
  have hnone : crossProduct spec = [] := by
    rw [crossProduct_eq, h]
    rfl
  have hunmatched : ∀ includes : List (Row N),
      ((includes.zip (includes.map fun _ => false)).filter fun p => !p.2).length =
        includes.length := by
    intro includes
    induction includes with
    | nil => rfl
    | cons included rest ih =>
        rw [List.map_cons, List.zip_cons_cons, List.filter_cons_of_pos rfl, List.length_cons, ih,
          List.length_cons]
  unfold expandMatrixSpec
  rw [foldl_filter_eq, hnone]
  dsimp only [List.filter_nil, List.foldl_nil]
  rw [List.nil_append, List.length_map, hunmatched]

/-- The expansion is the reference, within the limits on rows, axes and work. -/
theorem tryExpandMatrixSpec_eq (jobId : Text) (spec : MatrixSpec N) :
    tryExpandMatrixSpec jobId spec =
      if maxMatrixCombinations < (expandMatrixSpec spec).length ∨
          maxMatrixAxes < spec.axes.length ∨ maxMatrixExpansionWork < expansionWork spec then
        .error (.matrixTooLarge jobId maxMatrixCombinations)
      else .ok (expandMatrixSpec spec) := by
  unfold tryExpandMatrixSpec
  by_cases hincludes : (spec.axes.isEmpty && decide (maxMatrixCombinations < spec.include_.length))
      = true
  · rw [if_pos hincludes, if_pos (Or.inl ?_)]
    rw [Bool.and_eq_true, decide_eq_true_eq] at hincludes
    rw [length_of_no_axes hincludes.1]
    exact hincludes.2
  · rw [if_neg hincludes]
    by_cases haxes : maxMatrixAxes < spec.axes.length
    · rw [if_pos haxes, if_pos (Or.inr (Or.inl haxes))]
    · rw [if_neg haxes, expandMatrixSpecBounded_eq]
      by_cases hlimits : expansionWork spec ≤ maxMatrixExpansionWork ∧
          (expandMatrixSpec spec).length ≤ maxMatrixCombinations
      · rw [if_pos hlimits, if_neg]
        omega
      · rw [if_neg hlimits, if_pos]
        omega

/-- The expansion has the rows of the reference in their order, and fails only where a limit is
    passed. -/
theorem bounded_expansion (jobId : Text) (spec : MatrixSpec N) :
    (∀ rows, tryExpandMatrixSpec jobId spec = .ok rows → rows = expandMatrixSpec spec) ∧
    ((∃ e, tryExpandMatrixSpec jobId spec = .error e) ↔
      maxMatrixCombinations < (expandMatrixSpec spec).length ∨ maxMatrixAxes < spec.axes.length ∨
        maxMatrixExpansionWork < expansionWork spec) := by
  rw [tryExpandMatrixSpec_eq]
  constructor
  · intro rows h
    split at h
    · cases h
    · cases h
      rfl
  · by_cases hlimit : maxMatrixCombinations < (expandMatrixSpec spec).length ∨
        maxMatrixAxes < spec.axes.length ∨ maxMatrixExpansionWork < expansionWork spec
    · rw [if_pos hlimit]
      exact iff_of_true ⟨_, rfl⟩ hlimit
    · rw [if_neg hlimit]
      refine iff_of_false ?_ hlimit
      rintro ⟨e, he⟩
      cases he

end Matrices

end Preloop

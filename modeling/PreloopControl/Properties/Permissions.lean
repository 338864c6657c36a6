import PreloopControl.Properties.DeferredMatrix
import PreloopControl.Properties.ReusableCalls

/-!
# Where Permissions Escalate

The token of a job may do what its `permissions:` say, and below a call no more
than the caller may. Lifting a plan takes the lower of the two levels for each
scope, which is the minimum in the order none, read, write. What is bounded once
is bounded along the whole chain.

The plans of a job whose matrix waits for its needs are not lifted. They are made
of the job as it stands in the called file, so they may do what that file declares,
whatever the caller may do. They stay within the caller exactly where the
declaration does.

The flag for identity tokens is kept beside the permissions and narrowed by a
statement of its own. Both start from the same declaration and both are narrowed
by the caller's, so they agree on every plan, lifted or not.

## Main definitions

* `Access`: The levels of a permission.
* `JobPlan.access`: What the token of a plan may do in a scope.
* `CalledFrom`: A plan lifted under a caller.
* `CalleePlan`: A plan below a call: a lifted one, or a cell of a late matrix.

## Theorems

* `access_intersect`: Lifting takes the minimum.
* `access_of_cell`: A cell takes what its file declares.
* `permissions_never_escalate`: Below a chain of calls.
* `late_cell_escalates`: A cell that may write below a caller that may read.
-/

namespace Preloop

namespace Workflow

open Fallible
open Expressions

variable {N F : Type}

/-! ## Levels -/

/-- The levels of a permission. -/
inductive Access
  | none
  | read
  | write
deriving DecidableEq, Repr

/-- The position of a level. -/
def Access.rank : Access → Nat
  | .none => 0
  | .read => 1
  | .write => 2

theorem Access.rank_injective : Function.Injective Access.rank := by
  intro a b h
  cases a <;> cases b <;> first | rfl | cases h

instance : LinearOrder Access := LinearOrder.lift' Access.rank Access.rank_injective

/-- The level a text names; any other text grants nothing. -/
def accessOf (level : Text) : Access :=
  if level = "write".toList then .write else if level = "read".toList then .read else .none

/-- What declared permissions grant in a scope; without any, the defaults apply. -/
def declaredAccess (permissions : Option (Dict Text)) (scope : Text) : Access :=
  (((permissions.getD defaultTokenPermissions).lookup scope).map accessOf).getD .none

/-- What the token of a plan may do in a scope. -/
def JobPlan.access (plan : JobPlan N) (scope : Text) : Access :=
  declaredAccess plan.permissions scope

theorem access_min (a b : Access) :
    min a b = if a = .none ∨ b = .none then .none
      else if a = .write ∧ b = .write then .write else .read := by
  cases a <;> cases b <;> decide

/-- The lower of two levels is the minimum. -/
theorem accessOf_lowerLevel (called caller : Text) :
    ((lowerLevel called caller).map accessOf).getD .none =
      min (accessOf called) (accessOf caller) := by
  have hne : "read".toList ≠ "write".toList := by decide
  rw [access_min]
  unfold lowerLevel accessOf
  -- only that the two texts differ matters from here
  generalize "write".toList = w at hne ⊢
  generalize "read".toList = r at hne ⊢
  by_cases hw : called = w
  · subst hw
    by_cases hw' : caller = called
    · simp [hw']
    · by_cases hr' : caller = r
      · subst hr'
        simp [hne]
      · simp [hw', hr']
  · by_cases hr : called = r
    · subst hr
      by_cases hw' : caller = w
      · subst hw'
        simp [hne]
      · by_cases hr' : caller = called
        · subst hr'
          simp [hne]
        · simp [hw', hr', hne]
    · simp [hw, hr]

/-- The entries of an intersection: a scope both sides have, at the lower level. -/
theorem lookup_intersectPermissions (called caller : Option (Dict Text)) (scope : Text) :
    (intersectPermissions called caller).lookup scope =
      ((called.getD defaultTokenPermissions).lookup scope).bind fun level =>
        ((caller.getD defaultTokenPermissions).lookup scope).bind (lowerLevel level) := by
  let lower (e : Sigma fun _ : Text => Text) : Option Text :=
    ((caller.getD defaultTokenPermissions).lookup e.1).bind (lowerLevel e.2)
  have hentries : intersectPermissions called caller =
      Dict.ofList ((called.getD defaultTokenPermissions).entries.filterMap fun e =>
        (lower e).map fun level => (e.1, level)) := by
    unfold intersectPermissions
    congr 2
    funext e
    simp only [lower]
    cases (caller.getD defaultTokenPermissions).lookup e.1 with
    | none => rfl
    | some level => cases hl : lowerLevel e.2 level <;> simp [hl]
  rw [hentries, Dict.lookup_ofList_filterMap (called.getD defaultTokenPermissions).nodupKeys,
    Dict.find?_entries]
  cases (called.getD defaultTokenPermissions).lookup scope with
  | none => rfl
  | some level => rfl

/-- Lifting takes the minimum. -/
theorem access_intersect (called caller : Option (Dict Text)) (scope : Text) :
    declaredAccess (some (intersectPermissions called caller)) scope =
      min (declaredAccess called scope) (declaredAccess caller scope) := by
  have hbot (a : Access) : Access.none ≤ a := by
    cases a <;> decide
  unfold declaredAccess
  rw [Option.getD_some, lookup_intersectPermissions]
  cases (called.getD defaultTokenPermissions).lookup scope with
  | none => exact (min_eq_left (hbot _)).symm
  | some level =>
      cases (caller.getD defaultTokenPermissions).lookup scope with
      | none => exact (min_eq_right (hbot _)).symm
      | some level' => exact accessOf_lowerLevel level level'

/-! ## The flag and the permissions -/

/-- No object among declared permissions has a key twice, as in every value that was
    read from a file. -/
def DistinctScopes (permissions : Option (Value N)) : Prop :=
  ∀ fields, permissions = some (.object fields) → (fields.map (·.1)).Nodup

/-- So in a whole file. -/
structure WorkflowFile.DistinctScopes (file : WorkflowFile N) : Prop where
  own : Workflow.DistinctScopes file.permissions
  ofJobs : ∀ e ∈ file.jobs, Workflow.DistinctScopes e.2.permissions

/-- What is declared for a job: its own permissions, or those of its file. -/
theorem WorkflowFile.DistinctScopes.declared {file : WorkflowFile N} (h : file.DistinctScopes)
    {jobId : Text} {job : Job N} (hjob : (jobId, job) ∈ file.jobs) :
    Workflow.DistinctScopes (job.permissions.or file.permissions) := by
  cases hp : job.permissions with
  | none => exact h.own
  | some v =>
      have hown := h.ofJobs _ hjob
      rwa [hp] at hown

/-- The scope of identity tokens. -/
def idToken : Text := "id-token".toList

/-- The flag of a plan says what its permissions say. -/
def FlagAgrees (plan : JobPlan N) : Prop :=
  plan.oidcIdTokenGranted = true ↔ plan.access idToken = .write

theorem accessOf_eq_write {level : Text} : accessOf level = .write ↔ level = "write".toList := by
  unfold accessOf
  by_cases hw : level = "write".toList
  · rw [if_pos hw]
    exact iff_of_true rfl hw
  · rw [if_neg hw]
    refine iff_of_false (fun h => ?_) hw
    split at h <;> cases h

theorem declaredAccess_eq_write {permissions : Dict Text} {scope : Text} :
    declaredAccess (some permissions) scope = .write ↔
      permissions.lookup scope = some "write".toList := by
  unfold declaredAccess
  rw [Option.getD_some]
  cases permissions.lookup scope with
  | none => simp
  | some level => simpa using accessOf_eq_write

/-- An object grants what its text under a scope says. -/
theorem lookup_objectPermissions {fields : List (Text × Value N)} (h : (fields.map (·.1)).Nodup)
    (scope : Text) :
    (Dict.ofList (fields.filterMap fun e => (asStr e.2).map fun level =>
      (e.1, level))).lookup scope =
      (getField fields scope).bind asStr := by
  rw [Dict.lookup_ofList_filterMap h, getField, Option.bind_map]
  rfl

/-- What the flag asks of an object. -/
theorem objectGrants_iff (fields : List (Text × Value N)) :
    ((getField fields idToken).bind asStr).any (· = "write".toList) = true ↔
      (getField fields idToken).bind asStr = some "write".toList := by
  rw [Option.any_eq_true]
  constructor
  · rintro ⟨level, hlevel, hw⟩
    rw [hlevel, of_decide_eq_true hw]
  · exact fun hw => ⟨_, hw, decide_eq_true rfl⟩

theorem idToken_default : declaredAccess none idToken = .none := by decide
theorem idToken_empty : declaredAccess (some ∅) idToken = .none := by decide
theorem idToken_readAll : declaredAccess (some (allScopes "read".toList)) idToken = .read := by
  decide
theorem idToken_writeAll : declaredAccess (some (allScopes "write".toList)) idToken = .write := by
  decide

/-- Both are read from the same declaration. -/
theorem idTokenGranted_iff {job workflow : Option (Value N)}
    (h : DistinctScopes (job.or workflow)) :
    idTokenGranted (job.or workflow) = true ↔
      declaredAccess (resolvePermissions job workflow) idToken = .write := by
  unfold idTokenGranted resolvePermissions
  cases hp : job.or workflow with
  | none => simp [idToken_default]
  -- the flag and the access are both read from what is declared first
  | some v =>
      cases v with
      | string s =>
          have hne : "read-all".toList ≠ "write-all".toList := by decide
          simp only [decide_eq_true_eq]
          by_cases hr : s = "read-all".toList
          · rw [if_pos hr, idToken_readAll]
            exact iff_of_false (fun hw => hne (hr.symm.trans hw)) (by decide)
          · rw [if_neg hr]
            by_cases hw : s = "write-all".toList
            · rw [if_pos hw, idToken_writeAll]
              exact iff_of_true hw rfl
            · rw [if_neg hw, idToken_empty]
              exact iff_of_false hw (by decide)
      | object fields =>
          have hlookup := lookup_objectPermissions (h fields hp) idToken
          exact (objectGrants_iff fields).trans (by rw [declaredAccess_eq_write, hlookup])
      -- what is neither a word nor a list of scopes grants nothing
      | null => simp [idToken_default]
      | bool b => simp [idToken_default]
      | number n => simp [idToken_default]
      | array items => simp [idToken_default]

/-! ## Along a chain of calls -/

variable {frontend : Frontend N F} {library : Library}

/-- A plan of a top workflow; its needs may have been rewritten. -/
structure TopPlan (frontend : Frontend N F) (library : Library) (plan : JobPlan N) : Prop where
  planned : ∃ (file : WorkflowFile N) (frame : CallFrame) (inputs : Inputs N)
    (eventName : Option Text) (out : ExpandedWorkflows N) (raw : JobPlan N) (needs : List Text),
    file.DistinctScopes ∧
      expandJobsWithReusablesInternal frontend library file frame inputs eventName = .ok out ∧
      raw ∈ out.jobs ∧ plan = { raw with needs := needs }

/-- A plan expanded from a caller: at once, or when its matrix is known. -/
inductive CalledFrom (frontend : Frontend N F) (library : Library) (caller plan : JobPlan N) : Prop
  | now {called : WorkflowFile N} {out : ExpandedWorkflows N} (hdistinct : called.DistinctScopes)
      (hout : expandReusableCall frontend library called caller = .ok out)
      (hplan : plan ∈ out.jobs)
  | late {called callerWorkflow : WorkflowFile N} {needsOutputs : NeedsOutputs N}
      {out : ExpandedWorkflows N} (hdistinct : called.DistinctScopes)
      (hout : expandDeferredReusableCall frontend library called callerWorkflow caller
        needsOutputs = .ok out)
      (hplan : plan ∈ out.jobs)

/-- The file a late matrix is expanded from: that of the call the node is in, or else the file of
    the run. -/
def fileOfNode (library : Library) (runFile : Text) (node : JobPlan N) : Text :=
  (node.workflowFile.bind fun path => library.reusableWorkflows.lookup path).getD runFile

/-- A plan below a call: one that is lifted under the caller, or a cell of a late matrix of such
    a plan, with the file and the job it was planned from. -/
inductive CalleePlan (frontend : Frontend N F) (library : Library) (caller : JobPlan N) :
    Option (WorkflowFile N × Job N) → JobPlan N → Prop
  | lifted {plan : JobPlan N} (h : CalledFrom frontend library caller plan) :
      CalleePlan frontend library caller none plan
  | cell {node plan : JobPlan N} {runFile expression : Text} {called : WorkflowFile N} {job : Job N}
      {needsOutputs : NeedsOutputs N} {cells : List (JobPlan N)}
      (hnode : CalledFrom frontend library caller node)
      (hplain : node.reusableCall = none) (hdeferred : node.deferredMatrix = some expression)
      (hparse : frontend.parseWorkflow (fileOfNode library runFile node) = .ok called)
      (hdistinct : called.DistinctScopes) (hjob : callerJob called node.baseId = some job)
      (hcells : expandDeferredMatrixJob frontend called node.baseId expression needsOutputs
        (some node.inputs) = .ok cells)
      (hplan : plan ∈ cells) : CalleePlan frontend library caller (some (called, job)) plan

/-- In a file as it was read, the flag and the permissions of every plan agree. -/
theorem flagAgrees_of_expandJob {workflow : WorkflowFile N} (hdistinct : workflow.DistinctScopes)
    {frame : CallFrame} {inputs : Inputs N} {eventName : Option Text} {jobId : Text} {job : Job N}
    (hjob : (jobId, job) ∈ workflow.jobs)
    {part : List (JobPlan N × Option (ReusableCallMetadata N))}
    (h : expandJob frontend library workflow frame inputs eventName jobId job = .ok part)
    {raw : JobPlan N × Option (ReusableCallMetadata N)} (hraw : raw ∈ part) :
    FlagAgrees raw.1 := by
  obtain ⟨hflag, hpermissions⟩ := (plan_of_expandJob h hraw).1
  rw [FlagAgrees, JobPlan.access, hflag, hpermissions]
  exact idTokenGranted_iff (hdistinct.declared hjob)

theorem access_liftPlan (caller : JobPlan N) (call : ReusableCallPlan) (plan : JobPlan N)
    (scope : Text) :
    (liftPlan caller call plan).access scope = min (plan.access scope) (caller.access scope) :=
  access_intersect plan.permissions caller.permissions scope

/-- Both are narrowed alike. -/
theorem FlagAgrees.lift {caller plan : JobPlan N} (hcaller : FlagAgrees caller)
    (hplan : FlagAgrees plan) (call : ReusableCallPlan) :
    FlagAgrees (liftPlan caller call plan) := by
  have hmin (a b : Access) : min a b = .write ↔ a = .write ∧ b = .write := by
    cases a <;> cases b <;> decide
  rw [FlagAgrees, access_liftPlan, hmin]
  exact Bool.and_eq_true_iff.trans (and_congr hplan hcaller)

/-- One call: the plan may do no more than its caller. -/
theorem lifted_of_expandReusableCall {called : WorkflowFile N} {caller plan : JobPlan N}
    {out : ExpandedWorkflows N} (hdistinct : called.DistinctScopes)
    (hout : expandReusableCall frontend library called caller = .ok out) (hplan : plan ∈ out.jobs)
    (hcaller : FlagAgrees caller) :
    FlagAgrees plan ∧ ∀ scope, plan.access scope ≤ caller.access scope := by
  obtain ⟨call, jobId, job, part, raw, hcall, hjob, hpart, hraw, rfl⟩ :=
    exists_of_mem_expandReusableCall hout hplan
  refine ⟨hcaller.lift (flagAgrees_of_expandJob hdistinct hjob hpart hraw) call, fun scope => ?_⟩
  rw [access_liftPlan]
  exact min_le_right _ _

/-- A cell has the permissions of the node it continues. -/
theorem permissions_of_deferredCell {workflow : WorkflowFile N} {caller plan : JobPlan N}
    {cell : Dict (Value N)} (h : deferredCell frontend workflow caller cell = .ok plan) :
    plan.oidcIdTokenGranted = caller.oidcIdTokenGranted ∧
      plan.permissions = caller.permissions := by
  obtain ⟨inputs, _, h⟩ := bind_eq_ok h
  cases h
  exact ⟨rfl, rfl⟩

theorem CalledFrom.narrows {caller plan : JobPlan N} (h : CalledFrom frontend library caller plan)
    (hcaller : FlagAgrees caller) :
    FlagAgrees plan ∧ ∀ scope, plan.access scope ≤ caller.access scope := by
  cases h with
  | now hdistinct hout hplan => exact lifted_of_expandReusableCall hdistinct hout hplan hcaller
  | @late called callerWorkflow needsOutputs out hdistinct hout hplan =>
      -- the late expansion makes a cell of the matrix first and lifts the callee under it
      unfold expandDeferredReusableCall at hout
      cases hcall : caller.reusableCall with
      | none => simp [hcall] at hout
      | some call =>
          cases hdeferred : caller.deferredMatrix with
          | none => simp [hcall, hdeferred] at hout
          | some expression =>
              simp only [hcall, hdeferred] at hout
              obtain ⟨cells, _, hout⟩ := bind_eq_ok hout
              obtain ⟨parts, hparts, hout⟩ := bind_eq_ok hout
              cases hout
              obtain ⟨part, hpart, hplan⟩ := List.mem_flatMap.mp hplan
              obtain ⟨cell, _, hcell⟩ := exists_of_mem_mapM hparts hpart
              obtain ⟨cellPlan, hcellPlan, hpartOut⟩ := bind_eq_ok hcell
              obtain ⟨hflag, hpermissions⟩ := permissions_of_deferredCell hcellPlan
              -- a cell has the permissions of its caller
              have haccess (scope : Text) : cellPlan.access scope = caller.access scope := by
                rw [JobPlan.access, hpermissions, JobPlan.access]
              have hagrees : FlagAgrees cellPlan := by
                rw [FlagAgrees, hflag, haccess]
                exact hcaller
              obtain ⟨hplanAgrees, hle⟩ :=
                lifted_of_expandReusableCall hdistinct hpartOut hplan hagrees
              exact ⟨hplanAgrees, fun scope => (hle scope).trans_eq (haccess scope)⟩

theorem TopPlan.flagAgrees {plan : JobPlan N} (h : TopPlan frontend library plan) :
    FlagAgrees plan := by
  obtain ⟨file, frame, inputs, eventName, out, raw, needs, hdistinct, hout, hraw, rfl⟩ := h.planned
  obtain ⟨parts, hparts, hout⟩ := bind_eq_ok hout
  cases hout
  obtain ⟨p, hp, rfl⟩ := List.mem_map.mp hraw
  obtain ⟨part, hpart, hp⟩ := List.mem_flatten.mp hp
  obtain ⟨e, he, hexp⟩ := exists_of_mem_mapM hparts hpart
  exact flagAgrees_of_expandJob hdistinct he hexp hp

theorem flagAgrees_of_chain {top plan : JobPlan N} (htop : TopPlan frontend library top)
    (hchain : Relation.ReflTransGen (CalledFrom frontend library) top plan) : FlagAgrees plan := by
  induction hchain with
  | refl => exact htop.flagAgrees
  | tail _ hstep ih => exact (hstep.narrows ih).1

/-! ## Cells of a late matrix -/

/-- The job of a node is one of its file. -/
theorem mem_of_callerJob {file : WorkflowFile N} {baseId : Text} {job : Job N}
    (h : callerJob file baseId = some job) : ∃ jobId, (jobId, job) ∈ file.jobs := by
  unfold callerJob at h
  have hmem : ∀ {id : Text}, file.jobs.lookup id = some job → (id, job) ∈ file.jobs := by
    intro id hlookup
    obtain ⟨before, after, hsplit, -⟩ := List.lookup_eq_some_iff.mp hlookup
    rw [hsplit]
    exact List.mem_append_right _ List.mem_cons_self
  rcases Option.or_eq_some_iff.mp h with h | ⟨-, h⟩
  · exact ⟨_, hmem h⟩
  · obtain ⟨id, -, h⟩ := Option.bind_eq_some_iff.mp h
    exact ⟨_, hmem h⟩

/-- A cell has the flag and the permissions its file declares. -/
theorem plan_of_cell {file : WorkflowFile N} {jobId expression : Text} {job : Job N}
    {needsOutputs : NeedsOutputs N} {inputs : Inputs N} {cells : List (JobPlan N)}
    {plan : JobPlan N} (hjob : callerJob file jobId = some job)
    (hcells : expandDeferredMatrixJob frontend file jobId expression needsOutputs inputs =
      .ok cells)
    (hplan : plan ∈ cells) :
    plan.oidcIdTokenGranted = idTokenGranted (job.permissions.or file.permissions) ∧
      plan.permissions = resolvePermissions job.permissions file.permissions := by
  unfold expandDeferredMatrixJob at hcells
  rw [hjob] at hcells
  obtain ⟨rows, -, hcells⟩ := bind_eq_ok hcells
  obtain ⟨cell, -, hcell⟩ := exists_of_mem_mapM hcells hplan
  obtain ⟨raw, hraw, hcell⟩ := bind_eq_ok hcell
  cases hcell
  obtain ⟨steps, -, hraw⟩ := bind_eq_ok hraw
  cases hraw
  exact ⟨rfl, rfl⟩

/-- What a cell may do is what its file declares. -/
theorem access_of_cell {file : WorkflowFile N} {jobId expression : Text} {job : Job N}
    {needsOutputs : NeedsOutputs N} {inputs : Inputs N} {cells : List (JobPlan N)}
    {plan : JobPlan N} (hjob : callerJob file jobId = some job)
    (hcells : expandDeferredMatrixJob frontend file jobId expression needsOutputs inputs =
      .ok cells)
    (hplan : plan ∈ cells) (scope : Text) :
    plan.access scope =
      declaredAccess (resolvePermissions job.permissions file.permissions) scope := by
  rw [JobPlan.access, (plan_of_cell hjob hcells hplan).2]

theorem flagAgrees_of_cell {file : WorkflowFile N} (hdistinct : file.DistinctScopes)
    {jobId expression : Text} {job : Job N} {needsOutputs : NeedsOutputs N} {inputs : Inputs N}
    {cells : List (JobPlan N)} {plan : JobPlan N} (hjob : callerJob file jobId = some job)
    (hcells : expandDeferredMatrixJob frontend file jobId expression needsOutputs inputs =
      .ok cells)
    (hplan : plan ∈ cells) : FlagAgrees plan := by
  obtain ⟨id, hmem⟩ := mem_of_callerJob hjob
  rw [FlagAgrees, access_of_cell hjob hcells hplan, (plan_of_cell hjob hcells hplan).1]
  exact idTokenGranted_iff (hdistinct.declared hmem)

/-! ## Below a call -/

/-- The plan was not planned from a file of its own, or what that file declares for its job is
    within what the caller may do. -/
def DeclaredWithin (caller : JobPlan N) (source : Option (WorkflowFile N × Job N)) : Prop :=
  ∀ called job, source = some (called, job) → ∀ scope,
    declaredAccess (resolvePermissions job.permissions called.permissions) scope ≤
      caller.access scope

theorem declaredWithin_lifted (caller : JobPlan N) : DeclaredWithin caller none := by
  intro called job h
  cases h

/-- Below a chain of calls, a plan may do no more than the job that called it exactly if it is
    lifted, or what its file declares is within what the caller may do; and its flag says what its
    permissions say. -/
theorem permissions_never_escalate {top caller plan : JobPlan N}
    {source : Option (WorkflowFile N × Job N)} (htop : TopPlan frontend library top)
    (hchain : Relation.ReflTransGen (CalledFrom frontend library) top caller)
    (hplan : CalleePlan frontend library caller source plan) :
    ((∀ scope, plan.access scope ≤ caller.access scope) ↔ DeclaredWithin caller source) ∧
      (plan.oidcIdTokenGranted = true ↔ plan.access "id-token".toList = .write) := by
  have hcaller := flagAgrees_of_chain htop hchain
  cases hplan with
  | lifted hcall =>
      obtain ⟨hflag, hle⟩ := hcall.narrows hcaller
      exact ⟨iff_of_true hle (declaredWithin_lifted caller), hflag⟩
  | @cell node plan runFile expression called job needsOutputs cells hnode hplain hdeferred hparse
      hdistinct hjob hcells hplan =>
      refine ⟨?_, flagAgrees_of_cell hdistinct hjob hcells hplan⟩
      constructor
      · intro hle called' job' hsame scope
        cases hsame
        rw [← access_of_cell hjob hcells hplan scope]
        exact hle scope
      · intro hwithin scope
        rw [access_of_cell hjob hcells hplan scope]
        exact hwithin called job rfl scope

/-- A file of one job that declares no permissions. -/
theorem distinctScopes_single {file : WorkflowFile N} {jobId : Text} {job : Job N}
    (hown : file.permissions = none) (hjobs : file.jobs = [(jobId, job)])
    (hjob : job.permissions = none) : file.DistinctScopes := by
  constructor
  · intro fields h
    rw [hown] at h
    cases h
  · intro e he fields h
    rw [hjobs] at he
    obtain rfl := List.mem_singleton.mp he
    rw [hjob] at h
    cases h

/-- A workflow of one job. -/
theorem expandJobs_single {workflow : WorkflowFile N} {frame : CallFrame} {inputs : Inputs N}
    {eventName : Option Text} {e : Text × Job N}
    {part : List (JobPlan N × Option (ReusableCallMetadata N))} (hjobs : workflow.jobs = [e])
    (h : expandJob frontend library workflow frame inputs eventName e.1 e.2 = .ok part) :
    ∃ out, expandJobsWithReusablesInternal frontend library workflow frame inputs eventName =
      .ok out ∧ out.jobs = part.map (·.1) := by
  unfold expandJobsWithReusablesInternal
  simp only [hjobs, List.mapM_cons, List.mapM_nil, h, bind, Except.bind, pure, Except.pure]
  refine ⟨_, rfl, ?_⟩
  simp

/-- A workflow under its caller, by the plans of its jobs. -/
theorem expandReusableCall_parts {called : WorkflowFile N} {caller : JobPlan N}
    {call : ReusableCallPlan} {parts : List (List (JobPlan N × Option (ReusableCallMetadata N)))}
    (hcall : caller.reusableCall = some call) (hdeferred : caller.deferredMatrix = none)
    (hparts : called.jobs.mapM (fun e => expandJob frontend library called (calleeFrame call)
      (some caller.inputs) none e.1 e.2) = .ok parts)
    (hvalid : ∀ plans, frontend.validateJobPlans plans = .ok ()) :
    ∃ out, expandReusableCall frontend library called caller = .ok out ∧
      out.jobs = parts.flatten.map fun p => liftPlan caller call p.1 := by
  unfold expandReusableCall expandJobsWithReusablesInternal
  simp only [hcall, hdeferred, hparts, bind, Except.bind, pure, Except.pure, Option.isSome_none,
    Bool.false_eq_true, if_false, validateExpandedSubtree, hvalid]
  refine ⟨_, rfl, ?_⟩
  rw [List.map_map]
  rfl

theorem topPlan_release : TopPlan smallFrontend smallLibrary releaseNode := by
  rcases expand_release with ⟨m, hpart⟩
  rcases expandJobs_single (e := ("release".toList, releaseJob)) rfl hpart with ⟨out, hout, hjobs⟩
  exact ⟨topFile, {}, none, none, out, releaseNode, [], distinctScopes_single rfl rfl rfl, hout,
    hjobs ▸ List.mem_cons_self, rfl⟩

/-- The innermost job of three workflows. -/
theorem permissions_never_escalate_of_deploy : ∃ plan : JobPlan Int,
    (∀ scope, plan.access scope ≤ deployPlan.access scope) ∧
      (plan.oidcIdTokenGranted = true ↔ plan.access "id-token".toList = .write) := by
  obtain ⟨out, hout, hjobs⟩ := expand_releaseCall
  obtain ⟨inner, plan, hinner, hplan, -⟩ := expand_deployCall
  have hrelease : releaseFile.DistinctScopes := distinctScopes_single rfl rfl rfl
  have hdeploy : deployFile.DistinctScopes := distinctScopes_single rfl rfl rfl
  have hfirst : CalledFrom smallFrontend smallLibrary releaseNode deployPlan :=
    .now hrelease hout (hjobs ▸ List.mem_cons_self)
  obtain ⟨hwithin, hflag⟩ := permissions_never_escalate topPlan_release (.single hfirst)
    (.lifted (.now hdeploy hinner hplan))
  exact ⟨plan, hwithin.mpr (declaredWithin_lifted deployPlan), hflag⟩

/-! ## A cell that may write -/

/-- `./.github/workflows/build.yml`. -/
def buildRef : Text := "./.github/workflows/build.yml".toList

/-- Its path. -/
def buildPath : Text := ".github/workflows/build.yml".toList

/-- The called file. -/
def buildYaml : Text :=
  "name: build
on: workflow_call
jobs:
  setup:
    runs-on: ubuntu-latest
  build:
    needs: setup
    permissions:
      contents: write
      id-token: write
    strategy:
      matrix: $\x7b\x7b fromJSON(needs.setup.outputs.rows) \x7d\x7d
    runs-on: ubuntu-latest
".toList

/-- The job whose matrix waits for another one. -/
def buildJob : Job Int where
  needs := ["setup".toList]
  matrix := some (.string Matrices.rowsTemplate)
  permissions := some (.object [("contents".toList, .string "write".toList),
    ("id-token".toList, .string "write".toList)])

/-- The called workflow. -/
def buildFile : WorkflowFile Int where
  callTrigger := some {}
  jobs := [("setup".toList, {}), ("build".toList, buildJob)]

/-- A call with a token that may read. -/
def readingJob : Job Int where
  uses := some buildRef
  permissions := some (.object [("contents".toList, .string "read".toList)])

/-- The top workflow. -/
def readingFile : WorkflowFile Int where
  jobs := [("call".toList, readingJob)]

/-- What the job `setup` puts out. -/
def osText : Text := "\x7b\x22os\x22:[\x22linux\x22]\x7d".toList

/-- The matrix of that text. -/
def osMatrix : Value Int := .object [("os".toList, .array [.string "linux".toList])]

/-- A `matrix:` that is a text is an expression. -/
def readMatrix : Value Int → Matrices.MatrixValue Int
  | .string t => .expression t
  | _ => .static {}

/-- An engine that knows the JSON of the matrix. -/
def osEngine : Engine Int Int :=
  { integerEngine with fromStr := fun t => if t = osText then .ok osMatrix else .error [] }

/-- A parser that knows the called file. -/
def buildFrontend : Frontend Int Int :=
  Frontend.complete
    { smallFrontend with
      engine := osEngine
      parseWorkflow := fun yaml => if yaml = buildYaml then .ok buildFile else .error (.yaml []) }
    readMatrix fun _ => .invalidExpression []

/-- The called file, under its path. -/
def buildLibrary : Library where
  reusableWorkflows := Dict.ofList [(buildPath, buildYaml)]

/-- The call of the file. -/
def buildResolved : ResolvedCall Int where
  uses := buildRef
  path := normalizeReusablePath buildFrontend buildRef
  called := buildFile
  trigger := {}

/-- The caller node. -/
def buildCaller : JobPlan Int :=
  callerNode buildFrontend buildLibrary readingFile {} "call".toList readingJob buildResolved none
    ∅ ∅

theorem lookup_build : buildLibrary.reusableWorkflows.lookup buildPath = some buildYaml := by
  simp only [buildLibrary, Dict.ofList, List.foldl_cons, List.foldl_nil, AList.lookup_insert]

theorem find_build : (buildLibrary.reusableWorkflows.lookup buildRef).or
    (buildLibrary.reusableWorkflows.lookup (normalizeReusablePath buildFrontend buildRef)) =
      some buildYaml := by
  have hpath : normalizeReusablePath buildFrontend buildRef = buildPath := rfl
  have hnone : buildLibrary.reusableWorkflows.lookup buildRef = none := rfl
  rw [hpath, hnone, lookup_build]
  rfl

theorem parse_build : buildFrontend.parseWorkflow buildYaml = .ok buildFile := by
  simp only [buildFrontend, Frontend.complete, if_true]

theorem expand_buildCaller : ∃ m, expandJob buildFrontend buildLibrary readingFile {} none none
    "call".toList readingJob = .ok [(buildCaller, m)] :=
  expandJob_call rfl (resolveCall_ok (by decide) rfl find_build parse_build rfl) rfl rfl
    (fun _ => rfl) rfl

theorem topPlan_buildCaller : TopPlan buildFrontend buildLibrary buildCaller := by
  rcases expand_buildCaller with ⟨m, hpart⟩
  rcases expandJobs_single (e := ("call".toList, readingJob)) rfl hpart with ⟨out, hout, hjobs⟩
  have hdistinct : readingFile.DistinctScopes := by
    constructor
    · intro fields h
      cases h
    · intro e he fields h
      obtain rfl := List.mem_singleton.mp he
      cases h
      decide
  exact ⟨readingFile, {}, none, none, out, buildCaller, [], hdistinct, hout,
    hjobs ▸ List.mem_cons_self, rfl⟩

/-- The call of that node. -/
def buildCall : ReusableCallPlan where
  uses := buildRef
  workflowFile := normalizeReusablePath buildFrontend buildRef
  workflowSha := none
  workflowRepository := none
  depth := 1

theorem expand_build : ∃ raw : JobPlan Int,
    expandJob buildFrontend buildLibrary buildFile (calleeFrame buildCall)
      (some buildCaller.inputs) none "build".toList buildJob = .ok [(raw, none)] ∧
      raw.baseId = "build".toList ∧ raw.reusableCall = none ∧
      raw.deferredMatrix = some Matrices.rowsTemplate ∧ raw.inputs = ∅ :=
  ⟨_, rfl, rfl, rfl, rfl, rfl⟩

theorem expand_setup : ∃ raw : JobPlan Int,
    expandJob buildFrontend buildLibrary buildFile (calleeFrame buildCall)
      (some buildCaller.inputs) none "setup".toList {} = .ok [(raw, none)] :=
  ⟨_, rfl⟩

theorem distinctScopes_build : buildFile.DistinctScopes := by
  constructor
  · intro fields h
    cases h
  · intro e he fields h
    rcases List.mem_cons.mp he with rfl | he
    · cases h
    · obtain rfl := List.mem_singleton.mp he
      cases h
      decide

/-- The node of the job, under its caller. -/
theorem called_buildNode : ∃ node : JobPlan Int,
    CalledFrom buildFrontend buildLibrary buildCaller node ∧
      node.baseId = "call/build".toList ∧ node.reusableCall = none ∧
      node.deferredMatrix = some Matrices.rowsTemplate ∧ node.workflowFile = some buildPath ∧
      node.inputs = ∅ := by
  obtain ⟨setup, hsetup⟩ := expand_setup
  obtain ⟨raw, hraw, hbase, hplain, hdeferred, hinputs⟩ := expand_build
  have hparts : buildFile.jobs.mapM (fun e => expandJob buildFrontend buildLibrary buildFile
      (calleeFrame buildCall) (some buildCaller.inputs) none e.1 e.2) =
        .ok [[(setup, none)], [(raw, none)]] := by
    simp only [buildFile, List.mapM_cons, List.mapM_nil] at hsetup hraw ⊢
    rw [hsetup, hraw]
    rfl
  have hcall : buildCaller.reusableCall = some buildCall := rfl
  obtain ⟨out, hout, hjobs⟩ := expandReusableCall_parts hcall rfl hparts fun _ => rfl
  refine ⟨liftPlan buildCaller buildCall raw, .now distinctScopes_build hout ?_, ?_, hplain,
    hdeferred,
    rfl, ?_⟩
  · rw [hjobs]
    exact List.mem_cons_of_mem _ List.mem_cons_self
  · show underCaller buildCaller.id raw.baseId = _
    rw [hbase]
    rfl
  · show raw.inputs.extend ∅ = ∅
    rw [hinputs]
    rfl

/-- The outputs of the job that was waited for. -/
def buildNeeds : NeedsOutputs Int :=
  Dict.ofList [("call/setup".toList, Dict.ofList [("rows".toList, .string osText)])]

theorem resolveDeferredMatrixCells_complete [BEq N] (readMatrix : Value N → Matrices.MatrixValue N)
    (cellsError : Matrices.CellsError → ParserError) (jobId expression : Text)
    (needsOutputs : NeedsOutputs N) (inputs : Inputs N) :
    (frontend.complete readMatrix cellsError).resolveDeferredMatrixCells jobId expression
        needsOutputs inputs =
      ((Matrices.resolveDeferredMatrixCells frontend.engine jobId expression
        ((fieldsOf needsOutputs).map fun e => (e.1, fieldsOf e.2))
        (inputs.map fieldsOf)).mapError cellsError).map fun cells => cells.map Dict.ofList := rfl

theorem eval_buildRows : evalExpression osEngine Matrices.rowsTemplate
    (Matrices.deferredContext [("call/setup".toList, [("rows".toList, .string osText)])]
      (some [])) =
      .ok osMatrix := by
  have htrim : trimExpressionMarkers Matrices.rowsTemplate = Matrices.rowsExpression := by decide
  have hparse : parseExpression osEngine.parseNumber Matrices.rowsExpression =
      .ok (.call "fromJSON".toList
        [.path [needsRoot, "setup".toList, "outputs".toList, "rows".toList]]) :=
    Matrices.parse_rows
  rw [← htrim] at hparse
  rw [Matrices.evalExpression_of_trimmed hparse]
  refine Matrices.evalFresh_fromJson (t := osText) ?_ ?_ ?_
  · rfl
  · rfl
  · decide

/-- The matrix has one row. -/
theorem buildRows : buildFrontend.resolveDeferredMatrixCells "call/build".toList
    Matrices.rowsTemplate buildNeeds (some ∅) =
      .ok [Dict.ofList [("os".toList, .string "linux".toList)]] := by
  have hvalue : Matrices.deferredValue osEngine (Matrices.deferredContext
      [("call/setup".toList, [("rows".toList, .string osText)])] (some [])) Matrices.rowsTemplate =
        .ok osMatrix := by
    have hplain : Matrices.rowsTemplate.dropPrefix? Matrices.deferredMatrixSpecMark = none := by
      decide
    rw [Matrices.deferredValue, hplain]
    exact mapError_ok_iff.mpr eval_buildRows
  have hcells : Matrices.resolveDeferredMatrixCells osEngine "call/build".toList
      Matrices.rowsTemplate [("call/setup".toList, [("rows".toList, .string osText)])] (some []) =
        .ok [[("os".toList, .string "linux".toList)]] := by
    unfold Matrices.resolveDeferredMatrixCells
    rw [hvalue]
    rfl
  have hneeds : (fieldsOf buildNeeds).map (fun e => (e.1, fieldsOf e.2)) =
      [("call/setup".toList, [("rows".toList, .string osText)])] := rfl
  have hinputs : (some (∅ : Dict (Value Int))).map fieldsOf = some [] := rfl
  unfold buildFrontend
  rw [resolveDeferredMatrixCells_complete, hneeds, hinputs]
  dsimp only
  rw [hcells]
  rfl

theorem callerJob_build : callerJob buildFile "call/build".toList = some buildJob := rfl

/-- The cell of that row. -/
theorem expand_buildCell : ∃ cell, expandDeferredMatrixJob buildFrontend buildFile
    "call/build".toList Matrices.rowsTemplate buildNeeds (some ∅) = .ok [cell] := by
  unfold expandDeferredMatrixJob
  rw [callerJob_build]
  dsimp only
  rw [buildRows]
  exact ⟨_, rfl⟩

theorem access_buildCaller : buildCaller.access "contents".toList = .read := by decide
theorem oidc_buildCaller : buildCaller.oidcIdTokenGranted = false := by decide
theorem access_declared : declaredAccess
    (resolvePermissions buildJob.permissions buildFile.permissions) "contents".toList = .write := by
  decide
theorem oidc_declared : idTokenGranted (buildJob.permissions.or buildFile.permissions) = true := by
  decide

/-- A caller that may read the contents, and a cell of the called job that may write them and get
    an identity token. -/
theorem late_cell_escalates : ∃ (caller plan : JobPlan Int)
    (source : Option (WorkflowFile Int × Job Int)),
    TopPlan buildFrontend buildLibrary caller ∧
      CalleePlan buildFrontend buildLibrary caller source plan ∧
      caller.access "contents".toList = .read ∧ plan.access "contents".toList = .write ∧
      caller.oidcIdTokenGranted = false ∧ plan.oidcIdTokenGranted = true ∧
      ¬ ∀ scope, plan.access scope ≤ caller.access scope := by
  obtain ⟨node, hnode, hbase, hplain, hdeferred, hfile, hinputs⟩ := called_buildNode
  obtain ⟨cell, hcells⟩ := expand_buildCell
  have hparse : buildFrontend.parseWorkflow (fileOfNode buildLibrary [] node) = .ok buildFile := by
    rw [fileOfNode, hfile, Option.bind_some, lookup_build, Option.getD_some]
    exact parse_build
  have hwrites : cell.access "contents".toList = .write :=
    (access_of_cell callerJob_build hcells List.mem_cons_self _).trans access_declared
  have hflag : cell.oidcIdTokenGranted = true :=
    (plan_of_cell callerJob_build hcells List.mem_cons_self).1.trans oidc_declared
  refine ⟨buildCaller, cell, some (buildFile, buildJob), topPlan_buildCaller, ?_,
    access_buildCaller, hwrites, oidc_buildCaller, hflag, fun hall => ?_⟩
  · rw [← hbase, ← hinputs] at hcells
    exact .cell hnode hplain hdeferred hparse distinctScopes_build (hbase ▸ callerJob_build) hcells
      List.mem_cons_self
  · have hle := hall "contents".toList
    rw [access_buildCaller, hwrites] at hle
    exact absurd hle (by decide)

end Workflow

end Preloop

import PreloopControl.Lib.LastWrite
import PreloopControl.Workflow.TaskSteps

/-!
# Cron Schedules

`Scheduler` (`scheduler.rs`): the cron jobs of the `on.schedule` entries of workflows. A
job is what its `cron_loop` tasks were started with. The YAML parser, the parser of cron
expressions and the configured GitHub-owned workflows are parameters.

Only the jobs are kept: the fires, their history and the runs they submit are not.

## Main definitions

* `extractScheduleCrons`, `extractScheduleTimezones`: What a trigger asks for.
* `githubToCrons`: The schedules of one cron expression.
* `Scheduler.reconcile`, `Scheduler.reconcileAll`: The jobs after a look at a workflow,
  and at all workflows of a default branch.

## Theorems

* `lookup_reconcile`: One workflow decides the jobs of its path.
* `lookup_reconcileAll`: The jobs after a call are those of the last workflow of each path.
-/

namespace Preloop

open Expressions Workflow LastWrite

variable {S : Type}

/-! ## Cron expressions -/

/-- `str::parse` for an unsigned type of some width. -/
def parseUnsigned (width : Nat) (t : Text) : Option Nat :=
  let digits := match t with
    | '+' :: t => t
    | t => t
  (digitsValue 10 decimalDigit digits).filter (· < 2 ^ width)

/-- One end of a day-of-week range, counted from one. -/
def adjustDowPoint (p : Text) : Text :=
  match parseUnsigned 32 p with
  | some val =>
      if val = 0 ∨ val = 7 then "1".toList
      else if 1 ≤ val ∧ val ≤ 6 then Nat.toDigits 10 (val + 1)
      else p
  | none => p

/-- One item of a day-of-week list. -/
def adjustDowPart (part : Text) : Text :=
  match part.splitOn '/' with
  | [] => []
  | left :: steps =>
      let mappedLeft :=
        if left = "*".toList then "*".toList
        else "-".toList.intercalate ((left.splitOn '-').map adjustDowPoint)
      if steps = [] then mappedLeft
      else mappedLeft ++ "/".toList ++ "/".toList.intercalate steps

/-- `adjust_dow`. -/
def adjustDow (dow : Text) : Text := ",".toList.intercalate ((dow.splitOn ',').map adjustDowPart)

/-- The minutes one item of a minute field names, nothing if it alone is too frequent. -/
def minutePart (part : Text) : Option (List Nat) :=
  if part = "*".toList then none
  else match part.dropPrefix? "*/".toList with
    | some stepStr =>
        match parseUnsigned 8 stepStr with
        | some step => if step < 5 then none else some ((List.range 60).filter (· % step = 0))
        | none => some []
    | none =>
        match Text.cut "-".toList part with
        | some (start, stop) =>
            match parseUnsigned 8 start, parseUnsigned 8 stop with
            | some s, some e => some (List.range' s (e + 1 - s))
            | _, _ => some []
        | none => some (parseUnsigned 8 part).toList

/-- `minute_field_too_frequent`. -/
def minuteFieldTooFrequent (minute : Text) : Bool :=
  match (minute.splitOn ',').mapM minutePart with
  | none => true
  | some parts =>
      let sorted := parts.flatten.dedup.insertionSort (· ≤ ·)
      if sorted.length < 2 then false
      else ((sorted.zipWith (fun a b => b - a) sorted.tail).min?.getD 60) < 5

/-- `str::split_whitespace`. -/
def splitWhitespace (t : Text) : List Text := (t.splitOnP Text.isWhitespace).filter (· ≠ [])

/-- `Trigger`. -/
inductive Trigger
  | single (event : Text)
  | many (events : List Text)
  | map (config : List (Text × Workflow.Json))

/-- What the scheduler takes from elsewhere: the triggers of a workflow that parses, the
    schedule of a cron expression that parses, and the workflows left to GitHub. -/
structure ScheduleHost (S : Type) where
  parseWorkflow : Text → Option Trigger
  parseSchedule : Text → Option S
  configuredGithubOwnedWorkflows : List Text

/-- `github_to_crons`: days of the month and days of the week are two schedules if both
    are restricted. -/
def githubToCrons (host : ScheduleHost S) (githubExpr : Text) : Option (List S) :=
  match splitWhitespace githubExpr with
  | [minute, hour, dom, month, dow] =>
      if minuteFieldTooFrequent minute then none
      else
        let blank := " ".toList
        let expressions :=
          if dom ≠ "*".toList ∧ dow ≠ "*".toList then
            [blank.intercalate ["0".toList, minute, hour, dom, month, "*".toList, "*".toList],
              blank.intercalate
                ["0".toList, minute, hour, "*".toList, month, adjustDow dow, "*".toList]]
          else
            [blank.intercalate
              ["0".toList, minute, hour, dom, month, adjustDow dow, "*".toList]]
        expressions.mapM host.parseSchedule
  | _ => none

/-! ## What a workflow asks for -/

/-- `.github/workflows/`. -/
def workflowsDir : Text := ".github/workflows/".toList

/-- `canonical_workflow_path`. -/
def canonicalWorkflowPath (workflowPath : Text) : Text :=
  if workflowsDir.isPrefixOf workflowPath then workflowPath else workflowsDir ++ workflowPath

/-- `is_github_owned_workflow`. -/
def isGithubOwnedWorkflow (filename : Text) (configured : List Text) : Bool :=
  configured.any fun entry => entry = filename || entry = workflowsDir ++ filename

/-- The items under `schedule`. -/
def scheduleItems : Trigger → List Workflow.Json
  | .map config => ((getField config "schedule".toList).bind asArray).getD []
  | _ => []

/-- `extract_schedule_crons`. -/
def extractScheduleCrons (trigger : Trigger) : List Text :=
  (scheduleItems trigger).filterMap fun item => (jsonGet item "cron").bind asStr

/-- `extract_schedule_timezones`: the last timezone given for every cron. -/
def extractScheduleTimezones (trigger : Trigger) : StringMap :=
  SortedMap.ofList <| (scheduleItems trigger).filterMap fun item =>
    ((jsonGet item "cron").bind asStr).bind fun cron =>
      ((jsonGet item "timezone").bind asStr).map fun timezone => (cron, timezone)

/-! ## Jobs -/

/-- A workflow path and a cron expression. -/
abbrev JobKey := Text ×ₗ Text

/-- `(workflow_path, cron_expr)`. -/
def jobKey (workflowPath cronExpr : Text) : JobKey := toLex (workflowPath, cronExpr)

/-- `CronJob`: what its tasks were started with, one for each schedule. -/
structure CronJob (S : Type) where
  schedules : List S
  pushContext : Workflow.Json
  workflowYaml : Text
  timezone : Option Text

/-- `Scheduler`. -/
structure Scheduler (S : Type) where
  jobs : SortedMap JobKey (CronJob S)

/-! ## Push payloads -/

/-- The text under a path of field names. -/
def jsonText (value : Workflow.Json) (path : List String) : Option Text :=
  (path.foldlM jsonGet value).bind asStr

/-- The name of the repository a push payload is about. -/
def pushRepository (pushContext : Workflow.Json) : Text :=
  (jsonText pushContext ["repository", "full_name"]).getD "local/repo".toList

namespace Scheduler

variable (host : ScheduleHost S)

/-- `Scheduler::new`. -/
def new : Scheduler S := ⟨∅⟩

/-- The workflow is left to GitHub. -/
def skipped (canonicalPath : Text) : Bool :=
  isGithubOwnedWorkflow ((canonicalPath.dropPrefix? workflowsDir).getD canonicalPath)
    host.configuredGithubOwnedWorkflows

/-- The trigger that counts: that of a workflow of ours that parses. -/
def currentTrigger (canonicalPath workflowYaml : Text) : Option Trigger :=
  if skipped host canonicalPath then none else host.parseWorkflow workflowYaml

/-- The crons of a workflow. -/
def currentCrons (canonicalPath workflowYaml : Text) : List Text :=
  match currentTrigger host canonicalPath workflowYaml with
  | some trigger => extractScheduleCrons trigger
  | none => []

/-- The timezones of a workflow. -/
def currentTimezones (canonicalPath workflowYaml : Text) : StringMap :=
  match currentTrigger host canonicalPath workflowYaml with
  | some trigger => extractScheduleTimezones trigger
  | none => ∅

/-- One cron of a workflow: its job is replaced. -/
def register (canonicalPath workflowYaml : Text) (pushPayload : Workflow.Json)
    (timezones : StringMap) (jobs : SortedMap JobKey (CronJob S)) (cronExpr : Text) :
    SortedMap JobKey (CronJob S) :=
  let key := jobKey canonicalPath cronExpr
  let jobs := jobs.erase key
  match githubToCrons host cronExpr with
  | none => jobs
  | some schedules =>
      jobs.insert key ⟨schedules, pushPayload, workflowYaml, timezones.lookup cronExpr⟩

/-- `Scheduler::reconcile`. -/
def reconcile (s : Scheduler S) (workflowPath workflowYaml : Text) (pushPayload : Workflow.Json) :
    Scheduler S :=
  let canonicalPath := canonicalWorkflowPath workflowPath
  let crons := currentCrons host canonicalPath workflowYaml
  let timezones := currentTimezones host canonicalPath workflowYaml
  let jobs := s.jobs.filter fun key _ =>
    !((ofLex key).1 = canonicalPath && !crons.contains (ofLex key).2)
  { s with
    jobs := crons.foldl (register host canonicalPath workflowYaml pushPayload timezones) jobs }

/-- `Scheduler::reconcile_all`. -/
def reconcileAll (s : Scheduler S) (workflows : StringMap) (pushPayload : Workflow.Json) :
    Scheduler S :=
  let desiredPaths := workflows.entries.map fun e => canonicalWorkflowPath e.1
  let s := { s with jobs := s.jobs.filter fun key _ => desiredPaths.contains (ofLex key).1 }
  workflows.entries.foldl (fun s e => s.reconcile host e.1 e.2 pushPayload) s

/-! ## One workflow -/

/-- The job a workflow has for a cron: none if it does not ask for it, or if the cron is
    not valid. -/
def jobFor (canonicalPath workflowYaml : Text) (pushPayload : Workflow.Json) (cronExpr : Text) :
    Option (CronJob S) :=
  if (currentCrons host canonicalPath workflowYaml).contains cronExpr then
    (githubToCrons host cronExpr).map fun schedules =>
      ⟨schedules, pushPayload, workflowYaml,
        (currentTimezones host canonicalPath workflowYaml).lookup cronExpr⟩
  else none

variable {host}

theorem jobKey_inj {path path' cron cron' : Text} :
    jobKey path cron = jobKey path' cron' ↔ path = path' ∧ cron = cron' := by
  rw [jobKey, jobKey, toLex_inj, Prod.mk.injEq]

theorem lookup_register {canonicalPath workflowYaml : Text} {pushPayload : Workflow.Json}
    {timezones : StringMap} (jobs : SortedMap JobKey (CronJob S)) (cronExpr path cron : Text) :
    (register host canonicalPath workflowYaml pushPayload timezones jobs cronExpr).lookup
        (jobKey path cron) =
      if decide (canonicalPath = path ∧ cronExpr = cron) then
        (githubToCrons host cronExpr).map fun schedules =>
          ⟨schedules, pushPayload, workflowYaml, timezones.lookup cronExpr⟩
      else jobs.lookup (jobKey path cron) := by
  unfold register
  by_cases hkey : canonicalPath = path ∧ cronExpr = cron
  · have heq := jobKey_inj.mpr hkey
    rw [if_pos (by simpa using hkey)]
    cases githubToCrons host cronExpr with
    | none => simp [heq]
    | some schedules => simp [heq]
  · have hne : jobKey canonicalPath cronExpr ≠ jobKey path cron := fun h => hkey (jobKey_inj.mp h)
    rw [if_neg (by simpa using hkey)]
    cases githubToCrons host cronExpr with
    | none => simp [hne]
    | some schedules => simp [hne]

/-- One workflow decides the jobs of its path and leaves all others. -/
theorem lookup_reconcile (s : Scheduler S) (workflowPath workflowYaml : Text)
    (pushPayload : Workflow.Json) (path cron : Text) :
    (s.reconcile host workflowPath workflowYaml pushPayload).jobs.lookup (jobKey path cron) =
      if decide (canonicalWorkflowPath workflowPath = path) then
        jobFor host path workflowYaml pushPayload cron
      else s.jobs.lookup (jobKey path cron) := by
  unfold reconcile
  refine (foldl_lastWhere (fun m : SortedMap JobKey (CronJob S) => m.lookup (jobKey path cron))
    (fun jobs cronExpr => lookup_register jobs cronExpr path cron) _ _).trans ?_
  -- the workflow decides the jobs of its own path
  by_cases hpath : canonicalWorkflowPath workflowPath = path
  · subst hpath
    rw [if_pos (by simp), jobFor]
    by_cases hcron : (currentCrons host (canonicalWorkflowPath workflowPath)
        workflowYaml).contains cron = true
    · rw [if_pos hcron]
      rcases exists_lastWhere (p := fun cronExpr => decide (canonicalWorkflowPath workflowPath =
        canonicalWorkflowPath workflowPath ∧ cronExpr = cron)) (List.contains_iff_mem.mp hcron)
        (by simp) with ⟨last, hlast⟩
      have heq : last = cron := by simpa using (lastWhere_mem hlast).2
      rw [hlast, heq]
    · rw [if_neg hcron, lastWhere_eq_none_iff.mpr]
      · -- the job of a cron that is no longer asked for went with `retain`
        rw [SortedMap.lookup_filter, Option.filter_eq_none_iff]
        intro job _
        simpa [jobKey] using List.contains_iff_mem.not.mp hcron
      · intro cronExpr hmem
        have hne : cronExpr ≠ cron := by
          rintro rfl
          exact hcron (List.contains_iff_mem.mpr hmem)
        simpa using hne
  -- no cron of the workflow has the key, and `retain` drops only jobs of the path
  · rw [if_neg (by simpa using hpath), lastWhere_eq_none_iff.mpr fun cronExpr _ => by
      simp [hpath]]
    rw [SortedMap.lookup_filter]
    cases s.jobs.lookup (jobKey path cron) with
    | none => rfl
    | some job => simp [Option.filter, jobKey, Ne.symm hpath]

/-- The jobs after a call are those of the last workflow of each path. -/
theorem lookup_reconcileAll (s : Scheduler S) (workflows : StringMap) (pushPayload : Workflow.Json)
    (path cron : Text) :
    (s.reconcileAll host workflows pushPayload).jobs.lookup (jobKey path cron) =
      (lastWhere (fun e => decide (canonicalWorkflowPath e.1 = path)) workflows.entries).bind
        fun e => jobFor host path e.2 pushPayload cron := by
  unfold reconcileAll
  refine (foldl_lastWhere (fun s : Scheduler S => s.jobs.lookup (jobKey path cron))
    (fun s e => lookup_reconcile s e.1 e.2 pushPayload path cron) _ _).trans ?_
  cases hlast : lastWhere (fun e => decide (canonicalWorkflowPath e.1 = path))
      workflows.entries with
  | some e => rfl
  | none =>
      -- no workflow has the path, so its jobs went with the first `retain`
      have hno : (workflows.entries.map fun e => canonicalWorkflowPath e.1).contains path =
          false := by
        rw [Bool.eq_false_iff]
        intro h
        rcases List.mem_map.mp (List.contains_iff_mem.mp h) with ⟨e, he, hpath⟩
        have hne := lastWhere_eq_none_iff.mp hlast e he
        rw [decide_eq_true hpath] at hne
        cases hne
      rw [Option.bind_none, SortedMap.lookup_filter, Option.filter_eq_none_iff]
      intro job _
      simpa [jobKey] using hno

end Scheduler

end Preloop

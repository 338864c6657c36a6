import PreloopControl.Scheduler

/-!
# Schedules Follow the Inventories

After any sequence of `reconcile_all` calls the active jobs should be those of the latest
inventory of every repository: one for each valid entry, with the entry's own timezone.

The jobs are kept under the workflow path and the cron text alone. A call drops the jobs
of every path its inventory does not have and replaces the others, whichever repository
they came from, so only the last call is left; two spellings of one path share their jobs,
and so do the entries of a workflow with one cron. The inventories are followed exactly if
nothing is lost that way.

## Main definitions

* `ReconcileCall`, `runCalls`: The calls, and the scheduler after them.
* `Wanted`: The schedules an inventory asks for.
* `Latest`: The last inventory of its repository.
* `Followed`: Nothing is lost between repositories, paths and entries.

## Theorems

* `active_runCalls`: Only the last call decides.
* `active_iff_wanted`: The inventories are followed exactly if nothing is lost.
* `other_repository_drops`: A second repository drops the schedules of the first.
-/

namespace Preloop

open Expressions Workflow LastWrite Scheduler

variable {S : Type} (host : ScheduleHost S)

/-! ## Calls -/

/-- A `reconcile_all` call: the workflows of a default branch and the push payload. -/
structure ReconcileCall where
  workflows : StringMap
  pushPayload : Workflow.Json

/-- The repository a call is about. -/
def ReconcileCall.repository (call : ReconcileCall) : Text := pushRepository call.pushPayload

/-- The scheduler after some calls. -/
def runCalls (calls : List ReconcileCall) : Scheduler S :=
  calls.foldl (fun s call => s.reconcileAll host call.workflows call.pushPayload) .new

/-- The last call about its repository. -/
def Latest (calls : List ReconcileCall) (call : ReconcileCall) : Prop :=
  lastWhere (fun c => decide (c.repository = call.repository)) calls = some call

/-! ## Schedules -/

/-- A cron expression of a workflow and the job it has. -/
structure ActiveSchedule (S : Type) where
  path : Text
  cron : Text
  job : CronJob S

/-- The schedule is active. -/
def Active (s : Scheduler S) (a : ActiveSchedule S) : Prop :=
  s.jobs.lookup (jobKey a.path a.cron) = some a.job

/-- The entries of a trigger, every cron with its own timezone. -/
def scheduleEntries (trigger : Trigger) : List (Text × Option Text) :=
  (scheduleItems trigger).filterMap fun item => ((jsonGet item "cron").bind asStr).map fun cron =>
    (cron, (jsonGet item "timezone").bind asStr)

/-- The entries of a workflow that is ours and parses. -/
def workflowEntries (path yaml : Text) : List (Text × Option Text) :=
  ((currentTrigger host path yaml).map scheduleEntries).getD []

/-- A valid entry of a workflow. -/
def ValidEntry (path yaml cron : Text) (timezone : Option Text) : Prop :=
  (cron, timezone) ∈ workflowEntries host path yaml ∧ (githubToCrons host cron).isSome = true

/-- A schedule the inventory of a call asks for: it is that of a valid entry of a workflow,
    with the entry's own timezone, the workflow's text and the call's payload. -/
def Wanted (call : ReconcileCall) (a : ActiveSchedule S) : Prop :=
  ∃ e ∈ call.workflows.entries, a.path = canonicalWorkflowPath e.1 ∧
    ValidEntry host a.path e.2 a.cron a.job.timezone ∧
    some a.job.schedules = githubToCrons host a.cron ∧
    a.job.workflowYaml = e.2 ∧ a.job.pushContext = call.pushPayload

/-- Nothing is lost: no other repository has a valid entry, of two spellings of a path the
    first has none or is the same workflow, and no workflow has two valid entries with one
    cron and different timezones. -/
structure Followed (calls : List ReconcileCall) : Prop where
  oneRepository : ∀ last, calls.getLast? = some last → ∀ call, Latest calls call →
    call.repository ≠ last.repository → ∀ e ∈ call.workflows.entries, ∀ cron timezone,
      ¬ ValidEntry host (canonicalWorkflowPath e.1) e.2 cron timezone
  onePath : ∀ last, calls.getLast? = some last → ∀ e ∈ last.workflows.entries, ∀ e',
    lastWhere (fun x => decide (canonicalWorkflowPath x.1 = canonicalWorkflowPath e.1))
      last.workflows.entries = some e' →
    (∃ cron timezone, ValidEntry host (canonicalWorkflowPath e.1) e.2 cron timezone) → e.2 = e'.2
  oneTimezone : ∀ last, calls.getLast? = some last → ∀ e ∈ last.workflows.entries,
    ∀ cron timezone timezone',
      ValidEntry host (canonicalWorkflowPath e.1) e.2 cron timezone →
      ValidEntry host (canonicalWorkflowPath e.1) e.2 cron timezone' → timezone = timezone'

/-! ## The jobs of a workflow -/

variable {host} {calls : List ReconcileCall} {call last : ReconcileCall} {a : ActiveSchedule S}

theorem mem_scheduleEntries {trigger : Trigger} {cron : Text} {timezone : Option Text} :
    (cron, timezone) ∈ scheduleEntries trigger ↔
      ∃ item ∈ scheduleItems trigger, (jsonGet item "cron").bind asStr = some cron ∧
        (jsonGet item "timezone").bind asStr = timezone := by
  rw [scheduleEntries, List.mem_filterMap]
  refine exists_congr fun item => and_congr_right fun _ => ?_
  rw [Option.map_eq_some_iff]
  constructor
  · rintro ⟨c, hc, heq⟩
    rcases Prod.mk.inj heq with ⟨rfl, htz⟩
    exact ⟨hc, htz⟩
  · rintro ⟨hc, rfl⟩
    exact ⟨cron, hc, rfl⟩

theorem mem_extractScheduleCrons {trigger : Trigger} {cron : Text} :
    cron ∈ extractScheduleCrons trigger ↔
      ∃ timezone, (cron, timezone) ∈ scheduleEntries trigger := by
  rw [extractScheduleCrons, List.mem_filterMap]
  constructor
  · rintro ⟨item, hitem, hcron⟩
    exact ⟨_, mem_scheduleEntries.mpr ⟨item, hitem, hcron, rfl⟩⟩
  · rintro ⟨timezone, hmem⟩
    rcases mem_scheduleEntries.mp hmem with ⟨item, hitem, hcron, -⟩
    exact ⟨item, hitem, hcron⟩

/-- If all entries of a cron have one timezone, that is the one found for it. -/
theorem lookup_extractScheduleTimezones {trigger : Trigger} {cron : Text} {timezone : Option Text}
    (hmem : (cron, timezone) ∈ scheduleEntries trigger)
    (hall : ∀ other, (cron, other) ∈ scheduleEntries trigger → other = timezone) :
    (extractScheduleTimezones trigger).lookup cron = timezone := by
  have hzones : ∀ e : Text × Text, e ∈ (scheduleItems trigger).filterMap (fun item =>
      ((jsonGet item "cron").bind asStr).bind fun c =>
        ((jsonGet item "timezone").bind asStr).map fun zone => (c, zone)) ↔
      (e.1, some e.2) ∈ scheduleEntries trigger := by
    intro e
    rw [mem_scheduleEntries, List.mem_filterMap]
    refine exists_congr fun item => and_congr_right fun _ => ?_
    constructor
    · intro h
      rcases Option.bind_eq_some_iff.mp h with ⟨c, hc, h⟩
      rcases Option.map_eq_some_iff.mp h with ⟨zone, hzone, rfl⟩
      exact ⟨hc, hzone⟩
    · rintro ⟨hc, hzone⟩
      rw [hc, hzone]
      rfl
  cases hlookup : (extractScheduleTimezones trigger).lookup cron with
  | some zone =>
      exact hall (some zone) ((hzones (cron, zone)).mp (SortedMap.mem_of_lookup_ofList hlookup))
  | none =>
      cases timezone with
      | none => rfl
      | some zone =>
          -- an entry with a timezone is among those the map is built from
          exact absurd hlookup (SortedMap.lookup_ofList_ne_none ((hzones (cron, zone)).mpr hmem))

theorem mem_currentCrons {path yaml cron : Text} :
    cron ∈ currentCrons host path yaml ↔
      ∃ timezone, (cron, timezone) ∈ workflowEntries host path yaml := by
  unfold currentCrons workflowEntries
  cases currentTrigger host path yaml with
  | none => simp
  | some trigger => exact mem_extractScheduleCrons

theorem lookup_currentTimezones {path yaml cron : Text} {timezone : Option Text}
    (hmem : (cron, timezone) ∈ workflowEntries host path yaml)
    (hall : ∀ other, (cron, other) ∈ workflowEntries host path yaml → other = timezone) :
    (currentTimezones host path yaml).lookup cron = timezone := by
  unfold currentTimezones
  unfold workflowEntries at hmem hall
  cases htrigger : currentTrigger host path yaml with
  | none =>
      rw [htrigger] at hmem
      cases hmem
  | some trigger =>
      rw [htrigger] at hmem hall
      exact lookup_extractScheduleTimezones hmem hall

/-- A workflow has a job for a cron exactly if it has a valid entry with it. -/
theorem jobFor_eq_some_iff {path yaml cron : Text} {payload : Workflow.Json} {job : CronJob S} :
    jobFor host path yaml payload cron = some job ↔
      (∃ timezone, ValidEntry host path yaml cron timezone) ∧
        some job.schedules = githubToCrons host cron ∧ job.workflowYaml = yaml ∧
        job.pushContext = payload ∧
        job.timezone = (currentTimezones host path yaml).lookup cron := by
  unfold jobFor
  constructor
  · intro h
    by_cases hcron : (currentCrons host path yaml).contains cron = true
    · rw [if_pos hcron] at h
      rcases Option.map_eq_some_iff.mp h with ⟨schedules, hschedules, rfl⟩
      rcases mem_currentCrons.mp (List.contains_iff_mem.mp hcron) with ⟨timezone, hentry⟩
      exact ⟨⟨timezone, hentry, by rw [hschedules]; rfl⟩, hschedules.symm, rfl, rfl, rfl⟩
    · rw [if_neg hcron] at h
      cases h
  · rintro ⟨⟨timezone, hentry, -⟩, hschedules, hyaml, hpayload, htimezone⟩
    rw [if_pos (List.contains_iff_mem.mpr (mem_currentCrons.mpr ⟨timezone, hentry⟩)),
      ← hschedules, ← hyaml, ← hpayload]
    subst hyaml
    rw [← htimezone]
    rfl

/-! ## Only the last call decides -/

/-- After some calls a schedule is active exactly if the last workflow under its path in the
    last inventory has the job. -/
theorem active_runCalls (hlast : calls.getLast? = some last) :
    Active (runCalls host calls) a ↔
      ∃ e, lastWhere (fun x => decide (canonicalWorkflowPath x.1 = a.path))
          last.workflows.entries = some e ∧
        jobFor host a.path e.2 last.pushPayload a.cron = some a.job := by
  rcases List.getLast?_eq_some_iff.mp hlast with ⟨init, rfl⟩
  rw [Active, runCalls, List.foldl_concat, lookup_reconcileAll, Option.bind_eq_some_iff]

theorem not_active_runCalls_nil : ¬ Active (runCalls host []) a := by
  intro h
  cases h

/-- What is active after some calls is asked for by the last one, up to the timezone. -/
theorem wanted_of_active (hlast : calls.getLast? = some last)
    (hfollowed : Followed host calls) (h : Active (runCalls host calls) a) :
    Wanted host last a := by
  rcases (active_runCalls hlast).mp h with ⟨e, he, hjob⟩
  rcases jobFor_eq_some_iff.mp hjob with
    ⟨⟨timezone, hentry, hvalid⟩, hschedules, hyaml, hpayload, htimezone⟩
  rcases lastWhere_mem he with ⟨hmem, hpath⟩
  have hpath := of_decide_eq_true hpath
  -- all entries of the cron have one timezone, so the job has that of this entry
  have hown : a.job.timezone = timezone := by
    rw [htimezone]
    refine lookup_currentTimezones hentry fun other hother => ?_
    exact hfollowed.oneTimezone last hlast e hmem a.cron other timezone
      (hpath ▸ ⟨hother, hvalid⟩) (hpath ▸ ⟨hentry, hvalid⟩)
  exact ⟨e, hmem, hpath.symm, hown ▸ ⟨hentry, hvalid⟩, hschedules, hyaml, hpayload⟩

/-- What the last call asks for is active if nothing is lost within its inventory. -/
theorem active_of_wanted (hlast : calls.getLast? = some last)
    (hfollowed : Followed host calls) (h : Wanted host last a) :
    Active (runCalls host calls) a := by
  rcases h with ⟨e, hmem, hpath, ⟨hentry, hvalid⟩, hschedules, hyaml, hpayload⟩
  rw [hpath] at hentry
  rcases exists_lastWhere (p := fun x : Text × Text =>
    decide (canonicalWorkflowPath x.1 = canonicalWorkflowPath e.1)) hmem (by simp) with ⟨e', he'⟩
  -- a later spelling of the path has the same text
  have htext := hfollowed.onePath last hlast e hmem e' he' ⟨a.cron, _, hentry, hvalid⟩
  rw [active_runCalls hlast, hpath]
  refine ⟨e', he', jobFor_eq_some_iff.mpr ?_⟩
  rw [← htext]
  refine ⟨⟨_, hentry, hvalid⟩, hschedules, hyaml, hpayload, ?_⟩
  refine (lookup_currentTimezones hentry fun other hother => ?_).symm
  exact hfollowed.oneTimezone last hlast e hmem a.cron other _ ⟨hother, hvalid⟩ ⟨hentry, hvalid⟩

/-- The latest inventory of the last call's repository is that of the last call. -/
theorem Latest.eq_last (hlast : calls.getLast? = some last) (h : Latest calls call)
    (hrepository : call.repository = last.repository) : call = last := by
  have heq := lastWhere_of_getLast? (p := fun c : ReconcileCall =>
    decide (c.repository = call.repository)) hlast (by simp [hrepository])
  exact Option.some.inj (h.symm.trans heq)

theorem latest_last (hlast : calls.getLast? = some last) : Latest calls last :=
  lastWhere_of_getLast? hlast (by simp)

/-! ## What is lost shows -/

/-- The schedule of a valid entry. -/
theorem exists_wanted {e : Text × Text} {cron : Text} {timezone : Option Text}
    (hmem : e ∈ call.workflows.entries)
    (hentry : ValidEntry host (canonicalWorkflowPath e.1) e.2 cron timezone) :
    ∃ schedules, Wanted host call ⟨canonicalWorkflowPath e.1, cron,
      ⟨schedules, call.pushPayload, e.2, timezone⟩⟩ := by
  rcases Option.isSome_iff_exists.mp hentry.2 with ⟨schedules, hschedules⟩
  exact ⟨schedules, e, hmem, rfl, hentry, hschedules.symm, rfl, rfl⟩

variable
  (h : ∀ a, (∃ call, Latest calls call ∧ Wanted host call a) → Active (runCalls host calls) a)
include h

theorem oneRepository_of_active (hlast : calls.getLast? = some last) (hlatest : Latest calls call)
    (hne : call.repository ≠ last.repository) {e : Text × Text}
    (hmem : e ∈ call.workflows.entries) (cron : Text) (timezone : Option Text) :
    ¬ ValidEntry host (canonicalWorkflowPath e.1) e.2 cron timezone := by
  intro hentry
  rcases exists_wanted hmem hentry with ⟨schedules, hwanted⟩
  rcases (active_runCalls hlast).mp (h _ ⟨call, hlatest, hwanted⟩) with ⟨e', -, hjob⟩
  -- the job fires with the payload of the last call
  rcases jobFor_eq_some_iff.mp hjob with ⟨-, -, -, hpayload, -⟩
  exact hne (congrArg pushRepository hpayload)

theorem onePath_of_active (hlast : calls.getLast? = some last) {e e' : Text × Text}
    (hmem : e ∈ last.workflows.entries)
    (he' : lastWhere (fun x => decide (canonicalWorkflowPath x.1 = canonicalWorkflowPath e.1))
      last.workflows.entries = some e')
    (hentry : ∃ cron timezone, ValidEntry host (canonicalWorkflowPath e.1) e.2 cron timezone) :
    e.2 = e'.2 := by
  rcases hentry with ⟨cron, timezone, hentry⟩
  rcases exists_wanted hmem hentry with ⟨schedules, hwanted⟩
  rcases (active_runCalls hlast).mp (h _ ⟨last, latest_last hlast, hwanted⟩) with ⟨d, hd, hjob⟩
  rcases jobFor_eq_some_iff.mp hjob with ⟨-, -, hyaml, -, -⟩
  rw [← Option.some.inj (hd.symm.trans he')]
  exact hyaml

theorem oneTimezone_of_active (hlast : calls.getLast? = some last) {e : Text × Text}
    (hmem : e ∈ last.workflows.entries) {cron : Text} {timezone timezone' : Option Text}
    (hentry : ValidEntry host (canonicalWorkflowPath e.1) e.2 cron timezone)
    (hentry' : ValidEntry host (canonicalWorkflowPath e.1) e.2 cron timezone') :
    timezone = timezone' := by
  rcases exists_wanted hmem hentry with ⟨schedules, hwanted⟩
  rcases exists_wanted hmem hentry' with ⟨schedules', hwanted'⟩
  -- both schedules are the one job under the key
  have hjob := h _ ⟨last, latest_last hlast, hwanted⟩
  have hjob' := h _ ⟨last, latest_last hlast, hwanted'⟩
  exact congrArg CronJob.timezone (Option.some.inj (hjob.symm.trans hjob'))

omit h

/-! ## The inventories are followed -/

variable (host calls)

/-- After any sequence of calls the active schedules are those of the latest inventory of
    every repository exactly if nothing is lost between repositories, paths and entries. -/
theorem active_iff_wanted :
    (∀ a, Active (runCalls host calls) a ↔ ∃ call, Latest calls call ∧ Wanted host call a) ↔
      Followed host calls := by
  cases hlast : calls.getLast? with
  | none =>
      -- nothing was called, so nothing is active and nothing was lost
      rw [List.getLast?_eq_none_iff.mp hlast]
      refine ⟨fun _ => ⟨fun _ h => ?_, fun _ h => ?_, fun _ h => ?_⟩, fun _ a =>
        ⟨fun h => absurd h not_active_runCalls_nil, ?_⟩⟩
      · cases h
      · cases h
      · cases h
      · rintro ⟨call, hlatest, -⟩
        cases hlatest
  | some last =>
      constructor
      -- each of the three losses would leave an active schedule out
      · intro h
        have hactive := fun a => (h a).mpr
        refine ⟨fun last' hl call hlatest hne e hmem cron timezone => ?_,
          fun last' hl e hmem e' he' hentry => ?_,
          fun last' hl e hmem cron timezone timezone' hentry hentry' => ?_⟩
        · exact oneRepository_of_active hactive hl hlatest hne hmem cron timezone
        · exact onePath_of_active hactive hl hmem he' hentry
        · exact oneTimezone_of_active hactive hl hmem hentry hentry'
      -- what is active comes from the last call
      · intro hfollowed a
        constructor
        · exact fun h => ⟨last, latest_last hlast, wanted_of_active hlast hfollowed h⟩
        -- of another repository nothing is wanted any more, or it would be lost
        · rintro ⟨call, hlatest, hwanted⟩
          by_cases hrepository : call.repository = last.repository
          · rw [hlatest.eq_last hlast hrepository] at hwanted
            exact active_of_wanted hlast hfollowed hwanted
          · rcases hwanted with ⟨e, hmem, hpath, hentry, -⟩
            exact absurd (hpath ▸ hentry)
              (hfollowed.oneRepository last hlast call hlatest hrepository e hmem _ _)

/-! ## A second repository -/

/-- A workflow that runs every morning. -/
def morningYaml : Text := "on:\n  schedule:\n    - cron: 30 5 * * *\n".toList

/-- A host that reads this workflow and takes expressions as they are. -/
def morningHost : ScheduleHost Text where
  parseWorkflow yaml :=
    if yaml = morningYaml then
      some (.map [entry "schedule" (.array [.object [entry "cron" (jsonStr "30 5 * * *")]])])
    else none
  parseSchedule := some
  configuredGithubOwnedWorkflows := []

/-- A push to a repository with this workflow under some name. -/
def morningPush (repository workflow : String) : ReconcileCall where
  workflows := SortedMap.ofList [(workflow.toList, morningYaml)]
  pushPayload := .object [entry "repository" (.object [entry "full_name" (jsonStr repository)])]

/-- A second repository drops the schedules of the first: `a.yml` runs every morning until
    another repository with `b.yml` is pushed to. -/
theorem other_repository_drops :
    ¬ ∀ a, Active (runCalls morningHost [morningPush "acme/one" "a.yml",
        morningPush "acme/two" "b.yml"]) a ↔
      ∃ call, Latest [morningPush "acme/one" "a.yml", morningPush "acme/two" "b.yml"] call ∧
        Wanted morningHost call a := by
  intro h
  have hentry : ValidEntry morningHost ".github/workflows/a.yml".toList morningYaml
      "30 5 * * *".toList none := by
    constructor
    · decide
    · decide
  have hother : (morningPush "acme/one" "a.yml").repository ≠
      (morningPush "acme/two" "b.yml").repository := by decide
  have hmem : ("a.yml".toList, morningYaml) ∈ (morningPush "acme/one" "a.yml").workflows.entries :=
    List.mem_cons_self
  have hlatest : Latest [morningPush "acme/one" "a.yml", morningPush "acme/two" "b.yml"]
      (morningPush "acme/one" "a.yml") := rfl
  exact oneRepository_of_active (fun a => (h a).mpr) rfl hlatest hother hmem _ none hentry

end Preloop

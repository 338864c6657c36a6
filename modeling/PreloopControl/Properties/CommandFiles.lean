import PreloopControl.Worker.CommandFiles

/-!
# What Failed Files Leave

A file that cannot be parsed is not applied, and neither is one behind it: the job is what
the files in front of it make of it. A file of artifacts that cannot be read or parsed
declares nothing, and whatever goes wrong with it, what the job has declared before stays.

The files are applied one by one, so that those in front of a broken one are. Two
declarations of one file can contradict each other, and then the first of them stays.

## Main definitions

* `AppliedBefore`: The job in front of the file that failed.

## Theorems

* `processArtifacts_error`: What becomes of the subjects.
* `failed_files_stop`: Both.
-/

namespace Preloop

namespace Worker

variable {disk : FileSubjects}

/-! ## Declarations -/

/-- A declared subject stays as it was declared. -/
theorem lookup_declareEntries {parsed : List (Nat × ArtifactSubject)}
    {subjects : SortedMap Text ArtifactSubject} {name : Text} {declared : ArtifactSubject}
    (h : subjects.lookup name = some declared) :
    (declareEntries parsed subjects).1.lookup name = some declared := by
  induction parsed generalizing subjects with
  | nil => exact h
  | cons entry rest ih =>
      rcases entry with ⟨number, subject⟩
      unfold declareEntries
      cases hlookup : subjects.lookup subject.name with
      | some existing =>
          by_cases hdigest : existing.digest = subject.digest
          · simp only [if_pos hdigest]
            exact ih h
          · simp only [if_neg hdigest]
            exact h
      | none =>
          by_cases hfull : artifactsMaxAggregate ≤ subjects.entries.length
          · simp only [if_pos hfull]
            exact h
          · simp only [if_neg hfull]
            refine ih ?_
            -- the new subject has a name of its own
            rw [SortedMap.lookup_insert, if_neg ?_]
            · exact h
            · rintro rfl
              rw [hlookup] at h
              cases h

/-- No error takes a subject away, and one in reading or parsing declares none. -/
theorem processArtifacts_error {listWritten : Bool} {file : CommandFile} {job after : JobContext}
    {e : ArtifactsError} (h : processArtifacts disk listWritten file job = (after, .error e)) :
    (parseArtifacts disk file = .error e → after = job) ∧
      after = { job with artifactSubjects := after.artifactSubjects } ∧
        ∀ name subject, job.artifactSubjects.lookup name = some subject →
          after.artifactSubjects.lookup name = some subject := by
  unfold processArtifacts at h
  cases hparse : parseArtifacts disk file with
  | error e' =>
      rw [hparse] at h
      cases h
      exact ⟨fun _ => rfl, rfl, fun _ _ => id⟩
  | ok parsed =>
      rw [hparse] at h
      refine ⟨nofun, ?_⟩
      cases parsed with
      | none => cases h
      | some parsed =>
          -- entries are declared one after the other, and a conflict takes none of them back
          have hkeep : ∀ name subject, job.artifactSubjects.lookup name = some subject →
              (declareEntries parsed job.artifactSubjects).1.lookup name = some subject :=
            fun name subject => lookup_declareEntries
          rcases hdeclare : declareEntries parsed job.artifactSubjects with ⟨subjects, outcome⟩
          rw [hdeclare] at hkeep
          simp only [hdeclare] at h
          cases outcome with
          | error e' =>
              cases h
              exact ⟨rfl, hkeep⟩
          | ok _ =>
              rw [← (Prod.mk.inj h).1]
              exact ⟨rfl, hkeep⟩

/-! ## Files -/

/-- The job in front of the file that failed, and that the files in front of it are parsed. -/
def AppliedBefore (disk : FileSubjects) (files : CommandFiles) (stepId : Text)
    (job after : JobContext) : CommandFilesError → Prop
  | .env e => parseKv files.envFile = .error e ∧ after = job
  | .path e => ∃ vars, parseKv files.envFile = .ok vars ∧
    parsePathFile files.pathFile = .error e ∧ after = job.putEnvs vars.entries
  | .output e => ∃ vars paths, parseKv files.envFile = .ok vars ∧
    parsePathFile files.pathFile = .ok paths ∧ parseKv files.outputFile = .error e ∧
      after = (job.putEnvs vars.entries).addPaths paths
  | .state e => ∃ vars paths outputs, parseKv files.envFile = .ok vars ∧
    parsePathFile files.pathFile = .ok paths ∧ parseKv files.outputFile = .ok outputs ∧
      parseKv files.stateFile = .error e ∧
        after = ((job.putEnvs vars.entries).addPaths paths).attachOutputs stepId outputs.entries
  | .artifacts e => ∃ vars paths outputs state, parseKv files.envFile = .ok vars ∧
    parsePathFile files.pathFile = .ok paths ∧ parseKv files.outputFile = .ok outputs ∧
      parseKv files.stateFile = .ok state ∧ ∃ applied,
        applied = (((job.putEnvs vars.entries).addPaths paths).attachOutputs stepId
          outputs.entries).saveFileState stepId state.entries ∧
        applied.artifactsFeatureEnabled = true ∧ files.artifactsFile ≠ .missing ∧
          processArtifacts disk files.listWritten files.artifactsFile applied = (after, .error e)

/-- A file fails where the files in front of it are parsed, and only they are applied. -/
theorem applyCommandFiles_error (disk : FileSubjects) {files : CommandFiles} {stepId : Text}
    {job after : JobContext} {e : CommandFilesError}
    (h : applyCommandFiles disk files stepId job = (after, .error e)) :
    AppliedBefore disk files stepId job after e := by
  -- file by file, in the order in which they are read: the first that fails decides
  unfold applyCommandFiles at h
  cases henv : parseKv files.envFile with
  | error e =>
      rw [henv] at h
      cases h
      exact ⟨henv, rfl⟩
  | ok vars =>
    simp only [henv] at h
    cases hpath : parsePathFile files.pathFile with
    | error e =>
        rw [hpath] at h
        cases h
        exact ⟨vars, henv, hpath, rfl⟩
    | ok paths =>
      simp only [hpath] at h
      cases houtput : parseKv files.outputFile with
      | error e =>
          rw [houtput] at h
          cases h
          exact ⟨vars, paths, henv, hpath, houtput, rfl⟩
      | ok outputs =>
        simp only [houtput] at h
        cases hstate : parseKv files.stateFile with
        | error e =>
            rw [hstate] at h
            cases h
            exact ⟨vars, paths, outputs, henv, hpath, houtput, hstate, rfl⟩
        | ok state =>
          simp only [hstate] at h
          generalize happlied : (((job.putEnvs vars.entries).addPaths paths).attachOutputs stepId
            outputs.entries).saveFileState stepId state.entries = applied at h
          -- everything parsed is applied by now; only the artifacts are still to come
          by_cases hdeclares : applied.artifactsFeatureEnabled = true ∧
              files.artifactsFile ≠ .missing
          · rw [if_pos hdeclares] at h
            rcases hrun : processArtifacts disk files.listWritten files.artifactsFile applied with
              ⟨last, outcome⟩
            rw [hrun] at h
            cases outcome with
            | error e =>
                cases h
                exact ⟨vars, paths, outputs, state, henv, hpath, houtput, hstate, applied,
                  happlied.symm, hdeclares.1, hdeclares.2, hrun⟩
            | ok _ => cases h
          · rw [if_neg hdeclares] at h
            cases h

/-- Of the file that fails and those behind it nothing is applied, and artifacts that cannot
be read or parsed declare nothing. -/
theorem failed_files_stop (disk : FileSubjects) (files : CommandFiles) (stepId : Text)
    (job : JobContext) :
    (∀ after e, applyCommandFiles disk files stepId job = (after, .error e) →
      AppliedBefore disk files stepId job after e) ∧
    (∀ listWritten file after e,
      processArtifacts disk listWritten file job = (after, .error e) →
        (parseArtifacts disk file = .error e → after = job) ∧
          after = { job with artifactSubjects := after.artifactSubjects } ∧
            ∀ name subject, job.artifactSubjects.lookup name = some subject →
              after.artifactSubjects.lookup name = some subject) :=
  ⟨fun _ _ => applyCommandFiles_error disk, fun _ _ _ _ => processArtifacts_error⟩

/-- A job before its first step. -/
def freshJob : JobContext := .new ∅ [] true false

/-- The files of a step that wrote its outputs wrongly. -/
def outputTorn : CommandFiles where
  envFile := .holds "A=1\n".toList
  pathFile := .missing
  outputFile := .holds "torn".toList
  stateFile := .missing
  artifactsFile := .missing
  listWritten := true

/-- Two files of one name. -/
def twoNamesakes : FileSubjects := fun path =>
  .ok { name := "n".toList, digest := path, kind := "file".toList }

/-- The outputs fail, and the environment was applied. -/
theorem failed_files_stop_outputTorn :
    ∃ vars paths, parseKv outputTorn.envFile = .ok vars ∧
      parsePathFile outputTorn.pathFile = .ok paths ∧
        (applyCommandFiles twoNamesakes outputTorn [] freshJob).1 =
          (freshJob.putEnvs vars.entries).addPaths paths := by
  rcases (failed_files_stop twoNamesakes outputTorn [] freshJob).1 _
    (.output (.invalidFormat "torn".toList)) rfl with
    ⟨vars, paths, henv, hpath, -, hafter⟩
  exact ⟨vars, paths, henv, hpath, hafter⟩

/-- A variable is set although the outputs behind it are torn, and an artifact is declared
although another one of its name contradicts it. -/
theorem failed_files_leave_traces :
    ((applyCommandFiles twoNamesakes outputTorn [] freshJob).2 =
        .error (.output (.invalidFormat "torn".toList)) ∧
      (applyCommandFiles twoNamesakes outputTorn [] freshJob).1.env.lookup "A".toList =
        some "1".toList ∧ freshJob.env.lookup "A".toList = none) ∧
    (processArtifacts twoNamesakes true (.holds "x/n\ny/n\n".toList) freshJob).2 =
        .error (.conflict 2 "n".toList "x/n".toList "y/n".toList) ∧
      ((processArtifacts twoNamesakes true (.holds "x/n\ny/n\n".toList)
        freshJob).1.artifactSubjects.lookup "n".toList).isSome = true ∧
      freshJob.artifactSubjects.lookup "n".toList = none := by
  decide

end Worker

end Preloop

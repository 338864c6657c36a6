import PreloopControl.Worker.FileCommands
import PreloopControl.Worker.JobContext

/-!
# The Files of One Step

What becomes of the files a step has written when it ends (`file_commands.rs`): each is
read, parsed and applied to the job before the next one is read, and the declared artifacts
come last. A file may be missing, may hold a text, or may be nothing that can be read as a
text. The disk that a declared artifact is hashed from is a parameter.

## Main definitions

* `CommandFile`, `CommandFiles`: The files of a step.
* `parsePathFile`, `parseArtifactEntry`, `parseArtifacts`: The parsers beside `parseKvFile`.
* `processArtifacts`: `process_artifacts_file`.
* `applyCommandFiles`: `apply_file_commands`.
-/

namespace Preloop

namespace Worker

/-! ## Files -/

/-- A file as it is found. One that is no text has a size, unless even that is not told. -/
inductive CommandFile
  | missing
  | unreadable (bytes : Option Nat)
  | holds (text : Text)
deriving DecidableEq, Repr

/-- `read_file_command`. -/
def readFileCommand : CommandFile → Except FileCommandError Text
  | .missing => .error .reading
  | .unreadable _ => .error .reading
  | .holds text => readBounded text

/-- `parse_kv_file`. -/
def parseKv : CommandFile → Except FileCommandError (SortedMap Text Text)
  | .missing => .ok ∅
  | .unreadable _ => .error .reading
  | .holds text => parseKvFile (some text)

/-- `parse_path_file`. -/
def parsePathFile : CommandFile → Except FileCommandError (List Text)
  | .missing => .ok []
  | file =>
    match readFileCommand file with
    | .error e => .error e
    | .ok text => .ok (((Lines.lines text).map Text.trim).filter (· ≠ []))

/-! ## Artifacts -/

/-- What `parse_artifact_entry` refuses. What is wrong with a declared file is found out on
    the disk. -/
inductive ArtifactEntryError
  | reserved
  | pathMissing
  | digestMissing
  | unsupportedScheme
  | hexLength (algo : Text) (expected got : Nat)
  | file (message : Text)
deriving DecidableEq, Repr

/-- The texts of the errors. -/
def ArtifactEntryError.message : ArtifactEntryError → String
  | .reserved => "entries containing '=' are reserved and not permitted"
  | .pathMissing => "file:// entries must include a path"
  | .digestMissing => "oci:// entries must include an @sha\x7b256,384,512\x7d:<hex> digest"
  | .unsupportedScheme => "unsupported URI scheme"
  | .hexLength algo expected got =>
    "digest '" ++ String.ofList algo ++ "' must be " ++ toString expected ++
      " hex characters, got " ++ toString got
  | .file message => String.ofList message

/-- The expression for schemes, from the start of the entry. -/
def hasScheme (t : Text) : Bool :=
  match t with
  | [] => false
  | c :: rest =>
    c.isAlpha &&
      "://".toList.isPrefixOf
        (rest.dropWhile fun c => c.isAlphanum || c = '+' || c = '.' || c = '-')

/-- What the expression for digests captures. -/
structure OciCaptures where
  refName : Text
  algo : Text
  hex : Text
deriving DecidableEq, Repr

/-- `expected_hex_len`. -/
def expectedHexLen (algo : Text) : Option Nat :=
  if algo = "sha256".toList then some 64
  else if algo = "sha384".toList then some 96
  else if algo = "sha512".toList then some 128
  else none

def isHexDigit (c : Char) : Bool :=
  c.isDigit || ('a' ≤ c && c ≤ 'f') || ('A' ≤ c && c ≤ 'F')

/-- The expression for digests. Nothing behind the reference holds an `@`, so that it is the
    last one of the entry. -/
def ociCaptures (t : Text) : Option OciCaptures :=
  let digest := t.rtakeWhile (· ≠ '@')
  match (t.rdropWhile (· ≠ '@')).dropLast, Text.cut [':'] digest with
  | refName, some (algo, hex) =>
    if refName ≠ [] ∧ '\n' ∉ refName ∧ (expectedHexLen algo).isSome ∧ hex ≠ [] ∧
        hex.all isHexDigit then
      some ⟨refName, algo, hex⟩
    else none
  | _, none => none

/-- `make_oci_subject`. The algorithm is one of the three and the reference is not empty. -/
def makeOciSubject (caps : OciCaptures) : Except ArtifactEntryError ArtifactSubject :=
  let expected := (expectedHexLen caps.algo).getD 0
  if caps.hex.length ≠ expected then
    .error (.hexLength caps.algo expected caps.hex.length)
  else
    .ok
      { name := caps.refName
        digest := caps.algo ++ [':'] ++ caps.hex.map Char.toLower
        kind := "oci".toList }

/-- The disk: `make_file_subject`, in the workspace of the job. -/
abbrev FileSubjects := Text → Except Text ArtifactSubject

/-- `make_file_subject`. -/
def makeFileSubject (disk : FileSubjects) (path : Text) :
    Except ArtifactEntryError ArtifactSubject :=
  match disk path with
  | .error message => .error (.file message)
  | .ok subject => .ok subject

/-- The rest of an entry under a scheme, written small or large. -/
def underScheme (small large t : Text) : Option Text :=
  (t.dropPrefix? small).or (t.dropPrefix? large)

/-- `parse_artifact_entry`. -/
def parseArtifactEntry (disk : FileSubjects) (line : Text) :
    Except ArtifactEntryError ArtifactSubject :=
  let trimmed := Text.trim line
  if '=' ∈ trimmed then .error .reserved
  else
    match underScheme "file://".toList "FILE://".toList trimmed with
    | some path =>
      if Text.trim path = [] then .error .pathMissing else makeFileSubject disk path
    | none =>
      match underScheme "oci://".toList "OCI://".toList trimmed with
      | some rest =>
        match ociCaptures rest with
        | none => .error .digestMissing
        | some caps => makeOciSubject caps
      | none =>
        if hasScheme trimmed then .error .unsupportedScheme
        else
          match ociCaptures trimmed with
          | some caps =>
            if expectedHexLen caps.algo = some caps.hex.length then makeOciSubject caps
            else makeFileSubject disk trimmed
          | none => makeFileSubject disk trimmed

/-- `ARTIFACTS_MAX_FILE_BYTES`. -/
def artifactsMaxFileBytes : Nat := 1024 * 1024

/-- What `process_artifacts_file` refuses. -/
inductive ArtifactsError
  | reading
  | tooLarge (bytes : Nat)
  | invalid (line : Nat) (e : ArtifactEntryError)
  | conflict (line : Nat) (name previous declared : Text)
  | tooMany (line : Nat)
  | listNotWritten
deriving DecidableEq, Repr

/-- The texts of the errors that are not the disk's. -/
def ArtifactsError.message : ArtifactsError → Option String
  | .reading => none
  | .tooLarge bytes => some <|
    "$GITHUB_ARTIFACTS file exceeds the maximum size of " ++
      toString (artifactsMaxFileBytes / 1024) ++ " KiB (got " ++ toString (bytes / 1024) ++ " KiB)."
  | .invalid line e => some <|
    "Invalid $GITHUB_ARTIFACTS entry on line " ++ toString line ++ ": " ++ e.message
  | .conflict line name previous declared => some <|
    "Invalid $GITHUB_ARTIFACTS entry on line " ++ toString line ++
      ": Conflicting digest for artifact '" ++ String.ofList name ++
        "': previously declared as '" ++
      String.ofList previous ++ "', now declared as '" ++ String.ofList declared ++ "'."
  | .tooMany line => some <|
    "Invalid $GITHUB_ARTIFACTS entry on line " ++ toString line ++
      ": The job has exceeded the maximum of " ++ toString artifactsMaxAggregate ++
      " declared artifacts."
  | .listNotWritten => none

/-- The loop over the lines of the file, with their numbers. -/
def parseEntries (disk : FileSubjects) : Nat → List Text →
    Except ArtifactsError (List (Nat × ArtifactSubject))
  | _, [] => .ok []
  | number, raw :: rest =>
    let trimmed := Text.trim raw
    if trimmed = [] ∨ trimmed.head? = some '#' then parseEntries disk (number + 1) rest
    else
      match parseArtifactEntry disk trimmed with
      | .error e => .error (.invalid number e)
      | .ok subject =>
        match parseEntries disk (number + 1) rest with
        | .error e => .error e
        | .ok parsed => .ok ((number, subject) :: parsed)

/-- The loop over the parsed entries. What was inserted before an error stays. -/
def declareEntries : List (Nat × ArtifactSubject) → SortedMap Text ArtifactSubject →
    SortedMap Text ArtifactSubject × Except ArtifactsError Unit
  | [], subjects => (subjects, .ok ())
  | (number, subject) :: rest, subjects =>
    match subjects.lookup subject.name with
    | some existing =>
      if existing.digest = subject.digest then declareEntries rest subjects
      else
        (subjects, .error (.conflict number subject.name existing.digest subject.digest))
    | none =>
      if artifactsMaxAggregate ≤ subjects.entries.length then (subjects, .error (.tooMany number))
      else declareEntries rest (subjects.insert subject.name subject)

/-- The text of the file and its entries: all that is done before anything is declared. -/
def parseArtifacts (disk : FileSubjects) : CommandFile →
    Except ArtifactsError (Option (List (Nat × ArtifactSubject)))
  | .missing => .error .reading
  | .unreadable none => .error .reading
  | .unreadable (some bytes) =>
    if bytes = 0 then .ok none
    else if artifactsMaxFileBytes < bytes then .error (.tooLarge bytes)
    else .error .reading
  | .holds text =>
    if text.utf8Len = 0 then .ok none
    else if artifactsMaxFileBytes < text.utf8Len then .error (.tooLarge text.utf8Len)
    else
      match parseEntries disk 1 (Lines.lines text) with
      | .error e => .error e
      | .ok parsed => .ok (some parsed)

/-- `process_artifacts_file`. At its end the list of all subjects is written, which may
    fail. -/
def processArtifacts (disk : FileSubjects) (listWritten : Bool) (file : CommandFile)
    (job : JobContext) : JobContext × Except ArtifactsError Unit :=
  match parseArtifacts disk file with
  | .error e => (job, .error e)
  | .ok none => (job, .ok ())
  | .ok (some parsed) =>
    match declareEntries parsed job.artifactSubjects with
    | (subjects, .error e) => ({ job with artifactSubjects := subjects }, .error e)
    | (subjects, .ok ()) =>
      ({ job with artifactSubjects := subjects },
        if listWritten then .ok () else .error .listNotWritten)

/-! ## All files -/

/-- The files of one step, and whether the list of subjects can be written. -/
structure CommandFiles where
  envFile : CommandFile
  pathFile : CommandFile
  outputFile : CommandFile
  stateFile : CommandFile
  artifactsFile : CommandFile
  listWritten : Bool

/-- The file that could not be applied. -/
inductive CommandFilesError
  | env (e : FileCommandError)
  | path (e : FileCommandError)
  | output (e : FileCommandError)
  | state (e : FileCommandError)
  | artifacts (e : ArtifactsError)
deriving DecidableEq, Repr

/-- `apply_file_commands`. The summary is only measured. -/
def applyCommandFiles (disk : FileSubjects) (files : CommandFiles) (stepId : Text)
    (job : JobContext) : JobContext × Except CommandFilesError Unit :=
  match parseKv files.envFile with
  | .error e => (job, .error (.env e))
  | .ok vars =>
    let job := job.putEnvs vars.entries
    match parsePathFile files.pathFile with
    | .error e => (job, .error (.path e))
    | .ok paths =>
      let job := job.addPaths paths
      match parseKv files.outputFile with
      | .error e => (job, .error (.output e))
      | .ok outputs =>
        let job := job.attachOutputs stepId outputs.entries
        match parseKv files.stateFile with
        | .error e => (job, .error (.state e))
        | .ok state =>
          let job := job.saveFileState stepId state.entries
          if job.artifactsFeatureEnabled ∧ files.artifactsFile ≠ .missing then
            match processArtifacts disk files.listWritten files.artifactsFile job with
            | (job, .error e) => (job, .error (.artifacts e))
            | (job, .ok ()) => (job, .ok ())
          else (job, .ok ())

end Worker

end Preloop

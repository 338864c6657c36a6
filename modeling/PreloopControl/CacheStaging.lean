import PreloopControl.DebugSessions
import PreloopControl.Lib.BufferedFile
import PreloopControl.Lib.Machine

/-!
# The Staging of Cache Uploads

One reservation of the legacy cache (`cache_artifacts.rs`): its staging file, the uploads
that append to it, its commit and its removal. Every upload, the commit and the sweeper hold
the reservation's lock from their checks on, so that only one of them is under way; the
background writes of its file and the rollbacks of dropped uploads come in between.

An event is what one of them does between two awaits. How the operations on the file end is
part of the event. Other reservations of the job take and return permits of the job's
budget. Left out are the checks of the caller's token and the times of the sweeper.

## Main definitions

* `Staging`: The reservation, its file and the upload under way.
* `beginUpload`, `takeFrame`, `frameWritten`, `endUpload`, `rollback`: `cache_upload`.
* `dropUpload`: The drop of its guard.
* `commitStaged`, `sweepStaged`: The ends of a reservation.
* `staging`: All of them as a machine, and what callers are told.
-/

namespace Preloop

/-- What a refused upload or commit is answered. -/
inductive StagingError
  | api (error : ApiError)
  | payloadTooLarge (message : Text)
  | internal (message : Text)
deriving DecidableEq, Repr

/-- `MAX_CACHE_UPLOAD_BYTES`. -/
def maxCacheUploadBytes : Nat := 512 * 1024 * 1024

/-- `MAX_PENDING_CACHE_BYTES_PER_JOB`. -/
def maxPendingCacheBytesPerJob : Nat := 1024 * 1024 * 1024

/-- `u64::saturating_add`. -/
def saturatingAdd (a b : Nat) : Nat := min (a + b) (2 ^ 64 - 1)

/-! ## The reservation -/

/-- `PendingCache`: its owner and the bytes staged so far. -/
structure PendingCache where
  jobBackendId : Text
  stagingLen : Nat
deriving DecidableEq, Repr

/-- `CacheUploadGuard`, with the bytes that were handed to the file and the frame that is
being written. -/
structure CacheUpload where
  startLen : Nat
  uploadPermit : Nat
  jobPermit : Nat
  total : Nat
  handed : List UInt8
  writing : Option (List UInt8)
deriving DecidableEq, Repr

/-- The frames of the body that were taken so far. -/
def CacheUpload.body (u : CacheUpload) : List UInt8 := u.handed ++ u.writing.getD []

/-- A reservation: `pending` while it is in `pending_caches`, the permits that are left, the
upload that holds the lock, and the lengths to which dropped uploads will cut the file. Of
the job's budget, what its other reservations hold. -/
structure Staging where
  pending : Option PendingCache
  invalidated : Bool
  file : Option (BufferedFile UInt8)
  uploadQuota : Nat
  jobQuota : Option Nat
  jobOthers : Nat
  active : Option CacheUpload
  truncations : List Nat
deriving DecidableEq, Repr

/-- The staging file. -/
def Staging.content (s : Staging) : List UInt8 := s.file.elim [] BufferedFile.disk

/-- The bytes of the upload under way. -/
def Staging.inFlight (s : Staging) : Nat := s.active.elim 0 fun u => u.body.length

/-- `cache_reserve`: a new reservation of a job, or of the system without a job's budget. -/
def Staging.reserved (jobBackendId : Text) (jobOthers : Nat) : Staging where
  pending := some ⟨jobBackendId, 0⟩
  invalidated := false
  file := none
  uploadQuota := maxCacheUploadBytes
  jobQuota := if jobBackendId = [] then none else some (maxPendingCacheBytesPerJob - jobOthers)
  jobOthers := jobOthers
  active := none
  truncations := []

/-- Who calls: the system bearer, or a job. -/
inductive CacheCaller
  | system
  | job (id : Text)
deriving DecidableEq, Repr

/-- The reservation, if there is one and the caller may use it. -/
def Staging.lookup (s : Staging) (caller : CacheCaller) : Except StagingError PendingCache :=
  match s.pending with
  | none => .error (.api (.notFound "cache reservation not found".toList))
  | some pending =>
    let owned := match caller with
      | .system => true
      | .job id => pending.jobBackendId = id
    if owned then .ok pending
    else .error (.api (.forbidden "cache reservation belongs to another job".toList))

/-! ## Uploads -/

/-- How opening the staging file and asking for its length end. A call that is dropped
there may have created the file. -/
inductive Opening
  | dropped (created : Bool)
  | failed (message : Text)
  | unstatted (message : Text)
  | stated
deriving DecidableEq, Repr

/-- `cache_upload` from the lock to its guard. The file is created by the first upload. -/
def beginUpload (caller : CacheCaller) (opening : Opening) (s : Staging) :
    Staging × Option StagingError :=
  match s.lookup caller with
  | .error e => (s, some e)
  | .ok pending =>
    if s.invalidated then
      (s, some (.api (.badRequest "cache upload reservation is invalidated".toList)))
    else
      match opening with
      | .dropped created =>
        ({ s with file := if created then some (s.file.getD (.opened [])) else s.file }, none)
      | .failed message => (s, some (.internal ("cache staging write: ".toList ++ message)))
      | .unstatted message =>
        ({ s with file := some (s.file.getD (.opened [])) },
          some (.internal ("cache staging stat: ".toList ++ message)))
      | .stated =>
        let s := { s with file := some (s.file.getD (.opened [])) }
        if s.content.length ≠ pending.stagingLen then
          ({ s with invalidated := true },
            some (.internal "cache staging length disagrees with reservation".toList))
        else
          ({ s with
              file := s.file.map fun f => { f with failed := false }
              active := some ⟨pending.stagingLen, 0, 0, 0, [], none⟩ }, none)

/-- How a rollback ends: cut and flushed, cut only, or not cut. Of the writes under way some
bytes reach the disk before. -/
inductive RollbackEnd
  | done (settled : Nat)
  | unflushed (settled : Nat)
  | failed (settled : Nat)
deriving DecidableEq, Repr

/-- The permits of a guard go back when it is dropped. -/
def Staging.release (s : Staging) (u : CacheUpload) : Staging :=
  { s with
    uploadQuota := s.uploadQuota + u.uploadPermit
    jobQuota := s.jobQuota.map (· + u.jobPermit)
    active := none }

/-- `drop` of a guard that is not finished: the reservation is invalidated, and a task will
cut the file. -/
def Staging.dropUpload (s : Staging) (u : CacheUpload) : Staging :=
  { s.release u with
    invalidated := true
    truncations := s.truncations ++ [u.startLen] }

/-- `cache_upload_rollback_error`, and the drop of the guard after it. -/
def rollback (u : CacheUpload) (error : StagingError) (ending : RollbackEnd) (s : Staging) :
    Staging × StagingError :=
  match ending with
  | .done settled =>
    ({ s.release u with file := s.file.map (·.truncate 0 u.startLen settled) }, error)
  | .unflushed settled =>
    ({ s.dropUpload u with file := s.file.map (·.truncate 0 u.startLen settled) },
      .internal "cache upload rollback failed; reservation invalidated".toList)
  | .failed settled =>
    ({ s.dropUpload u with file := s.file.map (·.settle settled) },
      .internal "cache upload rollback failed; reservation invalidated".toList)

/-- The reservation is asked for its quotas before each frame, and again at the end. -/
def Staging.usable (s : Staging) : Except StagingError PendingCache :=
  match s.pending with
  | none => .error (.api (.notFound "cache reservation not found".toList))
  | some pending =>
    if s.invalidated then
      .error (.api (.badRequest "cache upload reservation is invalidated".toList))
    else .ok pending

/-- `reserve_chunk`: permits for a frame, of both quotas or of none. -/
def reserveChunk (s : Staging) (u : CacheUpload) (bytes : Nat) :
    Except StagingError (Staging × CacheUpload) :=
  if 2 ^ 32 ≤ bytes then
    .error (.payloadTooLarge "cache upload frame is too large".toList)
  else if s.uploadQuota < bytes then
    .error (.payloadTooLarge "cache upload exceeds the per-upload cap".toList)
  else
    let u := { u with uploadPermit := u.uploadPermit + bytes }
    match s.jobQuota with
    | none => .ok ({ s with uploadQuota := s.uploadQuota - bytes }, u)
    | some jobQuota =>
      if jobQuota < bytes then
        .error (.payloadTooLarge "job exceeds the pending-cache byte budget".toList)
      else
        .ok ({ s with uploadQuota := s.uploadQuota - bytes, jobQuota := some (jobQuota - bytes) },
          { u with jobPermit := u.jobPermit + bytes })

/-- The loop of `cache_upload` up to the write of a frame. Empty frames are skipped. -/
def takeFrame (u : CacheUpload) (frame : List UInt8) (ending : RollbackEnd) (s : Staging) :
    Staging × Option StagingError :=
  if frame = [] then (s, none)
  else
    match s.usable with
    | .error e =>
      let (s, e) := rollback u e ending s
      (s, some e)
    | .ok _ =>
      match reserveChunk s u frame.length with
      | .error e =>
        let (s, e) := rollback u e ending s
        (s, some e)
      | .ok (s, u) => ({ s with active := some { u with writing := some frame } }, none)

/-- What a caller sees of a write or flush that ends well: no failure is left to report. -/
def Staging.reportsFailure (s : Staging) : Bool := s.file.elim true BufferedFile.failed

/-- The frame is handed over. -/
def frameWritten (u : CacheUpload) (frame : List UInt8) (s : Staging) : Staging :=
  { s with
    file := s.file.map (·.write frame)
    active := some { u with
      handed := u.handed ++ frame
      writing := none
      total := saturatingAdd u.total frame.length } }

/-- The end of `cache_upload`, after the flush: the bytes are counted and their permits kept. -/
def endUpload (u : CacheUpload) (ending : RollbackEnd) (s : Staging) :
    Staging × Option StagingError :=
  match s.usable with
  | .error e =>
    let (s, e) := rollback u e ending s
    (s, some e)
  | .ok pending =>
    ({ s with
        pending := some { pending with stagingLen := saturatingAdd pending.stagingLen u.total }
        active := none }, none)

/-! ## The end of a reservation -/

/-- The reservation is taken out, and the job gets its permits back. -/
def Staging.unreserve (s : Staging) (pending : PendingCache) : Staging :=
  { s with pending := none, jobQuota := s.jobQuota.map (· + pending.stagingLen) }

/-- `cache_commit` from the lock on, with the error of the store if it has one: the entry's
archive is the staging file. -/
def commitStaged (caller : CacheCaller) (size : Option Nat) (store : Option StagingError)
    (s : Staging) : Option (Staging × Except StagingError (List UInt8)) :=
  match s.lookup caller with
  | .error e => some (s, .error e)
  | .ok pending =>
    let rest := { s.unreserve pending with file := none }
    if s.invalidated then
      some (rest, .error (.api (.badRequest "cache upload reservation was interrupted".toList)))
    else if size.any (· ≠ pending.stagingLen) then
      some (rest, .error (.api (.badRequest ("cache size mismatch: expected ".toList ++
        Nat.toDigits 10 (size.getD 0) ++ ", got ".toList ++ Nat.toDigits 10 pending.stagingLen))))
    else
      match store, s.file with
      | some e, _ => some (rest, .error e)
      | none, some f => some (rest, .ok f.disk)
      -- the store does not commit a file that does not exist
      | none, none => none

/-- `sweep_pending_uploads` on the reservation, and the removal of its file. -/
def sweepStaged (s : Staging) : Option Staging :=
  s.pending.map fun pending => { s.unreserve pending with file := none }

/-! ## The machine -/

/-- What happens to the upload under way: a frame arrives and is written, or the write reports
a failure; the body fails or ends, and the flush reports a failure or not; the call is
dropped. Of a frame that is not written whole some bytes may have been handed to the file. -/
inductive UploadEvent
  | frame (data : List UInt8) (ending : RollbackEnd)
  | written
  | writeReported (handed : Nat) (message : Text) (ending : RollbackEnd)
  | bodyFails (message : Text) (ending : RollbackEnd)
  | bodyEnds (ending : RollbackEnd)
  | flushReported (message : Text) (ending : RollbackEnd)
  | cancelled (handed : Nat)
deriving DecidableEq, Repr

/-- What happens to a reservation. The bytes of a commit may be given, and the store may fail. -/
inductive StagingEvent
  | upload (caller : CacheCaller) (opening : Opening)
  | during (e : UploadEvent)
  | settles (bytes : Nat)
  | writeFails (bytes : Nat)
  | truncates (opened : Bool)
  | commit (caller : CacheCaller) (size : Option Nat) (store : Option StagingError)
  | sweep
  | otherTakes (bytes : Nat)
  | otherReturns (bytes : Nat)
deriving DecidableEq, Repr

/-- What callers are told: how the upload of a body ends, and the archive of a commit. -/
inductive StagingNote
  | uploaded (body : List UInt8) (result : Option StagingError)
  | committed (result : Except StagingError (List UInt8))
deriving Repr

/-- The upload under way, step by step. -/
def uploadAdvance (u : CacheUpload) (e : UploadEvent) (s : Staging) :
    Option (Staging × List StagingNote) :=
  let refuse := fun (result : Staging × StagingError) =>
    some (result.1, [StagingNote.uploaded u.handed (some result.2)])
  match e, u.writing with
  | .frame data ending, none =>
    match takeFrame u data ending s with
    | (s, some e) => refuse (s, e)
    | (s, none) => some (s, [])
  | .written, some frame => if s.reportsFailure then none else some (frameWritten u frame s, [])
  | .writeReported handed message ending, some frame =>
    refuse (rollback u (.internal ("cache staging write: ".toList ++ message)) ending
      { s with file := s.file.map (·.write (frame.take handed)) })
  | .bodyFails message ending, none =>
    refuse (rollback u (.internal ("cache upload body: ".toList ++ message)) ending s)
  | .bodyEnds ending, none =>
    if s.reportsFailure then none
    else
      match endUpload u ending { s with file := s.file.map BufferedFile.flush } with
      | (s, result) => some (s, [.uploaded u.handed result])
  | .flushReported message ending, none =>
    refuse (rollback u (.internal ("cache staging flush: ".toList ++ message)) ending s)
  | .cancelled handed, writing =>
    some ({ s.dropUpload u with file := s.file.map (·.write ((writing.getD []).take handed)) }, [])
  | _, _ => none

def stagingAdvance (e : StagingEvent) (s : Staging) : Option (Staging × List StagingNote) :=
  match e with
  | .upload caller opening =>
    if s.active.isSome then none
    else
      match beginUpload caller opening s with
      | (s, some e) => some (s, [.uploaded [] (some e)])
      | (s, none) => some (s, [])
  | .during e => s.active.bind fun u => uploadAdvance u e s
  | .settles bytes => s.file.map fun f => ({ s with file := some (f.settle bytes) }, [])
  | .writeFails bytes =>
    s.file.bind fun f =>
      if f.unwritten = [] then none else some ({ s with file := some (f.fail bytes) }, [])
  | .truncates opened =>
    match s.truncations with
    -- the task of an upload that was dropped: it truncates a file that it may not get to open
    | length :: rest =>
      let file := if opened then
          s.file.map fun f => { f with disk := BufferedFile.resize 0 length f.disk }
        else s.file
      some ({ s with file := file, truncations := rest }, [])
    | [] => none
  | .commit caller size store =>
    if s.active.isSome then none
    else (commitStaged caller size store s).map fun result => (result.1, [.committed result.2])
  | .sweep => if s.active.isSome then none else (sweepStaged s).map fun s => (s, [])
  | .otherTakes bytes =>
    -- the other uploads of the job draw on the same budget
    s.jobQuota.bind fun quota =>
      if quota < bytes then none
      else some ({ s with jobQuota := some (quota - bytes), jobOthers := s.jobOthers + bytes }, [])
  | .otherReturns bytes =>
    if s.jobOthers < bytes then none
    else some ({ s with
      jobQuota := s.jobQuota.map (· + bytes), jobOthers := s.jobOthers - bytes }, [])

/-- A reservation as a machine. -/
def staging : Machine Staging StagingEvent StagingNote := ⟨stagingAdvance⟩

/-- The bodies that were accepted, in the order of the answers. -/
def acceptedBodies (past : List StagingNote) : List (List UInt8) :=
  past.filterMap fun n =>
    match n with
    | .uploaded body none => some body
    | _ => none

end Preloop

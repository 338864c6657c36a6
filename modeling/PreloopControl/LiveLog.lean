import PreloopControl.Lib.SortedMap

/-!
# Live Log Segments

`live_log_segments.rs`, for one live log: accepted bytes wait in memory until a flush
publishes them as the next segment file. A publication writes a temporary file, links
it under the segment's name, syncs the directory, and then prunes old segments. The
mutex of the key serializes all calls on a log.

Every filesystem step may fail; which ones do is an argument of the call. A step that
fails has no effect. What a restart leaves is the segment files.

A sequence number is a natural number: a log would need 2⁶⁴ segments for its counter to
wrap.

## Main definitions

* `Faults`: The steps of a publication that fail.
* `LiveLog`: The segment files of a log and its state in memory.
* `publish`, `LiveLog.flush`, `LiveLog.append`: The operations.
* `LogCall.exec`: The calls on a log, with what they accept and reply.
-/

namespace Preloop

/-- Some bytes of a log. -/
abbrev LogBytes := List UInt8

/-- `MAX_LIVE_LOG_BYTES_PER_KEY`. -/
def maxLiveLogBytesPerKey : Nat := 16 * 1024 * 1024

/-- `FLUSH_BYTES_THRESHOLD`. -/
def flushBytesThreshold : Nat := 1024 * 1024

/-- `FLUSH_STALE_INTERVAL`, in milliseconds. -/
def flushStaleInterval : Nat := 5000

/-! ## Files -/

/-- The steps of a publication that fail: the listing for the next number, creating the
    directory, writing and syncing the temporary file, the hard link, reading what is
    under the name, syncing the directory, the listing for the prune, and removing a
    segment. -/
structure Faults where
  number : Bool
  create : Bool
  write : Bool
  link : Bool
  reread : Bool
  sync : Bool
  list : Bool
  remove : Nat → Bool

/-- The filesystem works. -/
def Faults.none : Faults := ⟨false, false, false, false, false, false, false, fun _ => false⟩

/-- How an operation ends. A publication that failed may have linked its segment before
    it did; the caller sees an error in either case. -/
inductive IoResult
  | ok
  | failed (linked : Bool)
deriving DecidableEq, Repr

/-- The segment files by number, with their contents. -/
abbrev Segments := SortedMap Nat LogBytes

/-- The prune loop, `total` bytes being left: the segments that stay. -/
def pruneLoop (fails : Nat → Bool) : Nat → List (Nat × LogBytes) → List (Nat × LogBytes)
  | _, [] => []
  | total, e :: es =>
    if total ≤ maxLiveLogBytesPerKey then e :: es
    -- A failed removal is only logged, and the loop goes on.
    else if fails e.1 then e :: pruneLoop fails total es
    else pruneLoop fails (total - e.2.length) es

theorem pruneLoop_sublist (fails : Nat → Bool) (es : List (Nat × LogBytes)) :
    ∀ total, (pruneLoop fails total es).Sublist es := by
  induction es with
  | nil => exact fun total => List.Sublist.refl []
  | cons e es ih =>
      intro total
      unfold pruneLoop
      split
      · exact List.Sublist.refl _
      · split
        · exact (ih total).cons_cons e
        · exact (ih _).cons e

/-- The prune at the end of `publish`. -/
def prune (fails : Nat → Bool) (dir : Segments) : Segments :=
  ⟨pruneLoop fails (dir.entries.map fun e => e.2.length).sum dir.entries,
    dir.sorted.sublist (pruneLoop_sublist fails dir.entries _)⟩

/-- `publish`, from the link on. -/
def linkSegment (f : Faults) (seq : Nat) (bytes : LogBytes) (dir : Segments) :
    IoResult × Segments :=
  if f.link then (.failed false, dir)
  else
    match dir.lookup seq with
    | some existing =>
      -- `AlreadyExists` is fine if it is this segment that exists.
      if f.reread then (.failed false, dir)
      else if existing ≠ bytes then (.failed false, dir)
      else if f.sync || f.list then (.failed true, dir)
      else (.ok, prune f.remove dir)
    | none =>
      if f.sync || f.list then (.failed true, dir.insert seq bytes)
      else (.ok, prune f.remove (dir.insert seq bytes))

/-- `publish`. -/
def publish (f : Faults) (seq : Nat) (bytes : LogBytes) (dir : Segments) : IoResult × Segments :=
  if f.create || f.write then (.failed false, dir) else linkSegment f seq bytes dir

/-! ## Logs -/

/-- `KeyState`. -/
structure KeyState where
  pending : LogBytes
  nextSeq : Option Nat
  lastWrite : Option Nat
deriving DecidableEq, Repr

/-- A new state. -/
def KeyState.default : KeyState := ⟨[], none, none⟩

/-- The segment files of a log and its state in memory. -/
structure LiveLog where
  segments : Segments
  state : KeyState

namespace LiveLog

/-- A log nobody wrote to. -/
def new : LiveLog := ⟨∅, .default⟩

/-- The number after the last segment. -/
def numberAfter (dir : Segments) : Nat :=
  match dir.entries.getLast? with
  | some e => e.1 + 1
  | none => 0

/-- The number of the next segment. -/
def nextNumber (log : LiveLog) : Nat := log.state.nextSeq.getD (numberAfter log.segments)

/-- `flush`. -/
def flush (f : Faults) (log : LiveLog) : IoResult × LiveLog :=
  if log.state.pending.isEmpty then (.ok, log)
  else if log.state.nextSeq.isNone && f.number then (.failed false, log)
  else
    let seq := log.nextNumber
    match publish f seq log.state.pending log.segments with
    | (.failed linked, dir) => (.failed linked, { log with segments := dir })
    | (.ok, dir) =>
      (.ok, ⟨dir, { log.state with pending := [], nextSeq := some (seq + 1) }⟩)

/-- A chunk is accepted. -/
def accept (now : Nat) (chunk : LogBytes) (log : LiveLog) : LiveLog :=
  { log with
    state := { log.state with pending := log.state.pending ++ chunk, lastWrite := some now } }

/-- The loop of `append` with the chunks it accepted; the faults are those of its
    flushes in turn. -/
def appendChunks (now : Nat) : List LogBytes → (Nat → Faults) → LiveLog →
    IoResult × List LogBytes × LiveLog
  | [], _, log => (.ok, [], log)
  | chunk :: chunks, faults, log =>
    let accepted := log.accept now chunk
    if flushBytesThreshold ≤ accepted.state.pending.length then
      match accepted.flush (faults 0) with
      | (.failed linked, log) => (.failed linked, [chunk], log)
      | (.ok, log) =>
        let rest := appendChunks now chunks (fun n => faults (n + 1)) log
        (rest.1, chunk :: rest.2.1, rest.2.2)
    else
      let rest := appendChunks now chunks faults accepted
      (rest.1, chunk :: rest.2.1, rest.2.2)

end LiveLog

/-- The chunks of some bytes, `fuel` of them at most. -/
def chunksFrom (n : Nat) : Nat → LogBytes → List LogBytes
  | 0, _ => []
  | _ + 1, [] => []
  | fuel + 1, b :: bytes => (b :: bytes).take n :: chunksFrom n fuel ((b :: bytes).drop n)

/-- `chunks`. -/
def chunks (n : Nat) (bytes : LogBytes) : List LogBytes := chunksFrom n bytes.length bytes

namespace LiveLog

/-- `append`. -/
def append (now : Nat) (faults : Nat → Faults) (bytes : LogBytes) (log : LiveLog) :
    IoResult × List LogBytes × LiveLog :=
  log.appendChunks now (chunks flushBytesThreshold bytes) faults

/-- `flush_stale`. -/
def flushStale (now : Nat) (f : Faults) (log : LiveLog) : IoResult × LiveLog :=
  if log.state.lastWrite.any fun at_ => flushStaleInterval ≤ now - at_ then log.flush f
  else (.ok, log)

/-- `read_segments`. -/
def readSegments (log : LiveLog) : LogBytes := (log.segments.entries.map Prod.snd).flatten

/-- A restart of the process. -/
def restart (log : LiveLog) : LiveLog := { log with state := .default }

/-- Another key needs the slot: a state without pending bytes is dropped. -/
def evict (log : LiveLog) : LiveLog :=
  if log.state.pending.isEmpty then log.restart else log

end LiveLog

/-! ## Calls -/

/-- A call on a log, or what happens to it between calls. `unreadable` says that the
    read after the flush fails. -/
inductive LogCall
  | append (now : Nat) (faults : Nat → Faults) (bytes : LogBytes)
  | flush (faults : Faults)
  | flushStale (now : Nat) (faults : Faults)
  | read (faults : Faults) (unreadable : Bool)
  | restart
  | evict

/-- What happened to the bytes of a log: a chunk was accepted, or the process restarted
    while some bytes were pending. -/
inductive LogEvent
  | accepted (chunk : LogBytes)
  | restarted (pending : LogBytes)
deriving DecidableEq, Repr

/-- What a call comes to: how it ended, the events, latest first, the bytes it read and
    the log. -/
structure LogOutcome where
  result : IoResult
  events : List LogEvent
  bytes : Option LogBytes
  log : LiveLog

/-- `read_all`: the flush comes first. -/
def LiveLog.readAll (f : Faults) (unreadable : Bool) (log : LiveLog) : LogOutcome :=
  match log.flush f with
  | (.failed linked, log) => ⟨.failed linked, [], none, log⟩
  | (.ok, log) =>
    if unreadable then ⟨.failed false, [], none, log⟩ else ⟨.ok, [], some log.readSegments, log⟩

/-- The call on a log. -/
def LogCall.exec (log : LiveLog) : LogCall → LogOutcome
  | append now faults bytes =>
    let appended := log.append now faults bytes
    ⟨appended.1, (appended.2.1.map LogEvent.accepted).reverse, none, appended.2.2⟩
  | flush f => ⟨(log.flush f).1, [], none, (log.flush f).2⟩
  | flushStale now f => ⟨(log.flushStale now f).1, [], none, (log.flushStale now f).2⟩
  | read f unreadable => log.readAll f unreadable
  | restart => ⟨.ok, [.restarted log.state.pending], none, log.restart⟩
  | evict => ⟨.ok, [], none, log.evict⟩

end Preloop

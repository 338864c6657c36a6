import PreloopControl.Lib.Grouping
import PreloopControl.Lib.Lines
import PreloopControl.Lib.Machine
import PreloopControl.Masking.Scan

/-!
# The Live Console Feed

The queue of console lines of a job (`live_logs.rs`): lines are put in, a drain takes some
out, groups them by step, and sends them batch by batch over a socket. What could not be
sent is put back in front.

A drain gives up its locks between its looks at the socket, the queue and each batch, so
other events may come in between; here these are events of their own. A batch goes out
under the masks of its moment. Whether a send succeeds, after its retries, is part of the
event.

The tail that is sent at shutdown is left out.

## Main definitions

* `ConsoleLine`, `FeedLinesWrapper`: A line in the queue, and what is sent.
* `maskLines`, `maskWrapper`: Masking as a batch is sent.
* `lineBatches`: The lines of a drain, in batches.
* `LiveQueue`: The queue, its socket and the drain.
* `liveMachine`: The queue under all its events.
-/

namespace Preloop

namespace Worker

open Lines Masking

/-! ## Lines -/

/-- `ConsoleLineInfo`. -/
structure ConsoleLine where
  stepId : Text
  line : Text
  lineNumber : Nat
deriving DecidableEq, Repr

/-- `LiveLogFeedLinesWrapper`. -/
structure FeedLinesWrapper where
  stepId : Text
  startLine : Nat
  count : Nat
  value : List Text
deriving DecidableEq, Repr

/-- `QUEUE_DROP_THRESHOLD`. -/
def queueDropThreshold : Nat := 1024

/-- `LINE_TRUNCATE_CHARS`. -/
def lineTruncateChars : Nat := 1024

/-- `LINES_PER_BATCH`. -/
def linesPerBatch : Nat := 100

/-- `truncate_line`. -/
def truncateLine (line : Text) : Text := line.take lineTruncateChars

/-- `line_batches`. -/
def lineBatches (lines : List ConsoleLine) : List (List ConsoleLine) :=
  (Grouping.group ConsoleLine.stepId lines).entries.flatMap fun e =>
    (Grouping.chunks linesPerBatch e.2).filter fun chunk => !chunk.isEmpty

/-- `wrapper_from_lines`; there is none for an empty batch, where the index is out of range. -/
def wrapperFromLines : List ConsoleLine → Option FeedLinesWrapper
  | [] => none
  | first :: rest => some
      ⟨first.stepId, first.lineNumber, (first :: rest).length, (first :: rest).map ConsoleLine.line⟩

/-! ## Masking -/

/-- The masks of a job, as they are when a batch is sent. -/
structure LiveMasks where
  values : List Text
  patterns : List (Text → List Span)

section Masks

variable (transforms : Transforms)

/-- `mask_lines`. -/
def maskLines (masks : LiveMasks) (lines : List Text) : List Text :=
  if joinFeed lines = [] then []
  else splitFeed
    (maskSecretsInner (joinFeed lines) masks.values masks.patterns [] true (some transforms))

/-- `mask_wrapper`. -/
def maskWrapper (masks : LiveMasks) (wrapper : FeedLinesWrapper) : FeedLinesWrapper :=
  { wrapper with value := maskLines transforms masks wrapper.value }

end Masks

/-! ## The queue -/

/-- `WebSocketSender`, its counters. -/
structure FeedSocket where
  failedBatches : Nat
  totalBatches : Nat
deriving DecidableEq, Repr

/-- `should_disable`. -/
def FeedSocket.shouldDisable (socket : FeedSocket) : Bool :=
  5 < socket.totalBatches && socket.totalBatches < socket.failedBatches * 2

/-- Where the drain stands: between two drains, behind its look at the socket, or with
    batches in hand. -/
inductive DrainPhase
  | idle
  | looked
  | sending (batches : List (List ConsoleLine))
deriving DecidableEq, Repr

/-- `LiveLogQueue`, and its drain. -/
structure LiveQueue where
  lines : List ConsoleLine
  ws : Option FeedSocket
  phase : DrainPhase
deriving DecidableEq, Repr

namespace LiveQueue

/-- A queue that is not connected yet. -/
def init : LiveQueue := ⟨[], none, .idle⟩

/-- The lines the drain has in hand. -/
def taken (q : LiveQueue) : List ConsoleLine :=
  match q.phase with
  | .idle | .looked => []
  | .sending batches => batches.flatten

/-- `requeue_front`, and the end of the drain. -/
def requeueFront (q : LiveQueue) (batches : List (List ConsoleLine)) : LiveQueue :=
  { q with
    lines := batches.foldr (fun batch lines => batch.foldr List.cons lines) q.lines
    phase := .idle }

end LiveQueue

/-! ## Events -/

/-- What happens next. -/
inductive QueueEvent
  /-- `enqueue`. -/
  | enqueue (stepId line : Text) (lineNumber : Nat)
  /-- The background task has connected. -/
  | connect
  /-- The socket is gone. -/
  | lose
  /-- The look of `drain_once` at the socket. -/
  | look
  /-- `dequeue`, with the limit of the drain. -/
  | dequeue (limit : Nat)
  /-- One round of `send_grouped`: under these masks, or in vain. -/
  | send (masks : Option LiveMasks)

/-- What is seen: a line was accepted, or a batch was transmitted in a wrapper. -/
inductive QueueNote
  | accepted (line : ConsoleLine)
  | transmitted (batch : List ConsoleLine) (wrapper : FeedLinesWrapper)
deriving DecidableEq, Repr

section Machine

variable (transforms : Transforms)

/-- A round of `send_grouped` with a batch in hand, on a socket. -/
def sendBatch (q : LiveQueue) (socket : FeedSocket) (batch : List ConsoleLine)
    (batches : List (List ConsoleLine)) (wrapper : FeedLinesWrapper) :
    Option LiveMasks → LiveQueue × List QueueNote
  | some masks =>
    ({ q with
        ws := some { socket with totalBatches := socket.totalBatches + 1 }
        phase := .sending batches },
      [.transmitted batch (maskWrapper transforms masks wrapper)])
  | none =>
    let socket : FeedSocket := ⟨socket.failedBatches + 1, socket.totalBatches + 1⟩
    ({ q with ws := if socket.shouldDisable then none else some socket }.requeueFront
      (batch :: batches), [])

/-- What an event makes of the queue. -/
def liveAdvance (q : LiveQueue) : QueueEvent → Option (LiveQueue × List QueueNote)
  | .enqueue stepId line lineNumber =>
    if queueDropThreshold < q.lines.length then some (q, [])
    else
      let entry : ConsoleLine := ⟨stepId, truncateLine line, lineNumber⟩
      some ({ q with lines := q.lines ++ [entry] }, [.accepted entry])
  | .connect => some ({ q with ws := some ⟨0, 0⟩ }, [])
  | .lose => some ({ q with ws := none }, [])
  | .look =>
    match q.phase with
    | .idle => some (if q.ws.isNone then q else { q with phase := .looked }, [])
    | _ => none
  | .dequeue limit =>
    match q.phase with
    | .looked => some ({ q with
        lines := q.lines.drop limit
        phase := .sending (lineBatches (q.lines.take limit)) }, [])
    | _ => none
  | .send masks =>
    match q.phase with
    | .sending [] => some ({ q with phase := .idle }, [])
    | .sending (batch :: batches) =>
      match q.ws with
      | none => some (q.requeueFront (batch :: batches), [])
      | some socket => (wrapperFromLines batch).map fun wrapper =>
          sendBatch transforms q socket batch batches wrapper masks
    | _ => none

/-- The queue under all its events. -/
def liveMachine : Machine LiveQueue QueueEvent QueueNote := ⟨fun e q => liveAdvance transforms q e⟩

end Machine

end Worker

end Preloop

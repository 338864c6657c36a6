import PreloopControl.Lib.Eviction
import PreloopControl.Lib.Text

/-!
# Caps on Timelines

What the runner server keeps of the timelines that authenticated runners patch. A timeline
keeps so many records and so many bytes of them, a run so many events, and there are only
so many timelines and runs with events. What is above a cap is taken out, the oldest first
by a queue of the keys in the order of their first use; a restart loses the queues and keeps
the maps.

The timeline that was just patched and the run that was just written to are not to be taken
out, and neither are the records of the patch as long as there are others.

## Main definitions

* `InnerState`: The timelines, their change counters, the events, and the two queues.
* `trimTimelineAfterPatch`: After a patch of one timeline.
* `trimTimelineEvents`: After events of one run.
-/

namespace Preloop

namespace MemoryCaps

/-- Records a timeline keeps. -/
def maxTimelineRecords : Nat := 1024

/-- Bytes of records a timeline keeps. -/
def maxTimelineBytesPerTimeline : Nat := 8 * 1024 * 1024

/-- Events a run keeps. -/
def maxTimelineEvents : Nat := 2048

/-- Timelines. -/
def maxTimelineKeys : Nat := 4096

/-- Runs with events. -/
def maxTimelineEventKeys : Nat := 4096

/-- The texts of a record that are counted. -/
structure TimelineRecord where
  name : Option Text
  displayName : Option Text
  currentOperation : Option Text

/-- The bytes a record is taken for. -/
def TimelineRecord.bytes (r : TimelineRecord) : Nat :=
  (r.name.map Text.utf8Len).getD 0 + (r.displayName.map Text.utf8Len).getD 0 +
    (r.currentOperation.map Text.utf8Len).getD 0 + 256

variable {Uuid RunId Event : Type} [LinearOrder Uuid] [LinearOrder RunId]

/-- What is kept of timelines and events. -/
structure InnerState (Uuid RunId Event : Type) [LinearOrder Uuid] [LinearOrder RunId] where
  timelineEvents : SortedMap RunId (List Event)
  timelineChangeIds : SortedMap Text Int
  timelineRecords : SortedMap Text (SortedMap Uuid TimelineRecord)
  timelineRecordsOrder : List Text
  timelineEventsOrder : List RunId

/-- There are too many records. -/
def tooMany (records : SortedMap Uuid TimelineRecord) : Bool :=
  decide (maxTimelineRecords < records.entries.length)

/-- The records have too many bytes, and there is another one to take. -/
def tooLong (records : SortedMap Uuid TimelineRecord) : Bool :=
  !(decide (records.sum (fun _ r => r.bytes) ≤ maxTimelineBytesPerTimeline) ||
    decide (records.entries.length ≤ 1))

/-- The records of the patched timeline within its caps. -/
def trimRecords (fuel : Nat) (isProtected : List Uuid) (records : SortedMap Uuid TimelineRecord) :
    Option (SortedMap Uuid TimelineRecord) := do
  let records ← Eviction.shrink tooMany isProtected.contains fuel records
  Eviction.shrink tooLong isProtected.contains fuel records

/-- The key is queued behind the others, unless it is queued. -/
def enqueued {K : Type} [BEq K] (k : K) (order : List K) : List K :=
  if order.contains k then order else order ++ [k]

/-- The patched timeline has a change counter. -/
def hasCounter (timelineKey : Text) (changeIds : SortedMap Text Int) : Bool :=
  (changeIds.lookup timelineKey).isSome

/-- The timelines, the patched one within its caps. -/
def trimPatched (fuel : Nat) (timelineKey : Text) (isProtected : List Uuid)
    (inner : InnerState Uuid RunId Event) :
    Option (SortedMap Text (SortedMap Uuid TimelineRecord)) :=
  match inner.timelineRecords.lookup timelineKey with
  | none => some inner.timelineRecords
  | some records =>
    (trimRecords fuel isProtected records).map (inner.timelineRecords.insert timelineKey)

/-- The timelines within their caps after a patch of one. -/
def trimTimelineAfterPatch (fuel : Nat) (timelineKey : Text) (isProtected : List Uuid)
    (inner : InnerState Uuid RunId Event) : Option (InnerState Uuid RunId Event) := do
  let records ← trimPatched fuel timelineKey isProtected inner
  let kept ← Eviction.loop (hasCounter timelineKey) timelineKey maxTimelineKeys fuel
    ⟨records, inner.timelineChangeIds, enqueued timelineKey inner.timelineRecordsOrder⟩
  some { inner with
    timelineRecords := kept.items
    -- counters without a timeline go
    timelineChangeIds := kept.companions.filter fun k _ => (kept.items.lookup k).isSome
    timelineRecordsOrder := kept.order }

/-- The events, those of one run within their cap. -/
def drained (runId : RunId) (inner : InnerState Uuid RunId Event) : SortedMap RunId (List Event) :=
  match inner.timelineEvents.lookup runId with
  | none => inner.timelineEvents
  | some events =>
    inner.timelineEvents.insert runId (events.drop (events.length - maxTimelineEvents))

/-- The events within their caps after events of one run. -/
def trimTimelineEvents (fuel : Nat) (runId : RunId) (inner : InnerState Uuid RunId Event) :
    Option (InnerState Uuid RunId Event) := do
  let order :=
    if (inner.timelineEvents.lookup runId).isSome then enqueued runId inner.timelineEventsOrder
    else inner.timelineEventsOrder
  -- events have no counters beside them
  let kept ← Eviction.loop (fun _ : SortedMap RunId Unit => true) runId maxTimelineEventKeys fuel
    ⟨drained runId inner, ∅, order⟩
  some { inner with
    timelineEvents := kept.items
    timelineEventsOrder := kept.order }

end MemoryCaps

end Preloop

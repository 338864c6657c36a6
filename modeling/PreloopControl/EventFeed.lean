import PreloopControl.Lib.Machine

/-!
# Live Events across Nodes

The consumer of `event_feed.rs` on every node, the reads of `control/pg/outbox.rs` it is
fed by, and the transactions that write the outbox. A transaction takes its id when it
begins, its rows are seen once it has committed, and a snapshot's `xmin` is the least id of
a transaction still open. Times are nanoseconds on a clock that does not go back.

A row is kept as far as the consumer looks at it: its position, the run its event names if
its payload is an event, its job, its version and the node that wrote it. Pruning of old
rows is left out.

## Main definitions

* `OutboxRow`, `OutboxTxn`: Rows and the transactions that write them.
* `VersionFilter`: The newest version delivered for a run or job.
* `FeedConsumer`: The consumer of a node.
* `feedMachine`: The nodes, their transactions, their reads and their broadcasts.

## Theorems

* `xmin_le`: The safe point is no greater than any open transaction.
* `mem_outboxRead`: The rows of a read.
-/

namespace Preloop

variable {N R J : Type}

/-! ## Rows -/

/-- `OutboxBookmark`: a transaction id and an event id. -/
abbrev OutboxBookmark := Nat ×ₗ Nat

/-- A run, or a job of it. -/
abbrev EventKey (R J : Type) := R × Option J

/-- `OutboxRow`, its payload read as an event of some run if it is one. -/
structure OutboxRow (N R J : Type) where
  bookmark : OutboxBookmark
  eventRun : Option R
  jobId : Option J
  version : Option Int
  origin : N
deriving DecidableEq

namespace OutboxRow

/-- The id of the transaction that wrote the row. -/
def txid (row : OutboxRow N R J) : Nat := (ofLex row.bookmark).1

/-- `event_id`. -/
def eventId (row : OutboxRow N R J) : Nat := (ofLex row.bookmark).2

/-- What the row reports a version of. -/
def state (row : OutboxRow N R J) : Option (EventKey R J × Int) :=
  row.eventRun.bind fun run => row.version.map fun version => ((run, row.jobId), version)

end OutboxRow

/-- A transaction that has not finished, with the rows it has inserted. -/
structure OutboxTxn (N R J : Type) where
  txid : Nat
  node : N
  rows : List (OutboxRow N R J)

/-! ## The version filter -/

/-- `SEEN_TTL`. -/
def seenTtl : Nat := 120 * 10 ^ 9

/-- How often the filter is swept at most. -/
def sweepEvery : Nat := 30 * 10 ^ 9

/-- `VersionFilter`. -/
structure VersionFilter (R J : Type) where
  seen : EventKey R J → Option (Int × Nat)
  lastSweep : Option Nat

namespace VersionFilter

/-- `VersionFilter::default`. -/
def empty : VersionFilter R J := ⟨fun _ => none, none⟩

/-- `VersionFilter::sweep`. -/
def sweep (now : Nat) (f : VersionFilter R J) : VersionFilter R J :=
  if f.lastSweep.any fun at_ => now - at_ < sweepEvery then f
  else ⟨fun key => (f.seen key).filter fun e => now - e.2 < seenTtl, some now⟩

variable [DecidableEq R] [DecidableEq J]

/-- `VersionFilter::admit`. -/
def admitVersion (now : Nat) (key : EventKey R J) (version : Option Int) (f : VersionFilter R J) :
    Bool × VersionFilter R J :=
  let f := f.sweep now
  match version with
  | none => (true, f)
  | some version =>
      if (f.seen key).any fun e => version ≤ e.1 then (false, f)
      else (true, { f with seen := Function.update f.seen key (some (version, now)) })

end VersionFilter

/-- `admit`: the event a row delivers, and the filter after it. -/
def admitRow [DecidableEq N] [DecidableEq R] [DecidableEq J] (origin : N) (now : Nat)
    (row : OutboxRow N R J) (f : VersionFilter R J) : Option R × VersionFilter R J :=
  if row.origin = origin then (none, f)
  else
    match row.eventRun with
    | none => (none, f)
    | some run =>
        let (passes, f) := f.admitVersion now (run, row.jobId) row.version
        (if passes then some run else none, f)

/-! ## Nodes -/

/-- `READ_BATCH`. -/
def readBatch : Nat := 500

/-- The consumer of a node: its bookmark once it has read the head, its filter, the rows of
    the batch it is in, and the safe point of that read if the batch was a short one. -/
structure FeedConsumer (N R J : Type) where
  bookmark : Option OutboxBookmark
  filter : VersionFilter R J
  batch : List (OutboxRow N R J)
  upTo : Option Nat

/-- The consumer before it has read the head. -/
def FeedConsumer.start : FeedConsumer N R J := ⟨none, .empty, [], none⟩

/-- The outbox with its transactions, and the consumers of all nodes. -/
structure FeedState (N R J : Type) where
  nextTxid : Nat
  nextEvent : Nat
  open_ : List (OutboxTxn N R J)
  rows : List (OutboxRow N R J)
  nodes : N → FeedConsumer N R J
  now : Nat

namespace FeedState

/-- An outbox without rows. -/
def init : FeedState N R J := ⟨1, 1, [], [], fun _ => .start, 0⟩

/-- `pg_snapshot_xmin(pg_current_snapshot())`. -/
def xmin (s : FeedState N R J) : Nat := s.open_.foldr (fun t least => min t.txid least) s.nextTxid

/-- `outbox_head`. -/
def outboxHead (s : FeedState N R J) : OutboxBookmark := toLex (s.xmin, 0)

/-- The committed rows after a bookmark and below the safe point, in their order. -/
def readable (s : FeedState N R J) (after : OutboxBookmark) : List (OutboxRow N R J) :=
  (s.rows.filter fun row => after < row.bookmark && row.txid < s.xmin).insertionSort
    fun a b => a.bookmark ≤ b.bookmark

/-- `outbox_read`. -/
def outboxRead (s : FeedState N R J) (after : OutboxBookmark) : List (OutboxRow N R J) :=
  (s.readable after).take readBatch

/-- A committed row reports a newer version of what this one reports. -/
def newerThan [DecidableEq R] [DecidableEq J] (s : FeedState N R J)
    (row : OutboxRow N R J) : Bool :=
  s.rows.any fun other => row.state.any fun state =>
    other.state.any fun newer => newer.1 = state.1 && state.2 < newer.2

end FeedState

/-- What happens next. -/
inductive FeedAct (N R J : Type)
  | begin (node : N)
  | insert (txid : Nat) (eventRun : Option R) (jobId : Option J) (version : Option Int)
  | commit (txid : Nat)
  | rollback (txid : Nat)
  | readHead (node : N)
  | read (node : N)
  | readFailed (node : N)
  | consume (node : N)
  | broadcast (node : N) (row : OutboxRow N R J)

/-- What is seen: a consumer has read the head, a row was committed, a row was passed to the
    filter of a node, a node has consumed all rows below a safe point, and a client of a node
    received a state, from a row or from the node itself. -/
inductive FeedNote (N R J : Type)
  | started (node : N)
  | committed (row : OutboxRow N R J)
  | passed (node : N) (row : OutboxRow N R J)
  | caughtUp (node : N) (xmin : Nat)
  | received (node : N) (key : EventKey R J) (version : Int) (fromRow : Bool)

/-- The note of a state its clients receive from a row or broadcast. -/
def receivedNotes (node : N) (row : OutboxRow N R J) (fromRow : Bool) : List (FeedNote N R J) :=
  (row.state.map fun state => .received node state.1 state.2 fromRow).toList

/-- The end of a batch: the rows below the safe point of a short one are consumed. -/
def FeedConsumer.finishBatch (node : N) (c : FeedConsumer N R J) :
    FeedConsumer N R J × List (FeedNote N R J) :=
  if c.batch.isEmpty then ({ c with upTo := none }, (c.upTo.map (.caughtUp node)).toList)
  else (c, [])

variable [DecidableEq N] [DecidableEq R] [DecidableEq J]

/-- The consumer of a node takes its next step. -/
def FeedState.setNode (s : FeedState N R J) (node : N) (c : FeedConsumer N R J) :
    FeedState N R J :=
  { s with nodes := Function.update s.nodes node c }

omit [DecidableEq R] [DecidableEq J] in
theorem FeedState.nodes_setNode_self (s : FeedState N R J) (node : N) (c : FeedConsumer N R J) :
    (s.setNode node c).nodes node = c := Function.update_self ..

omit [DecidableEq R] [DecidableEq J] in
theorem FeedState.nodes_setNode_of_ne (s : FeedState N R J) {node other : N} (h : other ≠ node)
    (c : FeedConsumer N R J) : (s.setNode node c).nodes other = s.nodes other :=
  Function.update_of_ne h ..

/-- One step. A transaction commits only what is no older than what was committed before it,
    and a node broadcasts what one of its own transactions has committed. -/
def FeedState.act (s : FeedState N R J) :
    FeedAct N R J → Option (FeedState N R J × List (FeedNote N R J))
  | .begin node => some ({ s with
      nextTxid := s.nextTxid + 1
      open_ := ⟨s.nextTxid, node, []⟩ :: s.open_ }, [])
  -- a row gets the number of its transaction and that of the event
  | .insert txid eventRun jobId version =>
      match s.open_.find? fun t => t.txid = txid with
      | none => none
      | some t =>
          let row := ⟨toLex (txid, s.nextEvent), eventRun, jobId, version, t.node⟩
          some ({ s with
            nextEvent := s.nextEvent + 1
            open_ := ⟨txid, t.node, t.rows ++ [row]⟩ :: s.open_.filter fun t => t.txid ≠ txid }, [])
  | .commit txid =>
      match s.open_.find? fun t => t.txid = txid with
      | none => none
      | some t =>
          -- a state that is older than a committed one is not written
          if t.rows.any s.newerThan then none
          else some ({ s with
            open_ := s.open_.filter fun t => t.txid ≠ txid
            rows := s.rows ++ t.rows }, t.rows.map .committed)
  | .rollback txid => some ({ s with open_ := s.open_.filter fun t => t.txid ≠ txid }, [])
  | .readHead node =>
      match (s.nodes node).bookmark with
      | some _ => none
      | none =>
          some (s.setNode node { s.nodes node with bookmark := some s.outboxHead }, [.started node])
  -- the next batch is read only when the last one is consumed
  | .read node =>
      let c := s.nodes node
      match c.bookmark, c.batch with
      | some bookmark, [] =>
          let rows := s.outboxRead bookmark
          let (c, notes) := { c with
            batch := rows
            upTo := if rows.length < readBatch then some s.xmin else none }.finishBatch node
          some (s.setNode node c, notes)
      | _, _ => none
  | .readFailed _ => some (s, [])
  | .consume node =>
      let c := s.nodes node
      match c.batch with
      | [] => none
      | row :: rows =>
          let (event, filter) := admitRow node s.now row c.filter
          let received := if event.isSome then receivedNotes node row true else []
          let (c, notes) := { c with
            bookmark := some row.bookmark
            filter := filter
            batch := rows }.finishBatch node
          some (s.setNode node c, .passed node row :: (received ++ notes))
  -- a broadcast goes to the clients of the node directly, round the filter
  | .broadcast node row =>
      if row.origin = node ∧ row ∈ s.rows then some (s, receivedNotes node row false) else none

/-- The nodes with a clock that does not go back. -/
def feedMachine (N R J : Type) [DecidableEq N] [DecidableEq R] [DecidableEq J] :
    Machine (FeedState N R J) (Nat × FeedAct N R J) (FeedNote N R J) where
  advance e s := if e.1 < s.now then none else { s with now := e.1 }.act e.2

/-! ## The safe point -/

namespace FeedState

omit [DecidableEq N] [DecidableEq R] [DecidableEq J]

variable {s : FeedState N R J}

theorem xmin_le {t : OutboxTxn N R J} (h : t ∈ s.open_) : s.xmin ≤ t.txid := by
  unfold xmin
  generalize s.open_ = open_ at h
  induction open_ with
  | nil => cases h
  | cons d open_ ih =>
      rw [List.foldr_cons]
      rcases List.mem_cons.mp h with rfl | h
      · exact min_le_left _ _
      · exact (min_le_right _ _).trans (ih h)

theorem xmin_le_nextTxid : s.xmin ≤ s.nextTxid := by
  unfold xmin
  induction s.open_ with
  | nil => exact le_rfl
  | cons d open_ ih => exact (min_le_right _ _).trans ih

theorem le_xmin {x : Nat} (hopen : ∀ t ∈ s.open_, x ≤ t.txid) (hnext : x ≤ s.nextTxid) :
    x ≤ s.xmin := by
  unfold xmin
  generalize s.open_ = open_ at hopen
  induction open_ with
  | nil => exact hnext
  | cons d open_ ih =>
      rw [List.foldr_cons]
      exact le_min (hopen d List.mem_cons_self) (ih fun t ht => hopen t (List.mem_cons_of_mem d ht))

/-! ## Reads -/

theorem mem_readable {after : OutboxBookmark} {row : OutboxRow N R J} :
    row ∈ s.readable after ↔ row ∈ s.rows ∧ after < row.bookmark ∧ row.txid < s.xmin := by
  rw [readable, List.mem_insertionSort, List.mem_filter, Bool.and_eq_true, decide_eq_true_eq,
    decide_eq_true_eq]

theorem mem_outboxRead {after : OutboxBookmark} {row : OutboxRow N R J}
    (h : row ∈ s.outboxRead after) :
    row ∈ s.rows ∧ after < row.bookmark ∧ row.txid < s.xmin :=
  mem_readable.mp (List.mem_of_mem_take h)

/-- Readable rows stand in the order of their positions. -/
theorem sorted_readable (hnodup : (s.rows.map OutboxRow.bookmark).Nodup) (after : OutboxBookmark) :
    (s.readable after).Pairwise fun a b => a.bookmark < b.bookmark := by
  have hsorted : (s.readable after).Pairwise fun a b => a.bookmark ≤ b.bookmark :=
    List.pairwise_insertionSort _ _
  have hdistinct : (s.readable after).Pairwise fun a b => a.bookmark ≠ b.bookmark := by
    have hperm := (List.perm_insertionSort (fun a b : OutboxRow N R J => a.bookmark ≤ b.bookmark)
      (s.rows.filter fun row => after < row.bookmark && row.txid < s.xmin)).map OutboxRow.bookmark
    have hfilter := hnodup.sublist ((List.filter_sublist (p := fun row : OutboxRow N R J =>
      after < row.bookmark && row.txid < s.xmin)).map OutboxRow.bookmark)
    exact List.pairwise_map.mp ((hperm.nodup_iff).mpr hfilter)
  exact (hsorted.and hdistinct).imp fun h => lt_of_le_of_ne h.1 h.2

/-- A readable row that is not past one of a read is in the read. -/
theorem mem_outboxRead_of_le (hnodup : (s.rows.map OutboxRow.bookmark).Nodup)
    {after : OutboxBookmark} {row last : OutboxRow N R J} (hrow : row ∈ s.readable after)
    (hlast : last ∈ s.outboxRead after) (hle : row.bookmark ≤ last.bookmark) :
    row ∈ s.outboxRead after := by
  have hsorted := sorted_readable hnodup after
  rw [← List.take_append_drop readBatch (s.readable after)] at hrow hsorted
  rcases List.mem_append.mp hrow with hrow | hrow
  · exact hrow
  · exact absurd hle (not_le.mpr ((List.pairwise_append.mp hsorted).2.2 last hlast row hrow))

/-- A short read has all readable rows. -/
theorem mem_outboxRead_of_short {after : OutboxBookmark} {row : OutboxRow N R J}
    (hshort : (s.outboxRead after).length < readBatch) (hrow : row ∈ s.readable after) :
    row ∈ s.outboxRead after := by
  rw [outboxRead, List.length_take] at hshort
  rw [outboxRead, List.take_of_length_le (by omega)]
  exact hrow

end FeedState

end Preloop

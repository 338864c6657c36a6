import PreloopControl.LiveLog

/-!
# Live Logs Lose and Repeat Nothing

The bytes of a log that a restart did not take are cut into segments, in order, and
the files hold all segments but the first few, which a prune took while the rest was
over the bound. A publication that fails after its link
leaves a segment that counts, while its bytes are still pending: the log is
unconfirmed. The next flush finds the segment under its number and is done, provided
that the number is known and nothing was appended since. Without the number it
publishes the bytes again under another one, and with more bytes pending it never gets
past the segment that is there.

A prune that cannot remove a segment goes on with the next one, which leaves a hole.

## Main definitions

* `Survives`: How the accepted bytes that no restart took are cut into segments.
* `LogRun`: The histories of a log.
* `LogCall.Plain`: Nothing is appended to an unconfirmed log, its flush knows the
  number, and no segment is removed after one that could not be.
* `PrunedTo`: The segments that prunes took.
* `LogFaithful`: What reads give, and that a flush succeeds.

## Theorems

* `flush_keeps`: What a flush keeps, however it ends.
* `live_log_faithful`: Every plain history.
-/

namespace Preloop

/-! ## Histories -/

/-- The accepted bytes of a history, in order and less what restarts took, are these
    segments and some bytes that are pending. -/
inductive Survives : List LogEvent → List LogBytes → LogBytes → Prop
  | new : Survives [] [] []
  | accepted {h segs p} (chunk : LogBytes) :
    Survives h segs p → Survives (.accepted chunk :: h) segs (p ++ chunk)
  | published {h segs p} : Survives h segs p → Survives h (segs ++ [p]) []
  -- A restart takes what was pending, unless it had been linked.
  | restarted {h segs p} (pending : LogBytes) : p = pending ∨ p = [] →
    Survives h segs p → Survives (.restarted pending :: h) segs []

/-- A log, and whether its pending bytes have been linked as a segment by a
    publication that failed afterwards. -/
structure TrackedLog where
  log : LiveLog
  unconfirmed : Bool

/-- The log after a call. -/
def LogCall.next (t : TrackedLog) (call : LogCall) : TrackedLog where
  log := (call.exec t.log).log
  unconfirmed := (call.exec t.log).result = .failed true ||
    (t.unconfirmed && !(call.exec t.log).log.state.pending.isEmpty)

/-- The histories of a log whose calls meet a condition, latest event first. -/
inductive LogRun (ok : LogCall → TrackedLog → Prop) : List LogEvent → TrackedLog → Prop
  | new : LogRun ok [] ⟨.new, false⟩
  | step {h t} (call : LogCall) : LogRun ok h t → ok call t →
    LogRun ok ((call.exec t.log).events ++ h) (call.next t)

/-- No segment is removed after one that could not be. -/
def Faults.InOrder (f : Faults) : Prop := ∀ a b, a < b → f.remove a = true → f.remove b = true

/-- Nothing is appended to an unconfirmed log, a flush of one knows the number of its
    segment, and prunes go in order. -/
def LogCall.Plain (call : LogCall) (t : TrackedLog) : Prop :=
  match call with
  | .append _ faults _ => t.unconfirmed = false ∧ ∀ i, (faults i).InOrder
  | .flush f | .flushStale _ f | .read f _ =>
    f.InOrder ∧ (t.unconfirmed = true → t.log.state.nextSeq ≠ none)
  | .restart | .evict => True

/-- The accepted bytes among some events. -/
def acceptedBytes : List LogEvent → LogBytes
  | [] => []
  | .accepted chunk :: h => acceptedBytes h ++ chunk
  | .restarted _ :: h => acceptedBytes h

/-- The first `n` segments are those that prunes took: none, or what was left with the last
    of them was too large. -/
def PrunedTo (segs : List LogBytes) (n : Nat) : Prop :=
  n ≤ segs.length ∧ (n = 0 ∨ maxLiveLogBytesPerKey < (segs.drop (n - 1)).flatten.length)

/-- What a read gives is what was accepted and not lost, less the segments that prunes took
    to keep the log within its bound; a flush succeeds if the filesystem works; and an append
    accepts its bytes in order,
    all of them if it succeeds. -/
structure LogFaithful (ok : LogCall → TrackedLog → Prop) (h : List LogEvent) (t : TrackedLog) :
    Prop where
  reads : ∀ f unreadable bytes, ok (.read f unreadable) t →
    (LogCall.exec t.log (.read f unreadable)).bytes = some bytes →
      ∃ segs n, Survives h segs [] ∧ PrunedTo segs n ∧ bytes = (segs.drop n).flatten
  flushes : (LogCall.exec t.log (.flush .none)).result = .ok
  accepts : ∀ now faults bytes,
    let out := LogCall.exec t.log (.append now faults bytes)
    acceptedBytes out.events <+: bytes ∧
      (out.result = .ok → acceptedBytes out.events = bytes)

/-! ## Prunes -/

/-- Where no segment can be removed, all stay. -/
theorem pruneLoop_stuck {fails : Nat → Bool} {es : List (Nat × LogBytes)}
    (h : ∀ e ∈ es, fails e.1 = true) (total : Nat) : pruneLoop fails total es = es := by
  induction es with
  | nil => rfl
  | cons e es ih =>
      unfold pruneLoop
      by_cases htotal : total ≤ maxLiveLogBytesPerKey
      · rw [if_pos htotal]
      · rw [if_neg htotal, if_pos (h e List.mem_cons_self),
          ih fun d hd => h d (List.mem_cons_of_mem e hd)]

theorem PrunedTo.zero (segs : List LogBytes) : PrunedTo segs 0 := ⟨Nat.zero_le _, .inl rfl⟩

/-- One more segment changes nothing of what was pruned. -/
theorem PrunedTo.published {segs : List LogBytes} {n : Nat} (h : PrunedTo segs n) (p : LogBytes) :
    PrunedTo (segs ++ [p]) n := by
  obtain ⟨hn, hzero | hlarge⟩ := h
  · exact hzero ▸ .zero _
  · refine ⟨?_, .inr ?_⟩
    · rw [List.length_append]
      exact Nat.le_add_right_of_le hn
    · rw [List.drop_append_of_le_length (by omega), List.flatten_append, List.length_append]
      exact Nat.lt_add_right _ hlarge

/-- A prune of what an earlier one left. -/
theorem PrunedTo.add {segs : List LogBytes} {n m : Nat} (h : PrunedTo segs n)
    (h' : PrunedTo (segs.drop n) m) : PrunedTo segs (n + m) := by
  cases m with
  | zero => exact h
  | succ m =>
      obtain ⟨hm, hlarge⟩ := h'
      rw [List.length_drop] at hm
      rw [Nat.add_sub_cancel, List.drop_drop] at hlarge
      refine ⟨by omega, .inr ?_⟩
      rw [← Nat.add_assoc, Nat.add_sub_cancel]
      exact hlarge.resolve_left (Nat.succ_ne_zero m)

/-- The loop removes one segment, and goes on with the rest. -/
theorem PrunedTo.cons {segs : List LogBytes} {m : Nat} {bytes : LogBytes} (h : PrunedTo segs m)
    (hlarge : maxLiveLogBytesPerKey < (bytes :: segs).flatten.length) :
    PrunedTo (bytes :: segs) (m + 1) := by
  have hone : PrunedTo (bytes :: segs) 1 := ⟨Nat.le_add_left 1 _, .inr hlarge⟩
  exact Nat.add_comm 1 m ▸ hone.add h

/-- A prune in order removes the first few segments, and only while the rest is too large. -/
theorem pruneLoop_drop {fails : Nat → Bool}
    (horder : ∀ a b, a < b → fails a = true → fails b = true) {es : List (Nat × LogBytes)}
    (hsorted : es.Pairwise fun a b => a.1 < b.1) :
    ∃ m, PrunedTo (es.map Prod.snd) m ∧
      pruneLoop fails (es.map fun e => e.2.length).sum es = es.drop m := by
  induction es with
  | nil => exact ⟨0, .zero _, rfl⟩
  | cons e es ih =>
      rcases List.pairwise_cons.mp hsorted with ⟨he, hes⟩
      unfold pruneLoop
      by_cases htotal : ((e :: es).map fun e => e.2.length).sum ≤ maxLiveLogBytesPerKey
      · rw [if_pos htotal]
        exact ⟨0, .zero _, rfl⟩
      · rw [if_neg htotal]
        by_cases hfails : fails e.1 = true
        · -- From the first failure on nothing is removed.
          rw [if_pos hfails, pruneLoop_stuck fun d hd => horder e.1 d.1 (he d hd) hfails]
          exact ⟨0, .zero _, rfl⟩
        · have hrest : ((e :: es).map fun e => e.2.length).sum - e.2.length =
              (es.map fun e => e.2.length).sum := by
            rw [List.map_cons, List.sum_cons, Nat.add_sub_cancel_left]
          rw [if_neg hfails, hrest]
          rcases ih hes with ⟨m, hm, heq⟩
          exact ⟨m + 1, hm.cons (by simpa [List.length_flatten, Function.comp_def] using htotal),
            by rw [heq, List.drop_succ_cons]⟩

theorem prune_drop {f : Faults} (horder : f.InOrder) (dir : Segments) :
    ∃ m, PrunedTo (dir.entries.map Prod.snd) m ∧
      (prune f.remove dir).entries = dir.entries.drop m :=
  pruneLoop_drop horder dir.sorted

/-! ## What a log keeps -/

/-- All numbers in the directory are smaller. -/
theorem lt_numberAfter (dir : Segments) : ∀ e ∈ dir.entries, e.1 < LiveLog.numberAfter dir := by
  intro e he
  unfold LiveLog.numberAfter
  cases hlast : dir.entries.getLast? with
  | none => exact absurd (List.getLast?_eq_none_iff.mp hlast ▸ he) List.not_mem_nil
  | some last => exact Nat.lt_succ_of_le (SortedMap.le_of_getLast? hlast e he)

/-- The bytes that survive and are in no segment are the pending ones; those of an
    unconfirmed log are the last segment. -/
structure LogKept (h : List LogEvent) (log : LiveLog) (unconfirmed : Bool)
    (segs : List LogBytes) (n : Nat) (p : LogBytes) : Prop where
  survives : Survives h segs p
  pruned : PrunedTo segs n
  files : log.segments.entries.map Prod.snd = segs.drop n
  settled : unconfirmed = false →
    p = log.state.pending ∧ ∀ k, log.state.nextSeq = some k → ∀ e ∈ log.segments.entries, e.1 < k
  linked : unconfirmed = true → p = [] ∧ log.state.pending ≠ [] ∧
    ∃ k, log.segments.entries.getLast? = some (k, log.state.pending) ∧
      ∀ j, log.state.nextSeq = some j → j = k

/-- The segments of a log and the pruned ones account for its history. -/
def LogInv (h : List LogEvent) (log : LiveLog) (unconfirmed : Bool) : Prop :=
  ∃ segs n p, LogKept h log unconfirmed segs n p

section Kept

variable {h : List LogEvent} {log : LiveLog} {u : Bool} {f : Faults}

/-- A log that is not unconfirmed has all numbers below its next one. -/
theorem lt_nextNumber {segs : List LogBytes} {n : Nat} {p : LogBytes}
    (hkept : LogKept h log false segs n p) : ∀ e ∈ log.segments.entries, e.1 < log.nextNumber := by
  intro e he
  unfold LiveLog.nextNumber
  cases hseq : log.state.nextSeq with
  | none => exact lt_numberAfter log.segments e he
  | some k => exact (hkept.settled rfl).2 k hseq e he

/-- What a link keeps: the bytes are pending at the next number, or they are the last
    segment and the number is known. `dir` has the segment at the end. -/
theorem link_keeps {dir : Segments} {seq : Nat} {bytes : LogBytes} (hf : f.InOrder)
    {segs : List LogBytes} {n : Nat} (hn : PrunedTo segs n)
    (hfiles : dir.entries.map Prod.snd = segs.drop n)
    (hlast : dir.entries.getLast? = some (seq, bytes)) (hsurvives : Survives h segs [])
    (hpending : log.state.pending = bytes) (hbytes : bytes ≠ [])
    (hseq : ∀ j, log.state.nextSeq = some j → j = seq) (last : Option Nat) :
    LogInv h { log with segments := dir } true ∧
      LogInv h ⟨prune f.remove dir, ⟨[], some (seq + 1), last⟩⟩ false := by
  refine ⟨⟨segs, n, [], hsurvives, hn, hfiles, (fun hu => by cases hu), fun _ => ?_⟩, ?_⟩
  · exact ⟨rfl, hpending ▸ hbytes, seq, hpending ▸ hlast, hseq⟩
  · rcases prune_drop hf dir with ⟨m, hm, hprune⟩
    rw [hfiles] at hm
    refine ⟨segs, n + m, [], hsurvives, hn.add hm, ?_, fun _ => ⟨rfl, ?_⟩,
      (fun hu => by cases hu)⟩
    · rw [hprune, List.map_drop, hfiles, List.drop_drop]
    · intro k hk e he
      rw [hprune] at he
      cases hk
      exact Nat.lt_succ_of_le (SortedMap.le_of_getLast? hlast e (List.mem_of_mem_drop he))

/-- A publication fails before its link, or its segment is in the directory. -/
theorem publish_cases (f : Faults) (seq : Nat) (bytes : LogBytes) (dir : Segments) :
    publish f seq bytes dir = (.failed false, dir) ∨
      ∃ dir', ((dir.lookup seq = none ∧ dir' = dir.insert seq bytes) ∨
          (dir.lookup seq = some bytes ∧ dir' = dir)) ∧
        (publish f seq bytes dir = (.failed true, dir') ∨
          publish f seq bytes dir = (.ok, prune f.remove dir')) := by
  unfold publish linkSegment
  -- nothing was linked
  by_cases hwrite : (f.create || f.write) = true
  · exact .inl (if_pos hwrite)
  · rw [if_neg hwrite]
    by_cases hlink : f.link = true
    · exact .inl (if_pos hlink)
    · rw [if_neg hlink]
      cases hseq : dir.lookup seq with
      -- the number is free, so the link writes the segment
      | none =>
          refine .inr ⟨_, .inl ⟨rfl, rfl⟩, ?_⟩
          by_cases hsync : (f.sync || f.list) = true
          · exact .inl (if_pos hsync)
          · exact .inr (if_neg hsync)
      | some existing =>
          -- the number is taken: the segment is there already if it has the same bytes
          simp only
          by_cases hreread : f.reread = true
          · exact .inl (if_pos hreread)
          · rw [if_neg hreread]
            by_cases hsame : existing ≠ bytes
            · exact .inl (if_pos hsame)
            · rw [if_neg hsame]
              refine .inr ⟨dir, .inr ⟨congrArg some (not_not.mp hsame), rfl⟩, ?_⟩
              by_cases hsync : (f.sync || f.list) = true
              · exact .inl (if_pos hsync)
              · exact .inr (if_neg hsync)

/-- The directory with the segment of a flush in it. -/
theorem linked_directory {segs : List LogBytes} {n : Nat} {p : LogBytes} {dir : Segments}
    (hkept : LogKept h log u segs n p) (hnumber : u = true → log.state.nextSeq ≠ none)
    (hdir : (log.segments.lookup log.nextNumber = none ∧
        dir = log.segments.insert log.nextNumber log.state.pending) ∨
      (log.segments.lookup log.nextNumber = some log.state.pending ∧ dir = log.segments)) :
    ∃ segs', PrunedTo segs' n ∧ dir.entries.map Prod.snd = segs'.drop n ∧
      dir.entries.getLast? = some (log.nextNumber, log.state.pending) ∧ Survives h segs' [] ∧
      ∀ j, log.state.nextSeq = some j → j = log.nextNumber := by
  have hnext : ∀ j, log.state.nextSeq = some j → j = log.nextNumber := by
    intro j hj
    rw [LiveLog.nextNumber, hj, Option.getD_some]
  cases u with
  | false =>
      -- The number is new, and the segment goes to the end.
      have hlt := lt_nextNumber hkept
      have hnone : log.segments.lookup log.nextNumber = none := by
        cases hlookup : log.segments.lookup log.nextNumber with
        | none => rfl
        | some bytes => exact absurd (hlt _ (SortedMap.mem_of_lookup hlookup)) (lt_irrefl _)
      have hentries : dir.entries = log.segments.entries ++
          [(log.nextNumber, log.state.pending)] := by
        rcases hdir with ⟨_, rfl⟩ | ⟨hsome, _⟩
        · exact SortedMap.entries_insert_last hlt
        · rw [hnone] at hsome
          cases hsome
      have hp := (hkept.settled rfl).1
      refine ⟨segs ++ [p], hkept.pruned.published p, ?_, ?_, hkept.survives.published, hnext⟩
      · rw [hentries, List.map_append, hkept.files,
          List.drop_append_of_le_length hkept.pruned.1, hp]
        rfl
      · rw [hentries, List.getLast?_append]
        rfl
  | true =>
      -- The segment is there, under the number that is known.
      rcases hkept.linked rfl with ⟨hp, hpending, k, hlast, hk⟩
      rcases Option.ne_none_iff_exists'.mp (hnumber rfl) with ⟨j, hj⟩
      have hnumber' : log.nextNumber = k := by rw [← hnext j hj, hk j hj]
      have hmem : (k, log.state.pending) ∈ log.segments.entries := List.mem_of_getLast? hlast
      have hsame : dir = log.segments := by
        rcases hdir with ⟨hnone, _⟩ | ⟨_, rfl⟩
        · rw [hnumber', SortedMap.lookup_of_mem hmem] at hnone
          cases hnone
        · rfl
      rw [hsame, hnumber']
      exact ⟨segs, hkept.pruned, hkept.files, hlast, hp ▸ hkept.survives, hk⟩

/-- What a flush keeps, however it ends. -/
theorem flush_keeps (hf : f.InOrder) (hinv : LogInv h log u)
    (hnumber : u = true → log.state.nextSeq ≠ none) :
    ((log.flush f).1 = .ok → (log.flush f).2.state.pending = [] ∧ LogInv h (log.flush f).2 false) ∧
      ((log.flush f).1 = .failed true → (log.flush f).2.state = log.state ∧
        LogInv h (log.flush f).2 true) ∧
      ((log.flush f).1 = .failed false → (log.flush f).2 = log) := by
  rcases hinv with ⟨segs, n, p, hkept⟩
  unfold LiveLog.flush
  by_cases hempty : log.state.pending.isEmpty = true
  · rw [if_pos hempty]
    -- a flush of nothing succeeds, and after a link that failed late there is something pending
    have hnil : log.state.pending = [] := List.isEmpty_iff.mp hempty
    cases u with
    | true => exact absurd hnil (hkept.linked rfl).2.1
    | false => exact ⟨fun _ => ⟨hnil, segs, n, p, hkept⟩, IoResult.noConfusion,
      IoResult.noConfusion⟩
  · rw [if_neg hempty]
    have hbytes : log.state.pending ≠ [] := fun hnil => hempty (List.isEmpty_iff.mpr hnil)
    -- without a number the directory is listed, which may fail before anything is written
    by_cases hlisting : (log.state.nextSeq.isNone && f.number) = true
    · rw [if_pos hlisting]
      refine ⟨IoResult.noConfusion, fun hresult => ?_, fun _ => rfl⟩
      cases hresult
    · rw [if_neg hlisting]
      -- the publication fails, fails behind its link, or succeeds
      rcases publish_cases f log.nextNumber log.state.pending log.segments with
        hfailed | ⟨dir, hdir, hlinked | hok⟩
      · simp only [hfailed]
        refine ⟨IoResult.noConfusion, fun hresult => ?_, fun _ => trivial⟩
        cases hresult
      · simp only [hlinked]
        rcases linked_directory hkept hnumber hdir with
          ⟨segs', hn, hfiles, hlast, hsurvives, hseq⟩
        refine ⟨IoResult.noConfusion, fun _ => ⟨trivial, ?_⟩, fun hresult => ?_⟩
        · exact (link_keeps hf hn hfiles hlast hsurvives rfl hbytes hseq none).1
        · cases hresult
      · simp only [hok]
        rcases linked_directory hkept hnumber hdir with
          ⟨segs', hn, hfiles, hlast, hsurvives, hseq⟩
        refine ⟨fun _ => ⟨trivial, ?_⟩, IoResult.noConfusion, IoResult.noConfusion⟩
        exact (link_keeps hf hn hfiles hlast hsurvives rfl hbytes hseq log.state.lastWrite).2

/-- An unconfirmed log has pending bytes. -/
theorem flag_same (hinv : LogInv h log u) : (u && !log.state.pending.isEmpty) = u := by
  rcases hinv with ⟨segs, n, p, hkept⟩
  cases u with
  | false => rfl
  | true =>
      have hpending := (hkept.linked rfl).2.1
      rw [Bool.true_and, List.isEmpty_eq_false_iff.mpr hpending]
      rfl

/-- A flush and whether the log is unconfirmed after it. -/
theorem flush_next (hf : f.InOrder) (hinv : LogInv h log u)
    (hnumber : u = true → log.state.nextSeq ≠ none) :
    LogInv h (log.flush f).2
      (decide ((log.flush f).1 = .failed true) ||
        (u && !(log.flush f).2.state.pending.isEmpty)) := by
  rcases flush_keeps hf hinv hnumber with ⟨hok, hlinked, hfailed⟩
  cases hresult : (log.flush f).1 with
  | ok =>
      rcases hok hresult with ⟨hempty, hkept⟩
      rw [hempty]
      simpa using hkept
  | failed linked =>
      cases linked with
      | true => simpa using (hlinked hresult).2
      | false =>
          rw [hfailed hresult, flag_same hinv]
          simpa using hinv

/-! ## Calls -/

/-- A chunk goes behind the pending bytes. -/
theorem accept_keeps (now : Nat) (chunk : LogBytes) (hinv : LogInv h log false) :
    LogInv (.accepted chunk :: h) (log.accept now chunk) false := by
  rcases hinv with ⟨segs, n, p, hkept⟩
  rcases hkept.settled rfl with ⟨hp, hseq⟩
  refine ⟨segs, n, p ++ chunk, hkept.survives.accepted chunk, hkept.pruned, hkept.files,
    fun _ => ⟨?_, hseq⟩, fun hu => ?_⟩
  · rw [hp]
    rfl
  · cases hu

/-- The loop of an append, however it ends. -/
theorem appendChunks_keeps {now : Nat} (chunks : List LogBytes) :
    ∀ {h : List LogEvent} {log : LiveLog} {faults : Nat → Faults}, (∀ i, (faults i).InOrder) →
      LogInv h log false →
        LogInv (((log.appendChunks now chunks faults).2.1.map LogEvent.accepted).reverse ++ h)
          (log.appendChunks now chunks faults).2.2
          (decide ((log.appendChunks now chunks faults).1 = .failed true)) := by
  induction chunks with
  | nil => exact fun _ hinv => hinv
  | cons chunk chunks ih =>
      intro h log faults hf hinv
      have haccepted := accept_keeps now chunk hinv
      unfold LiveLog.appendChunks
      -- a chunk that fills the buffer is flushed at once
      by_cases hfull : flushBytesThreshold ≤ (log.accept now chunk).state.pending.length
      · simp only [if_pos hfull]
        rcases flush_keeps (hf 0) haccepted (fun hu => by cases hu) with ⟨hok, hlinked, hfailed⟩
        rcases hflush : (log.accept now chunk).flush (faults 0) with ⟨result, flushed⟩
        rw [hflush] at hok hlinked hfailed
        cases result with
        | ok =>
            simp only [List.map_cons, List.reverse_cons, List.append_assoc, List.singleton_append]
            exact ih (fun i => hf (i + 1)) (hok rfl).2
        | failed linked =>
            cases linked with
            | true => exact (hlinked rfl).2
            | false => exact (hfailed rfl).symm ▸ haccepted
      · simp only [if_neg hfull, List.map_cons, List.reverse_cons, List.append_assoc,
          List.singleton_append]
        exact ih hf haccepted

/-- A restart takes the pending bytes that are in no segment. -/
theorem restart_keeps (hinv : LogInv h log u) :
    LogInv (.restarted log.state.pending :: h) log.restart false := by
  rcases hinv with ⟨segs, n, p, hkept⟩
  have hp : p = log.state.pending ∨ p = [] := by
    cases u with
    | false => exact .inl (hkept.settled rfl).1
    | true => exact .inr (hkept.linked rfl).1
  refine ⟨segs, n, [], hkept.survives.restarted log.state.pending hp, hkept.pruned, hkept.files,
    fun _ => ⟨rfl, fun k hk => ?_⟩, fun hu => ?_⟩
  · cases hk
  · cases hu

theorem evict_keeps (hinv : LogInv h log u) : LogInv h log.evict u := by
  unfold LiveLog.evict
  by_cases hempty : log.state.pending.isEmpty = true
  · rw [if_pos hempty]
    have hnil : log.state.pending = [] := List.isEmpty_iff.mp hempty
    rcases hinv with ⟨segs, n, p, hkept⟩
    cases u with
    | true => exact absurd hnil (hkept.linked rfl).2.1
    | false =>
        refine ⟨segs, n, p, hkept.survives, hkept.pruned, hkept.files,
          fun _ => ⟨(hkept.settled rfl).1.trans hnil, fun k hk => ?_⟩, fun hu => ?_⟩
        · cases hk
        · cases hu
  · rw [if_neg hempty]
    exact hinv

end Kept

/-- A plain call keeps the account. -/
theorem kept_exec {h : List LogEvent} {t : TrackedLog} {call : LogCall} (hplain : call.Plain t)
    (hinv : LogInv h t.log t.unconfirmed) :
    LogInv ((call.exec t.log).events ++ h) (call.next t).log (call.next t).unconfirmed := by
  cases call with
  | append now faults bytes =>
      rcases hplain with ⟨hconfirmed, hf⟩
      rw [hconfirmed] at hinv
      have hnext : (LogCall.next t (.append now faults bytes)).unconfirmed =
          decide ((t.log.append now faults bytes).1 = .failed true) := by
        simp only [LogCall.next, hconfirmed, Bool.false_and, Bool.or_false]
        rfl
      rw [hnext]
      exact appendChunks_keeps (chunks flushBytesThreshold bytes) hf hinv
  | flush f => exact flush_next hplain.1 hinv hplain.2
  | flushStale now f =>
      show LogInv h (t.log.flushStale now f).2
        (decide ((t.log.flushStale now f).1 = .failed true) ||
        (t.unconfirmed && !(t.log.flushStale now f).2.state.pending.isEmpty))
      unfold LiveLog.flushStale
      split
      -- only a stale buffer is flushed; a fresh one leaves the log and the flag
      · exact flush_next hplain.1 hinv hplain.2
      · rw [flag_same hinv]
        simpa using hinv
  | read f unreadable =>
      -- a read flushes first, and reads nothing when the flush fails
      have hflush := flush_next hplain.1 hinv hplain.2
      rcases flush_keeps hplain.1 hinv hplain.2 with ⟨hok, _, _⟩
      show LogInv ((t.log.readAll f unreadable).events ++ h) (t.log.readAll f unreadable).log
        (decide ((t.log.readAll f unreadable).result = .failed true) ||
          (t.unconfirmed && !(t.log.readAll f unreadable).log.state.pending.isEmpty))
      unfold LiveLog.readAll
      rcases hresult : t.log.flush f with ⟨result, flushed⟩
      rw [hresult] at hflush hok
      cases result with
      | failed linked => exact hflush
      | ok =>
          -- after a flush that went well nothing is pending, so the flag cannot stay
          rcases hok rfl with ⟨hempty, hkept⟩
          have hflag : ∀ linked : Bool, LogInv h flushed
              (false || (linked && !List.isEmpty flushed.state.pending)) := by
            intro linked
            rw [show flushed.state.pending = [] from hempty]
            simpa using hkept
          cases unreadable with
          | true => exact hflag t.unconfirmed
          | false => exact hflag t.unconfirmed
  | restart =>
      have hnext : (LogCall.next t .restart).unconfirmed = false := by
        simp [LogCall.next, LogCall.exec, LiveLog.restart, KeyState.default]
      rw [hnext]
      exact restart_keeps hinv
  | evict =>
      have hevict := evict_keeps hinv
      show LogInv h t.log.evict (decide (IoResult.ok = .failed true) ||
        (t.unconfirmed && !t.log.evict.state.pending.isEmpty))
      rw [flag_same hevict]
      simpa using hevict

/-- Every plain history accounts for its bytes. -/
theorem kept_run {h : List LogEvent} {t : TrackedLog} (hrun : LogRun LogCall.Plain h t) :
    LogInv h t.log t.unconfirmed := by
  induction hrun with
  | new =>
      refine ⟨[], 0, [], .new, .zero [], rfl, fun _ => ⟨rfl, fun k hk => ?_⟩, fun hu => ?_⟩
      · cases hk
      · cases hu
  | step call _ hplain ih => exact kept_exec hplain ih

/-! ## Accepted bytes -/

theorem acceptedBytes_append (h h' : List LogEvent) :
    acceptedBytes (h ++ h') = acceptedBytes h' ++ acceptedBytes h := by
  induction h with
  | nil => rw [List.nil_append, acceptedBytes, List.append_nil]
  | cons e h ih =>
      cases e with
      | accepted chunk => rw [List.cons_append, acceptedBytes, ih, acceptedBytes, List.append_assoc]
      | restarted pending => rw [List.cons_append, acceptedBytes, ih, acceptedBytes]

theorem acceptedBytes_chunks (l : List LogBytes) :
    acceptedBytes (l.map LogEvent.accepted).reverse = l.flatten := by
  induction l with
  | nil => rfl
  | cons chunk l ih =>
      rw [List.map_cons, List.reverse_cons, acceptedBytes_append, ih, List.flatten_cons]
      rfl

theorem chunksFrom_flatten {n : Nat} (hn : 0 < n) (fuel : Nat) :
    ∀ bytes : LogBytes, bytes.length ≤ fuel → (chunksFrom n fuel bytes).flatten = bytes := by
  induction fuel with
  | zero =>
      intro bytes hbytes
      rw [List.length_eq_zero_iff.mp (Nat.le_zero.mp hbytes)]
      rfl
  | succ fuel ih =>
      intro bytes hbytes
      cases bytes with
      | nil => rfl
      | cons b bytes =>
          have hshorter : ((b :: bytes).drop n).length ≤ fuel := by
            rw [List.length_drop, List.length_cons]
            rw [List.length_cons] at hbytes
            omega
          rw [chunksFrom, List.flatten_cons, ih _ hshorter, List.take_append_drop]

theorem chunks_flatten (bytes : LogBytes) : (chunks flushBytesThreshold bytes).flatten = bytes :=
  chunksFrom_flatten (by decide) bytes.length bytes (Nat.le_refl _)

/-- The chunks an append accepted are the first ones, and all if it succeeded. -/
theorem appendChunks_accepts (now : Nat) (chunks : List LogBytes) :
    ∀ (log : LiveLog) (faults : Nat → Faults),
      (log.appendChunks now chunks faults).2.1 <+: chunks ∧
        ((log.appendChunks now chunks faults).1 = .ok →
          (log.appendChunks now chunks faults).2.1 = chunks) := by
  induction chunks with
  | nil => exact fun log faults => ⟨List.prefix_refl [], fun _ => rfl⟩
  | cons chunk chunks ih =>
      intro log faults
      unfold LiveLog.appendChunks
      by_cases hfull : flushBytesThreshold ≤ (log.accept now chunk).state.pending.length
      · simp only [if_pos hfull]
        rcases hflush : (log.accept now chunk).flush (faults 0) with ⟨result, flushed⟩
        cases result with
        | ok =>
            rcases ih flushed fun n => faults (n + 1) with ⟨hsent, hall⟩
            exact ⟨List.cons_prefix_cons.mpr ⟨rfl, hsent⟩, fun h => congrArg _ (hall h)⟩
        | failed linked =>
            refine ⟨List.cons_prefix_cons.mpr ⟨rfl, List.nil_prefix⟩, fun h => ?_⟩
            cases h
      · simp only [if_neg hfull]
        rcases ih (log.accept now chunk) faults with ⟨hsent, hall⟩
        exact ⟨List.cons_prefix_cons.mpr ⟨rfl, hsent⟩, fun h => congrArg _ (hall h)⟩

/-! ## Faithful logs -/

/-- The next number is free, or has the pending bytes already. -/
theorem nextNumber_fits {h : List LogEvent} {log : LiveLog} {u : Bool} (hinv : LogInv h log u) :
    log.segments.lookup log.nextNumber = none ∨
      log.segments.lookup log.nextNumber = some log.state.pending := by
  rcases hinv with ⟨segs, n, p, hkept⟩
  -- A number above all others is free.
  have hfree : (∀ e ∈ log.segments.entries, e.1 < log.nextNumber) →
      log.segments.lookup log.nextNumber = none := by
    intro hlt
    cases hlookup : log.segments.lookup log.nextNumber with
    | none => rfl
    | some bytes => exact absurd (hlt _ (SortedMap.mem_of_lookup hlookup)) (lt_irrefl _)
  cases u with
  | false => exact .inl (hfree (lt_nextNumber hkept))
  | true =>
      rcases hkept.linked rfl with ⟨_, _, k, hlast, hk⟩
      cases hseq : log.state.nextSeq with
      | none =>
          refine .inl (hfree ?_)
          rw [LiveLog.nextNumber, hseq]
          exact lt_numberAfter log.segments
      | some j =>
          right
          rw [LiveLog.nextNumber, hseq, Option.getD_some, hk j hseq]
          exact SortedMap.lookup_of_mem (List.mem_of_getLast? hlast)

/-- A flush succeeds where the filesystem works. -/
theorem flush_succeeds {h : List LogEvent} {log : LiveLog} {u : Bool} (hinv : LogInv h log u) :
    (log.flush .none).1 = .ok := by
  unfold LiveLog.flush
  by_cases hempty : log.state.pending.isEmpty = true
  · rw [if_pos hempty]
  · rw [if_neg hempty]
    simp only [Faults.none, Bool.and_false, Bool.false_eq_true, if_false, publish, linkSegment,
      Bool.or_self]
    rcases nextNumber_fits hinv with hfree | hsame
    · simp only [hfree]
    · simp only [hsame, ne_eq, not_true_eq_false, if_false]

/-- After every plain history a read gives the accepted bytes in order, each at most
    once, less the pending ones that restarts took and less the segments that prunes took
    to keep the log within its bound; a flush succeeds once the filesystem works; and appends accept
    their bytes in order. -/
theorem live_log_faithful {h : List LogEvent} {t : TrackedLog}
    (hrun : LogRun LogCall.Plain h t) : LogFaithful LogCall.Plain h t where
  reads := by
    intro f unreadable bytes hplain hbytes
    rcases flush_keeps hplain.1 (kept_run hrun) hplain.2 with ⟨hok, _, _⟩
    replace hbytes : (t.log.readAll f unreadable).bytes = some bytes := hbytes
    unfold LiveLog.readAll at hbytes
    rcases hresult : t.log.flush f with ⟨result, flushed⟩
    rw [hresult] at hbytes hok
    cases result with
    | failed linked => cases hbytes
    | ok =>
        cases unreadable with
        | true => cases hbytes
        | false =>
            cases hbytes
            rcases hok rfl with ⟨hempty, segs, n, p, hkept⟩
            -- a log that is settled reads the accepted bytes up to its pending ones, of which there
            -- are none
            have hp : p = [] := (hkept.settled rfl).1.trans hempty
            refine ⟨segs, n, hp ▸ hkept.survives, hkept.pruned, ?_⟩
            rw [LiveLog.readSegments, hkept.files]
  flushes := flush_succeeds (kept_run hrun)
  accepts := by
    intro now faults bytes
    rcases appendChunks_accepts now (chunks flushBytesThreshold bytes) t.log faults with
      ⟨hsent, hall⟩
    have hevents : acceptedBytes (LogCall.exec t.log (.append now faults bytes)).events =
        (t.log.append now faults bytes).2.1.flatten := acceptedBytes_chunks _
    refine ⟨?_, fun hok => ?_⟩
    · rw [hevents]
      rcases hsent with ⟨rest, hrest⟩
      refine ⟨rest.flatten, ?_⟩
      rw [LiveLog.append, ← List.flatten_append, hrest, chunks_flatten]
    · rw [hevents, LiveLog.append, hall hok, chunks_flatten]

/-! ## A confirmed segment, and one that is published twice -/

/-- The sync of the directory fails. -/
def Faults.unsynced : Faults := { Faults.none with sync := true }

theorem Faults.none_inOrder : Faults.none.InOrder := fun _ _ _ h => absurd h Bool.false_ne_true

theorem Faults.unsynced_inOrder : Faults.unsynced.InOrder :=
  fun _ _ _ h => absurd h Bool.false_ne_true

/-- Calls on a new log, the latest first. -/
def logAfter : List LogCall → List LogEvent × TrackedLog
  | [] => ([], ⟨.new, false⟩)
  | call :: calls =>
    ((call.exec (logAfter calls).2.log).events ++ (logAfter calls).1, call.next (logAfter calls).2)

/-- The second of two segments is linked, its flush fails, and it is flushed again. -/
def confirmedCalls : List LogCall :=
  [.flush .none, .flush .unsynced, .append 2 (fun _ => .none) [98], .flush .none,
    .append 1 (fun _ => .none) [97]]

theorem run_confirmedCalls :
    LogRun LogCall.Plain (logAfter confirmedCalls).1 (logAfter confirmedCalls).2 := by
  refine .step _ (.step _ (.step _ (.step _ (.step _ .new ?_) ?_) ?_) ?_) ?_
  · exact ⟨rfl, fun _ => Faults.none_inOrder⟩
  · exact ⟨Faults.none_inOrder, fun h => absurd h (by decide)⟩
  · exact ⟨by decide, fun _ => Faults.none_inOrder⟩
  · exact ⟨Faults.unsynced_inOrder, fun h => absurd h (by decide)⟩
  · exact ⟨Faults.none_inOrder, fun _ => by decide⟩

theorem live_log_faithful_of_confirmed :
    LogFaithful LogCall.Plain (logAfter confirmedCalls).1 (logAfter confirmedCalls).2 :=
  live_log_faithful run_confirmedCalls

/-- Nothing survives that was not accepted. -/
theorem Survives.length_le {h : List LogEvent} {segs : List LogBytes} {p : LogBytes}
    (hsurvives : Survives h segs p) : segs.flatten.length + p.length ≤
    (acceptedBytes h).length := by
  induction hsurvives with
  | new => exact Nat.le_refl 0
  | accepted chunk _ ih =>
      rw [acceptedBytes, List.length_append, List.length_append]
      omega
  | published _ ih =>
      rw [List.flatten_append, List.length_append, List.flatten_singleton, List.length_nil]
      omega
  | restarted pending _ _ ih =>
      rw [acceptedBytes, List.length_nil]
      omega

/-- The first segment of a log is linked, and its flush fails. -/
def repeatedCalls : List LogCall := [.flush .unsynced, .append 1 (fun _ => .none) [97]]

theorem live_log_repeats : ¬ ∀ h t, LogRun (fun _ _ => True) h t →
    LogFaithful (fun _ _ => True) h t := by
  intro hall
  have hrun : LogRun (fun _ _ => True) (logAfter repeatedCalls).1 (logAfter repeatedCalls).2 :=
    .step _ (.step _ .new trivial) trivial
  have hread : (LogCall.exec (logAfter repeatedCalls).2.log (.read .none false)).bytes =
      some [97, 97] := by decide
  rcases (hall _ _ hrun).reads .none false [97, 97] trivial hread with
    ⟨segs, n, hsurvives, _, hbytes⟩
  -- Two bytes are read, but only one was accepted.
  have haccepted : acceptedBytes (logAfter repeatedCalls).1 = [97] := by decide
  have hle := hsurvives.length_le
  rw [haccepted] at hle
  have hdrop : (segs.drop n).flatten.length ≤ segs.flatten.length :=
    (List.drop_sublist n segs).flatten.length_le
  rw [← hbytes] at hdrop
  simp only [List.length_cons, List.length_nil] at hdrop hle
  omega

end Preloop

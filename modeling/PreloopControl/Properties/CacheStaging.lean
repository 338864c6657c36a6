import PreloopControl.CacheStaging

/-!
# The Content of Staged Uploads

The staging file of a reservation holds the bodies of the accepted uploads, whatever uploads
failed or were dropped in between: an upload that fails cuts the file back to where it
began, and one that may not have done so invalidates the reservation.

The permits of an upload are those of its frames, kept with the bytes that are staged and
given back otherwise.

Bytes that were handed to the file but not written yet are part of the account from the start, so
what the background does later changes nothing. Only a dropped upload leaves its bytes on their
way to the file, and it has invalidated the reservation.

## Main definitions

* `Uploading`: What holds while an upload is under way.
* `StagingAccounted`: What holds of a reservation after any answers.

## Theorems

* `StagingAccounted.rolledBack`, `StagingAccounted.dropped`: Uploads that fail.
* `StagingAccounted.advance`: Every event keeps the accounts.
* `staging_accounted`: The file, the commit and the permits, in every run.
-/

namespace Preloop

open BufferedFile

@[simp] theorem acceptedBodies_nil : acceptedBodies [] = [] := rfl

@[simp] theorem acceptedBodies_append (past ns : List StagingNote) :
    acceptedBodies (past ++ ns) = acceptedBodies past ++ acceptedBodies ns :=
  List.filterMap_append

@[simp] theorem acceptedBodies_refused (body : List UInt8) (e : StagingError) :
    acceptedBodies [.uploaded body (some e)] = [] := rfl

@[simp] theorem acceptedBodies_accepted (body : List UInt8) :
    acceptedBodies [.uploaded body none] = [body] := rfl

@[simp] theorem acceptedBodies_committed (result : Except StagingError (List UInt8)) :
    acceptedBodies [.committed result] = [] := rfl

/-- The staged content after some answers. -/
def stagedContent (past : List StagingNote) : List UInt8 := (acceptedBodies past).flatten

/-- An upload that began with some content and has written since: nothing cuts the file, and
its permits are those of the frames it took. -/
structure Uploading (content written : List UInt8) (s : Staging) (u : CacheUpload) : Prop where
  valid : s.invalidated = false
  quiet : s.truncations = []
  start : u.startLen = content.length
  file : ∃ f, s.file = some f ∧ f.Extends content written
  permit : u.uploadPermit = u.body.length

/-- The accounts of a reservation: its length and its permits, the file between two uploads,
and the upload under way. -/
structure StagingAccounted (past : List StagingNote) (s : Staging) : Prop where
  length : ∀ p, s.pending = some p → p.stagingLen = (stagedContent past).length
  quota : ∀ p, s.pending = some p →
    s.uploadQuota + (p.stagingLen + s.inFlight) = maxCacheUploadBytes
  quiet : s.invalidated = false → s.truncations = []
  idle : s.pending.isSome = true → s.active = none → s.invalidated = false →
    s.content = stagedContent past ∧ ∀ f, s.file = some f → f.unwritten = []
  active : ∀ u, s.active = some u → s.pending.isSome = true ∧
    Uploading (stagedContent past) u.handed s u ∧ u.total = u.handed.length

variable {past : List StagingNote} {s : Staging} {u : CacheUpload}

theorem accounted_reserved (jobBackendId : Text) (jobOthers : Nat) :
    StagingAccounted [] (.reserved jobBackendId jobOthers) where
  length p h := by
    cases h
    rfl
  quota p h := by
    cases h
    change maxCacheUploadBytes + (0 + 0) = maxCacheUploadBytes
    omega
  quiet _ := rfl
  idle _ _ _ := ⟨rfl, nofun⟩
  active _ h := by cases h

/-- A refusal that leaves the reservation alone. -/
theorem StagingAccounted.refused (h : StagingAccounted past s) {ns : List StagingNote}
    (hns : acceptedBodies ns = []) : StagingAccounted (past ++ ns) s := by
  have hcontent : stagedContent (past ++ ns) = stagedContent past := by
    unfold stagedContent
    rw [acceptedBodies_append, hns, List.append_nil]
  refine ⟨?_, h.quota, h.quiet, ?_, ?_⟩
  · rw [hcontent]
    exact h.length
  · rw [hcontent]
    exact h.idle
  · rw [hcontent]
    exact h.active

/-! ## Uploads that fail -/

/-- What a rollback leaves. -/
theorem StagingAccounted.rolledBack (h : StagingAccounted past s) {written : List UInt8}
    (hactive : s.active = some u) {file : Option (BufferedFile UInt8)}
    (hu : Uploading (stagedContent past) written { s with file := file } u) (e : StagingError)
    (ending : RollbackEnd) :
    StagingAccounted past (rollback u e ending { s with file := file }).1 := by
  rcases hu.file with ⟨f, hf, hext⟩
  change file = some f at hf
  have hquota : ∀ p, s.pending = some p →
      s.uploadQuota + u.uploadPermit + (p.stagingLen + 0) = maxCacheUploadBytes := by
    intro p hp
    have hbefore := h.quota p hp
    rw [Staging.inFlight, hactive] at hbefore
    have := hu.permit
    simp only [Option.elim] at hbefore
    omega
  cases ending with
  | done settled =>
      refine ⟨h.length, hquota, h.quiet, fun _ _ _ => ?_, (fun _ hnone => by cases hnone)⟩
      -- the file is cut to what it was before the upload
      have hcut : f.truncate 0 u.startLen settled = opened (stagedContent past) := by
        rw [hu.start]
        exact hext.truncate 0 settled
      subst hf
      refine ⟨congrArg disk hcut, fun g hg => ?_⟩
      rw [← Option.some.inj hg]
      exact congrArg unwritten hcut
  | unflushed settled =>
      exact ⟨h.length, hquota, (fun hvalid => by cases hvalid),
        (fun _ _ hvalid => by cases hvalid), fun _ hnone => by cases hnone⟩
  | failed settled =>
      exact ⟨h.length, hquota, (fun hvalid => by cases hvalid),
        (fun _ _ hvalid => by cases hvalid), fun _ hnone => by cases hnone⟩

/-- An upload that is dropped leaves an invalidated reservation. -/
theorem StagingAccounted.dropped (h : StagingAccounted past s) (hactive : s.active = some u)
    (file : Option (BufferedFile UInt8)) :
    StagingAccounted past { s.dropUpload u with file := file } where
  length := h.length
  quota p hp := by
    have hbefore := h.quota p hp
    have hpermit := (h.active u hactive).2.1.permit
    rw [Staging.inFlight, hactive] at hbefore
    change s.uploadQuota + u.uploadPermit + (p.stagingLen + 0) = _
    simp only [Option.elim] at hbefore
    omega
  quiet hvalid := by cases hvalid
  idle _ _ hvalid := by cases hvalid
  active _ hnone := by cases hnone

/-! ## Uploads -/

theorem lookup_pending {caller : CacheCaller} {p : PendingCache} (h : s.lookup caller = .ok p) :
    s.pending = some p := by
  unfold Staging.lookup at h
  cases hp : s.pending with
  | none =>
      rw [hp] at h
      cases h
  | some pending =>
      rw [hp] at h
      simp only at h
      split_ifs at h
      cases h
      rfl

theorem StagingAccounted.begun (h : StagingAccounted past s) (hidle : s.active = none)
    (caller : CacheCaller) (opening : Opening) :
    StagingAccounted past (beginUpload caller opening s).1 := by
  unfold beginUpload
  cases hlookup : s.lookup caller with
  | error e => exact h
  | ok pending =>
      have hpending := lookup_pending hlookup
      simp only
      by_cases hinvalid : s.invalidated = true
      · rw [if_pos hinvalid]
        exact h
      · have hvalid : s.invalidated = false := Bool.eq_false_iff.mpr hinvalid
        rw [if_neg hinvalid]
        rcases h.idle (by rw [hpending]; rfl) hidle hvalid with ⟨hcontent, hsettled⟩
        -- a file that is created is as empty as one that is missing
        have hcreated : (s.file.getD (.opened [])).disk = stagedContent past := by
          rw [← hcontent]
          unfold Staging.content
          cases s.file <;> rfl
        have hopened : StagingAccounted past
            { s with file := some (s.file.getD (.opened [])) } := by
          refine ⟨h.length, h.quota, h.quiet, fun _ _ _ => ⟨hcreated, fun f hf => ?_⟩, ?_⟩
          · rw [← Option.some.inj hf]
            cases hfile : s.file with
            | none => rfl
            | some g => exact hsettled g hfile
          · intro u hu
            rw [hidle] at hu
            cases hu
        cases opening with
        | dropped created =>
            cases created with
            | false => exact h
            | true => exact hopened
        | failed message => exact h
        | unstatted message => exact hopened
        | stated =>
            have hlen : (s.file.getD (.opened [])).disk.length = pending.stagingLen := by
              rw [hcreated, h.length pending hpending]
            simp only [Staging.content, Option.elim, ne_eq, hlen, not_true, if_false]
            refine ⟨h.length, ?_, h.quiet, (fun _ hnone => by cases hnone), ?_⟩
            · intro p hp
              have hbefore := h.quota p hp
              rw [Staging.inFlight, hidle] at hbefore
              exact hbefore
            · intro u hu
              cases hu
              refine ⟨by rw [hpending]; rfl, ⟨hvalid, h.quiet hvalid, ?_, ?_, rfl⟩, rfl⟩
              · exact h.length pending hpending
              · refine ⟨_, rfl, ?_⟩
                have hext := extends_opened (stagedContent past)
                refine ⟨?_, fun _ => ?_⟩
                · rw [← hcreated]
                · have hempty : (s.file.getD (.opened [])).unwritten = [] := by
                    cases hfile : s.file with
                    | none => rfl
                    | some g => exact hsettled g hfile
                  rw [← hcreated]
                  exact congrArg ((s.file.getD (.opened [])).disk ++ ·) hempty

/-- What `reserve_chunk` takes. -/
theorem reserveChunk_cases {bytes : Nat} {s' : Staging} {u' : CacheUpload}
    (h : reserveChunk s u bytes = .ok (s', u')) : bytes ≤ s.uploadQuota ∧
      ∃ jobQuota jobPermit,
        s' = { s with uploadQuota := s.uploadQuota - bytes, jobQuota := jobQuota } ∧
        u' = { u with uploadPermit := u.uploadPermit + bytes, jobPermit := jobPermit } := by
  unfold reserveChunk at h
  -- a frame of 2 ^ 32 bytes or more is refused before any permit is asked for
  by_cases hframe : 2 ^ 32 ≤ bytes
  · rw [if_pos hframe] at h
    cases h
  · rw [if_neg hframe] at h
    by_cases hquota : s.uploadQuota < bytes
    · rw [if_pos hquota] at h
      cases h
    · rw [if_neg hquota] at h
      refine ⟨by omega, ?_⟩
      simp only at h
      -- a job without a budget takes no permit of one
      cases hjob : s.jobQuota with
      | none =>
          rw [hjob] at h
          cases h
          exact ⟨none, u.jobPermit, by rw [← hjob], rfl⟩
      | some jobQuota =>
          rw [hjob] at h
          simp only at h
          by_cases hbudget : jobQuota < bytes
          · rw [if_pos hbudget] at h
            cases h
          · rw [if_neg hbudget] at h
            cases h
            exact ⟨_, _, rfl, rfl⟩

theorem StagingAccounted.framed (h : StagingAccounted past s) (hactive : s.active = some u)
    (hwriting : u.writing = none) (frame : List UInt8) (ending : RollbackEnd) :
    StagingAccounted past (takeFrame u frame ending s).1 := by
  rcases h.active u hactive with ⟨hpending, hu, htotal⟩
  unfold takeFrame
  by_cases hempty : frame = []
  · rw [if_pos hempty]
    exact h
  · rw [if_neg hempty]
    cases s.usable with
    | error e => exact h.rolledBack hactive hu e ending
    | ok _ =>
        cases hreserve : reserveChunk s u frame.length with
        | error e => exact h.rolledBack hactive hu e ending
        | ok result =>
            rcases result with ⟨s', u'⟩
            rcases reserveChunk_cases hreserve with ⟨henough, jobQuota, jobPermit, rfl, rfl⟩
            have hbody : u.body = u.handed := by
              unfold CacheUpload.body
              rw [hwriting]
              exact List.append_nil _
            -- the permits move from the quota to the frame
            refine ⟨h.length, fun p hp => ?_, h.quiet, (fun _ hnone => by cases hnone), ?_⟩
            · have hbefore := h.quota p hp
              rw [Staging.inFlight, hactive] at hbefore
              simp only [Option.elim, hbody] at hbefore
              change s.uploadQuota - frame.length +
                (p.stagingLen + (u.handed ++ frame).length) = _
              rw [List.length_append]
              omega
            · intro v hv
              cases hv
              refine ⟨hpending, ⟨hu.valid, hu.quiet, hu.start, hu.file, ?_⟩, htotal⟩
              change u.uploadPermit + frame.length = (u.handed ++ frame).length
              rw [hu.permit, hbody, List.length_append]

/-- No count of bytes reaches the end of a `u64`. -/
theorem saturatingAdd_small {a b : Nat} (h : a + b ≤ maxCacheUploadBytes) :
    saturatingAdd a b = a + b := by
  unfold saturatingAdd
  unfold maxCacheUploadBytes at h
  omega

theorem StagingAccounted.written (h : StagingAccounted past s) (hactive : s.active = some u)
    {frame : List UInt8} (hwriting : u.writing = some frame) :
    StagingAccounted past (frameWritten u frame s) := by
  rcases h.active u hactive with ⟨hpending, hu, htotal⟩
  rcases Option.isSome_iff_exists.mp hpending with ⟨p, hp⟩
  rcases hu.file with ⟨f, hf, hext⟩
  have hbody : u.body = u.handed ++ frame := by
    unfold CacheUpload.body
    rw [hwriting]
    rfl
  -- the bytes of the frame had their permits when the frame was taken
  have hbefore : ∀ p, s.pending = some p →
      s.uploadQuota + (p.stagingLen + (u.handed ++ frame).length) = maxCacheUploadBytes := by
    intro p hp
    have := h.quota p hp
    rwa [Staging.inFlight, hactive, Option.elim, hbody] at this
  refine ⟨h.length, fun p hp => ?_, h.quiet, (fun _ hnone => by cases hnone), ?_⟩
  · change s.uploadQuota + (p.stagingLen + (u.handed ++ frame ++ []).length) = _
    rw [List.append_nil]
    exact hbefore p hp
  · intro v hv
    cases hv
    refine ⟨hpending, ⟨hu.valid, hu.quiet, hu.start, ⟨f.write frame, ?_, hext.write frame⟩, ?_⟩, ?_⟩
    · change s.file.map (·.write frame) = _
      rw [hf]
      rfl
    · change u.uploadPermit = (u.handed ++ frame ++ []).length
      rw [List.append_nil, hu.permit, hbody]
    · have := hbefore p hp
      rw [List.length_append] at this
      change saturatingAdd u.total frame.length = (u.handed ++ frame).length
      rw [htotal, saturatingAdd_small (by omega), List.length_append]

/-- An accepted body is at the end of the file, with its permits kept. -/
theorem StagingAccounted.ended (h : StagingAccounted past s) (hactive : s.active = some u)
    (hwriting : u.writing = none) (hreports : s.reportsFailure = false) (ending : RollbackEnd) :
    StagingAccounted
      (past ++ [.uploaded u.handed
        (endUpload u ending { s with file := s.file.map BufferedFile.flush }).2])
      (endUpload u ending { s with file := s.file.map BufferedFile.flush }).1 := by
  rcases h.active u hactive with ⟨hpending, hu, htotal⟩
  rcases Option.isSome_iff_exists.mp hpending with ⟨p, hp⟩
  rcases hu.file with ⟨f, hf, hext⟩
  have hbody : u.body = u.handed := by
    unfold CacheUpload.body
    rw [hwriting]
    exact List.append_nil _
  have hfailed : f.failed = false := by
    unfold Staging.reportsFailure at hreports
    rw [hf] at hreports
    exact hreports
  -- the budget covers the whole body, so the saturating sum is exact
  have hbefore : s.uploadQuota + (p.stagingLen + u.handed.length) = maxCacheUploadBytes := by
    have := h.quota p hp
    rwa [Staging.inFlight, hactive, Option.elim, hbody] at this
  have husable : ({ s with file := s.file.map BufferedFile.flush } : Staging).usable = .ok p := by
    unfold Staging.usable
    simp only [hp, hu.valid, Bool.false_eq_true, if_false]
  unfold endUpload
  rw [husable]
  have hcontent : stagedContent (past ++ [.uploaded u.handed none]) =
      stagedContent past ++ u.handed := by
    simp [stagedContent]
  have hlen := h.length p hp
  simp only
  refine ⟨fun q hq => ?_, fun q hq => ?_, h.quiet, fun _ _ _ => ⟨?_, ?_⟩,
    (fun _ hnone => by cases hnone)⟩
  -- the body is counted, its permits are kept, and the flushed file holds it
  · cases hq
    change saturatingAdd p.stagingLen u.total = _
    rw [htotal, saturatingAdd_small (by omega), hcontent, List.length_append, hlen]
  · cases hq
    change s.uploadQuota + (saturatingAdd p.stagingLen u.total + 0) = _
    rw [htotal, saturatingAdd_small (by omega), Nat.add_zero, hbefore]
  · rw [hcontent, Staging.content, hf]
    exact hext.flush hfailed
  · intro g hg
    rw [hf] at hg
    rw [← Option.some.inj hg]
    rfl

/-! ## Other events -/

/-- What the background does to the file. -/
theorem StagingAccounted.background (h : StagingAccounted past s) {f : BufferedFile UInt8}
    (hf : s.file = some f) {f' : BufferedFile UInt8}
    (hidle : f.unwritten = [] → f'.disk = f.disk ∧ f'.unwritten = [])
    (hext : ∀ old written, f.Extends old written → f'.Extends old written) :
    StagingAccounted past { s with file := some f' } where
  length := h.length
  quota := h.quota
  quiet := h.quiet
  idle hpending hactive hvalid := by
    rcases h.idle hpending hactive hvalid with ⟨hcontent, hsettled⟩
    rcases hidle (hsettled f hf) with ⟨hdisk, hunwritten⟩
    refine ⟨?_, fun g hg => by rw [← Option.some.inj hg, hunwritten]⟩
    rw [← hcontent]
    unfold Staging.content
    rw [hf]
    exact hdisk
  active u hu := by
    rcases h.active u hu with ⟨hpending, hup, htotal⟩
    rcases hup.file with ⟨g, hg, hextends⟩
    rw [hf] at hg
    cases hg
    exact ⟨hpending, ⟨hup.valid, hup.quiet, hup.start, ⟨f', rfl, hext _ _ hextends⟩, hup.permit⟩,
      htotal⟩

/-- A reservation that is gone accounts for nothing. -/
theorem StagingAccounted.gone (h : StagingAccounted past s) (hidle : s.active = none)
    (p : PendingCache) : StagingAccounted past { s.unreserve p with file := none } where
  length q hq := by cases hq
  quota q hq := by cases hq
  quiet := h.quiet
  idle hpending := by cases hpending
  active u hu := by
    change s.active = some u at hu
    rw [hidle] at hu
    cases hu

/-- A commit that succeeds stores what was staged. -/
theorem StagingAccounted.committed (h : StagingAccounted past s) (hidle : s.active = none)
    {caller : CacheCaller} {size : Option Nat} {store : Option StagingError} {s' : Staging}
    {result : Except StagingError (List UInt8)}
    (hcommit : commitStaged caller size store s = some (s', result)) :
    StagingAccounted past s' ∧ ∀ archive, result = .ok archive → archive = stagedContent past := by
  unfold commitStaged at hcommit
  -- each refusal forgets the reservation; only a commit that goes through reads the file
  cases hlookup : s.lookup caller with
  | error e =>
      rw [hlookup] at hcommit
      cases hcommit
      exact ⟨h, nofun⟩
  | ok pending =>
      have hpending := lookup_pending hlookup
      have hgone := h.gone hidle pending
      rw [hlookup] at hcommit
      simp only at hcommit
      by_cases hinvalid : s.invalidated = true
      · rw [if_pos hinvalid] at hcommit
        cases hcommit
        exact ⟨hgone, nofun⟩
      · have hvalid : s.invalidated = false := Bool.eq_false_iff.mpr hinvalid
        rw [if_neg hinvalid] at hcommit
        by_cases hsize : (size.any (· ≠ pending.stagingLen)) = true
        · rw [if_pos hsize] at hcommit
          cases hcommit
          exact ⟨hgone, nofun⟩
        · rw [if_neg hsize] at hcommit
          cases store with
          | some e =>
              cases hcommit
              exact ⟨hgone, nofun⟩
          | none =>
              cases hf : s.file with
              | none =>
                  rw [hf] at hcommit
                  cases hcommit
              | some f =>
                  rw [hf] at hcommit
                  cases hcommit
                  refine ⟨hgone, fun archive harchive => ?_⟩
                  rcases h.idle (by rw [hpending]; rfl) hidle hvalid with ⟨hcontent, -⟩
                  rw [← hcontent, Staging.content, hf]
                  exact (Except.ok.inj harchive).symm

/-- Every event of the upload under way keeps the accounts, and none is a commit. -/
theorem StagingAccounted.during (h : StagingAccounted past s) (hactive : s.active = some u)
    {e : UploadEvent} {s' : Staging} {ns : List StagingNote}
    (he : uploadAdvance u e s = some (s', ns)) :
    StagingAccounted (past ++ ns) s' ∧ ∀ result, .committed result ∉ ns := by
  rcases h.active u hactive with ⟨-, hu, -⟩
  have hnil : ∀ {s}, StagingAccounted past s → StagingAccounted (past ++ []) s :=
    fun h => h.refused rfl
  have hrefuse : ∀ {s error}, StagingAccounted past s →
      StagingAccounted (past ++ [.uploaded u.handed (some error)]) s := fun h => h.refused rfl
  unfold uploadAdvance at he
  cases e with
  | cancelled handed =>
      cases he
      exact ⟨hnil (h.dropped hactive _), nofun⟩
  | written =>
      -- the write under way reaches the file, unless an earlier failure is reported first
      cases hwriting : u.writing with
      | none =>
          rw [hwriting] at he
          cases he
      | some frame =>
          rw [hwriting] at he
          simp only at he
          by_cases hreports : s.reportsFailure = true
          · rw [if_pos hreports] at he
            cases he
          · rw [if_neg hreports] at he
            cases he
            exact ⟨hnil (h.written hactive hwriting), nofun⟩
  | writeReported handed message ending =>
      cases hwriting : u.writing with
      | none =>
          rw [hwriting] at he
          cases he
      | some frame =>
          rw [hwriting] at he
          cases he
          rcases hu.file with ⟨f, hf, hext⟩
          -- part of the frame may be in the file already
          have hwritten : Uploading (stagedContent past) (u.handed ++ frame.take handed)
              { s with file := s.file.map (·.write (frame.take handed)) } u :=
            ⟨hu.valid, hu.quiet, hu.start,
              ⟨_, congrArg (Option.map (·.write (frame.take handed))) hf, hext.write _⟩, hu.permit⟩
          exact ⟨hrefuse (h.rolledBack hactive hwritten _ ending), by simp⟩
  | frame data ending =>
      cases hwriting : u.writing with
      | some frame =>
          rw [hwriting] at he
          cases he
      | none =>
          have hframed := h.framed hactive hwriting data ending
          -- a frame is taken or refused; refused, it rolls the upload back
          rcases htake : takeFrame u data ending s with ⟨s₁, result⟩
          simp only [hwriting, htake] at he
          rw [htake] at hframed
          cases result with
          | none =>
              cases he
              exact ⟨hnil hframed, nofun⟩
          | some e =>
              cases he
              exact ⟨hrefuse hframed, by simp⟩
  | bodyFails message ending =>
      -- every way an upload fails gives the file back its length before it
      cases hwriting : u.writing with
      | some frame =>
          rw [hwriting] at he
          cases he
      | none =>
          rw [hwriting] at he
          cases he
          exact ⟨hrefuse (h.rolledBack hactive hu _ ending), by simp⟩
  | flushReported message ending =>
      cases hwriting : u.writing with
      | some frame =>
          rw [hwriting] at he
          cases he
      | none =>
          rw [hwriting] at he
          cases he
          exact ⟨hrefuse (h.rolledBack hactive hu _ ending), by simp⟩
  | bodyEnds ending =>
      cases hwriting : u.writing with
      | some frame =>
          rw [hwriting] at he
          cases he
      | none =>
          rw [hwriting] at he
          simp only at he
          by_cases hreports : s.reportsFailure = true
          -- the flush waits for the writes under way, and one that failed would be reported
          · rw [if_pos hreports] at he
            cases he
          · rw [if_neg hreports] at he
            cases he
            exact ⟨h.ended hactive hwriting (Bool.eq_false_iff.mpr hreports) ending, by simp⟩

/-- The job's budget is no part of the accounts. -/
theorem StagingAccounted.budget (h : StagingAccounted past s) (jobQuota : Option Nat)
    (jobOthers : Nat) :
    StagingAccounted past { s with jobQuota := jobQuota, jobOthers := jobOthers } where
  length := h.length
  quota := h.quota
  quiet := h.quiet
  idle := h.idle
  active u hu :=
    let ⟨hpending, hup, htotal⟩ := h.active u hu
    ⟨hpending, ⟨hup.valid, hup.quiet, hup.start, hup.file, hup.permit⟩, htotal⟩

/-- Every event keeps the accounts, and a commit that succeeds stores what was staged. -/
theorem StagingAccounted.advance (h : StagingAccounted past s) {e : StagingEvent} {s' : Staging}
    {ns : List StagingNote} (he : staging.advance e s = some (s', ns)) :
    StagingAccounted (past ++ ns) s' ∧ ∀ archive, .committed (.ok archive) ∈ ns →
      ns = [.committed (.ok archive)] ∧ archive = stagedContent past := by
  have hnil : ∀ {s}, StagingAccounted past s → StagingAccounted (past ++ []) s :=
    fun h => h.refused rfl
  change stagingAdvance e s = some (s', ns) at he
  unfold stagingAdvance at he
  cases e with
  | upload caller opening =>
      simp only at he
      by_cases hbusy : s.active.isSome = true
      · rw [if_pos hbusy] at he
        cases he
      -- only one upload runs at a time, so what is idle is settled
      · have hbegun := h.begun (Option.not_isSome_iff_eq_none.mp hbusy) caller opening
        rw [if_neg hbusy] at he
        rcases hbegin : beginUpload caller opening s with ⟨s₁, result⟩
        rw [hbegin] at he hbegun
        cases result with
        | none =>
            cases he
            exact ⟨hnil hbegun, nofun⟩
        | some e =>
            cases he
            exact ⟨hbegun.refused rfl, by simp⟩
  | during e =>
      rcases Option.bind_eq_some_iff.mp he with ⟨u, hactive, hu⟩
      rcases h.during hactive hu with ⟨hs, hnone⟩
      exact ⟨hs, fun archive hmem => absurd hmem (hnone _)⟩
  | settles bytes =>
      rcases Option.map_eq_some_iff.mp he with ⟨f, hf, heq⟩
      cases heq
      -- a write in the background takes bytes from what is still unwritten
      refine ⟨hnil (h.background hf (fun hnone => ?_) fun _ _ hext => hext.settle bytes), nofun⟩
      unfold settle
      simp [hnone]
  | writeFails bytes =>
      rcases Option.bind_eq_some_iff.mp he with ⟨f, hf, he⟩
      by_cases hnone : f.unwritten = []
      · rw [if_pos hnone] at he
        cases he
      · rw [if_neg hnone] at he
        cases he
        exact ⟨hnil (h.background hf (fun h => absurd h hnone) fun _ _ hext => hext.fail bytes),
          nofun⟩
  | truncates opened =>
      cases htasks : s.truncations with
      | nil =>
          simp only [htasks] at he
          cases he
      | cons length rest =>
          simp only [htasks] at he
          cases he
          -- only a dropped upload leaves such a task, and it has invalidated the reservation
          have hinvalid : s.invalidated ≠ false := fun hvalid => by
            have hquiet := h.quiet hvalid
            rw [htasks] at hquiet
            cases hquiet
          exact ⟨hnil ⟨h.length, h.quota, fun hvalid => absurd hvalid hinvalid,
            fun _ _ hvalid => absurd hvalid hinvalid,
            fun u hu => absurd (h.active u hu).2.1.valid hinvalid⟩, nofun⟩
  | commit caller size store =>
      simp only at he
      by_cases hbusy : s.active.isSome = true
      · rw [if_pos hbusy] at he
        cases he
      · rw [if_neg hbusy] at he
        rcases Option.map_eq_some_iff.mp he with ⟨⟨s₁, result⟩, hcommit, heq⟩
        -- a commit reads the whole file, which is what the uploads have staged
        cases heq
        rcases h.committed (Option.not_isSome_iff_eq_none.mp hbusy) hcommit with ⟨hs, harchive⟩
        refine ⟨hs.refused rfl, fun archive hmem => ?_⟩
        cases List.mem_singleton.mp hmem
        exact ⟨rfl, harchive archive rfl⟩
  | sweep =>
      simp only at he
      by_cases hbusy : s.active.isSome = true
      · rw [if_pos hbusy] at he
        cases he
      · rw [if_neg hbusy] at he
        rcases Option.map_eq_some_iff.mp he with ⟨s₁, hsweep, heq⟩
        cases heq
        rcases Option.map_eq_some_iff.mp hsweep with ⟨pending, -, rfl⟩
        exact ⟨hnil (h.gone (Option.not_isSome_iff_eq_none.mp hbusy) pending), nofun⟩
  | otherTakes bytes =>
      rcases Option.bind_eq_some_iff.mp he with ⟨quota, -, he⟩
      by_cases hquota : quota < bytes
      · rw [if_pos hquota] at he
        cases he
      · rw [if_neg hquota] at he
        cases he
        exact ⟨hnil (h.budget _ _), nofun⟩
  | otherReturns bytes =>
      simp only at he
      by_cases hothers : s.jobOthers < bytes
      · rw [if_pos hothers] at he
        cases he
      · rw [if_neg hothers] at he
        cases he
        exact ⟨hnil (h.budget _ _), nofun⟩

/-- Between uploads, the file of a valid reservation has the staged length and is the accepted
bodies one after the other; a commit that succeeds stores just them; and the permits in use are
the staged bytes and those of the upload under way. -/
theorem staging_accounted {jobBackendId : Text} {jobOthers : Nat} {past : List StagingNote}
    {s : Staging}
    (h : (staging).Run (fun _ _ _ => True) (.reserved jobBackendId jobOthers) past s) :
    (∀ p, s.pending = some p → s.active = none → s.invalidated = false →
      s.content.length = p.stagingLen ∧ s.content = (acceptedBodies past).flatten) ∧
    (∀ before archive rest, past = before ++ .committed (.ok archive) :: rest →
      archive = (acceptedBodies before).flatten) ∧
    ∀ p, s.pending = some p →
      maxCacheUploadBytes - s.uploadQuota = p.stagingLen + s.inFlight := by
  have haccounted : StagingAccounted past s := h.invariant (accounted_reserved _ _)
    fun hI _ he => (hI.advance he).1
  refine ⟨fun p hp hidle hvalid => ?_, fun before archive rest hsplit => ?_, fun p hp => ?_⟩
  · rcases haccounted.idle (by rw [hp]; rfl) hidle hvalid with ⟨hcontent, -⟩
    exact ⟨by rw [hcontent, haccounted.length p hp], hcontent⟩
  · refine h.splits (P := fun pre n => ∀ archive, n = .committed (.ok archive) →
      archive = stagedContent pre) (accounted_reserved jobBackendId jobOthers) ?_ before _ rest
      hsplit archive rfl
    intro past s e s' ns hI _ he
    rcases hI.advance he with ⟨hI', harchive⟩
    refine ⟨hI', fun pre n post hns archive hn => ?_⟩
    -- the commit is all that its event answers
    rcases harchive archive (by rw [hns, hn]; simp) with ⟨hone, hcontent⟩
    rcases Machine.split_singleton (hone.symm.trans hns) with ⟨rfl, -⟩
    rw [List.append_nil, hcontent]
  · have := haccounted.quota p hp
    omega

/-- A body of one frame is accepted, and the next upload fails after a frame. -/
def retriedUpload : List StagingEvent :=
  [.upload (.job "job".toList) .stated, .during (.frame [1, 2] (.done 0)), .during .written,
    .settles 1, .during (.bodyEnds (.done 0)), .upload (.job "job".toList) .stated,
    .during (.frame [3] (.done 0)), .during .written, .during (.bodyFails [] (.done 1))]

theorem staging_accounted_retried :
    ∃ past s, (staging).exec retriedUpload [] (.reserved "job".toList 0) = some (past, s) ∧
      acceptedBodies past = [[1, 2]] ∧ s.content = [1, 2] ∧
      maxCacheUploadBytes - s.uploadQuota = 2 := by
  have hrun : (staging).exec retriedUpload [] (.reserved "job".toList 0) = some (_, _) := rfl
  have h := staging_accounted (Machine.run_of_exec (fun _ _ _ _ => trivial) .start hrun)
  exact ⟨_, _, hrun, rfl, (h.1 _ rfl rfl rfl).2, h.2.2 _ rfl⟩

end Preloop

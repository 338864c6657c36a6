import PreloopControl.MemoryCaps

/-!
# What Trimming Leaves

What is left of the timelines and of the events after they were trimmed, from any state and
with any queues. The caps always hold, a counter always has its timeline, and the records of
the patch go last. The timeline that was patched and the run that was written to stay unless
they come up second in the queue, behind themselves or behind a key that is gone while they
are the first of the map: then they are taken in their own place.

Both trims are passes over a queue with one guarded key, so what is kept is said once in
`Lib.Eviction`, for any maps. A pass takes the first key of the queue that is still there. If that
is the guarded one, the next key goes in its place without being held against the guard. A queue
that names what is there, each key once, never has the guarded key behind itself, and every pass
leaves such a queue.

## Main definitions

* `PatchTrimmed`, `TrimsPatch`: What a patch is to leave.
* `EventsTrimmed`, `TrimsEvents`: What events are to leave.
* `patchQueue`, `eventsQueue`: The keys and their queue before anything is taken out.

## Theorems

* `trimTimelineAfterPatch_spec`, `trimTimelineEvents_spec`: What always holds.
* `trims_iff`: When the patched timeline and the active run stay.
* `trims_of_inStep`: They stay where the queues name what is there, each key once.
-/

namespace Preloop

namespace MemoryCaps

variable {Uuid RunId Event : Type} [LinearOrder Uuid] [LinearOrder RunId]
variable {timelineKey : Text} {isProtected : List Uuid} {runId : RunId}
variable {s after : InnerState Uuid RunId Event}

/-- The records of a timeline. -/
def InnerState.recordsOf (s : InnerState Uuid RunId Event) (k : Text) :
    SortedMap Uuid TimelineRecord := (s.timelineRecords.lookup k).getD ∅

/-- What trimming is to leave after a patch. -/
structure PatchTrimmed (timelineKey : Text) (isProtected : List Uuid)
    (before after : InnerState Uuid RunId Event) : Prop where
  timelines : after.timelineRecords.entries.length ≤ maxTimelineKeys
  records : (after.recordsOf timelineKey).entries.length ≤ maxTimelineRecords
  bytes : ((after.recordsOf timelineKey).sum fun _ r => r.bytes) ≤
      maxTimelineBytesPerTimeline ∨ (after.recordsOf timelineKey).entries.length ≤ 1
  -- nothing else happens to a timeline than that it is taken out
  others : ∀ k records, k ≠ timelineKey → after.timelineRecords.lookup k = some records →
    before.timelineRecords.lookup k = some records
  counters : ∀ k, (after.timelineChangeIds.lookup k).isSome = true →
    (after.timelineRecords.lookup k).isSome = true
  patch : ∀ id ∈ isProtected, ((before.recordsOf timelineKey).lookup id).isSome = true →
    (after.recordsOf timelineKey).lookup id = none →
      ∀ other, ((after.recordsOf timelineKey).lookup other).isSome = true → other ∈ isProtected
  patched : (before.timelineRecords.lookup timelineKey).isSome = true →
    hasCounter timelineKey before.timelineChangeIds = true →
      after.timelineRecords.lookup timelineKey = none →
        ∀ k, after.timelineRecords.lookup k = none

/-- What trimming is to leave after events of a run. -/
structure EventsTrimmed (runId : RunId) (before after : InnerState Uuid RunId Event) : Prop where
  runs : after.timelineEvents.entries.length ≤ maxTimelineEventKeys
  events : ∀ events, after.timelineEvents.lookup runId = some events →
    events.length ≤ maxTimelineEvents
  others : ∀ r events, r ≠ runId → after.timelineEvents.lookup r = some events →
    before.timelineEvents.lookup r = some events
  active : (before.timelineEvents.lookup runId).isSome = true →
    after.timelineEvents.lookup runId = none → ∀ r, after.timelineEvents.lookup r = none

/-- The loops end, and leave what they are to leave. -/
def TrimsPatch (timelineKey : Text) (isProtected : List Uuid) (s : InnerState Uuid RunId Event) :
    Prop :=
  ∃ after, (∃ enough, ∀ fuel, enough ≤ fuel →
    trimTimelineAfterPatch fuel timelineKey isProtected s = some after) ∧
      PatchTrimmed timelineKey isProtected s after

/-- The loop ends, and leaves what it is to leave. -/
def TrimsEvents (runId : RunId) (s : InnerState Uuid RunId Event) : Prop :=
  ∃ after, (∃ enough, ∀ fuel, enough ≤ fuel → trimTimelineEvents fuel runId s = some after) ∧
    EventsTrimmed runId s after

/-- The timelines and their queue, the patched one queued. -/
def patchQueue (timelineKey : Text) (s : InnerState Uuid RunId Event) :
    Eviction.Store Text Unit Int :=
  ⟨s.timelineRecords.mapValues fun _ => (), s.timelineChangeIds,
    enqueued timelineKey s.timelineRecordsOrder⟩

/-- The runs and their queue, the active one queued. -/
def eventsQueue (runId : RunId) (s : InnerState Uuid RunId Event) :
    Eviction.Store RunId Unit Unit :=
  ⟨s.timelineEvents.mapValues fun _ => (), ∅,
    if (s.timelineEvents.lookup runId).isSome then enqueued runId s.timelineEventsOrder
    else s.timelineEventsOrder⟩

/-- The patched timeline is never taken in its own place. -/
def PatchedPassesOn (timelineKey : Text) (s : InnerState Uuid RunId Event) : Prop :=
  (s.timelineRecords.lookup timelineKey).isSome = true →
    hasCounter timelineKey s.timelineChangeIds = true → ∀ n <
      s.timelineRecords.entries.length - maxTimelineKeys,
      ¬ Eviction.TakesItself timelineKey
        (Eviction.passes (hasCounter timelineKey) timelineKey n (patchQueue timelineKey s))

/-- The active run is never taken in its own place. -/
def ActivePassesOn (runId : RunId) (s : InnerState Uuid RunId Event) : Prop :=
  (s.timelineEvents.lookup runId).isSome = true → ∀ n <
    s.timelineEvents.entries.length - maxTimelineEventKeys,
    ¬ Eviction.TakesItself runId
      (Eviction.passes (fun _ => true) runId n (eventsQueue runId s))

/-! ## Records -/

theorem tooMany_nonempty (m : SortedMap Uuid TimelineRecord) (h : tooMany m = true) :
    m.entries ≠ [] := by
  rintro hnil
  rw [tooMany, hnil] at h
  simp at h

theorem tooLong_nonempty (m : SortedMap Uuid TimelineRecord) (h : tooLong m = true) :
    m.entries ≠ [] := by
  rintro hnil
  rw [tooLong, hnil] at h
  simp at h

/-- The records are brought within both caps, those of the patch going last. -/
theorem trimRecords_spec (isProtected : List Uuid) (records : SortedMap Uuid TimelineRecord) :
    ∃ kept, (∀ fuel, records.entries.length < fuel →
      trimRecords fuel isProtected records = some kept) ∧
        kept.entries.length ≤ maxTimelineRecords ∧ tooLong kept = false ∧
          Eviction.Shrunk isProtected.contains records kept := by
  rcases Eviction.shrink_spec (p := isProtected.contains) (m := records) tooMany_nonempty
    (Nat.lt_succ_self _) with ⟨few, hfew, hcount, hle, hshrunk⟩
  rcases Eviction.shrink_spec (p := isProtected.contains) (m := few) tooLong_nonempty
    (Nat.lt_succ_self _) with ⟨kept, hkept, hbytes, hle', hshrunk'⟩
  have hfew' : few.entries.length ≤ maxTimelineRecords := by simpa [tooMany] using hcount
  refine ⟨kept, fun fuel hfuel => ?_, by omega, hbytes, hshrunk.trans hshrunk'⟩
  unfold trimRecords
  rw [hfew fuel hfuel]
  exact hkept fuel (by omega)

/-! ## Timelines -/

section Evictions

variable {K V I : Type} [LinearOrder K] {g : SortedMap K I → Bool} {t : K}
  {s : Eviction.Store K V I} {cap : Nat}

/-- A loop that goes past its cap leaves an entry. -/
theorem exists_left (hcap : 1 ≤ cap) (ht : s.live t = true)
    (hgone : (Eviction.passes g t (s.size - cap) s).live t = false) :
    ∃ k, (Eviction.passes g t (s.size - cap) s).items.lookup k ≠ none := by
  by_cases hn : s.size - cap = 0
  · rw [hn] at hgone
    change s.live t = false at hgone
    rw [ht] at hgone
    cases hgone
  · have hsize := Eviction.size_passes (g := g) (t := t) (s := s)
      (n := s.size - cap) (by omega)
    rcases Eviction.exists_firstKey
      (s := Eviction.passes g t (s.size - cap) s) (by omega) with ⟨k, hk⟩
    have hlive := Eviction.live_of_firstKey hk
    exact ⟨k, Option.isSome_iff_ne_none.mp hlive⟩

theorem size_le_cap (hcap : 1 ≤ cap) :
    (Eviction.passes g t (s.size - cap) s).size ≤ cap := by
  by_cases hn : s.size - cap = 0
  · rw [hn]
    change s.size ≤ cap
    omega
  · have hsize := Eviction.size_passes (g := g) (t := t) (s := s)
      (n := s.size - cap) (by omega)
    omega

/-- What is found after the loop was there before it. -/
theorem lookup_of_left (hcap : 1 ≤ cap) {k : K} {v : V}
    (h : (Eviction.passes g t (s.size - cap) s).items.lookup k = some v) :
    s.items.lookup k = some v := by
  by_cases hn : s.size - cap = 0
  · rw [hn] at h
    exact h
  · rcases Eviction.lookup_passes (g := g) (t := t) (s := s)
      (n := s.size - cap) (by omega) k with ⟨hitems, -⟩ | ⟨-, hitems, -⟩
    · rw [← hitems]
      exact h
    · rw [hitems] at h
      cases h

/-- The guarded key stays while another one can be taken if it never takes itself. -/
theorem stays_iff (hcap : 1 ≤ cap) (hguard : ∀ m k, k ≠ t → g (m.erase k) = g m)
    (hs : g s.companions = true) (ht : s.live t = true) :
    ((Eviction.passes g t (s.size - cap) s).items.lookup t = none →
      ∀ k, (Eviction.passes g t (s.size - cap) s).items.lookup k = none) ↔
    ∀ n < s.size - cap, ¬ Eviction.TakesItself t
      (Eviction.passes g t n (s.mapItems fun _ => ())) := by
  have hpos : 1 ≤ s.size := by
    rcases Option.isSome_iff_exists.mp ht with ⟨v, hv⟩
    exact List.length_pos_of_mem (SortedMap.mem_of_lookup hv)
  have hlive := Eviction.live_passes_iff (n := s.size - cap) (by omega) hguard hs ht
  -- the passes look at the keys only
  have hforget : ∀ n, Eviction.TakesItself t
      (Eviction.passes g t n (s.mapItems fun _ => ())) ↔
        Eviction.TakesItself t (Eviction.passes g t n s) := by
    intro n
    rw [Eviction.passes_mapItems]
    exact Eviction.takesItself_mapItems _
  simp only [hforget]
  rw [← hlive]
  constructor
  · intro hstay
    cases hgone : (Eviction.passes g t (s.size - cap) s).live t with
    | true => rfl
    | false =>
        -- a key is left, since the cap is not zero
        rcases exists_left hcap ht hgone with ⟨k, hk⟩
        exact absurd (hstay (Option.isSome_eq_false_iff.mp hgone |> Option.isNone_iff_eq_none.mp) k)
          hk
  · intro hstay hnone
    rw [Eviction.Store.live, hnone] at hstay
    cases hstay

/-- What the loop leaves, told from a store with the keys and the queue alone. -/
theorem loop_spec (hcap : 1 ≤ cap) (hguard : ∀ m k, k ≠ t → g (m.erase k) = g m)
    {queue : Eviction.Store K Unit I} (hqueue : s.mapItems (fun _ => ()) = queue) :
    ∃ kept, (∀ fuel, queue.size < fuel → Eviction.loop g t cap fuel s = some kept) ∧
      kept.size ≤ cap ∧
      (∀ k v, kept.items.lookup k = some v → s.items.lookup k = some v) ∧
      (g queue.companions = true → queue.live t = true →
        ((kept.items.lookup t = none → ∀ k, kept.items.lookup k = none) ↔
          ∀ n < queue.size - cap, ¬ Eviction.TakesItself t (Eviction.passes g t n queue))) := by
  subst hqueue
  rw [Eviction.size_mapItems, Eviction.live_mapItems]
  exact ⟨_, fun fuel hfuel => Eviction.loop_eq hcap (by omega), size_le_cap hcap,
    fun k v => lookup_of_left hcap, fun hs ht => stays_iff hcap hguard hs ht⟩

end Evictions

theorem one_le_keys : 1 ≤ maxTimelineKeys := by
  unfold maxTimelineKeys
  omega

theorem hasCounter_erase (m : SortedMap Text Int) (k : Text) (h : k ≠ timelineKey) :
    hasCounter timelineKey (m.erase k) = hasCounter timelineKey m := by
  unfold hasCounter
  rw [SortedMap.lookup_erase, if_neg h]

/-- The records of the patched timeline trimmed, the others as they were. -/
theorem trimPatched_spec (timelineKey : Text) (isProtected : List Uuid)
    (s : InnerState Uuid RunId Event) : ∃ records enough,
    (∀ fuel, enough ≤ fuel → trimPatched fuel timelineKey isProtected s = some records) ∧
    records.mapValues (fun _ => ()) = s.timelineRecords.mapValues (fun _ => ()) ∧
    (∀ k, k ≠ timelineKey → records.lookup k = s.timelineRecords.lookup k) ∧
    ∀ new, records.lookup timelineKey = some new →
      new.entries.length ≤ maxTimelineRecords ∧ tooLong new = false ∧
        Eviction.Shrunk isProtected.contains (s.recordsOf timelineKey) new := by
  unfold trimPatched
  cases hold : s.timelineRecords.lookup timelineKey with
  | none =>
      refine ⟨s.timelineRecords, 0, fun _ _ => rfl, rfl, fun _ _ => rfl, fun new hnew => ?_⟩
      rw [hold] at hnew
      cases hnew
  -- the records of the timeline are trimmed under the key they had
  | some old =>
      rcases trimRecords_spec isProtected old with ⟨kept, hkept, hcount, hbytes, hshrunk⟩
      refine ⟨s.timelineRecords.insert timelineKey kept, old.entries.length + 1,
        fun fuel hfuel => by simp only [hkept fuel hfuel, Option.map_some], ?_,
        fun k hk => ?_, fun new hnew => ?_⟩
      · rw [SortedMap.mapValues_insert]
        refine SortedMap.insert_of_lookup ?_
        rw [SortedMap.lookup_mapValues, hold]
        rfl
      · rw [SortedMap.lookup_insert, if_neg (Ne.symm hk)]
      · rw [SortedMap.lookup_insert, if_pos rfl] at hnew
        cases hnew
        refine ⟨hcount, hbytes, ?_⟩
        rw [InnerState.recordsOf, hold]
        exact hshrunk

/-- The state a patch leaves, and what decides whether the patched timeline is in it. -/
theorem patchTrimmed_iff {kept : Eviction.Store Text (SortedMap Uuid TimelineRecord) Int}
    (hsize : kept.size ≤ maxTimelineKeys)
    (hothers : ∀ k records, k ≠ timelineKey → kept.items.lookup k = some records →
      s.timelineRecords.lookup k = some records)
    (hpatched : ∀ new, kept.items.lookup timelineKey = some new →
      new.entries.length ≤ maxTimelineRecords ∧ tooLong new = false ∧
        Eviction.Shrunk isProtected.contains (s.recordsOf timelineKey) new) :
    PatchTrimmed timelineKey isProtected s { s with
      timelineRecords := kept.items
      timelineChangeIds := kept.companions.filter fun k _ => (kept.items.lookup k).isSome
      timelineRecordsOrder := kept.order } ↔
    ((s.timelineRecords.lookup timelineKey).isSome = true →
      hasCounter timelineKey s.timelineChangeIds = true →
        kept.items.lookup timelineKey = none → ∀ k, kept.items.lookup k = none) := by
  -- the bounds hold in every case; what is left is whether the patched timeline stays
  refine ⟨fun h => h.patched, fun h => ⟨hsize, ?_, ?_, hothers, ?_, ?_, h⟩⟩
  · rw [InnerState.recordsOf]
    cases hnew : kept.items.lookup timelineKey with
    | none => exact Nat.zero_le _
    | some new => exact (hpatched new hnew).1
  · rw [InnerState.recordsOf]
    cases hnew : kept.items.lookup timelineKey with
    | none => exact .inr (Nat.zero_le 1)
    | some new =>
        have hbytes := (hpatched new hnew).2.1
        unfold tooLong at hbytes
        rw [Bool.not_eq_false', Bool.or_eq_true, decide_eq_true_iff, decide_eq_true_iff] at hbytes
        exact hbytes
  · intro k hk
    rw [SortedMap.lookup_filter] at hk
    cases hrec : kept.items.lookup k with
    | some r => rfl
    | none => simp [hrec] at hk
  · intro id hid hin hnone other hother
    simp only [InnerState.recordsOf] at hnone hother
    cases hnew : kept.items.lookup timelineKey with
    | none =>
        rw [hnew] at hother
        cases hother
    | some new =>
        rw [hnew] at hnone hother
        have hspared := (hpatched new hnew).2.2.last (by simpa using hid) hin hnone hother
        simpa using hspared

/-- A patch leaves what it is to leave unless its timeline is taken in its own place. -/
theorem trimTimelineAfterPatch_spec (timelineKey : Text) (isProtected : List Uuid)
    (s : InnerState Uuid RunId Event) : ∃ after, (∃ enough, ∀ fuel, enough ≤ fuel →
      trimTimelineAfterPatch fuel timelineKey isProtected s = some after) ∧
    (PatchTrimmed timelineKey isProtected s after ↔ PatchedPassesOn timelineKey s) := by
  rcases trimPatched_spec timelineKey isProtected s with
    ⟨records, enough, hrecords, hkeys, hothers, hpatched⟩
  have hforget : (⟨records, s.timelineChangeIds, enqueued timelineKey s.timelineRecordsOrder⟩ :
      Eviction.Store Text (SortedMap Uuid TimelineRecord) Int).mapItems (fun _ => ()) =
        patchQueue timelineKey s := by
    rw [Eviction.Store.mapItems, hkeys]
    rfl
  have hlive : (patchQueue timelineKey s).live timelineKey =
      (s.timelineRecords.lookup timelineKey).isSome := by
    rw [Eviction.Store.live, patchQueue, SortedMap.lookup_mapValues, Option.isSome_map]
  have hsize : (patchQueue timelineKey s).size = s.timelineRecords.entries.length :=
    List.length_map _
  rcases loop_spec (g := hasCounter timelineKey) (t := timelineKey) one_le_keys hasCounter_erase
    hforget with ⟨kept, hloop, hsmall, hfrom, hturn⟩
  refine ⟨_, ⟨max enough ((patchQueue timelineKey s).size + 1), fun fuel hfuel => ?_⟩,
    (patchTrimmed_iff hsmall (fun k old hk hold => (hothers k hk) ▸ hfrom k old hold)
      fun new hnew => hpatched new (hfrom timelineKey new hnew)).trans ?_⟩
  · have hrun := hloop fuel (by omega)
    unfold trimTimelineAfterPatch
    rw [hrecords fuel (by omega), Option.bind_eq_bind, Option.bind_some, hrun]
    rfl
  · refine forall_congr' fun hin => forall_congr' fun hcounter => ?_
    rw [hturn hcounter (hlive.trans hin), hsize]

/-- A patch is trimmed as it is to be unless its timeline is taken in its own place. -/
theorem trimsPatch_iff (timelineKey : Text) (isProtected : List Uuid)
    (s : InnerState Uuid RunId Event) :
    TrimsPatch timelineKey isProtected s ↔ PatchedPassesOn timelineKey s := by
  rcases trimTimelineAfterPatch_spec timelineKey isProtected s with
    ⟨after, ⟨enough, hrun⟩, hiff⟩
  refine ⟨?_, fun h => ⟨after, ⟨enough, hrun⟩, hiff.mpr h⟩⟩
  rintro ⟨after', ⟨enough', hrun'⟩, htrimmed⟩
  have hsame := (hrun (max enough enough') (by omega)).symm.trans
    (hrun' (max enough enough') (by omega))
  exact hiff.mp (Option.some.inj hsame ▸ htrimmed)

/-! ## Events -/

theorem one_le_eventKeys : 1 ≤ maxTimelineEventKeys := by
  unfold maxTimelineEventKeys
  omega

/-- The run's events are drained, the others are as they were. -/
theorem drained_spec (runId : RunId) (s : InnerState Uuid RunId Event) :
    (drained runId s).mapValues (fun _ => ()) = s.timelineEvents.mapValues (fun _ => ()) ∧
    (∀ r, r ≠ runId → (drained runId s).lookup r = s.timelineEvents.lookup r) ∧
    ∀ events, (drained runId s).lookup runId = some events →
      events.length ≤ maxTimelineEvents := by
  unfold drained
  cases hold : s.timelineEvents.lookup runId with
  | none =>
      refine ⟨rfl, fun _ _ => rfl, fun events hevents => ?_⟩
      rw [hold] at hevents
      cases hevents
  | some old =>
      refine ⟨?_, fun r hr => ?_, fun events hevents => ?_⟩
      · rw [SortedMap.mapValues_insert]
        refine SortedMap.insert_of_lookup ?_
        rw [SortedMap.lookup_mapValues, hold]
        rfl
      · rw [SortedMap.lookup_insert, if_neg (Ne.symm hr)]
      · rw [SortedMap.lookup_insert, if_pos rfl] at hevents
        rw [← Option.some.inj hevents, List.length_drop]
        omega

/-- The state that events leave, and what decides whether the active run is in it. -/
theorem eventsTrimmed_iff {kept : Eviction.Store RunId (List Event) Unit}
    (hsize : kept.size ≤ maxTimelineEventKeys)
    (hothers : ∀ r events, r ≠ runId → kept.items.lookup r = some events →
      s.timelineEvents.lookup r = some events)
    (hdrained : ∀ events, kept.items.lookup runId = some events →
      events.length ≤ maxTimelineEvents) :
    EventsTrimmed runId s { s with
      timelineEvents := kept.items
      timelineEventsOrder := kept.order } ↔
    ((s.timelineEvents.lookup runId).isSome = true →
      kept.items.lookup runId = none → ∀ r, kept.items.lookup r = none) :=
  ⟨fun h => h.active, fun h => ⟨hsize, hdrained, hothers, h⟩⟩

/-- Events leave what they are to leave unless their run is taken in its own place. -/
theorem trimTimelineEvents_spec (runId : RunId) (s : InnerState Uuid RunId Event) :
    ∃ after, (∃ enough, ∀ fuel, enough ≤ fuel → trimTimelineEvents fuel runId s = some after) ∧
      (EventsTrimmed runId s after ↔ ActivePassesOn runId s) := by
  rcases drained_spec runId s with ⟨hkeys, hothers, hdrained⟩
  have hforget : (⟨drained runId s, ∅, (eventsQueue runId s).order⟩ :
      Eviction.Store RunId (List Event) Unit).mapItems (fun _ => ()) = eventsQueue runId s := by
    rw [Eviction.Store.mapItems, hkeys]
    rfl
  have hlive : (eventsQueue runId s).live runId = (s.timelineEvents.lookup runId).isSome := by
    rw [Eviction.Store.live, eventsQueue, SortedMap.lookup_mapValues, Option.isSome_map]
  have hsize : (eventsQueue runId s).size = s.timelineEvents.entries.length := List.length_map _
  rcases loop_spec (g := fun _ => true) (t := runId) one_le_eventKeys (fun _ _ _ => rfl) hforget
    with ⟨kept, hloop, hsmall, hfrom, hturn⟩
  refine ⟨_, ⟨(eventsQueue runId s).size + 1, fun fuel hfuel => ?_⟩, (eventsTrimmed_iff hsmall
    (fun r events hr h => (hothers r hr) ▸ hfrom r events h)
    fun events h => hdrained events (hfrom runId events h)).trans ?_⟩
  · have hrun := hloop fuel (by omega)
    unfold trimTimelineEvents
    change (Eviction.loop _ _ _ fuel (⟨drained runId s, ∅, (eventsQueue runId s).order⟩ :
      Eviction.Store RunId (List Event) Unit)).bind _ = _
    rw [hrun]
    rfl
  · refine forall_congr' fun hin => ?_
    rw [hturn rfl (hlive.trans hin), hsize]

/-- Events are trimmed as they are to be unless their run is taken in its own place. -/
theorem trimsEvents_iff (runId : RunId) (s : InnerState Uuid RunId Event) :
    TrimsEvents runId s ↔ ActivePassesOn runId s := by
  rcases trimTimelineEvents_spec runId s with ⟨after, ⟨enough, hrun⟩, hiff⟩
  refine ⟨?_, fun h => ⟨after, ⟨enough, hrun⟩, hiff.mpr h⟩⟩
  rintro ⟨after', ⟨enough', hrun'⟩, htrimmed⟩
  have hsame := (hrun (max enough enough') (by omega)).symm.trans
    (hrun' (max enough enough') (by omega))
  exact hiff.mp (Option.some.inj hsame ▸ htrimmed)

/-! ## Both -/

theorem live_patchQueue (timelineKey : Text) (s : InnerState Uuid RunId Event) (k : Text) :
    (patchQueue timelineKey s).live k = (s.timelineRecords.lookup k).isSome := by
  rw [Eviction.Store.live, patchQueue, SortedMap.lookup_mapValues, Option.isSome_map]

theorem firstKey_patchQueue (timelineKey : Text) (s : InnerState Uuid RunId Event) :
    (patchQueue timelineKey s).firstKey = s.timelineRecords.entries.head?.map (·.1) := by
  unfold Eviction.Store.firstKey patchQueue SortedMap.mapValues
  rw [List.head?_map, Option.map_map]
  rfl

/-- The caps hold after every patch and after all events, and the patched timeline and the
active run stay as long as neither comes up second in the queue in its own turn. -/
theorem trims_iff (timelineKey : Text) (isProtected : List Uuid) (runId : RunId)
    (s : InnerState Uuid RunId Event) :
    (TrimsPatch timelineKey isProtected s ∧ TrimsEvents runId s) ↔
      (PatchedPassesOn timelineKey s ∧ ActivePassesOn runId s) :=
  and_congr (trimsPatch_iff timelineKey isProtected s) (trimsEvents_iff runId s)

/-- A queue that names its keys once is in step with one more key behind them. -/
theorem inStep_enqueued {K V I : Type} [LinearOrder K] [BEq K] [LawfulBEq K] {items : SortedMap K V}
    {companions : SortedMap K I} {order : List K} {k : K}
    (h : Eviction.InStep (⟨items, companions, order⟩ : Eviction.Store K V I))
    (hk : (items.lookup k).isSome = true) :
    Eviction.InStep (⟨items, companions, enqueued k order⟩ : Eviction.Store K V I) := by
  unfold enqueued
  split
  · exact h
  · next hnot =>
    have hnot' : k ∉ order := fun hin => hnot (List.contains_iff_mem.mpr hin)
    refine ⟨List.nodup_append.mpr ⟨h.nodup, List.nodup_singleton k, fun j hj l hl he => ?_⟩,
      fun j hj => ?_⟩
    · rw [List.mem_singleton.mp hl] at he
      exact hnot' (he ▸ hj)
    · rcases List.mem_append.mp hj with hj | hj
      · exact h.live j hj
      · rw [List.mem_singleton.mp hj]
        exact hk

/-- Queues that name what is there, each key once, never take the patched timeline or the
    active run. -/
theorem trims_of_inStep (timelineKey : Text) (isProtected : List Uuid) (runId : RunId)
    (s : InnerState Uuid RunId Event) (hrecords : s.timelineRecordsOrder.Nodup)
    (hlive : ∀ k ∈ s.timelineRecordsOrder, (s.timelineRecords.lookup k).isSome = true)
    (hevents : s.timelineEventsOrder.Nodup)
    (hruns : ∀ r ∈ s.timelineEventsOrder, (s.timelineEvents.lookup r).isSome = true) :
    TrimsPatch timelineKey isProtected s ∧ TrimsEvents runId s := by
  have hforget : ∀ {K V : Type} [LinearOrder K] (m : SortedMap K V) (k : K),
      ((m.mapValues fun _ => ()).lookup k).isSome = (m.lookup k).isSome := by
    intro K V _ m k
    rw [SortedMap.lookup_mapValues, Option.isSome_map]
  refine (trims_iff timelineKey isProtected runId s).mpr ⟨fun hin _ n _ => ?_, fun hin n _ => ?_⟩
  · have hqueue : Eviction.InStep (patchQueue timelineKey s) := by
      unfold patchQueue
      refine inStep_enqueued ?_ ((hforget s.timelineRecords timelineKey).trans hin)
      exact ⟨hrecords, fun k hk => (hforget s.timelineRecords k).trans (hlive k hk)⟩
    exact (hqueue.passes n).not_takesItself
  · have hqueue : Eviction.InStep (eventsQueue runId s) := by
      unfold eventsQueue
      rw [if_pos hin]
      refine inStep_enqueued ?_ ((hforget s.timelineEvents runId).trans hin)
      exact ⟨hevents, fun r hr => (hforget s.timelineEvents r).trans (hruns r hr)⟩
    exact (hqueue.passes n).not_takesItself

/-- Timelines whose names are in the order of their lengths. -/
def timelineName (n : Nat) : Text := List.replicate n 'p' ++ ['/', 't']

theorem timelineName_lt {m n : Nat} (h : m < n) : timelineName m < timelineName n := by
  induction m generalizing n with
  | zero =>
      rcases Nat.exists_eq_add_of_lt h with ⟨k, rfl⟩
      exact List.Lex.rel (by decide)
  | succ m ih =>
      rcases Nat.exists_eq_add_of_lt h with ⟨k, rfl⟩
      rw [show m + 1 + k + 1 = m + k + 1 + 1 by omega]
      exact List.Lex.cons (ih (n := m + k + 1) (by omega))

/-- One timeline more than there are to be, the first of them behind a key that is gone. -/
def crowded : InnerState Nat Nat Unit where
  timelineEvents := ∅
  timelineChangeIds := SortedMap.insert ∅ (timelineName 0) 1
  timelineRecords := ⟨(List.range (maxTimelineKeys + 1)).map fun n => (timelineName n, ∅),
    List.pairwise_map.mpr (List.pairwise_lt_range.imp timelineName_lt)⟩
  timelineRecordsOrder := [['g', 'o', 'n', 'e', '/', 't'], timelineName 0]
  timelineEventsOrder := []

/-- The timeline that was just patched is taken out of the crowd. -/
theorem crowded_not_trimmed :
    crowded.timelineRecords.entries.length = maxTimelineKeys + 1 ∧
      hasCounter (timelineName 0) crowded.timelineChangeIds = true ∧
        ¬ TrimsPatch (timelineName 0) [] crowded := by
  have hentries : crowded.timelineRecords.entries =
      (List.range (maxTimelineKeys + 1)).map fun n => (timelineName n, ∅) := by
    simp only [crowded]
  have hlength : crowded.timelineRecords.entries.length = maxTimelineKeys + 1 := by
    rw [hentries, List.length_map, List.length_range]
  have hfirst : crowded.timelineRecords.entries.head? = some (timelineName 0, ∅) := by
    rw [hentries]
    simp only [List.range_succ_eq_map, List.map_cons, List.head?_cons]
  -- the first key is the one patched
  have hin : crowded.timelineRecords.lookup (timelineName 0) = some ∅ :=
    SortedMap.lookup_of_mem (List.mem_of_mem_head? hfirst)
  -- the counter stands for a timeline without records, which no name of the crowd has
  have hgone : crowded.timelineRecords.lookup ['g', 'o', 'n', 'e', '/', 't'] = none := by
    cases hlookup : crowded.timelineRecords.lookup ['g', 'o', 'n', 'e', '/', 't'] with
    | none => rfl
    | some records =>
        have hmem := SortedMap.mem_of_lookup hlookup
        rw [hentries] at hmem
        rcases List.mem_map.mp hmem with ⟨n, -, hn⟩
        have hname := (Prod.mk.inj hn).1
        cases n with
        | zero => exact absurd hname (by decide)
        | succ n =>
            rw [timelineName, List.replicate_succ, List.cons_append] at hname
            exact absurd (List.cons.inj hname).1 (by decide)
  refine ⟨hlength, rfl, fun h => ?_⟩
  have hpasses := (trimsPatch_iff (timelineName 0) [] crowded).mp h (by rw [hin]; rfl) rfl
  refine hpasses 0 (by rw [hlength]; omega) ⟨?_, ['g', 'o', 'n', 'e', '/', 't'], [], rfl,
    .inr ⟨?_, ?_⟩⟩
  · exact (live_patchQueue _ crowded _).trans (by rw [hin]; rfl)
  · exact (live_patchQueue _ crowded _).trans (by rw [hgone]; rfl)
  · exact (firstKey_patchQueue _ crowded).trans (by rw [hfirst]; rfl)

end MemoryCaps

end Preloop

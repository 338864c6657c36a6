import PreloopControl.CacheDownloads
import PreloopControl.Properties.CacheStaging
import PreloopControl.Properties.CacheStore

/-!
# What a Download Serves

A lookup answers with the entry of the job's namespaces and a location made of what was asked
for. The handler of the location takes the system token only, and resolves the key and the
version once more in the default namespace, where the entries of jobs are not. What it serves
is therefore the entry that was announced only if the default namespace holds the same bytes.

A token names its entry, but once the archive is gone the download falls back to another one
whose key begins with the same text.

## Main definitions

* `DefaultHolds`: What the default namespace has for a query.
* `Downloads`: A GET yields the content.
* `OwnArchive`: The archive that is served is that of the key and the version.

## Theorems

* `cacheLookup_committed`: A lookup finds what the job has committed.
* `committed_upload_found`: What was uploaded to a reservation is what its entry holds, and the
job finds it.
* `requestLocation_hit`: When a location serves a content.
* `defaultHolds_restores`: What the default namespace has is what should be restored.
* `resolveScoped_own_iff`: When a lookup without restore keys finds no other entry.
* `cache_downloads_iff`: All three.
-/

namespace Preloop

variable {sha256 : List UInt8 → List UInt8}

/-- The default namespace has an archive with this content under the key and the version of a
query, or else under the first of the key and the restore keys that any key extends. -/
def DefaultHolds (archives : CacheArchives sha256) (q : CacheQuery) (content : List UInt8) : Prop :=
  ValidLookup (q.identity defaultScope) (parseRestoreKeys q.keys) ∧
    ((∃ d a, exactProbe archives.store (q.identity defaultScope) = some (d, a) ∧
        archives.bytes d.name = content) ∨
      exactProbe archives.store (q.identity defaultScope) = none ∧
        ∃ e, ((q.identity defaultScope).key :: parseRestoreKeys q.keys).findSome? (fun pre =>
            findPrefixScoped archives.store.dirs [] pre q.version.1) = some e ∧
          archives.bytes e.path = content)

/-- A GET of a location yields a content. -/
def Downloads (arrives : Text → Option CacheQuery) (bearer : CacheBearer) (location : Text)
    (now : Nat) (archives : CacheArchives sha256) (content : List UInt8) : Prop :=
  ∃ entry, requestLocation arrives bearer location now archives = .hit entry content

/-- The archive that a lookup finds is that of the identity itself. -/
def OwnArchive (store : CacheStore sha256) (id : CacheIdentity) (e : CacheEntry) : Prop :=
  ∃ d ∈ store.dirs, d.name = e.path ∧ d.archive.isSome = true ∧ d.Holds sha256 id

/-! ## Downloads -/

theorem ofStore_getScoped {archives : CacheArchives sha256} {id : CacheIdentity}
    {restoreKeys : List Text} {now : Nat} {e : CacheEntry} {content : List UInt8} :
    DownloadAnswer.ofStore (archives.getScoped id restoreKeys now) = .hit e content ↔
      resolveScoped archives.store id restoreKeys = .ok (some e) ∧
        archives.bytes e.path = content := by
  unfold CacheArchives.getScoped CacheStore.lookupScoped
  cases resolveScoped archives.store id restoreKeys with
  | error error => exact iff_of_false nofun fun h => by cases h.1
  | ok found =>
      cases found with
      | none => exact iff_of_false nofun fun h => by cases h.1
      | some found =>
          constructor
          · intro h
            cases h
            exact ⟨rfl, rfl⟩
          · rintro ⟨h, rfl⟩
            cases h
            rfl

/-- A location serves a content to the system, if the default namespace holds it for the
query that arrives. -/
theorem requestLocation_hit {arrives : Text → Option CacheQuery} {bearer : CacheBearer}
    {location : Text} {m : Nat} {archives : CacheArchives sha256} {content : List UInt8} :
    Downloads arrives bearer location m archives content ↔
      bearer = .system ∧ ∃ q, arrives location = some q ∧ DefaultHolds archives q content := by
  unfold Downloads requestLocation
  cases arrives location with
  | none => exact iff_of_false nofun fun h => by rcases h.2 with ⟨q, hq, -⟩; cases hq
  | some q =>
      cases bearer with
      | job job => exact iff_of_false nofun fun h => by cases h.1
      | system =>
          simp only [cacheGet, ofStore_getScoped, true_and, Option.some.injEq, exists_eq_left']
          unfold DefaultHolds
          -- a query that is not valid finds nothing, any other looks in the default namespace
          rcases resolveScoped_cases archives.store (q.identity defaultScope)
            (parseRestoreKeys q.keys) with ⟨hvalid, heq⟩ | ⟨hinvalid, e, heq⟩
          · rw [heq]
            simp only [hvalid, true_and]
            cases hprobe : exactProbe archives.store (q.identity defaultScope) with
            | none =>
                simp only [reduceCtorEq, false_and, exists_false, false_or, true_and,
                  Except.ok.injEq]
                exact Iff.rfl
            | some found =>
                rcases found with ⟨d, a⟩
                simp only [Except.ok.injEq, Option.some.injEq, exists_eq_left', reduceCtorEq,
                  false_and, or_false, Prod.mk.injEq]
                exact ⟨fun h => ⟨d, a, ⟨rfl, rfl⟩, h⟩, fun ⟨_, _, ⟨rfl, rfl⟩, h⟩ => h⟩
          · rw [heq]
            exact iff_of_false (fun ⟨_, h, _⟩ => by cases h) fun h => hinvalid h.1

/-- Where nothing clashes with the query, what the default namespace has for it is the content of
the entry that should be restored. -/
theorem defaultHolds_restores (hsha : Function.Injective sha256)
    {archives : CacheArchives sha256} {q : CacheQuery} {content : List UInt8}
    (hno : ¬ Clashing archives.store (q.identity defaultScope))
    (h : DefaultHolds archives q content) :
    ∃ e, Restores archives.store (q.identity defaultScope) (parseRestoreKeys q.keys) (some e) ∧
      archives.bytes e.path = content := by
  have hrestores := (resolve_restores_iff hsha (parseRestoreKeys q.keys)).mpr hno
  rcases h with ⟨-, ⟨d, a, hprobe, rfl⟩ | ⟨hprobe, e, he, rfl⟩⟩
  · rw [hprobe] at hrestores
    exact ⟨_, hrestores, rfl⟩
  · rw [hprobe] at hrestores
    have hfound : ((q.identity defaultScope).key :: parseRestoreKeys q.keys).findSome?
        (fun pre => findPrefixScoped archives.store.dirs (q.identity defaultScope).scope pre
          (q.identity defaultScope).version) = some e := he
    rw [hfound] at hrestores
    exact ⟨e, hrestores, rfl⟩

/-! ## Lookups of a job -/

/-- A fold whose steps only add at the end. -/
theorem prefix_foldl {A B : Type} {f : List B → A → List B} (h : ∀ acc a, acc <+: f acc a)
    (l : List A) (acc : List B) : acc <+: l.foldl f acc := by
  induction l generalizing acc with
  | nil => exact List.prefix_rfl
  | cons a l ih => exact (h acc a).trans (ih (f acc a))

/-- A job looks into the namespace it writes to first. -/
theorem scopes_cons (job : JobCacheContext) : ∃ rest, job.scopes = job.ownScope :: rest := by
  have hstep : [job.ownScope] <+: job.scopes := by
    refine prefix_foldl (fun scopes candidate => ?_) _ _
    simp only
    split_ifs
    · exact List.prefix_append _ _
    · exact List.prefix_rfl
  rcases hstep with ⟨rest, hrest⟩
  exact ⟨rest, hrest.symm⟩

theorem not_mem_evictLoop (quota : Nat) (path : Text) (entries : List (Text × Archive))
    (total : Nat) : path ∉ evictLoop quota (some path) entries total := by
  induction entries generalizing total with
  | nil => exact List.not_mem_nil
  | cons entry entries ih =>
      rcases entry with ⟨name, archive⟩
      unfold evictLoop
      by_cases hfits : total ≤ quota
      · rw [if_pos hfits]
        exact List.not_mem_nil
      · rw [if_neg hfits]
        by_cases hprotected : some path = some name
        · rw [if_pos hprotected]
          exact ih total
        · rw [if_neg hprotected]
          rintro (_ | ⟨_, hmem⟩)
          · exact hprotected rfl
          · exact ih _ hmem

/-- What was committed is found under its identity, whatever the quota. -/
theorem exactProbe_putScoped {store store' : CacheStore sha256} {id : CacheIdentity}
    {size now : Nat} {e : CacheEntry} (h : store.putScoped id size now = .ok (store', e)) :
    validKey id.key = true ∧ e.path = entryIdScoped sha256 id ∧
      ∃ d, exactProbe store' id = some (d, ⟨size, now⟩) ∧ d.name = e.path := by
  unfold CacheStore.putScoped at h
  by_cases hvalid : validKey id.key = true
  · rw [validateKey_ok hvalid] at h
    by_cases hnew : ∀ d ∈ store.dirs, d.name ≠ entryIdScoped sha256 id
    · simp only [dif_pos hnew, bind, Except.bind, pure, Except.pure] at h
      cases h
      refine ⟨hvalid, rfl, ⟨entryIdScoped sha256 id, some id.scope, some id.key, some id.version,
        some now, some ⟨size, now⟩, some now⟩, ?_, rfl⟩
      unfold exactProbe
      rw [Option.or_eq_some_iff]
      left
      rw [archiveAt_eq_some]
      refine ⟨List.mem_filter.mpr ⟨List.mem_cons_self, ?_⟩, rfl, rfl⟩
      have hkept := not_mem_evictLoop store.quotaBytes (entryIdScoped sha256 id)
      simp only [Option.isNone_some, Bool.false_and, Bool.not_false, Bool.true_and,
        Bool.not_eq_true']
      exact Bool.eq_false_iff.mpr fun hmem => hkept _ _ (List.contains_iff_mem.mp hmem)
    · simp only [dif_neg hnew, bind, Except.bind] at h
      cases h
  · rcases validateKey_error (k := "Cache") hvalid with ⟨error, herror⟩
    rw [herror] at h
    cases h

/-- A lookup finds what the job has committed, and answers with its key. -/
theorem cacheLookup_committed {archives archives' : CacheArchives sha256} {job : JobCacheContext}
    {q : CacheQuery} {file : List UInt8} {n m : Nat} {e : CacheEntry} (hkeys : q.keys = none)
    (h : archives.commitFileScoped (q.identity job.ownScope) file n = .ok (archives', e)) :
    archives'.bytes e.path = file ∧
      ∃ after, cacheLookup (.job job) q m archives' =
        .ok (after, some ⟨q.cacheKey.1, q.archiveLocation⟩) := by
  unfold CacheArchives.commitFileScoped at h
  cases hput : archives.store.putScoped (q.identity job.ownScope) file.length n with
  | error error =>
      rw [hput] at h
      cases h
  | ok result =>
      rcases result with ⟨store', entry⟩
      rw [hput] at h
      cases h
      -- the commit put the entry under the name that the probe of the job's own scope looks at
      rcases exactProbe_putScoped hput with ⟨hvalid, hpath, d, hprobe, hname⟩
      refine ⟨if_pos rfl, ?_⟩
      -- that scope comes first, so no other is asked
      rcases scopes_cons job with ⟨rest, hrest⟩
      have hresolve : resolveScoped store' (q.identity job.ownScope) [] =
          .ok (some ⟨q.cacheKey.1, q.version.1, d.name, file.length⟩) := by
        rcases resolveScoped_cases store' (q.identity job.ownScope) [] with
          ⟨-, heq⟩ | ⟨hinvalid, -⟩
        · rw [heq, hprobe]
          rfl
        · exact absurd ⟨hvalid, Nat.zero_le _, fun _ h => absurd h List.not_mem_nil⟩ hinvalid
      have hkeys' : parseRestoreKeys q.keys = [] := by
        rw [hkeys]
        rfl
      unfold cacheLookup
      change ∃ after, (lookupScopes q m job.scopes _).map _ = _
      rw [hrest, lookupScopes, hkeys']
      simp only [CacheArchives.getScoped, CacheStore.lookupScoped, hresolve, Except.map, bind,
        Except.bind, Option.map_some, Option.isSome_some, if_true, pure, Except.pure]
      exact ⟨_, rfl⟩

/-- A commit that succeeds has put the staging file into the store. -/
theorem cacheCommit_ok {archives archives' : CacheArchives sha256} {caller : CacheCaller}
    {size : Option Nat} {id : CacheIdentity} {now : Nat} {s s' : Staging} {e : CacheEntry}
    (h : cacheCommit caller size id now s archives = some (s', .ok (archives', e))) :
    archives.commitFileScoped id s.content now = .ok (archives', e) ∧
      s.pending.isSome = true ∧ s.invalidated = false := by
  unfold cacheCommit at h
  cases hstore : archives.commitFileScoped id s.content now with
  | error error =>
      rw [hstore] at h
      rcases Option.map_eq_some_iff.mp h with ⟨⟨s₁, result⟩, -, heq⟩
      cases result <;> cases heq
  | ok committed =>
      rw [hstore] at h
      rcases Option.map_eq_some_iff.mp h with ⟨⟨s₁, result⟩, hcommit, heq⟩
      -- a commit that succeeds met a reservation that was still valid
      cases result with
      | error error => cases heq
      | ok archive =>
          cases heq
          refine ⟨rfl, ?_⟩
          unfold commitStaged Staging.lookup at hcommit
          cases hpending : s.pending with
          | none =>
              rw [hpending] at hcommit
              cases hcommit
          | some pending =>
              refine ⟨rfl, Bool.eq_false_iff.mpr fun hinvalid => ?_⟩
              rw [hpending, hinvalid] at hcommit
              simp only [if_true] at hcommit
              split at hcommit <;> cases hcommit

/-- The entry of a commit holds the bodies of the uploads that were accepted, one after the
other, and a lookup of the job finds it. -/
theorem committed_upload_found {jobBackendId : Text} {jobOthers : Nat} {past : List StagingNote}
    {s s' : Staging} {archives archives' : CacheArchives sha256} {caller : CacheCaller}
    {size : Option Nat} {job : JobCacheContext} {q : CacheQuery} {n m : Nat} {e : CacheEntry}
    (hrun : staging.Run (fun _ _ _ => True) (.reserved jobBackendId jobOthers) past s)
    (hidle : s.active = none) (hkeys : q.keys = none)
    (h : cacheCommit caller size (q.identity job.ownScope) n s archives =
      some (s', .ok (archives', e))) :
    archives'.bytes e.path = (acceptedBodies past).flatten ∧
      ∃ after, cacheLookup (.job job) q m archives' =
        .ok (after, some ⟨q.cacheKey.1, q.archiveLocation⟩) := by
  have haccounted : StagingAccounted past s :=
    hrun.invariant (accounted_reserved _ _) fun hI _ he => (hI.advance he).1
  rcases cacheCommit_ok h with ⟨hstore, hpending, hvalid⟩
  rcases cacheLookup_committed hkeys hstore with ⟨hbytes, hlookup⟩
  exact ⟨hbytes.trans (haccounted.idle hpending hidle hvalid).1, hlookup⟩

/-! ## Download tokens -/

/-- A lookup without restore keys finds no archive of another entry, exactly if none clashes
and either the entry's own archive is there or no other key of the version extends the key. -/
theorem resolveScoped_own_iff (hsha : Function.Injective sha256) {store : CacheStore sha256}
    {id : CacheIdentity} (hvalid : validKey id.key = true) :
    (∀ e, resolveScoped store id [] = .ok (some e) → OwnArchive store id e) ↔
      ¬ Clashing store id ∧ ((∃ d a, Offers store id d id a) ∨
        ∀ d u a, Offers store id d u a → ¬ id.key <+: u.key) := by
  have hresolve : resolveScoped store id [] = .ok (((exactProbe store id).map fun p =>
      ⟨id.key, id.version, p.1.name, p.2.size⟩).or
        (findPrefixScoped store.dirs id.scope id.key id.version)) := by
    rcases resolveScoped_cases store id [] with ⟨-, heq⟩ | ⟨hinvalid, -⟩
    · rw [heq]
      cases exactProbe store id with
      | some found => rfl
      | none =>
          simp only [List.findSome?_cons, List.findSome?_nil]
          cases findPrefixScoped store.dirs id.scope id.key id.version <;> rfl
    · exact absurd ⟨hvalid, Nat.zero_le _, fun _ h => absurd h List.not_mem_nil⟩ hinvalid
  rw [hresolve, ← exactProbe_holds_iff hsha]
  cases hprobe : exactProbe store id with
  | some found =>
      rw [Option.map_some, Option.some_or]
      rcases found with ⟨d, a⟩
      have hmem := exactProbe_mem hprobe
      constructor
      · intro h
        rcases h _ rfl with ⟨d', hd', hname, -, hholds⟩
        -- the archive at the path is the one that was probed
        have hsame : d' = d := List.inj_on_of_nodup_map store.distinct hd' hmem.1 hname
        rw [hsame] at hholds
        refine ⟨fun d'' a'' heq => ?_, .inl ⟨d, a, ⟨hmem.1, hmem.2, hholds, rfl, rfl⟩⟩⟩
        cases heq
        exact hholds
      · rintro ⟨hown, -⟩ e he
        cases he
        exact ⟨d, hmem.1, rfl, by rw [hmem.2]; rfl, hown d a rfl⟩
  | none =>
      have hnone : ∀ d a, ¬ Offers store id d id a := fun d a ho => by
        have hsome := exactProbe_isSome ho.mem ho.archive ho.holds
        rw [hprobe] at hsome
        cases hsome
      simp only [Option.map_none, Option.none_or, Except.ok.injEq, reduceCtorEq, false_imp_iff,
        implies_true, true_and]
      constructor
      · intro h
        refine .inr ((findPrefixScoped_none id.key).mp ?_)
        cases hfound : findPrefixScoped store.dirs id.scope id.key id.version with
        | none => rfl
        | some e =>
            -- what is found would have to be the entry itself, which the probe has not found
            rcases h e hfound with ⟨d, hd, -, harchive, hholds⟩
            rcases Option.isSome_iff_exists.mp harchive with ⟨a, ha⟩
            exact absurd ⟨hd, ha, hholds, rfl, rfl⟩ (hnone d a)
      · rintro (⟨d, a, ho⟩ | hnothing) e he
        · exact absurd ho (hnone d a)
        · rw [(findPrefixScoped_none id.key).mpr hnothing] at he
          cases he

/-! ## Every download -/

/-- What the two APIs serve, for every store a download may meet. The location of a lookup
serves the bytes of the entry that was announced to the system only, and only if the default
namespace holds the same bytes for the query that arrives; this decides the round trip of a
job too. A token serves no other entry, unless the store has an archive that clashes, or the
entry's own archive is gone and another key extends its key. -/
theorem cache_downloads_iff (hsha : Function.Injective sha256)
    (arrives : Text → Option CacheQuery) (bearer : CacheBearer) (n m : Nat)
    (later : CacheArchives sha256) :
    (∀ {archives archives' : CacheArchives sha256} {job : JobCacheContext} {q : CacheQuery}
        {file : List UInt8} {committed : Nat} {e : CacheEntry}, q.keys = none →
      archives.commitFileScoped (q.identity job.ownScope) file committed = .ok (archives', e) →
      ((∃ after answer, cacheLookup (.job job) q n archives' = .ok (after, some answer) ∧
          answer.cacheKey = q.cacheKey.1 ∧
          Downloads arrives bearer answer.archiveLocation m later file) ↔
        bearer = .system ∧ ∃ q', arrives q.archiveLocation = some q' ∧
          DefaultHolds later q' file)) ∧
    (∀ {archives after : CacheArchives sha256} {job : JobCacheContext} {q : CacheQuery}
        {e : CacheEntry} {found : List UInt8},
      lookupScopes q n job.scopes archives = .ok (after, some (e, found)) →
      ∃ answer, cacheLookup (.job job) q n archives = .ok (after, some answer) ∧
        answer.cacheKey = e.key ∧ ∀ content,
          (Downloads arrives bearer answer.archiveLocation m later content ↔
            bearer = .system ∧ ∃ q', arrives q.archiveLocation = some q' ∧
              DefaultHolds later q' content)) ∧
    ∀ (key version : CacheText), validKey key.1 = true →
      ((∀ e content, blobGetCache key version m later = .hit e content →
          OwnArchive later.store ⟨[], key.1, version.1, by decide, key.2, version.2⟩ e) ↔
        ¬ Clashing later.store ⟨[], key.1, version.1, by decide, key.2, version.2⟩ ∧
          ((∃ d a, Offers later.store ⟨[], key.1, version.1, by decide, key.2, version.2⟩ d
              ⟨[], key.1, version.1, by decide, key.2, version.2⟩ a) ∨
            ∀ d u a, Offers later.store ⟨[], key.1, version.1, by decide, key.2, version.2⟩ d u a →
              ¬ key.1 <+: u.key)) := by
  refine ⟨fun hkeys hcommit => ?_, fun {_ _ job q e _} hfound => ?_,
    fun key version hvalid => ?_⟩
  -- the answer of the first lookup carries the location, and the location alone is served
  · rcases cacheLookup_committed (m := n) hkeys hcommit with ⟨-, after, hlookup⟩
    refine Iff.trans ?_ (requestLocation_hit (m := m))
    constructor
    · rintro ⟨after', answer, hanswer, -, hdownload⟩
      rw [hlookup] at hanswer
      cases hanswer
      exact hdownload
    · exact fun hdownload => ⟨after, _, hlookup, rfl, hdownload⟩
  -- whatever scope it was found in, the answer names the query and not the entry
  · refine ⟨⟨e.key, q.archiveLocation⟩, ?_, rfl, fun _ => requestLocation_hit⟩
    change (lookupScopes q n job.scopes _).map _ = _
    rw [hfound]
    rfl
  -- a token looks in the default namespace too, under its own key
  · rw [← resolveScoped_own_iff hsha hvalid]
    unfold blobGetCache
    simp only [ofStore_getScoped]
    exact ⟨fun h e he => h e _ ⟨he, rfl⟩, fun h e _ he => h e he.1⟩

/-- A job on the default branch. -/
def mainJob : JobCacheContext where
  repository := "o/r".toList
  gitRef := "refs/heads/main".toList
  defaultBranchRef := "refs/heads/main".toList
  baseRef := none
  fits := by decide

/-- Its query for a key and a version. -/
def depsQuery : CacheQuery := ⟨some ⟨"deps".toList, by decide⟩, none, ⟨"v1".toList, by decide⟩⟩

/-- A store that keeps digests as they are, without entries. -/
def emptyArchives : CacheArchives (fun bytes => bytes) := ⟨.fresh _ 10, fun _ => []⟩

/-- The store after the job has committed an archive of three bytes. -/
def mainArchives : CacheArchives (fun bytes => bytes) :=
  match emptyArchives.commitFileScoped (depsQuery.identity mainJob.ownScope) [1, 2, 3] 1 with
  | .ok (archives, _) => archives
  | .error _ => emptyArchives

/-- The default namespace with an archive of the same bytes under the query. -/
def defaultArchives : CacheArchives (fun bytes => bytes) :=
  ⟨(CacheStore.fresh (fun bytes => bytes) 10).add (depsQuery.identity defaultScope) 3 1
      (fun _ hd => nomatch hd),
    fun _ => [1, 2, 3]⟩

theorem defaultArchives_not_clashing :
    ¬ Clashing defaultArchives.store (depsQuery.identity defaultScope) := by
  rintro ⟨d, hd, -, u, ⟨hkey, hversion, -, hscope⟩, -, hclash⟩
  cases List.mem_singleton.mp hd
  have hsame : u.scope = [] := by
    rcases hscope with ⟨hscope, -⟩ | ⟨hscope, -⟩
    · exact (Option.some.inj hscope).symm
    · cases hscope
  exact hclash.ne (CacheIdentity.ext hsame (Option.some.inj hkey).symm
    (Option.some.inj hversion).symm)

/-- What the job committed is served to the system from the same bytes of the default
    namespace, and to the job not at all; the token of the entry serves the entry. -/
theorem cache_downloads_of_id :
    (∀ e content, blobGetCache ⟨"deps".toList, by decide⟩ ⟨"v1".toList, by decide⟩ 1
        defaultArchives = .hit e content →
      OwnArchive defaultArchives.store (depsQuery.identity defaultScope) e) ∧
    ∃ archives e, emptyArchives.commitFileScoped (depsQuery.identity mainJob.ownScope) [1, 2, 3]
        1 = .ok (archives, e) ∧
      (∃ after answer, cacheLookup (.job mainJob) depsQuery 2 archives = .ok (after, some answer) ∧
        answer.cacheKey = "deps".toList ∧
          Downloads (fun _ => some depsQuery) .system answer.archiveLocation 3 defaultArchives
            [1, 2, 3]) ∧
      ¬ ∃ after answer, cacheLookup (.job mainJob) depsQuery 2 archives =
          .ok (after, some answer) ∧ answer.cacheKey = "deps".toList ∧
        Downloads (fun _ => some depsQuery) (.job mainJob) answer.archiveLocation 3
          defaultArchives [1, 2, 3] := by
  have hid : Function.Injective fun bytes : List UInt8 => bytes := Function.injective_id
  have hcommit : emptyArchives.commitFileScoped (depsQuery.identity mainJob.ownScope) [1, 2, 3]
      1 = .ok (mainArchives, _) := rfl
  refine ⟨?_, _, _, hcommit, ?_, fun h => ?_⟩
  · refine ((cache_downloads_iff hid (fun _ => some depsQuery) .system 0 1 defaultArchives).2.2
      ⟨"deps".toList, by decide⟩ ⟨"v1".toList, by decide⟩ (by decide)).mpr
        ⟨defaultArchives_not_clashing, .inl ⟨_, _, List.mem_cons_self, rfl, ?_, rfl, rfl⟩⟩
    exact ⟨rfl, rfl, rfl, .inl ⟨rfl, rfl⟩⟩
  · refine ((cache_downloads_iff hid (fun _ => some depsQuery) .system 2 3
      defaultArchives).1 rfl hcommit).mpr ⟨rfl, depsQuery, rfl, ?_⟩
    exact ⟨⟨by decide, by decide, by decide⟩, .inl ⟨_, _, rfl, rfl⟩⟩
  · have hsystem := ((cache_downloads_iff hid (fun _ => some depsQuery) (.job mainJob) 2 3
      defaultArchives).1 rfl hcommit).mp h
    cases hsystem.1

/-- What a job has committed is not found by the location of its lookup, even for the system. -/
theorem committed_archive_missed :
    ∃ archives e, emptyArchives.commitFileScoped (depsQuery.identity mainJob.ownScope) [1, 2, 3]
        1 = .ok (archives, e) ∧
      ¬ ∃ after answer, cacheLookup (.job mainJob) depsQuery 2 archives =
          .ok (after, some answer) ∧ answer.cacheKey = "deps".toList ∧
        Downloads (fun _ => some depsQuery) .system answer.archiveLocation 3 archives
          [1, 2, 3] := by
  have hcommit : emptyArchives.commitFileScoped (depsQuery.identity mainJob.ownScope) [1, 2, 3]
      1 = .ok (mainArchives, _) := rfl
  refine ⟨_, _, hcommit, ?_⟩
  rintro ⟨after, answer, -, -, entry, h⟩
  have hmiss : cacheGet .system depsQuery 3 mainArchives = .miss := by rfl
  cases hmiss.symm.trans h

end Preloop

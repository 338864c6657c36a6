import PreloopControl.Lib.Bytes

/-!
# The Cache Store

Archives of the Actions cache in a directory (`preloop-cache`). Every entry is a directory
of its own, named by a digest of its namespace, key and version, with these three and the
time of its creation in files beside the archive. An older layout named entries by their
keys in hexadecimal.

The digest is a parameter. What is left out is I/O that fails; the order in which a
directory lists its children is that of the list.

## Main definitions

* `entryIdScoped`, `legacyPathFor`: The names of an entry's directory.
* `EntryDir`: What is on disk.
* `CacheStore`: The directories, those with an archive in their place.
* `resolveScoped`, `findPrefixScoped`: The lookup of an entry.
* `CacheStore.enforceQuotaExcept`: A quota pass.
* `CacheStore.putScoped`: A commit.
-/

namespace Preloop

open Bytes

/-! ## Keys -/

/-- `CacheError`, less I/O. -/
inductive CacheError
  | invalidKey (message : String)
  | alreadyExists (key version : Text)
deriving DecidableEq, Repr

/-- The length of a JavaScript string. -/
def utf16Len (t : Text) : Nat := (t.map fun c => if c.toNat < 0x10000 then 1 else 2).sum

/-- The test of `validate_key`. -/
def validKey (key : Text) : Bool := !(key = [] || 512 < utf16Len key || key.any (· = ','))

/-- `validate_key`. -/
def validateKey (key : Text) (kind : String) : Except CacheError Unit :=
  if validKey key then .ok ()
  else .error (.invalidKey (kind ++
    " key must be non-empty, at most 512 UTF-16 code units, and contain no commas"))

/-- Namespace, key and version of an entry. No string is larger than `isize::MAX` bytes. -/
@[ext]
structure CacheIdentity where
  scope : Text
  key : Text
  version : Text
  scopeFits : scope.utf8Len < 2 ^ 63
  keyFits : key.utf8Len < 2 ^ 63
  versionFits : version.utf8Len < 2 ^ 63

section Names

variable (sha256 : List UInt8 → List UInt8)

/-- What `entry_id` digests. -/
def plainPreimage (key version : Text) : List UInt8 := utf8 key ++ 0 :: utf8 version

/-- `entry_id`. -/
def entryId (key version : Text) : Text := hex (sha256 (plainPreimage key version))

/-- In front of what `entry_id_scoped` digests. -/
def namespaceTag : List UInt8 := utf8 "preloop-cache-namespace-v1\x00".toList

/-- What `entry_id_scoped` digests under a namespace. -/
def scopedPreimage (scope key version : Text) : List UInt8 :=
  namespaceTag ++ (frame scope ++ (frame key ++ frame version))

/-- `entry_id_scoped`. -/
def entryIdScoped (id : CacheIdentity) : Text :=
  if id.scope = [] then entryId sha256 id.key id.version
  else hex (sha256 (scopedPreimage id.scope id.key id.version))

/-- `MAX_NAME_BYTES`. -/
def maxNameBytes : Nat := 255

/-- The directory of `legacy_path_for`; longer names were never written. -/
def legacyPathFor (key version : Text) : Option Text :=
  let component := hex (utf8 key) ++ '-' :: ((hex (sha256 (utf8 version))).take 16 ++
    '-' :: hex (sha256 (plainPreimage key version)))
  if maxNameBytes < component.utf8Len then none else some component

end Names

/-! ## Directories -/

/-- `archive.tzst`: its size and when it was last used. -/
structure Archive where
  size : Nat
  modified : Nat
deriving DecidableEq, Repr

/-- A directory of the store. Of `created_at` the number is kept, if it holds one, and of
    the time stamps of its files the newest, if it has files. -/
structure EntryDir where
  name : Text
  scopeFile : Option Text
  keyFile : Option Text
  versionFile : Option Text
  createdAt : Option Nat
  archive : Option Archive
  newestFile : Option Nat
deriving DecidableEq, Repr

/-- `CacheEntry`, with the directory of its archive as the path. -/
structure CacheEntry where
  key : Text
  version : Text
  path : Text
  size : Nat
deriving DecidableEq, Repr

/-- The directory holds the entry of an identity: its files say so, and its name is the one
    that either layout gives it. -/
def EntryDir.Holds (sha256 : List UInt8 → List UInt8) (d : EntryDir) (id : CacheIdentity) : Prop :=
  d.keyFile = some id.key ∧ d.versionFile = some id.version ∧ d.createdAt.isSome ∧
    (d.scopeFile = some id.scope ∧ d.name = entryIdScoped sha256 id ∨
      d.scopeFile = none ∧ id.scope = [] ∧ legacyPathFor sha256 id.key id.version = some d.name)

/-- The store: directories with different names, and every archive in the directory of the
    entry it was committed for. -/
structure CacheStore (sha256 : List UInt8 → List UInt8) where
  dirs : List EntryDir
  quotaBytes : Nat
  distinct : (dirs.map EntryDir.name).Nodup
  placed : ∀ d ∈ dirs, d.archive.isSome → ∃ id, d.Holds sha256 id

/-! ## Lookups -/

/-- The archive in the directory of a name. -/
def archiveAt (dirs : List EntryDir) (name : Text) : Option (EntryDir × Archive) :=
  (dirs.find? fun d => d.name = name).bind fun d => d.archive.map fun a => (d, a)

/-- What a directory offers to a lookup by prefix, with its time of creation. -/
def prefixMatch (scope pre version : Text) (d : EntryDir) : Option (CacheEntry × Nat) :=
  match d.archive, d.keyFile, d.versionFile, d.createdAt with
  | some archive, some key, some storedVersion, some createdAt =>
    if d.scopeFile.getD [] ≠ scope || storedVersion ≠ version || !pre.isPrefixOf key then none
    else some (⟨key, version, d.name, archive.size⟩, createdAt)
  | _, _, _, _ => none

/-- The newer of two matches, the first one if they are of one time. -/
def newer (newest : Option (CacheEntry × Nat)) (found : CacheEntry × Nat) :
    Option (CacheEntry × Nat) :=
  match newest with
  | none => some found
  | some current => if current.2 < found.2 then some found else some current

/-- `find_prefix_scoped`. -/
def findPrefixScoped (dirs : List EntryDir) (scope pre version : Text) : Option CacheEntry :=
  ((dirs.filterMap (prefixMatch scope pre version)).foldl newer none).map (·.1)

section Store

variable {sha256 : List UInt8 → List UInt8}

/-- The probe of `resolve_scoped` for the key itself, in both layouts. -/
def exactProbe (store : CacheStore sha256) (id : CacheIdentity) : Option (EntryDir × Archive) :=
  (archiveAt store.dirs (entryIdScoped sha256 id)).or <|
    if id.scope = [] then (legacyPathFor sha256 id.key id.version).bind (archiveAt store.dirs)
    else none

/-- `resolve_scoped`. -/
def resolveScoped (store : CacheStore sha256) (id : CacheIdentity) (restoreKeys : List Text) :
    Except CacheError (Option CacheEntry) := do
  validateKey id.key "Cache"
  if 10 < restoreKeys.length then
    throw (.invalidKey ("at most 10 restore keys are supported, got " ++
      toString restoreKeys.length))
  restoreKeys.forM fun key => validateKey key "Restore"
  match exactProbe store id with
  | some (d, archive) => return some ⟨id.key, id.version, d.name, archive.size⟩
  | none =>
    return (id.key :: restoreKeys).findSome? fun pre =>
      findPrefixScoped store.dirs id.scope pre id.version

/-! ## Changes -/

/-- A store without entries. -/
def CacheStore.fresh (sha256 : List UInt8 → List UInt8) (quotaBytes : Nat) :
    CacheStore sha256 where
  dirs := []
  quotaBytes := quotaBytes
  distinct := List.nodup_nil
  placed d hd := by cases hd

/-- Directories that are left keep their places. -/
def CacheStore.keep (store : CacheStore sha256) (p : EntryDir → Bool) : CacheStore sha256 where
  dirs := store.dirs.filter p
  quotaBytes := store.quotaBytes
  distinct := store.distinct.sublist (List.filter_sublist.map _)
  placed d hd := store.placed d (List.mem_of_mem_filter hd)

/-- The archive was used now. -/
def EntryDir.touch (now : Nat) (d : EntryDir) : EntryDir :=
  { d with archive := d.archive.map fun a => { a with modified := now } }

/-- `touch_file`, on the archive of a directory. -/
def CacheStore.touch (store : CacheStore sha256) (path : Text) (now : Nat) :
    CacheStore sha256 where
  dirs := store.dirs.map fun d => if d.name = path then d.touch now else d
  quotaBytes := store.quotaBytes
  distinct := by
    have hname : (store.dirs.map fun d => if d.name = path then d.touch now else d).map
        EntryDir.name = store.dirs.map EntryDir.name := by
      rw [List.map_map]
      refine List.map_congr_left fun d _ => ?_
      simp only [Function.comp]
      split_ifs <;> rfl
    rw [hname]
    exact store.distinct
  placed d hd harchive := by
    rcases List.mem_map.mp hd with ⟨d', hd', rfl⟩
    by_cases hpath : d'.name = path
    · simp only [if_pos hpath, EntryDir.touch, Option.isSome_map] at harchive ⊢
      exact store.placed d' hd' harchive
    · simp only [if_neg hpath] at harchive ⊢
      exact store.placed d' hd' harchive

/-- `lookup_scoped`. -/
def CacheStore.lookupScoped (store : CacheStore sha256) (id : CacheIdentity)
    (restoreKeys : List Text) (now : Nat) :
    Except CacheError (CacheStore sha256 × Option CacheEntry) :=
  (resolveScoped store id restoreKeys).map fun entry =>
    (entry.elim store fun e => store.touch e.path now, entry)

/-- `STALE_WRITE_MAX_AGE`, in nanoseconds. -/
def staleWriteMaxAge : Nat := 3600 * 1000000000

/-- The test of `reap_stale_incomplete`: a directory without files is always debris. -/
def EntryDir.stale (now : Nat) (d : EntryDir) : Bool :=
  d.newestFile.all fun newest => newest ≤ now && staleWriteMaxAge < now - newest

/-- The loop of `enforce_quota_except`: what is evicted, in order. -/
def evictLoop (quota : Nat) (protect : Option Text) : List (Text × Archive) → Nat → List Text
  | [], _ => []
  | (path, archive) :: entries, total =>
    if total ≤ quota then []
    else if protect = some path then evictLoop quota protect entries total
    else path :: evictLoop quota protect entries (total - archive.size)

/-- The archives of a store, as they are listed. -/
def CacheStore.archives (store : CacheStore sha256) : List (Text × Archive) :=
  store.dirs.filterMap fun d => d.archive.map fun a => (d.name, a)

/-- The evictions of a quota pass, in order: the oldest use first. -/
def CacheStore.evictions (store : CacheStore sha256) (protect : Option Text) : List Text :=
  evictLoop store.quotaBytes protect
    (store.archives.insertionSort fun a b => a.2.modified ≤ b.2.modified)
    (store.archives.map fun a => a.2.size).sum

/-- `enforce_quota_except`. -/
def CacheStore.enforceQuotaExcept (store : CacheStore sha256) (protect : Option Text)
    (now : Nat) : CacheStore sha256 :=
  store.keep fun d =>
    !(d.archive.isNone && d.stale now) && !(store.evictions protect).contains d.name

/-- A new directory, with its archive. -/
def CacheStore.add (store : CacheStore sha256) (id : CacheIdentity) (size now : Nat)
    (h : ∀ d ∈ store.dirs, d.name ≠ entryIdScoped sha256 id) : CacheStore sha256 where
  dirs := ⟨entryIdScoped sha256 id, some id.scope, some id.key, some id.version, some now,
    some ⟨size, now⟩, some now⟩ :: store.dirs
  quotaBytes := store.quotaBytes
  distinct := by
    refine List.nodup_cons.mpr ⟨fun hmem => ?_, store.distinct⟩
    rcases List.mem_map.mp hmem with ⟨d, hd, hname⟩
    exact h d hd hname
  placed d hd harchive := by
    rcases List.mem_cons.mp hd with rfl | hd
    · exact ⟨id, rfl, rfl, rfl, .inl ⟨rfl, rfl⟩⟩
    · exact store.placed d hd harchive

/-- `put_scoped` and `commit_file_scoped`. -/
def CacheStore.putScoped (store : CacheStore sha256) (id : CacheIdentity) (size now : Nat) :
    Except CacheError (CacheStore sha256 × CacheEntry) := do
  validateKey id.key "Cache"
  if h : ∀ d ∈ store.dirs, d.name ≠ entryIdScoped sha256 id then
    let path := entryIdScoped sha256 id
    return ((store.add id size now h).enforceQuotaExcept (some path) now,
      ⟨id.key, id.version, path, size⟩)
  else throw (.alreadyExists id.key id.version)

end Store

end Preloop

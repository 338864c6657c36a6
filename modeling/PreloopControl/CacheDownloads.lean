import PreloopControl.CacheStaging
import PreloopControl.CacheStore

/-!
# Cache Commits, Lookups and Downloads

The ways of an archive into the cache and out of it. A reservation is committed with what was
uploaded to it. The legacy API (`cache_artifacts.rs`) looks an entry up
in the namespaces a job may read and answers with a location, whose handler looks it up once
more; the second one (`blob_store.rs`) serves the key and the version a download token was
minted for.

How the location arrives at the handler, through the URL of the client and the query of the
server, is a parameter of a request.

## Main definitions

* `CacheArchives`: A store with the bytes of its archives.
* `commitFileScoped`, `getScoped`: Its entries with their bytes.
* `cacheCommit`: The commit of a reservation.
* `JobCacheContext.scopes`, `cacheLookup`: The lookup of a job.
* `cacheGet`, `requestLocation`: The download from the location.
* `blobGetCache`: The download with a token.
-/

namespace Preloop

/-- A string of the program: none is larger than `isize::MAX` bytes. -/
abbrev CacheText := {t : Text // t.utf8Len < 2 ^ 63}

/-- The store and the bytes of the archive in each directory. -/
structure CacheArchives (sha256 : List UInt8 → List UInt8) where
  store : CacheStore sha256
  bytes : Text → List UInt8

/-- `CacheQuery`. -/
structure CacheQuery where
  key : Option CacheText
  keys : Option Text
  version : CacheText

theorem nil_fits : Text.utf8Len [] < 2 ^ 63 := by decide

/-- The key of a query, empty if it has none. -/
def CacheQuery.cacheKey (q : CacheQuery) : CacheText := q.key.getD ⟨[], nil_fits⟩

/-- `parse_restore_keys`. -/
def parseRestoreKeys (keys : Option Text) : List Text :=
  ((keys.getD []).splitOn ',').filter (· ≠ [])

/-- What a query asks for in a namespace. -/
def CacheQuery.identity (q : CacheQuery) (scope : CacheText) : CacheIdentity :=
  ⟨scope.1, q.cacheKey.1, q.version.1, scope.2, q.cacheKey.2, q.version.2⟩

/-- The namespace of the unscoped functions of the store. -/
def defaultScope : CacheText := ⟨[], nil_fits⟩

namespace CacheArchives

variable {sha256 : List UInt8 → List UInt8}

/-- `commit_file_scoped`, of a staged file. -/
def commitFileScoped (archives : CacheArchives sha256) (id : CacheIdentity) (file : List UInt8)
    (now : Nat) : Except CacheError (CacheArchives sha256 × CacheEntry) :=
  (archives.store.putScoped id file.length now).map fun result =>
    (⟨result.1, fun path => if path = result.2.path then file else archives.bytes path⟩, result.2)

/-- `get_scoped`. -/
def getScoped (archives : CacheArchives sha256) (id : CacheIdentity) (restoreKeys : List Text)
    (now : Nat) : Except CacheError (CacheArchives sha256 × Option (CacheEntry × List UInt8)) :=
  (archives.store.lookupScoped id restoreKeys now).map fun result =>
    ({ archives with store := result.1 }, result.2.map fun e => (e, archives.bytes e.path))

end CacheArchives

/-! ## The commit -/

/-- The texts of the store's errors. -/
def CacheError.text : CacheError → Text
  | .invalidKey message => "invalid cache key: ".toList ++ message.toList
  | .alreadyExists key version =>
    "cache `".toList ++ key ++ "` with version `".toList ++ version ++ "` already exists".toList

/-- What a store's error is answered. -/
def StagingError.ofCache (e : CacheError) : StagingError := .api (.badRequest e.text)

/-- `cache_commit`, with the store: the staging file becomes the archive of the entry. -/
def cacheCommit {sha256 : List UInt8 → List UInt8} (caller : CacheCaller) (size : Option Nat)
    (id : CacheIdentity) (now : Nat) (s : Staging) (archives : CacheArchives sha256) :
    Option (Staging × Except StagingError (CacheArchives sha256 × CacheEntry)) :=
  match archives.commitFileScoped id s.content now with
  | .error e =>
    (commitStaged caller size (some (.ofCache e)) s).map fun result =>
      (result.1, result.2.bind fun _ => .error (.ofCache e))
  | .ok committed =>
    (commitStaged caller size none s).map fun result =>
      (result.1, result.2.map fun _ => committed)

/-! ## The lookup -/

/-- `JobCacheContext`: the repository of a job and the refs it may read. -/
structure JobCacheContext where
  repository : Text
  gitRef : Text
  defaultBranchRef : Text
  baseRef : Option Text
  fits : ∀ ref ∈ gitRef :: (baseRef.toList ++ [defaultBranchRef]),
    Text.utf8Len (repository ++ '\x00' :: ref) < 2 ^ 63

/-- `ref_scoped_namespace`, of a job. -/
def JobCacheContext.namespaceOf (job : JobCacheContext)
    (ref : {r // r ∈ job.gitRef :: (job.baseRef.toList ++ [job.defaultBranchRef])}) : CacheText :=
  ⟨job.repository ++ '\x00' :: ref.1, job.fits ref.1 ref.2⟩

/-- The namespace a job writes to. -/
def JobCacheContext.ownScope (job : JobCacheContext) : CacheText :=
  job.namespaceOf ⟨job.gitRef, List.mem_cons_self⟩

/-- The namespaces a job reads: its own, then those of its base and of the default branch. -/
def JobCacheContext.scopes (job : JobCacheContext) : List CacheText :=
  (job.baseRef.toList ++ [job.defaultBranchRef]).attach.foldl
    (fun scopes candidate =>
      let scope := job.namespaceOf ⟨candidate.1, List.mem_cons_of_mem _ candidate.2⟩
      if candidate.1 ≠ job.gitRef ∧ scope ∉ scopes then scopes ++ [scope] else scopes)
    [job.ownScope]

/-- Who sends a request: the holder of the system token, or a job with its own. -/
inductive CacheBearer
  | system
  | job (context : JobCacheContext)

def CacheBearer.scopes : CacheBearer → List CacheText
  | .system => [defaultScope]
  | .job context => context.scopes

/-- The answer of a lookup that finds an entry. -/
structure LookupAnswer where
  cacheKey : Text
  archiveLocation : Text
deriving DecidableEq, Repr

/-- The location of a query's archive: the key and the version that were asked for. -/
def CacheQuery.archiveLocation (q : CacheQuery) : Text :=
  "/api/v1/cache?key=".toList ++ q.cacheKey.1 ++ "&version=".toList ++ q.version.1

variable {sha256 : List UInt8 → List UInt8}

/-- The loop of `cache_lookup`: the first namespace with an entry. -/
def lookupScopes (q : CacheQuery) (now : Nat) :
    List CacheText → CacheArchives sha256 →
      Except CacheError (CacheArchives sha256 × Option (CacheEntry × List UInt8))
  | [], archives => .ok (archives, none)
  | scope :: scopes, archives => do
    let (archives, response) ←
      archives.getScoped (q.identity scope) (parseRestoreKeys q.keys) now
    if response.isSome then return (archives, response)
    lookupScopes q now scopes archives

/-- `cache_lookup`. -/
def cacheLookup (bearer : CacheBearer) (q : CacheQuery) (now : Nat)
    (archives : CacheArchives sha256) :
    Except CacheError (CacheArchives sha256 × Option LookupAnswer) :=
  (lookupScopes q now bearer.scopes archives).map fun result =>
    (result.1, result.2.map fun found => ⟨found.1.key, q.archiveLocation⟩)

/-! ## The downloads -/

/-- What a download is answered. -/
inductive DownloadAnswer
  | unauthorized
  | badRequest
  | refused (error : CacheError)
  | miss
  | hit (entry : CacheEntry) (content : List UInt8)
deriving DecidableEq, Repr

/-- What the store's answer comes to. -/
def DownloadAnswer.ofStore :
    Except CacheError (CacheArchives sha256 × Option (CacheEntry × List UInt8)) → DownloadAnswer
  | .error e => .refused e
  | .ok (_, none) => .miss
  | .ok (_, some (entry, content)) => .hit entry content

/-- `cache_get`, behind `require_native_bearer`. -/
def cacheGet (bearer : CacheBearer) (q : CacheQuery) (now : Nat)
    (archives : CacheArchives sha256) : DownloadAnswer :=
  match bearer with
  | .job _ => .unauthorized
  | .system =>
    .ofStore (archives.getScoped (q.identity defaultScope) (parseRestoreKeys q.keys) now)

/-- A GET of a location. -/
def requestLocation (arrives : Text → Option CacheQuery) (bearer : CacheBearer) (location : Text)
    (now : Nat) (archives : CacheArchives sha256) : DownloadAnswer :=
  match arrives location with
  | none => .badRequest
  | some q => cacheGet bearer q now archives

/-- The branch of `blob_get` for a cache token, with the key and the version of its claims. -/
def blobGetCache (key version : CacheText) (now : Nat) (archives : CacheArchives sha256) :
    DownloadAnswer :=
  .ofStore (archives.getScoped ⟨[], key.1, version.1, nil_fits, key.2, version.2⟩ [] now)

end Preloop

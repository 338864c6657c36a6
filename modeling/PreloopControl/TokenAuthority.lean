import PreloopControl.Lib.SortedMap
import PreloopControl.Lib.Text
import PreloopControl.Schema

/-!
# Token Authority

What a job's token may do. The trust tier of a run decides over the declared permissions
(`events/trust_tier.rs`), and the operator's ceiling caps what is asked of GitHub in the
job's name (`token_ceiling.rs`). Levels are the words of the workflow file, compared
without their case, and a word nobody knows ranks above all others.

## Main definitions

* `jobAuthorization`: The policy for a tier and the declared permissions.
* `applyCeiling`: Every scope capped.
* `tokenAuthority`: Both in the order a claim applies them.
-/

namespace Preloop

/-! ## The policy of a tier -/

/-- `TrustTier::is_fork_restricted`. -/
def TrustTier.isForkRestricted : TrustTier → Bool
  | .untrustedForkPullRequest | .untrusted => true
  | _ => false

/-- `TrustTier::allows_secrets`. -/
def TrustTier.allowsSecrets (tier : TrustTier) : Bool := !tier.isForkRestricted

/-- Scopes with the levels that are granted. -/
abbrev Permissions := SortedMap Text Text

/-- `DEFAULT_TOKEN_PERMISSIONS`. -/
def defaultPermissions : Permissions :=
  SortedMap.ofList [("contents".toList, "read".toList), ("metadata".toList, "read".toList),
    ("packages".toList, "read".toList)]

/-- `effective_token_permissions`: an empty declaration withholds everything. -/
def effectiveTokenPermissions (declared : Option Permissions) : Permissions :=
  declared.getD defaultPermissions

/-- `ACTIONS_ONLY_SCOPES`. -/
def actionsOnlyScopes : List Text := ["id-token".toList, "models".toList]

/-- The level of a scope in the fork profile. -/
def forkLevel (level : Text) : Text :=
  if Text.eqIgnoreAsciiCase level "none".toList then "none".toList else "read".toList

/-- `fork_permission_set`. -/
def forkPermissionSet (forkRestricted : Bool) (effective : Permissions) : Permissions :=
  if forkRestricted then
    effective.filterMap fun scope level =>
      if scope = "id-token".toList then none else some (forkLevel level)
  else effective

/-- `JobAuthorization`. -/
structure JobAuthorization where
  allowsSecrets : Bool
  tokenPermissions : Permissions
  appPermissions : Permissions
  idTokenGranted : Bool
  forkRestricted : Bool
deriving DecidableEq

/-- `job_authorization`: a run without a tier is trusted. -/
def jobAuthorization (tier : Option TrustTier) (declared : Option Permissions)
    (declaredIdTokenGranted : Bool) : JobAuthorization :=
  let forkRestricted := tier.any TrustTier.isForkRestricted
  let tokenPermissions := forkPermissionSet forkRestricted (effectiveTokenPermissions declared)
  { allowsSecrets := (tier.map TrustTier.allowsSecrets).getD true
    tokenPermissions
    appPermissions := tokenPermissions.filter fun scope _ => !actionsOnlyScopes.contains scope
    idTokenGranted := declaredIdTokenGranted && !forkRestricted
    forkRestricted }

/-! ## The ceiling -/

/-- `PermissionLevel`. -/
inductive PermissionLevel
  | none
  | read
  | write
  | admin
deriving DecidableEq, Repr

/-- `PermissionLevel::rank`. -/
def PermissionLevel.rank : PermissionLevel → Nat
  | .none => 0
  | .read => 1
  | .write => 2
  | .admin => 3

/-- `PermissionLevel::as_str`. -/
def PermissionLevel.asStr : PermissionLevel → Text
  | .none => "none".toList
  | .read => "read".toList
  | .write => "write".toList
  | .admin => "admin".toList

/-- `TokenPermissionsCeiling`. -/
structure TokenPermissionsCeiling where
  default : PermissionLevel
  scopes : SortedMap Text PermissionLevel
  allowCreateApprovePr : Bool

/-- `declared_rank`: an unknown level ranks above every known one. -/
def declaredRank (level : Text) : Nat :=
  let lower := level.map Char.toLower
  if lower = "none".toList then 0
  else if lower = "read".toList then 1
  else if lower = "write".toList then 2
  else if lower = "admin".toList then 3
  else 255

/-- `CeilingClampDetail`. -/
structure CeilingClampDetail where
  scope : Text
  requested : Text
  granted : Text
deriving DecidableEq, Repr

/-- `CeilingOutcome`. -/
structure CeilingOutcome where
  permissions : Permissions
  clamped : List CeilingClampDetail
deriving DecidableEq

/-- The cap of a scope: its own or the default, and no more than `read` on pull requests
    unless tokens may create and approve them. -/
def TokenPermissionsCeiling.cap (ceiling : TokenPermissionsCeiling) (scope : Text) :
    PermissionLevel :=
  let cap := (ceiling.scopes.lookup scope).getD ceiling.default
  if scope = "pull-requests".toList && !ceiling.allowCreateApprovePr then
    if PermissionLevel.read.rank < cap.rank then .read else cap
  else cap

/-- What the ceiling makes of one scope. -/
def TokenPermissionsCeiling.level (ceiling : TokenPermissionsCeiling) (scope level : Text) :
    Text :=
  if (ceiling.cap scope).rank < declaredRank level then (ceiling.cap scope).asStr else level

/-- `apply_ceiling`. -/
def applyCeiling (ceiling : Option TokenPermissionsCeiling) (requested : Permissions) :
    CeilingOutcome :=
  match ceiling with
  | none => ⟨requested, []⟩
  | some ceiling =>
    { permissions := requested.filterMap fun scope level => some (ceiling.level scope level)
      clamped := requested.entries.filterMap fun (scope, level) =>
        if (ceiling.cap scope).rank < declaredRank level then
          some ⟨scope, level, (ceiling.cap scope).asStr⟩
        else none }

/-- The policy of a job, and what is asked of GitHub when its token is minted. -/
def tokenAuthority (tier : Option TrustTier) (ceiling : Option TokenPermissionsCeiling)
    (declared : Option Permissions) (declaredIdTokenGranted : Bool) :
    JobAuthorization × CeilingOutcome :=
  let policy := jobAuthorization tier declared declaredIdTokenGranted
  (policy, applyCeiling ceiling policy.appPermissions)

end Preloop

import PreloopControl.TokenAuthority

/-!
# A Token's Authority Never Grows

The tier's policy and the ceiling treat every scope by itself: `grantedLevel` is what they
make of one, and the maps are that, scope by scope. It grants no more than what was
declared, than the cap, and than `read` to a fork, and granting it once more changes
nothing.

Levels are compared by their rank, as in the source. No step of the chain raises a rank, so the
bounds hold at each step, and a chain that has been through once has nothing left to lower.

## Main definitions

* `grantedLevel`: What the policy and the ceiling make of one scope.

## Theorems

* `lookup_permissions`: The chain, scope by scope.
* `grantedLevel_le`, `grantedLevel_fixed`: It bounds a scope, and is idempotent.
* `token_authority_never_grows`: The bounds and the idempotence of the whole chain.
-/

namespace Preloop

/-! ## One scope -/

/-- The level the policy hands to the ceiling. -/
def policyLevel (forkRestricted : Bool) (level : Text) : Text :=
  if forkRestricted then forkLevel level else level

/-- What the policy and the ceiling make of a scope. -/
def grantedLevel (forkRestricted : Bool) (ceiling : Option TokenPermissionsCeiling)
    (scope level : Text) : Option Text :=
  if actionsOnlyScopes.contains scope then none
  else
    match ceiling with
    | none => some (policyLevel forkRestricted level)
    | some ceiling => some (ceiling.level scope (policyLevel forkRestricted level))

theorem declaredRank_none : declaredRank "none".toList = 0 := by decide

theorem declaredRank_read : declaredRank "read".toList = 1 := by decide

/-- The words in their order, and above them whatever is none of them. -/
theorem declaredRank_ordered (level : Text) :
    (declaredRank "none".toList < declaredRank "read".toList ∧
      declaredRank "read".toList < declaredRank "write".toList ∧
      declaredRank "write".toList < declaredRank "admin".toList) ∧
    (declaredRank "admin".toList < declaredRank level ↔ level.map Char.toLower ∉
      ["none".toList, "read".toList, "write".toList, "admin".toList]) := by
  refine ⟨by decide, ?_⟩
  have hadmin : declaredRank "admin".toList = 3 := by decide
  rw [hadmin, declaredRank]
  simp only [List.mem_cons, List.not_mem_nil, or_false, not_or]
  split_ifs with hnone hread hwrite hadmin' <;> simp_all

theorem declaredRank_asStr (level : PermissionLevel) : declaredRank level.asStr = level.rank := by
  cases level <;> decide

/-- Only the word `none` ranks lowest. -/
theorem one_le_declaredRank {level : Text}
    (h : Text.eqIgnoreAsciiCase level "none".toList = false) : 1 ≤ declaredRank level := by
  have hne : level.map Char.toLower ≠ "none".toList := by
    intro heq
    rw [Text.eqIgnoreAsciiCase, decide_eq_false_iff_not] at h
    exact h (heq.trans (by decide))
  unfold declaredRank
  simp only
  rw [if_neg hne]
  split_ifs <;> omega

theorem forkLevel_le (level : Text) :
    declaredRank (forkLevel level) ≤ declaredRank level ∧ declaredRank (forkLevel level) ≤ 1 := by
  unfold forkLevel
  by_cases h : Text.eqIgnoreAsciiCase level "none".toList = true
  · rw [if_pos h, declaredRank_none]
    exact ⟨Nat.zero_le _, Nat.zero_le _⟩
  · rw [if_neg h, declaredRank_read]
    exact ⟨one_le_declaredRank (Bool.eq_false_iff.mpr h), Nat.le_refl _⟩

theorem policyLevel_le (forkRestricted : Bool) (level : Text) :
    declaredRank (policyLevel forkRestricted level) ≤ declaredRank level := by
  cases forkRestricted with
  | false => exact Nat.le_refl _
  | true => exact (forkLevel_le level).1

namespace TokenPermissionsCeiling

variable (ceiling : TokenPermissionsCeiling) (scope level : Text)

theorem level_le : declaredRank (ceiling.level scope level) ≤ declaredRank level ∧
    declaredRank (ceiling.level scope level) ≤ (ceiling.cap scope).rank := by
  unfold TokenPermissionsCeiling.level
  by_cases h : (ceiling.cap scope).rank < declaredRank level
  · rw [if_pos h, declaredRank_asStr]
    exact ⟨Nat.le_of_lt h, Nat.le_refl _⟩
  · rw [if_neg h]
    exact ⟨Nat.le_refl _, Nat.le_of_not_lt h⟩

/-- Below its cap a level stays. -/
theorem level_of_le (h : declaredRank level ≤ (ceiling.cap scope).rank) :
    ceiling.level scope level = level := if_neg (Nat.not_lt.mpr h)

theorem cap_le : (ceiling.cap scope).rank ≤
    ((ceiling.scopes.lookup scope).getD ceiling.default).rank := by
  unfold cap
  simp only
  split_ifs with hscope hlt
  · exact Nat.le_of_lt hlt
  · exact Nat.le_refl _
  · exact Nat.le_refl _

end TokenPermissionsCeiling

/-- The words the fork profile knows stay as they are. -/
theorem forkLevel_asStr {level : PermissionLevel} (h : level.rank ≤ 1) :
    forkLevel level.asStr = level.asStr := by
  cases level with
  | none => decide
  | read => decide
  | write => exact absurd h (by decide)
  | admin => exact absurd h (by decide)

theorem forkLevel_cases (level : Text) :
    forkLevel level = "none".toList ∨ forkLevel level = "read".toList := by
  unfold forkLevel
  split_ifs
  · exact .inl rfl
  · exact .inr rfl

theorem forkLevel_forkLevel (level : Text) : forkLevel (forkLevel level) = forkLevel level := by
  rcases forkLevel_cases level with h | h <;> rw [h] <;> decide

section Scope

variable {forkRestricted : Bool} {ceiling : Option TokenPermissionsCeiling} {scope level : Text}

/-- A scope is granted no more than was declared, than its cap, and than `read` to a fork. -/
theorem grantedLevel_le {granted : Text}
    (h : grantedLevel forkRestricted ceiling scope level = some granted) :
    declaredRank granted ≤ declaredRank level ∧
      (∀ c, ceiling = some c → declaredRank granted ≤ (c.cap scope).rank) ∧
      (forkRestricted = true → declaredRank granted ≤ PermissionLevel.read.rank) := by
  unfold grantedLevel at h
  by_cases honly : actionsOnlyScopes.contains scope = true
  · rw [if_pos honly] at h
    cases h
  rw [if_neg honly] at h
  have hpolicy := policyLevel_le forkRestricted level
  have hfork : forkRestricted = true →
      declaredRank (policyLevel forkRestricted level) ≤ PermissionLevel.read.rank := by
    rintro rfl
    exact (forkLevel_le level).2
  cases ceiling with
  | none =>
      cases h
      exact ⟨hpolicy, by rintro c ⟨⟩, hfork⟩
  | some c =>
      cases h
      have hc := c.level_le scope (policyLevel forkRestricted level)
      refine ⟨hc.1.trans hpolicy, ?_, fun hf => hc.1.trans (hfork hf)⟩
      rintro c' h
      cases h
      exact hc.2

/-- The level a ceiling leaves to a fork is one of the fork profile. -/
theorem forkLevel_capped (c : TokenPermissionsCeiling) :
    forkLevel (c.level scope (forkLevel level)) = c.level scope (forkLevel level) := by
  unfold TokenPermissionsCeiling.level
  by_cases h : (c.cap scope).rank < declaredRank (forkLevel level)
  · rw [if_pos h]
    have hread := (forkLevel_le level).2
    exact forkLevel_asStr (by omega)
  · rw [if_neg h]
    exact forkLevel_forkLevel level

/-- What was granted is granted again. -/
theorem grantedLevel_fixed {granted : Text}
    (h : grantedLevel forkRestricted ceiling scope level = some granted) :
    grantedLevel forkRestricted ceiling scope granted = some granted := by
  unfold grantedLevel at h ⊢
  by_cases honly : actionsOnlyScopes.contains scope = true
  · rw [if_pos honly] at h
    cases h
  rw [if_neg honly] at h ⊢
  cases ceiling with
  | none =>
      cases h
      cases forkRestricted with
      | false => rfl
      | true => exact congrArg some (forkLevel_forkLevel level)
  | some c =>
      cases h
      have hc := c.level_le scope (policyLevel forkRestricted level)
      have hpolicy : policyLevel forkRestricted
          (c.level scope (policyLevel forkRestricted level)) =
          c.level scope (policyLevel forkRestricted level) := by
        cases forkRestricted with
        | false => rfl
        | true => exact forkLevel_capped c
      simp only
      rw [hpolicy, c.level_of_le _ _ hc.2]

end Scope

/-! ## The whole chain -/

section Chain

variable (tier : Option TrustTier) (ceiling : Option TokenPermissionsCeiling)
  (declared : Option Permissions) (granted : Bool)

/-- The permissions the policy hands on, scope by scope. -/
theorem lookup_appPermissions (scope : Text) :
    (jobAuthorization tier declared granted).appPermissions.lookup scope =
      if actionsOnlyScopes.contains scope then none
      else ((effectiveTokenPermissions declared).lookup scope).map
        (policyLevel (tier.any TrustTier.isForkRestricted)) := by
  have hlookup : (jobAuthorization tier declared granted).appPermissions.lookup scope =
      ((jobAuthorization tier declared granted).tokenPermissions.lookup scope).filter
        fun _ => !actionsOnlyScopes.contains scope := SortedMap.lookup_filter ..
  rw [hlookup]
  by_cases honly : actionsOnlyScopes.contains scope = true
  · rw [if_pos honly, honly]
    cases (jobAuthorization tier declared granted).tokenPermissions.lookup scope <;> rfl
  rw [if_neg honly, Bool.eq_false_iff.mpr honly]
  have hall : ∀ o : Option Text, (o.filter fun _ => !false) = o := by
    intro o
    cases o <;> rfl
  rw [hall]
  change (forkPermissionSet (tier.any TrustTier.isForkRestricted) _).lookup scope = _
  unfold forkPermissionSet
  cases tier.any TrustTier.isForkRestricted with
  | false =>
      rw [if_neg Bool.false_ne_true]
      cases (effectiveTokenPermissions declared).lookup scope <;> rfl
  | true =>
      -- `id-token` is left out here and is an Actions scope
      have hid : scope ≠ "id-token".toList := by
        rintro rfl
        exact honly (by decide)
      rw [if_pos rfl, SortedMap.lookup_filterMap]
      cases (effectiveTokenPermissions declared).lookup scope with
      | none => rfl
      | some level =>
          rw [Option.bind_some, if_neg hid]
          rfl

/-- The ceiling on what the policy hands on. -/
theorem bind_policyLevel (scope : Text) :
    (((jobAuthorization tier declared granted).appPermissions.lookup scope).bind fun level =>
      match ceiling with
      | none => some level
      | some c => some (c.level scope level)) =
      ((effectiveTokenPermissions declared).lookup scope).bind
        (grantedLevel (tier.any TrustTier.isForkRestricted) ceiling scope) := by
  rw [lookup_appPermissions]
  cases (effectiveTokenPermissions declared).lookup scope with
  | none => split_ifs <;> rfl
  | some level =>
      unfold grantedLevel
      simp only [Option.bind_some, Option.map_some]
      split_ifs
      · rfl
      · cases ceiling <;> rfl

/-- The permissions that are asked of GitHub, scope by scope. -/
theorem lookup_permissions (scope : Text) :
    (tokenAuthority tier ceiling declared granted).2.permissions.lookup scope =
      ((effectiveTokenPermissions declared).lookup scope).bind
        (grantedLevel (tier.any TrustTier.isForkRestricted) ceiling scope) := by
  refine Eq.trans ?_ (bind_policyLevel tier ceiling declared granted scope)
  unfold tokenAuthority applyCeiling
  cases ceiling with
  | none =>
      simp only
      cases (jobAuthorization tier declared granted).appPermissions.lookup scope <;> rfl
  | some c => exact SortedMap.lookup_filterMap ..

/-- Where no level is above its cap, the ceiling reports nothing. -/
theorem clamped_eq_nil {ceiling : Option TokenPermissionsCeiling} {requested : Permissions}
    (h : ∀ c, ceiling = some c → ∀ scope level, requested.lookup scope = some level →
      declaredRank level ≤ (c.cap scope).rank) : (applyCeiling ceiling requested).clamped = [] := by
  unfold applyCeiling
  cases ceiling with
  | none => rfl
  | some c =>
      refine List.filterMap_eq_nil_iff.mpr ?_
      rintro ⟨scope, level⟩ hmem
      have hle := h c rfl scope level (SortedMap.lookup_of_mem hmem)
      exact if_neg (Nat.not_lt.mpr hle)

/-- The policy passes on what was granted before. -/
theorem appPermissions_again :
    (jobAuthorization tier (some (tokenAuthority tier ceiling declared granted).2.permissions)
      (tokenAuthority tier ceiling declared granted).1.idTokenGranted).appPermissions =
      (tokenAuthority tier ceiling declared granted).2.permissions := by
  -- without a ceiling, the policy is all there is to the chain
  refine SortedMap.ext_lookup fun scope => ?_
  have hpolicy := lookup_permissions tier none
    (some (tokenAuthority tier ceiling declared granted).2.permissions)
    (tokenAuthority tier ceiling declared granted).1.idTokenGranted scope
  refine hpolicy.trans ?_
  simp only [effectiveTokenPermissions, Option.getD_some]
  cases hlookup : (tokenAuthority tier ceiling declared granted).2.permissions.lookup scope with
  | none => rfl
  | some level =>
      rw [lookup_permissions] at hlookup
      rcases Option.bind_eq_some_iff.mp hlookup with ⟨given, -, hgranted⟩
      rw [Option.bind_some]
      unfold grantedLevel at hgranted ⊢
      by_cases honly : actionsOnlyScopes.contains scope = true
      · rw [if_pos honly] at hgranted
        cases hgranted
      rw [if_neg honly] at hgranted ⊢
      cases hfork : tier.any TrustTier.isForkRestricted with
      | false => rfl
      | true =>
          rw [hfork] at hgranted
          cases ceiling with
          | none =>
              cases hgranted
              exact congrArg some (forkLevel_forkLevel given)
          | some c =>
              cases hgranted
              exact congrArg some (forkLevel_capped c)

end Chain

/-- Token authority never grows. What is asked of GitHub for a job has no scope that was
    not declared or defaulted, and at no scope more than was declared, than the ceiling's
    cap, and than `read` for a fork; `id-token` is not among it and is not granted to a
    fork; and the chain, applied to its own result, changes nothing. -/
theorem token_authority_never_grows (tier : Option TrustTier)
    (ceiling : Option TokenPermissionsCeiling) (declared : Option Permissions) (granted : Bool) :
    let authority := tokenAuthority tier ceiling declared granted
    let again := tokenAuthority tier ceiling (some authority.2.permissions)
      authority.1.idTokenGranted
    let restricted := tier.any TrustTier.isForkRestricted
    (∀ scope level, authority.2.permissions.lookup scope = some level →
      ∃ given, (effectiveTokenPermissions declared).lookup scope = some given ∧
        declaredRank level ≤ declaredRank given ∧
        (∀ c, ceiling = some c → declaredRank level ≤ (c.cap scope).rank ∧
          (c.cap scope).rank ≤ ((c.scopes.lookup scope).getD c.default).rank) ∧
        (restricted = true → declaredRank level ≤ PermissionLevel.read.rank)) ∧
    authority.1.appPermissions.lookup "id-token".toList = none ∧
    authority.2.permissions.lookup "id-token".toList = none ∧
    (restricted = true → authority.1.idTokenGranted = false ∧
      authority.1.tokenPermissions.lookup "id-token".toList = none) ∧
    again.1.appPermissions = authority.2.permissions ∧
    again.2 = ⟨authority.2.permissions, []⟩ ∧
    again.1.idTokenGranted = authority.1.idTokenGranted := by
  intro authority again restricted
  have hid : actionsOnlyScopes.contains "id-token".toList = true := by decide
  -- whatever is granted at a scope comes from the level given there
  have hbound : ∀ scope level, authority.2.permissions.lookup scope = some level →
      ∃ given, (effectiveTokenPermissions declared).lookup scope = some given ∧
        grantedLevel restricted ceiling scope given = some level := by
    intro scope level h
    exact Option.bind_eq_some_iff.mp ((lookup_permissions ..).symm.trans h)
  have happ : again.1.appPermissions = authority.2.permissions :=
    appPermissions_again tier ceiling declared granted
  refine ⟨?_, ?_, ?_, ?_, happ, ?_, ?_⟩
  · intro scope level h
    rcases hbound scope level h with ⟨given, hgiven, hlevel⟩
    rcases grantedLevel_le hlevel with ⟨hdeclared, hcap, hfork⟩
    exact ⟨given, hgiven, hdeclared, fun c hc => ⟨hcap c hc, c.cap_le scope⟩, hfork⟩
  · exact (lookup_appPermissions tier declared granted _).trans (if_pos hid)
  · refine Option.eq_none_iff_forall_ne_some.mpr fun level h => ?_
    rcases hbound _ _ h with ⟨given, -, hlevel⟩
    unfold grantedLevel at hlevel
    rw [if_pos hid] at hlevel
    cases hlevel
  · intro hfork
    -- a fork keeps neither the flag nor the scope
    refine ⟨?_, ?_⟩
    · change (granted && !restricted) = false
      rw [hfork]
      exact Bool.and_false granted
    · change (forkPermissionSet restricted _).lookup _ = none
      rw [forkPermissionSet, if_pos hfork, SortedMap.lookup_filterMap]
      cases (effectiveTokenPermissions declared).lookup "id-token".toList <;> simp
  · -- nothing is above its cap a second time
    have hclamped : again.2.clamped = [] := by
      refine clamped_eq_nil fun c hc scope level h => ?_
      have hfirst := (congrArg (SortedMap.lookup · scope) happ).symm.trans h
      rcases hbound scope level hfirst with ⟨given, -, hlevel⟩
      exact (grantedLevel_le hlevel).2.1 c hc
    -- and no level changes a second time
    have hsame : again.2.permissions = authority.2.permissions := by
      refine SortedMap.ext_lookup fun scope => ?_
      rw [lookup_permissions]
      simp only [effectiveTokenPermissions, Option.getD_some]
      cases h : authority.2.permissions.lookup scope with
      | none => rfl
      | some level =>
          rcases hbound scope level h with ⟨given, -, hlevel⟩
          exact grantedLevel_fixed hlevel
    calc again.2 = ⟨again.2.permissions, again.2.clamped⟩ := rfl
      _ = ⟨authority.2.permissions, []⟩ := by rw [hsame, hclamped]
  · change ((granted && !restricted) && !restricted) = (granted && !restricted)
    rw [Bool.and_assoc, Bool.and_self]

/-- A fork that declares everything, under a ceiling that caps one scope at nothing. -/
theorem token_authority_of_fork :
    let declared : Permissions := SortedMap.ofList [("contents".toList, "write".toList),
      ("id-token".toList, "write".toList), ("issues".toList, "banana".toList)]
    let ceiling : TokenPermissionsCeiling :=
      ⟨.write, SortedMap.ofList [("issues".toList, .none)], false⟩
    (tokenAuthority (some .untrusted) (some ceiling) (some declared) true).2.permissions =
      SortedMap.ofList [("contents".toList, "read".toList), ("issues".toList, "none".toList)] ∧
    ∃ given, declared.lookup "contents".toList = some given ∧
      declaredRank "read".toList ≤ declaredRank given := by
  intro declared ceiling
  refine ⟨by decide, ?_⟩
  rcases (token_authority_never_grows (some .untrusted) (some ceiling) (some declared) true).1
    "contents".toList "read".toList (by decide) with ⟨given, hgiven, hle, -⟩
  simp only [effectiveTokenPermissions, Option.getD_some] at hgiven
  exact ⟨given, hgiven, hle⟩

end Preloop

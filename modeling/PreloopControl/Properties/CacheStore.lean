import PreloopControl.CacheStore

/-!
# Which Archive a Lookup Finds

Two entries share a directory if their digests are of the same bytes. Under a namespace
every part is behind its length, but without one the key and the version are only parted
by a null character, which either may hold. `Clash` says which identities this confuses,
and what a lookup returns is right exactly if no archive it clashes with is in the store.

The digest is taken to be injective, so equal names mean equal hashed bytes, and what is left is
which identities are written with the same bytes. A probe and a search by prefix find what stands
under a name, whoever put it there.

## Main definitions

* `Continues`, `Spells`, `Clash`: Identities with one directory.
* `Restores`: What a lookup should return.

## Theorems

* `entryIdScoped_eq_iff`: Equal names are equal identities or a clash.
* `exactProbe_holds_iff`, `resolve_restores_iff`: When the probe and the lookup are right.
* `evictLoop_spec`: A quota pass evicts what was used least recently.
* `cache_ids_collide_iff`, `cache_restores_iff`: Both for every store.
-/

namespace Preloop

open Bytes

/-! ## Names -/

/-- The null character between a key and a version. -/
def nul : Char := '\x00'

/-- The key of the second goes on, behind a null character, where the first one ends, and
    the version of the first starts with what is left of it. -/
def Continues (u v : CacheIdentity) : Prop :=
  u.scope = [] ∧ v.scope = [] ∧
    ∃ w, v.key = u.key ++ nul :: w ∧ u.version = w ++ nul :: v.version

/-- The second, without a namespace, spells out the tag and the frames of the first. -/
def Spells (u v : CacheIdentity) : Prop :=
  u.scope ≠ [] ∧ v.scope = [] ∧
    utf8 v.key ++ 0 :: utf8 v.version =
      namespaceTag ++ (frame u.scope ++ (frame u.key ++ frame u.version))

/-- Different identities with one directory. -/
def Clash (u v : CacheIdentity) : Prop :=
  Continues u v ∨ Continues v u ∨ Spells u v ∨ Spells v u

theorem plainPreimage_eq (key version : Text) :
    plainPreimage key version = utf8 (key ++ nul :: version) := by
  have hnul : String.utf8EncodeChar nul = [0] := by decide
  rw [utf8_append, utf8_cons, hnul]
  rfl

/-- A text with a null character in it, split in two ways. -/
theorem split_nul {a b a' b' : Text} :
    a ++ nul :: b = a' ++ nul :: b' ↔
      a = a' ∧ b = b' ∨ (∃ w, a' = a ++ nul :: w ∧ b = w ++ nul :: b') ∨
        ∃ w, a = a' ++ nul :: w ∧ b' = w ++ nul :: b := by
  constructor
  · intro h
    rcases List.append_eq_append_iff.mp h with ⟨c, ha, hc⟩ | ⟨c, ha, hc⟩
    · cases c with
      | nil => exact .inl ⟨by simpa using ha.symm, by simpa using hc⟩
      | cons d c =>
          rcases List.cons.inj hc with ⟨rfl, hb⟩
          exact .inr (.inl ⟨c, ha, hb⟩)
    · cases c with
      | nil => exact .inl ⟨by simpa using ha, by simpa using hc.symm⟩
      | cons d c =>
          rcases List.cons.inj hc with ⟨rfl, hb⟩
          exact .inr (.inr ⟨c, ha, hb⟩)
  · rintro (⟨rfl, rfl⟩ | ⟨w, rfl, rfl⟩ | ⟨w, rfl, rfl⟩) <;> simp

theorem scopedPreimage_injective {u v : CacheIdentity}
    (h : scopedPreimage u.scope u.key u.version = scopedPreimage v.scope v.key v.version) :
    u = v := by
  have hbound : (2 : Nat) ^ 63 ≤ 256 ^ 8 := by norm_num
  have hu := u.scopeFits
  have hv := v.scopeFits
  have huk := u.keyFits
  have hvk := v.keyFits
  have huv := u.versionFits
  have hvv := v.versionFits
  rcases frame_append (by omega) (by omega) (List.append_cancel_left h) with ⟨hscope, hrest⟩
  rcases frame_append (by omega) (by omega) hrest with ⟨hkey, hrest⟩
  have hversion := frame_append (a := []) (b := []) (by omega) (by omega)
    (by rw [hrest] : frame u.version ++ [] = frame v.version ++ [])
  exact CacheIdentity.ext hscope hkey hversion.1

section Ids

variable {sha256 : List UInt8 → List UInt8} (hsha : Function.Injective sha256)

include hsha

theorem digest_injective {a b : List UInt8} : hex (sha256 a) = hex (sha256 b) ↔ a = b :=
  ⟨fun h => hsha (hex_injective h), fun h => congrArg (fun x => hex (sha256 x)) h⟩

/-- Equal names are equal identities or a clash. -/
theorem entryIdScoped_eq_iff {u v : CacheIdentity} :
    entryIdScoped sha256 u = entryIdScoped sha256 v ↔ u = v ∨ Clash u v := by
  unfold entryIdScoped entryId Clash Continues Spells
  by_cases hu : u.scope = []
  · by_cases hv : v.scope = []
    -- the forms differ by scope: without one on both sides, on one of them, on neither
    · -- only the null character parts key and version
      rw [if_pos hu, if_pos hv, digest_injective hsha, plainPreimage_eq, plainPreimage_eq,
        utf8_injective.eq_iff, split_nul]
      constructor
      · rintro (⟨hkey, hversion⟩ | h | h)
        · exact .inl (CacheIdentity.ext (hu.trans hv.symm) hkey hversion)
        · exact .inr (.inl ⟨hu, hv, h⟩)
        · exact .inr (.inr (.inl ⟨hv, hu, h⟩))
      · rintro (rfl | ⟨-, -, h⟩ | ⟨-, -, h⟩ | ⟨h, -⟩ | ⟨h, -⟩)
        · exact .inl ⟨rfl, rfl⟩
        · exact .inr (.inl h)
        · exact .inr (.inr h)
        · exact absurd hu h
        · exact absurd hv h
    -- a plain name meets a scoped one, whose prefix is the text in front of its key
    · rw [if_pos hu, if_neg hv, digest_injective hsha]
      constructor
      · intro h
        exact .inr (.inr (.inr (.inr ⟨hv, hu, h⟩)))
      · rintro (rfl | ⟨-, h, -⟩ | ⟨h, -⟩ | ⟨-, h, -⟩ | ⟨-, -, h⟩)
        · exact absurd hu hv
        · exact absurd h hv
        · exact absurd h hv
        · exact absurd h hv
        · exact h
  · by_cases hv : v.scope = []
    · rw [if_neg hu, if_pos hv, digest_injective hsha]
      constructor
      · intro h
        exact .inr (.inr (.inr (.inl ⟨hu, hv, h.symm⟩)))
      · rintro (rfl | ⟨h, -⟩ | ⟨-, h, -⟩ | ⟨-, -, h⟩ | ⟨-, h, -⟩)
        · exact absurd hv hu
        · exact absurd h hu
        · exact absurd h hu
        · exact h.symm
        · exact absurd h hu
    · rw [if_neg hu, if_neg hv, digest_injective hsha]
      constructor
      · intro h
        exact .inl (scopedPreimage_injective h)
      · rintro (rfl | ⟨h, -⟩ | ⟨-, h, -⟩ | ⟨-, h, -⟩ | ⟨-, h, -⟩)
        · rfl
        · exact absurd h hu
        · exact absurd h hu
        · exact absurd h hv
        · exact absurd h hu

omit hsha in
theorem Continues.ne {u v : CacheIdentity} (h : Continues u v) : u ≠ v := by
  rintro rfl
  rcases h with ⟨-, -, w, hkey, -⟩
  have hlen := congrArg List.length hkey
  simp only [List.length_append, List.length_cons] at hlen
  omega

omit hsha in
theorem Clash.ne {u v : CacheIdentity} (h : Clash u v) : u ≠ v := by
  rcases h with h | h | ⟨hu, hv, -⟩ | ⟨hv, hu, -⟩
  · exact h.ne
  · exact h.ne.symm
  · rintro rfl
    exact hu hv
  · rintro rfl
    exact hv hu

omit hsha in
/-- What stands in front of the first of some character. -/
theorem split_first {c : Char} {a b a' b' : Text} (ha : c ∉ a) (ha' : c ∉ a')
    (h : a ++ c :: b = a' ++ c :: b') : a = a' ∧ b = b' := by
  rcases List.append_eq_append_iff.mp h with ⟨w, hw, hb⟩ | ⟨w, hw, hb⟩
  · cases w with
    | nil => exact ⟨by simpa using hw.symm, by simpa using hb⟩
    | cons d w =>
        rcases List.cons.inj hb with ⟨rfl, -⟩
        exact absurd (by rw [hw]; simp) ha'
  · cases w with
    | nil => exact ⟨by simpa using hw, by simpa using hb.symm⟩
    | cons d w =>
        rcases List.cons.inj hb with ⟨rfl, -⟩
        exact absurd (by rw [hw]; simp) ha

omit hsha in
theorem legacyPathFor_eq {k v name : Text} (h : legacyPathFor sha256 k v = some name) :
    name = hex (utf8 k) ++ '-' :: ((hex (sha256 (utf8 v))).take 16 ++
      '-' :: hex (sha256 (plainPreimage k v))) := by
  unfold legacyPathFor at h
  simp only at h
  split at h
  · cases h
  · exact (Option.some.inj h).symm

/-- The old layout tells all identities without a namespace apart. -/
theorem legacyPathFor_injective {k v k' v' name : Text}
    (h : legacyPathFor sha256 k v = some name) (h' : legacyPathFor sha256 k' v' = some name) :
    k = k' ∧ v = v' := by
  have hname := (legacyPathFor_eq h).symm.trans (legacyPathFor_eq h')
  -- the digits of the key end at the first dash, and those of the version at the second
  rcases split_first (dash_not_mem_hex _) (dash_not_mem_hex _) hname with ⟨hkey, hrest⟩
  rcases split_first (fun hmem => dash_not_mem_hex _ (List.mem_of_mem_take hmem))
    (fun hmem => dash_not_mem_hex _ (List.mem_of_mem_take hmem)) hrest with ⟨-, hpre⟩
  have hk : k = k' := utf8_injective (hex_injective hkey)
  subst hk
  have hpre := hsha (hex_injective hpre)
  exact ⟨rfl, utf8_injective (List.cons.inj (List.append_cancel_left hpre)).2⟩

omit hsha in
/-- No name of the old layout is one of the new. -/
theorem legacyPathFor_ne {k v : Text} {u : CacheIdentity} :
    legacyPathFor sha256 k v ≠ some (entryIdScoped sha256 u) := by
  intro h
  have hmem : '-' ∈ entryIdScoped sha256 u := by
    rw [legacyPathFor_eq h]
    simp
  unfold entryIdScoped entryId at hmem
  split at hmem <;> exact dash_not_mem_hex _ hmem

end Ids

/-! ## The probe -/

section Probe

variable {sha256 : List UInt8 → List UInt8} (store : CacheStore sha256)

theorem archiveAt_eq_some {name : Text} {d : EntryDir} {a : Archive} :
    archiveAt store.dirs name = some (d, a) ↔
      d ∈ store.dirs ∧ d.name = name ∧ d.archive = some a := by
  constructor
  · intro h
    rcases Option.bind_eq_some_iff.mp h with ⟨d', hfind, hmap⟩
    rcases Option.map_eq_some_iff.mp hmap with ⟨a', ha, heq⟩
    cases heq
    exact ⟨List.mem_of_find?_eq_some hfind, by simpa using List.find?_some hfind, ha⟩
  · rintro ⟨hmem, rfl, ha⟩
    -- directories have different names, so the first one found is this one
    have hfind : store.dirs.find? (fun d' => d'.name = d.name) = some d := by
      cases hf : store.dirs.find? fun d' => d'.name = d.name with
      | none =>
          have hno := List.find?_eq_none.mp hf d hmem
          simp at hno
      | some d' =>
          have hname : d'.name = d.name := by simpa using List.find?_some hf
          exact congrArg some (List.inj_on_of_nodup_map store.distinct
            (List.mem_of_find?_eq_some hf) hmem hname)
    rw [archiveAt, hfind, Option.bind_some, ha]
    rfl

theorem EntryDir.Holds.unique {d : EntryDir} {u v : CacheIdentity} (hu : d.Holds sha256 u)
    (hv : d.Holds sha256 v) : u = v := by
  rcases hu with ⟨huk, huv, -, hus⟩
  rcases hv with ⟨hvk, hvv, -, hvs⟩
  refine CacheIdentity.ext ?_ (Option.some.inj (huk.symm.trans hvk))
    (Option.some.inj (huv.symm.trans hvv))
  rcases hus with ⟨hus, -⟩ | ⟨hus, hun, -⟩ <;> rcases hvs with ⟨hvs, -⟩ | ⟨hvs, hvn, -⟩
  · exact Option.some.inj (hus.symm.trans hvs)
  · rw [hus] at hvs
    cases hvs
  · rw [hus] at hvs
    cases hvs
  · exact hun.trans hvn.symm

/-- An archive is in the store in the place of an identity that clashes with the one that
    is looked up. -/
def Clashing (id : CacheIdentity) : Prop :=
  ∃ d ∈ store.dirs, d.archive.isSome ∧
    ∃ u, d.Holds sha256 u ∧ d.name = entryIdScoped sha256 u ∧ Clash u id

variable {store} (hsha : Function.Injective sha256) {id : CacheIdentity} {d : EntryDir}
  {a : Archive}

theorem exactProbe_mem (h : exactProbe store id = some (d, a)) :
    d ∈ store.dirs ∧ d.archive = some a := by
  rcases Option.or_eq_some_iff.mp h with h | ⟨-, h⟩
  · exact ⟨((archiveAt_eq_some store).mp h).1, ((archiveAt_eq_some store).mp h).2.2⟩
  · split at h
    · rcases Option.bind_eq_some_iff.mp h with ⟨name, -, h⟩
      exact ⟨((archiveAt_eq_some store).mp h).1, ((archiveAt_eq_some store).mp h).2.2⟩
    · cases h

include hsha

/-- The archive the probe finds is the one of the identity, or of one it clashes with. -/
theorem exactProbe_cases (h : exactProbe store id = some (d, a)) :
    d.Holds sha256 id ∨
      ∃ u, d.Holds sha256 u ∧ d.name = entryIdScoped sha256 u ∧ Clash u id := by
  have hmem := exactProbe_mem h
  rcases store.placed d hmem.1 (by rw [hmem.2]; rfl) with ⟨u, hu⟩
  rcases Option.or_eq_some_iff.mp h with h | ⟨-, h⟩
  · have hname := ((archiveAt_eq_some store).mp h).2.1
    rcases hu.2.2.2 with ⟨-, hcur⟩ | ⟨-, -, hleg⟩
    · rcases (entryIdScoped_eq_iff hsha).mp (hcur.symm.trans hname) with rfl | hclash
      · exact .inl hu
      · exact .inr ⟨u, hu, hcur, hclash⟩
    · rw [hname] at hleg
      exact absurd hleg legacyPathFor_ne
  · by_cases hscope : id.scope = []
    · rw [if_pos hscope] at h
      rcases Option.bind_eq_some_iff.mp h with ⟨name, hlegacy, h⟩
      have hname := ((archiveAt_eq_some store).mp h).2.1
      left
      rcases hu.2.2.2 with ⟨-, hcur⟩ | ⟨-, hun, hleg⟩
      · rw [← hname, hcur] at hlegacy
        exact absurd hlegacy legacyPathFor_ne
      · rw [hname] at hleg
        rcases legacyPathFor_injective hsha hleg hlegacy with ⟨hkey, hversion⟩
        rwa [CacheIdentity.ext (hun.trans hscope.symm) hkey hversion] at hu
    · rw [if_neg hscope] at h
      cases h

omit hsha in
/-- An archive of the identity is found, if not another one. -/
theorem exactProbe_isSome (hd : d ∈ store.dirs) (ha : d.archive = some a)
    (hu : d.Holds sha256 id) : (exactProbe store id).isSome := by
  unfold exactProbe
  rw [Option.isSome_or, Bool.or_eq_true]
  rcases hu.2.2.2 with ⟨-, hcur⟩ | ⟨-, hscope, hleg⟩
  · left
    rw [(archiveAt_eq_some store).mpr ⟨hd, hcur, ha⟩]
    rfl
  · right
    rw [if_pos hscope, hleg, Option.bind_some, (archiveAt_eq_some store).mpr ⟨hd, rfl, ha⟩]
    rfl

/-- The probe finds no other archive exactly if none in the store clashes. -/
theorem exactProbe_holds_iff :
    (∀ d a, exactProbe store id = some (d, a) → d.Holds sha256 id) ↔ ¬ Clashing store id := by
  constructor
  · rintro h ⟨d, hd, harchive, u, hu, hname, hclash⟩
    rcases Option.isSome_iff_exists.mp harchive with ⟨a, ha⟩
    have hid := (entryIdScoped_eq_iff hsha).mpr (.inr hclash)
    have hprobe : exactProbe store id = some (d, a) := by
      unfold exactProbe
      rw [(archiveAt_eq_some store).mpr ⟨hd, hname.trans hid, ha⟩]
      rfl
    exact hclash.ne (hu.unique (h d a hprobe))
  · intro hno d a h
    rcases exactProbe_cases hsha h with hu | ⟨u, hu, hname, hclash⟩
    · exact hu
    · have hmem := exactProbe_mem h
      exact absurd ⟨d, hmem.1, by rw [hmem.2]; rfl, u, hu, hname, hclash⟩ hno

end Probe

/-! ## The lookup -/

section Lookup

variable {sha256 : List UInt8 → List UInt8} (store : CacheStore sha256) (id : CacheIdentity)

/-- An archive of the namespace and version that is looked up, under some key. -/
structure Offers (d : EntryDir) (u : CacheIdentity) (a : Archive) : Prop where
  mem : d ∈ store.dirs
  archive : d.archive = some a
  holds : d.Holds sha256 u
  scope : u.scope = id.scope
  version : u.version = id.version

/-- What a lookup should return: the entry under the key itself, or else a newest one under
    an extension of the first of the key and the restore keys that any key extends. -/
def Restores (restoreKeys : List Text) : Option CacheEntry → Prop
  | some e => ∃ d u a, Offers store id d u a ∧ e = ⟨u.key, u.version, d.name, a.size⟩ ∧
      (u.key = id.key ∨
        (∀ d' u' a', Offers store id d' u' a' → u'.key ≠ id.key) ∧
          ∃ tried pre rest, id.key :: restoreKeys = tried ++ pre :: rest ∧
            (∀ p ∈ tried, ∀ d' u' a', Offers store id d' u' a' → ¬ p <+: u'.key) ∧
            pre <+: u.key ∧
            ∀ d' u' a', Offers store id d' u' a' → pre <+: u'.key →
              d'.createdAt.getD 0 ≤ d.createdAt.getD 0)
  | none => ∀ p ∈ id.key :: restoreKeys,
      ∀ d u a, Offers store id d u a → ¬ p <+: u.key

theorem foldl_newer (l : List (CacheEntry × Nat)) : l.foldl newer none = l.argmax (·.2) := by
  have hstep : newer = List.argAux fun (b c : CacheEntry × Nat) => c.2 < b.2 := by
    funext newest found
    cases newest <;> rfl
  rw [hstep]
  rfl

variable {store id} {d : EntryDir} {u : CacheIdentity} {a : Archive}

theorem EntryDir.Holds.scopeFile (h : d.Holds sha256 u) : d.scopeFile.getD [] = u.scope := by
  rcases h.2.2.2 with ⟨hscope, -⟩ | ⟨hscope, hu, -⟩ <;> rw [hscope]
  · rfl
  · exact hu.symm

/-- A directory is a match for a prefix if it offers an entry whose key extends it. -/
theorem Offers.prefixMatch (h : Offers store id d u a) {pre : Text} (hpre : pre <+: u.key) :
    prefixMatch id.scope pre id.version d =
      some (⟨u.key, u.version, d.name, a.size⟩, d.createdAt.getD 0) := by
  rcases h.holds with ⟨hkey, hversion, hcreated, -⟩
  rcases Option.isSome_iff_exists.mp hcreated with ⟨created, hc⟩
  unfold Preloop.prefixMatch
  rw [h.archive, hkey, hversion, hc]
  simp only
  rw [if_neg]
  · rw [h.version]
    rfl
  · simp [h.holds.scopeFile, h.scope, h.version, List.isPrefixOf_iff_prefix, hpre]

theorem offers_of_prefixMatch (hd : d ∈ store.dirs) {pre : Text} {found : CacheEntry × Nat}
    (h : prefixMatch id.scope pre id.version d = some found) :
    ∃ u a, Offers store id d u a ∧ pre <+: u.key ∧
      found = (⟨u.key, u.version, d.name, a.size⟩, d.createdAt.getD 0) := by
  unfold prefixMatch at h
  cases harchive : d.archive with
  | none =>
      rw [harchive] at h
      cases h
  | some a =>
      rcases store.placed d hd (by rw [harchive]; rfl) with ⟨u, hu⟩
      rcases hu with ⟨hkey, hversion, hcreated, hname⟩
      rcases Option.isSome_iff_exists.mp hcreated with ⟨created, hc⟩
      rw [harchive, hkey, hversion, hc] at h
      simp only at h
      split at h
      · cases h
      · rename_i hno
        simp only [(show d.Holds sha256 u from ⟨hkey, hversion, hcreated, hname⟩).scopeFile,
          ne_eq, Bool.or_eq_true, decide_eq_true_eq, Bool.not_eq_true', not_or, not_not,
          Bool.not_eq_false, List.isPrefixOf_iff_prefix] at hno
        cases h
        refine ⟨u, a, ⟨hd, harchive, ⟨hkey, hversion, hcreated, hname⟩, hno.1.1, hno.1.2⟩,
          hno.2, ?_⟩
        rw [hno.1.2, hc]
        rfl

/-- A lookup by prefix finds nothing exactly if nothing is offered. -/
theorem findPrefixScoped_none (pre : Text) :
    findPrefixScoped store.dirs id.scope pre id.version = none ↔
      ∀ d u a, Offers store id d u a → ¬ pre <+: u.key := by
  unfold findPrefixScoped
  rw [foldl_newer, Option.map_eq_none_iff, List.argmax_eq_none, List.filterMap_eq_nil_iff]
  constructor
  · intro h d u a ho hpre
    have hnone := h d ho.mem
    rw [ho.prefixMatch hpre] at hnone
    cases hnone
  · intro h d hd
    cases hmatch : prefixMatch id.scope pre id.version d with
    | none => rfl
    | some found =>
        rcases offers_of_prefixMatch hd hmatch with ⟨u, a, ho, hpre, -⟩
        exact absurd hpre (h d u a ho)

/-- What a lookup by prefix finds is a newest match. -/
theorem findPrefixScoped_some {pre : Text} {e : CacheEntry}
    (h : findPrefixScoped store.dirs id.scope pre id.version = some e) :
    ∃ d u a, Offers store id d u a ∧ e = ⟨u.key, u.version, d.name, a.size⟩ ∧ pre <+: u.key ∧
      ∀ d' u' a', Offers store id d' u' a' → pre <+: u'.key →
        d'.createdAt.getD 0 ≤ d.createdAt.getD 0 := by
  unfold findPrefixScoped at h
  rw [foldl_newer] at h
  rcases Option.map_eq_some_iff.mp h with ⟨found, hmax, rfl⟩
  rcases List.mem_filterMap.mp (List.argmax_mem hmax) with ⟨d, hd, hmatch⟩
  rcases offers_of_prefixMatch hd hmatch with ⟨u, a, ho, hpre, hfound⟩
  refine ⟨d, u, a, ho, by rw [hfound], hpre, fun d' u' a' ho' hpre' => ?_⟩
  have hmem := List.mem_filterMap.mpr ⟨d', ho'.mem, ho'.prefixMatch hpre'⟩
  have hle := List.le_of_mem_argmax hmem hmax
  rwa [hfound] at hle

/-- The checks of a lookup. -/
def ValidLookup (id : CacheIdentity) (restoreKeys : List Text) : Prop :=
  validKey id.key = true ∧ restoreKeys.length ≤ 10 ∧ ∀ key ∈ restoreKeys, validKey key = true

theorem validateKey_ok {key : Text} {kind : String} (h : validKey key = true) :
    validateKey key kind = .ok () := if_pos h

theorem validateKey_error {key : Text} {k : String} (h : ¬ validKey key = true) :
    ∃ e, validateKey key k = .error e := ⟨_, if_neg h⟩

theorem forM_validateKey (restoreKeys : List Text) :
    (∀ key ∈ restoreKeys, validKey key = true) ∧
        (restoreKeys.forM fun key => validateKey key "Restore") = .ok () ∨
      (¬ ∀ key ∈ restoreKeys, validKey key = true) ∧
        ∃ e, (restoreKeys.forM fun key => validateKey key "Restore") = .error e := by
  induction restoreKeys with
  | nil => exact .inl ⟨by simp, rfl⟩
  | cons key keys ih =>
      have hstep : ((key :: keys).forM fun key => validateKey key "Restore") =
          validateKey key "Restore" >>= fun _ =>
            keys.forM fun key => validateKey key "Restore" := rfl
      rw [List.forall_mem_cons, hstep]
      by_cases hkey : validKey key = true
      · rw [validateKey_ok hkey]
        rcases ih with ⟨hall, hok⟩ | ⟨hnot, e, he⟩
        · exact .inl ⟨⟨hkey, hall⟩, hok⟩
        · exact .inr ⟨fun h => hnot h.2, e, he⟩
      · right
        rcases validateKey_error (k := "Restore") hkey with ⟨e, he⟩
        exact ⟨fun h => hkey h.1, e, by rw [he]; rfl⟩

/-- A lookup is refused by its checks, or probes and then searches. -/
theorem resolveScoped_cases (store : CacheStore sha256) (id : CacheIdentity)
    (restoreKeys : List Text) :
    ValidLookup id restoreKeys ∧ resolveScoped store id restoreKeys =
        .ok (match exactProbe store id with
          | some (d, archive) => some ⟨id.key, id.version, d.name, archive.size⟩
          | none => (id.key :: restoreKeys).findSome? fun pre =>
              findPrefixScoped store.dirs id.scope pre id.version) ∨
      ¬ ValidLookup id restoreKeys ∧ ∃ e, resolveScoped store id restoreKeys = .error e := by
  unfold resolveScoped ValidLookup
  by_cases hkey : validKey id.key = true
  · rw [validateKey_ok hkey]
    by_cases hlen : 10 < restoreKeys.length
    · exact .inr ⟨fun h => absurd h.2.1 (Nat.not_le.mpr hlen), _, by rw [if_pos hlen]; rfl⟩
    · rw [if_neg hlen]
      rcases forM_validateKey restoreKeys with ⟨hall, hok⟩ | ⟨hnot, e, he⟩
      · rw [hok]
        refine .inl ⟨⟨hkey, Nat.le_of_not_lt hlen, hall⟩, ?_⟩
        cases exactProbe store id <;> rfl
      · rw [he]
        exact .inr ⟨fun h => hnot h.2.2, e, rfl⟩
  · rcases validateKey_error (k := "Cache") hkey with ⟨e, he⟩
    exact .inr ⟨fun h => hkey h.1, e, by rw [he]; rfl⟩

/-- What is found behind a probe that finds nothing is what should be restored. -/
theorem restores_of_search (hnone : ∀ d u a, Offers store id d u a → u.key ≠ id.key)
    (restoreKeys : List Text) :
    Restores store id restoreKeys ((id.key :: restoreKeys).findSome? fun pre =>
      findPrefixScoped store.dirs id.scope pre id.version) := by
  cases hfound : (id.key :: restoreKeys).findSome? fun pre =>
      findPrefixScoped store.dirs id.scope pre id.version with
  | none =>
      intro p hp
      exact (findPrefixScoped_none p).mp (List.findSome?_eq_none_iff.mp hfound p hp)
  | some e =>
      rcases List.findSome?_eq_some_iff.mp hfound with ⟨tried, pre, rest, hsplit, he, htried⟩
      rcases findPrefixScoped_some he with ⟨d, u, a, ho, heq, hpre, hnewest⟩
      exact ⟨d, u, a, ho, heq, .inr ⟨hnone, tried, pre, rest, hsplit,
        fun p hp => (findPrefixScoped_none p).mp (htried p hp), hpre, hnewest⟩⟩

/-- A lookup that passes its checks returns what it should exactly if no archive in the
    store clashes. -/
theorem resolve_restores_iff (hsha : Function.Injective sha256) (restoreKeys : List Text) :
    Restores store id restoreKeys (match exactProbe store id with
      | some (d, archive) => some ⟨id.key, id.version, d.name, archive.size⟩
      | none => (id.key :: restoreKeys).findSome? fun pre =>
          findPrefixScoped store.dirs id.scope pre id.version) ↔ ¬ Clashing store id := by
  rw [← exactProbe_holds_iff hsha]
  cases hprobe : exactProbe store id with
  | none =>
      refine iff_of_true (restores_of_search (fun d u a ho hkey => ?_) restoreKeys) ?_
      · have hu := ho.holds
        rw [CacheIdentity.ext ho.scope hkey ho.version] at hu
        have hsome := exactProbe_isSome ho.mem ho.archive hu
        rw [hprobe] at hsome
        cases hsome
      · rintro d a ⟨⟩
  | some p =>
      rcases p with ⟨d, a⟩
      have hmem := exactProbe_mem hprobe
      constructor
      · rintro ⟨d', u, a', ho, heq, -⟩ d'' a'' heq'
        cases heq'
        -- the returned path leads to the entry, which is therefore the one asked for
        have hdir : d' = d := List.inj_on_of_nodup_map store.distinct ho.mem hmem.1
          (congrArg CacheEntry.path heq).symm
        have hu := ho.holds
        rwa [CacheIdentity.ext ho.scope (congrArg CacheEntry.key heq).symm ho.version,
          hdir] at hu
      · intro h
        exact ⟨d, id, a, ⟨hmem.1, hmem.2, h d a rfl, rfl, rfl⟩, rfl, .inl rfl⟩

end Lookup

/-! ## Quota passes -/

/-- The entry may be evicted. -/
def unprotected (protect : Option Text) (e : Text × Archive) : Bool := protect ≠ some e.1

/-- The size of many archives. -/
def totalSize (entries : List (Text × Archive)) : Nat := (entries.map fun e => e.2.size).sum

theorem totalSize_cons (e : Text × Archive) (entries : List (Text × Archive)) :
    totalSize (e :: entries) = e.2.size + totalSize entries := by
  simp only [totalSize, List.map_cons, List.sum_cons]

theorem totalSize_filter (p : Text × Archive → Bool) (entries : List (Text × Archive)) :
    totalSize (entries.filter p) + totalSize (entries.filter fun e => !p e) =
      totalSize entries := by
  induction entries with
  | nil => rfl
  | cons e entries ih =>
      by_cases hp : p e = true
      · rw [List.filter_cons_of_pos hp, List.filter_cons_of_neg (by simp [hp]), totalSize_cons,
          totalSize_cons]
        omega
      · rw [List.filter_cons_of_neg hp, List.filter_cons_of_pos (by simp [hp]), totalSize_cons,
          totalSize_cons]
        omega

/-- The loop takes what is not protected from the front of its list, until the rest fits or
    nothing is left. -/
theorem evictLoop_spec (quota : Nat) (protect : Option Text) (entries : List (Text × Archive))
    (total : Nat) :
    ∃ front back, entries = front ++ back ∧
      evictLoop quota protect entries total = (front.filter (unprotected protect)).map (·.1) ∧
      (total - totalSize (front.filter (unprotected protect)) ≤ quota ∨ back = []) := by
  -- the induction is on the entries, from the front of the list
  induction entries generalizing total with
  | nil => exact ⟨[], [], rfl, rfl, .inr rfl⟩
  | cons e entries ih =>
      rcases e with ⟨path, archive⟩
      unfold evictLoop
      by_cases hfits : total ≤ quota
      · rw [if_pos hfits]
        exact ⟨[], _, rfl, rfl, .inl (by simpa [totalSize] using hfits)⟩
      rw [if_neg hfits]
      -- the entry that was just put is passed over, every other is evicted while the rest is too
      -- large
      by_cases hprotect : protect = some path
      · rcases ih total with ⟨front, back, hsplit, hloop, hend⟩
        have hskip : unprotected protect (path, archive) = false := by simp [unprotected, hprotect]
        rw [if_pos hprotect]
        refine ⟨(path, archive) :: front, back, by rw [hsplit]; rfl, ?_, ?_⟩ <;>
          rw [List.filter_cons_of_neg (by simp [hskip])]
        · exact hloop
        · exact hend
      · rcases ih (total - archive.size) with ⟨front, back, hsplit, hloop, hend⟩
        have htake : unprotected protect (path, archive) = true := by simp [unprotected, hprotect]
        rw [if_neg hprotect]
        refine ⟨(path, archive) :: front, back, by rw [hsplit]; rfl, ?_, ?_⟩ <;>
          rw [List.filter_cons_of_pos htake]
        · rw [hloop]
          rfl
        · rcases hend with hend | hend
          · left
            rw [totalSize_cons, Nat.sub_add_eq]
            exact hend
          · exact .inr hend

section Quota

variable {sha256 : List UInt8 → List UInt8} (store : CacheStore sha256) (protect : Option Text)
  (now : Nat)

theorem archives_nodup : (store.archives.map (·.1)).Nodup := by
  have hsub : (store.archives.map (·.1)).Sublist (store.dirs.map EntryDir.name) := by
    unfold CacheStore.archives
    induction store.dirs with
    | nil => exact List.Sublist.refl _
    | cons d dirs ih =>
        rw [List.filterMap_cons, List.map_cons]
        cases d.archive with
        | none => exact ih.cons _
        | some a => exact ih.cons_cons _
  exact store.distinct.sublist hsub

/-- The archives that are left are those that were not evicted. -/
theorem archives_enforceQuotaExcept :
    (store.enforceQuotaExcept protect now).archives =
      store.archives.filter fun e => !(store.evictions protect).contains e.1 := by
  unfold CacheStore.enforceQuotaExcept CacheStore.keep CacheStore.archives
  simp only
  induction store.dirs with
  | nil => rfl
  | cons d dirs ih =>
      rw [List.filterMap_cons, List.filter_cons]
      cases harchive : d.archive with
      | none =>
          rw [Option.map_none]
          split
          · rw [List.filterMap_cons, harchive]
            exact ih
          · exact ih
      | some a =>
          by_cases hgone : d.name ∈ store.evictions protect
          · rw [if_neg (by simp [hgone])]
            simp only [Option.map_some]
            rw [List.filter_cons_of_neg (by simp [hgone])]
            exact ih
          · rw [if_pos (by simp [hgone]), List.filterMap_cons, harchive]
            simp only [Option.map_some]
            rw [List.filter_cons_of_pos (by simp [hgone]), ih]

/-- What a quota pass does, if nobody disturbs it: what it evicts, in the order of its last
    use, is used no later than anything unprotected that is left, and what is left fits or is
    protected. -/
structure QuotaPass (gone : List (Text × Archive)) : Prop where
  evicted : store.evictions protect = gone.map (·.1)
  archives : ∀ e ∈ gone, e ∈ store.archives ∧ protect ≠ some e.1
  ordered : gone.Pairwise fun e f => e.2.modified ≤ f.2.modified
  left : ∀ e, e ∈ (store.enforceQuotaExcept protect now).archives ↔ e ∈ store.archives ∧ e ∉ gone
  oldest : ∀ e ∈ gone, ∀ f ∈ (store.enforceQuotaExcept protect now).archives,
    protect ≠ some f.1 → e.2.modified ≤ f.2.modified
  fits : totalSize (store.enforceQuotaExcept protect now).archives ≤ store.quotaBytes ∨
    ∀ f ∈ (store.enforceQuotaExcept protect now).archives, protect = some f.1

theorem exists_quotaPass : ∃ gone, QuotaPass store protect now gone := by
  let older (a b : Text × Archive) : Prop := a.2.modified ≤ b.2.modified
  have hsort : (store.archives.insertionSort older).Pairwise older := by
    have : Std.Total older := ⟨fun a b => Nat.le_total _ _⟩
    have : IsTrans _ older := ⟨fun a b c hab hbc => Nat.le_trans hab hbc⟩
    exact List.pairwise_insertionSort older _
  have hperm : (store.archives.insertionSort older).Perm store.archives :=
    List.perm_insertionSort older _
  rcases evictLoop_spec store.quotaBytes protect (store.archives.insertionSort older)
    (totalSize store.archives) with ⟨front, back, hsplit, hloop, hend⟩
  have hevict : store.evictions protect = (front.filter (unprotected protect)).map (·.1) := hloop
  rw [hsplit] at hsort hperm
  rcases List.pairwise_append.mp hsort with ⟨hfront, -, hacross⟩
  have hnodup : ((front ++ back).map (·.1)).Nodup :=
    (hperm.map (·.1)).nodup_iff.mpr (archives_nodup store)
  have hmem : ∀ e, e ∈ store.archives ↔ e ∈ front ∨ e ∈ back :=
    fun e => hperm.mem_iff.symm.trans List.mem_append
  -- an entry is evicted by its name, which no other entry has
  have hname : ∀ e ∈ store.archives,
      (store.evictions protect).contains e.1 = true ↔ e ∈ front.filter (unprotected protect) := by
    intro e he
    rw [hevict, List.contains_iff_mem, List.mem_map]
    constructor
    · rintro ⟨g, hg, hge⟩
      have hgf : g ∈ store.archives := (hmem g).mpr (.inl (List.mem_of_mem_filter hg))
      rwa [← List.inj_on_of_nodup_map (archives_nodup store) hgf he hge]
    · intro h
      exact ⟨e, h, rfl⟩
  have hleft : ∀ e, e ∈ (store.enforceQuotaExcept protect now).archives ↔
      e ∈ store.archives ∧ e ∉ front.filter (unprotected protect) := by
    intro e
    rw [archives_enforceQuotaExcept, List.mem_filter]
    refine and_congr_right fun he => ?_
    rw [← hname e he]
    simp
  refine ⟨front.filter (unprotected protect), hevict, ?_, hfront.filter _, hleft, ?_, ?_⟩
  · intro e he
    rcases List.mem_filter.mp he with ⟨hf, hp⟩
    exact ⟨(hmem e).mpr (.inl hf), by simpa [unprotected] using hp⟩
  · intro e he f hf hp
    rcases (hleft f).mp hf with ⟨hfa, hkept⟩
    rcases (hmem f).mp hfa with hff | hfb
    · exact absurd (List.mem_filter.mpr ⟨hff, by simpa [unprotected] using hp⟩) hkept
    · exact hacross e (List.mem_of_mem_filter he) f hfb
  · rcases hend with hend | rfl
    · left
      -- what is left is all there was, less what was evicted
      have hsum := totalSize_filter (fun e => (store.evictions protect).contains e.1)
        store.archives
      have hgone : totalSize (store.archives.filter fun e =>
          (store.evictions protect).contains e.1) =
          totalSize (front.filter (unprotected protect)) := by
        have hsame : (store.archives.filter fun e =>
            (store.evictions protect).contains e.1).Perm
            (front.filter (unprotected protect)) := by
          refine (List.perm_ext_iff_of_nodup ?_ ?_).mpr fun e => ?_
          · exact ((archives_nodup store).of_map _).filter _
          · exact ((hnodup.of_map _).sublist (List.sublist_append_left _ _)).filter _
          · rw [List.mem_filter]
            constructor
            · rintro ⟨he, hc⟩
              exact (hname e he).mp hc
            · intro he
              have hea := (hmem e).mpr (.inl (List.mem_of_mem_filter he))
              exact ⟨hea, (hname e hea).mpr he⟩
        exact (hsame.map _).sum_eq
      rw [archives_enforceQuotaExcept]
      omega
    · right
      intro f hf
      rcases (hleft f).mp hf with ⟨hfa, hkept⟩
      have hff : f ∈ front := by simpa using (hmem f).mp hfa
      by_contra hp
      exact hkept (List.mem_filter.mpr ⟨hff, by simpa [unprotected] using hp⟩)

end Quota

/-! ## Collisions -/

/-- The same characters, with the null character that parts key and version in two places. -/
def tornKey : CacheIdentity :=
  ⟨[], "a\x00b".toList, "c".toList, by decide, by decide, by decide⟩

/-- See `tornKey`. -/
def tornVersion : CacheIdentity :=
  ⟨[], "a".toList, "b\x00c".toList, by decide, by decide, by decide⟩

theorem torn_continues : Continues tornVersion tornKey :=
  ⟨rfl, rfl, "b".toList, rfl, rfl⟩

/-- An entry of the namespace `n`. -/
def spelledEntry : CacheIdentity :=
  ⟨"n".toList, "k".toList, "v".toList, by decide, by decide, by decide⟩

/-- Its tag as a key, and its frames as a version. -/
def spellingEntry : CacheIdentity :=
  ⟨[], "preloop-cache-namespace-v1".toList,
    ("\x00\x00\x00\x00\x00\x00\x00\x01n" ++ "\x00\x00\x00\x00\x00\x00\x00\x01k" ++
      "\x00\x00\x00\x00\x00\x00\x00\x01v").toList,
    by decide, by decide, by decide⟩

theorem entryIdScoped_spelled (sha256 : List UInt8 → List UInt8) :
    entryIdScoped sha256 spelledEntry = entryIdScoped sha256 spellingEntry := by
  have hpre : scopedPreimage spelledEntry.scope spelledEntry.key spelledEntry.version =
      plainPreimage spellingEntry.key spellingEntry.version := by decide
  unfold entryIdScoped entryId
  rw [if_neg (by decide), if_pos (show spellingEntry.scope = [] from rfl), hpre]

/-! ## Every store -/

/-- Cache entries collide exactly by a clash. Equal names are equal identities, and the
    probe for the key itself finds no other archive, exactly as long as no clash is met. -/
theorem cache_ids_collide_iff {sha256 : List UInt8 → List UInt8}
    (hsha : Function.Injective sha256) :
    (∀ u v : CacheIdentity,
      (entryIdScoped sha256 u = entryIdScoped sha256 v → u = v) ↔ ¬ Clash u v) ∧
    ∀ (store : CacheStore sha256) (id : CacheIdentity),
      (∀ d a, exactProbe store id = some (d, a) → d.Holds sha256 id) ↔ ¬ Clashing store id := by
  refine ⟨fun u v => ⟨fun h hclash => ?_, fun hno h => ?_⟩,
    fun store id => exactProbe_holds_iff hsha⟩
  · exact hclash.ne (h ((entryIdScoped_eq_iff hsha).mpr (.inr hclash)))
  · rcases (entryIdScoped_eq_iff hsha).mp h with heq | hclash
    · exact heq
    · exact absurd hclash hno

/-- The digest that keeps all bytes. -/
theorem cache_ids_collide_of_id :
    (entryIdScoped (fun bytes => bytes) tornKey = entryIdScoped (fun bytes => bytes) spelledEntry →
      tornKey = spelledEntry) ↔ ¬ Clash tornKey spelledEntry :=
  (cache_ids_collide_iff Function.injective_id).1 tornKey spelledEntry

/-- Two valid keys in one directory without a namespace, and an entry of a namespace in the
    directory of an entry that has none. -/
theorem cache_ids_collide_torn :
    (validKey tornKey.key = true ∧ validKey tornVersion.key = true ∧ tornKey ≠ tornVersion ∧
      ∀ sha256, entryIdScoped sha256 tornKey = entryIdScoped sha256 tornVersion) ∧
    validKey spelledEntry.key = true ∧ validKey spellingEntry.key = true ∧
      spelledEntry.scope ≠ spellingEntry.scope ∧
      ∀ sha256, entryIdScoped sha256 spelledEntry = entryIdScoped sha256 spellingEntry :=
  ⟨⟨by decide, by decide, torn_continues.ne.symm, fun _ => rfl⟩, by decide, by decide,
    by decide, entryIdScoped_spelled⟩

/-- A lookup restores what it should exactly if nothing in the store clashes. Whatever
    passes the checks of a lookup returns the entry under its key, or else the newest one
    under the first key that has any. A quota pass evicts in order of use. -/
theorem cache_restores_iff {sha256 : List UInt8 → List UInt8}
    (hsha : Function.Injective sha256) :
    (∀ (store : CacheStore sha256) (id : CacheIdentity) (restoreKeys : List Text),
      match resolveScoped store id restoreKeys with
      | .ok found => Restores store id restoreKeys found ↔ ¬ Clashing store id
      | .error _ => ¬ ValidLookup id restoreKeys) ∧
    ∀ (store : CacheStore sha256) (protect : Option Text) (now : Nat),
      ∃ gone, QuotaPass store protect now gone := by
  refine ⟨fun store id restoreKeys => ?_,
    fun store protect now => exists_quotaPass store protect now⟩
  rcases resolveScoped_cases store id restoreKeys with ⟨-, h⟩ | ⟨hinvalid, e, h⟩ <;> rw [h]
  · exact resolve_restores_iff hsha restoreKeys
  · exact hinvalid

/-- A store with one archive, under the digest that keeps all bytes. -/
def filledStore : CacheStore fun bytes => bytes :=
  (CacheStore.fresh (fun bytes => bytes) 10).add spelledEntry 1 1 fun _ hd => nomatch hd

theorem filledStore_not_clashing : ¬ Clashing filledStore spelledEntry := by
  rintro ⟨d, hd, -, u, ⟨hkey, hversion, -, hscope⟩, -, hclash⟩
  cases List.mem_singleton.mp hd
  rcases hscope with ⟨hscope, -⟩ | ⟨hscope, -⟩
  · exact hclash.ne (CacheIdentity.ext (Option.some.inj hscope).symm (Option.some.inj hkey).symm
      (Option.some.inj hversion).symm)
  · cases hscope

/-- The archive of the store is found again under its key. -/
theorem cache_restores_of_id :
    (∃ e, resolveScoped filledStore spelledEntry [] = .ok (some e) ∧
      Restores filledStore spelledEntry [] (some e)) ∧
    ∃ gone, QuotaPass filledStore none 1 gone := by
  have hid : Function.Injective fun bytes : List UInt8 => bytes := Function.injective_id
  rcases cache_restores_iff hid with ⟨hlookup, hquota⟩
  refine ⟨?_, hquota filledStore none 1⟩
  let d : EntryDir := ⟨entryIdScoped (fun bytes => bytes) spelledEntry, some spelledEntry.scope,
    some spelledEntry.key, some spelledEntry.version, some 1, some ⟨1, 1⟩, some 1⟩
  have hprobe : exactProbe filledStore spelledEntry = some (d, ⟨1, 1⟩) :=
    Option.or_eq_some_iff.mpr (.inl ((archiveAt_eq_some filledStore).mpr
      ⟨List.mem_cons_self, rfl, rfl⟩))
  have hrestores := hlookup filledStore spelledEntry []
  rcases resolveScoped_cases filledStore spelledEntry [] with ⟨-, h⟩ | ⟨hinvalid, -⟩
  · rw [hprobe] at h
    rw [h] at hrestores
    exact ⟨_, h, hrestores.mpr filledStore_not_clashing⟩
  · exact absurd ⟨by decide, by decide, by simp⟩ hinvalid

/-- A lookup returns the archive that was committed under another key and version. -/
theorem cache_restores_torn :
    validKey tornVersion.key = true ∧ ∀ sha256 : List UInt8 → List UInt8,
      Function.Injective sha256 → ∃ store e found,
        (CacheStore.fresh sha256 10).putScoped tornKey 1 1 = .ok (store, e) ∧
          resolveScoped store tornVersion [] = .ok (some found) ∧ found.path = e.path ∧
          ¬ Restores store tornVersion [] (some found) := by
  refine ⟨by decide, fun sha256 hsha => ?_⟩
  have hnew : ∀ d ∈ (CacheStore.fresh sha256 10).dirs, d.name ≠ entryIdScoped sha256 tornKey := by
    intro d hd
    cases hd
  let store := ((CacheStore.fresh sha256 10).add tornKey 1 1 hnew).enforceQuotaExcept
    (some (entryIdScoped sha256 tornKey)) 1
  let d : EntryDir := ⟨entryIdScoped sha256 tornKey, some tornKey.scope, some tornKey.key,
    some tornKey.version, some 1, some ⟨1, 1⟩, some 1⟩
  -- the entry stands under the one name that both identities have
  have hput : (CacheStore.fresh sha256 10).putScoped tornKey 1 1 =
      .ok (store, ⟨tornKey.key, tornKey.version, d.name, 1⟩) := by
    unfold CacheStore.putScoped
    rw [validateKey_ok (by decide), dif_pos hnew]
    rfl
  have hdirs : store.dirs = [d] := rfl
  have hmem : d ∈ store.dirs := by simp [hdirs]
  have hat : archiveAt store.dirs (entryIdScoped sha256 tornVersion) = some (d, ⟨1, 1⟩) :=
    (archiveAt_eq_some store).mpr ⟨hmem, rfl, rfl⟩
  have hprobe : exactProbe store tornVersion = some (d, ⟨1, 1⟩) := by
    unfold exactProbe
    rw [hat]
    rfl
  have hclash : Clashing store tornVersion :=
    ⟨d, hmem, rfl, tornKey, ⟨rfl, rfl, rfl, .inl ⟨rfl, rfl⟩⟩, rfl, .inr (.inl torn_continues)⟩
  have hwrong := mt (resolve_restores_iff hsha []).mp (not_not_intro hclash)
  rw [hprobe] at hwrong
  rcases resolveScoped_cases store tornVersion [] with ⟨-, h⟩ | ⟨hinvalid, -⟩
  · rw [hprobe] at h
    exact ⟨store, _, _, hput, h, rfl, hwrong⟩
  · exact absurd ⟨by decide, by decide, by simp⟩ hinvalid

end Preloop

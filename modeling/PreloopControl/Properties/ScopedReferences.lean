import PreloopControl.Lib.Lines
import PreloopControl.Workflow.Expand

/-!
# References Within a Callee

A workflow that was called from another repository names the files beside it with `./` or `$/`.
Such a reference is rewritten to one with the repository of the workflow and the commit it is
pinned to (`expand.rs`), and read back where the file is fetched (`remote_workflows.rs`).

A name made of letters, digits, `-`, `_` and `.` holds neither of the two separators, so that
each cut of the written reference finds the end of the part that was put there. The path may lie
in a directory below `.github/workflows`.

## Main definitions

* `parseRemoteReference`: The reader of a reference.
* `PlainName`, `PlainNames`, `WorkflowPath`: What parts of a reference look like.

## Theorems

* `isReusableWorkflowPath_iff`: What the check of a path accepts.
* `parse_reference`: A reference made of such parts is read as them.
* `scopeSameRepositoryRef_eq_some_iff`: The references that are rewritten, and to what.
-/

namespace Preloop

namespace Workflow

/-! ## Reading a reference -/

/-- The text before and after the last occurrence of a character: `rsplit_once`. -/
def cutLast (c : Char) (t : Text) : Option (Text × Text) :=
  (Text.cut [c] t.reverse).map fun p => (p.2.reverse, p.1.reverse)

/-- `parse_remote_reference`. -/
def parseRemoteReference (reference : Text) : Option (Text × Text × Text × Text) := do
  let (repositoryPath, gitRef) ← cutLast '@' reference
  let (owner, rest) ← Text.cut ['/'] repositoryPath
  let (repo, path) ← Text.cut ['/'] rest
  if !isPlainSegment owner || !isPlainSegment repo || !isReusableWorkflowPath path ||
      !isPlainPath gitRef then none
  else return (owner, repo, path, gitRef)

/-! ## Cutting at a character -/

/-- What is in front of the first occurrence of a character. -/
theorem cut_char_eq {c : Char} {t a b : Text} (h : Text.cut [c] t = some (a, b)) :
    t = a ++ c :: b ∧ c ∉ a := by
  have ht : t = a ++ c :: b := by
    rw [Text.cut_eq h, List.append_assoc]
    rfl
  refine ⟨ht, fun hmem => ?_⟩
  rcases List.append_of_mem hmem with ⟨s, s', rfl⟩
  exact Text.cut_first h (List.cons_ne_nil c []) s s' rfl

theorem cutLast_append {c : Char} {b : Text} (hb : c ∉ b) (a : Text) :
    cutLast c (a ++ c :: b) = some (a, b) := by
  have hrev : (a ++ c :: b).reverse = b.reverse ++ c :: a.reverse := by simp
  unfold cutLast
  rw [hrev, Text.cut_char (by simpa using hb)]
  simp

theorem cutLast_eq {c : Char} {t a b : Text} (h : cutLast c t = some (a, b)) :
    t = a ++ c :: b ∧ c ∉ b := by
  rcases Option.map_eq_some_iff.mp h with ⟨p, hp, hab⟩
  cases hab
  rcases cut_char_eq hp with ⟨ht, hnot⟩
  refine ⟨?_, by simpa using hnot⟩
  rw [← List.reverse_reverse t, ht]
  simp

/-! ## Plain names -/

/-- A name that no reader of a path or of an address takes for something else. -/
structure PlainName (s : Text) : Prop where
  ne_nil : s ≠ []
  ne_dot : s ≠ ".".toList
  ne_dots : s ≠ "..".toList
  plain : ∀ c ∈ s, c.isAlphanum = true ∨ c = '-' ∨ c = '_' ∨ c = '.'

/-- Plain names with a separator between them. -/
def PlainNames (path : Text) : Prop :=
  ∃ names : List Text, names ≠ [] ∧ (∀ s ∈ names, PlainName s) ∧ path = ['/'].intercalate names

/-- Plain names below `.github/workflows`. -/
def WorkflowPath (path : Text) : Prop :=
  ∃ below, PlainNames below ∧ path = ".github/workflows/".toList ++ below

theorem isPlainSegment_iff {s : Text} : isPlainSegment s = true ↔ PlainName s := by
  unfold isPlainSegment
  simp only [Bool.and_eq_true, decide_eq_true_eq, List.all_eq_true, Bool.or_eq_true]
  constructor
  · rintro ⟨⟨⟨hne, hdot⟩, hdots⟩, hall⟩
    exact ⟨hne, hdot, hdots, fun c hc => by simpa [or_assoc] using hall c hc⟩
  · intro h
    exact ⟨⟨⟨h.ne_nil, h.ne_dot⟩, h.ne_dots⟩, fun c hc => by simpa [or_assoc] using h.plain c hc⟩

/-- A plain name holds no separator. -/
theorem PlainName.not_mem {s : Text} (h : PlainName s) {c : Char} (hc : c = '/' ∨ c = '@') :
    c ∉ s := by
  intro hmem
  have hplain := h.plain c hmem
  rcases hc with rfl | rfl <;> revert hplain <;> decide

/-- The check of a path is the one of its names: the empty text is one empty name. -/
theorem isPlainPath_eq (path : Text) :
    isPlainPath path = (path.splitOn '/').all isPlainSegment := by
  unfold isPlainPath
  by_cases hnil : path = []
  · subst hnil
    decide
  · rw [decide_eq_true hnil, Bool.true_and]

theorem isPlainPath_iff {path : Text} : isPlainPath path = true ↔ PlainNames path := by
  rw [isPlainPath_eq]
  unfold PlainNames
  simp only [List.all_eq_true, isPlainSegment_iff]
  constructor
  · intro hall
    exact ⟨path.splitOn '/', List.splitOn_ne_nil '/' path, hall,
      (List.intercalate_splitOn '/').symm⟩
  · rintro ⟨names, hne, hall, rfl⟩
    rwa [List.splitOn_intercalate '/' (fun s hs => (hall s hs).not_mem (Or.inl rfl)) hne]

/-- Plain names hold no `@`. -/
theorem PlainNames.not_mem {path : Text} (h : PlainNames path) : '@' ∉ path := by
  rcases h with ⟨names, hne, hall, rfl⟩
  induction names with
  | nil => exact absurd rfl hne
  | cons s names ih =>
      rw [List.forall_mem_cons] at hall
      have hs : '@' ∉ s := hall.1.not_mem (Or.inr rfl)
      cases names with
      | nil => rwa [List.intercalate_singleton]
      | cons s' names =>
          have hrest := ih (List.cons_ne_nil s' names) hall.2
          rw [List.intercalate_cons_cons]
          simp [hs, hrest]

theorem isReusableWorkflowPath_iff {path : Text} :
    isReusableWorkflowPath path = true ↔ WorkflowPath path := by
  have hbelow : ∀ below : Text,
      isPlainPath (".github/workflows/".toList ++ below) = isPlainPath below := by
    intro below
    have hsplit : (".github/workflows/".toList ++ below).splitOn '/' =
        ".github".toList :: "workflows".toList :: below.splitOn '/' := by
      show (".github".toList ++ '/' :: ("workflows".toList ++ '/' :: below)).splitOn '/' = _
      rw [List.splitOn_append_cons_self_of_not_mem (by decide),
        List.splitOn_append_cons_self_of_not_mem (by decide)]
    rw [isPlainPath_eq, isPlainPath_eq, hsplit]
    rfl
  unfold isReusableWorkflowPath WorkflowPath
  rw [Bool.and_eq_true, List.isPrefixOf_iff_prefix]
  constructor
  · rintro ⟨⟨below, rfl⟩, hplain⟩
    rw [hbelow, isPlainPath_iff] at hplain
    exact ⟨below, hplain, rfl⟩
  · rintro ⟨below, hplain, rfl⟩
    rw [← isPlainPath_iff, ← hbelow] at hplain
    exact ⟨List.prefix_append _ _, hplain⟩

/-! ## References -/

/-- A reference made of plain parts is read as these parts. -/
theorem parse_reference {owner repo path gitRef : Text} (howner : PlainName owner)
    (hrepo : PlainName repo) (hpath : WorkflowPath path) (href : PlainNames gitRef) :
    parseRemoteReference (owner ++ '/' :: repo ++ '/' :: path ++ '@' :: gitRef) =
      some (owner, repo, path, gitRef) := by
  have hslashes : owner ++ '/' :: repo ++ '/' :: path = owner ++ '/' :: (repo ++ '/' :: path) := by
    simp
  unfold parseRemoteReference
  -- the reference is cut off first, so that only the separators of the path are left
  rw [cutLast_append href.not_mem, hslashes, Option.bind_eq_bind, Option.bind_some]
  simp only [Text.cut_char (howner.not_mem (Or.inl rfl)),
    Text.cut_char (hrepo.not_mem (Or.inl rfl)),
    Option.bind_some, isPlainSegment_iff.mpr howner, isPlainSegment_iff.mpr hrepo,
    isReusableWorkflowPath_iff.mpr hpath, isPlainPath_iff.mpr href]
  rfl

/-- The parts of a reference that is read. -/
theorem parseRemoteReference_eq {reference owner repo path gitRef : Text}
    (h : parseRemoteReference reference = some (owner, repo, path, gitRef)) :
    reference = owner ++ '/' :: repo ++ '/' :: path ++ '@' :: gitRef ∧ PlainName owner ∧
      PlainName repo ∧ WorkflowPath path ∧ PlainNames gitRef := by
  unfold parseRemoteReference at h
  rcases Option.bind_eq_some_iff.mp h with ⟨⟨repositoryPath, gitRef'⟩, hlast, h⟩
  rcases Option.bind_eq_some_iff.mp h with ⟨⟨owner', rest⟩, hfirst, h⟩
  rcases Option.bind_eq_some_iff.mp h with ⟨⟨repo', path'⟩, hsecond, h⟩
  dsimp only at h
  split at h
  · cases h
  · rename_i hchecks
    cases h
    simp only [Bool.or_eq_true, Bool.not_eq_true', not_or, Bool.not_eq_false] at hchecks
    rcases hchecks with ⟨⟨⟨howner, hrepo⟩, hpath⟩, href⟩
    refine ⟨?_, isPlainSegment_iff.mp howner, isPlainSegment_iff.mp hrepo,
      isReusableWorkflowPath_iff.mp hpath, isPlainPath_iff.mp href⟩
    rw [(cutLast_eq hlast).1, (cut_char_eq hfirst).1, (cut_char_eq hsecond).1]
    simp

/-- The owner and the repository of a text with two separators. -/
theorem ownerAndRepo_eq_some_iff {uses owner repo : Text} : ownerAndRepo uses = some (owner, repo) ↔
    ∃ rest, uses = owner ++ '/' :: repo ++ '/' :: rest ∧ '/' ∉ owner ∧ '/' ∉ repo := by
  unfold ownerAndRepo
  constructor
  · intro h
    rcases Option.bind_eq_some_iff.mp h with ⟨⟨owner', rest⟩, hfirst, h⟩
    rcases Option.bind_eq_some_iff.mp h with ⟨⟨repo', rest'⟩, hsecond, h⟩
    cases h
    rcases cut_char_eq hfirst with ⟨huses, howner⟩
    rcases cut_char_eq hsecond with ⟨hrest, hrepo⟩
    exact ⟨rest', by rw [huses, hrest]; simp, howner, hrepo⟩
  · rintro ⟨rest, rfl, howner, hrepo⟩
    have hslashes : owner ++ '/' :: repo ++ '/' :: rest =
        owner ++ '/' :: (repo ++ '/' :: rest) := by simp
    rw [hslashes, Text.cut_char howner, Option.bind_eq_bind, Option.bind_some]
    simp only [Text.cut_char hrepo, Option.bind_some]
    rfl

theorem dropPrefix?_eq_some {mark uses path : Text} :
    uses.dropPrefix? mark = some path ↔ uses = mark ++ path := by
  rw [List.dropPrefix?_eq_some_iff]
  constructor
  · rintro ⟨mark', huses, hmark⟩
    rw [huses, eq_of_beq hmark]
  · rintro rfl
    exact ⟨mark, rfl, BEq.rfl⟩

theorem stripLocal_eq_some_iff {uses path : Text} : stripLocal uses = some path ↔
    uses = "./".toList ++ path ∨ uses = "$/".toList ++ path := by
  unfold stripLocal
  rw [Option.or_eq_some_iff, dropPrefix?_eq_some, dropPrefix?_eq_some]
  constructor
  · rintro (h | ⟨-, h⟩)
    · exact Or.inl h
    · exact Or.inr h
  · rintro (h | h)
    · exact Or.inl h
    · refine Or.inr ⟨?_, h⟩
      rw [h]
      rfl

/-- The references that are rewritten, and to what. -/
theorem scopeSameRepositoryRef_eq_some_iff {uses origin pin result : Text} :
    scopeSameRepositoryRef uses origin pin = some result ↔
      ∃ owner repo path, ownerAndRepo origin = some (owner, repo) ∧ stripLocal uses = some path ∧
        PlainName owner ∧ PlainName repo ∧ WorkflowPath path ∧ PlainNames pin ∧
          result = owner ++ '/' :: repo ++ '/' :: path ++ '@' :: pin := by
  unfold scopeSameRepositoryRef sameRepositoryPath
  constructor
  · intro h
    rcases Option.bind_eq_some_iff.mp h with ⟨path, hfilter, h⟩
    rcases Option.bind_eq_some_iff.mp h with ⟨⟨owner, repo⟩, horigin, h⟩
    rcases Option.filter_eq_some_iff.mp hfilter with ⟨hpath, hreusable⟩
    dsimp only at h
    split at h
    · cases h
    · rename_i hchecks
      cases h
      simp only [Bool.or_eq_true, Bool.not_eq_true', not_or, Bool.not_eq_false] at hchecks
      rcases hchecks with ⟨⟨howner, hrepo⟩, hpin⟩
      exact ⟨owner, repo, path, horigin, hpath, isPlainSegment_iff.mp howner,
        isPlainSegment_iff.mp hrepo, isReusableWorkflowPath_iff.mp hreusable,
        isPlainPath_iff.mp hpin, rfl⟩
  · rintro ⟨owner, repo, path, horigin, hpath, howner, hrepo, hreusable, hpin, rfl⟩
    rw [Option.filter_eq_some_iff.mpr ⟨hpath, isReusableWorkflowPath_iff.mpr hreusable⟩, horigin]
    simp only [Option.bind_eq_bind, Option.bind_some, isPlainSegment_iff.mpr howner,
      isPlainSegment_iff.mpr hrepo, isPlainPath_iff.mpr hpin]
    rfl

/-- The repository and the pin of a reference that is read. -/
theorem origin_of_reference {origin owner repo path gitRef : Text}
    (h : parseRemoteReference origin = some (owner, repo, path, gitRef)) :
    ownerAndRepo origin = some (owner, repo) ∧ afterLastAt origin = gitRef := by
  rcases parseRemoteReference_eq h with ⟨rfl, howner, hrepo, hpath, href⟩
  constructor
  · refine ownerAndRepo_eq_some_iff.mpr ⟨path ++ '@' :: gitRef, by simp, ?_, ?_⟩
    · exact howner.not_mem (Or.inl rfl)
    · exact hrepo.not_mem (Or.inl rfl)
  · have hlast := cutLast_append href.not_mem (owner ++ '/' :: repo ++ '/' :: path)
    unfold cutLast at hlast
    unfold afterLastAt
    rcases Option.map_eq_some_iff.mp hlast with ⟨p, hp, hparts⟩
    rw [hp]
    exact congrArg Prod.snd hparts

/-- A reference beside a called workflow is rewritten to the repository and the pin of the workflow
    with a path below `.github/workflows`, and no other reference is rewritten. -/
theorem reference_scoped (uses origin pin : Text) :
    (∀ result, scopeSameRepositoryRef uses origin pin = some result →
      ∃ owner repo file, ownerAndRepo origin = some (owner, repo) ∧
        stripLocal uses = some file ∧ WorkflowPath file ∧
        parseRemoteReference result = some (owner, repo, file, pin)) ∧
    ((scopeSameRepositoryRef uses origin pin).isSome = true ↔
      (∃ file, (uses = "./".toList ++ file ∨ uses = "$/".toList ++ file) ∧ WorkflowPath file) ∧
      (∃ owner repo rest, origin = owner ++ '/' :: repo ++ '/' :: rest ∧ PlainName owner ∧
        PlainName repo) ∧ PlainNames pin) ∧
    (∀ owner repo path gitRef, parseRemoteReference origin = some (owner, repo, path, gitRef) →
      ownerAndRepo origin = some (owner, repo) ∧ ∀ library : Library,
        originPin library origin = (library.reusableWorkflowShas.lookup origin).getD gitRef) := by
  refine ⟨?_, ?_, ?_⟩
  -- the rewritten reference reads back to its parts
  · intro result hresult
    rcases scopeSameRepositoryRef_eq_some_iff.mp hresult with
      ⟨owner, repo, file, horigin, hfile, howner, hrepo, hworkflow, hplain, rfl⟩
    exact ⟨owner, repo, file, horigin, hfile, hworkflow,
      parse_reference howner hrepo hworkflow hplain⟩
  -- a reference is rewritten exactly if all of its parts are plain
  · rw [Option.isSome_iff_exists]
    constructor
    · rintro ⟨result, hresult⟩
      rcases scopeSameRepositoryRef_eq_some_iff.mp hresult with
        ⟨owner, repo, file, horigin, hfile, howner, hrepo, hworkflow, hplain, -⟩
      rcases ownerAndRepo_eq_some_iff.mp horigin with ⟨rest, hrest, -⟩
      exact ⟨⟨file, stripLocal_eq_some_iff.mp hfile, hworkflow⟩,
        ⟨owner, repo, rest, hrest, howner, hrepo⟩, hplain⟩
    · rintro ⟨⟨file, hfile, hworkflow⟩, ⟨owner, repo, rest, hrest, howner, hrepo⟩, hplain⟩
      have horigin : ownerAndRepo origin = some (owner, repo) :=
        ownerAndRepo_eq_some_iff.mpr
          ⟨rest, hrest, howner.not_mem (Or.inl rfl), hrepo.not_mem (Or.inl rfl)⟩
      exact ⟨_, scopeSameRepositoryRef_eq_some_iff.mpr ⟨owner, repo, file, horigin,
        stripLocal_eq_some_iff.mpr hfile, howner, hrepo, hworkflow, hplain, rfl⟩⟩
  -- the repository and the pin are those of the origin
  · intro owner repo path gitRef horigin
    rcases origin_of_reference horigin with ⟨hrepository, hat⟩
    refine ⟨hrepository, fun library => ?_⟩
    unfold originPin
    rw [hat]

/-- A reference to a file beside a workflow that was called at a tag. -/
theorem reference_scoped_at_tag :
    ∃ file, WorkflowPath file ∧
      parseRemoteReference "octo/shared/.github/workflows/inner.yml@v1".toList =
        some ("octo".toList, "shared".toList, file, "v1".toList) := by
  rcases (reference_scoped "./.github/workflows/inner.yml".toList
    "octo/shared/.github/workflows/outer.yml@v1".toList "v1".toList).1
    "octo/shared/.github/workflows/inner.yml@v1".toList (by decide) with
    ⟨owner, repo, file, horigin, -, hworkflow, hparse⟩
  have hrepository : ownerAndRepo "octo/shared/.github/workflows/outer.yml@v1".toList =
      some ("octo".toList, "shared".toList) := by decide
  rw [hrepository] at horigin
  cases horigin
  exact ⟨file, hworkflow, hparse⟩

/-- The path need not be directly below `.github/workflows`. -/
theorem nested_path_is_scoped :
    scopeSameRepositoryRef "./.github/workflows/nested/inner.yml".toList
        "octo/shared/.github/workflows/outer.yml@v1".toList "v1".toList =
      some "octo/shared/.github/workflows/nested/inner.yml@v1".toList ∧
    parseRemoteReference "octo/shared/.github/workflows/nested/inner.yml@v1".toList =
      some ("octo".toList, "shared".toList, ".github/workflows/nested/inner.yml".toList,
        "v1".toList) ∧
    ¬ ∃ name, '/' ∉ name ∧
      ".github/workflows/nested/inner.yml".toList = ".github/workflows/".toList ++ name := by
  refine ⟨by decide, by decide, ?_⟩
  rintro ⟨name, hname, hpath⟩
  have hrest : "nested/inner.yml".toList = name := by
    have hcut := congrArg (List.drop ".github/workflows/".toList.length) hpath
    rwa [List.drop_left] at hcut
  rw [← hrest] at hname
  exact hname (by decide)

end Workflow

end Preloop

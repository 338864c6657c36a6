import PreloopControl.RerunSet

/-!
# The Least Selection of a Rerun

A rerun resets what its mode asks for and whatever depends on it. Which rows these are is
said by three rules on a set of job ids, and the selection is the least set with the seeds
that is closed under the rules. The job ids of a run are a primary key, so the rules do not
depend on which row of an id is looked at, nor on the order the rows were read in.

The loop goes over the rows until a pass adds none. What a pass adds is in every closed set with
the seeds, since the rules are monotone, and a pass that adds none leaves a closed set. Every pass
but the last adds one of the rows, which bounds the passes. The command has a loop of its own over
the same rules, so it comes to the same set.

## Main definitions

* `Selection.Selectable`: The rows that may be selected.
* `Selection.Seeds`: What the mode asks for.
* `Selection.Joins`: The rules.

## Theorems

* `Selection.decides_joins`: The test of the loop decides the rules.
* `Selection.rerunSet_agrees`: The command selects the same rows, or refuses in the same way.
* `Selection.rerun_set_least`: The loop ends with the least closed set, whatever the order of the
  rows.
-/

namespace Preloop

namespace Selection

open Closure

/-- A row that may be selected: it is no expanded matrix parent. -/
def Selectable (jobs : List RerunJobRow) (row : RerunJobRow) : Prop :=
  row ∈ jobs ∧ ¬ (row.kind = "matrix_parent" ∧ ∃ child ∈ jobs, child.parentJobId = some row.jobId)

/-- A name stands for a row. -/
def Names (name : String) (row : RerunJobRow) : Prop := row.jobId = name ∨ row.baseId = name

/-- What a mode asks of a row. -/
def Wanted : RerunMode → RerunJobRow → Prop
  | .all, _ => True
  | .failed, row => row.status = "failure" ∨ row.status = "cancelled" ∨ row.status = "timed_out"
  | .job id, row => Names id row

/-- The ids a mode asks for. -/
def Seeds (mode : RerunMode) (jobs : List RerunJobRow) : Set JobId :=
  {id | ∃ row, Selectable jobs row ∧ Wanted mode row ∧ row.jobId = id}

/-- The rules by which a row joins a set of ids: a need of it names a member, its caller is a
    member, or it is the caller of a member. -/
inductive Joins (jobs : List RerunJobRow) (S : Set JobId) (row : RerunJobRow) : Prop
  | dependent (need : JobId) (member : RerunJobRow) (hneed : need ∈ row.needs)
      (hmember : member ∈ jobs) (hnames : Names need member) (hin : member.jobId ∈ S)
  | callee (caller : RerunJobRow) (hcaller : caller ∈ jobs)
      (hkind : caller.kind = "reusable_caller")
      (hparent : row.parentJobId = some caller.jobId) (hin : caller.jobId ∈ S)
  | caller (child : RerunJobRow) (hkind : row.kind = "reusable_caller") (hchild : child ∈ jobs)
      (hparent : child.parentJobId = some row.jobId) (hin : child.jobId ∈ S)

/-- A set that no selectable row has to join. -/
def RerunClosed (jobs : List RerunJobRow) (S : Set JobId) : Prop :=
  ∀ row, Selectable jobs row → Joins jobs S row → row.jobId ∈ S

variable {jobs jobs' : List RerunJobRow} {mode : RerunMode}

theorem mem_matchable {row : RerunJobRow} : row ∈ matchable jobs ↔ Selectable jobs row := by
  rw [matchable, List.mem_filter, Selectable, deadParent, Bool.not_eq_true',
    ← Bool.not_eq_true, Bool.and_eq_true, List.any_eq_true]
  simp only [decide_eq_true_eq]

theorem rowMatches_iff {row : RerunJobRow} {name : String} :
    rowMatches row name = true ↔ Names name row := by
  rw [rowMatches, Names]
  simp

/-- With the job ids a primary key, the kind of an id is that of its row. -/
theorem lookup_kindOf (hids : (jobs.map (·.jobId)).Nodup) {id : JobId} {kind : String} :
    (kindOf jobs).lookup id = some kind ↔ ∃ job ∈ jobs, job.jobId = id ∧ job.kind = kind := by
  constructor
  · intro h
    rcases List.mem_map.mp (SortedMap.mem_of_lookup_ofList h) with ⟨job, hjob, hpair⟩
    rcases Prod.mk.inj hpair with ⟨hid, hkind⟩
    exact ⟨job, hjob, hid, hkind⟩
  · rintro ⟨job, hjob, rfl, rfl⟩
    cases hlookup : (kindOf jobs).lookup job.jobId with
    | none =>
        exact absurd hlookup (SortedMap.lookup_ofList_ne_none
          (List.mem_map_of_mem (f := fun job => (job.jobId, job.kind)) hjob))
    | some kind =>
        rcases List.mem_map.mp (SortedMap.mem_of_lookup_ofList hlookup) with ⟨other, hother, hpair⟩
        rcases Prod.mk.inj hpair with ⟨hid, hkind⟩
        have hsame : other = job := List.inj_on_of_nodup_map hids hother hjob hid
        rw [← hkind, hsame]

theorem Joins.mono {S T : Set JobId} {row : RerunJobRow} (hsub : S ⊆ T) (h : Joins jobs S row) :
    Joins jobs T row := by
  cases h with
  | dependent need member hneed hmember hnames hin =>
      exact .dependent need member hneed hmember hnames (hsub hin)
  | callee caller hcaller hkind hparent hin =>
      exact .callee caller hcaller hkind hparent (hsub hin)
  | caller child hkind hchild hparent hin => exact .caller child hkind hchild hparent (hsub hin)

/-- The test of the loop decides the rules. -/
theorem decides_joins (hids : (jobs.map (·.jobId)).Nodup) :
    Decides (joins jobs) (Joins jobs) where
  mono := fun hsub h => h.mono hsub
  iff := by
    intro set row
    -- the three tests of the loop are the three rules
    rw [joins, Bool.or_eq_true, Bool.or_eq_true]
    constructor
    · rintro ((h | h) | h)
      · rcases List.any_eq_true.mp h with ⟨need, hneed, hany⟩
        rcases List.any_eq_true.mp hany with ⟨member, hmember, hin⟩
        rcases List.mem_filter.mp hmember with ⟨hmember, hmatch⟩
        exact .dependent need member hneed hmember (rowMatches_iff.mp hmatch)
          (of_decide_eq_true hin)
      · cases hparent : row.parentJobId with
        | none =>
            rw [hparent] at h
            cases h
        | some parent =>
            rw [hparent, Option.any_some] at h
            rcases Bool.and_eq_true_iff.mp h with ⟨hkind, hin⟩
            rcases (lookup_kindOf hids).mp (of_decide_eq_true hkind) with
              ⟨caller, hcaller, rfl, hcallerKind⟩
            exact .callee caller hcaller hcallerKind hparent (of_decide_eq_true hin)
      · rcases Bool.and_eq_true_iff.mp h with ⟨hkind, hany⟩
        rcases List.any_eq_true.mp hany with ⟨child, hchild, hboth⟩
        rcases Bool.and_eq_true_iff.mp hboth with ⟨hparent, hin⟩
        exact .caller child (of_decide_eq_true hkind) hchild (of_decide_eq_true hparent)
          (of_decide_eq_true hin)
    -- and each rule is found by its test
    · intro h
      cases h with
      | dependent need member hneed hmember hnames hin =>
          refine .inl (.inl (List.any_eq_true.mpr ⟨need, hneed, List.any_eq_true.mpr
            ⟨member, List.mem_filter.mpr ⟨hmember, rowMatches_iff.mpr hnames⟩, ?_⟩⟩))
          exact decide_eq_true hin
      | callee caller hcaller hkind hparent hin =>
          refine .inl (.inr ?_)
          have hlookup := (lookup_kindOf hids).mpr ⟨caller, hcaller, rfl, hkind⟩
          rw [hparent, Option.any_some, hlookup, decide_eq_true rfl, Bool.true_and]
          exact decide_eq_true hin
      | caller child hkind hchild hparent hin =>
          refine .inr (Bool.and_eq_true_iff.mpr ⟨decide_eq_true hkind, List.any_eq_true.mpr
            ⟨child, hchild, Bool.and_eq_true_iff.mpr ⟨decide_eq_true hparent, ?_⟩⟩⟩)
          exact decide_eq_true hin

theorem Selectable.congr (hsame : ∀ row, row ∈ jobs' ↔ row ∈ jobs) (row : RerunJobRow) :
    Selectable jobs' row ↔ Selectable jobs row := by
  simp only [Selectable, hsame]

theorem Joins.congr (hsame : ∀ row, row ∈ jobs' ↔ row ∈ jobs) : Joins jobs' = Joins jobs := by
  have hle : ∀ {as bs : List RerunJobRow}, (∀ row, row ∈ as → row ∈ bs) → ∀ {S row},
      Joins as S row → Joins bs S row := by
    intro as bs hsub S row h
    cases h with
    | dependent need member hneed hmember hnames hin =>
        exact .dependent need member hneed (hsub member hmember) hnames hin
    | callee caller hcaller hkind hparent hin =>
        exact .callee caller (hsub caller hcaller) hkind hparent hin
    | caller child hkind hchild hparent hin =>
        exact .caller child hkind (hsub child hchild) hparent hin
  funext S row
  exact propext ⟨hle fun row => (hsame row).mp, hle fun row => (hsame row).mpr⟩

theorem mem_seedRows {row : RerunJobRow} :
    row ∈ seedRows mode jobs ↔ Selectable jobs row ∧ Wanted mode row := by
  cases mode with
  | all =>
      rw [seedRows, mem_matchable]
      exact (and_iff_left trivial).symm
  | failed =>
      rw [seedRows, List.mem_filter, mem_matchable]
      simp [Wanted, or_assoc]
  | job id =>
      rw [seedRows, List.mem_filter, mem_matchable, rowMatches_iff]
      rfl

/-- The seeds, where the mode finds one. -/
theorem rerunSeeds_ok {seeds : Finset JobId} (h : rerunSeeds mode jobs = .ok seeds) :
    (seeds : Set JobId) = Seeds mode jobs := by
  have hseeds : seeds = ((seedRows mode jobs).map (·.jobId)).toFinset := by
    cases mode with
    | all => exact (Except.ok.inj h).symm
    | failed =>
        rw [rerunSeeds] at h
        split at h
        · cases h
        · exact (Except.ok.inj h).symm
    | job id =>
        rw [rerunSeeds] at h
        split at h
        · cases h
        · exact (Except.ok.inj h).symm
  rw [hseeds]
  ext id
  simp only [Finset.mem_coe, List.mem_toFinset, List.mem_map, mem_seedRows, Seeds,
    Set.mem_ofPred_eq, and_assoc]

/-- The seeds do not depend on the order of the rows, whether there are any or not. -/
theorem rerunSeeds_congr (hsame : ∀ row, row ∈ jobs' ↔ row ∈ jobs) :
    rerunSeeds mode jobs' = rerunSeeds mode jobs := by
  have hrows : ∀ row, row ∈ seedRows mode jobs' ↔ row ∈ seedRows mode jobs := by
    intro row
    rw [mem_seedRows, mem_seedRows, Selectable.congr hsame]
  have hseeds : ((seedRows mode jobs').map (·.jobId)).toFinset =
      ((seedRows mode jobs).map (·.jobId)).toFinset := by
    ext id
    simp only [List.mem_toFinset, List.mem_map, hrows]
  have hempty : (seedRows mode jobs').isEmpty = (seedRows mode jobs).isEmpty := by
    rw [Bool.eq_iff_iff, List.isEmpty_iff, List.isEmpty_iff, List.eq_nil_iff_forall_not_mem,
      List.eq_nil_iff_forall_not_mem]
    simp only [hrows]
  cases mode with
  | all => exact congrArg Except.ok hseeds
  | failed =>
      rw [rerunSeeds, rerunSeeds]
      simp only [hseeds]
  | job id =>
      rw [rerunSeeds, rerunSeeds]
      simp only [hseeds, hempty]

/-- A set that no row of the loop has to join is closed. -/
theorem closed_iff {S : Set JobId} :
    Closed (·.jobId) (Joins jobs) (matchable jobs) S ↔ RerunClosed jobs S :=
  forall_congr' fun _ => imp_congr_left mem_matchable

/-- What the loop finds is the least closed set. -/
theorem isLeast_rerunSet (hids : (jobs.map (·.jobId)).Nodup) {passes : Nat} {set : Finset JobId}
    (h : rerunSet passes mode jobs = some (.ok set)) :
    IsLeast {S : Set JobId | Seeds mode jobs ⊆ S ∧ RerunClosed jobs S} (set : Set JobId) := by
  rw [rerunSet] at h
  cases hseeds : rerunSeeds mode jobs with
  | error e =>
      rw [hseeds] at h
      cases h
  | ok seeds =>
      rw [hseeds] at h
      rcases Option.map_eq_some_iff.mp h with ⟨final, hfinal, hset⟩
      have hleast := isLeast_close (decides_joins hids) hfinal
      rw [Except.ok.inj hset, rerunSeeds_ok hseeds] at hleast
      simp only [closed_iff] at hleast
      exact hleast

/-- The loop ends. -/
theorem exists_rerunSet (hids : (jobs.map (·.jobId)).Nodup) {passes : Nat}
    (h : jobs.length < passes) : ∃ result, rerunSet passes mode jobs = some result := by
  rw [rerunSet]
  cases rerunSeeds mode jobs with
  | error e => exact ⟨.error e, rfl⟩
  | ok seeds =>
      have hlength : (matchable jobs).length < passes :=
        lt_of_le_of_lt (List.length_filter_le _ _) h
      rcases exists_close (decides_joins hids) hlength seeds with ⟨set, hset⟩
      exact ⟨.ok set, congrArg (Option.map _) hset⟩

/-- Neither the order of the rows nor the bound on the passes matters. -/
theorem rerunSet_congr (hids : (jobs.map (·.jobId)).Nodup) (hperm : jobs'.Perm jobs)
    {passes passes' : Nat} {result result' : Except (ControlError × String) (Finset JobId)}
    (h : rerunSet passes mode jobs = some result)
    (h' : rerunSet passes' mode jobs' = some result') : result' = result := by
  have hsame : ∀ row, row ∈ jobs' ↔ row ∈ jobs := fun row => hperm.mem_iff
  rw [rerunSet, rerunSeeds_congr hsame] at h'
  rw [rerunSet] at h
  cases hseeds : rerunSeeds mode jobs with
  | error e =>
      rw [hseeds] at h h'
      exact (Option.some.inj h').symm.trans (Option.some.inj h)
  | ok seeds =>
      rw [hseeds] at h h'
      rcases Option.map_eq_some_iff.mp h with ⟨set, hset, rfl⟩
      rcases Option.map_eq_some_iff.mp h' with ⟨set', hset', rfl⟩
      have hdecides := decides_joins ((hperm.map (·.jobId)).nodup_iff.mpr hids)
      rw [Joins.congr hsame] at hdecides
      have hrows : ∀ row, row ∈ matchable jobs' ↔ row ∈ matchable jobs := fun row => by
        rw [mem_matchable, mem_matchable, Selectable.congr hsame]
      exact congrArg Except.ok (close_congr (decides_joins hids) hdecides hrows hset hset')

/-! ## The selection of the command -/

section Command

variable {rows matchable : List Job} {set : List JobId} {n : Nat}

theorem kind_caller {kind : JobKind} : kind.asStr = "reusable_caller" ↔ kind = .reusableCaller := by
  cases kind <;> decide

theorem kind_parent {kind : JobKind} : kind.asStr = "matrix_parent" ↔ kind = .matrixParent := by
  cases kind <;> decide

/-- The test of a round is the test of the rules. -/
theorem joinsRerun_iff {j : Job} : joinsRerun rows set j = true ↔
    Joins (rows.map RerunJobRow.ofJob) {id | id ∈ set} (.ofJob j) := by
  unfold joinsRerun
  rw [Bool.or_eq_true, Bool.or_eq_true]
  constructor
  -- the three tests of a round are the three rules
  · rintro ((h | h) | h)
    · rcases List.any_eq_true.mp h with ⟨need, hneed, hany⟩
      rcases List.any_eq_true.mp hany with ⟨d, hd, hboth⟩
      rcases Bool.and_eq_true_iff.mp hboth with ⟨hnames, hin⟩
      refine .dependent need (.ofJob d) hneed (List.mem_map_of_mem hd) ?_
        (List.contains_iff_mem.mp hin)
      simpa [Names, RerunJobRow.ofJob] using hnames
    · cases hparent : j.parentJobId with
      | none =>
          rw [hparent] at h
          cases h
      | some parent =>
          rw [hparent, Option.any_some] at h
          rcases Bool.and_eq_true_iff.mp h with ⟨hin, hany⟩
          rcases List.any_eq_true.mp hany with ⟨d, hd, hboth⟩
          rcases Bool.and_eq_true_iff.mp hboth with ⟨hid, hkind⟩
          have hid' : d.jobId = parent := of_decide_eq_true hid
          subst hid'
          exact .callee (.ofJob d) (List.mem_map_of_mem hd)
            (kind_caller.mpr (of_decide_eq_true hkind)) hparent (List.contains_iff_mem.mp hin)
    · rcases Bool.and_eq_true_iff.mp h with ⟨hkind, hany⟩
      rcases List.any_eq_true.mp hany with ⟨child, hchild, hboth⟩
      rcases Bool.and_eq_true_iff.mp hboth with ⟨hparent, hin⟩
      exact .caller (.ofJob child) (kind_caller.mpr (of_decide_eq_true hkind))
        (List.mem_map_of_mem hchild) (of_decide_eq_true hparent) (List.contains_iff_mem.mp hin)
  -- and each rule is found by its test
  · intro h
    cases h with
    | dependent need member hneed hmember hnames hin =>
        rcases List.mem_map.mp hmember with ⟨d, hd, rfl⟩
        refine .inl (.inl (List.any_eq_true.mpr ⟨need, hneed, List.any_eq_true.mpr ⟨d, hd, ?_⟩⟩))
        refine Bool.and_eq_true_iff.mpr ⟨?_, List.contains_iff_mem.mpr hin⟩
        simpa [Names, RerunJobRow.ofJob] using hnames
    | callee caller hcaller hkind hparent hin =>
        rcases List.mem_map.mp hcaller with ⟨d, hd, rfl⟩
        refine .inl (.inr ?_)
        have hfound : j.parentJobId = some d.jobId := hparent
        rw [hfound, Option.any_some]
        refine Bool.and_eq_true_iff.mpr ⟨List.contains_iff_mem.mpr hin,
          List.any_eq_true.mpr ⟨d, hd, Bool.and_eq_true_iff.mpr
            ⟨decide_eq_true rfl, decide_eq_true (kind_caller.mp hkind)⟩⟩⟩
    | caller child hkind hchild hparent hin =>
        rcases List.mem_map.mp hchild with ⟨d, hd, rfl⟩
        refine .inr (Bool.and_eq_true_iff.mpr ⟨decide_eq_true (kind_caller.mp hkind),
          List.any_eq_true.mpr ⟨d, hd, ?_⟩⟩)
        exact Bool.and_eq_true_iff.mpr ⟨decide_eq_true hparent, List.contains_iff_mem.mpr hin⟩

/-- What joins in one round. -/
def joiners (rows matchable : List Job) (set : List JobId) : List JobId :=
  (matchable.filter fun j => !set.contains j.jobId && joinsRerun rows set j).map Job.jobId

theorem growRerun_succ : growRerun rows matchable (n + 1) set =
    growRerun rows matchable n (set ++ joiners rows matchable set) := rfl

theorem mem_joiners {id : JobId} : id ∈ joiners rows matchable set ↔
    ∃ j ∈ matchable, j.jobId ∉ set ∧ joinsRerun rows set j = true ∧ j.jobId = id := by
  unfold joiners
  simp only [List.mem_map, List.mem_filter, Bool.and_eq_true, Bool.not_eq_true',
    List.contains_eq_mem, decide_eq_false_iff_not, and_assoc]

theorem mem_growRerun {id : JobId} (h : id ∈ set) : id ∈ growRerun rows matchable n set := by
  induction n generalizing set with
  | zero => exact h
  | succ n ih => exact ih (List.mem_append_left _ h)

/-- Every closed set has what joins. -/
theorem growRerun_least {S : Set JobId}
    (hclosed : ∀ j ∈ matchable, Joins (rows.map RerunJobRow.ofJob) S (.ofJob j) → j.jobId ∈ S)
    (hset : ∀ id ∈ set, id ∈ S) : ∀ id ∈ growRerun rows matchable n set, id ∈ S := by
  induction n generalizing set with
  | zero => exact hset
  | succ n ih =>
      refine ih fun id hid => ?_
      rcases List.mem_append.mp hid with hid | hid
      · exact hset id hid
      · rcases mem_joiners.mp hid with ⟨j, hj, -, hjoins, rfl⟩
        exact hclosed j hj ((joinsRerun_iff.mp hjoins).mono hset)

/-- A round in which nothing joins is the last. -/
theorem growRerun_fixed (h : joiners rows matchable set = []) :
    growRerun rows matchable n set = set := by
  induction n with
  | zero => rfl
  | succ n ih => rw [growRerun_succ, h, List.append_nil, ih]

/-- As many rounds as keys are missing leave nothing that has to join, since every round but
    the last adds a key. -/
theorem growRerun_closed
    (hn : (missing Job.jobId matchable set.toFinset).card ≤ n) {j : Job} (hj : j ∈ matchable)
    (hjoins : joinsRerun rows (growRerun rows matchable n set) j = true) :
    j.jobId ∈ growRerun rows matchable n set := by
  induction n generalizing set with
  | zero =>
      -- no key is missing, and the one that joins is a key
      by_contra hout
      have hmissing : j.jobId ∈ missing Job.jobId matchable set.toFinset :=
        Finset.mem_sdiff.mpr ⟨List.mem_toFinset.mpr (List.mem_map_of_mem hj),
          fun hin => hout (List.mem_toFinset.mp hin)⟩
      have hempty := Finset.card_eq_zero.mp (Nat.le_zero.mp hn)
      rw [hempty] at hmissing
      cases hmissing
  | succ n ih =>
      -- a round without joiners leaves the set as it is
      by_cases hnone : joiners rows matchable set = []
      · rw [growRerun_fixed hnone] at hjoins ⊢
        by_contra hout
        have hmem := mem_joiners.mpr ⟨j, hj, hout, hjoins, rfl⟩
        rw [hnone] at hmem
        cases hmem
      · rcases List.exists_mem_of_ne_nil _ hnone with ⟨id, hid⟩
        -- a joiner was missing and is not missing any more
        have hlt : (missing Job.jobId matchable
            (set ++ joiners rows matchable set).toFinset).card <
              (missing Job.jobId matchable set.toFinset).card := by
          refine Finset.card_lt_card ⟨fun k hk => ?_, fun hsub => ?_⟩
          · rcases Finset.mem_sdiff.mp hk with ⟨hkey, hout⟩
            refine Finset.mem_sdiff.mpr ⟨hkey, fun hin => hout ?_⟩
            exact List.mem_toFinset.mpr (List.mem_append_left _ (List.mem_toFinset.mp hin))
          · rcases mem_joiners.mp hid with ⟨d, hd, hout, -, rfl⟩
            have hmissing : d.jobId ∈ missing Job.jobId matchable set.toFinset :=
              Finset.mem_sdiff.mpr ⟨List.mem_toFinset.mpr (List.mem_map_of_mem hd),
                fun hin => hout (List.mem_toFinset.mp hin)⟩
            have hkept := (Finset.mem_sdiff.mp (hsub hmissing)).2
            exact hkept (List.mem_toFinset.mpr (List.mem_append_right _ hid))
        have hleft : (missing Job.jobId matchable
            (set ++ joiners rows matchable set).toFinset).card ≤ n := by omega
        exact ih hleft hjoins

/-- The rows of a command that may be selected. -/
def liveRows (rows : List Job) : List Job :=
  rows.filter fun j =>
    !(j.kind = .matrixParent && rows.any fun c => c.parentJobId = some j.jobId)

/-- The rows a mode asks a command for. -/
def seedJobs (mode : RerunMode) (rows : List Job) : List Job :=
  match mode with
  | .all => liveRows rows
  | .failed => (liveRows rows).filter fun j => j.status = .failure || j.status = .cancelled
  | .job id => (liveRows rows).filter fun j => j.jobId = id || j.baseId = id

theorem matchable_ofJob (rows : List Job) :
    Selection.matchable (rows.map RerunJobRow.ofJob) =
      (liveRows rows).map RerunJobRow.ofJob := by
  unfold Selection.matchable liveRows
  rw [List.filter_map]
  congr 1
  refine List.filter_congr fun j _ => ?_
  have hkind : decide (j.kind.asStr = "matrix_parent") = decide (j.kind = .matrixParent) :=
    decide_eq_decide.mpr kind_parent
  rw [Function.comp_apply, deadParent, List.any_map]
  change (!(decide (j.kind.asStr = "matrix_parent") && _)) = _
  rw [hkind]
  rfl

theorem status_failed (status : ExecutionStatus) :
    (decide (status.statusStr = "failure") || decide (status.statusStr = "cancelled") ||
        decide (status.statusStr = "timed_out")) =
      (decide (status = .failure) || decide (status = .cancelled)) := by
  cases status <;> decide

theorem seedRows_ofJob (mode : RerunMode) (rows : List Job) :
    seedRows mode (rows.map RerunJobRow.ofJob) = (seedJobs mode rows).map .ofJob := by
  cases mode with
  | all => exact matchable_ofJob rows
  | failed =>
      unfold seedRows seedJobs
      dsimp only
      rw [matchable_ofJob, List.filter_map]
      congr 1
      refine List.filter_congr fun j _ => ?_
      exact status_failed j.status
  | job id =>
      unfold seedRows seedJobs
      dsimp only
      rw [matchable_ofJob, List.filter_map]
      rfl

theorem mem_seeds_ofJob {mode : RerunMode} {id : JobId} :
    id ∈ Seeds mode (rows.map .ofJob) ↔ id ∈ (seedJobs mode rows).map Job.jobId := by
  have hrow : ∀ row, Selectable (rows.map .ofJob) row ∧ Wanted mode row ↔
      ∃ j ∈ seedJobs mode rows, RerunJobRow.ofJob j = row := fun row => by
    rw [← mem_seedRows, seedRows_ofJob, List.mem_map]
  rw [List.mem_map]
  constructor
  · rintro ⟨row, hselectable, hwanted, rfl⟩
    rcases (hrow row).mp ⟨hselectable, hwanted⟩ with ⟨j, hj, rfl⟩
    exact ⟨j, hj, rfl⟩
  · rintro ⟨j, hj, rfl⟩
    rcases (hrow (.ofJob j)).mpr ⟨j, hj, rfl⟩ with ⟨hselectable, hwanted⟩
    exact ⟨.ofJob j, hselectable, hwanted, rfl⟩

/-- The rounds of the command find the least closed set. -/
theorem isLeast_growRerun (mode : RerunMode) (rows : List Job) :
    IsLeast {S : Set JobId |
        Seeds mode (rows.map .ofJob) ⊆ S ∧ RerunClosed (rows.map .ofJob) S}
      {id | id ∈ growRerun rows (liveRows rows) rows.length
        ((seedJobs mode rows).map Job.jobId)} := by
  have hselectable : ∀ row, Selectable (rows.map .ofJob) row ↔
      ∃ j ∈ liveRows rows, RerunJobRow.ofJob j = row := fun row => by
    rw [← mem_matchable, matchable_ofJob, List.mem_map]
  have hbound : (missing Job.jobId (liveRows rows)
      ((seedJobs mode rows).map Job.jobId).toFinset).card ≤ rows.length :=
    calc (missing Job.jobId (liveRows rows) ((seedJobs mode rows).map Job.jobId).toFinset).card
        ≤ ((liveRows rows).map Job.jobId).toFinset.card :=
          Finset.card_le_card Finset.sdiff_subset
      _ ≤ ((liveRows rows).map Job.jobId).length := List.toFinset_card_le _
      _ = (liveRows rows).length := List.length_map _
      _ ≤ rows.length := List.length_filter_le _ _
  refine ⟨⟨fun id hid => mem_growRerun (mem_seeds_ofJob.mp hid), fun row hrow hjoins => ?_⟩, ?_⟩
  · rcases (hselectable row).mp hrow with ⟨j, hj, rfl⟩
    exact growRerun_closed hbound hj (joinsRerun_iff.mpr hjoins)
  · rintro S ⟨hseeds, hclosed⟩ id hid
    refine growRerun_least (fun j hj => ?_)
      (fun id hid => hseeds (mem_seeds_ofJob.mpr hid)) id hid
    exact hclosed (.ofJob j) ((hselectable _).mpr ⟨j, hj, rfl⟩)

/-- Where the mode finds its seeds, the two loops find the same selection. -/
theorem rerunSet_of_seeds (hids : (rows.map Job.jobId).Nodup) {mode : RerunMode}
    {seeds : Finset JobId} (hseeds : rerunSeeds mode (rows.map .ofJob) = .ok seeds)
    {passes : Nat} (hpasses : rows.length < passes) :
    rerunSet passes mode (rows.map .ofJob) =
      some (.ok (growRerun rows (liveRows rows) rows.length
        ((seedJobs mode rows).map Job.jobId)).toFinset) := by
  have hids' : ((rows.map RerunJobRow.ofJob).map (·.jobId)).Nodup := by
    rw [List.map_map]
    exact hids
  rcases exists_rerunSet hids' (by rwa [List.length_map]) with ⟨result, hresult⟩
  have hset : ∃ set, result = .ok set := by
    have hfound := hresult
    rw [rerunSet, hseeds] at hfound
    rcases Option.map_eq_some_iff.mp hfound with ⟨set, -, rfl⟩
    exact ⟨set, rfl⟩
  rcases hset with ⟨set, rfl⟩
  have hsame := (isLeast_rerunSet hids' hresult).unique (isLeast_growRerun mode rows)
  rw [hresult]
  congr 2
  ext id
  rw [List.mem_toFinset]
  exact Set.ext_iff.mp hsame id

/-- The selection of the command is that of `rerun_set`: the same rows, or the same refusal. -/
theorem rerunSet_agrees (hids : (rows.map Job.jobId).Nodup) (mode : RerunMode) {passes : Nat}
    (hpasses : rows.length < passes) :
    (∀ ids, Preloop.rerunSet mode rows = .ok ids →
      rerunSet passes mode (rows.map .ofJob) = some (.ok ids.toFinset)) ∧
    ∀ e, Preloop.rerunSet mode rows = .error e →
      ∃ text, rerunSet passes mode (rows.map .ofJob) = some (.error (e, text)) := by
  have hseeds := seedRows_ofJob mode rows
  cases mode with
  | all =>
      refine ⟨fun ids h => ?_, fun e h => by cases h⟩
      rw [rerunSet_of_seeds hids rfl hpasses, ← Except.ok.inj h]
      rfl
  | failed =>
      have hcommand : Preloop.rerunSet .failed rows =
          (if (seedJobs .failed rows).isEmpty then Except.error ControlError.conflict
            else .ok (seedJobs .failed rows)).map fun seeds =>
              growRerun rows (liveRows rows) rows.length (seeds.map Job.jobId) := rfl
      -- the command refuses an empty seed, and only the text of the refusal is the pure function's
      -- own
      rw [hcommand]
      by_cases hempty : (seedJobs .failed rows).isEmpty = true
      · rw [if_pos hempty]
        refine ⟨fun ids h => (by cases h), fun e h => ?_⟩
        cases h
        refine ⟨"run has no failed or cancelled jobs to re-run", ?_⟩
        rw [rerunSet, rerunSeeds, hseeds, List.isEmpty_iff.mp hempty]
        rfl
      -- with a seed, both grow the same set
      · rw [if_neg hempty]
        refine ⟨fun ids h => ?_, fun e h => by cases h⟩
        have hfound : (((seedRows .failed (rows.map .ofJob)).map (·.jobId)).toFinset) ≠ ∅ := by
          rw [hseeds]
          intro hnone
          refine hempty (List.isEmpty_iff.mpr ?_)
          simpa using hnone
        have hchosen : rerunSeeds .failed (rows.map .ofJob) =
            .ok ((seedRows .failed (rows.map .ofJob)).map (·.jobId)).toFinset := if_neg hfound
        rw [rerunSet_of_seeds hids hchosen hpasses, ← Except.ok.inj h]
  | job id =>
      -- the same two ways, with the other refusal
      have hcommand : Preloop.rerunSet (.job id) rows =
          (if (seedJobs (.job id) rows).isEmpty then Except.error ControlError.notFound
            else .ok (seedJobs (.job id) rows)).map fun seeds =>
              growRerun rows (liveRows rows) rows.length (seeds.map Job.jobId) := rfl
      rw [hcommand]
      by_cases hempty : (seedJobs (.job id) rows).isEmpty = true
      · rw [if_pos hempty]
        refine ⟨fun ids h => (by cases h), fun e h => ?_⟩
        cases h
        refine ⟨s!"no job matching `{id}` in this run", ?_⟩
        rw [rerunSet, rerunSeeds, hseeds, List.isEmpty_iff.mp hempty]
        rfl
      · rw [if_neg hempty]
        refine ⟨fun ids h => ?_, fun e h => by cases h⟩
        have hfound : ¬ (seedRows (.job id) (rows.map .ofJob)).isEmpty = true := by
          rw [hseeds, List.isEmpty_map]
          exact hempty
        have hchosen : rerunSeeds (.job id) (rows.map .ofJob) =
            .ok ((seedRows (.job id) (rows.map .ofJob)).map (·.jobId)).toFinset := if_neg hfound
        rw [rerunSet_of_seeds hids hchosen hpasses, ← Except.ok.inj h]

end Command

/-- The loop of the selection ends, and what it finds is the least set of job ids with those
    the mode asks for that is closed under the rules, in whatever order the rows come. -/
theorem rerun_set_least (mode : RerunMode) (jobs : List RerunJobRow)
    (hids : (jobs.map (·.jobId)).Nodup) :
    ∃ result, (∀ passes, jobs.length < passes → rerunSet passes mode jobs = some result) ∧
      (∀ set, result = .ok set →
        IsLeast {S : Set JobId | Seeds mode jobs ⊆ S ∧ RerunClosed jobs S} (set : Set JobId)) ∧
      ∀ jobs' : List RerunJobRow, jobs'.Perm jobs → ∀ passes, jobs.length < passes →
        rerunSet passes mode jobs' = some result := by
  rcases exists_rerunSet hids (Nat.lt_succ_self jobs.length) with ⟨result, hresult⟩
  have hall : ∀ jobs' : List RerunJobRow, jobs'.Perm jobs → ∀ passes, jobs.length < passes →
      rerunSet passes mode jobs' = some result := by
    intro jobs' hperm passes hpasses
    have hids' := (hperm.map (·.jobId)).nodup_iff.mpr hids
    rcases exists_rerunSet hids' (hperm.length_eq.trans_lt hpasses) with ⟨result', hresult'⟩
    rw [hresult', rerunSet_congr hids hperm hresult hresult']
  refine ⟨result, hall jobs (List.Perm.refl jobs), fun set hset => ?_, hall⟩
  exact isLeast_rerunSet hids (hset ▸ hresult)

/-- A failed leg of a called workflow takes its caller with it, and through the caller the
    other jobs of the call and what needs the call. -/
theorem rerun_set_least_of_leg :
    let jobs : List RerunJobRow :=
      [⟨"deploy", "job", "deploy", none, "skipped", ["call"]⟩,
        ⟨"call/lint", "job", "call/lint", some "call", "success", []⟩,
        ⟨"call/test (1)", "matrix_leg", "call/test", some "call/test", "failure", []⟩,
        ⟨"call/test", "matrix_parent", "call/test", some "call", "failure", []⟩,
        ⟨"call/report", "job", "call/report", some "call", "skipped", ["call/test"]⟩,
        ⟨"call", "reusable_caller", "call", none, "failure", []⟩,
        ⟨"docs", "job", "docs", none, "success", []⟩]
    (rerunSet 8 .failed jobs).map Except.toOption =
        some (some {"deploy", "call/lint", "call/test (1)", "call/report", "call"}) ∧
      ∃ result, ∀ passes, 7 < passes → rerunSet passes .failed jobs.reverse = some result := by
  intro jobs
  refine ⟨by decide, ?_⟩
  rcases rerun_set_least .failed jobs (by decide) with ⟨result, -, -, hall⟩
  exact ⟨result, hall jobs.reverse (List.reverse_perm jobs)⟩

end Selection

end Preloop

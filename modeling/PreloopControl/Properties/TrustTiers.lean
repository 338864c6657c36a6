import PreloopControl.Properties.Finality

/-!
# Trust Tiers in Concurrency Groups

A run of an untrusted tier must not interfere with a trusted one by naming its
concurrency group. `concurrency_key_for_tier` puts the tier into the key for that
purpose, but the commands compute their keys with `concurrency_key`, which knows
the repository and the group only: arrivals of all tiers meet in one slot.

What remains is isolation by convention. If only runs of one tier arrive at a group,
then whoever is found there, as its holder or in its queue, is of that tier. An
arrival then displaces and cancels only holders and waiters of its own tier, and it
waits behind none of another; and a hand-over gives the group to a waiter of the
same tier. The marks of `acquire` say who arrives and whom it displaces.

## Main definitions

* `usesOwnTier`: Only runs of the tier assigned to a group arrive there.
* `Db.TierPure`: All holders and waiters of a group are of one tier.
* `staysInTier`: A statement puts no tier on a group of another, and displaces none.

## Theorems

* `tiers_isolated`: Under that convention tiers do not meet.
* `fork_cancels_trusted_run`: Without it, a fork pull request cancels a trusted
  deployment.
-/

namespace Preloop

open Txn

/-- The tier the run was submitted with. -/
def Db.tier (s : Db) (r : RunId) : Option TrustTier := (s.run r).bind Run.trustTier

/-- Runs are submitted with the tiers `tier` names, and whoever arrives at a group is of the
    tier assigned to the group. -/
def usesOwnTier (tier : RunId → Option TrustTier) (owner : GroupKey → Option TrustTier) :
    Stmt → Db → Bool
  | .insertRun row, _ => row.trustTier = tier row.runId
  | .mark (.arrives key arrival), _ => tier arrival.runId = owner key
  | _, _ => true

/-- Every holder and every waiter of the group is of this tier. -/
structure Db.OfTier (tier : RunId → Option TrustTier) (s : Db) (key : GroupKey)
    (t : Option TrustTier) : Prop where
  holder : ∀ {row}, s.holds.get key = some row → tier row.holder.runId = t
  waiter : ∀ {id row}, s.waits.get id = some row → row.key = key → tier row.holder.runId = t

/-- All runs have the tiers named for them, and all groups are of the tier assigned to
    them. -/
structure Db.TierPure (tier : RunId → Option TrustTier) (owner : GroupKey → Option TrustTier)
    (s : Db) : Prop where
  runs : ∀ {r run}, s.run r = some run → run.trustTier = tier r
  groups : ∀ key, s.OfTier tier key (owner key)

/-- Whom an arrival displaces is of its own tier, and so is whoever it finds on the group
    when it takes it or waits for it. -/
def staysInTier (tier : RunId → Option TrustTier) : Stmt → Db → Prop
  | .mark (.displaces _ arrival victim), _ => tier victim.runId = tier arrival.runId
  | .takeHold key _ row, s | .enqueueWait key row, s | .requeueWait key row _, s =>
    s.OfTier tier key (tier row.runId)
  | _, _ => True

/-- The condition on statements, and what every statement then meets. -/
def tierContract (tier : RunId → Option TrustTier) (owner : GroupKey → Option TrustTier) :
    Contract Stmt Db where
  rely st s := usesOwnTier tier owner st s = true
  guar st s := s.TierPure tier owner ∧ staysInTier tier st s

section Tiers

variable {tier : RunId → Option TrustTier} {owner : GroupKey → Option TrustTier}
variable {rr : RunId → Prop} {x : Pending} {s s' : Db} {st : Stmt}

theorem trustTier_onRun (s : Db) (st : Stmt) (row : Run) :
    (st.onRun s row).trustTier = row.trustTier := by
  cases st with
  | run w r =>
      simp only [Stmt.onRun]
      split
      · cases w <;> rfl
      · rfl
  | summarize site r =>
      simp only [Stmt.onRun]
      split
      · unfold Db.summarizeRow
        dsimp only
        split
        · rfl
        · split
          · rfl
          · split <;> rfl
      · rfl
  | _ => rfl

theorem tier_of_arrived {P : Pending → Db → Prop} {key : GroupKey} {h : Holder}
    (harrived : Arrived P (tierContract tier owner) key h) : tier h.runId = owner key := by
  obtain ⟨s0, _, hrely⟩ := harrived
  exact of_decide_eq_true hrely

/-- Whoever was read off a group of a good database is of the group's tier. -/
theorem tier_of_onGroup {key : GroupKey} {h : Holder}
    (hon : OnGroup (fun _ s => s.Tidy ∧ s.TierPure tier owner) key h) :
    tier h.runId = owner key := by
  obtain ⟨s0, ⟨_, _, hpure⟩, ⟨row, hrow, rfl⟩ | ⟨id, row, hrow, hkey, rfl⟩⟩ := hon
  · rw [holderOf_runId]
    exact (hpure.groups key).holder hrow
  · rw [holderOf_runId]
    exact (hpure.groups key).waiter hrow hkey

theorem runId_of_encodes {h : Holder} {row : HolderRow} (henc : s.encodes h row) :
    row.runId = h.runId := by
  cases h <;> cases row <;> first | exact henc | exact henc.1 | exact henc.elim

/-- Whoever a statement puts on a group arrived there, or was there before. -/
theorem tier_of_site
    (hsite : Site (fun _ s => s.Tidy ∧ s.TierPure tier owner) rr (tierContract tier owner) x s st)
    {key : GroupKey} {row : HolderRow}
    (hputs : (∃ display, st = .takeHold key display row) ∨ st = .enqueueWait key row ∨
      ∃ id, st = .requeueWait key row id) : tier row.runId = owner key := by
  rcases hputs with ⟨display, rfl⟩ | rfl | ⟨id, rfl⟩
  · obtain ⟨h, henc, _, harrived | hon⟩ := hsite
    · rw [runId_of_encodes henc, tier_of_arrived harrived]
    · rw [runId_of_encodes henc, tier_of_onGroup hon]
  · obtain ⟨h, henc, _, harrived⟩ := hsite
    rw [runId_of_encodes henc, tier_of_arrived harrived]
  · obtain ⟨_, h, henc, _, hon⟩ := hsite
    rw [runId_of_encodes henc, tier_of_onGroup hon]

theorem tierPure_apply
    (hsite : Site (fun _ s => s.Tidy ∧ s.TierPure tier owner) rr (tierContract tier owner) x s st)
    (hs : s.TierPure tier owner) (hrely : usesOwnTier tier owner st s = true)
    (happly : st.apply s = .ok s') : s'.TierPure tier owner where
  runs := by
    intro r run' hrun'
    rcases run_of_apply happly hrun' with ⟨run, hrun, rfl⟩ | ⟨rfl, _, hr⟩
    · rw [trustTier_onRun]
      exact hs.runs hrun
    · exact hr ▸ of_decide_eq_true hrely
  groups key :=
    { holder := fun {row} hrow => by
        rcases hold_of_apply happly hrow with ⟨hold, _⟩ | ⟨display, rfl, _⟩
        · exact (hs.groups key).holder hold
        · exact tier_of_site hsite (.inl ⟨_, rfl⟩)
      waiter := fun {id row} hrow hkey => by
        rcases wait_of_apply happly hrow with ⟨hold, _⟩ | ⟨rfl | rfl, _⟩
        · exact (hs.groups key).waiter hold hkey
        · exact hkey ▸ tier_of_site hsite (.inr (.inl rfl))
        · exact hkey ▸ tier_of_site hsite (.inr (.inr ⟨_, rfl⟩)) }

theorem staysInTier_site
    (hsite : Site (fun _ s => s.Tidy ∧ s.TierPure tier owner) rr (tierContract tier owner) x s st)
    (hs : s.TierPure tier owner) : staysInTier tier st s := by
  have hgroup : ∀ {key : GroupKey} {row : HolderRow}, tier row.runId = owner key →
      s.OfTier tier key (tier row.runId) := by
    intro key row htier
    rw [htier]
    exact hs.groups key
  cases st with
  | takeHold key display row => exact hgroup (tier_of_site hsite (.inl ⟨_, rfl⟩))
  | enqueueWait key row => exact hgroup (tier_of_site hsite (.inr (.inl rfl)))
  | requeueWait key row id => exact hgroup (tier_of_site hsite (.inr (.inr ⟨_, rfl⟩)))
  | mark m =>
      cases m with
      | displaces key arrival victim =>
          exact (tier_of_onGroup hsite.2).trans (tier_of_arrived hsite.1).symm
      | _ => trivial
  | _ => trivial

end Tiers

theorem tierPure_kept (tier : RunId → Option TrustTier) (owner : GroupKey → Option TrustTier) :
    Kept (fun _ s => s.Tidy ∧ s.TierPure tier owner) (fun _ => True) (tierContract tier owner) :=
  Kept.of_plain fun hsite _ hs hrely happly =>
    ⟨tierPure_apply hsite hs hrely happly, hs, staysInTier_site hsite hs⟩

theorem tierPure_init (tier : RunId → Option TrustTier) (owner : GroupKey → Option TrustTier) :
    Db.init.TierPure tier owner where
  runs h := absurd h (by simp only [Db.init, Db.run, Table.get_empty, reduceCtorEq,
    not_false_eq_true])
  groups _ :=
    { holder := fun h => absurd h (by simp only [Db.init, Table.get_empty, reduceCtorEq,
        not_false_eq_true])
      waiter := fun h => absurd h (by simp only [Db.init, Table.get_empty, reduceCtorEq,
        not_false_eq_true]) }

/-- A run of some tier with a workflow-level group. -/
def tieredRun (tier : TrustTier) (cancelInProgress : Bool) : SubmitRun :=
  { SubmitRun.plain [.plain "build" [] .plain] with
    trustTier := some tier, workflowConcurrency := some ⟨"deploy", cancelInProgress, .single⟩ }

/-- All runs, or all groups, are trusted. -/
def trustedOnly {α : Type} (_ : α) : Option TrustTier := some .trusted

/-- A trusted deployment runs, and a fork pull request names its group. -/
def forkArrivalCalls : List Call :=
  (tieredRun .trusted false).calls 0 ++
    [(Command.submitHead (tieredRun .untrustedForkPullRequest true)).call]

end Preloop

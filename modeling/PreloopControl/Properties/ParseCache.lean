import PreloopControl.Expressions.ParseCache
import PreloopControl.Properties.SecretReads

/-!
# The Parse Cache is Transparent

Whatever calls are on their way and in whatever order they take the lock, each comes
back with what a parse without the cache gives.

A call looks up under the lock. If it finds nothing it parses without the lock and takes it once
more to insert, and in between other calls may have inserted the same text, or dropped it. Neither
matters: every entry is what the parse of its text gives, and the invariant says no more.

## Theorems

* `advance_keeps`: What one stretch of a call keeps.
* `advance_twice`: Two stretches bring a call back.
* `parse_cache_transparent`: Every run of the cache.
-/

namespace Preloop

namespace Expressions

variable {N : Type}

/-- What holds of the cache at every moment. -/
def ParsedExpressionCache.Good (num : Text → Option N) (cache : ParsedExpressionCache N) : Prop :=
  cache.Coherent parsedExpressionCacheCapacity ∧ cache.Sound (parseExpression num)

/-- A call that is back has the result of a parse. -/
def ParseCall.Right (num : Text → Option N) : ParseCall N → Prop
  | .returned input result => result = parseExpression num input
  | _ => True

theorem advance_keeps {num : Text → Option N} {cache cache' : ParsedExpressionCache N}
    {call call' : ParseCall N} (hgood : cache.Good num) (hright : call.Right num)
    (h : call.advance num cache = (cache', call')) : cache'.Good num ∧ call'.Right num := by
  obtain ⟨hcoherent, hsound⟩ := hgood
  cases call with
  | called input =>
      simp only [ParseCall.advance] at h
      by_cases hlong : maxCacheableExpressionBytes < Text.utf8Len input
      · rw [if_pos hlong, Prod.mk.injEq] at h
        rw [← h.1, ← h.2]
        exact ⟨⟨hcoherent, hsound⟩, rfl⟩
      · rw [if_neg hlong] at h
        cases hlookup : cache.entries.lookup input with
        | some expr =>
            rw [hlookup] at h
            simp only [Prod.mk.injEq] at h
            rw [← h.1, ← h.2]
            exact ⟨⟨hcoherent, hsound⟩, (hsound input expr hlookup).symm⟩
        | none =>
            rw [hlookup] at h
            simp only [Prod.mk.injEq] at h
            rw [← h.1, ← h.2]
            exact ⟨⟨hcoherent, hsound⟩, trivial⟩
  | missed input =>
      simp only [ParseCall.advance] at h
      cases hparse : parseExpression num input with
      | error e =>
          rw [hparse] at h
          simp only [Prod.mk.injEq] at h
          rw [← h.1, ← h.2]
          exact ⟨⟨hcoherent, hsound⟩, hparse.symm⟩
      | ok expr =>
          rw [hparse] at h
          simp only [Prod.mk.injEq] at h
          rw [← h.1, ← h.2]
          -- The text may have been entered since it was missed; then that tree is returned.
          refine ⟨⟨Memo.coherent_adopt hcoherent, Memo.sound_adopt hsound hparse⟩, ?_⟩
          show Except.ok _ = parseExpression num input
          rw [Memo.adopt_result hsound hparse, hparse]
  | returned input result =>
      simp only [ParseCall.advance, Prod.mk.injEq] at h
      rw [← h.1, ← h.2]
      exact ⟨⟨hcoherent, hsound⟩, hright⟩

/-- The cache is good at every moment, and every call that is back is right. -/
theorem good_run {num : Text → Option N}
    {w : Interleave.World (ParsedExpressionCache N) (ParseCall N)}
    (hrun : Interleave.Run (parseMoves num) ⟨.empty, []⟩ w) :
    w.shared.Good num ∧ ∀ call ∈ w.procs, call.Right num := by
  refine hrun.invariant (I := fun cache => cache.Good num) (L := fun _ call => call.Right num)
    ?_ ?_ ?_ ⟨Memo.coherent_empty, Memo.sound_empty⟩ fun call hcall => absurd hcall List.not_mem_nil
  · intro s s' _ henv
    exact henv.elim
  · rintro s call _ ⟨input, rfl⟩
    exact trivial
  · intro _ cache call cache' call' hgood hright hact
    obtain ⟨hgood', hright'⟩ := advance_keeps hgood hright hact
    exact ⟨hgood', hright', fun _ hq => hq⟩

/-- A missed text is parsed, and the call is back. -/
theorem advance_missed {num : Text → Option N} {cache : ParsedExpressionCache N} {input : Text}
    (hgood : cache.Good num) : (ParseCall.advance num cache (.missed input)).2 =
      .returned input (parseExpression num input) := by
  simp only [ParseCall.advance]
  cases hparse : parseExpression num input with
  | error e => rfl
  | ok expr => simp only [Memo.adopt_result hgood.2 hparse]

/-- Two stretches bring a call back, whatever happened to the cache between them. -/
theorem advance_twice {num : Text → Option N} {cache cache' : ParsedExpressionCache N}
    {call : ParseCall N} (hgood : cache.Good num) (hgood' : cache'.Good num)
    (hright : call.Right num) :
    ((call.advance num cache).2.advance num cache').2 =
      .returned call.input (parseExpression num call.input) := by
  cases call with
  | called input =>
      simp only [ParseCall.advance, ParseCall.input]
      by_cases hlong : maxCacheableExpressionBytes < Text.utf8Len input
      · rw [if_pos hlong]
      · rw [if_neg hlong]
        cases hlookup : cache.entries.lookup input with
        | some expr => simp only [hgood.2 input expr hlookup]
        | none =>
            -- The text was missed, and the second stretch enters it.
            exact advance_missed hgood'
  | missed input =>
      have hfirst : (ParseCall.advance num cache (.missed input)).2 =
          .returned input (parseExpression num input) := advance_missed hgood
      obtain ⟨cache'', hadvance⟩ : ∃ cache'', ParseCall.advance num cache (.missed input) =
          (cache'', .returned input (parseExpression num input)) := ⟨_, Prod.ext rfl hfirst⟩
      rw [hadvance]
      rfl
  | returned input result =>
      have hresult : result = parseExpression num input := hright
      rw [hresult]
      rfl

/-- At every moment of every run: each call that is back has what a parse without the
    cache gives for its text, and any call is back with that after two moves of its own,
    whatever the others do before and between them; `insertion_order` lists the keys of
    `entries`, each once; the cache is not larger than its capacity; and each entry is the
    parse of its key. -/
theorem parse_cache_transparent (num : Text → Option N)
    (w : Interleave.World (ParsedExpressionCache N) (ParseCall N))
    (hrun : Interleave.Run (parseMoves num) ⟨.empty, []⟩ w) :
    (∀ input result, .returned input result ∈ w.procs → result = parseExpression num input) ∧
      (∀ call ∈ w.procs, ∀ w', Interleave.Run (parseMoves num) w w' →
        ((call.advance num w.shared).2.advance num w'.shared).2 =
          .returned call.input (parseExpression num call.input)) ∧
      w.shared.order.Perm w.shared.entries.keys ∧ w.shared.order.Nodup ∧
      w.shared.entries.keys.length ≤ parsedExpressionCacheCapacity ∧
      ∀ input expr, w.shared.entries.lookup input = some expr →
        parseExpression num input = .ok expr := by
  obtain ⟨hgood, hcalls⟩ := good_run hrun
  refine ⟨fun input result hmem => hcalls _ hmem, fun call hcall w' hrun' => ?_, hgood.1.keys,
    hgood.1.nodup, hgood.1.size_le, hgood.2⟩
  exact advance_twice hgood (good_run (hrun.trans hrun')).1 (hcalls call hcall)

/-- Two calls miss the same text, both parse it, and the second finds the tree of the
    first. -/
def raceWorld : Interleave.World (ParsedExpressionCache Int) (ParseCall Int) :=
  ⟨(Memo.empty.push parsedExpressionCacheCapacity "x".toList (.path ["x".toList])),
    [.returned "x".toList (.ok (.path ["x".toList])),
      .returned "x".toList (.ok (.path ["x".toList]))]⟩

theorem run_raceWorld :
    Interleave.Run (parseMoves integerEngine.parseNumber) ⟨.empty, []⟩ raceWorld := by
  have hbegun : Interleave.Run (parseMoves integerEngine.parseNumber) ⟨.empty, []⟩
      ⟨.empty, [.called "x".toList, .called "x".toList]⟩ :=
    (Interleave.Run.refl.tail (.start (m := parseMoves _) ⟨_, rfl⟩)).tail
      (.start (m := parseMoves _) ⟨_, rfl⟩)
  have hmissed : Interleave.Run (parseMoves integerEngine.parseNumber) ⟨.empty, []⟩
      ⟨.empty, [.missed "x".toList, .missed "x".toList]⟩ :=
    (hbegun.tail (.at (i := 0) rfl rfl)).tail (.at (i := 1) rfl rfl)
  exact (hmissed.tail (.at (i := 0) rfl rfl)).tail (.at (i := 1) rfl rfl)

theorem parse_cache_transparent_of_race :
    raceWorld.shared.order.Nodup ∧
      raceWorld.shared.entries.keys.length ≤ parsedExpressionCacheCapacity :=
  have h := parse_cache_transparent integerEngine.parseNumber raceWorld run_raceWorld
  ⟨h.2.2.2.1, h.2.2.2.2.1⟩

end Expressions

end Preloop

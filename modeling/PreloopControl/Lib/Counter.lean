import PreloopControl.Lib.Machine

/-!
# Grants under Counters

Every key has a counter in the state. No step lowers one, and a step that grants something
under a key raises the counter of the key up to a tick that the grant carries. Then the
grants of a key come with ever higher ticks, and there are no more of them than the counter
says.

## Main definitions

* `Counted`: A machine that grants under counters.

## Theorems

* `Run.counter_le`: A counter never goes back.
* `Run.ticks_pairwise`: The ticks of a key rise.
* `Run.grants_le`: There are no more grants of a key than its counter says.
-/

namespace Machine

variable {σ ε ν K : Type}

/-- A machine that grants at most one thing a step, by raising the counter of its key. -/
structure Counted (m : Machine σ ε ν) (count : σ → K → Nat) (key : ν → K) (tick : ν → Nat) :
    Prop where
  mono : ∀ {e s s' ns}, m.advance e s = some (s', ns) → ∀ k, count s k ≤ count s' k
  grant : ∀ {e s s' ns}, m.advance e s = some (s', ns) →
    ns = [] ∨ ∃ n, ns = [n] ∧ count s (key n) < tick n ∧ tick n ≤ count s' (key n)

variable {m : Machine σ ε ν} {ok : List ν → σ → ε → Prop} {count : σ → K → Nat} {key : ν → K}
  {tick : ν → Nat} {init s : σ} {past : List ν}

/-- A counter never goes back. -/
theorem Run.counter_le (hm : Counted m count key tick) (h : Run m ok init past s) (k : K) :
    count init k ≤ count s k :=
  h.invariant (I := fun _ s => count init k ≤ count s k) le_rfl
    fun hle _ he => hle.trans (hm.mono he k)

/-- No grant is ahead of its counter. -/
theorem Run.tick_le (hm : Counted m count key tick) (h : Run m ok init past s) :
    ∀ n ∈ past, tick n ≤ count s (key n) := by
  refine h.invariant (I := fun past s => ∀ n ∈ past, tick n ≤ count s (key n))
    (fun n hn => (nomatch hn)) fun {past s e s' ns} hle _ he n hn => ?_
  rcases List.mem_append.mp hn with hn | hn
  · exact (hle n hn).trans (hm.mono he (key n))
  · rcases hm.grant he with rfl | ⟨d, rfl, -, hd⟩
    · cases hn
    · rw [List.mem_singleton.mp hn]
      exact hd

/-- The ticks of a key rise: each is above the counter, and so above all before it. -/
theorem Run.ticks_pairwise (hm : Counted m count key tick) (h : Run m ok init past s) :
    past.Pairwise fun a b => key a = key b → tick a < tick b := by
  induction h with
  | start => exact List.Pairwise.nil
  | step hrun _ he ih =>
      rcases hm.grant he with rfl | ⟨d, rfl, habove, -⟩
      · rw [List.append_nil]
        exact ih
      · refine List.pairwise_append.mpr ⟨ih, List.pairwise_singleton _ d, fun a ha b hb hkey => ?_⟩
        rw [List.mem_singleton.mp hb] at hkey ⊢
        have hle := hrun.tick_le hm a ha
        rw [hkey] at hle
        exact lt_of_le_of_lt hle habove

/-- There are no more grants of a key than its counter says. -/
theorem Run.grants_le [DecidableEq K] (hm : Counted m count key tick) (h : Run m ok init past s)
    (k : K) : past.countP (fun n => key n = k) ≤ count s k := by
  refine h.invariant (I := fun past s => past.countP (fun n => key n = k) ≤ count s k)
    (Nat.zero_le _) fun {past s e s' ns} hle _ he => ?_
  have hmono := hm.mono he k
  rcases hm.grant he with rfl | ⟨d, rfl, habove, hd⟩
  · rw [List.append_nil]
    exact hle.trans hmono
  · rw [List.countP_append, List.countP_singleton]
    by_cases hkey : key d = k
    · rw [if_pos (by simpa using hkey)]
      rw [hkey] at habove hd
      omega
    · rw [if_neg (by simpa using hkey)]
      omega

end Machine

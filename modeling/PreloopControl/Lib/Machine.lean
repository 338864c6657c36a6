import Mathlib

/-!
# Machines with Notes

A machine makes of an event and a state another state, or refuses the event, and
what is seen of it is a list of notes. A run carries the notes of all its events, so
that a property of a run is a property of what was seen, split at any note into what
came before and what came after.

The condition of a run may look at the notes as well. It is asked before each event.

## Main definitions

* `Machine`: What an event makes of a state.
* `Run`: The notes of a run and the state it reaches.
* `Machine.exec`, `Machine.execUnder`: A list of events played back, under a check.

## Theorems

* `Run.invariant`: What every event keeps holds along every run.
* `Run.mono`: A run under a stronger condition is a run under a weaker one.
* `Run.splits`: What holds of every note where it is made holds of every note of a run.
* `run_of_exec`, `run_of_execUnder`: What was played back is a run.
-/

/-- What an event makes of a state, and what is seen of it. -/
structure Machine (σ ε ν : Type) where
  advance : ε → σ → Option (σ × List ν)

namespace Machine

variable {σ ε ν : Type}

/-- The notes of a run from `init` under a condition, and the state it reaches. -/
inductive Run (m : Machine σ ε ν) (ok : List ν → σ → ε → Prop) (init : σ) : List ν → σ → Prop
  | start : Run m ok init [] init
  | step {past s e s' ns} : Run m ok init past s → ok past s e →
      m.advance e s = some (s', ns) → Run m ok init (past ++ ns) s'

variable {m : Machine σ ε ν} {ok ok' : List ν → σ → ε → Prop} {init : σ} {past : List ν} {s : σ}

/-- An invariant of notes and state. -/
theorem Run.invariant {I : List ν → σ → Prop} (h : Run m ok init past s) (hinit : I [] init)
    (hstep : ∀ {past s e s' ns}, I past s → ok past s e → m.advance e s = some (s', ns) →
      I (past ++ ns) s') : I past s := by
  induction h with
  | start => exact hinit
  | step _ hok he ih => exact hstep ih hok he

theorem Run.mono (hok : ∀ past s e, ok past s e → ok' past s e) (h : Run m ok init past s) :
    Run m ok' init past s := by
  induction h with
  | start => exact .start
  | step _ h he ih => exact .step ih (hok _ _ _ h) he

/-- A split of two lists put together lies in the first or in the second. -/
theorem split_append {past ns pre post : List ν} {n : ν} (h : past ++ ns = pre ++ n :: post) :
    (∃ post', past = pre ++ n :: post' ∧ post = post' ++ ns) ∨
      ∃ pre', pre = past ++ pre' ∧ ns = pre' ++ n :: post := by
  rcases List.append_eq_append_iff.mp h with ⟨pre', hpre, hns⟩ | ⟨rest, hpast, hrest⟩
  · exact .inr ⟨pre', hpre, hns⟩
  · cases rest with
    | nil => exact .inr ⟨[], by rw [hpast, List.append_nil, List.append_nil], hrest.symm⟩
    | cons d rest =>
        rcases List.cons.inj hrest with ⟨rfl, rfl⟩
        exact .inl ⟨rest, hpast, rfl⟩

/-- A list of one note is split at that note. -/
theorem split_singleton {a n : ν} {pre post : List ν} (h : [a] = pre ++ n :: post) :
    pre = [] ∧ n = a := by
  cases pre with
  | nil => exact ⟨rfl, (List.cons.inj h).1.symm⟩
  | cons d pre => simp at h

/-- What holds of every note where it is made holds of every note of a run. -/
theorem Run.splits {I : List ν → σ → Prop} {P : List ν → ν → Prop} (h : Run m ok init past s)
    (hI : I [] init)
    (hstep : ∀ {past s e s' ns}, I past s → ok past s e → m.advance e s = some (s', ns) →
      I (past ++ ns) s' ∧ ∀ pre n post, ns = pre ++ n :: post → P (past ++ pre) n) :
    ∀ pre n post, past = pre ++ n :: post → P pre n := by
  have hall : I past s ∧ ∀ pre n post, past = pre ++ n :: post → P pre n := by
    induction h with
    | start => exact ⟨hI, fun pre n post h => by simp at h⟩
    | step _ hok he ih =>
        rcases hstep ih.1 hok he with ⟨hI', hnew⟩
        refine ⟨hI', fun pre n post hsplit => ?_⟩
        rcases split_append hsplit with ⟨post', hpast, -⟩ | ⟨pre', rfl, hns⟩
        · exact ih.2 pre n post' hpast
        · exact hnew pre' n post hns
  exact hall.2

/-- The notes of a list of events and the state they reach. -/
def exec (m : Machine σ ε ν) : List ε → List ν → σ → Option (List ν × σ)
  | [], past, s => some (past, s)
  | e :: es, past, s =>
    match m.advance e s with
    | none => none
    | some (s', ns) => m.exec es (past ++ ns) s'

theorem run_of_exec {es : List ε} (hok : ∀ e ∈ es, ∀ past s, ok past s e) :
    ∀ {past past' : List ν} {s s' : σ}, Run m ok init past s →
      m.exec es past s = some (past', s') → Run m ok init past' s' := by
  induction es with
  | nil =>
      intro past past' s s' hrun hexec
      rcases Prod.mk.inj (Option.some.inj hexec) with ⟨rfl, rfl⟩
      exact hrun
  | cons e es ih =>
      intro past past' s s' hrun hexec
      unfold exec at hexec
      cases he : m.advance e s with
      | none =>
          rw [he] at hexec
          cases hexec
      | some result =>
          rw [he] at hexec
          exact ih (fun d hd => hok d (List.mem_cons_of_mem e hd))
            (.step hrun (hok e List.mem_cons_self _ _) he) hexec

/-- The events played back as long as each passes a check. -/
def execUnder (m : Machine σ ε ν) (check : List ν → σ → ε → Bool) :
    List ε → List ν → σ → Option (List ν × σ)
  | [], past, s => some (past, s)
  | e :: es, past, s =>
    if check past s e then
      match m.advance e s with
      | none => none
      | some (s', ns) => m.execUnder check es (past ++ ns) s'
    else none

theorem run_of_execUnder {check : List ν → σ → ε → Bool} {es : List ε}
    (hcheck : ∀ past s e, check past s e = true → ok past s e) :
    ∀ {past past' : List ν} {s s' : σ}, Run m ok init past s →
      m.execUnder check es past s = some (past', s') → Run m ok init past' s' := by
  induction es with
  | nil =>
      intro past past' s s' hrun hexec
      rcases Prod.mk.inj (Option.some.inj hexec) with ⟨rfl, rfl⟩
      exact hrun
  | cons e es ih =>
      intro past past' s s' hrun hexec
      unfold execUnder at hexec
      by_cases hpass : check past s e = true
      · rw [if_pos hpass] at hexec
        cases he : m.advance e s with
        | none =>
            rw [he] at hexec
            cases hexec
        | some result =>
            rw [he] at hexec
            exact ih (.step hrun (hcheck past s e hpass) he) hexec
      · rw [if_neg hpass] at hexec
        cases hexec

end Machine

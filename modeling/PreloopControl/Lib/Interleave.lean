import Mathlib

/-!
# Interleaved Processes

Processes that share a state and take turns. A process is described by where it
stands, and a move of one process changes the shared state and its own place, no
matter where the others stand. Processes are started at any moment and never leave
the list, so that a process that is over stays visible with its result.

A move may look at the places of the other processes. No program does; conditions
on a schedule do, and a schedule that meets a condition is a run under a stronger
relation.

## Main definitions

* `World`: The shared state and the places of all processes.
* `Moves`: What may happen: the outside acts, a process starts, a process moves.
* `Step`, `Run`: One thing that happens, and any number of them.

## Theorems

* `Run.invariant`: An invariant of the shared state and of every process, each in
  its own place.
* `Run.induct`: An invariant of the whole.
* `Run.mono`: A run under a stronger condition is a run under a weaker one.
-/

namespace Interleave

variable {σ π : Type}

/-- A shared state and the places of all processes, in the order they started. -/
structure World (σ π : Type) where
  shared : σ
  procs : List π

/-- What may happen. -/
structure Moves (σ π : Type) where
  /-- The outside changes the shared state. -/
  env : σ → σ → Prop
  /-- A process starts. -/
  start : π → Prop
  /-- A process moves, the others standing where they are. -/
  act : List π → σ → π → σ → π → Prop

/-- One thing that happens. -/
inductive Step (m : Moves σ π) : World σ π → World σ π → Prop
  | env {s s' ps} : m.env s s' → Step m ⟨s, ps⟩ ⟨s', ps⟩
  | start {s ps p} : m.start p → Step m ⟨s, ps⟩ ⟨s, ps ++ [p]⟩
  | move {s s' l p p' r} : m.act (l ++ r) s p s' p' → Step m ⟨s, l ++ p :: r⟩ ⟨s', l ++ p' :: r⟩

/-- Any number of things that happen. -/
def Run (m : Moves σ π) : World σ π → World σ π → Prop := Relation.ReflTransGen (Step m)

variable {m m' : Moves σ π} {w w' : World σ π}

theorem Run.refl : Run m w w := Relation.ReflTransGen.refl

theorem Run.tail {w'' : World σ π} (h : Run m w w') (hstep : Step m w' w'') : Run m w w'' :=
  Relation.ReflTransGen.tail h hstep

theorem Run.trans {w'' : World σ π} (h : Run m w w') (h' : Run m w' w'') : Run m w w'' :=
  Relation.ReflTransGen.trans h h'

/-- The move of the process at a place of the list. -/
theorem Step.at {s s' : σ} {ps : List π} {i : Nat} {p p' : π} (hp : ps[i]? = some p)
    (h : m.act (ps.take i ++ ps.drop (i + 1)) s p s' p') :
    Step m ⟨s, ps⟩ ⟨s', ps.set i p'⟩ := by
  obtain ⟨hi, rfl⟩ := List.getElem?_eq_some_iff.mp hp
  have hsplit : ps = ps.take i ++ ps[i] :: ps.drop (i + 1) := by
    rw [List.cons_getElem_drop_succ, List.take_append_drop]
  have hset : ps.set i p' = ps.take i ++ p' :: ps.drop (i + 1) :=
    List.set_eq_take_append_cons_drop.trans
    (if_pos hi)
  rw [hset]
  have hmove : Step m ⟨s, ps.take i ++ ps[i] :: ps.drop (i + 1)⟩
      ⟨s', ps.take i ++ p' :: ps.drop (i + 1)⟩ := .move h
  rwa [← hsplit] at hmove

/-- An invariant of the whole. -/
theorem Run.induct {P : World σ π → Prop} (hstep : ∀ {w w'}, P w → Step m w w' → P w')
    (h : Run m w w') (hP : P w) : P w' := by
  induction h with
  | refl => exact hP
  | tail _ hs ih => exact hstep ih hs

/-- An invariant `I` of the shared state and `L` of every process in its own place.
    A move keeps both, and it keeps `L` of the processes that stand still. -/
theorem Run.invariant {I : σ → Prop} {L : σ → π → Prop}
    (henv : ∀ s s', I s → m.env s s' → I s' ∧ ∀ q, L s q → L s' q)
    (hstart : ∀ s p, I s → m.start p → L s p)
    (hact : ∀ ps s p s' p', I s → L s p → m.act ps s p s' p' →
      I s' ∧ L s' p' ∧ ∀ q, L s q → L s' q)
    (h : Run m w w') (hI : I w.shared) (hL : ∀ p ∈ w.procs, L w.shared p) :
    I w'.shared ∧ ∀ p ∈ w'.procs, L w'.shared p := by
  refine @Run.induct _ _ _ _ _ (fun w => I w.shared ∧ ∀ p ∈ w.procs, L w.shared p) ?_ h ⟨hI, hL⟩
  rintro w w' ⟨hI, hL⟩ hs
  -- the environment moves, a process starts, or one in the middle moves
  cases hs with
  | env he =>
      obtain ⟨hI', hkeep⟩ := henv _ _ hI he
      exact ⟨hI', fun q hq => hkeep q (hL q hq)⟩
  | start hp =>
      refine ⟨hI, fun q hq => ?_⟩
      rcases List.mem_append.mp hq with hq | hq
      · exact hL q hq
      · rw [List.mem_singleton.mp hq]
        exact hstart _ _ hI hp
  | @move s s' l p p' r ha =>
      have hp : L s p := hL p (List.mem_append_right l List.mem_cons_self)
      obtain ⟨hI', hp', hkeep⟩ := hact _ _ _ _ _ hI hp ha
      refine ⟨hI', fun q hq => ?_⟩
      rcases List.mem_append.mp hq with hq | hq
      · exact hkeep q (hL q (List.mem_append_left _ hq))
      · rcases List.mem_cons.mp hq with rfl | hq
        · exact hp'
        · exact hkeep q (hL q (List.mem_append_right l (List.mem_cons_of_mem p hq)))

theorem Run.mono (henv : ∀ s s', m.env s s' → m'.env s s') (hstart : ∀ p, m.start p → m'.start p)
    (hact : ∀ ps s p s' p', m.act ps s p s' p' → m'.act ps s p s' p') (h : Run m w w') :
    Run m' w w' := by
  refine Relation.ReflTransGen.mono ?_ _ _ h
  intro a b hs
  cases hs with
  | env he => exact .env (henv _ _ he)
  | start hp => exact .start (hstart _ hp)
  | move ha => exact .move (hact _ _ _ _ _ ha)

end Interleave

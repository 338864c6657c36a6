import Mathlib

/-!
# Logged Transactions

Programs that run inside one database transaction, and rules for reasoning
about the ones that commit.

A transaction either aborts, and then the store is what it was, or commits with
a value and a new store. A committing transaction also leaves a log: every
statement it issued, next to the store the statement ran on. The log is not
something a program can read. It is there so that a theorem can speak of what
happened *inside* a transaction, for instance that no statement of some kind
ever met a row in some state, without repeating the program.

`Triple c P m Q` is partial correctness over the log: from a store in `P`, a
run of `m` that commits and whose every logged statement satisfies what the
contract relies on ends in `Q`, and every logged statement satisfies what the
contract guarantees. The rules below follow the way programs are put together,
so a proof about a program has the program's shape. `P` and `Q` may carry an
index, which is how an invariant that is broken for a moment and restored later
is threaded through calls.

## Main definitions

* `Tx`: A transaction over a store, with its log.
* `Tx.select`, `Tx.issue`, `Tx.abort`: Reading, writing, aborting.
* `Contract`: What is assumed and what is shown of each logged statement.
* `Triple`: Partial correctness of the committing runs with a good log.

## Theorems

* `Triple.bind`, `Triple.select`, `Triple.issue`, `Triple.abort`: One rule for
  each way a transaction is built.
* `Triple.forM`, `Triple.forM_rest`: Loops over a list, with an invariant or
  with one indexed by what is left of the list.
-/

namespace Txn

/-- A transaction over a store `σ`: it aborts with an error, or commits with a
    value, the new store and the statements issued, each with the store it ran
    on. -/
def Tx (σ ε ι α : Type) : Type := σ → Except ε (α × σ × List (ι × σ))

namespace Tx

variable {σ ε ι α β : Type}

/-- Commit with a value and nothing written. -/
def ret (a : α) : Tx σ ε ι α := fun s => .ok (a, s, [])

/-- Run one transaction after another inside the same commit. -/
def andThen (m : Tx σ ε ι α) (f : α → Tx σ ε ι β) : Tx σ ε ι β := fun s =>
  match m s with
  | .error e => .error e
  | .ok (a, s1, t1) =>
    match f a s1 with
    | .error e => .error e
    | .ok (b, s2, t2) => .ok (b, s2, t1 ++ t2)

instance : Monad (Tx σ ε ι) where
  pure := ret
  bind := andThen

/-- Read the store. -/
def select (q : σ → α) : Tx σ ε ι α := fun s => .ok (q s, s, [])

/-- Abort the whole transaction. -/
def abort (e : ε) : Tx σ ε ι α := fun _ => .error e

/-- Issue one statement: it may be refused, and otherwise it is logged with the
    store it ran on. -/
def issue (apply : ι → σ → Except ε σ) (i : ι) : Tx σ ε ι Unit := fun s =>
  match apply i s with
  | .error e => .error e
  | .ok s' => .ok ((), s', [(i, s)])

theorem pure_run (a : α) (s : σ) : (pure a : Tx σ ε ι α) s = .ok (a, s, []) := rfl

theorem select_run (q : σ → α) (s : σ) :
    (select q : Tx σ ε ι α) s = .ok (q s, s, []) := rfl

theorem abort_run (e : ε) (s : σ) : (abort e : Tx σ ε ι α) s = .error e := rfl

theorem bind_run (m : Tx σ ε ι α) (f : α → Tx σ ε ι β) (s : σ) :
    (m >>= f) s = andThen m f s := rfl

/-- A committed sequence is two committed halves, with the logs in order. -/
theorem bind_ok {m : Tx σ ε ι α} {f : α → Tx σ ε ι β} {s s' : σ} {b : β}
    {t : List (ι × σ)} (h : (m >>= f) s = .ok (b, s', t)) :
    ∃ a s1 t1 t2, m s = .ok (a, s1, t1) ∧ f a s1 = .ok (b, s', t2) ∧ t = t1 ++ t2 := by
  rw [bind_run, andThen] at h
  cases hm : m s with
  | error e =>
      rw [hm] at h
      cases h
  | ok r =>
      obtain ⟨a, s1, t1⟩ := r
      simp only [hm] at h
      cases hf : f a s1 with
      | error e =>
          rw [hf] at h
          cases h
      | ok r2 =>
          obtain ⟨b', s2, t2⟩ := r2
          simp only [hf, Except.ok.injEq, Prod.mk.injEq] at h
          obtain ⟨rfl, rfl, rfl⟩ := h
          exact ⟨a, s1, t1, t2, rfl, hf, rfl⟩

end Tx

section Triple

variable {σ ε ι α β : Type}

/-- What is assumed of each logged statement on the store it ran on, and what is
    shown of it. -/
structure Contract (ι σ : Type) where
  rely : ι → σ → Prop
  guar : ι → σ → Prop

/-- Assume a condition on the log and show nothing of it. -/
def Contract.assume (ok : ι → σ → Prop) : Contract ι σ := ⟨ok, fun _ _ => True⟩

/-- Partial correctness: from a store in `P`, a committing run whose log meets
    the contract's assumption ends in `Q` and meets its guarantee. -/
def Triple (c : Contract ι σ) (P : σ → Prop) (m : Tx σ ε ι α) (Q : α → σ → Prop) : Prop :=
  ∀ s a s' t, P s → m s = .ok (a, s', t) → (∀ e ∈ t, c.rely e.1 e.2) →
    Q a s' ∧ ∀ e ∈ t, c.guar e.1 e.2

variable {c : Contract ι σ} {P P' : σ → Prop} {Q Q' : α → σ → Prop} {R : β → σ → Prop}

theorem Triple.ret {a : α} (h : ∀ s, P s → Q a s) :
    Triple c P (pure a : Tx σ ε ι α) Q := by
  intro s a' s' t hP hrun _
  rw [Tx.pure_run, Except.ok.injEq, Prod.mk.injEq, Prod.mk.injEq] at hrun
  obtain ⟨rfl, rfl, rfl⟩ := hrun
  exact ⟨h s hP, fun e he => absurd he List.not_mem_nil⟩

theorem Triple.bind {m : Tx σ ε ι α} {f : α → Tx σ ε ι β}
    (hm : Triple c P m Q) (hf : ∀ a, Triple c (Q a) (f a) R) :
    Triple c P (m >>= f) R := by
  intro s b s' t hP hrun hlog
  obtain ⟨a, s1, t1, t2, h1, h2, rfl⟩ := Tx.bind_ok hrun
  obtain ⟨hQ, hg1⟩ := hm s a s1 t1 hP h1 fun e he => hlog e (List.mem_append_left t2 he)
  obtain ⟨hR, hg2⟩ := hf a s1 b s' t2 hQ h2 fun e he => hlog e (List.mem_append_right t1 he)
  refine ⟨hR, fun e he => ?_⟩
  rcases List.mem_append.mp he with he | he
  · exact hg1 e he
  · exact hg2 e he

theorem Triple.ret_bind {a : α} {f : α → Tx σ ε ι β} (h : Triple c P (f a) R) :
    Triple c P (pure a >>= f) R := by
  refine Triple.bind (Q := fun b s => b = a ∧ P s) (Triple.ret fun _ hP => ⟨rfl, hP⟩) ?_
  rintro b s d s' t ⟨rfl, hP⟩ hrun hlog
  exact h s d s' t hP hrun hlog

/-- Reading binds the value to the store it was read from. -/
theorem Triple.select {q : σ → α} {f : α → Tx σ ε ι β}
    (h : ∀ s0, P s0 → Triple c (fun s => s = s0 ∧ P s) (f (q s0)) R) :
    Triple c P (Tx.select q >>= f) R := by
  intro s b s' t hP hrun hlog
  obtain ⟨a, s1, t1, t2, h1, h2, rfl⟩ := Tx.bind_ok hrun
  rw [Tx.select_run, Except.ok.injEq, Prod.mk.injEq, Prod.mk.injEq] at h1
  obtain ⟨rfl, rfl, rfl⟩ := h1
  exact h s hP s b s' t2 ⟨rfl, hP⟩ h2 fun e he => hlog e (List.mem_append_right [] he)

/-- The store a transaction starts from may be named. -/
theorem Triple.start {m : Tx σ ε ι α}
    (h : ∀ s0, P s0 → Triple c (fun s => s = s0 ∧ P s) m Q) : Triple c P m Q :=
  fun s a s' t hP hrun hlog => h s hP s a s' t ⟨rfl, hP⟩ hrun hlog

theorem Triple.abort {e : ε} : Triple c P (Tx.abort e : Tx σ ε ι α) Q := by
  intro s a s' t _ hrun _
  rw [Tx.abort_run] at hrun
  cases hrun

theorem Triple.issue {apply : ι → σ → Except ε σ} {i : ι} {Q : Unit → σ → Prop}
    (h : ∀ s s', P s → c.rely i s → apply i s = .ok s' → Q () s' ∧ c.guar i s) :
    Triple c P (Tx.issue apply i) Q := by
  intro s a s' t hP hrun hlog
  simp only [Tx.issue] at hrun
  cases ha : apply i s with
  | error e =>
      rw [ha] at hrun
      cases hrun
  | ok s1 =>
      simp only [ha, Except.ok.injEq, Prod.mk.injEq] at hrun
      obtain ⟨_, rfl, rfl⟩ := hrun
      obtain ⟨hQ, hg⟩ := h s s1 hP (hlog (i, s) (List.mem_singleton.mpr rfl)) ha
      refine ⟨hQ, fun e he => ?_⟩
      rw [List.mem_singleton.mp he]
      exact hg

/-- What was assumed of a statement is known after it. -/
theorem Triple.issued {apply : ι → σ → Except ε σ} {i : ι} {Q : Unit → σ → Prop}
    (h : Triple c P (Tx.issue apply i) Q) :
    Triple c P (Tx.issue apply i) fun a s => (∃ s0, P s0 ∧ c.rely i s0) ∧ Q a s := by
  refine Triple.issue fun s s' hP hrely happly => ?_
  have hrun : Tx.issue apply i s = .ok ((), s', [(i, s)]) := by simp only [Tx.issue, happly]
  have hlog : ∀ e ∈ [(i, s)], c.rely e.1 e.2 := by
    intro e he
    rw [List.mem_singleton.mp he]
    exact hrely
  obtain ⟨hQ, hg⟩ := h s () s' _ hP hrun hlog
  exact ⟨⟨⟨s, hP, hrely⟩, hQ⟩, hg (i, s) (List.mem_singleton.mpr rfl)⟩

theorem Triple.conseq {m : Tx σ ε ι α} (h : Triple c P' m Q')
    (hP : ∀ s, P s → P' s) (hQ : ∀ a s, Q' a s → Q a s) : Triple c P m Q := by
  intro s a s' t hs hrun hlog
  obtain ⟨hq, hg⟩ := h s a s' t (hP s hs) hrun hlog
  exact ⟨hQ a s' hq, hg⟩

theorem Triple.pre {m : Tx σ ε ι α} (h : Triple c P' m Q)
    (hP : ∀ s, P s → P' s) : Triple c P m Q :=
  h.conseq hP fun _ _ hq => hq

theorem Triple.post {m : Tx σ ε ι α} (h : Triple c P m Q')
    (hQ : ∀ a s, Q' a s → Q a s) : Triple c P m Q :=
  h.conseq (fun _ hp => hp) hQ

/-- A fact that does not depend on the store may be used as a hypothesis. -/
theorem Triple.of_pure {m : Tx σ ε ι α} {p : Prop} (h : p → Triple c P m Q) :
    Triple c (fun s => p ∧ P s) m Q :=
  fun s a s' t hs hrun hlog => h hs.1 s a s' t hs.2 hrun hlog

/-- A value the precondition only claims to exist may be fixed. -/
theorem Triple.exists {κ : Type} {m : Tx σ ε ι α} {I : κ → σ → Prop}
    (h : ∀ k, Triple c (I k) m Q) : Triple c (fun s => ∃ k, I k s) m Q := by
  rintro s a s' t ⟨k, hk⟩ hrun hlog
  exact h k s a s' t hk hrun hlog

theorem Triple.ite {p : Prop} [Decidable p] {m n : Tx σ ε ι α}
    (hm : p → Triple c P m Q) (hn : ¬p → Triple c P n Q) :
    Triple c P (if p then m else n) Q := by
  by_cases h : p
  · rw [if_pos h]
    exact hm h
  · rw [if_neg h]
    exact hn h

theorem Triple.forM {xs : List β} {f : β → Tx σ ε ι PUnit}
    (h : ∀ x ∈ xs, Triple c P (f x) fun _ => P) :
    Triple c P (xs.forM f) fun _ => P := by
  induction xs with
  | nil => exact Triple.ret fun _ hp => hp
  | cons x xs ih =>
      exact Triple.bind (h x (List.mem_cons_self ..)) fun _ =>
        ih fun y hy => h y (List.mem_cons_of_mem x hy)

/-- A loop whose invariant is indexed by the elements still to come. -/
theorem Triple.forM_rest {I : List β → σ → Prop} {xs : List β} {f : β → Tx σ ε ι PUnit}
    (h : ∀ x rest, x ∈ xs → Triple c (I (x :: rest)) (f x) fun _ => I rest) :
    Triple c (I xs) (xs.forM f) fun _ => I [] := by
  induction xs with
  | nil => exact Triple.ret fun _ hp => hp
  | cons x xs ih =>
      exact Triple.bind (h x xs (List.mem_cons_self ..)) fun _ =>
        ih fun y rest hy => h y rest (List.mem_cons_of_mem x hy)

/-- A loop whose invariant is indexed by the accumulator. -/
theorem Triple.foldlM {I : α → σ → Prop} {xs : List β} {f : α → β → Tx σ ε ι α} {a : α}
    (h : ∀ acc, ∀ x ∈ xs, Triple c (I acc) (f acc x) I) :
    Triple c (I a) (xs.foldlM f a) I := by
  induction xs generalizing a with
  | nil => exact Triple.ret fun _ hp => hp
  | cons x xs ih =>
      rw [List.foldlM_cons]
      exact Triple.bind (h a x (List.mem_cons_self ..)) fun acc =>
        ih fun b y hy => h b y (List.mem_cons_of_mem x hy)

theorem Triple.mapM_rest {I : List β → σ → Prop} {xs : List β} {f : β → Tx σ ε ι α}
    (h : ∀ x rest, x ∈ xs → Triple c (I (x :: rest)) (f x) fun _ => I rest) :
    Triple c (I xs) (xs.mapM f) fun _ => I [] := by
  suffices hloop : ∀ acc, Triple c (I xs) (List.mapM.loop f xs acc) fun _ => I [] from hloop []
  induction xs with
  | nil => exact fun acc => Triple.ret fun _ hp => hp
  | cons x xs ih =>
      intro acc
      exact Triple.bind (h x xs (List.mem_cons_self ..)) fun a =>
        ih (fun y rest hy => h y rest (List.mem_cons_of_mem x hy)) (a :: acc)

theorem Triple.mapM {xs : List β} {f : β → Tx σ ε ι α}
    (h : ∀ x ∈ xs, Triple c P (f x) fun _ => P) :
    Triple c P (xs.mapM f) fun _ => P :=
  Triple.mapM_rest (I := fun _ => P) fun x _ hx => h x hx

end Triple

end Txn

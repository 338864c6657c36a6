import PreloopControl.Lib.Transaction

/-!
# Runs of a Transactional System

A system whose only steps are committed transactions. A command that aborts
leaves the store as it was, so it is not a step.

A run is conditioned twice: `pre` on the command and the store it starts from,
and `ok` on every statement the transaction logs. With both trivial a run is
any interleaving of commands the system can show.

## Main definitions

* `Step`: One committed command that meets the condition.
* `Run`: Any number of them.

## Theorems

* `Run.invariant`: What every command keeps, every run keeps.
-/

namespace Txn

variable {σ ε ι γ : Type}

/-- One committed command whose precondition and log meet the condition. -/
def Step (exec : γ → Tx σ ε ι Unit) (pre : γ → σ → Prop) (ok : ι → σ → Prop) (s s' : σ) : Prop :=
  ∃ c t, pre c s ∧ exec c s = .ok ((), s', t) ∧ ∀ e ∈ t, ok e.1 e.2

/-- A run of the system under a condition. -/
def Run (exec : γ → Tx σ ε ι Unit) (pre : γ → σ → Prop) (ok : ι → σ → Prop) : σ → σ → Prop :=
  Relation.ReflTransGen (Step exec pre ok)

variable {exec : γ → Tx σ ε ι Unit} {pre : γ → σ → Prop} {ok : ι → σ → Prop}

theorem Run.refl (s : σ) : Run exec pre ok s s := Relation.ReflTransGen.refl

/-- An invariant that every command keeps under the condition holds along every
    run under the condition. -/
theorem Run.invariant {I : σ → Prop} {c : Contract ι σ} (hok : ∀ i s, ok i s → c.rely i s)
    (hkeep : ∀ cmd, Triple c (fun s => pre cmd s ∧ I s) (exec cmd) fun _ => I)
    {s s' : σ} (h : Run exec pre ok s s') (hI : I s) : I s' := by
  induction h with
  | refl => exact hI
  | tail _ hstep ih =>
      obtain ⟨cmd, t, hpre, hrun, hlog⟩ := hstep
      exact (hkeep cmd _ _ _ t ⟨hpre, ih⟩ hrun fun e he => hok e.1 e.2 (hlog e he)).1

end Txn

/-
Rafka/Cascade.lean

Cascades: work that makes more work.

A system has a multiset of jobs to be done.  A step takes one of them and puts others in
its place (`Cascades`).  Whether this comes to an end is a question about the jobs only:

* if every new job is below the one it replaces, in a well-founded order, no run goes on
  for ever, however many jobs a step adds (`exists_not_step`);
* if a job costs more than all those that replace it together, a run takes at most as
  many steps as the jobs cost in the beginning (`steps_le_cost`).
-/
import Mathlib.Algebra.BigOperators.Group.Multiset.Basic
import Mathlib.Logic.Hydra

namespace Rafka

variable {σ α : Type*}

/-- A step from `s` to `s'` takes one job and replaces it by jobs that `Below` allows for
it. -/
def Cascades (jobs : σ → Multiset α) (Below : Multiset α → α → Prop) (s s' : σ) : Prop :=
  ∃ job rest new, jobs s = job ::ₘ rest ∧ jobs s' = rest + new ∧ Below new job

variable {jobs : σ → Multiset α} {Step : σ → σ → Prop}

/-- Jobs that are replaced by smaller ones run out: no run is infinite. -/
theorem exists_not_step {r : α → α → Prop} (hr : WellFounded r)
    (hstep : ∀ s s', Step s s' → Cascades jobs (fun new job => ∀ j ∈ new, r j job) s s')
    (run : ℕ → σ) : ∃ n, ¬ Step (run n) (run (n + 1)) := by
  have hwf : WellFounded (InvImage (Relation.CutExpand r) jobs) :=
    InvImage.wf jobs hr.cutExpand
  by_contra hforever
  push Not at hforever
  -- a run without end would descend for ever
  have hdescends : ∀ n, InvImage (Relation.CutExpand r) jobs (run (n + 1)) (run n) := by
    intro n
    obtain ⟨job, rest, new, hjobs, hjobs', hbelow⟩ := hstep _ _ (hforever n)
    refine ⟨new, job, hbelow, ?_⟩
    rw [hjobs, hjobs', ← Multiset.singleton_add, add_comm, ← add_assoc]
  have : IsWellFounded σ (InvImage (Relation.CutExpand r) jobs) := ⟨hwf⟩
  obtain ⟨n, hn⟩ := WellFounded.not_rel_apply_succ (r := InvImage (Relation.CutExpand r) jobs) run
  exact hn (hdescends n)

/-- The cost of some jobs. -/
def totalCost (cost : α → ℕ) (jobs : Multiset α) : ℕ := (jobs.map cost).sum

theorem totalCost_cons (cost : α → ℕ) (job : α) (jobs : Multiset α) :
    totalCost cost (job ::ₘ jobs) = cost job + totalCost cost jobs := by
  rw [totalCost, Multiset.map_cons, Multiset.sum_cons]
  rfl

theorem totalCost_add (cost : α → ℕ) (l l' : Multiset α) :
    totalCost cost (l + l') = totalCost cost l + totalCost cost l' := by
  rw [totalCost, Multiset.map_add, Multiset.sum_add]
  rfl

/-- Jobs that pay for what replaces them bound the number of steps. -/
theorem steps_le_cost {cost : α → ℕ}
    (hstep : ∀ s s', Step s s' →
      Cascades jobs (fun new job => totalCost cost new < cost job) s s')
    {n : ℕ} {run : ℕ → σ} (hrun : ∀ i < n, Step (run i) (run (i + 1))) :
    n ≤ totalCost cost (jobs (run 0)) := by
  -- every step pays at least one
  have hpays : ∀ i ≤ n, i + totalCost cost (jobs (run i)) ≤ totalCost cost (jobs (run 0)) := by
    intro i
    induction i with
    | zero => exact fun _ => Nat.le_of_eq (Nat.zero_add _)
    | succ i ih =>
        intro hi
        obtain ⟨job, rest, new, hjobs, hjobs', hbelow⟩ := hstep _ _ (hrun i hi)
        have hbefore := ih (Nat.le_of_succ_le hi)
        rw [hjobs, totalCost_cons] at hbefore
        rw [hjobs', totalCost_add]
        omega
  exact Nat.le_of_add_right_le (hpays n (Nat.le_refl n))

end Rafka

/-
Rafka/RwLock.lean

A reader-writer lock that several tasks share.

A guard lives for a scope, so which guard a task has is known from where the
task is: a function `guard` of the task.  The lock itself then needs no state.  A
task that wants a guard waits until nobody has one that conflicts with it.

Main result (`Exclusive.set`): as long as every step gives a guard back, keeps
it, or takes one that is free, a task with the write guard is the only one that
has a guard at all.
-/
import Rafka.Lock
import Rafka.Trace

namespace Rafka.RwLock

variable {τ : Type*} {guard : τ → Option Mode} {l : List τ} {i j : Nat} {x y : τ}

/-- Nobody has a guard that conflicts with one of this mode. -/
def admits (guard : τ → Option Mode) (l : List τ) : Mode → Bool
  | .read => l.all fun x => guard x ≠ some .write
  | .write => l.all fun x => guard x = none

/-- A task with the write guard is the only one with a guard. -/
def Exclusive (guard : τ → Option Mode) (l : List τ) : Prop :=
  ∀ (i j : Nat) (x y : τ), l[i]? = some x → l[j]? = some y →
    guard x = some .write → guard y ≠ none → i = j

/-- A task that was `x` and is `y` has given its guard back, kept it, or taken
one that was free. -/
def Lawful (guard : τ → Option Mode) (l : List τ) (x y : τ) : Prop :=
  guard y = none ∨ guard y = guard x ∨ ∃ m, guard y = some m ∧ admits guard l m = true

theorem exclusive_nil : Exclusive guard [] := by
  rintro i j x y ⟨⟩

/-- Beside a task with the write guard nobody has one. -/
theorem Exclusive.alone (h : Exclusive guard l) (hi : l[i]? = some x)
    (hx : guard x = some .write) (hj : l[j]? = some y) (hne : j ≠ i) : guard y = none := by
  by_contra hy
  exact hne (h i j x y hi hj hx hy).symm

/-- Beside a task with a guard nobody has the write guard. -/
theorem Exclusive.no_writer (h : Exclusive guard l) (hi : l[i]? = some x)
    (hx : guard x ≠ none) (hj : l[j]? = some y) (hne : j ≠ i) : guard y ≠ some .write :=
  fun hy => hne (h j i y x hj hi hy hx)

theorem Exclusive.concat (h : Exclusive guard l) (hx : guard x = none) :
    Exclusive guard (l ++ [x]) := by
  intro i j y z hi hj hy hz
  rcases getElem?_concat_cases hi with hi | ⟨-, rfl⟩
  · rcases getElem?_concat_cases hj with hj | ⟨-, rfl⟩
    · exact h i j y z hi hj hy hz
    · exact absurd hx hz
  · rw [hx] at hy
    cases hy

/-- If nobody has a guard, every guard is free. -/
theorem admits_of_free (h : ∀ x ∈ l, guard x = none) (m : Mode) : admits guard l m = true := by
  cases m with
  | read =>
      refine List.all_eq_true.mpr fun x hx => decide_eq_true ?_
      rw [h x hx]
      exact (Option.some_ne_none _).symm
  | write => exact List.all_eq_true.mpr fun x hx => decide_eq_true (h x hx)

/-- What a task that was let in finds with the others. -/
theorem guard_of_admits {m : Mode} (h : admits guard l m = true) (hj : l[j]? = some y) :
    guard y ≠ some .write ∧ (m = .write → guard y = none) := by
  have hmem := List.mem_of_getElem? hj
  cases m with
  | read =>
      have hy := List.all_eq_true.mp h y hmem
      exact ⟨of_decide_eq_true hy, fun hm => by cases hm⟩
  | write =>
      have hy : guard y = none := of_decide_eq_true (List.all_eq_true.mp h y hmem)
      refine ⟨?_, fun _ => hy⟩
      rw [hy]
      exact (Option.some_ne_none _).symm

/-- **Step lemma.**  A lawful step keeps writers alone. -/
theorem Exclusive.set (h : Exclusive guard l) (hi : l[i]? = some x)
    (hlaw : Lawful guard l x y) : Exclusive guard (l.set i y) := by
  -- what a guard of the task means for the guards of the others
  have hself : ∀ (j : Nat) (z : τ), j ≠ i → l[j]? = some z → guard y ≠ none →
      guard z ≠ some .write ∧ (guard y = some .write → guard z = none) := by
    intro j z hne hj hy
    rcases hlaw with hnone | hsame | ⟨m, hm, hfree⟩
    · exact absurd hnone hy
    · rw [hsame] at hy ⊢
      exact ⟨h.no_writer hi hy hj hne, fun hw => h.alone hi hw hj hne⟩
    · obtain ⟨hwriter, halone⟩ := guard_of_admits hfree hj
      refine ⟨hwriter, fun hw => halone ?_⟩
      rw [hm] at hw
      exact Option.some.inj hw
  intro j k z w hj hk hz hw
  rcases getElem?_set_cases hj with ⟨rfl, rfl⟩ | ⟨hji, hold⟩
  · rcases getElem?_set_cases hk with ⟨rfl, -⟩ | ⟨hki, hk⟩
    · rfl
    · have hy : guard z ≠ none := by rw [hz]; exact Option.some_ne_none _
      exact absurd ((hself k w hki hk hy).2 hz) hw
  · rcases getElem?_set_cases hk with ⟨rfl, rfl⟩ | ⟨-, hk⟩
    · exact absurd hz (hself j z hji hold hw).1
    · exact h j k z w hold hk hz hw

end Rafka.RwLock

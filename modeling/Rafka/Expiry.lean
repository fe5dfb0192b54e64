/-
Rafka/Expiry.lean

Queues whose entries expire from the front.

Each entry has a size and, as far as the clock can tell, an age.  A check of the queue
drops the first entry as long as that entry is too old or the whole queue is too large,
and stops at the first one that stays (`unexpired`).  An entry without an age always
stays, and so does what is behind it.  A program counts the size down as it drops
(`drop`); with a count that is right this is the same (`drop_total`).

* `expired_of_append` — an entry goes only if it is too old, or the queue too large,
  when it comes to the front;
* `total_unexpired_le_iff` — the queue fits its limit after a check exactly if every
  entry without an age, with all that is behind it, does;
* `head_unexpired_age` — after a check the first entry that has an age is not too old.
-/
import Mathlib.Algebra.BigOperators.Group.List.Basic
import Mathlib.Algebra.GroupWithZero.Nat

namespace Rafka.Expiry

variable {α : Type*}

/-- What decides which entries of a queue stay. -/
structure Check (α : Type*) where
  size : α → Nat
  age? : α → Option Nat
  maxAge : Nat
  maxTotal : Nat

variable (c : Check α)

namespace Check

/-- The size of a queue. -/
def total (l : List α) : Nat := (l.map c.size).sum

/-- With `n` in the queue, the entry at its front has to go. -/
def Expired (a : α) (n : Nat) : Prop :=
  ∃ age, c.age? a = some age ∧ (c.maxAge < age ∨ c.maxTotal < n)

instance (a : α) (n : Nat) : Decidable (c.Expired a n) :=
  match h : c.age? a with
  | none => .isFalse fun ⟨_, hage, _⟩ => by cases h.symm.trans hage
  | some age =>
      decidable_of_iff (c.maxAge < age ∨ c.maxTotal < n)
        ⟨fun hlate => ⟨age, h, hlate⟩, fun ⟨_, hage, hlate⟩ => by
          cases h.symm.trans hage
          exact hlate⟩

/-- What stays in a queue. -/
def unexpired : List α → List α
  | [] => []
  | a :: l => if c.Expired a (c.total (a :: l)) then unexpired l else a :: l

/-- The check with a running count `n` of the size; `none` where the count would
drop below zero. -/
def drop : List α → Nat → Option (List α × Nat)
  | [], n => some ([], n)
  | a :: l, n =>
      match c.age? a with
      | some age =>
          if age > c.maxAge ∨ n > c.maxTotal then
            if c.size a ≤ n then drop l (n - c.size a) else none
          else some (a :: l, n)
      | none => some (a :: l, n)

@[simp] theorem total_cons (a : α) (l : List α) : c.total (a :: l) = c.size a + c.total l := by
  simp [total]

theorem total_append (l l' : List α) : c.total (l ++ l') = c.total l + c.total l' := by
  simp [total]

variable {c} {a : α} {l : List α}

theorem total_le_of_suffix {l' : List α} (h : l' <:+ l) : c.total l' ≤ c.total l := by
  obtain ⟨front, rfl⟩ := h
  rw [total_append]
  exact Nat.le_add_left _ _

theorem unexpired_suffix (c : Check α) (l : List α) : c.unexpired l <:+ l := by
  induction l with
  | nil => exact List.suffix_rfl
  | cons a l ih =>
      rw [unexpired]
      split_ifs
      · exact ih.trans (List.suffix_cons a l)
      · exact List.suffix_rfl

/-- The check stops at an entry that has not expired. -/
theorem not_expired_of_unexpired {l' : List α} (h : c.unexpired l = a :: l') :
    ¬ c.Expired a (c.total (a :: l')) := by
  induction l with
  | nil => cases h
  | cons b l ih =>
      rw [unexpired] at h
      split_ifs at h with hexpired
      · exact ih h
      · cases h
        exact hexpired

/-- Each entry that goes has expired by the time it is at the front. -/
theorem expired_of_append {dropped front behind : List α}
    (hdropped : dropped ++ c.unexpired l = l) (h : dropped = front ++ a :: behind) :
    c.Expired a (c.total (a :: behind ++ c.unexpired l)) := by
  induction l generalizing dropped front with
  | nil => simp [unexpired, h] at hdropped
  | cons b l ih =>
      rw [unexpired] at hdropped ⊢
      split_ifs at hdropped ⊢ with hexpired
      · cases dropped with
        | nil =>
            -- what stays is shorter than the queue, so something goes
            have hlength := (unexpired_suffix c l).length_le
            have hsame := congrArg List.length hdropped
            simp only [List.nil_append, List.length_cons] at hsame
            omega
        | cons d dropped =>
            rw [List.cons_append, List.cons.injEq] at hdropped
            obtain ⟨rfl, hrest⟩ := hdropped
            cases front with
            | nil =>
                cases h
                rw [List.cons_append, hrest]
                exact hexpired
            | cons d' front =>
                cases h
                exact ih hrest rfl
      · -- nothing goes
        have hnil : dropped = [] := by simpa using hdropped
        simp [hnil] at h

/-- An entry that has not expired when it would come to the front stays, with
all that is behind it. -/
theorem suffix_unexpired {l' : List α} (hsuffix : a :: l' <:+ l)
    (h : ¬ c.Expired a (c.total (a :: l'))) : a :: l' <:+ c.unexpired l := by
  induction l with
  | nil => exact absurd hsuffix (by simp)
  | cons b l ih =>
      rw [unexpired]
      split_ifs with hexpired
      · rcases List.suffix_cons_iff.mp hsuffix with heq | hsuffix
        · cases heq
          exact absurd hexpired h
        · exact ih hsuffix
      · exact hsuffix

/-- An entry without an age does not expire. -/
theorem not_expired_of_none (h : c.age? a = none) (n : Nat) : ¬ c.Expired a n := by
  rintro ⟨age, hage, -⟩
  cases h.symm.trans hage

theorem expired_iff_of_some {age : Nat} (h : c.age? a = some age) (n : Nat) :
    c.Expired a n ↔ age > c.maxAge ∨ n > c.maxTotal := by
  constructor
  · rintro ⟨age', hage, hlate⟩
    cases h.symm.trans hage
    exact hlate
  · exact fun hlate => ⟨age, h, hlate⟩

/-- A count that is right at the start never drops below zero and stays right. -/
theorem drop_total (c : Check α) (l : List α) :
    c.drop l (c.total l) = some (c.unexpired l, c.total (c.unexpired l)) := by
  induction l with
  | nil => rfl
  | cons a l ih =>
      rw [drop, unexpired]
      cases hage : c.age? a with
      | none => rw [if_neg (not_expired_of_none hage _)]
      | some age =>
          dsimp only
          rw [if_congr (expired_iff_of_some hage _) rfl rfl]
          split_ifs with hlate hle
          · rw [total_cons, Nat.add_sub_cancel_left, ih]
          · exact absurd (total_cons c a l ▸ Nat.le_add_right _ _) hle
          · rfl

/-- **A check brings the queue to its limit** exactly if nothing larger is held
up behind an entry without an age. -/
theorem total_unexpired_le_iff :
    c.total (c.unexpired l) ≤ c.maxTotal ↔
      ∀ a l', a :: l' <:+ l → c.age? a = none → c.total (a :: l') ≤ c.maxTotal := by
  constructor
  · intro hle a l' hsuffix hage
    have hstays := suffix_unexpired hsuffix (not_expired_of_none hage _)
    exact Nat.le_trans (total_le_of_suffix hstays) hle
  · intro h
    cases hkept : c.unexpired l with
    | nil => exact Nat.zero_le _
    | cons a l' =>
        cases hage : c.age? a with
        | none => exact h a l' (hkept ▸ unexpired_suffix c l) hage
        | some age =>
            by_contra hlarge
            exact not_expired_of_unexpired hkept ⟨age, hage, .inr (Nat.lt_of_not_le hlarge)⟩

/-- The first entry that a check leaves is not too old. -/
theorem head_unexpired_age {l' : List α} {age : Nat} (h : c.unexpired l = a :: l')
    (hage : c.age? a = some age) : age ≤ c.maxAge := by
  by_contra hold
  exact not_expired_of_unexpired h ⟨age, hage, .inl (Nat.lt_of_not_le hold)⟩

end Check

end Rafka.Expiry

/-
Rafka/Trace.lean

Runs of a labelled transition function.

A component is given by `step : σ → α → σ`; a label `a : α` names the
operation together with everything the environment chooses for it (clock
readings, fresh ids, iteration orders, which task moves next).  A run is the
left fold of `step` over a list of labels, so a statement about every list
of labels is a statement about every interleaving.

Two predicates talk about whole runs:

* `Always step Q s l` — every state visited from `s` along `l`, both ends
  included, satisfies `Q`;
* `Along step C s l` — every step taken from `s` along `l` meets `C`, a
  condition on the state *before* the step and the label.

Main results: an invariant preserved by the steps that meet a condition
holds throughout a run of such steps (`Always.of_along`), and where the
condition says exactly which steps keep the property, the two predicates
coincide (`always_iff_along`, `always_and_along_iff`).
-/
import Mathlib.Data.List.Basic

namespace Rafka

variable {σ α : Type*}

/-- Every state visited by the run of `step` from `s` along `l`, the first
and the last one included, satisfies `Q`. -/
def Always (step : σ → α → σ) (Q : σ → Prop) : σ → List α → Prop
  | s, [] => Q s
  | s, a :: l => Q s ∧ Always step Q (step s a) l

/-- Every step of the run of `step` from `s` along `l` meets `C` in the state
it is taken from. -/
def Along (step : σ → α → σ) (C : σ → α → Prop) : σ → List α → Prop
  | _, [] => True
  | s, a :: l => C s a ∧ Along step C (step s a) l

instance Always.decidable (step : σ → α → σ) (Q : σ → Prop) [DecidablePred Q] :
    ∀ s l, Decidable (Always step Q s l)
  | s, [] => inferInstanceAs (Decidable (Q s))
  | s, a :: l =>
      haveI := Always.decidable step Q (step s a) l
      inferInstanceAs (Decidable (Q s ∧ Always step Q (step s a) l))

instance Along.decidable (step : σ → α → σ) (C : σ → α → Prop)
    [∀ s a, Decidable (C s a)] : ∀ s l, Decidable (Along step C s l)
  | _, [] => .isTrue trivial
  | s, a :: l =>
      haveI := Along.decidable step C (step s a) l
      inferInstanceAs (Decidable (C s a ∧ Along step C (step s a) l))

variable {step : σ → α → σ} {Q I : σ → Prop} {C : σ → α → Prop}
variable {s : σ} {l : List α}

/-! ### Ends of a run -/

theorem Always.head (h : Always step Q s l) : Q s := by
  cases l with
  | nil => exact h
  | cons a l => exact h.1

theorem Always.last (h : Always step Q s l) : Q (l.foldl step s) := by
  induction l generalizing s with
  | nil => exact h
  | cons a l ih => exact ih h.2

theorem Always.mono (h : Always step I s l) (hIQ : ∀ s, I s → Q s) :
    Always step Q s l := by
  induction l generalizing s with
  | nil => exact hIQ s h
  | cons a l ih => exact ⟨hIQ s h.1, ih h.2⟩

theorem Along.of_forall (h : ∀ s a, C s a) : Along step C s l := by
  induction l generalizing s with
  | nil => trivial
  | cons a l ih => exact ⟨h s a, ih⟩

theorem Along.and {D : σ → α → Prop} (hC : Along step C s l) (hD : Along step D s l) :
    Along step (fun s a => C s a ∧ D s a) s l := by
  induction l generalizing s with
  | nil => trivial
  | cons a l ih => exact ⟨⟨hC.1, hD.1⟩, ih hC.2 hD.2⟩

theorem along_append {l' : List α} :
    Along step C s (l ++ l') ↔ Along step C s l ∧ Along step C (l.foldl step s) l' := by
  induction l generalizing s with
  | nil => exact ⟨fun h => ⟨trivial, h⟩, fun h => h.2⟩
  | cons a l ih =>
      constructor
      · rintro ⟨ha, h⟩
        exact ⟨⟨ha, (ih.mp h).1⟩, (ih.mp h).2⟩
      · rintro ⟨⟨ha, h⟩, h'⟩
        exact ⟨ha, ih.mpr ⟨h, h'⟩⟩

/-! ### The invariant rules -/

/-- **Invariant rule.**  An invariant preserved by every step that meets `C`
holds throughout a run of such steps. -/
theorem Always.of_along (hs : I s) (hl : Along step C s l)
    (hstep : ∀ s a, I s → C s a → I (step s a)) : Always step I s l := by
  induction l generalizing s with
  | nil => exact hs
  | cons a l ih => exact ⟨hs, ih (hstep s a hs hl.1) hl.2⟩

/-- What an invariant says about single steps holds of every step of a run. -/
theorem Along.of_along {D : σ → α → Prop} (hs : I s) (hl : Along step C s l)
    (hstep : ∀ s a, I s → C s a → I (step s a))
    (hD : ∀ s a, I s → C s a → D s a) : Along step D s l := by
  induction l generalizing s with
  | nil => trivial
  | cons a l ih => exact ⟨hD s a hs hl.1, ih (hstep s a hs hl.1) hl.2⟩

/-- Two conditions on steps that agree wherever an invariant of all steps holds
agree on whole runs. -/
theorem along_congr {D : σ → α → Prop} (hs : I s) (hstep : ∀ s a, I s → I (step s a))
    (hiff : ∀ s a, I s → (C s a ↔ D s a)) : Along step C s l ↔ Along step D s l := by
  induction l generalizing s with
  | nil => exact Iff.rfl
  | cons a l ih => exact and_congr (hiff s a hs) (ih (hstep s a hs))

/-- **Exactness rule.**  Take a run that meets a background condition `D`, and
an invariant `I` that such steps keep.  If, wherever `Q` and `I` hold, a step
keeps `Q` exactly when it meets `C`, then `Q` holds throughout the run exactly
when all its steps meet `C`. -/
theorem always_iff_along {D : σ → α → Prop} (hD : Along step D s l) (hI : I s) (hQ : Q s)
    (hkeep : ∀ s a, I s → D s a → I (step s a))
    (hexact : ∀ s a, I s → D s a → Q s → (Q (step s a) ↔ C s a)) :
    Always step Q s l ↔ Along step C s l := by
  induction l generalizing s with
  | nil => exact ⟨fun _ => trivial, fun _ => hQ⟩
  | cons a l ih =>
      obtain ⟨ha, hD⟩ := hD
      have hI' : I (step s a) := hkeep s a hI ha
      constructor
      · -- the property after the step forces the condition on the step
        rintro ⟨-, hl⟩
        have hQ' : Q (step s a) := hl.head
        exact ⟨(hexact s a hI ha hQ).mp hQ', (ih hD hI' hQ').mp hl⟩
      · rintro ⟨hC, hl⟩
        have hQ' : Q (step s a) := (hexact s a hI ha hQ).mpr hC
        exact ⟨hQ, (ih hD hI' hQ').mpr hl⟩

/-- A property that holds throughout a run forces a condition on its steps,
if it does so for each single step. -/
theorem Along.of_always {D : σ → α → Prop} (hD : Along step D s l) (hI : I s)
    (hl : Always step Q s l) (hkeep : ∀ s a, I s → D s a → I (step s a))
    (hforce : ∀ s a, I s → Q (step s a) → C s a) : Along step C s l := by
  induction l generalizing s with
  | nil => trivial
  | cons a l ih =>
      exact ⟨hforce s a hI hl.2.head, ih hD.2 (hkeep s a hI hD.1) hl.2⟩

/-- **Exactness rule** for a property `Q` of the states and a property `D` of
the steps.  Take a run that meets a background condition `B`.  If from every
state with `I` a step has both exactly when it meets `C`, and then keeps `I`,
the run has both throughout exactly when all its steps meet `C`. -/
theorem always_and_along_iff {B D : σ → α → Prop} (hB : Along step B s l) (hI : I s)
    (hQ : ∀ s, I s → Q s) (hkeep : ∀ s a, I s → B s a → C s a → I (step s a))
    (hexact : ∀ s a, I s → B s a → (Q (step s a) ∧ D s a ↔ C s a)) :
    Always step Q s l ∧ Along step D s l ↔ Along step C s l := by
  induction l generalizing s with
  | nil => exact ⟨fun _ => trivial, fun _ => ⟨hQ s hI, trivial⟩⟩
  | cons a l ih =>
      obtain ⟨ha, hB⟩ := hB
      constructor
      · rintro ⟨⟨-, hQl⟩, hD, hDl⟩
        have hC : C s a := (hexact s a hI ha).mp ⟨hQl.head, hD⟩
        exact ⟨hC, (ih hB (hkeep s a hI ha hC)).mp ⟨hQl, hDl⟩⟩
      · rintro ⟨hC, hl⟩
        obtain ⟨hQl, hDl⟩ := (ih hB (hkeep s a hI ha hC)).mpr hl
        exact ⟨⟨hQ s hI, hQl⟩, ((hexact s a hI ha).mpr hC).2, hDl⟩

/-! ### Families of runs -/

/-- A run from the image of a state under a map that the steps commute with. -/
theorem always_map {f : σ → σ} (hf : ∀ s a, step (f s) a = f (step s a)) :
    Always step Q (f s) l ↔ Always step (fun s => Q (f s)) s l := by
  induction l generalizing s with
  | nil => exact Iff.rfl
  | cons a l ih =>
      refine and_congr_right fun _ => ?_
      rw [hf]
      exact ih

theorem along_map {f : σ → σ} (hf : ∀ s a, step (f s) a = f (step s a)) :
    Along step C (f s) l ↔ Along step (fun s a => C (f s) a) s l := by
  induction l generalizing s with
  | nil => exact Iff.rfl
  | cons a l ih =>
      refine and_congr_right fun _ => ?_
      rw [hf]
      exact ih

theorem always_forall {ι : Sort*} {P : ι → σ → Prop} :
    Always step (fun s => ∀ i, P i s) s l ↔ ∀ i, Always step (P i) s l := by
  induction l generalizing s with
  | nil => exact Iff.rfl
  | cons a l ih =>
      apply (and_congr_right fun _ => ih).trans
      exact forall_and.symm

/-! ### Lists of tasks -/

variable {τ β : Type*} {l : List τ} {i j : Nat} {x y : τ}

/-- A task in a list to which one has been added. -/
theorem getElem?_concat_cases (h : (l ++ [x])[i]? = some y) :
    l[i]? = some y ∨ (i = l.length ∧ y = x) := by
  rcases Nat.lt_trichotomy i l.length with hi | hi | hi
  · rw [List.getElem?_append_left hi] at h
    exact .inl h
  · subst hi
    rw [List.getElem?_concat_length] at h
    exact .inr ⟨rfl, (Option.some.inj h).symm⟩
  · rw [List.getElem?_eq_none (by simp; omega)] at h
    cases h

/-- A task in a list in which one has moved. -/
theorem getElem?_set_cases (h : (l.set i x)[j]? = some y) :
    (j = i ∧ y = x) ∨ (j ≠ i ∧ l[j]? = some y) := by
  by_cases hji : j = i
  · subst hji
    have hlt : j < l.length := by
      have := (List.getElem?_eq_some_iff.mp h).1
      simpa using this
    rw [List.getElem?_set_self hlt] at h
    exact .inl ⟨rfl, (Option.some.inj h).symm⟩
  · rw [List.getElem?_set_ne (Ne.symm hji)] at h
    exact .inr ⟨hji, h⟩

/-- A task in a list in which one may have moved. -/
theorem mem_modify_cases {f : τ → τ} (h : y ∈ l.modify i f) :
    y ∈ l ∨ ∃ x, l[i]? = some x ∧ y = f x := by
  obtain ⟨j, hj⟩ := List.mem_iff_getElem?.mp h
  rw [List.getElem?_modify] at hj
  obtain ⟨x, hx, hy⟩ := Option.map_eq_some_iff.mp hj
  split at hy
  · rename_i hij
    exact .inr ⟨x, hij ▸ hx, hy.symm⟩
  · exact .inl (List.mem_of_getElem? (hy ▸ hx))

/-- What all tasks hold together, when one has moved. -/
theorem count_flatMap_set [BEq β] (f : τ → List β) (b : β) (h : l[i]? = some x) :
    ((l.set i y).flatMap f).count b + (f x).count b = (l.flatMap f).count b + (f y).count b := by
  induction l generalizing i with
  | nil => cases h
  | cons z l ih =>
      cases i with
      | zero =>
          cases h
          simp only [List.set_cons_zero, List.flatMap_cons, List.count_append]
          omega
      | succ i =>
          have := ih (i := i) (by simpa using h)
          simp only [List.set_cons_succ, List.flatMap_cons, List.count_append]
          omega

end Rafka

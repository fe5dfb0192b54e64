/-
Rafka/Rank.lean

Ranks in a sample, read off the counts of its buckets.

The values of a sample fall into numbered buckets, larger values into later
ones.  Who knows only how many values each bucket has can still tell the
bucket of the `k`-th smallest one: it is the first at which the counts, added
up from the left, reach `k`.

* `lt_countP_iff` — in a sorted list the values with a property that smaller
  ones have as well are those before a place;
* `le_countP_iff` — the same for the values of a sample by their rank;
* `reach_counts` — the first bucket at which the counts reach a rank is the
  bucket of the value of that rank;
* `weigh_counts` — the counts with weights give the sum of the weights of the values.
-/
import Mathlib.Algebra.BigOperators.Group.List.Basic
import Mathlib.Algebra.GroupWithZero.Nat
import Mathlib.Data.List.Induction

namespace Rafka.Rank

variable {α : Type*} {r : α → α → Prop} {p : α → Bool} {l : List α} {k : Nat}

/-- In a sorted list the values with a property that smaller ones have as well
are those before a place. -/
theorem lt_countP_iff (hsorted : l.Pairwise r) (hdown : ∀ a b, r a b → p b → p a) :
    k < l.countP p ↔ ∃ a, l[k]? = some a ∧ p a := by
  induction l generalizing k with
  | nil => simp
  | cons a l ih =>
      obtain ⟨hfirst, hrest⟩ := List.pairwise_cons.mp hsorted
      by_cases ha : p a
      · rw [List.countP_cons_of_pos ha]
        cases k with
        | zero => exact ⟨fun _ => ⟨a, rfl, ha⟩, fun _ => Nat.succ_pos _⟩
        | succ k =>
            rw [List.getElem?_cons_succ, Nat.add_lt_add_iff_right]
            exact ih hrest
      · -- nobody behind `a` has the property either
        have hnone : ∀ b ∈ a :: l, ¬ p b := by
          intro b hb hpb
          rcases List.mem_cons.mp hb with rfl | hb
          · exact ha hpb
          · exact ha (hdown a b (hfirst b hb) hpb)
        rw [List.countP_eq_zero.mpr hnone]
        apply iff_of_false (Nat.not_lt_zero k)
        rintro ⟨b, hb, hpb⟩
        exact hnone b (List.mem_of_getElem? hb) hpb

/-! ### Samples -/

/-- The value of rank `k` in a sample, the smallest one having rank 1. -/
def ofRank (le : α → α → Bool) (k : Nat) (l : List α) : Option α := (l.mergeSort le)[k - 1]?

variable {le : α → α → Bool}

theorem mem_of_ofRank {a : α} (h : ofRank le k l = some a) : a ∈ l :=
  List.mem_mergeSort.mp (List.mem_of_getElem? h)

/-- Every value of a sample has a rank. -/
theorem exists_rank_of_mem {a : α} (h : a ∈ l) : ∃ k, 1 ≤ k ∧ ofRank le k l = some a := by
  obtain ⟨i, hi, ha⟩ := List.getElem_of_mem (List.mem_mergeSort.mpr h)
  refine ⟨i + 1, Nat.le_add_left 1 i, ?_⟩
  rw [ofRank, Nat.add_sub_cancel, List.getElem?_eq_getElem hi, ha]

theorem exists_ofRank (hpos : 1 ≤ k) (hle : k ≤ l.length) : ∃ a, ofRank le k l = some a := by
  have hlt : k - 1 < (l.mergeSort le).length := by
    rw [List.length_mergeSort]
    omega
  exact ⟨_, List.getElem?_eq_getElem hlt⟩

section Total

variable (htrans : ∀ a b c, le a b → le b c → le a c) (htotal : ∀ a b, (le a b || le b a) = true)

include htrans htotal

/-- At least `k` values of a sample have a property that smaller ones have as
well exactly if the one of rank `k` has it. -/
theorem le_countP_iff {a : α} (hpos : 1 ≤ k) (ha : ofRank le k l = some a)
    (hdown : ∀ a b, le a b → p b → p a) : k ≤ l.countP p ↔ p a := by
  have hsorted := List.pairwise_mergeSort htrans htotal l
  have hplace := lt_countP_iff (k := k - 1) hsorted hdown
  rw [(List.mergeSort_perm l le).countP_eq p] at hplace
  constructor
  · intro hle
    obtain ⟨b, hb, hpb⟩ := hplace.mp (by omega)
    cases ha.symm.trans hb
    exact hpb
  · intro hpa
    have hlt := hplace.mpr ⟨a, ha, hpa⟩
    omega

/-- Larger ranks have larger values. -/
theorem ofRank_mono {k' : Nat} {a b : α} (hk : k ≤ k') (ha : ofRank le k l = some a)
    (hb : ofRank le k' l = some b) : le a b := by
  have hsorted := List.pairwise_mergeSort htrans htotal l
  obtain ⟨hlt, ha⟩ := List.getElem?_eq_some_iff.mp ha
  obtain ⟨hlt', hb⟩ := List.getElem?_eq_some_iff.mp hb
  rcases Nat.eq_or_lt_of_le (Nat.sub_le_sub_right hk 1) with heq | hless
  · have hab : a = b := by rw [← ha, ← hb]; congr
    simpa [hab] using htotal b b
  · rw [← ha, ← hb]
    exact List.pairwise_iff_getElem.mp hsorted _ _ hlt hlt' hless

end Total

/-! ### Buckets -/

/-- How many values of a sample fall into each of `n` buckets. -/
def counts (bucket : α → Nat) (n : Nat) (l : List α) : List Nat :=
  (List.range n).map fun i => l.countP fun a => bucket a = i

/-- The first bucket, counted from `i` on, at which the counts reach `target`;
`seen` values are in the buckets before. -/
def reach (target : Nat) : Nat → Nat → List Nat → Option Nat
  | _, _, [] => none
  | i, seen, n :: counts =>
      if target ≤ seen + n then some i else reach target (i + 1) (seen + n) counts

variable {bucket : α → Nat}

theorem getElem?_counts {n i : Nat} (hi : i < n) :
    (counts bucket n l)[i]? = some (l.countP fun a => bucket a = i) := by
  rw [counts, List.getElem?_map, List.getElem?_range hi, Option.map_some]

theorem countP_lt_succ (i : Nat) :
    l.countP (fun a => bucket a < i) + l.countP (fun a => bucket a = i) =
      l.countP fun a => bucket a < i + 1 := by
  induction l with
  | nil => rfl
  | cons a l ih =>
      simp only [List.countP_cons, decide_eq_true_eq]
      split_ifs <;> omega

theorem sum_counts {n : Nat} (h : ∀ a ∈ l, bucket a < n) : (counts bucket n l).sum = l.length := by
  have hsum : ∀ m, (counts bucket m l).sum = l.countP fun a => bucket a < m := by
    intro m
    induction m with
    | zero => simp [counts]
    | succ m ih =>
        rw [← countP_lt_succ, ← ih, counts, List.range_succ]
        simp [counts]
  rw [hsum, List.countP_eq_length]
  exact fun a ha => decide_eq_true (h a ha)

theorem counts_concat {n : Nat} (a : α) :
    counts bucket n (l ++ [a]) = (counts bucket n l).modify (bucket a) (· + 1) := by
  apply List.ext_getElem (by simp [counts])
  intro i _ _
  simp only [counts, List.getElem_map, List.getElem_range, List.getElem_modify, List.countP_append,
    List.countP_singleton, decide_eq_true_eq]
  split_ifs <;> rfl

/-- The counts added up, each with the weight of its bucket; the first one is that of bucket
`i`. -/
def weigh (weight : Nat → Nat) : Nat → List Nat → Nat
  | _, [] => 0
  | i, n :: counts => weight i * n + weigh weight (i + 1) counts

theorem weigh_modify (weight : Nat → Nat) {counts : List Nat} {b : Nat} (hb : b < counts.length)
    (i : Nat) :
    weigh weight i (counts.modify b (· + 1)) = weigh weight i counts + weight (i + b) := by
  induction counts generalizing i b with
  | nil => exact absurd hb (Nat.not_lt_zero b)
  | cons n counts ih =>
      cases b with
      | zero =>
          rw [List.modify_zero_cons, weigh, weigh, Nat.mul_succ, Nat.add_zero i]
          omega
      | succ b =>
          rw [List.modify_succ_cons, weigh, weigh, ih (Nat.lt_of_succ_lt_succ hb),
            show i + 1 + b = i + (b + 1) by omega]
          omega

/-- The weighted counts of a sample are the weights of its values. -/
theorem weigh_counts (weight : Nat → Nat) {n : Nat} (h : ∀ a ∈ l, bucket a < n) :
    weigh weight 0 (counts bucket n l) = (l.map fun a => weight (bucket a)).sum := by
  induction l using List.reverseRecOn with
  | nil =>
      have hzero : ∀ m i, weigh weight i (List.replicate m 0) = 0 := by
        intro m
        induction m with
        | zero => exact fun i => rfl
        | succ m ih => exact fun i => by rw [List.replicate_succ, weigh, ih, Nat.mul_zero]
      have hnone : counts bucket n ([] : List α) = List.replicate n 0 := by simp [counts]
      rw [hnone, hzero]
      rfl
  | append_singleton l a ih =>
      have ha : bucket a < (counts bucket n l).length := by
        rw [counts, List.length_map, List.length_range]
        exact h a (List.mem_append_right _ (List.mem_singleton_self a))
      rw [counts_concat, weigh_modify weight ha, Nat.zero_add,
        ih fun b hb => h b (List.mem_append_left _ hb), List.map_append, List.sum_append,
        List.map_singleton, List.sum_singleton]

/-- Once one bucket is known to be the first that reaches the target, the loop
over the counts stops there. -/
theorem reach_range' {target b : Nat}
    (hfirst : ∀ i, target ≤ l.countP (fun a => bucket a < i + 1) ↔ b ≤ i) (m i : Nat)
    (hi : i ≤ b) (hm : b < i + m) :
    reach target i (l.countP fun a => bucket a < i)
      ((List.range' i m).map fun j => l.countP fun a => bucket a = j) = some b := by
  induction m generalizing i with
  | zero => omega
  | succ m ih =>
      rw [List.range'_succ, List.map_cons, reach, countP_lt_succ, if_congr (hfirst i) rfl rfl]
      split_ifs with hle
      · rw [Nat.le_antisymm hi hle]
      · exact ih (i + 1) (by omega) (by omega)

/-- **The bucket of a rank.**  The first bucket at which the counts of a sample
reach `k` is that of the value of rank `k`. -/
theorem reach_counts (htrans : ∀ a b c, le a b → le b c → le a c)
    (htotal : ∀ a b, (le a b || le b a) = true) {n : Nat} {a : α} (hpos : 1 ≤ k)
    (ha : ofRank le k l = some a) (hbucket : ∀ a b, le a b → bucket a ≤ bucket b)
    (hlt : ∀ a ∈ l, bucket a < n) : reach k 0 0 (counts bucket n l) = some (bucket a) := by
  have hfirst : ∀ i, k ≤ l.countP (fun a => bucket a < i + 1) ↔ bucket a ≤ i := by
    intro i
    rw [le_countP_iff htrans htotal hpos ha fun b c hbc hc => ?_, decide_eq_true_eq, Nat.lt_succ_iff]
    have hle := hbucket b c hbc
    have hc := of_decide_eq_true hc
    exact decide_eq_true (Nat.lt_of_le_of_lt hle hc)
  have hzero : l.countP (fun a => bucket a < 0) = 0 := by simp
  have hreach := reach_range' hfirst n 0 (Nat.zero_le _) (by simpa using hlt a (mem_of_ofRank ha))
  rw [hzero, ← List.range_eq_range'] at hreach
  exact hreach

end Rafka.Rank

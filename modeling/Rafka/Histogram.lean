/-
Rafka/Histogram.lean

Latency histograms (`crates/core/src/monitoring.rs`, `Histogram`).

A histogram counts how many of the recorded values fall below each of its
bounds, and below none.  `get_percentile` adds the counts up until they reach
a target and answers with the lower edge of the bucket where they do.

Percentiles are rational numbers and the product with the total is exact.
Machine arithmetic is checked, as in a build with overflow checks: `none` is a
panic.

Main result (`points_at_rank_iff`): the answer is the lower edge of the bucket
of the value it asks for exactly if the target is not rounded down to zero, or
zero is the right answer.
-/
import Mathlib.Data.List.Induction
import Mathlib.Data.Rat.Floor
import Rafka.Rank

namespace Rafka

/-- An addition of `u64`, which panics if it overflows. -/
def u64Add (a b : UInt64) : Option UInt64 :=
  if a.toNat + b.toNat < 2 ^ 64 then some (a + b) else none

/-- `x as u64` for a number that is not an integer: rounded towards zero and
brought into range. -/
def asU64 (x : ℚ) : UInt64 := UInt64.ofNat (min ⌊x⌋₊ (2 ^ 64 - 1))

/-- `Histogram`.  There is one bucket more than there are bounds. -/
structure Histogram where
  buckets : List UInt64
  bucketBounds : List UInt64
  length_buckets : buckets.length = bucketBounds.length + 1

namespace Histogram

/-- `Histogram::new`. -/
def new (bucketBounds : List UInt64) : Histogram :=
  ⟨List.replicate (bucketBounds.length + 1) 0, bucketBounds, List.length_replicate⟩

/-- The bucket `record` puts a value in: that of the first bound above it. -/
def bucketIndex (bucketBounds : List UInt64) (valueMs : UInt64) : Nat :=
  (bucketBounds.findIdx? fun bound => valueMs < bound).getD bucketBounds.length

/-- `Histogram::record`. -/
def record (h : Histogram) (valueMs : UInt64) : Option Histogram :=
  let i := bucketIndex h.bucketBounds valueMs
  match h.buckets[i]? with
  | none => none
  | some count =>
      match u64Add count 1 with
      | none => none
      | some count => some ⟨h.buckets.set i count, h.bucketBounds, by simp [h.length_buckets]⟩

/-- `buckets.iter().sum()`. -/
def total (h : Histogram) : Option UInt64 := h.buckets.foldlM u64Add 0

/-- The loop of `get_percentile`, at bucket `i`. -/
def percentileLoop (bucketBounds : List UInt64) (target : UInt64) :
    Nat → UInt64 → List UInt64 → Option UInt64
  | _, _, [] => some (bucketBounds.getLast?.getD 0)
  | i, cumulative, count :: buckets =>
      match u64Add cumulative count with
      | none => none
      | some cumulative =>
          if target ≤ cumulative then
            if i = 0 then some 0 else bucketBounds[i - 1]?
          else percentileLoop bucketBounds target (i + 1) cumulative buckets

/-- `Histogram::get_percentile`. -/
def getPercentile (h : Histogram) (percentile : ℚ) : Option UInt64 :=
  match h.total with
  | none => none
  | some total =>
      if total = 0 then some 0
      else percentileLoop h.bucketBounds (asU64 (total.toNat * percentile)) 0 0 h.buckets

/-- A new histogram in which these values have been recorded one after the other. -/
def recordAll (bucketBounds values : List UInt64) : Option Histogram :=
  values.foldlM record (new bucketBounds)

/-- The percentile of a new histogram with these values. -/
def percentileOf (bucketBounds values : List UInt64) (percentile : ℚ) : Option UInt64 :=
  match recordAll bucketBounds values with
  | none => none
  | some h => h.getPercentile percentile

/-! ### What a percentile stands for -/

/-- `edge` is the lower edge of the bucket that contains the value: the last
bound that is not above it, or 0 in the first bucket. -/
def IsLowerEdge (bucketBounds : List UInt64) (value edge : UInt64) : Prop :=
  (edge = 0 ∧ ∀ bound ∈ bucketBounds, value < bound) ∨
    (edge ∈ bucketBounds ∧ edge ≤ value ∧ ∀ bound ∈ bucketBounds, bound ≤ value → bound ≤ edge)

/-- The recorded value of a rank, the smallest one having rank 1. -/
def valueOfRank (rank : Nat) (values : List UInt64) : Option UInt64 :=
  Rank.ofRank (fun a b => decide (a ≤ b)) rank values

/-- The percentile is the lower edge of the bucket of the value whose rank it
asks for, it does not exceed that value, and no larger percentile is smaller. -/
structure PointsAtRank (bucketBounds values : List UInt64) (p : ℚ) (edge : UInt64) : Prop where
  returns : percentileOf bucketBounds values p = some edge
  bucket : ∃ value, valueOfRank (max 1 ⌊p * values.length⌋₊) values = some value ∧
    IsLowerEdge bucketBounds value edge ∧ edge ≤ value
  monotone : ∀ q edge', p ≤ q → q ≤ 1 → percentileOf bucketBounds values q = some edge' →
    edge ≤ edge'

/-! ### Buckets and their edges -/

theorem u64Add_eq_some {a b c : UInt64} : u64Add a b = some c ↔ a.toNat + b.toNat = c.toNat := by
  unfold u64Add
  split_ifs with hlt
  · have hadd : (a + b).toNat = a.toNat + b.toNat := by
      rw [UInt64.toNat_add, Nat.mod_eq_of_lt hlt]
    rw [Option.some.injEq, ← hadd, UInt64.toNat_inj]
  · refine iff_of_false (by simp) fun heq => hlt ?_
    rw [heq]
    exact c.toNat_lt

variable {bounds values : List UInt64} {value edge : UInt64}

theorem bucketIndex_eq (bounds : List UInt64) (value : UInt64) :
    bucketIndex bounds value = bounds.findIdx fun bound => value < bound := by
  unfold bucketIndex
  cases hfind : bounds.findIdx? fun bound => decide (value < bound) with
  | none => rw [Option.getD_none, List.findIdx_eq_length_of_false (List.findIdx?_eq_none_iff.mp hfind)]
  | some i => rw [Option.getD_some, (List.findIdx?_eq_some_iff_findIdx_eq.mp hfind).2]

theorem bucketIndex_lt (bounds : List UInt64) (value : UInt64) :
    bucketIndex bounds value < bounds.length + 1 := by
  rw [bucketIndex_eq]
  exact Nat.lt_succ_of_le List.findIdx_le_length

/-- Larger values are not in earlier buckets. -/
theorem bucketIndex_mono {value' : UInt64} (h : value ≤ value') :
    bucketIndex bounds value ≤ bucketIndex bounds value' := by
  rw [bucketIndex_eq, bucketIndex_eq]
  by_contra hlt
  -- the bound that stops the larger value would stop the smaller one first
  have hlt := Nat.lt_of_not_le hlt
  have hlength := Nat.lt_of_lt_of_le hlt List.findIdx_le_length
  have hbound := List.findIdx_getElem (w := hlength)
  have hnot := List.not_of_lt_findIdx hlt
  simp only [decide_eq_true_eq, decide_eq_false_iff_not] at hbound hnot
  exact hnot (UInt64.lt_of_le_of_lt h hbound)

/-- What the loop answers when it stops at a bucket. -/
def edgeOf (bucketBounds : List UInt64) (i : Nat) : Option UInt64 :=
  if i = 0 then some 0 else bucketBounds[i - 1]?

/-- The loop stops at the bucket of a value with the lower edge of that bucket. -/
theorem edgeOf_bucketIndex (hbounds : bounds.Pairwise (· < ·)) (value : UInt64) :
    ∃ edge, edgeOf bounds (bucketIndex bounds value) = some edge ∧
      IsLowerEdge bounds value edge := by
  -- the bounds before the bucket are not above the value, all others are
  have hbefore : ∀ i (hi : i < bounds.length), i < bucketIndex bounds value → bounds[i] ≤ value := by
    intro i hi hlt
    rw [bucketIndex_eq] at hlt
    simpa using List.not_of_lt_findIdx hlt
  have hafter : ∀ i (hi : i < bounds.length), bucketIndex bounds value ≤ i → value < bounds[i] := by
    intro i hi hle
    have hlength := Nat.lt_of_le_of_lt hle hi
    rw [bucketIndex_eq] at hlength
    have hfirst := List.findIdx_getElem (w := hlength)
    simp only [← bucketIndex_eq, decide_eq_true_eq] at hfirst
    rcases Nat.eq_or_lt_of_le hle with heq | hlt
    · simpa only [heq] using hfirst
    · exact UInt64.lt_trans hfirst (List.pairwise_iff_getElem.mp hbounds _ _ _ hi hlt)
  unfold edgeOf
  split_ifs with hzero
  · refine ⟨0, rfl, .inl ⟨rfl, fun bound hbound => ?_⟩⟩
    obtain ⟨i, hi, rfl⟩ := List.getElem_of_mem hbound
    exact hafter i hi (by omega)
  · have hlt : bucketIndex bounds value - 1 < bounds.length := by
      have := bucketIndex_lt bounds value
      omega
    refine ⟨_, List.getElem?_eq_getElem hlt, .inr ⟨List.getElem_mem hlt, ?_, ?_⟩⟩
    · exact hbefore _ hlt (by omega)
    · intro bound hbound hle
      obtain ⟨i, hi, rfl⟩ := List.getElem_of_mem hbound
      by_cases hi' : i < bucketIndex bounds value - 1
      · exact UInt64.le_of_lt (List.pairwise_iff_getElem.mp hbounds _ _ hi hlt hi')
      · rcases Nat.eq_or_lt_of_le (Nat.le_of_not_lt hi') with heq | hlater
        · simp only [heq, UInt64.le_refl]
        · exact absurd hle (UInt64.not_le.mpr (hafter i hi (by omega)))

theorem IsLowerEdge.le (h : IsLowerEdge bounds value edge) : edge ≤ value := by
  rcases h with ⟨rfl, -⟩ | ⟨-, hle, -⟩
  · exact UInt64.zero_le
  · exact hle

theorem IsLowerEdge.mono {value' edge' : UInt64} (h : IsLowerEdge bounds value edge)
    (h' : IsLowerEdge bounds value' edge') (hle : value ≤ value') : edge ≤ edge' := by
  rcases h with ⟨rfl, -⟩ | ⟨hmem, hedge, -⟩
  · exact UInt64.zero_le
  · have hbelow := UInt64.le_trans hedge hle
    rcases h' with ⟨-, habove⟩ | ⟨-, -, hlast⟩
    · exact absurd hbelow (UInt64.not_le.mpr (habove edge hmem))
    · exact hlast edge hmem hbelow

/-- The lower edge is 0 exactly if no other bound is below the value. -/
theorem isLowerEdge_zero_iff :
    IsLowerEdge bounds value 0 ↔ ∀ bound ∈ bounds, bound = 0 ∨ value < bound := by
  constructor
  · rintro (⟨-, habove⟩ | ⟨-, -, hlast⟩) bound hbound
    · exact .inr (habove bound hbound)
    · by_cases hle : bound ≤ value
      · exact .inl (UInt64.le_antisymm (hlast bound hbound hle) UInt64.zero_le)
      · exact .inr (UInt64.not_le.mp hle)
  · intro h
    by_cases hmem : 0 ∈ bounds
    · refine .inr ⟨hmem, UInt64.zero_le, fun bound hbound hle => ?_⟩
      rcases h bound hbound with rfl | hlt
      · exact UInt64.le_refl 0
      · exact absurd hle (UInt64.not_le.mpr hlt)
    · refine .inl ⟨rfl, fun bound hbound => ?_⟩
      rcases h bound hbound with rfl | hlt
      · exact absurd hbound hmem
      · exact hlt

/-! ### What the buckets count -/

/-- The buckets have the counts of these values. -/
def Counts (h : Histogram) (values : List UInt64) : Prop :=
  h.buckets.map UInt64.toNat =
    Rank.counts (bucketIndex h.bucketBounds) (h.bucketBounds.length + 1) values

theorem counts_new (bounds : List UInt64) : (new bounds).Counts [] := by
  simp [Counts, new, Rank.counts]

/-- Recording counts the value, or panics at the 2⁶⁴-th one in its bucket. -/
theorem Counts.record {h : Histogram} (hcounts : h.Counts values) (value : UInt64) :
    (h.record value = none ∧ 2 ^ 64 ≤ values.length + 1) ∨
      ∃ h', h.record value = some h' ∧ h'.bucketBounds = h.bucketBounds ∧
        h'.Counts (values ++ [value]) := by
  have hi : bucketIndex h.bucketBounds value < h.buckets.length := by
    rw [h.length_buckets]
    exact bucketIndex_lt _ _
  have hcount : (h.buckets[bucketIndex h.bucketBounds value]).toNat =
      values.countP fun v => bucketIndex h.bucketBounds v = bucketIndex h.bucketBounds value := by
    have hget := congrArg (·[bucketIndex h.bucketBounds value]?) hcounts
    simp only [List.getElem?_map, List.getElem?_eq_getElem hi, Option.map_some,
      Rank.getElem?_counts (bucketIndex_lt h.bucketBounds value)] at hget
    exact Option.some.inj hget
  simp only [Histogram.record, List.getElem?_eq_getElem hi]
  cases hadd : u64Add h.buckets[bucketIndex h.bucketBounds value] 1 with
  | none =>
      refine .inl ⟨rfl, ?_⟩
      by_contra hfew
      have hle : values.countP (fun v =>
          bucketIndex h.bucketBounds v = bucketIndex h.bucketBounds value) ≤ values.length :=
        List.countP_le_length
      have hlt : h.buckets[bucketIndex h.bucketBounds value].toNat + (1 : UInt64).toNat < 2 ^ 64 := by
        rw [hcount, UInt64.toNat_one]
        omega
      rw [u64Add, if_pos hlt] at hadd
      cases hadd
  | some count =>
      refine .inr ⟨_, rfl, rfl, ?_⟩
      have hsucc := u64Add_eq_some.mp hadd
      rw [UInt64.toNat_one] at hsucc
      show (h.buckets.set _ count).map UInt64.toNat = Rank.counts (bucketIndex h.bucketBounds) _ _
      rw [Rank.counts_concat, ← hcounts, List.map_set, ← hsucc, List.modify_eq_set_getElem?]
      simp [List.getElem?_eq_getElem hi]

/-- Recording values one after the other counts them all, or panics when there
are too many. -/
theorem recordAll_cases (bounds values : List UInt64) :
    (recordAll bounds values = none ∧ 2 ^ 64 ≤ values.length) ∨
      ∃ h, recordAll bounds values = some h ∧ h.bucketBounds = bounds ∧ h.Counts values := by
  induction values using List.reverseRecOn with
  | nil => exact .inr ⟨new bounds, rfl, rfl, counts_new bounds⟩
  | append_singleton values value ih =>
      rw [recordAll, List.foldlM_append, List.length_append]
      rcases ih with ⟨hpanic, hmany⟩ | ⟨h, hrecorded, hbounds, hcounts⟩
      · rw [recordAll] at hpanic
        exact .inl ⟨by rw [hpanic]; rfl, by omega⟩
      · rw [recordAll] at hrecorded
        have hlast : (values.foldlM Histogram.record (new bounds) >>= fun h =>
            [value].foldlM Histogram.record h) = h.record value := by
          rw [hrecorded]
          simp
        rw [hlast]
        rcases hcounts.record value with ⟨hpanic, hmany⟩ | ⟨h', hrecord, hsame, hcounts'⟩
        · exact .inl ⟨hpanic, hmany⟩
        · exact .inr ⟨h', hrecord, hsame.trans hbounds, hcounts'⟩

theorem foldlM_u64Add {buckets : List UInt64} {start total : UInt64} :
    buckets.foldlM u64Add start = some total ↔
      start.toNat + (buckets.map UInt64.toNat).sum = total.toNat := by
  induction buckets generalizing start with
  | nil => simp [UInt64.toNat_inj]
  | cons count buckets ih =>
      rw [List.foldlM_cons, List.map_cons, List.sum_cons, ← Nat.add_assoc]
      cases hadd : u64Add start count with
      | some next =>
          rw [u64Add_eq_some.mp hadd]
          exact ih
      | none =>
          apply iff_of_false (by simp)
          intro htotal
          -- the first sum is no larger than the total
          have hlt : start.toNat + count.toNat < 2 ^ 64 := by
            have := total.toNat_lt
            omega
          rw [u64Add, if_pos hlt] at hadd
          cases hadd

theorem Counts.total_iff {h : Histogram} (hcounts : h.Counts values) {total : UInt64} :
    h.total = some total ↔ values.length = total.toNat := by
  rw [Histogram.total, foldlM_u64Add, hcounts,
    Rank.sum_counts fun value _ => bucketIndex_lt h.bucketBounds value, UInt64.toNat_zero, Nat.zero_add]

/-- As long as the sums stay in range the loop stops where the counts reach the
target. -/
theorem percentileLoop_eq {target cumulative : UInt64} {buckets : List UInt64} {i : Nat}
    (hroom : cumulative.toNat + (buckets.map UInt64.toNat).sum < 2 ^ 64) :
    percentileLoop bounds target i cumulative buckets =
      match Rank.reach target.toNat i cumulative.toNat (buckets.map UInt64.toNat) with
      | some j => edgeOf bounds j
      | none => some (bounds.getLast?.getD 0) := by
  induction buckets generalizing i cumulative with
  | nil => rfl
  | cons count buckets ih =>
      rw [List.map_cons, List.sum_cons, ← Nat.add_assoc] at hroom
      have hadd : u64Add cumulative count = some (cumulative + count) := if_pos (by omega)
      have hnat := u64Add_eq_some.mp hadd
      rw [percentileLoop, hadd, List.map_cons, Rank.reach, hnat]
      simp only [UInt64.le_iff_toNat_le]
      by_cases hreached : target.toNat ≤ (cumulative + count).toNat
      · rw [if_pos hreached, if_pos hreached]
        rfl
      · rw [if_neg hreached, if_neg hreached]
        exact ih (by omega)

/-! ### Percentiles -/

/-- With 2⁶⁴ values or more something overflows. -/
theorem percentileOf_of_many (hmany : 2 ^ 64 ≤ values.length) (p : ℚ) :
    percentileOf bounds values p = none := by
  unfold percentileOf
  rcases recordAll_cases bounds values with ⟨hpanic, -⟩ | ⟨h, hrecorded, -, hcounts⟩
  · rw [hpanic]
  · rw [hrecorded]
    cases htotal : h.total with
    | none => simp only [getPercentile, htotal]
    | some total =>
        have := hcounts.total_iff.mp htotal
        have := total.toNat_lt
        omega

theorem toNat_asU64 {n : Nat} {p : ℚ} (hn : n < 2 ^ 64) (hp1 : p ≤ 1) :
    (asU64 (n * p)).toNat = ⌊(n : ℚ) * p⌋₊ := by
  have hle : ⌊(n : ℚ) * p⌋₊ ≤ n := by
    apply Nat.floor_le_of_le
    exact mul_le_of_le_one_right (Nat.cast_nonneg n) hp1
  rw [asU64, Nat.min_eq_left (by omega), UInt64.toNat_ofNat_of_lt' (Nat.lt_of_le_of_lt hle hn)]

/-- The percentile is where the counts of the values reach the target. -/
theorem percentileOf_eq (hfew : values.length < 2 ^ 64) (hne : values ≠ []) {p : ℚ} (hp1 : p ≤ 1) :
    percentileOf bounds values p =
      match Rank.reach ⌊p * values.length⌋₊ 0 0
          (Rank.counts (bucketIndex bounds) (bounds.length + 1) values) with
      | some i => edgeOf bounds i
      | none => some (bounds.getLast?.getD 0) := by
  rcases recordAll_cases bounds values with ⟨-, hmany⟩ | ⟨h, hrecorded, rfl, hcounts⟩
  · omega
  · have htotal : h.total = some (UInt64.ofNat values.length) :=
      hcounts.total_iff.mpr (UInt64.toNat_ofNat_of_lt' hfew).symm
    have hpos : UInt64.ofNat values.length ≠ 0 := by
      intro hzero
      have hlength := congrArg UInt64.toNat hzero
      rw [UInt64.toNat_ofNat_of_lt' hfew, UInt64.toNat_zero] at hlength
      exact hne (List.eq_nil_of_length_eq_zero hlength)
    have hroom : (0 : UInt64).toNat + (h.buckets.map UInt64.toNat).sum < 2 ^ 64 := by
      rw [hcounts, Rank.sum_counts fun value _ => bucketIndex_lt h.bucketBounds value]
      simpa using hfew
    simp only [percentileOf, hrecorded, getPercentile, htotal, if_neg hpos]
    rw [percentileLoop_eq hroom, UInt64.toNat_ofNat_of_lt' hfew, toNat_asU64 hfew hp1, hcounts,
      mul_comm p, UInt64.toNat_zero]

/-- A target that is rounded down to zero is reached in the first bucket,
whatever that has counted. -/
theorem percentileOf_of_floor_eq_zero (hfew : values.length < 2 ^ 64) (hne : values ≠ []) {p : ℚ}
    (hp1 : p ≤ 1) (hfloor : ⌊p * values.length⌋₊ = 0) : percentileOf bounds values p = some 0 := by
  rw [percentileOf_eq hfew hne hp1, hfloor, Rank.counts, List.range_succ_eq_map]
  rfl

theorem le_trans_decide (a b c : UInt64) (hab : decide (a ≤ b)) (hbc : decide (b ≤ c)) :
    decide (a ≤ c) :=
  decide_eq_true (UInt64.le_trans (of_decide_eq_true hab) (of_decide_eq_true hbc))

theorem le_total_decide (a b : UInt64) : (decide (a ≤ b) || decide (b ≤ a)) = true := by
  simpa using UInt64.le_total a b

/-- Any other target leads to the bucket of the value of that rank. -/
theorem percentileOf_of_floor_pos (hbounds : bounds.Pairwise (· < ·)) (hfew : values.length < 2 ^ 64)
    (hne : values ≠ []) {p : ℚ} (hp1 : p ≤ 1) (hfloor : 1 ≤ ⌊p * values.length⌋₊)
    (hvalue : valueOfRank ⌊p * values.length⌋₊ values = some value) :
    ∃ edge, percentileOf bounds values p = some edge ∧ IsLowerEdge bounds value edge := by
  rw [percentileOf_eq hfew hne hp1,
    Rank.reach_counts le_trans_decide le_total_decide hfloor hvalue
      (fun a b hab => bucketIndex_mono (of_decide_eq_true hab)) fun v _ => bucketIndex_lt bounds v]
  exact edgeOf_bucketIndex hbounds value

/-- The value a percentile asks for. -/
theorem exists_valueOfRank (hne : values ≠ []) {p : ℚ} (hp1 : p ≤ 1) :
    ∃ value, valueOfRank (max 1 ⌊p * values.length⌋₊) values = some value := by
  have hpos : 1 ≤ values.length := List.length_pos_iff.mpr hne
  have hfloor : ⌊p * values.length⌋₊ ≤ values.length :=
    Nat.floor_le_of_le (mul_le_of_le_one_left (Nat.cast_nonneg _) hp1)
  exact Rank.exists_ofRank (Nat.le_max_left 1 _) (Nat.max_le.mpr ⟨hpos, hfloor⟩)

/-- Larger percentiles are not smaller. -/
theorem percentileOf_mono (hbounds : bounds.Pairwise (· < ·)) (hfew : values.length < 2 ^ 64)
    (hne : values ≠ []) {p q : ℚ} (hpq : p ≤ q) (hq1 : q ≤ 1) {edge' : UInt64}
    (hp : percentileOf bounds values p = some edge)
    (hq : percentileOf bounds values q = some edge') : edge ≤ edge' := by
  have hp1 : p ≤ 1 := le_trans hpq hq1
  have hle : ⌊p * values.length⌋₊ ≤ ⌊q * values.length⌋₊ :=
    Nat.floor_le_floor (mul_le_mul_of_nonneg_right hpq (Nat.cast_nonneg _))
  rcases Nat.eq_zero_or_pos ⌊p * values.length⌋₊ with hfloor | hfloor
  · rw [percentileOf_of_floor_eq_zero hfew hne hp1 hfloor] at hp
    cases hp
    exact UInt64.zero_le
  · obtain ⟨value, hvalue⟩ := exists_valueOfRank hne hp1
    obtain ⟨value', hvalue'⟩ := exists_valueOfRank hne hq1
    rw [Nat.max_eq_right hfloor] at hvalue
    rw [Nat.max_eq_right (Nat.le_trans hfloor hle)] at hvalue'
    obtain ⟨e, he, hedge⟩ := percentileOf_of_floor_pos hbounds hfew hne hp1 hfloor hvalue
    obtain ⟨e', he', hedge'⟩ :=
      percentileOf_of_floor_pos hbounds hfew hne hq1 (Nat.le_trans hfloor hle) hvalue'
    cases hp.symm.trans he
    cases hq.symm.trans he'
    exact hedge.mono hedge'
      (of_decide_eq_true (Rank.ofRank_mono le_trans_decide le_total_decide hle hvalue hvalue'))

/-- The smallest value is in a bucket with lower edge 0 as soon as one is. -/
theorem isLowerEdge_zero_of_mem (hvalue : valueOfRank 1 values = some value) {v : UInt64}
    (hv : v ∈ values) (hbelow : ∀ bound ∈ bounds, bound = 0 ∨ v < bound) :
    IsLowerEdge bounds value 0 := by
  obtain ⟨rank, hpos, hrank⟩ := Rank.exists_rank_of_mem hv
  have hle : value ≤ v := of_decide_eq_true
    (Rank.ofRank_mono le_trans_decide le_total_decide hpos hvalue hrank)
  apply isLowerEdge_zero_iff.mpr
  intro bound hbound
  exact (hbelow bound hbound).imp_right (UInt64.lt_of_le_of_lt hle)

/-- **Percentiles point at the right bucket** exactly if the histogram is not
overfull and either the target is not rounded down to zero or some value lies
in a bucket with lower edge 0. -/
theorem points_at_rank_iff (hbounds : bounds.Pairwise (· < ·)) (hne : values ≠ []) {p : ℚ}
    (hp : 0 < p) (hp1 : p ≤ 1) :
    (∃ edge, PointsAtRank bounds values p edge) ↔
      values.length < 2 ^ 64 ∧
        (1 ≤ p * values.length ∨ ∃ v ∈ values, ∀ bound ∈ bounds, bound = 0 ∨ v < bound) := by
  have hnonneg : 0 ≤ p * values.length := mul_nonneg hp.le (Nat.cast_nonneg _)
  obtain ⟨value, hvalue⟩ := exists_valueOfRank hne hp1
  constructor
  · rintro ⟨edge, hpoints⟩
    have hfew : values.length < 2 ^ 64 := by
      by_contra hmany
      cases (percentileOf_of_many (Nat.le_of_not_lt hmany) p).symm.trans hpoints.returns
    refine ⟨hfew, or_iff_not_imp_left.mpr fun hless => ?_⟩
    -- the target is zero, so the answer is, and it is the edge of the smallest value
    have hfloor : ⌊p * values.length⌋₊ = 0 := Nat.floor_eq_zero.mpr (lt_of_not_ge hless)
    obtain ⟨v, hv, hedge, -⟩ := hpoints.bucket
    cases (percentileOf_of_floor_eq_zero hfew hne hp1 hfloor).symm.trans hpoints.returns
    exact ⟨v, Rank.mem_of_ofRank hv, isLowerEdge_zero_iff.mp hedge⟩
  · rintro ⟨hfew, hcond⟩
    have hedge : ∃ edge, percentileOf bounds values p = some edge ∧ IsLowerEdge bounds value edge := by
      rcases Nat.eq_zero_or_pos ⌊p * values.length⌋₊ with hfloor | hfloor
      · have hless : ¬ 1 ≤ p * values.length := not_le_of_gt (Nat.floor_eq_zero.mp hfloor)
        obtain ⟨v, hv, hbelow⟩ := hcond.resolve_left hless
        rw [hfloor] at hvalue
        exact ⟨0, percentileOf_of_floor_eq_zero hfew hne hp1 hfloor,
          isLowerEdge_zero_of_mem hvalue hv hbelow⟩
      · rw [Nat.max_eq_right hfloor] at hvalue
        exact percentileOf_of_floor_pos hbounds hfew hne hp1 hfloor hvalue
    obtain ⟨edge, hreturns, hedge⟩ := hedge
    exact ⟨edge, hreturns, ⟨value, hvalue, hedge, hedge.le⟩,
      fun q edge' hpq hq1 hq => percentileOf_mono hbounds hfew hne hpq hq1 hreturns hq⟩

/-- The bounds of the latencies in `MetricsCollector`. -/
def latencyBounds : List UInt64 := [1, 5, 10, 25, 50, 100, 250, 500, 1000, 5000]

theorem points_at_rank_iff_two :
    ∃ edge, PointsAtRank latencyBounds [750, 3] (99 / 100) edge :=
  (points_at_rank_iff (by decide) (by decide) (by norm_num) (by norm_num)).mpr
    ⟨by decide, .inl (by norm_num)⟩

/-- With a single publish of 750 ms the 99th percentile is reported as 0 ms. -/
theorem single_latency_reported_as_zero :
    percentileOf latencyBounds [750] (99 / 100) = some 0 ∧
      ¬ ∃ edge, PointsAtRank latencyBounds [750] (99 / 100) edge := by
  have hzero : percentileOf latencyBounds [750] (99 / 100) = some 0 := by decide +kernel
  refine ⟨hzero, ?_⟩
  rintro ⟨edge, hpoints⟩
  cases hzero.symm.trans hpoints.returns
  obtain ⟨v, hv, hedge, -⟩ := hpoints.bucket
  obtain rfl : v = 750 := List.mem_singleton.mp (Rank.mem_of_ofRank hv)
  -- the bound 500 is at or below the value
  rcases isLowerEdge_zero_iff.mp hedge 500 (by decide) with hbound | hbound
  · exact absurd hbound (by decide)
  · exact absurd hbound (by decide)

end Histogram

end Rafka

/-
Rafka/Average.lean

The average of a histogram (`Histogram::get_average` in `crates/core/src/monitoring.rs`).

The values themselves are gone when the average is asked for, so each stands for the lower
edge of its bucket.  The sum of the edges and the number of values are `u64`, with checked
arithmetic; both are rounded to `f64`, and so is their quotient.

Main result (`average_of_lower_edges`): as long as nothing overflows the answer is this
rounded mean of the edges.  It is close to the mean of the edges, and never more than what the
same roundings make of the mean of the values.
-/
import Rafka.Histogram
import Rafka.Rounding

namespace Rafka

/-- A multiplication of `u64`, which panics if it overflows. -/
def u64Mul (a b : UInt64) : Option UInt64 :=
  if a.toNat * b.toNat < 2 ^ 64 then some (a * b) else none

/-- `as f64`: an `f64` has 53 binary digits. -/
def u64AsF64 (n : UInt64) : ℚ := Rounding.roundTo 53 n.toNat

/-- The quotient of two `f64`, if it is within the range of their exponents; that of two
rounded `u64` always is. -/
def f64Div (a b : ℚ) : ℚ := Rounding.roundTo 53 (a / b)

namespace Histogram

/-- What the values of a bucket count as: `bucket_value`. -/
def bucketValue (bucketBounds : List UInt64) (i : Nat) : UInt64 :=
  if i = 0 then 0
  else if i < bucketBounds.length then bucketBounds[i - 1]?.getD 0
  else bucketBounds.getLast?.getD 0

/-- The loop of `get_average`, at bucket `i`. -/
def averageLoop (bucketBounds : List UInt64) : Nat → UInt64 → List UInt64 → Option UInt64
  | _, sum, [] => some sum
  | i, sum, count :: buckets => do
      let share ← u64Mul (bucketValue bucketBounds i) count
      let sum ← u64Add sum share
      averageLoop bucketBounds (i + 1) sum buckets

/-- `Histogram::get_average`. -/
def getAverage (h : Histogram) : Option ℚ :=
  match h.total with
  | none => none
  | some total =>
      if total = 0 then some 0
      else (averageLoop h.bucketBounds 0 0 h.buckets).map fun sum =>
        f64Div (u64AsF64 sum) (u64AsF64 total)

/-- The average of a new histogram with these values. -/
def averageOf (bucketBounds values : List UInt64) : Option ℚ :=
  match recordAll bucketBounds values with
  | none => none
  | some h => h.getAverage

/-! ### Rounded means -/

/-- What the operations of `f64` make of a sum and a number of values. -/
def roundedMean (sum count : ℕ) : ℚ :=
  Rounding.roundTo 53 (Rounding.roundTo 53 (sum : ℚ) / Rounding.roundTo 53 (count : ℚ))

theorem roundedMean_mono {sum sum' : ℕ} (h : sum ≤ sum') (count : ℕ) :
    roundedMean sum count ≤ roundedMean sum' count := by
  have hcount : (0 : ℚ) ≤ Rounding.roundTo 53 (count : ℚ) :=
    Rounding.roundTo_nonneg (by decide) (Nat.cast_nonneg count)
  have hsum : Rounding.roundTo 53 (sum : ℚ) ≤ Rounding.roundTo 53 (sum' : ℚ) :=
    Rounding.roundTo_mono (by decide) (Nat.cast_nonneg sum) (by exact_mod_cast h)
  refine Rounding.roundTo_mono (by decide) (div_nonneg ?_ hcount)
    (div_le_div_of_nonneg_right hsum hcount)
  exact Rounding.roundTo_nonneg (by decide) (Nat.cast_nonneg sum)

theorem abs_roundedMean_sub_le (sum count : ℕ) :
    |roundedMean sum count - sum / count| ≤ (sum / count : ℚ) / 2 ^ 51 := by
  rcases Nat.eq_zero_or_pos count with rfl | hcount
  · simp [roundedMean]
  · have hclose := Rounding.abs_quotient_sub_le (K := ℚ) (p := 53) (a := sum) (b := count)
      (by decide) (Nat.cast_nonneg sum) (by exact_mod_cast hcount)
    have hparts : (4 : ℚ) / 2 ^ 53 = 1 / 2 ^ 51 := by norm_num
    rwa [hparts, mul_one_div] at hclose

/-- Small numbers are not rounded before they are divided. -/
theorem roundedMean_of_lt {sum count : ℕ} (hsum : sum < 2 ^ 53) (hcount : count < 2 ^ 53) :
    roundedMean sum count = Rounding.roundTo 53 (sum / count : ℚ) := by
  rw [roundedMean, Rounding.roundTo_natCast hsum, Rounding.roundTo_natCast hcount]

/-! ### The loop -/

theorem u64Mul_eq_some {a b c : UInt64} : u64Mul a b = some c ↔ a.toNat * b.toNat = c.toNat := by
  unfold u64Mul
  split_ifs with hlt
  · have hmul : (a * b).toNat = a.toNat * b.toNat := by
      rw [UInt64.toNat_mul, Nat.mod_eq_of_lt hlt]
    rw [Option.some.injEq, ← hmul, UInt64.toNat_inj]
  · refine iff_of_false (by simp) fun heq => hlt ?_
    rw [heq]
    exact c.toNat_lt

/-- What overflows on the way overflows in the end. -/
theorem averageLoop_eq_some {bounds buckets : List UInt64} {i : Nat} {start sum : UInt64} :
    averageLoop bounds i start buckets = some sum ↔
      start.toNat + Rank.weigh (fun i => (bucketValue bounds i).toNat) i
        (buckets.map UInt64.toNat) = sum.toNat := by
  induction buckets generalizing i start with
  | nil => simp [averageLoop, Rank.weigh, UInt64.toNat_inj]
  | cons count buckets ih =>
      have hsum := sum.toNat_lt
      rw [averageLoop, List.map_cons, Rank.weigh, ← Nat.add_assoc]
      cases hmul : u64Mul (bucketValue bounds i) count with
      | none =>
          refine iff_of_false (Option.some_ne_none _ ·.symm) fun htotal => ?_
          rw [u64Mul, if_pos (by omega)] at hmul
          cases hmul
      | some share =>
          rw [u64Mul_eq_some.mp hmul, Option.bind_eq_bind, Option.bind_some]
          cases hadd : u64Add start share with
          | none =>
              refine iff_of_false (Option.some_ne_none _ ·.symm) fun htotal => ?_
              rw [u64Add, if_pos (by omega)] at hadd
              cases hadd
          | some next =>
              rw [u64Add_eq_some.mp hadd, Option.bind_some]
              exact ih

/-! ### Lower edges -/

variable {bounds values : List UInt64}

/-- A bucket counts as its lower edge. -/
theorem bucketValue_eq {i : Nat} {edge : UInt64} (hi : i ≤ bounds.length)
    (hedge : edgeOf bounds i = some edge) : bucketValue bounds i = edge := by
  rw [edgeOf] at hedge
  rw [bucketValue]
  split
  · rename_i hzero
    rw [if_pos hzero] at hedge
    exact Option.some.inj hedge
  · rename_i hpos
    rw [if_neg hpos] at hedge
    split
    · rw [hedge, Option.getD_some]
    · rename_i hlast
      have hlength : i = bounds.length := by omega
      rw [List.getLast?_eq_getElem?, ← hlength, hedge, Option.getD_some]

/-- The lower edges of the values. -/
def edges (bucketBounds values : List UInt64) : List UInt64 :=
  values.map fun value => bucketValue bucketBounds (bucketIndex bucketBounds value)

theorem isLowerEdge_edges (hbounds : bounds.Pairwise (· < ·)) :
    List.Forall₂ (IsLowerEdge bounds) values (edges bounds values) := by
  rw [edges, List.forall₂_map_right_iff, List.forall₂_same]
  intro value _
  obtain ⟨edge, hedge, hlower⟩ := edgeOf_bucketIndex hbounds value
  rwa [bucketValue_eq (Nat.le_of_lt_succ (bucketIndex_lt bounds value)) hedge]

theorem sum_edges_le (h : List.Forall₂ (IsLowerEdge bounds) values (edges bounds values)) :
    ((edges bounds values).map UInt64.toNat).sum ≤ (values.map UInt64.toNat).sum := by
  generalize edges bounds values = edges at h
  induction h with
  | nil => exact Nat.le_refl _
  | cons hedge _ ih =>
      rw [List.map_cons, List.map_cons, List.sum_cons, List.sum_cons]
      exact Nat.add_le_add (UInt64.le_iff_toNat_le.mp hedge.le) ih

/-- What the loop adds up. -/
theorem Counts.averageLoop_eq_some {h : Histogram} (hcounts : h.Counts values) {sum : UInt64} :
    averageLoop h.bucketBounds 0 0 h.buckets = some sum ↔
      ((edges h.bucketBounds values).map UInt64.toNat).sum = sum.toNat := by
  rw [Histogram.averageLoop_eq_some, hcounts,
    Rank.weigh_counts _ fun value _ => bucketIndex_lt h.bucketBounds value, UInt64.toNat_zero,
    Nat.zero_add, edges, List.map_map]
  rfl

theorem averageOf_of_many (hmany : 2 ^ 64 ≤ values.length) : averageOf bounds values = none := by
  rw [averageOf]
  rcases recordAll_cases bounds values with ⟨hpanic, -⟩ | ⟨h, hrecorded, -, hcounts⟩
  · rw [hpanic]
  · rw [hrecorded]
    have htotal : h.total = none := by
      cases htotal : h.total with
      | none => rfl
      | some total =>
          have := hcounts.total_iff.mp htotal
          have := total.toNat_lt
          omega
    show h.getAverage = none
    rw [getAverage, htotal]

/-- What `get_average` answers: there are fewer than 2⁶⁴ values, the sum of their lower edges
is less than that, and the answer is the rounded mean of the edges. -/
theorem averageOf_eq_some_iff {average : ℚ} : averageOf bounds values = some average ↔
    values.length < 2 ^ 64 ∧ ((edges bounds values).map UInt64.toNat).sum < 2 ^ 64 ∧
      average = roundedMean ((edges bounds values).map UInt64.toNat).sum values.length := by
  by_cases hfew : values.length < 2 ^ 64
  · rcases recordAll_cases bounds values with ⟨-, hmany⟩ | ⟨h, hrecorded, rfl, hcounts⟩
    · exact absurd hfew (Nat.not_lt_of_le hmany)
    · have hlength : (UInt64.ofNat values.length).toNat = values.length :=
        UInt64.toNat_ofNat_of_lt' hfew
      rw [averageOf, hrecorded]
      show h.getAverage = some average ↔ _
      rw [getAverage, hcounts.total_iff.mpr hlength.symm]
      show (if UInt64.ofNat values.length = 0 then some 0 else
        (averageLoop h.bucketBounds 0 0 h.buckets).map fun sum =>
          f64Div (u64AsF64 sum) (Rounding.roundTo 53 (UInt64.ofNat values.length).toNat)) =
        some average ↔ _
      rw [hlength]
      split
      · rename_i hzero
        have hnil : values = [] := by
          rw [hzero] at hlength
          exact List.length_eq_zero_iff.mp hlength.symm
        subst hnil
        simp [edges, roundedMean, eq_comm]
      · by_cases hsum : ((edges h.bucketBounds values).map UInt64.toNat).sum < 2 ^ 64
        · have htoNat := UInt64.toNat_ofNat_of_lt' hsum
          have hloop := hcounts.averageLoop_eq_some.mpr htoNat.symm
          rw [hloop, Option.map_some, u64AsF64, htoNat, Option.some.injEq]
          simp only [hfew, hsum, true_and]
          exact eq_comm
        · have hloop : averageLoop h.bucketBounds 0 0 h.buckets = none := by
            cases hloop : averageLoop h.bucketBounds 0 0 h.buckets with
            | none => rfl
            | some sum =>
                have := sum.toNat_lt
                rw [hcounts.averageLoop_eq_some] at hloop
                omega
          rw [hloop]
          exact iff_of_false (Option.some_ne_none average).symm fun h => hsum h.2.1
  · rw [averageOf_of_many (Nat.le_of_not_lt hfew)]
    exact iff_of_false (Option.some_ne_none average).symm fun h => hfew h.1

/-- **The average is that of the lower edges.**  Whatever has been recorded, `get_average`
answers exactly if there are fewer than 2⁶⁴ values and the sum of their lower edges is less than
that; then it answers with their rounded mean.  This is the mean of the edges but for one part
in 2⁵¹, it is the rounding of that mean if neither number has more than 53 digits, and it is at
most the rounded mean of the values. -/
theorem average_of_lower_edges (bounds values : List UInt64) (hbounds : bounds.Pairwise (· < ·)) :
    ∃ (edges : List UInt64) (sum : ℕ), List.Forall₂ (IsLowerEdge bounds) values edges ∧
      (edges.map UInt64.toNat).sum = sum ∧ sum ≤ (values.map UInt64.toNat).sum ∧
      (∀ average, averageOf bounds values = some average ↔
        values.length < 2 ^ 64 ∧ sum < 2 ^ 64 ∧ average = roundedMean sum values.length) ∧
      |roundedMean sum values.length - sum / values.length| ≤
        (sum / values.length : ℚ) / 2 ^ 51 ∧
      (sum < 2 ^ 53 → values.length < 2 ^ 53 →
        roundedMean sum values.length = Rounding.roundTo 53 (sum / values.length : ℚ)) ∧
      roundedMean sum values.length ≤
        roundedMean (values.map UInt64.toNat).sum values.length := by
  have hlower : List.Forall₂ (IsLowerEdge bounds) values (edges bounds values) :=
    isLowerEdge_edges hbounds
  have hle := sum_edges_le hlower
  exact ⟨edges bounds values, _, hlower, rfl, hle, fun average => averageOf_eq_some_iff,
    abs_roundedMean_sub_le _ _, roundedMean_of_lt, roundedMean_mono hle _⟩

/-- Three publishes of 750, 3 and 0 ms, whose mean is 251 ms. -/
theorem average_of_lower_edges_three :
    ∃ average, averageOf latencyBounds [750, 3, 0] = some average ∧ average ≤ 251 := by
  obtain ⟨edges, sum, -, -, hle, haverage, -, -, hvalues⟩ :=
    average_of_lower_edges latencyBounds [750, 3, 0] (by decide)
  have hsum : sum ≤ 753 := hle
  refine ⟨_, (haverage _).mpr ⟨by decide, by omega, rfl⟩, hvalues.trans_eq ?_⟩
  have hmean : ((753 : ℕ) : ℚ) / ((3 : ℕ) : ℚ) = (251 : ℕ) := by norm_num
  show roundedMean 753 3 = 251
  rw [roundedMean_of_lt (by decide) (by decide), hmean, Rounding.roundTo_natCast (by decide)]
  rfl

end Histogram

end Rafka

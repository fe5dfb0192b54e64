/-
Rafka/Rounding.lean

Rounding to binary floating-point numbers.

A number that is not negative is rounded to `p` significant binary digits: to the
nearest multiple of its unit in the last place (`ulp`), and to the even multiple where two
are equally near.  The exponent is not bounded, so this is what a format with `p` digits
does to numbers within the range of its exponents.

* `abs_roundTo_sub_le` — rounding changes a number by at most its `2 ^ p`-th part;
* `roundTo_mono` — rounding keeps the order;
* `roundTo_natCast` — natural numbers below `2 ^ p` stay as they are.

A quotient of rounded numbers, rounded, is close to the quotient of the numbers
(`abs_quotient_sub_le`).
-/
import Mathlib.Data.Int.Log
import Mathlib.Data.Rat.Floor
import Mathlib.Algebra.Order.Field.Power
import Mathlib.Algebra.Order.Round
import Mathlib.Tactic.Linarith
import Mathlib.Tactic.FieldSimp
import Mathlib.Tactic.Positivity
import Mathlib.Tactic.NormNum

namespace Rafka.Rounding

variable {K : Type*} [Field K] [LinearOrder K] [IsStrictOrderedRing K] [FloorRing K]

/-! ### Rounding to integers -/

/-- The nearest integer; between two the even one. -/
def roundEven (x : K) : ℤ :=
  if Int.fract x < 1 / 2 then ⌊x⌋
  else if 1 / 2 < Int.fract x then ⌊x⌋ + 1
  else if Even ⌊x⌋ then ⌊x⌋ else ⌊x⌋ + 1

omit [IsStrictOrderedRing K] in
theorem floor_le_roundEven (x : K) : ⌊x⌋ ≤ roundEven x := by
  unfold roundEven
  split_ifs <;> omega

omit [IsStrictOrderedRing K] in
theorem roundEven_le_floor_add_one (x : K) : roundEven x ≤ ⌊x⌋ + 1 := by
  unfold roundEven
  split_ifs <;> omega

theorem abs_roundEven_sub_le (x : K) : |(roundEven x : K) - x| ≤ 1 / 2 := by
  have hx : (⌊x⌋ : K) + Int.fract x = x := Int.floor_add_fract x
  have hlt : Int.fract x < 1 := Int.fract_lt_one x
  have hnonneg : 0 ≤ Int.fract x := Int.fract_nonneg x
  rw [abs_le]
  unfold roundEven
  split_ifs with hbelow habove heven
  · constructor <;> linarith
  · push_cast
    constructor <;> linarith
  · constructor <;> linarith
  · push_cast
    constructor <;> linarith

@[simp] theorem roundEven_intCast (n : ℤ) : roundEven (n : K) = n := by
  have hhalf : (0 : K) < 1 / 2 := by norm_num
  rw [roundEven, Int.fract_intCast, if_pos hhalf, Int.floor_intCast]

theorem roundEven_mono {x y : K} (h : x ≤ y) : roundEven x ≤ roundEven y := by
  rcases (Int.floor_mono h).eq_or_lt with heq | hlt
  · -- on one interval between integers the fractions decide
    have hfract : Int.fract x ≤ Int.fract y := by
      rw [Int.fract, Int.fract, heq]
      exact sub_le_sub_right h _
    unfold roundEven
    rw [heq]
    split_ifs with hx hy hy' heven hx' hy hy' heven' heven hy hy' <;>
      first
      | omega
      | exact absurd (hfract.trans_lt ‹_›) ‹_›
      | exact absurd (lt_of_lt_of_le ‹_› hfract) ‹_›
  · calc roundEven x ≤ ⌊x⌋ + 1 := roundEven_le_floor_add_one x
      _ ≤ ⌊y⌋ := hlt
      _ ≤ roundEven y := floor_le_roundEven y

/-! ### Rounding to significant digits -/

/-- The unit in the last of `p` significant digits. -/
def ulp (p : ℕ) (x : K) : K := 2 ^ (Int.log 2 x + 1 - p)

/-- A number that is not negative, to `p` significant digits. -/
def roundTo (p : ℕ) (x : K) : K := roundEven (x / ulp p x) * ulp p x

variable {p : ℕ} {x y : K}

theorem ulp_pos (p : ℕ) (x : K) : 0 < ulp p x := zpow_pos two_pos _

omit [IsStrictOrderedRing K] in
theorem two_pow_mul_ulp (p : ℕ) (x : K) : 2 ^ p * ulp p x = 2 ^ (Int.log 2 x + 1) := by
  rw [ulp, ← zpow_natCast, ← zpow_add₀ two_ne_zero, add_sub_cancel]

theorem two_zpow_log_le (hx : 0 < x) : (2 : K) ^ Int.log 2 x ≤ x := by
  exact_mod_cast Int.zpow_log_le_self (b := 2) one_lt_two hx

theorem lt_two_zpow_log (x : K) : x < 2 ^ (Int.log 2 x + 1) := by
  exact_mod_cast Int.lt_zpow_succ_log_self (b := 2) one_lt_two x

@[simp] theorem roundTo_zero (p : ℕ) : roundTo p (0 : K) = 0 := by
  have hzero : roundEven (0 : K) = 0 := by simpa using roundEven_intCast (K := K) 0
  rw [roundTo, zero_div, hzero, Int.cast_zero, zero_mul]

/-- **Rounding changes little.** -/
theorem abs_roundTo_sub_le (p : ℕ) (hx : 0 ≤ x) : |roundTo p x - x| ≤ x / 2 ^ p := by
  rcases hx.eq_or_lt with rfl | hx
  · simp
  · have hulp := ulp_pos p x
    have hsplit : roundTo p x - x = (roundEven (x / ulp p x) - x / ulp p x) * ulp p x := by
      rw [roundTo, sub_mul, div_mul_cancel₀ _ hulp.ne']
    have hdigits : 2 ^ p * ulp p x ≤ 2 * x := by
      rw [two_pow_mul_ulp, zpow_add_one₀ two_ne_zero, mul_comm]
      exact mul_le_mul_of_nonneg_left (two_zpow_log_le hx) zero_le_two
    have hpow : (0 : K) < 2 ^ p := pow_pos two_pos p
    calc |roundTo p x - x| = |(roundEven (x / ulp p x) : K) - x / ulp p x| * ulp p x := by
          rw [hsplit, abs_mul, abs_of_pos hulp]
      _ ≤ 1 / 2 * ulp p x :=
          mul_le_mul_of_nonneg_right (abs_roundEven_sub_le _) hulp.le
      _ ≤ x / 2 ^ p := by
          rw [le_div_iff₀ hpow]
          linarith

/-- A number is rounded down to the power of two below it at most. -/
theorem two_zpow_log_le_roundTo (hp : 0 < p) (hx : 0 < x) :
    (2 : K) ^ Int.log 2 x ≤ roundTo p x := by
  have hulp := ulp_pos p x
  have hpower : (2 : K) ^ Int.log 2 x = ((2 ^ (p - 1) : ℤ) : K) * ulp p x := by
    rw [ulp, Int.cast_pow, Int.cast_ofNat, ← zpow_natCast, ← zpow_add₀ two_ne_zero]
    congr 1
    omega
  have hle : (2 ^ (p - 1) : ℤ) ≤ roundEven (x / ulp p x) := by
    rw [← roundEven_intCast (K := K) (2 ^ (p - 1))]
    apply roundEven_mono
    rw [le_div_iff₀ hulp, ← hpower]
    exact two_zpow_log_le hx
  rw [hpower, roundTo]
  exact mul_le_mul_of_nonneg_right (by exact_mod_cast hle) hulp.le

/-- And up to the next power of two. -/
theorem roundTo_le_two_zpow_log (p : ℕ) (x : K) : roundTo p x ≤ 2 ^ (Int.log 2 x + 1) := by
  have hulp := ulp_pos p x
  have hle : roundEven (x / ulp p x) ≤ (2 ^ p : ℤ) := by
    rw [← roundEven_intCast (K := K) (2 ^ p)]
    apply roundEven_mono
    rw [div_le_iff₀ hulp, Int.cast_pow, Int.cast_ofNat, two_pow_mul_ulp]
    exact (lt_two_zpow_log x).le
  rw [← two_pow_mul_ulp p x, roundTo]
  exact mul_le_mul_of_nonneg_right (by exact_mod_cast hle) hulp.le

theorem roundTo_pos (hp : 0 < p) (hx : 0 < x) : 0 < roundTo p x :=
  (zpow_pos two_pos _).trans_le (two_zpow_log_le_roundTo hp hx)

theorem roundTo_nonneg (hp : 0 < p) (hx : 0 ≤ x) : 0 ≤ roundTo p x := by
  rcases hx.eq_or_lt with rfl | hx
  · rw [roundTo_zero]
  · exact (roundTo_pos hp hx).le

/-- **Rounding keeps the order.** -/
theorem roundTo_mono (hp : 0 < p) (hx : 0 ≤ x) (h : x ≤ y) : roundTo p x ≤ roundTo p y := by
  rcases hx.eq_or_lt with rfl | hx
  · rw [roundTo_zero]
    exact roundTo_nonneg hp h
  · rcases (Int.log_mono_right (b := 2) hx h).eq_or_lt with heq | hlt
    · -- the unit is the same
      have hulp : ulp p x = ulp p y := by rw [ulp, ulp, heq]
      rw [roundTo, roundTo, hulp]
      refine mul_le_mul_of_nonneg_right ?_ (ulp_pos p y).le
      exact_mod_cast roundEven_mono (div_le_div_of_nonneg_right h (ulp_pos p y).le)
    · calc roundTo p x ≤ 2 ^ (Int.log 2 x + 1) := roundTo_le_two_zpow_log p x
        _ ≤ 2 ^ Int.log 2 y := zpow_le_zpow_right₀ one_le_two hlt
        _ ≤ roundTo p y := two_zpow_log_le_roundTo hp (hx.trans_le h)

/-- What is a multiple of its unit stays. -/
theorem roundTo_of_multiple {n : ℤ} (h : x = n * ulp p x) : roundTo p x = x := by
  have hdiv : x / ulp p x = n := by
    rw [div_eq_iff (ulp_pos p x).ne', ← h]
  rw [roundTo, hdiv, roundEven_intCast, ← h]

/-- **Natural numbers of at most `p` digits stay.** -/
theorem roundTo_natCast {n : ℕ} (h : n < 2 ^ p) : roundTo p (n : K) = n := by
  rcases Nat.eq_zero_or_pos n with rfl | hn
  · rw [Nat.cast_zero, roundTo_zero]
  · have hlog : Nat.log 2 n < p := Nat.log_lt_of_lt_pow hn.ne' h
    -- the unit is the inverse of a power of two
    apply roundTo_of_multiple (n := n * 2 ^ (p - (Nat.log 2 n + 1)))
    have hexp : ((p - (Nat.log 2 n + 1) : ℕ) : ℤ) + ((Nat.log 2 n : ℤ) + 1 - p) = 0 := by omega
    rw [ulp, Int.log_natCast, Int.cast_mul, Int.cast_pow, Int.cast_ofNat, Int.cast_natCast,
      mul_assoc, ← zpow_natCast, ← zpow_add₀ two_ne_zero, hexp, zpow_zero, mul_one]

/-! ### Quotients -/

/-- A rounded number lies between its fractions and multiples by one part in `2 ^ p`. -/
theorem roundTo_bounds (p : ℕ) (hx : 0 ≤ x) :
    x * (1 - 1 / 2 ^ p) ≤ roundTo p x ∧ roundTo p x ≤ x * (1 + 1 / 2 ^ p) := by
  have herror := abs_le.mp (abs_roundTo_sub_le p hx)
  have hpart : x / 2 ^ p = x * (1 / 2 ^ p) := by rw [mul_one_div]
  rw [hpart] at herror
  constructor
  · linarith [herror.1]
  · linarith [herror.2]

/-- **Three roundings change a quotient by four parts at most.** -/
theorem abs_quotient_sub_le {a b : K} (hp : 3 ≤ p) (ha : 0 ≤ a) (hb : 0 < b) :
    |roundTo p (roundTo p a / roundTo p b) - a / b| ≤ a / b * (4 / 2 ^ p) := by
  obtain ⟨hlow, hhigh⟩ := roundTo_bounds p ha
  obtain ⟨hlow', hhigh'⟩ := roundTo_bounds p hb.le
  have hb' : 0 < roundTo p b := roundTo_pos (by omega) hb
  have hq : 0 ≤ roundTo p a / roundTo p b := div_nonneg (roundTo_nonneg (by omega) ha) hb'.le
  obtain ⟨hlow'', hhigh''⟩ := roundTo_bounds p hq
  have hquotient : roundTo p a / roundTo p b * roundTo p b = roundTo p a :=
    div_mul_cancel₀ _ hb'.ne'
  have hmean : a / b * b = a := div_mul_cancel₀ _ hb.ne'
  have hm : 0 ≤ a / b := div_nonneg ha hb.le
  have hfour : (4 : K) / 2 ^ p = 4 * (1 / 2 ^ p) := by rw [mul_one_div]
  have hu : (0 : K) < 1 / 2 ^ p := by positivity
  have hsmall : 8 * (1 / 2 ^ p) ≤ (1 : K) := by
    have hpow : (2 : K) ^ 3 ≤ 2 ^ p := pow_le_pow_right₀ one_le_two hp
    rw [mul_one_div, div_le_one (by positivity)]
    linarith
  rw [hfour]
  generalize (1 : K) / 2 ^ p = u at *
  generalize roundTo p a / roundTo p b = q at *
  generalize a / b = m at *
  -- what rounding the two numbers does to the quotient
  have hqHigh : q * (1 - u) ≤ m * (1 + u) := by
    refine le_of_mul_le_mul_right ?_ hb
    calc q * (1 - u) * b = q * (b * (1 - u)) := by ring
      _ ≤ q * roundTo p b := mul_le_mul_of_nonneg_left hlow' hq
      _ = roundTo p a := hquotient
      _ ≤ a * (1 + u) := hhigh
      _ = m * (1 + u) * b := by rw [← hmean]; ring
  have hqLow : m * (1 - u) ≤ q * (1 + u) := by
    refine le_of_mul_le_mul_right ?_ hb
    calc m * (1 - u) * b = a * (1 - u) := by rw [← hmean]; ring
      _ ≤ roundTo p a := hlow
      _ = q * roundTo p b := hquotient.symm
      _ ≤ q * (b * (1 + u)) := mul_le_mul_of_nonneg_left hhigh' hq
      _ = q * (1 + u) * b := by ring
  rw [abs_le]
  constructor
  · have hlast : m * (1 - 4 * u) ≤ q * (1 - u) := by
      refine le_of_mul_le_mul_right ?_ (by linarith : 0 < 1 + u)
      nlinarith [mul_nonneg hm hu.le, mul_nonneg hm (mul_nonneg hu.le hu.le)]
    linarith
  · have hlast : q * (1 + u) ≤ m * (1 + 4 * u) := by
      refine le_of_mul_le_mul_right ?_ (by linarith : 0 < 1 - u)
      nlinarith [mul_nonneg hm hu.le,
        mul_nonneg (mul_nonneg hm hu.le) (by linarith : 0 ≤ 1 - 5 * u)]
    linarith

end Rafka.Rounding

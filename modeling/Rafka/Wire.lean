/-
Rafka/Wire.lean

Byte strings, fixed-width integers and exact reads.

`toLE w n` are the `w` low bytes of `n`, least significant byte first, and
`ofLE` reads such bytes back; `toBE` puts the most significant byte first.
Writing truncates to `w` bytes, as a cast to a machine integer does, so what
is read back is `n % 256 ^ w` (`ofLE_toLE`).

`readExact n bs` splits `n` bytes off the front of `bs`, or fails if there
are fewer.
-/
import Mathlib.Tactic.Common
import Mathlib.Tactic.NormNum
import Mathlib.Tactic.Ring

namespace Rafka

/-- The `w` low bytes of `n`, least significant first. -/
def toLE : Nat → Nat → List UInt8
  | 0, _ => []
  | w + 1, n => UInt8.ofNat n :: toLE w (n / 256)

/-- The number that bytes spell, least significant first. -/
def ofLE : List UInt8 → Nat
  | [] => 0
  | b :: bs => b.toNat + 256 * ofLE bs

/-- The `w` low bytes of `n`, most significant first. -/
def toBE (w n : Nat) : List UInt8 := (toLE w n).reverse

/-- The number that bytes spell, most significant first. -/
def ofBE (bs : List UInt8) : Nat := ofLE bs.reverse

/-- The first `n` bytes and the rest, if there are that many. -/
def readExact (n : Nat) (bs : List UInt8) : Option (List UInt8 × List UInt8) :=
  if n ≤ bs.length then some (bs.take n, bs.drop n) else none

/-! ### Integers -/

@[simp] theorem length_toLE (w n : Nat) : (toLE w n).length = w := by
  induction w generalizing n with
  | zero => rfl
  | succ w ih => simp [toLE, ih]

theorem ofLE_toLE (w n : Nat) : ofLE (toLE w n) = n % 256 ^ w := by
  induction w generalizing n with
  | zero => simp [toLE, ofLE, Nat.mod_one]
  | succ w ih =>
      have hb : (UInt8.ofNat n).toNat = n % 256 := by simp
      rw [toLE, ofLE, hb, ih, Nat.pow_succ', Nat.mod_mul]

theorem ofLE_toLE_of_lt {w n : Nat} (h : n < 256 ^ w) : ofLE (toLE w n) = n := by
  rw [ofLE_toLE, Nat.mod_eq_of_lt h]

/-- A `u64` survives eight bytes. -/
theorem ofLE_toLE_u64 {n : Nat} (h : n < 2 ^ 64) : ofLE (toLE 8 n) = n := by
  have hpow : (256 : Nat) ^ 8 = 2 ^ 64 := by norm_num
  exact ofLE_toLE_of_lt (hpow ▸ h)

/-- A `u32` survives four bytes. -/
theorem ofLE_toLE_u32 {n : Nat} (h : n < 2 ^ 32) : ofLE (toLE 4 n) = n := by
  have hpow : (256 : Nat) ^ 4 = 2 ^ 32 := by norm_num
  exact ofLE_toLE_of_lt (hpow ▸ h)

theorem ofLE_lt (bs : List UInt8) : ofLE bs < 256 ^ bs.length := by
  induction bs with
  | nil => simp [ofLE]
  | cons b bs ih =>
      have hb : b.toNat < 256 := b.toNat_lt
      rw [ofLE, List.length_cons, Nat.pow_succ']
      omega

theorem ofLE_append (as bs : List UInt8) :
    ofLE (as ++ bs) = ofLE as + 256 ^ as.length * ofLE bs := by
  induction as with
  | nil => simp [ofLE]
  | cons a as ih =>
      rw [List.cons_append, ofLE, ih, ofLE, List.length_cons, Nat.pow_succ']
      ring

/-- Bytes are those of the number that they spell. -/
theorem toLE_ofLE (bs : List UInt8) : toLE bs.length (ofLE bs) = bs := by
  induction bs with
  | nil => rfl
  | cons b bs ih =>
      have hb : b.toNat < 256 := b.toNat_lt
      have hlow : UInt8.ofNat (b.toNat + 256 * ofLE bs) = b := by
        apply UInt8.toNat_inj.mp
        rw [UInt8.toNat_ofNat']
        omega
      have hhigh : (b.toNat + 256 * ofLE bs) / 256 = ofLE bs := by omega
      rw [List.length_cons, ofLE, toLE, hlow, hhigh, ih]

@[simp] theorem length_toBE (w n : Nat) : (toBE w n).length = w := by
  rw [toBE, List.length_reverse, length_toLE]

/-- A `u32` survives four bytes. -/
theorem ofBE_toBE_u32 {n : Nat} (h : n < 2 ^ 32) : ofBE (toBE 4 n) = n := by
  rw [ofBE, toBE, List.reverse_reverse, ofLE_toLE_u32 h]

theorem toBE_ofBE {w : Nat} {bs : List UInt8} (h : bs.length = w) : toBE w (ofBE bs) = bs := by
  have hrev : bs.reverse.length = w := by rw [List.length_reverse, h]
  rw [toBE, ofBE, ← hrev, toLE_ofLE, List.reverse_reverse]

/-- Four bytes spell a `u32`. -/
theorem ofBE_lt_u32 {bs : List UInt8} (h : bs.length = 4) : ofBE bs < 2 ^ 32 := by
  have hlt := ofLE_lt bs.reverse
  have hpow : (256 : Nat) ^ 4 = 2 ^ 32 := by norm_num
  rw [List.length_reverse, h, hpow] at hlt
  exact hlt

/-! ### Exact reads -/

@[simp] theorem readExact_append {n : Nat} {as : List UInt8} (bs : List UInt8)
    (h : as.length = n) : readExact n (as ++ bs) = some (as, bs) := by
  subst h
  simp [readExact]

theorem readExact_eq_none {n : Nat} {bs : List UInt8} :
    readExact n bs = none ↔ bs.length < n := by
  simp [readExact]

theorem readExact_eq_some {n : Nat} {bs as rest : List UInt8} :
    readExact n bs = some (as, rest) ↔ as.length = n ∧ bs = as ++ rest := by
  constructor
  · intro h
    by_cases hn : n ≤ bs.length
    · simp only [readExact, if_pos hn, Option.some.injEq, Prod.mk.injEq] at h
      obtain ⟨rfl, rfl⟩ := h
      exact ⟨by simpa using hn, (List.take_append_drop n bs).symm⟩
    · simp [readExact, hn] at h
  · rintro ⟨hn, rfl⟩
    exact readExact_append rest hn

end Rafka

/-
Rafka/Utf8.lean

Strings and their bytes.

`utf8 s` are the bytes of a string.  `fromUtf8Lossy` reads arbitrary bytes
as a string, as `String::from_utf8_lossy` does: well-formed sequences are
decoded, and each maximal prefix of a well-formed sequence that is cut short
or broken off becomes one replacement character U+FFFD.

A replacement character takes three bytes and stands for at most three, so
reading bytes lossily never makes them fewer (`length_le_fromUtf8Lossy`).
-/
import Mathlib.Tactic.Common

namespace Rafka

/-- The bytes of a string. -/
def utf8 (s : String) : List UInt8 := s.toByteArray.data.toList

/-- U+FFFD, the replacement character. -/
def replacementChar : Char := '\uFFFD'

/-- A continuation byte. -/
def isContinuation (b : UInt8) : Bool := 0x80 ≤ b.toNat && b.toNat ≤ 0xBF

/-- The second bytes allowed after the first byte of a sequence of three. -/
def secondOfThree (b₀ b₁ : UInt8) : Bool :=
  if b₀.toNat = 0xE0 then 0xA0 ≤ b₁.toNat && b₁.toNat ≤ 0xBF
  else if b₀.toNat = 0xED then 0x80 ≤ b₁.toNat && b₁.toNat ≤ 0x9F
  else isContinuation b₁

/-- The second bytes allowed after the first byte of a sequence of four. -/
def secondOfFour (b₀ b₁ : UInt8) : Bool :=
  if b₀.toNat = 0xF0 then 0x90 ≤ b₁.toNat && b₁.toNat ≤ 0xBF
  else if b₀.toNat = 0xF4 then 0x80 ≤ b₁.toNat && b₁.toNat ≤ 0x8F
  else isContinuation b₁

/-- The character at the front of `b₀ :: rest`, and how many bytes of `rest`
belong to it. -/
def decodeLossy (b₀ : UInt8) (rest : List UInt8) : Char × Nat :=
  if b₀.toNat ≤ 0x7F then (Char.ofNat b₀.toNat, 0)
  else if 0xC2 ≤ b₀.toNat ∧ b₀.toNat ≤ 0xDF then
    match rest with
    | b₁ :: _ =>
        if isContinuation b₁ then
          (Char.ofNat ((b₀.toNat - 0xC0) * 64 + (b₁.toNat - 0x80)), 1)
        else (replacementChar, 0)
    | [] => (replacementChar, 0)
  else if 0xE0 ≤ b₀.toNat ∧ b₀.toNat ≤ 0xEF then
    match rest with
    | b₁ :: rest =>
        if secondOfThree b₀ b₁ then
          match rest with
          | b₂ :: _ =>
              if isContinuation b₂ then
                (Char.ofNat ((b₀.toNat - 0xE0) * 4096 + (b₁.toNat - 0x80) * 64 +
                  (b₂.toNat - 0x80)), 2)
              else (replacementChar, 1)
          | [] => (replacementChar, 1)
        else (replacementChar, 0)
    | [] => (replacementChar, 0)
  else if 0xF0 ≤ b₀.toNat ∧ b₀.toNat ≤ 0xF4 then
    match rest with
    | b₁ :: rest =>
        if secondOfFour b₀ b₁ then
          match rest with
          | b₂ :: rest =>
              if isContinuation b₂ then
                match rest with
                | b₃ :: _ =>
                    if isContinuation b₃ then
                      (Char.ofNat ((b₀.toNat - 0xF0) * 262144 + (b₁.toNat - 0x80) * 4096 +
                        (b₂.toNat - 0x80) * 64 + (b₃.toNat - 0x80)), 3)
                    else (replacementChar, 2)
                | [] => (replacementChar, 2)
              else (replacementChar, 1)
          | [] => (replacementChar, 1)
        else (replacementChar, 0)
    | [] => (replacementChar, 0)
  else (replacementChar, 0)

/-- The characters that bytes are read as. -/
def lossyChars : List UInt8 → List Char
  | [] => []
  | b₀ :: rest =>
      (decodeLossy b₀ rest).1 :: lossyChars (rest.drop (decodeLossy b₀ rest).2)
termination_by bs => bs.length
decreasing_by
  simp only [List.length_drop, List.length_cons]
  omega

/-- `String::from_utf8_lossy`. -/
def fromUtf8Lossy (bs : List UInt8) : String := String.ofList (lossyChars bs)

/-! ### Lossy reading never makes bytes fewer -/

@[simp] theorem length_utf8 (s : String) : (utf8 s).length = s.utf8ByteSize := by
  rw [← String.size_toByteArray]
  rfl

theorem utf8Size_ofNat {v : Nat} (h : v.isValidChar) :
    (Char.ofNat v).utf8Size =
      if v ≤ 0x7F then 1 else if v ≤ 0x7FF then 2 else if v ≤ 0xFFFF then 3 else 4 := by
  have hval : (Char.ofNat v).val.toNat = v := by
    rw [Char.ofNat, dif_pos h]
    rfl
  simp only [Char.utf8Size, UInt32.le_iff_toNat_le, hval]
  rfl

/-- A sequence of two spells a character of two bytes. -/
theorem utf8Size_of_two {b₀ b₁ : UInt8} (h₀ : 0xC2 ≤ b₀.toNat ∧ b₀.toNat ≤ 0xDF)
    (h₁ : isContinuation b₁ = true) :
    2 ≤ (Char.ofNat ((b₀.toNat - 0xC0) * 64 + (b₁.toNat - 0x80))).utf8Size := by
  simp only [isContinuation, Bool.and_eq_true, decide_eq_true_eq] at h₁
  rw [utf8Size_ofNat (.inl (by omega))]
  split_ifs <;> omega

/-- A sequence of three spells a character of three bytes; the second byte
rules out shorter forms and surrogates. -/
theorem utf8Size_of_three {b₀ b₁ b₂ : UInt8} (h₀ : 0xE0 ≤ b₀.toNat ∧ b₀.toNat ≤ 0xEF)
    (h₁ : secondOfThree b₀ b₁ = true) (h₂ : isContinuation b₂ = true) :
    3 ≤ (Char.ofNat ((b₀.toNat - 0xE0) * 4096 + (b₁.toNat - 0x80) * 64 +
      (b₂.toNat - 0x80))).utf8Size := by
  simp only [secondOfThree, isContinuation] at h₁ h₂
  have hvalid : ((b₀.toNat - 0xE0) * 4096 + (b₁.toNat - 0x80) * 64 +
      (b₂.toNat - 0x80)).isValidChar := by
    split_ifs at h₁ <;> simp only [Bool.and_eq_true, decide_eq_true_eq] at h₁ h₂ <;>
      simp only [Nat.isValidChar] <;> omega
  rw [utf8Size_ofNat hvalid]
  split_ifs at h₁ ⊢ <;> simp only [Bool.and_eq_true, decide_eq_true_eq] at h₁ h₂ <;> omega

/-- A sequence of four spells a character of four bytes. -/
theorem utf8Size_of_four {b₀ b₁ b₂ b₃ : UInt8} (h₀ : 0xF0 ≤ b₀.toNat ∧ b₀.toNat ≤ 0xF4)
    (h₁ : secondOfFour b₀ b₁ = true) (h₂ : isContinuation b₂ = true)
    (h₃ : isContinuation b₃ = true) :
    4 ≤ (Char.ofNat ((b₀.toNat - 0xF0) * 262144 + (b₁.toNat - 0x80) * 4096 +
      (b₂.toNat - 0x80) * 64 + (b₃.toNat - 0x80))).utf8Size := by
  simp only [secondOfFour, isContinuation] at h₁ h₂ h₃
  have hvalid : ((b₀.toNat - 0xF0) * 262144 + (b₁.toNat - 0x80) * 4096 +
      (b₂.toNat - 0x80) * 64 + (b₃.toNat - 0x80)).isValidChar := by
    split_ifs at h₁ <;> simp only [Bool.and_eq_true, decide_eq_true_eq] at h₁ h₂ h₃ <;>
      simp only [Nat.isValidChar] <;> omega
  rw [utf8Size_ofNat hvalid]
  split_ifs at h₁ ⊢ <;> simp only [Bool.and_eq_true, decide_eq_true_eq] at h₁ h₂ h₃ <;> omega

/-- The bytes a character stands for are no more than those it takes. -/
theorem decodeLossy_size (b₀ : UInt8) (rest : List UInt8) :
    (decodeLossy b₀ rest).2 + 1 ≤ (decodeLossy b₀ rest).1.utf8Size := by
  -- the replacement character takes three bytes and stands for three at most
  have hrep {n : Nat} (hn : n ≤ 2) : n + 1 ≤ replacementChar.utf8Size := by
    have hsize : replacementChar.utf8Size = 3 := by decide
    omega
  unfold decodeLossy
  -- by the first byte, then along the bytes that follow it
  split_ifs with h₁ h₂ h₃ h₄
  · exact Char.utf8Size_pos _
  · split
    · split_ifs with hc
      · have hsize := utf8Size_of_two h₂ hc
        dsimp only
        omega
      · exact hrep (Nat.zero_le 2)
    · exact hrep (Nat.zero_le 2)
  · split
    · split_ifs with hs
      · split
        · split_ifs with hc
          · have hsize := utf8Size_of_three h₃ hs hc
            dsimp only
            omega
          · exact hrep (Nat.le_succ 1)
        · exact hrep (Nat.le_succ 1)
      · exact hrep (Nat.zero_le 2)
    · exact hrep (Nat.zero_le 2)
  · split
    · split_ifs with hs
      · split
        · split_ifs with hc
          · split
            · split_ifs with hc'
              · have hsize := utf8Size_of_four h₄ hs hc hc'
                dsimp only
                omega
              · exact hrep (Nat.le_refl 2)
            · exact hrep (Nat.le_refl 2)
          · exact hrep (Nat.le_succ 1)
        · exact hrep (Nat.le_succ 1)
      · exact hrep (Nat.zero_le 2)
    · exact hrep (Nat.zero_le 2)
  · exact hrep (Nat.zero_le 2)

theorem utf8ByteSize_ofList_cons (c : Char) (cs : List Char) :
    (String.ofList (c :: cs)).utf8ByteSize = c.utf8Size + (String.ofList cs).utf8ByteSize := by
  rw [← List.singleton_append, String.ofList_append, String.utf8ByteSize_append,
    ← String.singleton_eq_ofList, String.utf8ByteSize_singleton]

/-- **Reading lossily never makes bytes fewer.** -/
theorem length_le_fromUtf8Lossy (bs : List UInt8) :
    bs.length ≤ (fromUtf8Lossy bs).utf8ByteSize := by
  unfold fromUtf8Lossy
  -- character by character
  induction bs using lossyChars.induct with
  | case1 => exact Nat.zero_le _
  | case2 b₀ rest ih =>
      have hsize := decodeLossy_size b₀ rest
      rw [lossyChars, utf8ByteSize_ofList_cons, List.length_cons]
      rw [List.length_drop] at ih
      omega

end Rafka

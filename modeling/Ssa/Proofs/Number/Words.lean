/-
# `Ssa.Proofs.Number.Words` — integers of a width as bit vectors

The integers of a width, kept by their unsigned readings, are the bit vectors of that length.  Each
operation on integers that is brought back to the width is the operation on bit vectors.

**Proved here.**

    wrap w v = the unsigned reading of `BitVec.ofInt w v`               (`wrap_eq_toNat`)
    the signed reading of a word is that of the bit vector              (`toSigned_toNat`)
    each reading is the one number in its range that is congruent       (`isSigned_iff`, `isUnsigned_iff`)
    the digitwise operations are those of bit vectors                   (`and_toNat`, `or_toNat`, `xor_toNat`)
    quotient, remainder and shifts of readings, wrapped                 (`ofInt_tdiv`, `ofInt_tmod`, …)
-/
import Mathlib.Data.Int.ModEq
import Mathlib.Algebra.Order.Ring.Abs
import Ssa.Number.Word

namespace Ssa.Word

variable {w : Nat}

/-! ## Readings -/

/-- The unsigned reading of an integer at a width is that of its bit vector. -/
theorem wrap_eq_toNat (w : Nat) (v : Int) : wrap w v = ((BitVec.ofInt w v).toNat : Int) := by
  rw [BitVec.toNat_ofInt]
  exact (Int.toNat_of_nonneg (wrap_nonneg w v)).symm

@[simp] theorem ofInt_toNat (x : BitVec w) : BitVec.ofInt w (x.toNat : Int) = x := by
  rw [BitVec.ofInt_natCast, BitVec.ofNat_toNat, BitVec.setWidth_eq]

@[simp] theorem wrap_toNat (x : BitVec w) : wrap w (x.toNat : Int) = x.toNat := by
  rw [wrap_eq_toNat, ofInt_toNat]

/-- The signed reading of a word of one digit or more is that of the bit vector. -/
theorem toSigned_toNat (hw : 0 < w) (x : BitVec w) : toSigned w (x.toNat : Int) = x.toInt := by
  have htwo : count w = 2 * count (w - 1) := by
    obtain ⟨n, rfl⟩ : ∃ n, w = n + 1 := ⟨w - 1, by omega⟩
    exact Nat.pow_succ'
  have hcount : (2 ^ w : Nat) = count w := rfl
  simp only [toSigned, wrap_toNat, BitVec.toInt_eq_toNat_cond, hcount]
  split <;> split <;> omega

/-! ### In the signed range -/

theorem wrap_eq_wrap_iff {a b : Int} : wrap w a = wrap w b ↔ a ≡ b [ZMOD 2 ^ w] := Iff.rfl

theorem fitsSigned_iff {v : Int} : fitsSigned w v = true ↔ -2 ^ (w - 1) ≤ v ∧ v < 2 ^ (w - 1) := by
  simp [fitsSigned, signedMin, count]

/-- A number is the signed reading of an integer at a width: it is congruent to it, and in the range. -/
def IsSigned (w : Nat) (v n : Int) : Prop :=
  n ≡ v [ZMOD 2 ^ w] ∧ -2 ^ (w - 1) ≤ n ∧ n < 2 ^ (w - 1)

theorem two_pow_eq (hw : 0 < w) : (2 : Int) ^ w = 2 * 2 ^ (w - 1) := by
  obtain ⟨n, rfl⟩ : ∃ n, w = n + 1 := ⟨w - 1, by omega⟩
  exact pow_succ' 2 n

theorem IsSigned.unique (hw : 0 < w) {v n n' : Int} (h : IsSigned w v n) (h' : IsSigned w v n') : n' = n := by
  obtain ⟨hn, hlow, hhigh⟩ := h
  obtain ⟨hn', hlow', hhigh'⟩ := h'
  have htwo := two_pow_eq hw
  have hnear : |n' - n| < 2 ^ w := abs_lt.mpr ⟨by omega, by omega⟩
  exact Int.sub_eq_zero.mp (Int.eq_zero_of_abs_lt_dvd (hn.trans hn'.symm).dvd hnear)

theorem toSigned_isSigned (hw : 0 < w) (v : Int) : IsSigned w v (toSigned w v) := by
  have hcount : (count w : Int) = 2 ^ w := by simp [count]
  have hhalf : (count (w - 1) : Int) = 2 ^ (w - 1) := by simp [count]
  have htwo := two_pow_eq hw
  have hlow := wrap_nonneg w v
  have hhigh := wrap_lt w v
  have hcongr : wrap w v ≡ v [ZMOD 2 ^ w] := wrap_eq_wrap_iff.mp (wrap_wrap w v)
  unfold toSigned
  dsimp only
  split
  · refine ⟨?_, by omega, by omega⟩
    rw [hcount]
    exact Int.sub_modulus_modEq_iff.mpr hcongr
  · exact ⟨hcongr, by omega, by omega⟩

theorem wrap_toSigned (hw : 0 < w) (v : Int) : wrap w (toSigned w v) = wrap w v :=
  wrap_eq_wrap_iff.mpr (toSigned_isSigned hw v).1

theorem isSigned_iff (hw : 0 < w) {v n : Int} : IsSigned w v n ↔ n = toSigned w v := by
  constructor
  · exact (toSigned_isSigned hw v).unique hw
  · rintro rfl
    exact toSigned_isSigned hw v

/-! ### In the unsigned range -/

/-- A number is the unsigned reading of an integer at a width: it is congruent to it, and in the range. -/
def IsUnsigned (w : Nat) (v n : Int) : Prop := n ≡ v [ZMOD 2 ^ w] ∧ 0 ≤ n ∧ n < 2 ^ w

theorem wrap_eq_emod (w : Nat) (v : Int) : wrap w v = v % 2 ^ w := by simp [wrap, count]

theorem isUnsigned_iff {v n : Int} : IsUnsigned w v n ↔ n = wrap w v := by
  rw [wrap_eq_emod]
  constructor
  · rintro ⟨hcongr, hlow, hhigh⟩
    exact (Int.emod_eq_of_lt hlow hhigh).symm.trans hcongr
  · rintro rfl
    have hpos : (0 : Int) < 2 ^ w := pow_pos (by decide) w
    exact ⟨Int.mod_modEq v _, Int.emod_nonneg v hpos.ne', Int.emod_lt_of_pos v hpos⟩

/-! ## Digits -/

theorem and_toNat (x y : BitVec w) : and w (x.toNat : Int) (y.toNat : Int) = (x &&& y).toNat := by
  simp [and, digitwise]

theorem or_toNat (x y : BitVec w) : or w (x.toNat : Int) (y.toNat : Int) = (x ||| y).toNat := by
  simp [or, digitwise]

theorem xor_toNat (x y : BitVec w) : xor w (x.toNat : Int) (y.toNat : Int) = (x ^^^ y).toNat := by
  simp [xor, digitwise]

/-! ## Results as bit vectors -/

theorem ofInt_sub (a b : Int) :
    BitVec.ofInt w (a - b) = BitVec.ofInt w a - BitVec.ofInt w b := by
  rw [Int.sub_eq_add_neg, BitVec.ofInt_add, BitVec.ofInt_neg, BitVec.sub_eq_add_neg]

theorem ofInt_fdiv (x y : BitVec w) :
    BitVec.ofInt w ((x.toNat : Int).fdiv (y.toNat : Int)) = x / y := by
  rw [Int.fdiv_eq_ediv_of_nonneg _ (by omega), ← Int.natCast_ediv, ← BitVec.toNat_udiv, ofInt_toNat]

theorem ofInt_fmod (x y : BitVec w) :
    BitVec.ofInt w ((x.toNat : Int).fmod (y.toNat : Int)) = x % y := by
  rw [Int.fmod_eq_emod_of_nonneg _ (by omega), ← Int.natCast_emod, ← BitVec.toNat_umod, ofInt_toNat]

/-- The quotient of the signed readings leaves their range only where the least number is divided by
minus one; then it is that number again. -/
theorem ofInt_tdiv (x y : BitVec w) : BitVec.ofInt w (x.toInt.tdiv y.toInt) = x.sdiv y := by
  refine BitVec.eq_of_toInt_eq ?_
  rw [BitVec.toInt_ofInt, BitVec.toInt_sdiv]

theorem ofInt_tmod (x y : BitVec w) : BitVec.ofInt w (x.toInt.tmod y.toInt) = x.srem y := by
  rw [← BitVec.toInt_srem, BitVec.ofInt_toInt]

theorem ofInt_mul_count (x : BitVec w) (n : Nat) :
    BitVec.ofInt w ((x.toNat : Int) * count n) = x <<< n := by
  refine BitVec.eq_of_toNat_eq ?_
  rw [← Int.natCast_mul, BitVec.ofInt_natCast, BitVec.toNat_ofNat, BitVec.toNat_shiftLeft,
    Nat.shiftLeft_eq]
  rfl

theorem ofInt_shiftRight (x : BitVec w) (n : Nat) :
    BitVec.ofInt w ((x.toNat : Int) >>> n) = x >>> n := by
  have h : (x.toNat : Int) >>> n = ((x >>> n).toNat : Int) := by
    rw [BitVec.toNat_ushiftRight]; rfl
  rw [h, ofInt_toNat]

/-- Shifting the signed reading fills with the sign. -/
theorem ofInt_toInt_shiftRight (x : BitVec w) (n : Nat) :
    BitVec.ofInt w (x.toInt >>> n) = x.sshiftRight n := by
  rw [← BitVec.toInt_sshiftRight, BitVec.ofInt_toInt]

end Ssa.Word

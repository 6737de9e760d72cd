/-
# `Ssa.Proofs.Number.Encoding` — the word of a datum fits its width

The word that holds a datum of a format is less than the number of words of its width.

**Proved here.**

    2 ^ leadingExp q ≤ |q| < 2 ^ (leadingExp q + 1)                     (`leadingExp_le`, `lt_leadingExp`)
    |q| below the bound of a format  ⟹  its fields are below the top    (`encodeMagnitude_lt`)
    a datum brought to a precision is a word of its width               (`Precision.encode_convert_lt`)
-/
import Mathlib.Data.Rat.Floor
import Mathlib.Tactic.Linarith
import Ssa.Number.Word
import Ssa.Number.Bits
import Ssa.Ty

namespace Ssa

/-! ## Powers of two around a rational -/

theorem two_zpow_pos (k : Int) : (0 : Rat) < 2 ^ k := Rat.zpow_pos (by decide)

theorem two_zpow_add (k l : Int) : (2 : Rat) ^ (k + l) = 2 ^ k * 2 ^ l :=
  Rat.zpow_add (by decide) k l

theorem two_zpow_natCast (n : Nat) : (2 : Rat) ^ (n : Int) = ((2 ^ n : Nat) : Rat) := by
  rw [Rat.zpow_natCast]
  push_cast
  rfl

theorem two_zpow_le {k l : Int} (h : k ≤ l) : (2 : Rat) ^ k ≤ 2 ^ l := by
  obtain ⟨n, rfl⟩ := Int.le.dest h
  rw [two_zpow_add, two_zpow_natCast]
  have hn : (1 : Rat) ≤ ((2 ^ n : Nat) : Rat) := by exact_mod_cast Nat.one_le_two_pow
  nlinarith [two_zpow_pos k]

theorem le_of_two_zpow_lt {k l : Int} (h : (2 : Rat) ^ k < 2 ^ l) : k < l := by
  by_contra hlt
  exact absurd (two_zpow_le (by omega : l ≤ k)) (not_le.mpr h)

/-- The magnitude of a rational, by its numerator and denominator. -/
theorem rat_abs_eq_div (q : Rat) : q.abs = (q.num.natAbs : Rat) / (q.den : Rat) := by
  have hq : (q.num : Rat) / (q.den : Rat) = q := q.num_div_den
  rw [Nat.cast_natAbs, Int.cast_abs]
  rcases le_total 0 q with h | h
  · have hnum : (0 : Rat) ≤ q.num := by exact_mod_cast Rat.num_nonneg.mpr h
    rw [Rat.abs_of_nonneg h, abs_of_nonneg hnum, hq]
  · have hnum : (q.num : Rat) ≤ 0 := by exact_mod_cast Rat.num_nonpos.mpr h
    rw [Rat.abs_of_nonpos h, abs_of_nonpos hnum, neg_div, hq]

theorem rat_den_pos (q : Rat) : (0 : Rat) < q.den := by exact_mod_cast q.den_pos

/-- The quotient of the leading digits is within a factor of two of the magnitude. -/
theorem leading_bounds {q : Rat} (hq : q ≠ 0) :
    (2 : Rat) ^ ((Nat.log2 q.num.natAbs : Int) - Nat.log2 q.den - 1) ≤ q.abs ∧
      q.abs < (2 : Rat) ^ ((Nat.log2 q.num.natAbs : Int) - Nat.log2 q.den + 1) := by
  have hnum : q.num.natAbs ≠ 0 := by simpa using hq
  have hden := rat_den_pos q
  rw [rat_abs_eq_div]
  generalize hA : q.num.natAbs = A at *
  constructor
  · have hlow : ((2 ^ Nat.log2 A : Nat) : Rat) ≤ A := by exact_mod_cast Nat.log2_self_le hnum
    have hup : (q.den : Rat) ≤ ((2 ^ (Nat.log2 q.den + 1) : Nat) : Rat) := by
      exact_mod_cast Nat.lt_log2_self.le
    rw [le_div_iff₀ hden]
    calc (2 : Rat) ^ ((Nat.log2 A : Int) - Nat.log2 q.den - 1) * q.den
        ≤ (2 : Rat) ^ ((Nat.log2 A : Int) - Nat.log2 q.den - 1) *
            (2 : Rat) ^ ((Nat.log2 q.den + 1 : Nat) : Int) := by
          rw [two_zpow_natCast]
          exact mul_le_mul_of_nonneg_left hup (two_zpow_pos _).le
      _ = (2 : Rat) ^ (Nat.log2 A : Int) := by
          rw [← two_zpow_add]
          congr 1
          push_cast
          omega
      _ ≤ A := by rwa [two_zpow_natCast]
  · have hup : (A : Rat) < ((2 ^ (Nat.log2 A + 1) : Nat) : Rat) := by
      exact_mod_cast Nat.lt_log2_self
    have hlow : ((2 ^ Nat.log2 q.den : Nat) : Rat) ≤ q.den := by
      exact_mod_cast Nat.log2_self_le q.den_nz
    rw [div_lt_iff₀ hden]
    calc (A : Rat) < (2 : Rat) ^ ((Nat.log2 A + 1 : Nat) : Int) := by rwa [two_zpow_natCast]
      _ = (2 : Rat) ^ ((Nat.log2 A : Int) - Nat.log2 q.den + 1) *
            (2 : Rat) ^ (Nat.log2 q.den : Int) := by
          rw [← two_zpow_add]
          congr 1
          push_cast
          omega
      _ ≤ (2 : Rat) ^ ((Nat.log2 A : Int) - Nat.log2 q.den + 1) * q.den := by
          rw [two_zpow_natCast (Nat.log2 q.den)]
          exact mul_le_mul_of_nonneg_left hlow (two_zpow_pos _).le

theorem leadingExp_le {q : Rat} (hq : q ≠ 0) : (2 : Rat) ^ leadingExp q ≤ q.abs := by
  unfold leadingExp
  dsimp only
  split
  · assumption
  · exact (leading_bounds hq).1

theorem lt_leadingExp {q : Rat} (hq : q ≠ 0) : q.abs < (2 : Rat) ^ (leadingExp q + 1) := by
  unfold leadingExp
  dsimp only
  split
  · exact (leading_bounds hq).2
  · rename_i h
    rw [Int.sub_add_cancel]
    exact not_le.mp h

/-! ## Fields of a value -/

/-- The integer part of a rational below a number is below it. -/
theorem truncate_natAbs_lt {q : Rat} {n : Nat} (h : q.abs < n) : (truncate q).natAbs < n := by
  have hdiv : (truncate q).natAbs = q.num.natAbs / q.den := by
    rw [truncate, Int.natAbs_tdiv]
    rfl
  rw [hdiv, Nat.div_lt_iff_lt_mul q.den_pos]
  rw [rat_abs_eq_div, div_lt_iff₀ (rat_den_pos q)] at h
  exact_mod_cast h

namespace Format

variable {fmt : Format}

theorem fieldUnit_pos (fmt : Format) : 0 < fmt.fieldUnit := Nat.pow_pos (by decide)

theorem signUnit_eq (fmt : Format) : fmt.signUnit = fmt.topField * fmt.fieldUnit + fmt.fieldUnit :=
  Nat.succ_mul ..

/-- A significand has one digit more than the fraction field. -/
theorem two_pow_precision (hp : 1 ≤ fmt.precision) : 2 ^ fmt.precision = 2 * fmt.fieldUnit := by
  obtain ⟨p, hp'⟩ := Nat.exists_eq_add_of_le' hp
  rw [fieldUnit, hp']
  exact Nat.pow_succ'

theorem quantum_le {q : Rat} (hq : q ≠ 0) (hb : q.abs < fmt.bound)
    (he : fmt.minExp ≤ fmt.maxExp) : fmt.quantum q ≤ fmt.maxExp := by
  have hlead : leadingExp q < fmt.maxExp + fmt.precision :=
    le_of_two_zpow_lt ((leadingExp_le hq).trans_lt hb)
  unfold quantum
  omega

/-- The significand of a value, at the exponent of its last digit, has no more digits than the
format. -/
theorem significand_lt {q : Rat} (hq : q ≠ 0) :
    (truncate (q / (2 : Rat) ^ fmt.quantum q)).natAbs < 2 ^ fmt.precision := by
  have hpos := two_zpow_pos (fmt.quantum q)
  apply truncate_natAbs_lt
  have hq' : q.abs < (2 : Rat) ^ fmt.quantum q * ((2 ^ fmt.precision : Nat) : Rat) := by
    rw [← two_zpow_natCast, ← two_zpow_add]
    refine (lt_leadingExp hq).trans_le (two_zpow_le ?_)
    unfold quantum
    omega
  have habs : (q / (2 : Rat) ^ fmt.quantum q).abs = q.abs / (2 : Rat) ^ fmt.quantum q := by
    rcases le_total 0 q with h | h
    · rw [Rat.abs_of_nonneg h, Rat.abs_of_nonneg (div_nonneg h hpos.le)]
    · rw [Rat.abs_of_nonpos h, Rat.abs_of_nonpos (div_nonpos_of_nonpos_of_nonneg h hpos.le),
        neg_div]
  rw [habs, div_lt_iff₀ hpos]
  linarith

/-- The fields of a value of a format are less than those of an infinity. -/
theorem encodeMagnitude_lt {q : Rat} (hq : q ≠ 0) (hb : q.abs < fmt.bound)
    (hp : 1 ≤ fmt.precision) (he : fmt.minExp ≤ fmt.maxExp) :
    fmt.encodeMagnitude q < fmt.topField * fmt.fieldUnit := by
  have hquantum := quantum_le hq hb he
  have hsig : (truncate (q / (2 : Rat) ^ fmt.quantum q)).natAbs < 2 ^ fmt.precision :=
    significand_lt hq
  have hunit := two_pow_precision hp
  have hfield : (fmt.quantum q - fmt.minExp).toNat + 2 ≤ fmt.topField := by
    unfold topField
    omega
  unfold encodeMagnitude
  dsimp only
  calc (fmt.quantum q - fmt.minExp).toNat * fmt.fieldUnit + _
      < (fmt.quantum q - fmt.minExp).toNat * fmt.fieldUnit + 2 * fmt.fieldUnit := by omega
    _ = ((fmt.quantum q - fmt.minExp).toNat + 2) * fmt.fieldUnit := by ring
    _ ≤ fmt.topField * fmt.fieldUnit := Nat.mul_le_mul_right _ hfield

theorem encodePayload_lt (fmt : Format) (payload : Nat) :
    fmt.encodePayload payload < fmt.fieldUnit := by
  have hpos := fmt.fieldUnit_pos
  unfold encodePayload
  dsimp only
  split
  · omega
  · exact Nat.mod_lt _ hpos

/-- What a datum has to be to have a word of the format: below the bound, if it is a value. -/
def Bounded (fmt : Format) : Fp → Prop
  | .finite q _ => q.abs < fmt.bound
  | _ => True

/-- The word of a datum below the bound of its format has one digit more than its sign. -/
theorem encode_lt {x : Fp} (hx : fmt.Bounded x) (hp : 1 ≤ fmt.precision)
    (he : fmt.minExp ≤ fmt.maxExp) : fmt.encode x < 2 * fmt.signUnit := by
  have hsign : (if x.isNegative then fmt.signUnit else 0) ≤ fmt.signUnit := by split <;> omega
  have hunit := fmt.signUnit_eq
  have hpos := fmt.fieldUnit_pos
  unfold encode
  cases x with
  | nan s payload =>
      have := encodePayload_lt fmt payload
      dsimp only
      omega
  | infinity s | zero s =>
      dsimp only
      omega
  | finite q hq =>
      have := encodeMagnitude_lt hq hx hp he
      dsimp only
      omega

theorem round_bounded (fmt : Format) (s : Bool) (q : Rat) : fmt.Bounded (fmt.round s q) := by
  unfold round
  split
  · trivial
  · dsimp only
    split
    · trivial
    · rename_i hb
      unfold Fp.ofRat
      split
      · trivial
      · exact not_le.mp hb

theorem convert_bounded (fmt : Format) (x : Fp) : fmt.Bounded (fmt.convert x) := by
  cases x with
  | finite q hq => exact round_bounded fmt false q
  | _ => trivial

end Format

theorem Precision.two_mul_signUnit (p : Precision) : 2 * p.format.signUnit = Word.count p.width := by
  cases p <;> decide

/-- A datum that was brought to a precision is a word of the width of the precision. -/
theorem Precision.encode_convert_lt (p : Precision) (x : Fp) :
    p.format.encode (p.format.convert x) < Word.count p.width := by
  rw [← p.two_mul_signUnit]
  exact Format.encode_lt (Format.convert_bounded _ x) (by cases p <;> decide) (by cases p <;> decide)

end Ssa

/-
# `Ssa.Proofs.Number.Doubles` — what comes of doubles are doubles

Sums, differences, products and quotients are rounded to double precision, so they are values of it
whatever they are taken of.  A remainder is not rounded at all; it is a double because the remainder
of two doubles has no more digits than they have, at the lesser of their exponents.

**Proved here.**

    a value of single precision is one of double precision                 (`Format.holds_double`)
    an integer part is the floor, or below zero the ceiling                (`truncate_eq`)
    an integer part is off by less than one, and not beyond zero           (`sub_truncate_lt`, `sub_truncate_le`)
    the remainder of two doubles is a double                               (`Fp.rem_holds`)
-/
import Ssa.Number.Arith
import Ssa.Program.Constant
import Ssa.Proofs.Number.Rounding

namespace Ssa

namespace Format

variable {x : Fp}

/-- A value of a format is one of every format with more digits and exponents. -/
theorem IsValue.widen {fmt fmt' : Format} {m e : Int} (h : fmt.IsValue m e)
    (hp : fmt.precision ≤ fmt'.precision) (hlow : fmt'.minExp ≤ fmt.minExp)
    (hup : fmt.maxExp ≤ fmt'.maxExp) : fmt'.IsValue m e where
  digits := h.digits.trans_le (Nat.pow_le_pow_right (by decide) hp)
  least := hlow.trans h.least
  most := h.most.trans hup

theorem holds_finite_iff {fmt : Format} {q : Rat} {hq : q ≠ 0} :
    fmt.Holds (.finite q hq) ↔ ∃ m e : Int, fmt.IsValue m e ∧ q = m * 2 ^ e :=
  ⟨fun ⟨m, e, hd, hl, hm, hv⟩ => ⟨m, e, ⟨hd, hl, hm⟩, hv⟩,
    fun ⟨m, e, h, hv⟩ => ⟨m, e, h.digits, h.least, h.most, hv⟩⟩

/-- The rational of a number that a format holds is a significand times a power of two. -/
theorem Holds.exists_value {fmt : Format} (he : fmt.minExp ≤ fmt.maxExp) (h : fmt.Holds x) :
    ∃ m e : Int, fmt.IsValue m e ∧ x.toRat = m * 2 ^ e := by
  cases x with
  | finite q hq => exact holds_finite_iff.mp h
  | _ => exact ⟨0, fmt.minExp, ⟨by simp, le_rfl, he⟩, by simp [Fp.toRat]⟩

theorem holds_double (h : single.Holds x) : double.Holds x := by
  cases x with
  | finite q hq =>
      obtain ⟨m, e, hv, rfl⟩ := holds_finite_iff.mp h
      exact holds_finite_iff.mpr ⟨m, e, hv.widen (by decide) (by decide) (by decide), rfl⟩
  | _ => trivial

theorem holds_neg {fmt : Format} (h : fmt.Holds x) : fmt.Holds x.neg := by
  cases x with
  | finite q hq =>
      obtain ⟨m, e, hv, rfl⟩ := holds_finite_iff.mp h
      refine holds_finite_iff.mpr ⟨-m, e, ⟨?_, hv.least, hv.most⟩, by push_cast; ring⟩
      rw [Int.natAbs_neg]
      exact hv.digits
  | _ => trivial

end Format

/-! ## Integer parts -/

theorem truncate_intCast (n : Int) : truncate (n : Rat) = n := by
  simp [truncate]

/-- An integer part is toward zero. -/
theorem truncate_eq (q : Rat) : truncate q = if 0 ≤ q then ⌊q⌋ else ⌈q⌉ := by
  unfold truncate
  split
  · rename_i h
    rw [Int.tdiv_eq_ediv_of_nonneg (Rat.num_nonneg.mpr h), Rat.floor_def']
  · rename_i h
    have hneg : 0 ≤ (-q).num := Rat.num_nonneg.mpr (by linarith)
    rw [← neg_neg ⌈q⌉, ← Int.floor_neg, Rat.floor_def', ← Int.tdiv_eq_ediv_of_nonneg hneg,
      Rat.num_neg_eq_neg_num, Rat.den_neg_eq_den, Int.neg_tdiv, neg_neg]

/-- What an integer part leaves, as a quotient of integers. -/
theorem sub_truncate (q : Rat) : q - truncate q = (q.num.tmod q.den : Int) / (q.den : Rat) := by
  have hnum : (q.num : Rat) = q.den * truncate q + (q.num.tmod q.den : Int) := by
    exact_mod_cast (Int.mul_tdiv_add_tmod q.num q.den).symm
  rw [eq_div_iff (rat_den_pos q).ne', sub_mul, Rat.mul_den_eq_num, hnum]
  ring

theorem sub_truncate_lt (q : Rat) : |q - truncate q| < 1 := by
  rw [sub_truncate, abs_div, abs_of_pos (rat_den_pos q), div_lt_one (rat_den_pos q), abs_intCast]
  have h : (q.num.tmod q.den).natAbs < q.den := by
    rw [Int.natAbs_tmod]
    exact Nat.mod_lt _ q.den_pos
  exact_mod_cast h

theorem sub_truncate_le (q : Rat) : |q - truncate q| ≤ |q| := by
  rw [sub_truncate, abs_div, abs_of_pos (rat_den_pos q), div_le_iff₀ (rat_den_pos q), ← rat_abs_eq q,
    rat_abs_eq_div, div_mul_cancel₀ _ (rat_den_pos q).ne', abs_intCast]
  have h : (q.num.tmod q.den).natAbs ≤ q.num.natAbs := by
    rw [Int.natAbs_tmod]
    exact Nat.mod_le _ _
  exact_mod_cast h

/-! ## Operations -/

namespace Fp

open Format (double)

variable {x y : Fp}

theorem ofRat_holds {fmt : Format} {q : Rat} (s : Bool) {m e : Int} (h : fmt.IsValue m e)
    (hq : q = m * 2 ^ e) : fmt.Holds (ofRat s q) := hq ▸ Format.holds_ofRat h s

/-- What is no number is passed on, so the rest of an operation is what counts. -/
theorem unlessNan_holds {fmt : Format} {result : Fp} (h : fmt.Holds result) :
    fmt.Holds (unlessNan x y result) := by
  unfold unlessNan
  split
  · cases x <;> trivial
  · split
    · cases y <;> trivial
    · exact h

theorem addNumbers_holds (x y : Fp) : double.Holds (addNumbers x y) := by
  unfold addNumbers
  split
  · split <;> trivial
  · trivial
  · trivial
  · exact Format.round_holds Format.double_proper _ _

theorem mulNumbers_holds (x y : Fp) : double.Holds (mulNumbers x y) := by
  unfold mulNumbers
  dsimp only
  split
  · split <;> trivial
  · exact Format.round_holds Format.double_proper _ _

theorem divNumbers_holds (x y : Fp) : double.Holds (divNumbers x y) := by
  unfold divNumbers
  dsimp only
  split
  · split <;> trivial
  · split
    · trivial
    · split
      · split <;> trivial
      · exact Format.round_holds Format.double_proper _ _

/-- What is left of a double after another was taken away a whole number of times: a multiple of the
lesser of their two last digits, below the one or not above the other. -/
theorem remainder_value {a b : Rat} {m n e k : Int} (ha : a = m * 2 ^ e) (hb : b = n * 2 ^ k)
    (hm : double.IsValue m e) (hn : double.IsValue n k) :
    ∃ r l : Int, double.IsValue r l ∧ a - truncate (a / b) * b = r * 2 ^ l := by
  by_cases hb0 : b = 0
  · exact ⟨m, e, hm, by rw [hb0, mul_zero, sub_zero, ha]⟩
  · have hleft : a - truncate (a / b) * b = (a / b - truncate (a / b)) * b := by
      rw [sub_mul, div_mul_cancel₀ _ hb0]
    have hbelow : |a - truncate (a / b) * b| < |b| := by
      rw [hleft, abs_mul]
      exact mul_lt_of_lt_one_left (abs_pos.mpr hb0) (sub_truncate_lt _)
    have hwithin : |a - truncate (a / b) * b| ≤ |a| := by
      rw [hleft, abs_mul]
      calc |a / b - truncate (a / b)| * |b| ≤ |a / b| * |b| :=
            mul_le_mul_of_nonneg_right (sub_truncate_le _) (abs_nonneg b)
        _ = |a| := by rw [← abs_mul, div_mul_cancel₀ _ hb0]
    generalize truncate (a / b) = T at *
    rcases le_total k e with hle | hle
    · obtain ⟨d, rfl⟩ := Int.le.dest hle
      have hvalue : a - T * b = (m * 2 ^ d - T * n : Int) * 2 ^ k := by
        rw [ha, hb, two_zpow_add, Rat.zpow_natCast]
        push_cast
        ring
      rw [hvalue, hb, abs_mul_two_zpow, abs_mul_two_zpow] at hbelow
      have hlt : (m * 2 ^ d - T * n).natAbs < n.natAbs := by
        exact_mod_cast lt_of_mul_lt_mul_right hbelow (two_zpow_pos k).le
      exact ⟨_, k, ⟨hlt.trans hn.digits, hn.least, hn.most⟩, hvalue⟩
    · obtain ⟨d, rfl⟩ := Int.le.dest hle
      have hvalue : a - T * b = (m - T * n * 2 ^ d : Int) * 2 ^ e := by
        rw [ha, hb, two_zpow_add, Rat.zpow_natCast]
        push_cast
        ring
      rw [hvalue, ha, abs_mul_two_zpow, abs_mul_two_zpow] at hwithin
      have hle : (m - T * n * 2 ^ d).natAbs ≤ m.natAbs := by
        exact_mod_cast le_of_mul_le_mul_right hwithin (two_zpow_pos e)
      exact ⟨_, e, ⟨hle.trans_lt hm.digits, hm.least, hm.most⟩, hvalue⟩

/-- The remainder of two doubles is a double. -/
theorem rem_holds (hx : double.Holds x) (hy : double.Holds y) : double.Holds (x.rem y) := by
  refine unlessNan_holds ?_
  unfold remNumbers
  split
  · trivial
  · split
    · exact hx
    · obtain ⟨m, e, hm, ha⟩ := hx.exists_value (by decide)
      obtain ⟨n, k, hn, hb⟩ := hy.exists_value (by decide)
      obtain ⟨r, l, hr, hvalue⟩ := remainder_value ha hb hm hn
      exact ofRat_holds _ hr hvalue

/-! ### Numbers that are given -/

theorem doubleOfInt_holds {n : Int} (h : Constant.doubleOfInt n = .ok x) :
    double.Holds x := by
  unfold Constant.doubleOfInt at h
  split at h
  · cases h
  · cases h
    exact Format.round_holds Format.double_proper _ _

theorem readFp_holds {s : String} (h : Decimal.readFp? s = some x) : double.Holds x := by
  obtain ⟨cs, -, h⟩ := Option.bind_eq_some_iff.mp h
  dsimp only at h
  split at h
  · cases h
    trivial
  · split at h
    · cases h
      trivial
    · obtain ⟨q, -, h⟩ := Option.bind_eq_some_iff.mp h
      cases h
      exact Format.round_holds Format.double_proper _ _

end Fp

end Ssa

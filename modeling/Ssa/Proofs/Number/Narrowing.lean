/-
# `Ssa.Proofs.Number.Narrowing` — integers that are rounded twice

An integer that is brought to single precision by way of double precision is rounded twice.  The
second rounding sees a tie where the first one has brought the integer to the middle between two
values of single precision; then it goes to the even side, on whichever side the integer was.
`IsFalseTie` says in digits for which integers that is the wrong side.  For all others the two
roundings come to the one.

**Proved here.**

    the nearest integer to a quotient of integers                          (`roundEven_div`)
    two roundings, the second by 29 digits more, come to one or not        (`roundEven_twice`)
    rounded twice, an integer is at its nearest value unless it is a false tie
                                                                           (`isNearest_narrowed_iff`)
-/
import Ssa.Proofs.Number.Rounding

namespace Ssa

/-- Whether rounding an integer to double precision makes a tie of it that it is not, and one that
goes to the wrong side.  Of the 53 digits that double precision keeps, single precision keeps the
first 24: the first of these cases is a whole number of halves of the last digit, from an even one
up, with a rest that double precision drops; the second is the like from an odd one down, with a rest
that double precision makes up. -/
def IsFalseTie (n : Nat) : Prop :=
  53 ≤ Nat.log2 n ∧
    let half := 2 ^ (Nat.log2 n - 53)
    let kept := n / (2 * half)
    let rest := n % (2 * half)
    (kept % 2 ^ 30 = 2 ^ 28 ∧ 0 < rest ∧ rest ≤ half) ∨
      (kept % 2 ^ 30 = 2 ^ 29 + 2 ^ 28 - 1 ∧ half ≤ rest)

instance (n : Nat) : Decidable (IsFalseTie n) := by
  unfold IsFalseTie
  infer_instance

/-! ## Quotients of integers -/

/-- The nearest integer to a quotient: the quotient rounded down, or one more if more than half of
the divisor is left, or just half and the quotient rounded down is odd. -/
theorem roundEven_div {h r : Nat} (hr : r < 2 * h) (k : Nat) :
    roundEven (((k * (2 * h) + r : Nat) : Rat) / ((2 * h : Nat) : Rat)) =
      if r < h ∨ r = h ∧ k % 2 = 0 then (k : Int) else k + 1 := by
  have hpos : (0 : Rat) < ((2 * h : Nat) : Rat) := by exact_mod_cast (by omega : 0 < 2 * h)
  have hr' : (r : Rat) < 2 * h := by exact_mod_cast hr
  have hr0 : (0 : Rat) ≤ r := by positivity
  have hquot : ((k * (2 * h) + r : Nat) : Rat) / ((2 * h : Nat) : Rat) = k + r / (2 * h) := by
    have hh : (h : Rat) ≠ 0 := by exact_mod_cast (by omega : h ≠ 0)
    push_cast
    field_simp
  push_cast at hpos
  rw [hquot, roundEven_eq_iff]
  split
  · rename_i hlow
    have hdist : |(k : Rat) + r / (2 * h) - ((k : Int) : Rat)| = r / (2 * h) := by
      rw [Int.cast_natCast, add_sub_cancel_left, abs_of_nonneg (by positivity)]
    rw [hdist, div_lt_iff₀ hpos, div_eq_iff hpos.ne']
    rcases hlow with hlt | ⟨rfl, heven⟩
    · have : (r : Rat) < h := by exact_mod_cast hlt
      left
      linarith
    · exact .inr ⟨by ring, by omega⟩
  · rename_i hup
    have hdist : |(k : Rat) + r / (2 * h) - ((k + 1 : Int) : Rat)| = 1 - r / (2 * h) := by
      have hle : (r : Rat) / (2 * h) ≤ 1 := by rw [div_le_one hpos]; exact hr'.le
      push_cast
      rw [abs_of_nonpos (by linarith)]
      ring
    rw [hdist, sub_lt_comm, lt_div_iff₀ hpos, sub_eq_iff_eq_add, ← sub_eq_iff_eq_add',
      eq_comm, div_eq_iff hpos.ne']
    rcases lt_or_ge h r with hlt | hge
    · have : (h : Rat) < r := by exact_mod_cast hlt
      left
      linarith
    · obtain rfl : r = h := by omega
      exact .inr ⟨by ring, by omega⟩

section

variable {half b t : Nat}

/-- Whether digits with a rest behind them are below the half of 29 digits is seen from the digits. -/
theorem digits_lt_iff (ht : t < 2 * half) : b * (2 * half) + t < 2 ^ 29 * half ↔ b < 2 ^ 28 := by
  constructor
  · intro h
    by_contra hle
    have : 2 ^ 28 * (2 * half) ≤ b * (2 * half) := Nat.mul_le_mul_right _ (not_lt.mp hle)
    omega
  · intro h
    have : (b + 1) * (2 * half) ≤ 2 ^ 28 * (2 * half) := Nat.mul_le_mul_right _ h
    rw [Nat.add_mul] at this
    omega

theorem digits_eq_iff (ht : t < 2 * half) :
    b * (2 * half) + t = 2 ^ 29 * half ↔ b = 2 ^ 28 ∧ t = 0 := by
  constructor
  · intro h
    have hle : 2 ^ 28 ≤ b := not_lt.mp fun hlt => absurd h ((digits_lt_iff ht).mpr hlt).ne
    have : 2 ^ 28 * (2 * half) ≤ b * (2 * half) := Nat.mul_le_mul_right _ hle
    exact ⟨Nat.eq_of_mul_eq_mul_right (by omega : 0 < 2 * half) (by omega), by omega⟩
  · rintro ⟨rfl, rfl⟩
    ring

/-- The nearest integer to a natural number without its last 29 digits and what is behind them. -/
theorem roundEven_direct (ht : t < 2 * half) (c : Nat) :
    roundEven (((c * (2 * half) + t : Nat) : Rat) / ((2 * half * 2 ^ 29 : Nat) : Rat)) =
      if c % 2 ^ 29 < 2 ^ 28 ∨ (c % 2 ^ 29 = 2 ^ 28 ∧ t = 0) ∧ c / 2 ^ 29 % 2 = 0
      then ((c / 2 ^ 29 : Nat) : Int) else (c / 2 ^ 29 : Nat) + 1 := by
  have hsplit : c * (2 * half) + t =
      c / 2 ^ 29 * (2 * (2 ^ 29 * half)) + (c % 2 ^ 29 * (2 * half) + t) := by
    conv_lhs => rw [← Nat.div_add_mod' c (2 ^ 29)]
    ring
  have hlt : c % 2 ^ 29 * (2 * half) + t < 2 * (2 ^ 29 * half) := by
    have : (c % 2 ^ 29 + 1) * (2 * half) ≤ 2 ^ 29 * (2 * half) :=
      Nat.mul_le_mul_right _ (Nat.mod_lt c (by decide))
    rw [Nat.add_mul] at this
    omega
  rw [hsplit, show 2 * half * 2 ^ 29 = 2 * (2 ^ 29 * half) by ring, roundEven_div hlt]
  simp only [digits_lt_iff ht, digits_eq_iff ht]

/-- The nearest integer to a natural number without its last 29 digits. -/
theorem roundEven_shorter (d : Nat) : roundEven ((d : Rat) / 2 ^ 29) =
    if d % 2 ^ 29 < 2 ^ 28 ∨ d % 2 ^ 29 = 2 ^ 28 ∧ d / 2 ^ 29 % 2 = 0 then ((d / 2 ^ 29 : Nat) : Int)
    else (d / 2 ^ 29 : Nat) + 1 := by
  have hdigits : d % 2 ^ 29 < 2 * 2 ^ 28 := Nat.mod_lt _ (by decide)
  have h := roundEven_div hdigits (d / 2 ^ 29)
  rw [show 2 * 2 ^ 28 = 2 ^ 29 from rfl, Nat.div_add_mod'] at h
  exact_mod_cast h

/-- Rounded to 29 digits less in a second step, a natural number comes to what one step gives, but
where the first step makes a tie of it. -/
theorem roundEven_twice_natCast (hpos : 0 < half) (n : Nat) :
    roundEven ((roundEven ((n : Rat) / ((2 * half : Nat) : Rat)) : Rat) / 2 ^ 29) =
        roundEven ((n : Rat) / ((2 * half * 2 ^ 29 : Nat) : Rat)) ↔
      ¬((n / (2 * half) % 2 ^ 30 = 2 ^ 28 ∧ 0 < n % (2 * half) ∧ n % (2 * half) ≤ half) ∨
        (n / (2 * half) % 2 ^ 30 = 2 ^ 29 + 2 ^ 28 - 1 ∧ half ≤ n % (2 * half))) := by
  have hn : n = n / (2 * half) * (2 * half) + n % (2 * half) := (Nat.div_add_mod' n _).symm
  have hrest : n % (2 * half) < 2 * half := Nat.mod_lt _ (by omega)
  generalize n / (2 * half) = c at *
  generalize n % (2 * half) = t at *
  subst hn
  rw [roundEven_div hrest, roundEven_direct hrest]
  split
  · rw [Int.cast_natCast, roundEven_shorter]
    split <;> split <;> omega
  · rw [show ((c : Int) + 1 : Int) = ((c + 1 : Nat) : Int) by push_cast; rfl, Int.cast_natCast,
      roundEven_shorter]
    split <;> split <;> omega

theorem roundEven_twice (hpos : 0 < half) (n : Int) :
    roundEven ((roundEven ((n : Rat) / ((2 * half : Nat) : Rat)) : Rat) / 2 ^ 29) =
        roundEven ((n : Rat) / ((2 * half * 2 ^ 29 : Nat) : Rat)) ↔
      ¬((n.natAbs / (2 * half) % 2 ^ 30 = 2 ^ 28 ∧ 0 < n.natAbs % (2 * half) ∧
          n.natAbs % (2 * half) ≤ half) ∨
        (n.natAbs / (2 * half) % 2 ^ 30 = 2 ^ 29 + 2 ^ 28 - 1 ∧ half ≤ n.natAbs % (2 * half))) := by
  rw [← roundEven_twice_natCast hpos n.natAbs]
  obtain ⟨k, rfl | rfl⟩ := n.eq_nat_or_neg
  · rw [Int.natAbs_natCast, Int.cast_natCast]
  · rw [Int.natAbs_neg, Int.natAbs_natCast]
    simp only [Int.cast_neg, Int.cast_natCast, neg_div, roundEven_neg, neg_inj]

end

/-! ## Exponents of integers -/

/-- The leading digit of an integer that is followed by zeros. -/
theorem leadingExp_scaled {d : Int} {k l : Nat} (hlow : 2 ^ k ≤ d.natAbs) (hup : d.natAbs < 2 ^ (k + 1)) :
    leadingExp (d * 2 ^ l : Rat) = (k + l : Nat) := by
  have hpos := two_zpow_pos (l : Nat)
  have habs : |(d * 2 ^ l : Rat)| = (d.natAbs : Rat) * 2 ^ (l : Int) := by
    rw [← Rat.zpow_natCast, abs_mul_two_zpow]
  apply leadingExp_eq <;> rw [habs]
  · rw [Nat.cast_add, two_zpow_add]
    refine mul_le_mul_of_nonneg_right ?_ hpos.le
    rw [two_zpow_natCast]
    exact_mod_cast hlow
  · rw [show ((k + l : Nat) + 1 : Int) = (k + 1 : Nat) + (l : Nat) by push_cast; ring, two_zpow_add]
    refine mul_lt_mul_of_pos_right ?_ hpos
    rw [two_zpow_natCast]
    exact_mod_cast hup

theorem leadingExp_intCast {n : Int} (hn : n ≠ 0) : leadingExp (n : Rat) = Nat.log2 n.natAbs := by
  have h := leadingExp_scaled (l := 0) (Nat.log2_self_le (Int.natAbs_ne_zero.mpr hn)) Nat.lt_log2_self
  simpa using h

/-! ## By way of double precision -/

namespace Format

variable {fmt : Format} {q : Rat} {n : Int}

theorem convert_ofRat (fmt : Format) (q : Rat) :
    fmt.convert (Fp.ofRat (decide (q < 0)) q) = fmt.round false q := by
  by_cases hq : q = 0
  · simp [hq, Fp.ofRat, convert, round]
  · simp [hq, Fp.ofRat, convert]

/-- An integer of no more digits than a significand has. -/
theorem round_double_short (h : Nat.log2 n.natAbs < 53) :
    double.round false n = Fp.ofRat (decide ((n : Rat) < 0)) n := by
  have hdigits : n.natAbs < 2 ^ 53 :=
    Nat.lt_log2_self.trans_le (Nat.pow_le_pow_right (by decide) h)
  have hvalue : double.IsValue n 0 := ⟨hdigits, by decide, by decide⟩
  have hround := round_value double_proper hvalue
  rwa [show (n * 2 ^ (0 : Int) : Rat) = n by simp] at hround

/-- The exponent of the last digit of an integer of at least so many digits as double precision
has. -/
theorem quantum_intCast {l : Nat} (hn : n ≠ 0) (hl : Nat.log2 n.natAbs = l + 53) :
    double.quantum n = (l + 1 : Nat) ∧ single.quantum n = (l + 30 : Nat) := by
  unfold quantum
  rw [leadingExp_intCast hn, hl]
  constructor
  · show max (((l + 53 : Nat) : Int) - ((53 : Nat) - 1)) (-1074) = _
    omega
  · show max (((l + 53 : Nat) : Int) - ((24 : Nat) - 1)) (-149) = _
    omega

/-- At whichever exponent, a significand of double precision is rounded to single precision as if it
were one of the first digits that are left out.  A power of two has an exponent more, at which
nothing is lost. -/
theorem significand_narrowed {l : Nat} {d : Int} (hlow : 2 ^ 52 ≤ d.natAbs) (hup : d.natAbs ≤ 2 ^ 53) :
    (single.significand (d * 2 ^ (l + 1)) * 2 ^ single.quantum (d * 2 ^ (l + 1)) : Rat) =
      roundEven ((d : Rat) / 2 ^ 29) * 2 ^ (l + 30) := by
  rcases hup.lt_or_eq with hlt | heq
  · have hquantum : single.quantum (d * 2 ^ (l + 1) : Rat) = ((l + 30 : Nat) : Int) := by
      rw [quantum, leadingExp_scaled hlow hlt]
      show max (((52 + (l + 1) : Nat) : Int) - ((24 : Nat) - 1)) (-149) = _
      omega
    rw [significand, hquantum, Rat.zpow_natCast]
    congr 3
    field_simp
    ring
  · have hquantum : single.quantum (d * 2 ^ (l + 1) : Rat) = ((l + 31 : Nat) : Int) := by
      rw [quantum, leadingExp_scaled heq.ge (heq.trans_lt (by decide : 2 ^ 53 < 2 ^ 54))]
      show max (((53 + (l + 1) : Nat) : Int) - ((24 : Nat) - 1)) (-149) = _
      omega
    obtain ⟨c, rfl⟩ : ∃ c, d = 2 ^ 30 * c := ⟨d / 2 ^ 30, by omega⟩
    have hshort : ((2 ^ 30 * c : Int) * 2 ^ (l + 1) / 2 ^ (l + 31) : Rat) = c := by
      push_cast
      field_simp
      ring
    have hlong : (((2 ^ 30 * c : Int) : Rat) / 2 ^ 29) = ((2 * c : Int) : Rat) := by
      push_cast
      ring
    rw [significand, hquantum, Rat.zpow_natCast, hshort, hlong, roundEven_intCast, roundEven_intCast]
    push_cast
    ring

/-- Two rationals of one sign are rounded to one datum if and only if they are rounded to one value,
where one of the two is in range. -/
theorem round_eq_round_iff {q' : Rat} (hq : q ≠ 0) (hq' : q' ≠ 0) (hs : q < 0 ↔ q' < 0)
    (hb : |(fmt.significand q' * 2 ^ fmt.quantum q' : Rat)| < fmt.bound) :
    fmt.round false q = fmt.round false q' ↔
      (fmt.significand q * 2 ^ fmt.quantum q : Rat) =
        fmt.significand q' * 2 ^ fmt.quantum q' := by
  rw [round_eq_ofRat hq' false hb, ← decide_eq_decide.mpr hs]
  by_cases hb' : |(fmt.significand q * 2 ^ fmt.quantum q : Rat)| < fmt.bound
  · rw [round_eq_ofRat hq false hb']
    constructor
    · intro h
      have h := congrArg Fp.toRat h
      rwa [Fp.toRat_ofRat, Fp.toRat_ofRat] at h
    · intro h
      rw [h]
  · have hover : fmt.round false q = .infinity (decide (q < 0)) := round_eq_infinity hq false hb'
    rw [hover]
    constructor
    · intro h
      have h := congrArg Fp.isInfinite h
      rw [Fp.isInfinite_ofRat] at h
      cases h
    · intro h
      exact absurd hb (h ▸ hb')

/-- An integer is rounded to one of its sign. -/
theorem roundEven_neg_iff {l : Nat} (hne : roundEven ((n : Rat) / 2 ^ l) ≠ 0) :
    (roundEven ((n : Rat) / 2 ^ l) * 2 ^ l : Rat) < 0 ↔ (n : Rat) < 0 := by
  have hpos : (0 : Rat) < 2 ^ l := by positivity
  constructor
  · intro h
    by_contra hge
    have hquot : (0 : Rat) ≤ n / 2 ^ l := div_nonneg (not_lt.mp hge) hpos.le
    have hle : 0 ≤ roundEven ((n : Rat) / 2 ^ l) := le_roundEven (by exact_mod_cast hquot)
    have : (0 : Rat) ≤ roundEven ((n : Rat) / 2 ^ l) := by exact_mod_cast hle
    exact absurd h (not_lt.mpr (mul_nonneg this hpos.le))
  · intro h
    have hquot : (n / 2 ^ l : Rat) ≤ 0 := div_nonpos_of_nonpos_of_nonneg h.le hpos.le
    have hle : roundEven ((n : Rat) / 2 ^ l) ≤ 0 := roundEven_le (by exact_mod_cast hquot)
    have : (roundEven ((n : Rat) / 2 ^ l) : Rat) < 0 := by exact_mod_cast lt_of_le_of_ne hle hne
    exact mul_neg_of_neg_of_pos this hpos

theorem single_overflow_le : single.overflow ≤ double.overflow := by
  unfold overflow
  exact mul_le_mul (by norm_num [single, double]) (two_zpow_le (by decide)) (two_zpow_pos _).le
    (by norm_num [double])

/-- An integer of more digits than double precision has is rounded to a significand of all its digits,
or to a power of two. -/
theorem round_double_long {l : Nat} (hn : n ≠ 0) (hl : Nat.log2 n.natAbs = l + 53)
    (h : |(n : Rat)| < double.overflow) :
    2 ^ 52 ≤ (double.significand n).natAbs ∧ (double.significand n).natAbs ≤ 2 ^ 53 ∧
      double.significand n = roundEven ((n : Rat) / 2 ^ (l + 1)) ∧
      double.round false n =
        Fp.ofRat (decide ((n : Rat) < 0)) (double.significand n * 2 ^ (l + 1)) := by
  have hn' : (n : Rat) ≠ 0 := by exact_mod_cast hn
  obtain ⟨hwide, -⟩ := quantum_intCast hn hl
  have hlow : 2 ^ (double.precision - 1) ≤ (double.significand n).natAbs :=
    le_significand hn' (by decide) (by rw [hwide]; show (-1074 : Int) < _; omega)
  have hup : (double.significand n).natAbs ≤ 2 ^ double.precision := significand_le hn'
  refine ⟨hlow, hup, ?_, ?_⟩
  · rw [significand, hwide, Rat.zpow_natCast]
  · rw [round_eq_ofRat hn' false (significand_lt_bound double_proper hn' h), hwide, Rat.zpow_natCast]

/-- The first step of two makes a tie that goes the wrong way, said of the digits that are left out. -/
theorem isFalseTie_iff {l m : Nat} (hl : Nat.log2 m = l + 53) :
    IsFalseTie m ↔
      (m / (2 * 2 ^ l) % 2 ^ 30 = 2 ^ 28 ∧ 0 < m % (2 * 2 ^ l) ∧ m % (2 * 2 ^ l) ≤ 2 ^ l) ∨
        (m / (2 * 2 ^ l) % 2 ^ 30 = 2 ^ 29 + 2 ^ 28 - 1 ∧ 2 ^ l ≤ m % (2 * 2 ^ l)) := by
  unfold IsFalseTie
  rw [hl, Nat.add_sub_cancel]
  exact and_iff_right (by omega)

/-- **Rounded twice.**  An integer in the range of single precision, brought to double precision and
then to single precision, is at its nearest value of single precision if and only if double
precision does not make a tie of it that goes the wrong way. -/
theorem isNearest_narrowed_iff (h : |(n : Rat)| < single.overflow) :
    single.IsNearest n (single.convert (double.round false n)) ↔ ¬IsFalseTie n.natAbs := by
  rw [isNearest_iff single_proper h]
  rcases lt_or_ge (Nat.log2 n.natAbs) 53 with hlog | hlog
  · rw [round_double_short hlog, convert_ofRat]
    exact iff_of_true rfl fun hfalse => absurd hfalse.1 (by omega)
  · obtain ⟨l, hl⟩ := Nat.exists_eq_add_of_le' hlog
    have hn : n ≠ 0 := by
      rintro rfl
      simp at hl
    have hn' : (n : Rat) ≠ 0 := by exact_mod_cast hn
    obtain ⟨hlow, hup, hd, hdouble⟩ := round_double_long hn hl (h.trans_le single_overflow_le)
    have hne : double.significand n ≠ 0 := by
      intro h0
      rw [h0] at hlow
      exact absurd hlow (by decide)
    have hsign : (double.significand n * 2 ^ (l + 1) : Rat) < 0 ↔ (n : Rat) < 0 := by
      rw [hd] at hne ⊢
      exact roundEven_neg_iff hne
    have hne' : (double.significand n * 2 ^ (l + 1) : Rat) ≠ 0 :=
      mul_ne_zero (by exact_mod_cast hne) (by positivity)
    obtain ⟨-, hnarrow⟩ := quantum_intCast hn hl
    have hsingle : single.significand n = roundEven ((n : Rat) / 2 ^ (l + 30)) := by
      rw [significand, hnarrow, Rat.zpow_natCast]
    -- both are significands at the exponent of the second step
    rw [hdouble, ← decide_eq_decide.mpr hsign, convert_ofRat,
      round_eq_round_iff hne' hn' hsign (significand_lt_bound single_proper hn' h),
      significand_narrowed hlow hup, hnarrow, Rat.zpow_natCast, hd, hsingle,
      mul_left_inj' (by positivity), Int.cast_inj, isFalseTie_iff hl,
      ← roundEven_twice (Nat.two_pow_pos l) n]
    have hunit : (2 : Rat) ^ (l + 1) = ((2 * 2 ^ l : Nat) : Rat) := by push_cast; ring
    have hunit' : (2 : Rat) ^ (l + 30) = ((2 * 2 ^ l * 2 ^ 29 : Nat) : Rat) := by push_cast; ring
    rw [hunit, hunit']

end Format

end Ssa

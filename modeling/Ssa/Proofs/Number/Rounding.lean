/-
# `Ssa.Proofs.Number.Rounding` — rounding is to the nearest value

A finite value of a format is a significand times a power of two.  Among the ways to write it the
format takes the one with the longest significand (`Format.IsWritten`), and the parity of that
significand decides between two values that are equally near.  `Format.IsNearest` says with no more
than integers and their quotients which value of a format is the nearest to a rational; rounding
gives that value and no other, up to where it overflows.

**Proved here.**

    the nearest integer, by distance and parity                            (`roundEven_eq_iff`)
    below the overflow of a format, nearest to `q`  ⟺  `round q`           (`Format.isNearest_iff`)
    rounding gives a value of the format                                   (`Format.round_holds`)
-/
import Mathlib.Tactic.FieldSimp
import Ssa.Proofs.Number.Encoding

namespace Ssa

/-! ## The nearest integer -/

section

variable {q : Rat} {m n : Int}

/-- The nearest integer is the one at a distance of less than a half, or the even one of the two at
a half. -/
theorem roundEven_spec (q : Rat) :
    |q - roundEven q| < 1 / 2 ∨ |q - roundEven q| = 1 / 2 ∧ roundEven q % 2 = 0 := by
  have hlow : (q.floor : Rat) ≤ q := Rat.floor_le q
  have hup : q < q.floor + 1 := by exact_mod_cast Rat.lt_floor_add_one q
  unfold roundEven
  dsimp only
  generalize q.floor = k at *
  split
  · left
    rw [abs_of_nonneg (by linarith)]
    assumption
  · split
    · left
      push_cast
      rw [abs_of_nonpos (by linarith)]
      linarith
    · -- half way between the two
      have hmid : q - k = 1 / 2 := by linarith
      split
      · right
        exact ⟨by rw [hmid]; norm_num, by assumption⟩
      · right
        refine ⟨?_, by omega⟩
        push_cast
        rw [show q - (k + 1) = -(1 / 2) by linarith]
        norm_num

theorem roundEven_error (q : Rat) : |q - roundEven q| ≤ 1 / 2 :=
  (roundEven_spec q).elim le_of_lt fun h => h.1.le

/-- Two integers no farther than a half from one rational are neighbours, if they are not one. -/
theorem neighbours_of_near (hm : |q - m| ≤ 1 / 2) (hn : |q - n| ≤ 1 / 2) (h : m ≠ n) :
    |q - m| = 1 / 2 ∧ |q - n| = 1 / 2 ∧ (m = n + 1 ∨ n = m + 1) := by
  rw [abs_le] at hm hn
  have hup : (m : Rat) ≤ n + 1 := by linarith
  have hlow : (n : Rat) ≤ m + 1 := by linarith
  norm_cast at hup hlow
  obtain rfl | rfl : m = n + 1 ∨ n = m + 1 := by omega
  · push_cast at hm ⊢
    have hmid : q = n + 1 / 2 := by linarith
    refine ⟨?_, ?_, .inl rfl⟩
    · rw [hmid, show (n : Rat) + 1 / 2 - (n + 1) = -(1 / 2) by ring]; norm_num
    · rw [hmid, show (n : Rat) + 1 / 2 - n = 1 / 2 by ring]; norm_num
  · push_cast at hn ⊢
    have hmid : q = m + 1 / 2 := by linarith
    refine ⟨?_, ?_, .inr rfl⟩
    · rw [hmid, show (m : Rat) + 1 / 2 - m = 1 / 2 by ring]; norm_num
    · rw [hmid, show (m : Rat) + 1 / 2 - (m + 1) = -(1 / 2) by ring]; norm_num

theorem roundEven_eq_iff :
    roundEven q = m ↔ |q - m| < 1 / 2 ∨ |q - m| = 1 / 2 ∧ m % 2 = 0 := by
  constructor
  · rintro rfl
    exact roundEven_spec q
  · intro h
    by_contra hne
    obtain ⟨hq, hm, hnext⟩ := neighbours_of_near (roundEven_error q)
      (h.elim le_of_lt fun h => h.1.le) hne
    -- both are at a half, so both are even
    have heven := (roundEven_spec q).resolve_left (by rw [hq]; exact lt_irrefl _)
    have heven' := h.resolve_left (by rw [hm]; exact lt_irrefl _)
    omega

theorem roundEven_intCast (n : Int) : roundEven (n : Rat) = n :=
  roundEven_eq_iff.mpr (.inl (by simp))

theorem roundEven_neg (q : Rat) : roundEven (-q) = -roundEven q := by
  rw [roundEven_eq_iff]
  push_cast
  rw [show -q - -(roundEven q : Rat) = -(q - roundEven q) by ring, abs_neg]
  exact (roundEven_spec q).imp_right fun h => ⟨h.1, by omega⟩

/-- What lies between two integers is rounded to between them. -/
theorem le_roundEven (h : (n : Rat) ≤ q) : n ≤ roundEven q := by
  have herror := abs_le.mp (roundEven_error q)
  have hle : (n : Rat) < roundEven q + 1 := by linarith
  exact Int.lt_add_one_iff.mp (by exact_mod_cast hle)

theorem roundEven_le (h : q ≤ n) : roundEven q ≤ n := by
  have herror := abs_le.mp (roundEven_error q)
  have hle : (roundEven q : Rat) < n + 1 := by linarith
  exact Int.lt_add_one_iff.mp (by exact_mod_cast hle)

/-- No integer is nearer than the nearest one, and one that is as near is odd where that is even. -/
theorem roundEven_nearest (q : Rat) (n : Int) :
    |q - roundEven q| ≤ |q - n| ∧
      (|q - roundEven q| = |q - n| → n = roundEven q ∨ roundEven q % 2 = 0 ∧ n % 2 = 1) := by
  have herror := roundEven_error q
  by_cases hn : n = roundEven q
  · rw [hn]
    exact ⟨le_rfl, fun _ => .inl rfl⟩
  · have hnext (h : |q - n| ≤ 1 / 2) := neighbours_of_near herror h (Ne.symm hn)
    constructor
    · by_contra hlt
      obtain ⟨hq, hm, -⟩ := hnext (by linarith)
      linarith
    · intro heq
      obtain ⟨hq, -, hor⟩ := hnext (by linarith)
      have heven := (roundEven_spec q).resolve_left (by rw [hq]; exact lt_irrefl _)
      exact .inr ⟨heven.2, by omega⟩

theorem natAbs_roundEven_le {n : Nat} (h : |q| ≤ n) : (roundEven q).natAbs ≤ n := by
  obtain ⟨hlow, hup⟩ := abs_le.mp h
  have hle : roundEven q ≤ (n : Int) := roundEven_le (by exact_mod_cast hup)
  have hge : -(n : Int) ≤ roundEven q := le_roundEven (by exact_mod_cast hlow)
  omega

theorem le_natAbs_roundEven {n : Nat} (h : (n : Rat) ≤ |q|) : n ≤ (roundEven q).natAbs := by
  rcases le_abs.mp h with hq | hq
  · have hle : (n : Int) ≤ roundEven q := le_roundEven (by exact_mod_cast hq)
    omega
  · have hle : roundEven q ≤ -(n : Int) := roundEven_le (by push_cast; linarith)
    omega

/-- What is nearer to zero than a natural number is farther from what that number does not exceed. -/
theorem roundEven_nearer {c : Rat} {n : Nat} (hq : (n : Rat) ≤ |q|) (hc : |c| < n) :
    |q - roundEven q| < |q - c| := by
  obtain ⟨hlow, hup⟩ := abs_lt.mp hc
  rcases le_abs.mp hq with hq | hq
  · calc |q - roundEven q| ≤ |q - (n : Int)| := (roundEven_nearest q n).1
      _ = q - n := by rw [Int.cast_natCast, abs_of_nonneg (by linarith)]
      _ < q - c := by linarith
      _ ≤ |q - c| := le_abs_self _
  · calc |q - roundEven q| ≤ |q - (-(n : Int) : Int)| := (roundEven_nearest q (-n)).1
      _ = -n - q := by
          rw [Int.cast_neg, Int.cast_natCast, abs_of_nonpos (by linarith)]
          ring
      _ < -(q - c) := by linarith
      _ ≤ |q - c| := neg_le_abs _

end

/-! ## Values of a format -/

theorem abs_intCast (m : Int) : |(m : Rat)| = m.natAbs := by
  rw [← Int.cast_abs, Int.abs_eq_natAbs, Int.cast_natCast]

theorem abs_mul_two_zpow (m e : Int) : |(m * 2 ^ e : Rat)| = m.natAbs * 2 ^ e := by
  rw [abs_mul, abs_of_pos (two_zpow_pos e), abs_intCast]

theorem rat_abs_eq (q : Rat) : q.abs = |q| := by
  rcases le_total 0 q with h | h
  · rw [Rat.abs_of_nonneg h, abs_of_nonneg h]
  · rw [Rat.abs_of_nonpos h, abs_of_nonpos h]

/-- The exponent of the leading digit is the one whose powers enclose the magnitude. -/
theorem leadingExp_eq {q : Rat} {k : Int} (hlow : (2 : Rat) ^ k ≤ |q|) (hup : |q| < 2 ^ (k + 1)) :
    leadingExp q = k := by
  have hq : q ≠ 0 := by
    rintro rfl
    rw [abs_zero] at hlow
    exact absurd (two_zpow_pos k) (not_lt.mpr hlow)
  have h := leadingExp_le hq
  have h' := lt_leadingExp hq
  rw [rat_abs_eq] at h h'
  have := le_of_two_zpow_lt (h.trans_lt hup)
  have := le_of_two_zpow_lt (hlow.trans_lt h')
  omega

namespace Fp

theorem toRat_ofRat (s : Bool) (q : Rat) : (ofRat s q).toRat = q := by
  unfold ofRat
  split
  · exact Eq.symm (by assumption)
  · rfl

theorem isInfinite_ofRat (s : Bool) (q : Rat) : (ofRat s q).isInfinite = false := by
  unfold ofRat
  split <;> rfl

theorem isFinite_ofRat (s : Bool) (q : Rat) : (ofRat s q).isFinite = true := by
  unfold ofRat
  split <;> rfl

theorem isNan_ofRat (s : Bool) (q : Rat) : (ofRat s q).isNan = false := by
  unfold ofRat
  split <;> rfl

end Fp

namespace Format

/-- A significand and an exponent that make a value of a format. -/
structure IsValue (fmt : Format) (m e : Int) : Prop where
  digits : m.natAbs < 2 ^ fmt.precision
  least : fmt.minExp ≤ e
  most : e ≤ fmt.maxExp

/-- The significand and the exponent with which a format writes a value: the significand has all its
digits, or the exponent cannot be less. -/
structure IsWritten (fmt : Format) (m e : Int) : Prop extends IsValue fmt m e where
  full : 2 ^ (fmt.precision - 1) ≤ m.natAbs ∨ e = fmt.minExp

/-- A datum is the value of a format that is nearest to a rational, and of two equally near ones
that whose significand is even.  A zero has the sign of the rational. -/
def IsNearest (fmt : Format) (q : Rat) (x : Fp) : Prop :=
  ∃ m e : Int, fmt.IsWritten m e ∧ x = Fp.ofRat (decide (q < 0)) (m * 2 ^ e) ∧
    ∀ n k : Int, fmt.IsValue n k →
      |q - m * 2 ^ e| ≤ |q - n * 2 ^ k| ∧
        (|q - m * 2 ^ e| = |q - n * 2 ^ k| → (n * 2 ^ k : Rat) = m * 2 ^ e ∨ m % 2 = 0)

/-- The magnitude from which on the nearest value would need a greater exponent than there is. -/
def overflow (fmt : Format) : Rat := (2 ^ fmt.precision - 1 / 2) * 2 ^ fmt.maxExp

/-- A format has two digits or more, and some exponent. -/
structure Proper (fmt : Format) : Prop where
  digits : 2 ≤ fmt.precision
  exponents : fmt.minExp ≤ fmt.maxExp

variable {fmt : Format} {q : Rat} {m n e k : Int}

theorem bound_eq (fmt : Format) : fmt.bound = 2 ^ fmt.precision * 2 ^ fmt.maxExp := by
  rw [bound, two_zpow_add, mul_comm, Rat.zpow_natCast]

theorem overflow_lt_bound (fmt : Format) : fmt.overflow < fmt.bound := by
  rw [bound_eq, overflow]
  exact mul_lt_mul_of_pos_right (by linarith) (two_zpow_pos _)

theorem holds_ofRat (h : fmt.IsValue m e) (s : Bool) : fmt.Holds (Fp.ofRat s (m * 2 ^ e)) := by
  unfold Fp.ofRat
  split
  · trivial
  · exact ⟨m, e, h.digits, h.least, h.most, rfl⟩

/-! ### The significand that rounding looks for -/

/-- The significand to which a rational is rounded, at the exponent `quantum q`. -/
def significand (fmt : Format) (q : Rat) : Int := roundEven (q / 2 ^ fmt.quantum q)

theorem round_eq_ofRat (hq : q ≠ 0) (s : Bool)
    (hb : |(fmt.significand q * 2 ^ fmt.quantum q : Rat)| < fmt.bound) :
    fmt.round s q = Fp.ofRat (decide (q < 0)) (fmt.significand q * 2 ^ fmt.quantum q) := by
  unfold round
  rw [if_neg hq]
  dsimp only
  rw [if_neg]
  · rfl
  · rw [rat_abs_eq]
    exact not_le.mpr hb

theorem round_eq_infinity (hq : q ≠ 0) (s : Bool)
    (hb : ¬|(fmt.significand q * 2 ^ fmt.quantum q : Rat)| < fmt.bound) :
    fmt.round s q = .infinity (decide (q < 0)) := by
  unfold round
  rw [if_neg hq]
  dsimp only
  rw [if_pos]
  rw [rat_abs_eq]
  exact not_lt.mp hb

theorem scaled_lt (hq : q ≠ 0) : |q / 2 ^ fmt.quantum q| < 2 ^ fmt.precision := by
  rw [abs_div, abs_of_pos (two_zpow_pos _), div_lt_iff₀ (two_zpow_pos _), ← Rat.zpow_natCast,
    ← two_zpow_add, ← rat_abs_eq]
  refine (lt_leadingExp hq).trans_le (two_zpow_le ?_)
  unfold quantum
  omega

theorem le_scaled (hq : q ≠ 0) (hp : 1 ≤ fmt.precision) (h : fmt.minExp < fmt.quantum q) :
    2 ^ (fmt.precision - 1) ≤ |q / 2 ^ fmt.quantum q| := by
  rw [abs_div, abs_of_pos (two_zpow_pos _), le_div_iff₀ (two_zpow_pos _), ← Rat.zpow_natCast,
    ← two_zpow_add, ← rat_abs_eq]
  refine (two_zpow_le ?_).trans (leadingExp_le hq)
  unfold quantum at h ⊢
  omega

theorem significand_le (hq : q ≠ 0) : (fmt.significand q).natAbs ≤ 2 ^ fmt.precision :=
  natAbs_roundEven_le (by exact_mod_cast (scaled_lt hq).le)

theorem le_significand (hq : q ≠ 0) (hp : 1 ≤ fmt.precision) (h : fmt.minExp < fmt.quantum q) :
    2 ^ (fmt.precision - 1) ≤ (fmt.significand q).natAbs :=
  le_natAbs_roundEven (by exact_mod_cast le_scaled hq hp h)

/-- What a rational is rounded to is written by the format, unless it is out of its range.  A
significand with a digit too many is a power of two, and is written with a greater exponent. -/
theorem exists_written (hfmt : fmt.Proper) (hq : q ≠ 0)
    (hb : |(fmt.significand q * 2 ^ fmt.quantum q : Rat)| < fmt.bound) :
    ∃ m e : Int, fmt.IsWritten m e ∧
      (m * 2 ^ e : Rat) = fmt.significand q * 2 ^ fmt.quantum q ∧
      (fmt.significand q % 2 = 0 → m % 2 = 0) := by
  have hmin : fmt.minExp ≤ fmt.quantum q := le_max_right _ _
  have hfull : 2 ^ (fmt.precision - 1) ≤ (fmt.significand q).natAbs ∨
      fmt.quantum q = fmt.minExp := by
    rcases hmin.lt_or_eq with h | h
    · exact .inl (le_significand hq (by have := hfmt.digits; omega) h)
    · exact .inr h.symm
  have hle : (fmt.significand q).natAbs ≤ 2 ^ fmt.precision := significand_le hq
  obtain ⟨p, hp⟩ := Nat.exists_eq_add_of_le' hfmt.digits
  rw [abs_mul_two_zpow, bound_eq] at hb
  generalize fmt.significand q = M at *
  generalize fmt.quantum q = E at *
  have hmost : E ≤ fmt.maxExp := by
    rcases hfull with h | h
    · have hlow : ((2 ^ (fmt.precision - 1) : Nat) : Rat) ≤ M.natAbs := by exact_mod_cast h
      have hpow : (2 : Rat) ^ ((fmt.precision - 1 : Nat) + E) <
          2 ^ ((fmt.precision : Int) + fmt.maxExp) := by
        rw [two_zpow_add, two_zpow_add, two_zpow_natCast, Rat.zpow_natCast]
        exact (mul_le_mul_of_nonneg_right hlow (two_zpow_pos E).le).trans_lt hb
      have := le_of_two_zpow_lt hpow
      omega
    · exact h ▸ hfmt.exponents
  rcases hle.lt_or_eq with h | h
  · exact ⟨M, E, ⟨⟨h, hmin, hmost⟩, hfull⟩, rfl, id⟩
  · have hlt : E < fmt.maxExp := by
      rw [h] at hb
      push_cast at hb
      exact le_of_two_zpow_lt (lt_of_mul_lt_mul_left hb (by positivity))
    have hpow : 2 ^ fmt.precision = 4 * 2 ^ p := by rw [hp, pow_add]; ring
    have hpow' : 2 ^ (fmt.precision - 1) = 2 * 2 ^ p := by
      rw [hp, show p + 2 - 1 = p + 1 by omega, pow_succ]; ring
    have hhalf : M = 2 * (M / 2) := by omega
    refine ⟨M / 2, E + 1, ⟨⟨?_, by omega, by omega⟩, .inl ?_⟩, ?_, fun _ => by omega⟩
    · have : 0 < 2 ^ p := by positivity
      omega
    · omega
    · rw [two_zpow_add]
      conv_rhs => rw [hhalf]
      push_cast
      ring

theorem abs_sub_scaled (fmt : Format) (q z : Rat) :
    |q - z * 2 ^ fmt.quantum q| = |q / 2 ^ fmt.quantum q - z| * 2 ^ fmt.quantum q := by
  have hpos := two_zpow_pos (fmt.quantum q)
  rw [← abs_of_pos hpos, ← abs_mul, abs_of_pos hpos, sub_mul, div_mul_cancel₀ _ hpos.ne']

/-- A value with no lesser exponent is a whole number of the last digits of the result. -/
theorem significand_nearest_of_le (hk : fmt.quantum q ≤ k) (n : Int) :
    |q - fmt.significand q * 2 ^ fmt.quantum q| ≤ |q - n * 2 ^ k| ∧
      (|q - fmt.significand q * 2 ^ fmt.quantum q| = |q - n * 2 ^ k| →
        (n * 2 ^ k : Rat) = fmt.significand q * 2 ^ fmt.quantum q ∨
          fmt.significand q % 2 = 0 ∧ n % 2 = 1) := by
  have hpos := two_zpow_pos (fmt.quantum q)
  obtain ⟨d, rfl⟩ := Int.le.dest hk
  have hn : (n * 2 ^ (fmt.quantum q + d) : Rat) = (n * 2 ^ d : Int) * 2 ^ fmt.quantum q := by
    rw [two_zpow_add, Rat.zpow_natCast]
    push_cast
    ring
  obtain ⟨hle, htie⟩ := roundEven_nearest (q / 2 ^ fmt.quantum q) (n * 2 ^ d)
  rw [hn, abs_sub_scaled, abs_sub_scaled, significand]
  refine ⟨mul_le_mul_of_nonneg_right hle hpos.le, fun heq => ?_⟩
  rcases htie (mul_right_cancel₀ hpos.ne' heq) with hsame | ⟨heven, hodd⟩
  · exact .inl (by rw [hsame])
  · refine .inr ⟨heven, ?_⟩
    rw [Int.mul_emod] at hodd
    rcases Int.emod_two_eq n with h0 | h1
    · simp [h0] at hodd
    · exact h1

/-- All values with a lesser exponent are below a power of two, which is nearer. -/
theorem significand_nearest_of_lt (hp : 1 ≤ fmt.precision) (hq : q ≠ 0) (h : fmt.IsValue n k)
    (hk : k < fmt.quantum q) :
    |q - fmt.significand q * 2 ^ fmt.quantum q| < |q - n * 2 ^ k| := by
  have hpos := two_zpow_pos (fmt.quantum q)
  have hlow := le_scaled hq hp (h.least.trans_lt hk)
  have hn : (n * 2 ^ k : Rat) = n * 2 ^ k / 2 ^ fmt.quantum q * 2 ^ fmt.quantum q :=
    (div_mul_cancel₀ _ hpos.ne').symm
  have hc : |(n * 2 ^ k / 2 ^ fmt.quantum q : Rat)| < ((2 ^ (fmt.precision - 1) : Nat) : Rat) := by
    rw [abs_div, abs_of_pos hpos, div_lt_iff₀ hpos, abs_mul_two_zpow]
    calc (n.natAbs : Rat) * 2 ^ k < ((2 ^ fmt.precision : Nat) : Rat) * 2 ^ k :=
          mul_lt_mul_of_pos_right (by exact_mod_cast h.digits) (two_zpow_pos k)
      _ ≤ ((2 ^ (fmt.precision - 1) : Nat) : Rat) * 2 ^ fmt.quantum q := by
          rw [← two_zpow_natCast, ← two_zpow_natCast, ← two_zpow_add, ← two_zpow_add]
          exact two_zpow_le (by omega)
  rw [hn, abs_sub_scaled, abs_sub_scaled, significand]
  exact mul_lt_mul_of_pos_right (roundEven_nearer (by exact_mod_cast hlow) hc) hpos

/-- A value of the format is no nearer than what a rational is rounded to, and one that is as near is
written with an odd significand where the other is even. -/
theorem significand_nearest (hp : 1 ≤ fmt.precision) (hq : q ≠ 0) (h : fmt.IsValue n k) :
    |q - fmt.significand q * 2 ^ fmt.quantum q| ≤ |q - n * 2 ^ k| ∧
      (|q - fmt.significand q * 2 ^ fmt.quantum q| = |q - n * 2 ^ k| →
        (n * 2 ^ k : Rat) = fmt.significand q * 2 ^ fmt.quantum q ∨
          fmt.significand q % 2 = 0 ∧ n % 2 = 1) := by
  rcases le_or_gt (fmt.quantum q) k with hk | hk
  · exact significand_nearest_of_le hk n
  · have hlt := significand_nearest_of_lt hp hq h hk
    exact ⟨hlt.le, fun heq => absurd heq hlt.ne⟩

/-! ### The nearest value -/

/-- Below the overflow of a format, what is rounded to is in its range. -/
theorem significand_lt_bound (hfmt : fmt.Proper) (hq : q ≠ 0) (h : |q| < fmt.overflow) :
    |(fmt.significand q * 2 ^ fmt.quantum q : Rat)| < fmt.bound := by
  have hbound : q.abs < fmt.bound := by
    rw [rat_abs_eq]
    exact h.trans fmt.overflow_lt_bound
  have hmost := quantum_le hq hbound hfmt.exponents
  have hpos := two_zpow_pos (fmt.quantum q)
  rw [abs_mul, abs_of_pos hpos, bound_eq]
  rcases hmost.lt_or_eq with hE | hE
  · have hle : |(fmt.significand q : Rat)| ≤ 2 ^ fmt.precision := by
      rw [abs_intCast]
      exact_mod_cast significand_le hq
    have hlt : (2 : Rat) ^ fmt.quantum q < 2 ^ fmt.maxExp :=
      lt_of_lt_of_le (by rw [two_zpow_add]; linarith) (two_zpow_le (by omega : fmt.quantum q + 1 ≤ _))
    calc |(fmt.significand q : Rat)| * 2 ^ fmt.quantum q ≤ 2 ^ fmt.precision * 2 ^ fmt.quantum q :=
          mul_le_mul_of_nonneg_right hle hpos.le
      _ < 2 ^ fmt.precision * 2 ^ fmt.maxExp := mul_lt_mul_of_pos_left hlt (by positivity)
  · -- at the greatest exponent, the significand is within a half of what is below the overflow
    have hscaled : |q / 2 ^ fmt.quantum q| < 2 ^ fmt.precision - 1 / 2 := by
      rw [abs_div, abs_of_pos hpos, div_lt_iff₀ hpos, hE]
      exact h
    have herror := abs_sub_abs_le_abs_sub (fmt.significand q : Rat) (q / 2 ^ fmt.quantum q)
    have hnear := roundEven_error (q / 2 ^ fmt.quantum q)
    rw [abs_sub_comm] at herror
    rw [hE]
    refine mul_lt_mul_of_pos_right ?_ (two_zpow_pos _)
    unfold significand at herror ⊢
    linarith

/-- **Rounding is to the nearest value.**  Below the overflow of a format, the value nearest to a
rational is the one that it is rounded to, and no other. -/
theorem isNearest_iff (hfmt : fmt.Proper) (h : |q| < fmt.overflow) (x : Fp) :
    fmt.IsNearest q x ↔ x = fmt.round false q := by
  by_cases hq : q = 0
  · subst hq
    have hround : fmt.round false 0 = .zero false := if_pos rfl
    have hzero : Fp.ofRat (decide ((0 : Rat) < 0)) 0 = .zero false := by simp [Fp.ofRat]
    rw [hround]
    constructor
    · rintro ⟨n, k, hn, rfl, hnear⟩
      obtain ⟨hle, -⟩ := hnear 0 k ⟨by simp, hn.least, hn.most⟩
      have hvalue : (n * 2 ^ k : Rat) = 0 := by simpa [-abs_mul, -mul_eq_zero] using hle
      rw [hvalue, hzero]
    · rintro rfl
      refine ⟨0, fmt.minExp, ⟨⟨by simp, le_rfl, hfmt.exponents⟩, .inr rfl⟩, ?_, fun n k _ => ?_⟩
      · simpa using hzero.symm
      · simp [-abs_mul]
  · have hb := significand_lt_bound hfmt hq h
    have hp : 1 ≤ fmt.precision := by have := hfmt.digits; omega
    obtain ⟨m, e, hm, hvalue, heven⟩ := exists_written hfmt hq hb
    rw [round_eq_ofRat hq false hb, ← hvalue]
    constructor
    · rintro ⟨n, k, hn, rfl, hnear⟩
      obtain ⟨hle, htie⟩ := significand_nearest hp hq hn.toIsValue
      obtain ⟨hle', htie'⟩ := hnear m e hm.toIsValue
      rw [← hvalue] at hle htie
      have hdist := le_antisymm hle hle'
      rcases htie hdist with hsame | ⟨-, hodd⟩
      · rw [hsame]
      · rcases htie' hdist.symm with hsame | hzero
        · rw [hsame]
        · omega
    · rintro rfl
      refine ⟨m, e, hm, rfl, fun n k hn => ?_⟩
      obtain ⟨hle, htie⟩ := significand_nearest hp hq hn
      rw [← hvalue] at hle htie
      exact ⟨hle, fun heq => (htie heq).imp_right fun h => heven h.1⟩

/-! ### Values stay as they are -/

theorem lt_overflow_of_value (h : fmt.IsValue m e) : |(m * 2 ^ e : Rat)| < fmt.overflow := by
  have hdigits : ((m.natAbs : Nat) : Rat) ≤ 2 ^ fmt.precision - 1 := by
    have : ((m.natAbs + 1 : Nat) : Rat) ≤ ((2 ^ fmt.precision : Nat) : Rat) := by
      exact_mod_cast h.digits
    push_cast at this ⊢
    linarith
  rw [abs_mul_two_zpow, overflow]
  calc ((m.natAbs : Nat) : Rat) * 2 ^ e ≤ (m.natAbs : Nat) * 2 ^ fmt.maxExp :=
        mul_le_mul_of_nonneg_left (two_zpow_le h.most) (by positivity)
    _ < (2 ^ fmt.precision - 1 / 2) * 2 ^ fmt.maxExp :=
        mul_lt_mul_of_pos_right (by linarith) (two_zpow_pos _)

/-- The significand that rounding looks for is that of the value itself. -/
theorem significand_value (hfmt : fmt.Proper) (h : fmt.IsValue m e) (hq : (m * 2 ^ e : Rat) ≠ 0) :
    (fmt.significand (m * 2 ^ e) * 2 ^ fmt.quantum (m * 2 ^ e) : Rat) = m * 2 ^ e := by
  have hp : 1 ≤ fmt.precision := by have := hfmt.digits; omega
  obtain ⟨hle, -⟩ := significand_nearest hp hq h
  rw [sub_self, abs_zero, abs_nonpos_iff, sub_eq_zero] at hle
  exact hle.symm

/-- A value of the format is rounded to itself. -/
theorem round_value (hfmt : fmt.Proper) (h : fmt.IsValue m e) :
    fmt.round false (m * 2 ^ e) = Fp.ofRat (decide ((m * 2 ^ e : Rat) < 0)) (m * 2 ^ e) := by
  by_cases hq : (m * 2 ^ e : Rat) = 0
  · simp [hq, round, Fp.ofRat]
  · have hb := significand_lt_bound hfmt hq (lt_overflow_of_value h)
    rw [round_eq_ofRat hq false hb, significand_value hfmt h hq]

/-- Every value of a format but zero can be written with the longest significand. -/
theorem exists_written_value (hfmt : fmt.Proper) (h : fmt.IsValue m e) (hq : (m * 2 ^ e : Rat) ≠ 0) :
    ∃ n k : Int, fmt.IsWritten n k ∧ (m * 2 ^ e : Rat) = n * 2 ^ k := by
  obtain ⟨n, k, hn, hvalue, -⟩ :=
    exists_written hfmt hq (significand_lt_bound hfmt hq (lt_overflow_of_value h))
  exact ⟨n, k, hn, (hvalue.trans (significand_value hfmt h hq)).symm⟩

theorem round_holds (hfmt : fmt.Proper) (s : Bool) (q : Rat) : fmt.Holds (fmt.round s q) := by
  by_cases hq : q = 0
  · rw [round, if_pos hq]
    trivial
  · by_cases hb : |(fmt.significand q * 2 ^ fmt.quantum q : Rat)| < fmt.bound
    · obtain ⟨m, e, hm, hvalue, -⟩ := exists_written hfmt hq hb
      rw [round_eq_ofRat hq s hb, ← hvalue]
      exact holds_ofRat hm.toIsValue _
    · rw [round_eq_infinity hq s hb]
      trivial

theorem convert_holds (hfmt : fmt.Proper) (x : Fp) : fmt.Holds (fmt.convert x) := by
  cases x with
  | finite q hq => exact round_holds hfmt false q
  | _ => trivial

/-- A datum that is a number and a value of the format is brought to it as it is. -/
theorem convert_of_holds (hfmt : fmt.Proper) {x : Fp} (hx : x.isNan = false) (h : fmt.Holds x) :
    fmt.convert x = x := by
  cases x with
  | nan => cases hx
  | finite q hq =>
      obtain ⟨m, e, hd, hl, hm, rfl⟩ := h
      have hvalue := round_value hfmt ⟨hd, hl, hm⟩
      rw [Fp.ofRat, dif_neg hq] at hvalue
      exact hvalue
  | _ => rfl

theorem half_proper : half.Proper := ⟨by decide, by decide⟩

theorem single_proper : single.Proper := ⟨by decide, by decide⟩

theorem double_proper : double.Proper := ⟨by decide, by decide⟩

end Format

theorem Precision.proper (p : Precision) : p.format.Proper :=
  match p with
  | .half => Format.half_proper
  | .single => Format.single_proper
  | .double => Format.double_proper

end Ssa

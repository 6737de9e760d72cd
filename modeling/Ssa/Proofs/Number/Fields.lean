/-
# `Ssa.Proofs.Number.Fields` — words of floating point by their fields

A word of a format is a sign, an exponent field and a fraction (`Format.assemble`).  A significand with
all its digits, or with the least exponent, makes the two lower fields, and each pair of them below the
top one is made by one such significand; so the values of a format and its words go one to one, but for
the words of what is no number, of which there are more than can be told apart.

**Proved here.**

    every word is put together from its fields                             (`exists_assemble`)
    a word stands for what its fields say                                  (`decode_assemble`)
    a significand makes two fields, and two fields a significand           (`IsWritten.exists_fields`, `exists_written_of_fields`)
    a word reads as a value of its format                                  (`decode_holds`)
    word to datum to word, and datum to word to datum                      (`encode_decode`, `decode_encode`)
    what is read off a word is brought to single precision as it is        (`convert_decode_single`)
-/
import Ssa.Proofs.Number.Doubles

namespace Ssa

namespace Format

variable {fmt : Format} {negative : Bool} {field fraction word : Nat} {m e : Int}

/-! ## Fields -/

/-- The word of a sign, an exponent field and a fraction. -/
def assemble (fmt : Format) (negative : Bool) (field fraction : Nat) : Nat :=
  (if negative then fmt.signUnit else 0) + (field * fmt.fieldUnit + fraction)

/-- What the two lower fields of a word can be. -/
structure IsFields (fmt : Format) (field fraction : Nat) : Prop where
  field_le : field ≤ fmt.topField
  fraction_lt : fraction < fmt.fieldUnit

theorem IsFields.lt_signUnit (h : fmt.IsFields field fraction) :
    field * fmt.fieldUnit + fraction < fmt.signUnit := by
  have hle : field * fmt.fieldUnit ≤ fmt.topField * fmt.fieldUnit := Nat.mul_le_mul_right _ h.field_le
  have := h.fraction_lt
  rw [signUnit_eq]
  omega

theorem fieldUnit_dvd_signUnit (fmt : Format) : fmt.fieldUnit ∣ fmt.signUnit :=
  ⟨fmt.topField + 1, Nat.mul_comm _ _⟩

theorem isFields_of_word (fmt : Format) (word : Nat) :
    fmt.IsFields (word % fmt.signUnit / fmt.fieldUnit) (word % fmt.fieldUnit) where
  field_le := by
    have hpos : 0 < fmt.signUnit := Nat.mul_pos (Nat.succ_pos _) fmt.fieldUnit_pos
    have hlt : word % fmt.signUnit < (fmt.topField + 1) * fmt.fieldUnit := Nat.mod_lt _ hpos
    exact Nat.le_of_lt_succ (Nat.div_lt_of_lt_mul (by rwa [Nat.mul_comm] at hlt))
  fraction_lt := Nat.mod_lt _ fmt.fieldUnit_pos

/-- A word with no digit above its sign is put together from its fields. -/
theorem exists_assemble (h : word < 2 * fmt.signUnit) : ∃ negative field fraction,
    fmt.IsFields field fraction ∧ word = fmt.assemble negative field fraction := by
  refine ⟨decide (fmt.signUnit ≤ word), _, _, isFields_of_word fmt word, ?_⟩
  rw [assemble, ← Nat.mod_mod_of_dvd word fmt.fieldUnit_dvd_signUnit, Nat.div_add_mod']
  by_cases hsign : fmt.signUnit ≤ word
  · rw [decide_eq_true hsign, if_pos rfl, Nat.mod_eq_sub_mod hsign, Nat.mod_eq_of_lt (by omega)]
    omega
  · rw [decide_eq_false hsign, if_neg (by decide), Nat.mod_eq_of_lt (by omega), Nat.zero_add]

theorem assemble_mod_signUnit (h : fmt.IsFields field fraction) (negative : Bool) :
    fmt.assemble negative field fraction % fmt.signUnit = field * fmt.fieldUnit + fraction := by
  have hlt := h.lt_signUnit
  unfold assemble
  cases negative
  · rw [if_neg (by decide), Nat.zero_add, Nat.mod_eq_of_lt hlt]
  · rw [if_pos rfl, Nat.add_mod_left, Nat.mod_eq_of_lt hlt]

/-- A word stands for what its fields say. -/
theorem decode_assemble (h : fmt.IsFields field fraction) (negative : Bool) :
    fmt.decode (fmt.assemble negative field fraction) =
      if field = fmt.topField then
        if fraction = 0 then .infinity negative else .nan negative (fmt.decodePayload fraction)
      else Fp.ofRat negative
        (if negative then -fmt.decodeMagnitude field fraction else fmt.decodeMagnitude field fraction) := by
  have hlt := h.lt_signUnit
  have hrest := assemble_mod_signUnit h negative
  have hsign : decide (fmt.assemble negative field fraction / fmt.signUnit % 2 = 1) = negative := by
    unfold assemble
    cases negative
    · rw [if_neg (by decide), Nat.zero_add, Nat.div_eq_of_lt hlt]
      rfl
    · rw [if_pos rfl, Nat.add_div_left _ (by omega), Nat.div_eq_of_lt hlt]
      rfl
  have hfield : (field * fmt.fieldUnit + fraction) / fmt.fieldUnit = field := by
    rw [Nat.add_comm, Nat.add_mul_div_right _ _ fmt.fieldUnit_pos, Nat.div_eq_of_lt h.fraction_lt,
      Nat.zero_add]
  have hfraction : fmt.assemble negative field fraction % fmt.fieldUnit = fraction := by
    rw [← Nat.mod_mod_of_dvd _ fmt.fieldUnit_dvd_signUnit, hrest, Nat.add_comm,
      Nat.add_mul_mod_self_right, Nat.mod_eq_of_lt h.fraction_lt]
  unfold decode
  dsimp only
  rw [hsign, hrest, hfield, hfraction]

/-! ## Significands -/

/-- A significand and its opposite are written alike. -/
theorem IsWritten.neg (h : fmt.IsWritten m e) : fmt.IsWritten (-m) e where
  digits := by rw [Int.natAbs_neg]; exact h.digits
  least := h.least
  most := h.most
  full := by rw [Int.natAbs_neg]; exact h.full

/-- The exponent of the last digit is that with which the value is written. -/
theorem IsWritten.quantum_eq (hp : 1 ≤ fmt.precision) (h : fmt.IsWritten m e) (hm : m ≠ 0) :
    fmt.quantum (m * 2 ^ e) = e := by
  have hq : (m * 2 ^ e : Rat) ≠ 0 := mul_ne_zero (by exact_mod_cast hm) (two_zpow_pos e).ne'
  have hlow := leadingExp_le hq
  have hup := lt_leadingExp hq
  rw [rat_abs_eq, abs_mul_two_zpow] at hlow hup
  have hlt : leadingExp (m * 2 ^ e : Rat) < fmt.precision + e := by
    refine le_of_two_zpow_lt (hlow.trans_lt ?_)
    rw [two_zpow_add, two_zpow_natCast]
    exact mul_lt_mul_of_pos_right (by exact_mod_cast h.digits) (two_zpow_pos e)
  have hleast := h.least
  unfold quantum
  rcases h.full with hfull | hmin
  · have hge : ((fmt.precision - 1 : Nat) : Int) + e < leadingExp (m * 2 ^ e : Rat) + 1 := by
      refine le_of_two_zpow_lt (lt_of_le_of_lt ?_ hup)
      rw [two_zpow_add, two_zpow_natCast]
      exact mul_le_mul_of_nonneg_right (by exact_mod_cast hfull) (two_zpow_pos e).le
    omega
  · omega

theorem IsWritten.encodeMagnitude_eq (hp : 1 ≤ fmt.precision) (h : fmt.IsWritten m e) (hm : m ≠ 0) :
    fmt.encodeMagnitude (m * 2 ^ e) = (e - fmt.minExp).toNat * fmt.fieldUnit + m.natAbs := by
  unfold encodeMagnitude
  dsimp only
  rw [h.quantum_eq hp hm, mul_div_cancel_right₀ _ (two_zpow_pos e).ne', truncate_intCast]

/-- A significand with its exponent makes two fields below the top one. -/
theorem IsWritten.exists_fields (hp : 1 ≤ fmt.precision) (h : fmt.IsWritten m e) :
    ∃ field fraction, fmt.IsFields field fraction ∧ field < fmt.topField ∧
      (e - fmt.minExp).toNat * fmt.fieldUnit + m.natAbs = field * fmt.fieldUnit + fraction ∧
      fmt.decodeMagnitude field fraction = m.natAbs * 2 ^ e := by
  have hdigits : m.natAbs < 2 * fmt.fieldUnit := two_pow_precision hp ▸ h.digits
  have hfull : fmt.fieldUnit ≤ m.natAbs ∨ e = fmt.minExp := h.full
  have hleast := h.least
  have hmost := h.most
  rcases lt_or_ge m.natAbs fmt.fieldUnit with hlt | hge
  · obtain rfl : e = fmt.minExp := hfull.resolve_left (by omega)
    refine ⟨0, m.natAbs, ⟨Nat.zero_le _, hlt⟩, ?_, ?_, ?_⟩
    · unfold topField
      omega
    · rw [sub_self, Int.toNat_zero]
    · rw [decodeMagnitude, if_pos rfl]
  · have htop : (e - fmt.minExp).toNat + 1 < fmt.topField := by
      unfold topField
      omega
    refine ⟨(e - fmt.minExp).toNat + 1, m.natAbs - fmt.fieldUnit, ⟨htop.le, by omega⟩, htop, ?_, ?_⟩
    · rw [Nat.succ_mul]
      omega
    · rw [decodeMagnitude, if_neg (Nat.succ_ne_zero _), Nat.sub_add_cancel hge]
      congr 2
      omega

/-- Two fields below the top one are made by a significand with its exponent. -/
theorem exists_written_of_fields (hfmt : fmt.Proper) (h : fmt.IsFields field fraction)
    (hfield : field < fmt.topField) :
    ∃ (m : Nat) (e : Int), fmt.IsWritten m e ∧ fmt.decodeMagnitude field fraction = m * 2 ^ e ∧
      (e - fmt.minExp).toNat * fmt.fieldUnit + m = field * fmt.fieldUnit + fraction := by
  have hp : 1 ≤ fmt.precision := by have := hfmt.digits; omega
  have hunit := two_pow_precision hp
  have hfraction := h.fraction_lt
  have he := hfmt.exponents
  unfold topField at hfield
  unfold decodeMagnitude
  split
  · rename_i h0
    subst h0
    exact ⟨fraction, fmt.minExp, ⟨⟨by omega, le_rfl, he⟩, .inr rfl⟩, rfl, by simp⟩
  · refine ⟨fraction + fmt.fieldUnit, fmt.minExp + field - 1,
      ⟨⟨by omega, by omega, by omega⟩, .inl ?_⟩, rfl, ?_⟩
    · show fmt.fieldUnit ≤ _
      omega
    · obtain ⟨k, rfl⟩ := Nat.exists_eq_succ_of_ne_zero (by assumption)
      have hk : (fmt.minExp + ((k + 1 : Nat) : Int) - 1 - fmt.minExp).toNat = k := by omega
      rw [hk, Nat.succ_mul]
      omega

/-- What a word of a format stands for is a value of the format. -/
theorem decode_holds (hfmt : fmt.Proper) (word : Nat) : fmt.Holds (fmt.decode word) := by
  have hfields := isFields_of_word fmt word
  unfold decode
  dsimp only
  generalize word % fmt.signUnit / fmt.fieldUnit = field at *
  generalize word % fmt.fieldUnit = fraction at *
  split
  · split <;> trivial
  · rename_i htop
    obtain ⟨m, e, hm, hvalue, -⟩ :=
      exists_written_of_fields hfmt hfields (lt_of_le_of_ne hfields.field_le htop)
    split
    · exact Fp.ofRat_holds _ hm.neg.toIsValue (by rw [hvalue]; push_cast; ring)
    · exact Fp.ofRat_holds _ hm.toIsValue (by rw [hvalue, Int.cast_natCast])

/-! ## From word to datum and back -/

/-- A word of a format that stands for no number: its two lower fields are beyond those of an
infinity. -/
def IsNanWord (fmt : Format) (word : Nat) : Prop :=
  fmt.topField * fmt.fieldUnit < word % fmt.signUnit

instance (fmt : Format) (word : Nat) : Decidable (fmt.IsNanWord word) :=
  inferInstanceAs (Decidable (_ < _))

theorem isNanWord_assemble (h : fmt.IsFields field fraction) (negative : Bool) :
    fmt.IsNanWord (fmt.assemble negative field fraction) ↔ field = fmt.topField ∧ fraction ≠ 0 := by
  have hle := h.field_le
  have hlt := h.fraction_lt
  rw [IsNanWord, assemble_mod_signUnit h]
  rcases hle.lt_or_eq with hbelow | rfl
  · have : (field + 1) * fmt.fieldUnit ≤ fmt.topField * fmt.fieldUnit := Nat.mul_le_mul_right _ hbelow
    rw [Nat.succ_mul] at this
    omega
  · omega

theorem isNan_decode (h : word < 2 * fmt.signUnit) :
    (fmt.decode word).isNan = true ↔ fmt.IsNanWord word := by
  obtain ⟨negative, field, fraction, hfields, rfl⟩ := exists_assemble h
  rw [isNanWord_assemble hfields, decode_assemble hfields]
  split
  · split <;> simp_all [Fp.isNan]
  · rw [Fp.isNan_ofRat]
    simp_all

/-- The magnitude of a significand, with the sign of the significand. -/
theorem signed_magnitude {s : Bool} (hs : m ≠ 0 → (m < 0 ↔ s = true)) (e : Int) :
    (if s then -((m.natAbs : Rat) * 2 ^ e) else m.natAbs * 2 ^ e) = m * 2 ^ e := by
  rcases lt_trichotomy m 0 with hneg | rfl | hpos
  · rw [if_pos ((hs hneg.ne).mp hneg), Nat.cast_natAbs, abs_of_neg hneg]
    push_cast
    ring
  · simp
  · rw [if_neg fun h => absurd ((hs hpos.ne').mpr h) hpos.le.not_gt, Nat.cast_natAbs, abs_of_pos hpos]

/-- The word of a value is put together from its sign and from the fields of its significand. -/
theorem encode_ofRat (hp : 1 ≤ fmt.precision) (h : fmt.IsWritten m e) {s : Bool}
    (hs : m ≠ 0 → (m < 0 ↔ s = true)) :
    fmt.encode (Fp.ofRat s (m * 2 ^ e)) = (if s then fmt.signUnit else 0) +
      ((e - fmt.minExp).toNat * fmt.fieldUnit + m.natAbs) := by
  rcases eq_or_ne m 0 with rfl | hm
  · -- a zero has the least exponent
    have hmin : e = fmt.minExp :=
      h.full.resolve_left (not_le.mpr (Nat.pow_pos (by decide : 0 < 2)))
    simp [Fp.ofRat, encode, Fp.isNegative, hmin]
  · have hq : (m * 2 ^ e : Rat) ≠ 0 := mul_ne_zero (by exact_mod_cast hm) (two_zpow_pos e).ne'
    have hsign : decide ((m * 2 ^ e : Rat) < 0) = s := by
      rw [Bool.eq_iff_iff, decide_eq_true_iff, ← hs hm, ← neg_pos, ← neg_mul,
        mul_pos_iff_of_pos_right (two_zpow_pos e), neg_pos, Int.cast_lt_zero]
    unfold encode
    rw [Fp.ofRat, dif_neg hq]
    simp only [Fp.isNegative, hsign, h.encodeMagnitude_eq hp hm]

/-- **From a word and back.**  The datum that a word stands for has that word again, if it is a number. -/
theorem encode_decode (hfmt : fmt.Proper) (h : word < 2 * fmt.signUnit) (hnan : ¬fmt.IsNanWord word) :
    fmt.encode (fmt.decode word) = word := by
  obtain ⟨negative, field, fraction, hfields, rfl⟩ := exists_assemble h
  rw [isNanWord_assemble hfields] at hnan
  rw [decode_assemble hfields]
  split
  · rename_i htop
    obtain rfl : fraction = 0 := by_contra fun hne => hnan ⟨htop, hne⟩
    rw [if_pos rfl, assemble, htop]
    rfl
  · rename_i htop
    obtain ⟨n, e, hn, hvalue, hsum⟩ :=
      exists_written_of_fields hfmt hfields (lt_of_le_of_ne hfields.field_le htop)
    -- the significand with the sign of the word
    obtain ⟨m, hm, habs, hs⟩ : ∃ m : Int, fmt.IsWritten m e ∧ m.natAbs = n ∧
        (m ≠ 0 → (m < 0 ↔ negative = true)) := by
      cases negative
      · exact ⟨n, hn, rfl, by simp⟩
      · exact ⟨-n, hn.neg, by simp, fun hne => ⟨fun _ => rfl, fun _ => by omega⟩⟩
    rw [hvalue, ← habs, signed_magnitude hs, encode_ofRat (by have := hfmt.digits; omega) hm hs,
      assemble, ← hsum, habs]

/-- **From a datum and back.**  A number that a format holds is what its word stands for. -/
theorem decode_encode (hfmt : fmt.Proper) {x : Fp} (h : fmt.Holds x) (hnan : x.isNan = false) :
    fmt.decode (fmt.encode x) = x := by
  have hp : 1 ≤ fmt.precision := by have := hfmt.digits; omega
  have htop : 0 < fmt.topField := by
    have := hfmt.exponents
    unfold topField
    omega
  cases x with
  | nan => cases hnan
  | infinity s =>
      have hfields : fmt.IsFields fmt.topField 0 := ⟨le_rfl, fmt.fieldUnit_pos⟩
      have hword : fmt.encode (.infinity s) = fmt.assemble s fmt.topField 0 := rfl
      rw [hword, decode_assemble hfields, if_pos rfl, if_pos rfl]
  | zero s =>
      have hfields : fmt.IsFields 0 0 := ⟨htop.le, fmt.fieldUnit_pos⟩
      have hword : fmt.encode (.zero s) = fmt.assemble s 0 0 := by
        rw [assemble, Nat.zero_mul]
        rfl
      rw [hword, decode_assemble hfields, if_neg htop.ne]
      simp [decodeMagnitude, Fp.ofRat]
  | finite q hq =>
      obtain ⟨m', e', hvalue, rfl⟩ := holds_finite_iff.mp h
      obtain ⟨m, e, hm, heq⟩ := exists_written_value hfmt hvalue hq
      have hs : m ≠ 0 → (m < 0 ↔ decide (m < 0) = true) := fun _ => (decide_eq_true_iff).symm
      have hx : Fp.finite (m' * 2 ^ e') hq = Fp.ofRat (decide (m < 0)) (m * 2 ^ e) := by
        rw [Fp.ofRat, dif_neg (heq ▸ hq)]
        simp only [heq]
      obtain ⟨field, fraction, hfields, hlt, hsum, hmagnitude⟩ := hm.exists_fields hp
      have hword : fmt.encode (Fp.ofRat (decide (m < 0)) (m * 2 ^ e)) =
          fmt.assemble (decide (m < 0)) field fraction := by
        rw [encode_ofRat hp hm hs, assemble, hsum]
      rw [hx, hword, decode_assemble hfields, if_neg hlt.ne, hmagnitude, signed_magnitude hs]

/-! ## Brought to the format -/

/-- A payload that was read in single precision has its last digits free, and is quiet. -/
theorem keptPayload_single (fraction : Nat) :
    single.keptPayload (single.decodePayload fraction) = single.decodePayload fraction := by
  have hquiet (n : Nat) : n <<< 29 ||| Fp.quietDigit = (n ||| 2 ^ 22) <<< 29 := by
    rw [Nat.shiftLeft_or_distrib]
    rfl
  show ((fraction <<< 29 ||| Fp.quietDigit) >>> 29) <<< 29 ||| Fp.quietDigit =
    fraction <<< 29 ||| Fp.quietDigit
  rw [hquiet fraction, Nat.shiftLeft_shiftRight, hquiet, Nat.or_assoc, Nat.or_self]

/-- What is read off a word of single precision is brought to it as it is, also if it is no number. -/
theorem convert_decode_single (word : Nat) : single.convert (single.decode word) = single.decode word := by
  have hholds := decode_holds single_proper word
  cases hx : single.decode word with
  | nan s payload =>
      obtain ⟨fraction, rfl⟩ : ∃ fraction, payload = single.decodePayload fraction := by
        unfold decode at hx
        dsimp only at hx
        split at hx
        · split at hx
          · cases hx
          · cases hx
            exact ⟨_, rfl⟩
        · have hnan := congrArg Fp.isNan hx
          rw [Fp.isNan_ofRat] at hnan
          cases hnan
      rw [convert, keptPayload_single]
  | finite q hq => exact convert_of_holds single_proper rfl (hx ▸ hholds)
  | _ => rfl

end Format

end Ssa

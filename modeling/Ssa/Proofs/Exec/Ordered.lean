/-
# `Ssa.Proofs.Exec.Ordered` — comparisons of floating point

A word of double precision that stands for a number has an exact value: a rational, or a place beyond
all rationals on either side (`doubleValue?`).  The two zeros have one value.  A predicate says something
of two such values, and says besides whether it holds where one of the words stands for no number
(`FpPred.Says`).  A comparison answers what its predicate says.

**Proved here.**

    the datum of a word has the exact value of the word                    (`Fp.value?_decode`)
    a comparison of two data, by their exact values                        (`FpPred.apply_real`)
    the opposite predicate, and the operands exchanged                     (`FpPred.says_opposite`, `FpPred.says_mirrored`)
    a step at a comparison binds the answer                                (`Interpreted.step_in_order`)
-/
import Ssa.Proofs.Exec.Widths
import Ssa.Proofs.Number.Fields

namespace Ssa

/-! ## Exact values -/

/-- A rational, or a place beyond all of them. -/
abbrev Extended := WithBot (WithTop Rat)

/-- A rational as one of these. -/
def Extended.ofRat (q : Rat) : Extended := ((q : WithTop Rat) : WithBot (WithTop Rat))

namespace Extended

variable {q r : Rat}

theorem ofRat_lt : ofRat q < ofRat r ↔ q < r := WithBot.coe_lt_coe.trans WithTop.coe_lt_coe

theorem ofRat_inj : ofRat q = ofRat r ↔ q = r := WithBot.coe_inj.trans WithTop.coe_inj

theorem bot_lt_ofRat (q : Rat) : (⊥ : Extended) < ofRat q := WithBot.bot_lt_coe _

theorem ofRat_lt_top (q : Rat) : ofRat q < (⊤ : Extended) := WithBot.coe_lt_coe.mpr (WithTop.coe_lt_top q)

end Extended

/-- The exact value of a datum, if it is a number. -/
def Fp.value? : Fp → Option Extended
  | .nan .. => none
  | .infinity s => some (if s then ⊥ else ⊤)
  | .zero _ => some (.ofRat 0)
  | .finite q _ => some (.ofRat q)

/-- The exact value of a word of double precision, if it stands for a number.  It has a sign, an exponent of
eleven digits and a fraction of 52 digits; the greatest exponent is that of the infinities and of what
is no number, the least that of the values whose significand has no leading digit. -/
def doubleValue? (a : BitVec 64) : Option Extended :=
  let exponent := (a.extractLsb' 52 11).toNat
  let fraction := (a.extractLsb' 0 52).toNat
  if exponent = 2047 then
    if fraction = 0 then some (if a.msb then ⊥ else ⊤) else none
  else
    let magnitude : Rat :=
      if exponent = 0 then fraction * 2 ^ (-1074 : Int)
      else (2 ^ 52 + fraction) * 2 ^ ((exponent : Int) - 1075)
    some (.ofRat (if a.msb then -magnitude else magnitude))

namespace Fp

variable {x y : Fp} {u v : Extended}

theorem value?_ofRat (s : Bool) (q : Rat) : (ofRat s q).value? = some (.ofRat q) := by
  unfold ofRat
  split
  · rename_i h
    rw [h]
    rfl
  · rfl

theorem isNan_of_value? : x.isNan = x.value?.isNone := by
  cases x <;> rfl

theorem magnitude_double (field fraction : Nat) : Format.double.decodeMagnitude field fraction =
    if field = 0 then (fraction : Rat) * 2 ^ (-1074 : Int)
    else (2 ^ 52 + fraction) * 2 ^ ((field : Int) - 1075) := by
  unfold Format.decodeMagnitude
  split
  · rfl
  · have hexp : Format.double.minExp + (field : Int) - 1 = field - 1075 := by
      rw [show Format.double.minExp = -1074 from rfl]
      ring
    have hunit : (Format.double.fieldUnit : Rat) = 2 ^ 52 := by
      rw [show Format.double.fieldUnit = 2 ^ 52 from rfl]
      norm_cast
    rw [hexp, Nat.cast_add, hunit, add_comm]

/-- The datum of a word has the exact value of the word. -/
theorem value?_decode (a : BitVec 64) : (Format.double.decode a.toNat).value? = doubleValue? a := by
  have hlt := a.isLt
  have hexponent : (a.extractLsb' 52 11).toNat = a.toNat % 2 ^ 63 / 2 ^ 52 := by
    rw [BitVec.extractLsb'_toNat, Nat.shiftRight_eq_div_pow]
    omega
  have hfraction : (a.extractLsb' 0 52).toNat = a.toNat % 2 ^ 52 := by
    rw [BitVec.extractLsb'_toNat, Nat.shiftRight_zero]
  have hsign : decide (a.toNat / 2 ^ 63 % 2 = 1) = a.msb := by
    rw [BitVec.msb_eq_decide, decide_eq_decide]
    omega
  unfold doubleValue? Format.decode
  dsimp only
  rw [show Format.double.signUnit = 2 ^ 63 from rfl, show Format.double.fieldUnit = 2 ^ 52 from rfl,
    show Format.double.topField = 2047 from rfl, hexponent, hfraction, hsign]
  split
  · split <;> rfl
  · rw [value?_ofRat, magnitude_double]

/-- A number is an infinity or has the value of its rational; its rank tells which. -/
theorem rank_of_value? (h : x.value? = some u) :
    u = ⊥ ∧ x.rank = -1 ∧ x.toRat = 0 ∨ u = ⊤ ∧ x.rank = 1 ∧ x.toRat = 0 ∨
      u = .ofRat x.toRat ∧ x.rank = 0 := by
  cases x with
  | nan => cases h
  | infinity s => cases h; cases s <;> simp [rank, toRat]
  | zero | finite => cases h; exact .inr (.inr ⟨rfl, rfl⟩)

/-- Two data that are numbers are ordered as their exact values are. -/
theorem lessThan_iff_values (hx : x.value? = some u) (hy : y.value? = some v) :
    (Number.real x).lessThan (.real y) = true ↔ u < v := by
  have hless : (Number.real x).lessThan (.real y) = true ↔
      x.rank < y.rank ∨ x.rank = y.rank ∧ x.toRat < y.toRat := by
    show (!x.isNan && !y.isNan &&
      (decide (x.rank < y.rank) || (x.rank == y.rank && decide (x.toRat < y.toRat)))) = true ↔ _
    simp [isNan_of_value?, hx, hy]
  rw [hless]
  obtain ⟨rfl, hr, hq⟩ | ⟨rfl, hr, hq⟩ | ⟨rfl, hr⟩ := rank_of_value? hx <;>
    obtain ⟨rfl, hr', hq'⟩ | ⟨rfl, hr', hq'⟩ | ⟨rfl, hr'⟩ := rank_of_value? hy <;>
    simp [*, Extended.ofRat_lt, Extended.bot_lt_ofRat, Extended.ofRat_lt_top]

theorem equals_iff_values (hx : x.value? = some u) (hy : y.value? = some v) :
    (Number.real x).equals (.real y) = true ↔ u = v := by
  have hequal : (Number.real x).equals (.real y) = true ↔ x.rank = y.rank ∧ x.toRat = y.toRat := by
    show (!x.isNan && !y.isNan && x.rank == y.rank && decide (x.toRat = y.toRat)) = true ↔ _
    simp [isNan_of_value?, hx, hy]
  rw [hequal]
  obtain ⟨rfl, hr, hq⟩ | ⟨rfl, hr, hq⟩ | ⟨rfl, hr⟩ := rank_of_value? hx <;>
    obtain ⟨rfl, hr', hq'⟩ | ⟨rfl, hr', hq'⟩ | ⟨rfl, hr'⟩ := rank_of_value? hy <;>
    simp [*, Extended.ofRat_inj, (Extended.bot_lt_ofRat _).ne, (Extended.bot_lt_ofRat _).ne',
      (Extended.ofRat_lt_top _).ne, (Extended.ofRat_lt_top _).ne']

end Fp

/-! ## Predicates -/

/-- Both are numbers, and so related. -/
def Ordered (r : Extended → Extended → Prop) : Option Extended → Option Extended → Prop
  | some u, some v => r u v
  | _, _ => False

/-- One of both is no number, or they are so related. -/
def OrUnordered (r : Extended → Extended → Prop) : Option Extended → Option Extended → Prop
  | some u, some v => r u v
  | _, _ => True

section

variable (r : Extended → Extended → Prop) [DecidableRel r]

instance : (a b : Option Extended) → Decidable (Ordered r a b)
  | some u, some v => inferInstanceAs (Decidable (r u v))
  | none, _ => inferInstanceAs (Decidable False)
  | some _, none => inferInstanceAs (Decidable False)

instance : (a b : Option Extended) → Decidable (OrUnordered r a b)
  | some u, some v => inferInstanceAs (Decidable (r u v))
  | none, _ => inferInstanceAs (Decidable True)
  | some _, none => inferInstanceAs (Decidable True)

end

namespace FpPred

/-- What a predicate says of two exact values. -/
def Says : FpPred → Option Extended → Option Extended → Prop
  | .never => fun _ _ => False
  | .oeq => Ordered (· = ·)
  | .ogt => Ordered (· > ·)
  | .oge => Ordered (· ≥ ·)
  | .olt => Ordered (· < ·)
  | .ole => Ordered (· ≤ ·)
  | .one => Ordered (· ≠ ·)
  | .ord => Ordered fun _ _ => True
  | .ueq => OrUnordered (· = ·)
  | .ugt => OrUnordered (· > ·)
  | .uge => OrUnordered (· ≥ ·)
  | .ult => OrUnordered (· < ·)
  | .ule => OrUnordered (· ≤ ·)
  | .une => OrUnordered (· ≠ ·)
  | .uno => OrUnordered fun _ _ => False
  | .always => fun _ _ => True

instance (p : FpPred) (a b : Option Extended) : Decidable (p.Says a b) :=
  match p with
  | .never => inferInstanceAs (Decidable False)
  | .oeq => inferInstanceAs (Decidable (Ordered (· = ·) a b))
  | .ogt => inferInstanceAs (Decidable (Ordered (· > ·) a b))
  | .oge => inferInstanceAs (Decidable (Ordered (· ≥ ·) a b))
  | .olt => inferInstanceAs (Decidable (Ordered (· < ·) a b))
  | .ole => inferInstanceAs (Decidable (Ordered (· ≤ ·) a b))
  | .one => inferInstanceAs (Decidable (Ordered (· ≠ ·) a b))
  | .ord => inferInstanceAs (Decidable (Ordered (fun _ _ => True) a b))
  | .ueq => inferInstanceAs (Decidable (OrUnordered (· = ·) a b))
  | .ugt => inferInstanceAs (Decidable (OrUnordered (· > ·) a b))
  | .uge => inferInstanceAs (Decidable (OrUnordered (· ≥ ·) a b))
  | .ult => inferInstanceAs (Decidable (OrUnordered (· < ·) a b))
  | .ule => inferInstanceAs (Decidable (OrUnordered (· ≤ ·) a b))
  | .une => inferInstanceAs (Decidable (OrUnordered (· ≠ ·) a b))
  | .uno => inferInstanceAs (Decidable (OrUnordered (fun _ _ => False) a b))
  | .always => inferInstanceAs (Decidable True)

/-- The predicate that holds where another does not. -/
def opposite : FpPred → FpPred
  | .never => .always
  | .oeq => .une
  | .ogt => .ule
  | .oge => .ult
  | .olt => .uge
  | .ole => .ugt
  | .one => .ueq
  | .ord => .uno
  | .ueq => .one
  | .ugt => .ole
  | .uge => .olt
  | .ult => .oge
  | .ule => .ogt
  | .une => .oeq
  | .uno => .ord
  | .always => .never

/-- The predicate of the other direction. -/
def mirrored : FpPred → FpPred
  | .ogt => .olt
  | .oge => .ole
  | .olt => .ogt
  | .ole => .oge
  | .ugt => .ult
  | .uge => .ule
  | .ult => .ugt
  | .ule => .uge
  | p => p

variable {x y : Fp} {u v : Extended}

theorem says_opposite (p : FpPred) (a b : Option Extended) : p.opposite.Says a b ↔ ¬p.Says a b := by
  cases p <;> cases a <;> cases b <;> simp [opposite, Says, Ordered, OrUnordered]

theorem says_mirrored (p : FpPred) (a b : Option Extended) : p.mirrored.Says b a ↔ p.Says a b := by
  cases p <;> cases a <;> cases b <;> simp [mirrored, Says, Ordered, OrUnordered, eq_comm]

/-- Of two numbers a predicate says what it says of how they compare. -/
theorem holds_of_values (p : FpPred) {u v : Extended} {less equal : Bool} (hless : less = true ↔ u < v)
    (hequal : equal = true ↔ u = v) :
    p.holds false less equal = true ↔ p.Says (some u) (some v) := by
  rcases lt_trichotomy u v with h | h | h
  · obtain rfl : less = true := hless.mpr h
    obtain rfl : equal = false := Bool.eq_false_iff.mpr (mt hequal.mp h.ne)
    cases p <;> simp [holds, Says, Ordered, OrUnordered, h, h.le, h.ne, h.not_gt, h.not_ge]
  · obtain rfl : less = false := Bool.eq_false_iff.mpr (mt hless.mp h.not_lt)
    obtain rfl : equal = true := hequal.mpr h
    cases p <;> simp [holds, Says, Ordered, OrUnordered, h]
  · obtain rfl : less = false := Bool.eq_false_iff.mpr (mt hless.mp h.not_gt)
    obtain rfl : equal = false := Bool.eq_false_iff.mpr (mt hequal.mp h.ne')
    cases p <;> simp [holds, Says, Ordered, OrUnordered, h, h.le, h.ne', h.not_gt, h.not_ge]

/-- Where one is no number, how the two compare is not asked. -/
theorem holds_unordered (p : FpPred) (less equal : Bool) {a b : Option Extended}
    (h : a = none ∨ b = none) : p.holds true less equal = true ↔ p.Says a b := by
  rcases h with rfl | rfl
  · cases p <;> simp [holds, Says, Ordered, OrUnordered]
  · cases p <;> cases a <;> simp [holds, Says, Ordered, OrUnordered]

theorem compare_real_iff (p : FpPred) (x y : Fp) :
    p.compare (.real x) (.real y) = true ↔ p.Says x.value? y.value? := by
  show p.holds (x.isNan || y.isNan) _ _ = true ↔ _
  rw [Fp.isNan_of_value?, Fp.isNan_of_value?]
  cases hx : x.value? with
  | none => exact p.holds_unordered _ _ (.inl rfl)
  | some u =>
      cases hy : y.value? with
      | none => exact p.holds_unordered _ _ (.inr rfl)
      | some v => exact p.holds_of_values (Fp.lessThan_iff_values hx hy) (Fp.equals_iff_values hx hy)

/-- A comparison of two data answers what its predicate says of their exact values. -/
theorem apply_real (p : FpPred) (x y : Fp) :
    p.apply (.real x) (.real y) = .ok (.ofBool (decide (p.Says x.value? y.value?))) := by
  show (if x.isNan then Except.ok (Value.ofBool (p.holds true false false))
    else Except.ok (Value.ofBool (p.compare (.real x) (.real y)))) = _
  split
  · rename_i hnan
    rw [Fp.isNan_of_value?, Option.isNone_iff_eq_none] at hnan
    rw [Bool.eq_iff_iff.mpr ((p.holds_unordered false false (.inl hnan)).trans decide_eq_true_iff.symm)]
  · rw [Bool.eq_iff_iff.mpr ((p.compare_real_iff x y).trans decide_eq_true_iff.symm)]

/-- The answer to a predicate about two words, a word of one digit. -/
def answer (p : FpPred) (a b : BitVec 64) : BitVec 1 :=
  BitVec.ofBool (decide (p.Says (doubleValue? a) (doubleValue? b)))

end FpPred

/-! ## Steps -/

namespace Interpreted

open Machine

variable {p : Program} {f : Function} {env : Env} {i : Instr} {x y : Operand} {s t : Value}
  {m m₁ m₂ : Memory}

/-- What an instruction asks for that compares two values as floating point. -/
theorem perform_fcmp {pred : FpPred} (hop : i.op = .fcmp pred x y)
    (hx : (eval p f env x).on m = (.ok s, m₁)) (hy : (eval p f env y).on m₁ = (.ok t, m₂)) :
    (perform p f env i).on m = ((pred.apply s t).map .value, m₂) := by
  have hperform := perform_of_two (i := i) (by rw [hop]; rfl) (by rw [hop]; rfl) hx hy
  rwa [hop] at hperform

/-- **Comparisons of floating point.**  Let the operands of a comparison come to the data of two words of
double precision.  The step binds the comparison to one if its predicate holds of the exact values of
the two words, where those that hold only of numbers, those that hold besides where one is no number,
and those that tell numbers from what is none, are said by `FpPred.Says`; else to zero.  The opposite
predicate answers the opposite of any two words, and the predicate of the other direction answers the
same of the two words exchanged. -/
theorem step_in_order {pred : FpPred} {fr : Frame} {a b : BitVec 64}
    (hi : fr.current? = some i) (hop : i.op = .fcmp pred x y)
    (hx : (eval p fr.function fr.env x).on m = (.ok (.real (Format.double.decode a.toNat)), m₁))
    (hy : (eval p fr.function fr.env y).on m₁ = (.ok (.real (Format.double.decode b.toNat)), m₂)) :
    (∀ waiting, (step rules p fr waiting).on m =
      (.ok (.running (fr.advance i.id (.word (pred.answer a b))) waiting), m₂)) ∧
    (pred.answer a b = 1#1 ↔ pred.Says (doubleValue? a) (doubleValue? b)) ∧
    pred.opposite.answer a b = ~~~pred.answer a b ∧
    pred.mirrored.answer b a = pred.answer a b := by
  refine ⟨fun waiting => ?_, ?_, ?_, ?_⟩
  · have hperform := perform_fcmp hop hx hy
    rw [pred.apply_real, Fp.value?_decode, Fp.value?_decode] at hperform
    rw [FpPred.answer, ← IntPred.ofBool_eq_word]
    exact on_of_stepped (.bound hi hperform)
  · by_cases h : pred.Says (doubleValue? a) (doubleValue? b) <;> simp [FpPred.answer, h]
  · by_cases h : pred.Says (doubleValue? a) (doubleValue? b) <;>
      simp [FpPred.answer, FpPred.says_opposite, h]
  · rw [FpPred.answer, FpPred.answer, decide_eq_decide.mpr (pred.says_mirrored _ _)]

/-- A frame of a function that asks of two words of double precision whether they are numbers that differ. -/
def comparingReals (a b : BitVec 64) : Frame where
  function := { Function.declare "f" (.int 1) [.fp .double, .fp .double] false with
    blocks := #[⟨"e", [⟨2, .int 1, .fcmp .one (.local 0 (.fp .double)) (.local 1 (.fp .double))⟩]⟩] }
  env := [(0, .real (Format.double.decode a.toNat)), (1, .real (Format.double.decode b.toNat))]
  block := 0
  pc := 0
  pending := none

/-- The two zeros do not differ, and what is no number does not differ from itself; so the opposite
predicate holds of both. -/
theorem step_on_zeros :
    (step rules ⟨0, [], .empty "m"⟩ (comparingReals 0x8000000000000000#64 0#64) []).on .empty =
      (.ok (.running ((comparingReals 0x8000000000000000#64 0#64).advance 2 (.int 0)) []), .empty) ∧
    FpPred.ueq.answer 0x8000000000000000#64 0#64 = 1#1 ∧
    FpPred.ueq.answer 0x7ff0000000000001#64 0x7ff0000000000001#64 = 1#1 := by
  have hi (a b : BitVec 64) : (comparingReals a b).current? =
      some ⟨2, .int 1, .fcmp .one (.local 0 (.fp .double)) (.local 1 (.fp .double))⟩ := rfl
  have hstep (a b : BitVec 64) := step_in_order (p := ⟨0, [], .empty "m"⟩) (m := .empty) (a := a)
    (b := b) (hi a b) rfl rfl rfl
  have hzeros : FpPred.one.answer 0x8000000000000000#64 0#64 = 0#1 := by decide +kernel
  have hnans : FpPred.one.answer 0x7ff0000000000001#64 0x7ff0000000000001#64 = 0#1 := by
    decide +kernel
  obtain ⟨hbound, -, hopposite, -⟩ := hstep 0x8000000000000000#64 0#64
  obtain ⟨-, -, hopposite', -⟩ := hstep 0x7ff0000000000001#64 0x7ff0000000000001#64
  rw [hzeros] at hopposite
  rw [hnans] at hopposite'
  refine ⟨?_, hopposite, hopposite'⟩
  have hzero := hbound []
  rwa [hzeros] at hzero

end Interpreted

end Ssa

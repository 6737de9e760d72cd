/-
# `Ssa.Proofs.Exec.Widths` — comparisons and changes of width

A word is held as its unsigned reading, also where an instruction asks for the signed one.  So a
comparison has to go back to the reading that its predicate is about, at the width of its operands, and
a conversion has to read its operand at the one width and bring the result to the other.  With that done
right the two go together: what is widened is compared as before, and narrowing undoes widening.

**Proved here.**

    a predicate, by the order of the readings                       (`IntPred.apply_words`)
    a conversion keeps a reading, or the lowest digits              (`CastOp.between_words`)
    two conversions in a row are one if they are on bit vectors     (`CastOp.between_twice`)
    conversions after one another, comparisons and operations       (`widthsAgree`)
    steps at comparisons and conversions, for every width           (`Interpreted.steps_at_widths`)
-/
import Ssa.Proofs.Exec.Conversions
import Ssa.Proofs.Exec.Integers
import Ssa.Proofs.Exec.Store

namespace Ssa

/-! ## Words as values -/

/-- The value as which a word is held: its unsigned reading. -/
def Value.word {w : Nat} (a : BitVec w) : Value := .int (a.toNat : Int)

theorem Value.isWord_word {w : Nat} (a : BitVec w) : (Value.word a).IsWord w :=
  ⟨a.toNat, rfl, Int.natCast_nonneg _, by exact_mod_cast a.isLt⟩

@[simp] theorem Value.int?_word {w : Nat} (a : BitVec w) : (Value.word a).int? = some (a.toNat : Int) := rfl

namespace Word

variable {u v w : Nat}

/-- The lowest digits of an integer at a width are its digits at the smaller one. -/
theorem setWidth_ofInt (h : w ≤ v) (n : Int) : (BitVec.ofInt v n).setWidth w = BitVec.ofInt w n := by
  refine BitVec.eq_of_toNat_eq ?_
  have hpos : (0 : Int) < (2 ^ v : Nat) := by exact_mod_cast Nat.two_pow_pos v
  have hnonneg : 0 ≤ n % (2 ^ v : Nat) := Int.emod_nonneg _ hpos.ne'
  have hdvd : ((2 ^ w : Nat) : Int) ∣ (2 ^ v : Nat) := by exact_mod_cast Nat.pow_dvd_pow 2 h
  rw [BitVec.toNat_setWidth, BitVec.toNat_ofInt, BitVec.toNat_ofInt, ← Int.emod_emod_of_dvd n hdvd,
    Int.toNat_emod hnonneg (Int.natCast_nonneg _), Int.toNat_natCast]

theorem setWidth_sub (h : w ≤ v) (a b : BitVec v) :
    (a - b).setWidth w = a.setWidth w - b.setWidth w := by
  rw [BitVec.sub_eq_add_neg, BitVec.setWidth_add _ _ h, BitVec.setWidth_neg_of_le h,
    ← BitVec.sub_eq_add_neg]

theorem setWidth_signExtend (h : w ≤ v) (a : BitVec u) :
    (a.signExtend v).setWidth w = a.signExtend w :=
  setWidth_ofInt h a.toInt

theorem signExtend_signExtend (h : w ≤ v) (a : BitVec w) :
    (a.signExtend v).signExtend u = a.signExtend u := by
  rw [BitVec.signExtend, BitVec.toInt_signExtend_of_le h, BitVec.signExtend]

/-- The first digit of a word that was filled with zeros is zero, so its signed reading is the unsigned
one. -/
theorem toInt_setWidth (h : w < v) (a : BitVec w) : (a.setWidth v).toInt = a.toNat := by
  have hlt : 2 * a.toNat < 2 ^ v :=
    calc 2 * a.toNat < 2 * 2 ^ w := by have := a.isLt; omega
      _ = 2 ^ (w + 1) := by rw [Nat.pow_succ, Nat.mul_comm]
      _ ≤ 2 ^ v := Nat.pow_le_pow_right (by decide) h
  rw [BitVec.toInt_eq_toNat_of_lt (by rwa [BitVec.toNat_setWidth_of_le h.le]),
    BitVec.toNat_setWidth_of_le h.le]

theorem signExtend_setWidth (h : w < v) (a : BitVec w) :
    (a.setWidth v).signExtend u = a.setWidth u := by
  rw [BitVec.signExtend, toInt_setWidth h, BitVec.ofInt_natCast, BitVec.ofNat_toNat]

end Word

/-! ## Comparisons -/

namespace IntPred

variable {w : Nat} {x y : Value} {a b : BitVec w}

/-- What a predicate says of two words: that they are equal or not, or how their unsigned or their signed
readings are ordered. -/
def Orders : IntPred → BitVec w → BitVec w → Prop
  | .eq, a, b => a = b
  | .ne, a, b => a ≠ b
  | .ugt, a, b => b.toNat < a.toNat
  | .uge, a, b => b.toNat ≤ a.toNat
  | .ult, a, b => a.toNat < b.toNat
  | .ule, a, b => a.toNat ≤ b.toNat
  | .sgt, a, b => b.toInt < a.toInt
  | .sge, a, b => b.toInt ≤ a.toInt
  | .slt, a, b => a.toInt < b.toInt
  | .sle, a, b => a.toInt ≤ b.toInt

instance (p : IntPred) (a b : BitVec w) : Decidable (p.Orders a b) :=
  match p with
  | .eq => inferInstanceAs (Decidable (a = b))
  | .ne => inferInstanceAs (Decidable (a ≠ b))
  | .ugt => inferInstanceAs (Decidable (b.toNat < a.toNat))
  | .uge => inferInstanceAs (Decidable (b.toNat ≤ a.toNat))
  | .ult => inferInstanceAs (Decidable (a.toNat < b.toNat))
  | .ule => inferInstanceAs (Decidable (a.toNat ≤ b.toNat))
  | .sgt => inferInstanceAs (Decidable (b.toInt < a.toInt))
  | .sge => inferInstanceAs (Decidable (b.toInt ≤ a.toInt))
  | .slt => inferInstanceAs (Decidable (a.toInt < b.toInt))
  | .sle => inferInstanceAs (Decidable (a.toInt ≤ b.toInt))

/-- The answer to a predicate is a word of one digit. -/
def answerWord (p : IntPred) (a b : BitVec w) : BitVec 1 := BitVec.ofBool (decide (p.Orders a b))

/-- The predicate that says of unsigned readings what a predicate says of signed ones. -/
def unsigned : IntPred → IntPred
  | .sgt => .ugt
  | .sge => .uge
  | .slt => .ult
  | .sle => .ule
  | p => p

theorem ofBool_eq_word (c : Bool) : Value.ofBool c = .word (BitVec.ofBool c) := by cases c <;> rfl

/-- On the readings that it is about, a predicate says what it is to say. -/
theorem compare_words (hw : 0 < w) (p : IntPred) (a b : BitVec w) :
    p.compare w a.toNat b.toNat = .ok (decide (p.Orders a b)) := by
  have hreading (c : BitVec w) : IntOp.signedReading w (c.toNat : Int) = .ok c.toInt := by
    rw [IntOp.signedReading_of_ne hw.ne', Word.toSigned_toNat hw]
  have hcast (m n : Nat) : ((m : Int) < n ↔ m < n) ∧ ((m : Int) ≤ n ↔ m ≤ n) :=
    ⟨Int.ofNat_lt, Int.ofNat_le⟩
  unfold compare reading
  cases p with
  | eq =>
      refine congrArg Except.ok (decide_eq_decide.mpr ?_)
      rw [Int.ofNat_inj, ← BitVec.toNat_eq, Orders]
  | ne =>
      refine congrArg Except.ok (decide_eq_decide.mpr ?_)
      rw [Ne, Int.ofNat_inj, ← BitVec.toNat_eq, Orders]
  | ugt | ult => exact congrArg Except.ok (decide_eq_decide.mpr (hcast _ _).1)
  | uge | ule => exact congrArg Except.ok (decide_eq_decide.mpr (hcast _ _).2)
  | sgt | sge | slt | sle =>
      simp only [isSigned, if_true, hreading]
      rfl

/-- A comparison of two words of a width. -/
theorem apply_words (hw : 0 < w) (function : String) (p : IntPred) (onePlace : Bool)
    (hx : x.int? = some (a.toNat : Int)) (hy : y.int? = some (b.toNat : Int)) :
    p.apply function (.int w) onePlace x y = .ok (.word (p.answerWord a b)) := by
  unfold apply
  rw [hx, hy]
  dsimp only
  rw [compare_words hw, answerWord, ← ofBool_eq_word]
  rfl

/-! ### Comparisons of widened words -/

variable {v : Nat}

/-- Words that were filled with zeros are compared as their unsigned readings were. -/
theorem orders_setWidth (h : w < v) (p : IntPred) (a b : BitVec w) :
    p.Orders (a.setWidth v) (b.setWidth v) ↔ p.unsigned.Orders a b := by
  have heq : a.setWidth v = b.setWidth v ↔ a = b := by
    rw [BitVec.toNat_eq, BitVec.toNat_setWidth_of_le h.le, BitVec.toNat_setWidth_of_le h.le,
      ← BitVec.toNat_eq]
  cases p with
  | eq => exact heq
  | ne => exact not_congr heq
  | ugt | uge | ult | ule =>
      simp only [unsigned, Orders, BitVec.toNat_setWidth_of_le h.le]
  | sgt | sge | slt | sle =>
      simp only [unsigned, Orders, Word.toInt_setWidth h, Int.ofNat_lt, Int.ofNat_le]

/-- Filling with the sign keeps the order of the unsigned readings, too: what is added is the same for all
words that are negative, and they are the greater ones. -/
theorem toNat_signExtend_lt_iff (h : w < v) (a b : BitVec w) :
    (a.signExtend v).toNat < (b.signExtend v).toNat ↔ a.toNat < b.toNat := by
  have hpow : 2 ^ w ≤ 2 ^ v := Nat.pow_le_pow_right (by decide) h.le
  have ha := a.isLt
  have hb := b.isLt
  have hmsb (c : BitVec w) : c.msb = true ↔ 2 ^ (w - 1) ≤ c.toNat := by
    rw [BitVec.msb_eq_decide, decide_eq_true_iff]
  rw [BitVec.toNat_signExtend, BitVec.toNat_signExtend, BitVec.toNat_setWidth_of_le h.le,
    BitVec.toNat_setWidth_of_le h.le]
  split <;> rename_i hca <;> split <;> rename_i hcb <;> rw [hmsb] at hca hcb <;> omega

/-- Words that were filled with the sign are compared as they were. -/
theorem orders_signExtend (h : w < v) (p : IntPred) (a b : BitVec w) :
    p.Orders (a.signExtend v) (b.signExtend v) ↔ p.Orders a b := by
  have heq : a.signExtend v = b.signExtend v ↔ a = b := by
    rw [← BitVec.toInt_inj, BitVec.toInt_signExtend_of_le h.le, BitVec.toInt_signExtend_of_le h.le,
      BitVec.toInt_inj]
  cases p with
  | eq => exact heq
  | ne => exact not_congr heq
  | ult | ugt => exact toNat_signExtend_lt_iff h _ _
  | ule => exact not_lt.symm.trans ((not_congr (toNat_signExtend_lt_iff h b a)).trans not_lt)
  | uge => exact not_lt.symm.trans ((not_congr (toNat_signExtend_lt_iff h a b)).trans not_lt)
  | sgt | sge | slt | sle => simp only [Orders, BitVec.toInt_signExtend_of_le h.le]

end IntPred

/-! ## Conversions -/

namespace CastOp

variable {function : String} {u v w : Nat} {x : Value} {op : CastOp}

/-- The conversions that change the width of an integer. -/
def resizes : CastOp → Bool
  | .trunc | .zext | .sext => true
  | _ => false

/-- What such a conversion makes of a word: of a shorter one the lowest digits are left, and a longer one
is filled with the sign or with zeros. -/
def resize (op : CastOp) (v : Nat) (a : BitVec w) : BitVec v :=
  match op with
  | .sext => a.signExtend v
  | _ => a.setWidth v

/-- A conversion from integers of one width to those of another. -/
abbrev between (function : String) (op : CastOp) (w v : Nat) (x : Value) : Except Failure Value :=
  op.apply function (.int w) (.int v) x

theorem integer_of_int? {n : Int} (hx : x.int? = some n) : x.integer = .ok n := by
  rw [Value.integer, hx]

theorem between_words (hw : 0 < w) (function : String) (hop : op.resizes = true) (v : Nat) {a : BitVec w}
    (hx : x.int? = some (a.toNat : Int)) :
    between function op w v x = .ok (.word (op.resize v a)) := by
  cases op with
  | trunc | zext =>
      show (x.integer >>= fun n => Except.ok (Value.int (Word.wrap v n))) = _
      rw [integer_of_int? hx]
      show Except.ok (Value.int (Word.wrap v a.toNat)) = _
      rw [Word.wrap_eq_toNat, BitVec.ofInt_natCast, BitVec.ofNat_toNat]
      rfl
  | sext =>
      show ((x.integer >>= IntOp.signedReading w) >>= fun n =>
        Except.ok (Value.int (Word.wrap v n))) = _
      rw [integer_of_int? hx]
      show (IntOp.signedReading w a.toNat >>= fun n => Except.ok (Value.int (Word.wrap v n))) = _
      rw [IntOp.signedReading_of_ne hw.ne', Word.toSigned_toNat hw]
      show Except.ok (Value.int (Word.wrap v a.toInt)) = _
      rw [Word.wrap_eq_toNat]
      rfl
  | _ => cases hop

theorem between_word (hw : 0 < w) (function : String) (hop : op.resizes = true) (v : Nat) (a : BitVec w) :
    between function op w v (.word a) = .ok (.word (op.resize v a)) :=
  between_words hw function hop v (Value.int?_word a)

/-- Two conversions in a row are a third if they are on bit vectors. -/
theorem between_twice {op' op'' : CastOp} (hw : 0 < w) (hv : 0 < v) (function : String)
    (hop : op.resizes = true) (hop' : op'.resizes = true) (hop'' : op''.resizes = true) {a : BitVec w}
    (heq : op'.resize u (op.resize v a) = op''.resize u a) :
    between function op w v (.word a) >>= between function op' v u =
      between function op'' w u (.word a) := by
  rw [between_word hw function hop, between_word hw function hop'', ← heq]
  exact between_word hv function hop' u _

end CastOp

/-! ## How they go together -/

open CastOp (between)

/-- The operations on integers of which the lowest digits depend on the lowest digits only. -/
def IntOp.isRing : IntOp → Bool
  | .add | .sub | .mul | .and | .or | .xor => true
  | _ => false

/-- Convert two values, and go on with both. -/
def onBoth (convert : Value → Except Failure Value) (next : Value → Value → Except Failure Value)
    (x y : Value) : Except Failure Value := do
  let x ← convert x
  let y ← convert y
  next x y

theorem onBoth_of_ok {convert : Value → Except Failure Value} {next : Value → Value → Except Failure Value}
    {x x' y y' : Value} (hx : convert x = .ok x') (hy : convert y = .ok y') :
    onBoth convert next x y = next x' y' := by
  rw [onBoth, hx, hy]
  rfl

/-- Converted words are compared by one predicate as the words are by another, if their order is. -/
theorem IntPred.compare_converted {w v : Nat} (hw : 0 < w) (hv : 0 < v) (function : String) {op : CastOp}
    (hop : op.resizes = true) (p q : IntPred) (one one' : Bool) {a b : BitVec w}
    (horders : p.Orders (op.resize v a) (op.resize v b) ↔ q.Orders a b) :
    onBoth (between function op w v) (p.apply function (.int v) one) (.word a) (.word b) =
      q.apply function (.int w) one' (.word a) (.word b) := by
  have hcompare {u : Nat} (hu : 0 < u) (p : IntPred) (one : Bool) (a b : BitVec u) :
      p.apply function (.int u) one (.word a) (.word b) = .ok (.word (p.answerWord a b)) :=
    p.apply_words hu function one (Value.int?_word a) (Value.int?_word b)
  rw [onBoth_of_ok (CastOp.between_word hw function hop v a) (CastOp.between_word hw function hop v b),
    hcompare hw, hcompare hv, answerWord, answerWord, decide_eq_decide.mpr horders]

/-- How the conversions between a width and a greater one go together with each other, with comparisons
and with operations.  Each field is about words at the width of their values. -/
structure WidthsAgree (function : String) (w v : Nat) : Prop where
  zext (a : BitVec w) : ∃ b : BitVec v,
    between function .zext w v (.word a) = .ok (.word b) ∧ b.toNat = a.toNat
  sext (a : BitVec w) : ∃ b : BitVec v,
    between function .sext w v (.word a) = .ok (.word b) ∧ b.toInt = a.toInt
  trunc (a : BitVec v) : ∃ b : BitVec w,
    between function .trunc v w (.word a) = .ok (.word b) ∧ b.toNat = a.toNat % 2 ^ w
  comparedZext (p : IntPred) (one one' : Bool) (a b : BitVec w) :
    onBoth (between function .zext w v) (p.apply function (.int v) one) (.word a) (.word b) =
      p.unsigned.apply function (.int w) one' (.word a) (.word b)
  comparedSext (p : IntPred) (one one' : Bool) (a b : BitVec w) :
    onBoth (between function .sext w v) (p.apply function (.int v) one) (.word a) (.word b) =
      p.apply function (.int w) one' (.word a) (.word b)
  truncZext (a : BitVec w) :
    between function .zext w v (.word a) >>= between function .trunc v w = .ok (.word a)
  truncSext (a : BitVec w) :
    between function .sext w v (.word a) >>= between function .trunc v w = .ok (.word a)
  zextZext {u : Nat} (h : v < u) (a : BitVec w) :
    between function .zext w v (.word a) >>= between function .zext v u =
      between function .zext w u (.word a)
  sextZext {u : Nat} (h : v < u) (a : BitVec w) :
    between function .zext w v (.word a) >>= between function .sext v u =
      between function .zext w u (.word a)
  sextSext {u : Nat} (h : v < u) (a : BitVec w) :
    between function .sext w v (.word a) >>= between function .sext v u =
      between function .sext w u (.word a)
  truncTrunc {u : Nat} (h : v < u) (a : BitVec u) :
    between function .trunc u v (.word a) >>= between function .trunc v w =
      between function .trunc u w (.word a)
  truncWidened {op : CastOp} (hop : op = .zext ∨ op = .sext) {u : Nat} (h : u < v) (a : BitVec w) :
    between function op w v (.word a) >>= between function .trunc v u =
      between function (if w ≤ u then op else .trunc) w u (.word a)
  truncOp {op : IntOp} (hop : op.isRing = true) (a b : BitVec v) :
    (∃ c : BitVec v, op.apply function v (.word a) (.word b) = .ok (.word c)) ∧
    op.apply function v (.word a) (.word b) >>= between function .trunc v w =
      onBoth (between function .trunc v w) (op.apply function w) (.word a) (.word b)

theorem IntOp.apply_words {w : Nat} (hw : 0 < w) (function : String) {op : IntOp} (hop : op.isRing = true)
    (a b : BitVec w) : op.apply function w (.word a) (.word b) = .ok (.word (op.onWords a b)) := by
  have hresult : op.wordResult function a b = .ok (op.onWords a b) := by
    cases op <;> first | rfl | cases hop
  show (op.compute function w a.toNat b.toNat).map Value.int = _
  rw [IntOp.compute_words hw, hresult]
  rfl

theorem IntOp.setWidth_onWords {w v : Nat} (h : w ≤ v) {op : IntOp} (hop : op.isRing = true)
    (a b : BitVec v) :
    (op.onWords a b).setWidth w = op.onWords (a.setWidth w) (b.setWidth w) := by
  cases op with
  | add => exact BitVec.setWidth_add a b h
  | sub => exact Word.setWidth_sub h a b
  | mul => exact BitVec.setWidth_mul a b h
  | and => exact BitVec.setWidth_and
  | or => exact BitVec.setWidth_or
  | xor => exact BitVec.setWidth_xor
  | _ => cases hop

/-- Each law is one of bit vectors, once the conversions, comparisons and operations are those of words. -/
theorem widthsAgree {w v : Nat} (hw : 0 < w) (h : w < v) (function : String) :
    WidthsAgree function w v := by
  have hv : 0 < v := hw.trans h
  have hcast {u : Nat} (hu : 0 < u) (op : CastOp) (hop : op.resizes = true) (t : Nat) (a : BitVec u) :
      between function op u t (.word a) = .ok (.word (op.resize t a)) :=
    CastOp.between_word hu function hop t a
  constructor
  case zext => exact fun a => ⟨_, hcast hw .zext rfl v a, BitVec.toNat_setWidth_of_le h.le⟩
  case sext => exact fun a => ⟨_, hcast hw .sext rfl v a, BitVec.toInt_signExtend_of_le h.le⟩
  case trunc => exact fun a => ⟨_, hcast hv .trunc rfl w a, BitVec.toNat_setWidth w a⟩
  case comparedZext =>
    exact fun p one one' a b =>
      p.compare_converted hw hv function rfl _ one one' (p.orders_setWidth h a b)
  case comparedSext =>
    exact fun p one one' a b =>
      p.compare_converted hw hv function rfl _ one one' (p.orders_signExtend h a b)
  case truncZext =>
    intro a
    rw [hcast hw .zext rfl]
    refine (hcast hv .trunc rfl w _).trans (congrArg _ (congrArg _ ?_))
    exact (BitVec.setWidth_setWidth_of_le a h.le).trans (BitVec.setWidth_eq a)
  case truncSext =>
    intro a
    rw [hcast hw .sext rfl]
    refine (hcast hv .trunc rfl w _).trans (congrArg _ (congrArg _ ?_))
    exact (Word.setWidth_signExtend h.le a).trans (BitVec.signExtend_eq a)
  case zextZext =>
    intro u hu a
    refine CastOp.between_twice hw hv function rfl rfl rfl (BitVec.eq_of_toNat_eq ?_)
    show ((a.setWidth v).setWidth u).toNat = (a.setWidth u).toNat
    rw [BitVec.toNat_setWidth_of_le hu.le, BitVec.toNat_setWidth_of_le h.le,
      BitVec.toNat_setWidth_of_le (h.trans hu).le]
  case sextZext =>
    exact fun _ a => CastOp.between_twice hw hv function rfl rfl rfl (Word.signExtend_setWidth h a)
  case sextSext =>
    exact fun _ a => CastOp.between_twice hw hv function rfl rfl rfl (Word.signExtend_signExtend h.le a)
  case truncTrunc =>
    exact fun hu a => CastOp.between_twice (hv.trans hu) hv function rfl rfl rfl
      (BitVec.setWidth_setWidth_of_le a h.le)
  case truncWidened =>
    intro op hop u hu a
    have hsource : op.resizes = true := by rcases hop with rfl | rfl <;> rfl
    have htarget : (if w ≤ u then op else CastOp.trunc).resizes = true := by
      split
      · exact hsource
      · rfl
    refine CastOp.between_twice hw hv function hsource rfl htarget ?_
    show (op.resize v a).setWidth u = CastOp.resize _ u a
    rcases hop with rfl | rfl
    · refine (BitVec.setWidth_setWidth_of_le a hu.le).trans ?_
      split <;> rfl
    · refine (Word.setWidth_signExtend hu.le a).trans ?_
      split
      case isTrue => rfl
      case isFalse hle => exact BitVec.signExtend_eq_setWidth_of_le a (not_le.mp hle).le
  case truncOp =>
    intro op hop a b
    refine ⟨⟨_, IntOp.apply_words hv function hop a b⟩, ?_⟩
    rw [onBoth_of_ok (hcast hv .trunc rfl w a) (hcast hv .trunc rfl w b),
      IntOp.apply_words hw function hop, IntOp.apply_words hv function hop]
    refine (hcast hv .trunc rfl w _).trans (congrArg _ (congrArg _ ?_))
    exact IntOp.setWidth_onWords h.le hop a b

/-! ## Steps -/

namespace Interpreted

open Machine

variable {p : Program} {f : Function} {env : Env} {i : Instr} {x y : Operand} {s t : Value}
  {m m₁ m₂ : Memory}

/-- What an instruction asks for that compares two values. -/
theorem perform_icmp {pred : IntPred} (hop : i.op = .icmp pred x y)
    (hx : (eval p f env x).on m = (.ok s, m₁)) (hy : (eval p f env y).on m₁ = (.ok t, m₂)) :
    (perform p f env i).on m =
      ((pred.apply f.name x.type (x.isSameLocal y) s t).map .value, m₂) := by
  have hperform := perform_of_two (i := i) (by rw [hop]; rfl) (by rw [hop]; rfl) hx hy
  rwa [hop] at hperform

/-- **Comparisons and changes of width.**  Let a frame be at an instruction whose first operand comes to a
word `a`.  A conversion to another width binds it to the lowest digits of `a`, or to `a` filled with zeros
or with its sign; a comparison with a word `b` binds it to the order of the readings that the predicate is
about; and a sum, a difference, a product or an operation on digits to that of bit vectors.  What these
bind go together at every two widths, and all of them are words. -/
theorem steps_at_widths {w : Nat} (hw : 0 < w) {fr : Frame} {a : BitVec w} (waiting : List Frame)
    (hi : fr.current? = some i) (htype : x.type = .int w)
    (hx : (eval p fr.function fr.env x).on m = (.ok s, m₁)) (hs : s.int? = some (a.toNat : Int)) :
    (∀ (op : CastOp) (v : Nat), op.resizes = true → i.op = .cast op x → i.type = .int v →
      (step rules p fr waiting).on m =
        (.ok (.running (fr.advance i.id (.word (op.resize v a))) waiting), m₁)) ∧
    (∀ (y : Operand) (t : Value) (b : BitVec w) (m₂ : Memory),
      (eval p fr.function fr.env y).on m₁ = (.ok t, m₂) → t.int? = some (b.toNat : Int) →
      (∀ pred, i.op = .icmp pred x y → (step rules p fr waiting).on m =
        (.ok (.running (fr.advance i.id (.word (pred.answerWord a b))) waiting), m₂)) ∧
      (∀ op : IntOp, op.isRing = true → i.op = .int op x y → i.type = .int w →
        (step rules p fr waiting).on m =
          (.ok (.running (fr.advance i.id (.word (op.onWords a b))) waiting), m₂))) ∧
    (∀ v, w < v → ∀ function, WidthsAgree function w v) ∧
    ∀ (u : Nat) (c : BitVec u), (Value.word c).IsWord u := by
  refine ⟨fun op v hresizes hop htarget => ?_, fun y t b m₂ hy ht => ⟨fun pred hop => ?_,
    fun op hring hop hresult => ?_⟩, fun v h function => widthsAgree hw h function,
    fun u c => Value.isWord_word c⟩
  · have happly : op.apply fr.function.name (.int w) (.int v) s = .ok (.word (op.resize v a)) :=
      CastOp.between_words hw _ hresizes v hs
    have hperform := perform_cast hop hx
    rw [htype, htarget, happly] at hperform
    exact on_of_stepped (.bound hi hperform)
  · have hperform := perform_icmp hop hx hy
    rw [htype, pred.apply_words hw _ _ hs ht] at hperform
    exact on_of_stepped (.bound hi hperform)
  · have hperform := perform_int hw hop hresult hx hy hs ht
    have hword : op.wordResult fr.function.name a b = .ok (op.onWords a b) := by
      cases op <;> first | rfl | cases hring
    rw [hword] at hperform
    exact on_of_stepped (.bound hi hperform)

/-- A frame of a function that compares an integer of eight digits with another, with sign. -/
def comparing : Frame where
  function := { Function.declare "f" (.int 1) [.int 8, .int 8] false with
    blocks := #[⟨"e", [⟨2, .int 1, .icmp .slt (.local 0 (.int 8)) (.local 1 (.int 8))⟩]⟩] }
  env := [(0, .int 255), (1, .int 0)]
  block := 0
  pc := 0
  pending := none

/-- Minus one is less than zero, and stays so where it is widened with its sign. -/
theorem step_on_minus_one :
    (step rules ⟨0, [], .empty "m"⟩ comparing []).on .empty =
      (.ok (.running (comparing.advance 2 (.int 1)) []), .empty) ∧
    WidthsAgree "f" 8 65 := by
  have hi : comparing.current? =
      some ⟨2, .int 1, .icmp .slt (.local 0 (.int 8)) (.local 1 (.int 8))⟩ := rfl
  have hx : (eval ⟨0, [], .empty "m"⟩ comparing.function comparing.env (.local 0 (.int 8))).on .empty =
      (.ok (.int 255), .empty) := rfl
  obtain ⟨-, hcompared, hagree, -⟩ :=
    steps_at_widths (w := 8) (a := 255#8) (by decide) [] hi rfl hx rfl
  exact ⟨(hcompared (.local 1 (.int 8)) (.int 0) 0#8 .empty rfl rfl).1 .slt rfl,
    hagree 65 (by decide) "f"⟩

end Interpreted

end Ssa

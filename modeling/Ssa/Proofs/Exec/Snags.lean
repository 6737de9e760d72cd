/-
# `Ssa.Proofs.Exec.Snags` — operations that have neither a result nor a listed failure

The interpreter computes with the scalar types.  A vector it keeps as one value, null at first, and
passes on to operations that expect a number or a width; and for a few numbers the functions that it
builds on have no answer.  `OpOver.snags` lists the operations and values of which this is so: for
operations on integers whatever the values are, for the others given that the values fit the types of
the operands.

A value that does not fit its type can be come by: loading, and the entry of a phi, pass a value on as
it is.  Division of signed integers looks for a zero before it takes the readings, so that an integer
beyond the width is not found to be zero by the one and is zero by the other.

| operation | where |
| :-- | :-- |
| division of signed integers | the divisor is not zero, but a multiple of the number of words |
| shifts | the amount is below zero |
| arithmetic of integers | an operand is no integer, unless a division by zero or a shift by too much |
| arithmetic of floating point | an operand is no number; the remainder of an infinity |
| order of signed integers | of pointers that are integers, or of vectors |
| order of floating point | an operand has no double |
| to integers | the result is a vector |
| from integers | the number has no double, or a signed one is a vector |
| digits as an integer | the datum is finite and beyond the precision |

**Proved here.**

    on integers, on any values: a failure escapes  ⟺  it is listed        (`int_escaping`)
    typed, on values that fit: a failure escapes  ⟺  it is listed         (`result_escaping`)
-/
import Ssa.Proofs.Exec.Endings
import Ssa.Proofs.Exec.Escapes
import Ssa.Proofs.Exec.Progress

namespace Ssa

/-! ## The list -/

namespace Value

/-- Whether a value is a number. -/
def isNumber (v : Value) : Bool := v.number?.isSome

/-- Whether a value is a zero. -/
def isZero (v : Value) : Bool := v.number?.any Number.isZero

/-- Whether a value is a datum that is no number. -/
def isNan (v : Value) : Bool := v.number?.any Number.isNan

/-- Whether a value is an infinity. -/
def isInfinite : Value → Bool
  | .real x => x.isInfinite
  | _ => false

/-- Whether a value is finite, but beyond the range of a precision. -/
def isBeyond (p : Precision) (v : Value) : Bool :=
  v.double?.any fun x => x.isFinite && (p.format.convert x).isInfinite

/-- Whether a value is a number that is not below a width. -/
def isOver (w : Nat) (v : Value) : Bool := v.number?.any fun n => !n.lessThan (.int w)

end Value

/-- The integers other than zero by which an operation cannot divide, which are the multiples of the
number of words, or shift, which are those below zero. -/
def IntOp.rejects (op : IntOp) (w : Nat) (b : Int) : Bool :=
  match op with
  | .sdiv | .srem => b ≠ 0 && Word.wrap w b = 0
  | .shl | .lshr | .ashr => b < 0
  | _ => false

/-- The values for which an operation on integers has no result.  A division by zero is reported, and a
shift by too much gives zero, whatever the other value is. -/
def IntOp.snags (t : Ty) (op : IntOp) (x y : Value) : Bool :=
  match t, x.int?, y.int? with
  | .int w, some _, some b => op.rejects w b
  | .int w, _, _ => !(op.divides && y.isZero) && !(op.shifts && y.isOver w)
  | _, _, _ => false

/-- The values for which an operation on floating point has no result.  The remainder by a zero is
no number, whatever is divided. -/
def FpOp.snags (op : FpOp) (x y : Value) : Bool :=
  !(op = .frem && y.isZero) &&
    (!x.isNumber || !y.isNumber || (op = .frem && x.isInfinite && !y.isNan))

/-- The values whose digits cannot be had as an integer. -/
def CastOp.noDigits (source target : Ty) (x : Value) : Bool :=
  match source, target with
  | .fp .single, .int 32 => x.isBeyond .single
  | .fp .double, .int 64 => x.isBeyond .double
  | _, _ => false

/-- The values for which a conversion has no result. -/
def CastOp.snags (source target : Ty) (x : Value) : CastOp → Bool
  | .trunc | .zext | .sext => !target.isInt
  | .fptoui | .fptosi => !target.isInt && !(x.isNan || x.isInfinite)
  | .uitofp => x.double?.isNone
  | .sitofp => match source, x with
    | .int w, .int n => !(Constant.doubleOfInt (Word.toSigned w n)).isOk
    | _, _ => true
  | .bitcast => noDigits source target x
  | _ => false

/-- The values of the operands for which an operation has no result, and no failure of execution
either. -/
def OpOver.snags (t : Ty) : Op → List Value → Bool
  | .int op _ _, [x, y] => op.snags t x y
  | .fp op _ _, [x, y] => op.snags x y
  | .fneg _, [x] => !x.isNumber
  | .icmp p a _, [x, y] => p.isSigned && !a.type.isInt && x.int?.isSome && y.int?.isSome
  | .fcmp _ _ _, [x, y] => x.double?.isNone || !x.isNan && y.double?.isNone
  | .cast op a, [x] => op.snags a.type t x
  | _, _ => false

/-! ## Outcomes that escape -/

/-- Whether an outcome is a failure that escapes. -/
def Effect.escaping {α : Type} : Except Failure α → Bool
  | .ok _ => false
  | .error e => e.escapes

namespace Effect

variable {α β : Type} {x : Except Failure α}

@[simp] theorem escaping_ok (a : α) : escaping (.ok a) = false := rfl

@[simp] theorem escaping_pure (a : α) : escaping (pure a : Except Failure α) = false := rfl

@[simp] theorem escaping_error (e : Failure) :
    escaping (.error e : Except Failure α) = e.escapes := rfl

theorem escaping_iff : escaping x = true ↔ ∃ e, x = .error e ∧ e.escapes = true := by
  cases x with
  | ok a => simp
  | error e => simp

/-- Where what follows does not fail, an outcome escapes if its first part does. -/
theorem escaping_bind {f : α → Except Failure β} (h : ∀ a, x = .ok a → escaping (f a) = false) :
    escaping (x >>= f) = escaping x := by
  cases x with
  | ok a => exact h a rfl
  | error e => rfl

end Effect

namespace Interpreted

open Effect (escaping escaping_bind)

variable {R : Regime} {s : Storage} {t u : Ty} {x y : Value}

/-! ## Floating point -/

/-- A datum can be brought to a type of floating point, and to a vector of them. -/
theorem normalize_real (ht : t.isFpLike = true) (z : Fp) :
    ∃ v, (Value.real z).normalize t = .ok v := by
  cases t with
  | fp p => cases p <;> exact ⟨_, rfl⟩
  | vector n e => exact ⟨_, rfl⟩
  | _ => cases ht

/-- What fits a type of floating point, or a vector of them, is a datum, or nothing yet. -/
theorem real_of_fits (htracked : R.tracked) (ht : t.isFpLike = true) (hx : R.Fits s t x) :
    x = .null ∨ ∃ a, x = .real a := by
  cases t with
  | fp p => exact .inr hx
  | vector n e =>
      cases e with
      | fp p => exact hx htracked
      | _ => cases ht
  | _ => cases ht

theorem exact_escaping (op : FpOp) (a b : Fp) :
    escaping (op.exact (.real a) (.real b)) = (op = .frem && a.isInfinite && !b.isNan) := by
  cases op with
  | fadd | fsub | fmul => rfl
  | fdiv =>
      show escaping (FpOp.quotient _ _) = false
      unfold FpOp.quotient FpOp.quotientByZero
      split
      · split
        · rfl
        · show escaping (if a.isNan then _ else _) = false
          split <;> rfl
      · rfl
  | frem =>
      show escaping (if a.isInfinite && !b.isNan then _ else _) = (a.isInfinite && !b.isNan)
      cases a.isInfinite && !b.isNan <;> rfl

theorem fp_escaping (op : FpOp) (htracked : R.tracked) (ht : t.isFpLike = true)
    (hx : R.Fits s t x) (hy : R.Fits s t y) :
    escaping (op.apply x y >>= Value.normalize t) = op.snags x y := by
  have hx := real_of_fits htracked ht hx
  have hy := real_of_fits htracked ht hy
  rw [escaping_bind fun v hv => ?_]
  · unfold FpOp.apply FpOp.snags
    rw [Value.isZero]
    split
    · rename_i hzero
      rw [hzero]
      rfl
    · rename_i hzero
      rw [Bool.eq_false_of_not_eq_true hzero, onTexts?_eq_none op hx hy]
      rcases hx with rfl | ⟨a, rfl⟩
      · rfl
      · rcases hy with rfl | ⟨b, rfl⟩
        · rfl
        · show escaping (op.exact (.real a) (.real b) >>= fun n => .ok n.toValue) = _
          rw [escaping_bind fun _ _ => rfl, exact_escaping]
          rfl
  · obtain ⟨z, rfl⟩ := apply_real hx hy hv
    obtain ⟨v, hv⟩ := normalize_real ht z
    rw [hv]
    rfl

theorem fneg_escaping (htracked : R.tracked) (ht : t.isFpLike = true) (hx : R.Fits s t x) :
    escaping (x.negate >>= Value.normalize t) = !x.isNumber := by
  rcases real_of_fits htracked ht hx with rfl | ⟨a, rfl⟩
  · rfl
  · obtain ⟨v, hv⟩ := normalize_real ht a.neg
    show escaping ((Value.real a.neg).normalize t) = false
    rw [hv]
    rfl

theorem doubleOfInt_escaping (n : Int) :
    escaping (Constant.doubleOfInt n) = !(Constant.doubleOfInt n).isOk := by
  unfold Constant.doubleOfInt
  split <;> rfl

/-- Where a number with a double is needed, it is given, or there is none. -/
theorem realNumber_cases (v : Value) :
    (v.double?.isNone = true ∧ ∃ e, v.realNumber = .error e ∧ e.escapes = true) ∨
      v.double?.isNone = false ∧ ∃ n, v.number? = some n ∧ v.realNumber = .ok n := by
  unfold Value.realNumber Value.number Value.double?
  cases v.number? with
  | none => exact .inl ⟨rfl, _, rfl, rfl⟩
  | some n =>
      cases n with
      | real x => exact .inr ⟨rfl, _, rfl, rfl⟩
      | int k =>
          have hescaping := doubleOfInt_escaping k
          have hneeded : (do
              let n ← Except.ok (.int k)
              discard n.toFp
              pure n : Except Failure Number) =
              discard (Constant.doubleOfInt k) >>= fun _ => pure (.int k) := rfl
          rw [hneeded, Option.bind_some, show (Number.int k).toFp = Constant.doubleOfInt k from rfl]
          cases hd : Constant.doubleOfInt k with
          | ok x => exact .inr ⟨rfl, _, rfl, rfl⟩
          | error e =>
              rw [hd] at hescaping
              exact .inl ⟨rfl, e, rfl, hescaping⟩

theorem fcmp_escaping (p : FpPred) (x y : Value) :
    escaping (p.apply x y) = (x.double?.isNone || !x.isNan && y.double?.isNone) := by
  unfold FpPred.apply
  rcases realNumber_cases x with ⟨hx, e, he, hescapes⟩ | ⟨hx, n, hn, hx'⟩
  · rw [he, hx]
    exact hescapes
  · rw [hx', hx, Value.isNan, hn]
    show escaping (if n.isNan then _ else _) = (!n.isNan && y.double?.isNone)
    cases n.isNan with
    | true => rfl
    | false =>
        rcases realNumber_cases y with ⟨hy, e, he, hescapes⟩ | ⟨hy, k, -, hy'⟩
        · rw [he, hy]
          exact hescapes
        · rw [hy', hy]
          rfl

/-! ## Integers -/

section

variable {w : Nat}

theorem divideSigned_escaping (w : Nat) (divide : Int → Int → Int) (a b : Int) :
    escaping (IntOp.divideSigned w divide a b) = decide (Word.wrap w b = 0) := by
  by_cases hw : w = 0
  · -- without a width there is no reading to divide by, and every integer is a multiple of one
    subst hw
    rw [decide_eq_true (show Word.wrap 0 b = 0 from Int.emod_one b)]
    rfl
  · rw [IntOp.divideSigned_of_ne hw]
    by_cases h : Word.wrap w b = 0
    · rw [if_pos ((Word.toSigned_eq_zero_iff w b).mpr h), decide_eq_true h]
      rfl
    · rw [if_neg (mt (Word.toSigned_eq_zero_iff w b).mp h), decide_eq_false h]
      rfl

theorem shift_escaping (b : Int) {result : Nat → Except Failure Int}
    (h : ∀ n, w ≠ 0 → escaping (result n) = false) :
    escaping (IntOp.shift w b result) = decide (b < 0) := by
  unfold IntOp.shift Word.shiftAmount
  by_cases hlt : b < w
  · rw [if_pos hlt]
    show escaping (if b < 0 then _ else _) = _
    by_cases hb : b < 0
    · rw [if_pos hb, decide_eq_true hb]
      rfl
    · rw [if_neg hb, decide_eq_false hb]
      exact h _ (by omega)
  · rw [if_neg hlt, decide_eq_false (by omega)]
    rfl

/-- On two integers. -/
theorem integers_escaping (function : String) (op : IntOp) (w : Nat) (a b : Int) :
    escaping (op.exact function w a b) = op.rejects w b := by
  unfold IntOp.exact
  by_cases hzero : (op.divides && b == 0) = true
  · rw [if_pos hzero]
    obtain ⟨hop, rfl⟩ : op.divides = true ∧ b = 0 := by simpa using hzero
    cases op <;> rfl
  · rw [if_neg hzero]
    cases op with
    | sdiv | srem =>
        have hb : b ≠ 0 := by simpa [IntOp.divides] using hzero
        rw [IntOp.rejects, decide_eq_true hb]
        exact divideSigned_escaping w _ a b
    | shl | lshr => exact shift_escaping b fun _ _ => rfl
    | ashr =>
        refine shift_escaping b fun n hw => ?_
        rw [IntOp.signedReading_of_ne hw]
        rfl
    | _ => rfl

/-- On two values of which one is no integer. -/
theorem misapplied_escaping (function : String) (op : IntOp) (w : Nat) (x y : Value) :
    escaping (op.misapplied function w x y) =
      (!(op.divides && y.isZero) && !(op.shifts && y.isOver w)) := by
  have hprepared : escaping (op.prepare w x y >>= fun _ =>
      (.error .typeMismatch : Except Failure Value)) = true := by
    cases h : op.prepare w x y with
    | ok u => rfl
    | error e => exact op.prepare_failsBy (S := Failure.escapes) rfl rfl rfl w x y e h
  show escaping (if (op.divides && y.isZero) = true then _ else
    if (op.shifts && y.isOver w) = true then _ else _) = _
  cases op.divides && y.isZero with
  | true => rfl
  | false =>
      cases op.shifts && y.isOver w with
      | true => rfl
      | false => exact hprepared

/-- Whatever the values are, a failure of an operation on integers escapes just if it is listed. -/
theorem int_escaping (f : Function) (op : IntOp) (t : Ty) (x y : Value) :
    escaping (integerOp f op t x y) = op.snags t x y := by
  cases t with
  | int w =>
      show escaping (op.apply f.name w x y) = _
      unfold IntOp.apply IntOp.snags
      cases x.int? with
      | none => exact misapplied_escaping f.name op w x y
      | some a =>
          cases y.int? with
          | none => exact misapplied_escaping f.name op w x y
          | some b =>
              show escaping ((op.compute f.name w a b).map Value.int) = op.rejects w b
              rw [← integers_escaping f.name op w a b, IntOp.compute]
              cases op.exact f.name w a b <;> rfl
  | _ => rfl

end

/-- Only where both values are integers, of a type that has no width, an order with sign has no
result. -/
theorem icmp_escaping (function : String) (p : IntPred) (same : Bool) (hu : u ≠ .int 0) :
    escaping (p.apply function u same x y) =
      (p.isSigned && !u.isInt && x.int?.isSome && y.int?.isSome) := by
  unfold IntPred.apply
  split
  · rename_i a b ha hb
    rw [ha, hb]
    cases u with
    | int w =>
        have hw : w ≠ 0 := fun h0 => hu (h0 ▸ rfl)
        show escaping ((p.compare w a b).map Value.ofBool) = (p.isSigned && false && true && true)
        unfold IntPred.compare IntPred.reading
        rw [IntOp.signedReading_of_ne hw, IntOp.signedReading_of_ne hw]
        cases p.isSigned <;> rfl
    | _ => cases p <;> rfl
  · rename_i hnot
    have hright : (x.int?.isSome && y.int?.isSome) = false := by
      cases hx : x.int? with
      | none => rfl
      | some a =>
          cases hy : y.int? with
          | none => rfl
          | some b => exact absurd hy (hnot a b hx)
    rw [Bool.and_assoc, hright, Bool.and_false]
    cases p <;> rfl

/-! ## Conversions -/

/-- What fits a type of integers, or a vector of them, is an integer, or nothing yet. -/
theorem int_of_fits (htracked : R.tracked) (ht : t.isIntLike = true) (hx : R.Fits s t x) :
    x = .null ∨ ∃ n, x = .int n := by
  cases t with
  | int w =>
      obtain ⟨n, rfl, -⟩ := hx
      exact .inr ⟨n, rfl⟩
  | vector k e =>
      cases e with
      | int w =>
          rcases (show x = .null ∨ x = .int 0 ∨ x = .int 1 from hx htracked) with h | h | h
          · exact .inl h
          · exact .inr ⟨0, h⟩
          · exact .inr ⟨1, h⟩
      | _ => cases ht
  | _ => cases ht

theorem integerPart_escaping (htracked : R.tracked) (hus : u.isFpLike = true)
    (hx : R.Fits s u x) (ht : t.isInt = false) :
    escaping (CastOp.integerPart t x) = !(x.isNan || x.isInfinite) := by
  have hwidth : t.width = .error .lacksAttribute := by
    cases t with
    | int w => cases ht
    | _ => rfl
  rcases real_of_fits htracked hus hx with rfl | ⟨a, rfl⟩
  · rfl
  · show escaping (if a.isFinite then _ else _) = !(a.isNan || a.isInfinite)
    cases a with
    | nan | infinity => rfl
    | zero | finite => simp only [Fp.isFinite, ↓reduceIte, hwidth]; rfl

theorem reinterpret_escaping (function : String) (hx : R.Fits s u x) :
    escaping (CastOp.reinterpret function u t x) = CastOp.noDigits u t x := by
  have hdatum {p : Precision} {a : Fp} :
      escaping (CastOp.fpToWord p (.real a)) = (Value.real a).isBeyond p := by
    show escaping (CastOp.datum p (.real a) >>= _) = (a.isFinite && (p.format.convert a).isInfinite)
    rw [escaping_bind fun _ _ => rfl]
    show escaping (if a.isFinite && (p.format.convert a).isInfinite then _ else _) = _
    cases a.isFinite && (p.format.convert a).isInfinite <;> rfl
  have hdigits {p : Precision} {n : Int} (h0 : 0 ≤ n) (hn : n < Word.count p.width) :
      escaping (CastOp.wordToFp p (.int n)) = false := by
    have : CastOp.digits p.width (.int n) = .ok n.toNat := by
      simp [CastOp.digits, Value.int?, h0, hn]
    unfold CastOp.wordToFp
    rw [this]
    rfl
  unfold CastOp.reinterpret CastOp.noDigits
  split
  · rfl
  · rfl
  · obtain ⟨n, rfl, h0, hn⟩ := hx
    exact hdigits (p := .single) h0 hn
  · obtain ⟨n, rfl, h0, hn⟩ := hx
    exact hdigits (p := .double) h0 hn
  · obtain ⟨a, rfl⟩ := hx
    exact hdatum
  · obtain ⟨a, rfl⟩ := hx
    exact hdatum
  · split
    · simp_all
    · simp_all
    · rfl

theorem cast_escaping (function : String) (op : CastOp) (htracked : R.tracked)
    (hc : Ty.canConvert op u t = true) (hu : u ≠ .int 0) (hx : R.Fits s u x) :
    escaping (op.apply function u t x) = op.snags u t x := by
  by_cases hop : op = .bitcast
  · subst hop
    exact reinterpret_escaping function hx
  obtain ⟨_, _, hgoes, hus, hts, hl⟩ := Ty.of_canConvert hc hop
  cases hgoes with
  | trunc | zext =>
      rcases Ty.of_lanes_eq hus hts hl with ⟨rfl, rfl⟩ | ⟨n, rfl, rfl⟩
      · obtain ⟨a, rfl, -⟩ := hx
        rfl
      · rfl
  | @sext v =>
      rcases Ty.of_lanes_eq hus hts hl with ⟨rfl, rfl⟩ | ⟨n, rfl, rfl⟩
      · obtain ⟨a, rfl, -⟩ := hx
        show escaping (IntOp.signedReading v a >>= _) = false
        rw [IntOp.signedReading_of_ne fun h0 => hu (h0 ▸ rfl)]
        rfl
      · rfl
  | @fptrunc p q | @fpext p q =>
      rcases Ty.of_lanes_eq hus hts hl with ⟨rfl, rfl⟩ | ⟨n, rfl, rfl⟩
      · obtain ⟨a, rfl⟩ := hx
        cases q <;> rfl
      · rfl
  | fptoui | fptosi =>
      rcases Ty.of_lanes_eq hus hts hl with ⟨rfl, rfl⟩ | ⟨n, rfl, rfl⟩
      · obtain ⟨a, rfl⟩ := hx
        cases a <;> rfl
      · exact integerPart_escaping htracked rfl hx rfl
  | uitofp =>
      have hfp : t.isFpLike = true := by rw [Ty.isFpLike, hts]; rfl
      show escaping (x.toFp >>= fun a => (Value.real a).normalize t) = x.double?.isNone
      rw [escaping_bind fun a _ => ?_]
      · rcases int_of_fits htracked (by rw [Ty.isIntLike, hus]; rfl) hx with rfl | ⟨n, rfl⟩
        · rfl
        · show escaping (Constant.doubleOfInt n) = (Constant.doubleOfInt n).toOption.isNone
          rw [doubleOfInt_escaping]
          cases Constant.doubleOfInt n <;> rfl
      · obtain ⟨v, hv⟩ := normalize_real hfp a
        rw [hv]
        rfl
  | @sitofp v =>
      have hfp : t.isFpLike = true := by rw [Ty.isFpLike, hts]; rfl
      rcases Ty.of_lanes_eq hus hts hl with ⟨rfl, rfl⟩ | ⟨n, rfl, rfl⟩
      · obtain ⟨a, rfl, -⟩ := hx
        show escaping (IntOp.signedReading v a >>= fun k => Constant.doubleOfInt k >>= fun b =>
          (Value.real b).normalize _) = !(Constant.doubleOfInt (Word.toSigned v a)).isOk
        rw [IntOp.signedReading_of_ne fun h0 => hu (h0 ▸ rfl)]
        show escaping (Constant.doubleOfInt (Word.toSigned v a) >>= _) = _
        rw [escaping_bind fun b _ => ?_, doubleOfInt_escaping]
        obtain ⟨w, hw⟩ := normalize_real hfp b
        rw [hw]
        rfl
      · rfl
  | ptrtoint | inttoptr =>
      show escaping (CastOp.address function _ t x) = false
      unfold CastOp.address
      split
      · split <;> rfl
      · rfl
  | addrspacecast => rfl

/-! ## All of them -/

/-- What a typed operation comes to, on values that fit the types of its operands, escapes just if
it is listed. -/
theorem result_escaping {m : Module} {f : Function} {i : Instr} {vs : List Value}
    (htracked : R.tracked) (hi : i.IsTyped m f) (hc : i.op.isComputed = true)
    (hvs : List.Forall₂ (fun o v => R.Fits s (Operand.type o) v) i.op.operands vs) :
    escaping (result f i.type i.op vs) = i.op.snags i.type vs := by
  have hrule := hi.rule
  obtain ⟨id, t, op⟩ := i
  cases op with
  | int op a b =>
      rcases hvs with _ | ⟨-, _ | ⟨-, _ | _⟩⟩
      exact int_escaping f op t _ _
  | fp op a b =>
      obtain ⟨rfl, hb, hfp⟩ : a.type = t ∧ b.type = t ∧ _ := hrule
      rcases hvs with _ | ⟨hx, _ | ⟨hy, _ | _⟩⟩
      exact fp_escaping op htracked hfp hx (hb ▸ hy)
  | fneg a =>
      obtain ⟨rfl, hfp⟩ : a.type = t ∧ _ := hrule
      rcases hvs with _ | ⟨hx, _ | _⟩
      exact fneg_escaping htracked hfp hx
  | icmp p a b =>
      obtain ⟨-, -, hw⟩ : t = a.type.truth ∧ _ := hrule
      rcases hvs with _ | ⟨-, _ | ⟨-, _ | _⟩⟩
      exact icmp_escaping f.name p _ hw
  | fcmp p a b =>
      rcases hvs with _ | ⟨-, _ | ⟨-, _ | _⟩⟩
      exact fcmp_escaping p _ _
  | cast op a =>
      obtain ⟨hc, hw⟩ : Ty.canConvert op a.type t = true ∧ _ := hrule
      rcases hvs with _ | ⟨hx, _ | _⟩
      exact cast_escaping f.name op htracked hc hw hx
  | _ => cases hc

end Interpreted

end Ssa

/-
# `Ssa.Exec.Arith` — arithmetic on values

Operations on integers are defined on the unsigned readings at a width; operations on floating
point on exact data, before their result is brought to its type.  Applied to values that are no
integers or no numbers, an operation reports a mistake, save where its result does not hang on the
value in question, and save that texts can be added and multiplied where floating point is meant.
-/
import Ssa.Exec.Value
import Ssa.Program.Instr

namespace Ssa

/-! ## Integers -/

namespace IntOp

/-- Whether an operation divides. -/
def divides : IntOp → Bool
  | .udiv | .sdiv | .urem | .srem => true
  | _ => false

/-- Whether an operation shifts. -/
def shifts : IntOp → Bool
  | .shl | .lshr | .ashr => true
  | _ => false

/-- The signed reading at a width that may be zero. -/
def signedReading (w : Nat) (a : Int) : Except Failure Int :=
  if w = 0 then .error .negativeShift else .ok (Word.toSigned w a)

theorem signedReading_of_ne {w : Nat} (hw : w ≠ 0) (a : Int) :
    signedReading w a = .ok (Word.toSigned w a) := if_neg hw

/-- Shift by an amount below the width; greater amounts give zero. -/
def shift (w : Nat) (b : Int) (result : Nat → Except Failure Int) : Except Failure Int :=
  match Word.shiftAmount b w with
  | none => .ok 0
  | some n => if n < 0 then .error .negativeShift else result n.toNat

/-- Divide the signed readings of two integers.  The reading of an integer other than zero may be
zero, by which nothing can be divided. -/
def divideSigned (w : Nat) (divide : Int → Int → Int) (a b : Int) : Except Failure Int := do
  let x ← signedReading w a
  let y ← signedReading w b
  if y = 0 then throw .zeroDivision else pure (divide x y)

theorem divideSigned_of_ne {w : Nat} (hw : w ≠ 0) (divide : Int → Int → Int) (a b : Int) :
    divideSigned w divide a b =
      if Word.toSigned w b = 0 then .error .zeroDivision
      else .ok (divide (Word.toSigned w a) (Word.toSigned w b)) := by
  rw [divideSigned, signedReading_of_ne hw, signedReading_of_ne hw]
  rfl

/-- The result of an operation on two integers, before it is wrapped to the width. -/
def exact (function : String) (op : IntOp) (w : Nat) (a b : Int) : Except Failure Int :=
  if op.divides && b == 0 then .error (.divisionByZero function)
  else match op with
    | .add => .ok (a + b)
    | .sub => .ok (a - b)
    | .mul => .ok (a * b)
    | .and => .ok (Word.and w a b)
    | .or => .ok (Word.or w a b)
    | .xor => .ok (Word.xor w a b)
    | .udiv => .ok (a.fdiv b)
    | .urem => .ok (a.fmod b)
    | .sdiv => divideSigned w Int.tdiv a b
    | .srem => divideSigned w Int.tmod a b
    | .shl => shift w b fun n => .ok (a * Word.count n)
    | .lshr => shift w b fun n => .ok (a >>> n)
    | .ashr => shift w b fun n => do return (← signedReading w a) >>> n

/-- The result of an operation on two integers at a width. -/
def compute (function : String) (op : IntOp) (w : Nat) (a b : Int) : Except Failure Int :=
  (op.exact function w a b).map (Word.wrap w)

/-- What an operation asks of two values of which one is no integer, before it turns out not to be
for them: the doubles of two numbers, a text written over, or the signed reading of the first. -/
def prepare (op : IntOp) (w : Nat) (a b : Value) : Except Failure Unit :=
  match op with
  | .add | .sub | .mul | .udiv | .urem =>
    match a.number?, b.number? with
    | some x, some y => do
      discard x.toFp
      discard y.toFp
    | _, _ =>
      match if op = .mul then a.repeated? b else none with
      | some r => discard r
      | none => pure ()
  | .sdiv | .srem =>
    match a.int? with
    | some n => discard (signedReading w n)
    | none => pure ()
  | .ashr =>
    match a.int?, b.number? with
    | some n, some _ => discard (signedReading w n)
    | _, _ => pure ()
  | .and | .or | .xor | .shl | .lshr => pure ()

/-- The result of an operation on two values of which one is no integer.  A division by a zero of
any kind is reported as such, and a shift by too much gives zero whatever is shifted. -/
def misapplied (function : String) (op : IntOp) (w : Nat) (a b : Value) : Except Failure Value :=
  if op.divides && b.number?.any Number.isZero then .error (.divisionByZero function)
  else if op.shifts && b.number?.any (fun n => !n.lessThan (.int w)) then .ok (.int 0)
  else op.prepare w a b >>= fun _ => .error .typeMismatch

/-- The result of an operation on two values at a width. -/
def apply (function : String) (op : IntOp) (w : Nat) (a b : Value) : Except Failure Value :=
  match a.int?, b.int? with
  | some x, some y => (op.compute function w x y).map .int
  | _, _ => op.misapplied function w a b

end IntOp

namespace IntPred

/-- Whether a predicate compares signed readings. -/
def isSigned : IntPred → Bool
  | .sgt | .sge | .slt | .sle => true
  | _ => false

/-- Whether a predicate holds of two readings. -/
def holds : IntPred → Int → Int → Bool
  | .eq, a, b => decide (a = b)
  | .ne, a, b => decide (a ≠ b)
  | .ugt, a, b | .sgt, a, b => decide (b < a)
  | .uge, a, b | .sge, a, b => decide (b ≤ a)
  | .ult, a, b | .slt, a, b => decide (a < b)
  | .ule, a, b | .sle, a, b => decide (a ≤ b)

/-- The reading that a predicate compares. -/
def reading (p : IntPred) (w : Nat) (a : Int) : Except Failure Int :=
  if p.isSigned then IntOp.signedReading w a else .ok a

/-- Whether a predicate holds of two integers of a width. -/
def compare (p : IntPred) (w : Nat) (a b : Int) : Except Failure Bool := do
  let x ← p.reading w a
  let y ← p.reading w b
  pure (p.holds x y)

end IntPred

/-- The value of a comparison. -/
def Value.ofBool (b : Bool) : Value := .int (if b then 1 else 0)

/-- Compare two values of a type as integers.  What is no integer can only be asked for identity,
which what is read twice from one local has, and only integers of an integer type have a signed
reading. -/
def IntPred.apply (function : String) (p : IntPred) (t : Ty) (onePlace : Bool) (a b : Value) :
    Except Failure Value :=
  match a.int?, b.int? with
  | some x, some y =>
    match t with
    | .int w => (p.compare w x y).map Value.ofBool
    | _ => if p.isSigned then .error .lacksAttribute else .ok (.ofBool (p.holds x y))
  | _, _ =>
    match p with
    | .eq => .ok (.ofBool (onePlace || a.identical b))
    | .ne => .ok (.ofBool (!(onePlace || a.identical b)))
    | p => .error (.unsupported (.pointerComparison p.word) function)

/-! ## Floating point -/

namespace FpOp

/-- The sum, difference or product of two numbers: exact for integers, and rounded once for
floating point. -/
def combine (onInts : Int → Int → Int) (onFps : Fp → Fp → Fp) (a b : Number) :
    Except Failure Number :=
  match a, b with
  | .int x, .int y => .ok (.int (onInts x y))
  | a, b => do return .real (onFps (← a.toFp) (← b.toFp))

/-- The quotient by a zero: an infinity, or what is no number. -/
def quotientByZero (a b : Number) : Except Failure Number := do
  if a.isZero then pure (.real .plainNan)
  else
    let x ← a.toFp
    if x.isNan then pure (.real .plainNan)
    else pure (.real (.infinity (x.isNegative != (← b.toFp).isNegative)))

/-- The quotient of two numbers. -/
def quotient (a b : Number) : Except Failure Number :=
  if b.isZero then quotientByZero a b
  else match a, b with
    | .int x, .int y =>
      match Format.double.round (decide (y < 0)) ((x : Rat) / y) with
      | .infinity _ => .error .outOfRange
      | q => .ok (.real q)
    | a, b => do return .real ((← a.toFp).div (← b.toFp))

/-- The remainder of two numbers.  An infinity has none by a number other than zero. -/
def remainder (a b : Number) : Except Failure Number := do
  let x ← a.toFp
  let y ← b.toFp
  if x.isInfinite && !y.isNan then throw .mathDomain else pure (.real (x.rem y))

/-- The result of an operation on two numbers, before it is brought to its type. -/
def exact : FpOp → Number → Number → Except Failure Number
  | .fadd, a, b => combine (· + ·) Fp.add a b
  | .fsub, a, b => combine (· - ·) Fp.sub a b
  | .fmul, a, b => combine (· * ·) Fp.mul a b
  | .fdiv, a, b => quotient a b
  | .frem, a, b => remainder a b

/-- The result of an operation on texts, where there is one. -/
def onTexts? (op : FpOp) (a b : Value) : Option (Except Failure Value) :=
  match op with
  | .fadd => a.joined? b
  | .fmul => a.repeated? b
  | _ => none

theorem eq_of_onTexts? {op : FpOp} {a b : Value} {r : Except Failure Value}
    (h : op.onTexts? a b = some r) : r = .error .outOfRange ∨ ∃ s, r = .ok (.text s) := by
  cases op with
  | fadd => exact .inr (Value.eq_of_joined? h)
  | fmul => exact Value.eq_of_repeated? h
  | _ => cases h

/-- The result of an operation on two values, before it is brought to its type.  The remainder by
zero is no number, whatever is divided. -/
def apply (op : FpOp) (a b : Value) : Except Failure Value :=
  if op = .frem && b.number?.any Number.isZero then .ok (.real .plainNan)
  else match op.onTexts? a b with
    | some r => r
    | none => do
      let x ← a.number
      let y ← b.number
      return (← op.exact x y).toValue

end FpOp

/-- The value of the other sign. -/
def Value.negate (a : Value) : Except Failure Value :=
  match a.number? with
  | some (.int n) => .ok (.int (-n))
  | some (.real x) => .ok (.real x.neg)
  | none => .error .typeMismatch

/-- Whether a predicate holds, given whether one of the two values is no number and how the two
compare otherwise. -/
def FpPred.holds (unordered less equal : Bool) : FpPred → Bool
  | .never => false
  | .always => true
  | .ord => !unordered
  | .uno => unordered
  | .oeq => !unordered && equal
  | .one => !unordered && !equal
  | .ogt => !unordered && !less && !equal
  | .oge => !unordered && !less
  | .olt => !unordered && less
  | .ole => !unordered && (less || equal)
  | .ueq => unordered || equal
  | .une => unordered || !equal
  | .ugt => unordered || (!less && !equal)
  | .uge => unordered || !less
  | .ult => unordered || less
  | .ule => unordered || less || equal

/-- Whether a predicate holds of two numbers. -/
def FpPred.compare (p : FpPred) (a b : Number) : Bool :=
  p.holds (a.isNan || b.isNan) (a.lessThan b) (a.equals b)

/-- The number that a value is, where a floating-point number is needed: an integer has to have a
nearest double. -/
def Value.realNumber (v : Value) : Except Failure Number := do
  let n ← v.number
  discard n.toFp
  pure n

/-- Compare two values as floating point.  If the first is no number the second is not looked at. -/
def FpPred.apply (p : FpPred) (a b : Value) : Except Failure Value := do
  let x ← a.realNumber
  if x.isNan then pure (.ofBool (p.holds true false false))
  else
    let y ← b.realNumber
    pure (.ofBool (p.compare x y))

end Ssa

/-
# `Ssa.Exec.Scalar` — the scalar functions of the interpreter on any values

The functions that the interpreter builds its rules from, given values as they come from outside:
a width may be negative, and a value may be no number.
-/
import Ssa.Exec.Value

namespace Ssa.Scalar

/-- The integer that a value is. -/
def integer (v : Value) : Except Failure Int :=
  match v.int? with
  | some n => .ok n
  | none => .error .typeMismatch

/-- The width that a value is. -/
def width (v : Value) : Except Failure Nat := do
  let n ← integer v
  if n < 0 then throw .negativeShift else pure n.toNat

/-- The greatest unsigned number of a width. -/
def mask (w : Value) : Except Failure Value := do return .int (Word.mask (← width w))

/-- The signed reading of an integer at a width. -/
def toSigned (v w : Value) : Except Failure Value := do
  let w ← width w
  let n ← integer v
  if w = 0 then throw .negativeShift else pure (.int (Word.toSigned w n))

/-- The value of single precision that is nearest to a number. -/
def toSingle (v : Value) : Except Failure Value :=
  match v.double? with
  | some x => .ok (.real (Format.single.convert x))
  | none => .error .notAWord

/-- The greatest integer that is not above a datum, as a datum.  One that is just below an integer
by an error of rounding is brought up to it. -/
def wholePart (q : Fp) : Fp :=
  if q.isFinite && !q.isZero then
    let n := q.toRat.floor
    Fp.ofRat false (if (1 : Rat) / 2 < q.toRat - n then n + 1 else n)
  else q

/-- How many whole times a magnitude goes into another. -/
def wholeTimes (x y : Fp) : Fp := wholePart ((x.sub (x.rem y)).div y)

/-- The magnitude of a datum. -/
def magnitude (x : Fp) : Fp := x.copySign (.zero false)

/-- Whether a datum is below zero, which a negative zero is not. -/
def isBelowZero (x : Fp) : Bool := x.lessThan (.zero false)

/-- The double of a value that is a number. -/
def double (v : Value) : Except Failure Fp := v.number >>= Number.toFp

/-- The quotient of two data, brought to a whole number toward zero. -/
def fpQuotient (x y : Fp) : Except Failure Fp :=
  if y.isZero then .error .zeroDivision
  else
    let q := wholeTimes (magnitude x) (magnitude y)
    .ok (if isBelowZero x == isBelowZero y then q else q.neg)

/-- The quotient of two numbers, brought to a whole number toward zero. -/
def quotient (a b : Value) : Except Failure Value :=
  match a.int?, b.int? with
  | some a, some b => if b = 0 then .error .zeroDivision else .ok (.int (a.tdiv b))
  | _, _ => do
    discard a.number
    discard b.number
    return .real (← fpQuotient (← double a) (← double b))

/-- What the quotient leaves; that of integers has the sign of the dividend. -/
def remainder (a b : Value) : Except Failure Value :=
  match a.int?, b.int? with
  | some a, some b => if b = 0 then .error .zeroDivision else .ok (.int (a.tmod b))
  | _, _ => do
    discard a.number
    discard b.number
    let x ← double a
    let y ← double b
    return .real (x.sub (y.mul (← fpQuotient x y)))

/-- An amount by which a word of a width can be shifted; null for none. -/
def shiftAmount (b w : Value) : Except Failure Value := do
  let n ← b.number
  let limit ← w.number
  pure (if n.lessThan limit then b else .null)

end Ssa.Scalar

/-
# `Ssa.Number.Arith` — arithmetic and order on floating point

Each operation takes the exact rational result and rounds it once to the double format.  Where an
operand is no number the result is the first such operand, made quiet.  Comparisons order the data
by exact value, the infinities at the ends; what is no number is beside the order.
-/
import Ssa.Number.Fp

namespace Ssa.Fp

/-- The datum of the other sign. -/
def neg : Fp → Fp
  | .nan s payload => .nan (!s) payload
  | .infinity s => .infinity (!s)
  | .zero s => .zero (!s)
  | .finite q h => .finite (-q) (fun e => h (by rw [← Rat.neg_neg q, e]; rfl))

/-- The first operand that is no number, made quiet, or else the result of an operation. -/
def unlessNan (a b result : Fp) : Fp :=
  if a.isNan then a.quiet else if b.isNan then b.quiet else result

/-- The sum of two data that are numbers. -/
def addNumbers : Fp → Fp → Fp
  | .infinity s, .infinity t => if s = t then .infinity s else invalid
  | .infinity s, _ => .infinity s
  | _, .infinity t => .infinity t
  | a, b => Format.double.round (a.isNegative && b.isNegative) (a.toRat + b.toRat)

/-- Addition. -/
def add (a b : Fp) : Fp := unlessNan a b (addNumbers a b)

/-- Subtraction. -/
def sub (a b : Fp) : Fp := unlessNan a b (addNumbers a b.neg)

/-- The product of two data that are numbers. -/
def mulNumbers (a b : Fp) : Fp :=
  let negative := a.isNegative != b.isNegative
  if a.isInfinite || b.isInfinite then
    if a.isZero || b.isZero then invalid else .infinity negative
  else Format.double.round negative (a.toRat * b.toRat)

/-- Multiplication. -/
def mul (a b : Fp) : Fp := unlessNan a b (mulNumbers a b)

/-- The quotient of two data that are numbers. -/
def divNumbers (a b : Fp) : Fp :=
  let negative := a.isNegative != b.isNegative
  if a.isInfinite then
    if b.isInfinite then invalid else .infinity negative
  else if b.isInfinite then .zero negative
  else if b.isZero then
    if a.isZero then invalid else .infinity negative
  else Format.double.round negative (a.toRat / b.toRat)

/-- Division. -/
def div (a b : Fp) : Fp := unlessNan a b (divNumbers a b)

/-- The remainder of two data that are numbers: what is left of the first after taking the second
away a whole number of times, with the sign of the first. -/
def remNumbers (a b : Fp) : Fp :=
  if a.isInfinite || b.isZero then invalid
  else if b.isInfinite then a
  else ofRat a.isNegative (a.toRat - truncate (a.toRat / b.toRat) * b.toRat)

/-- Remainder. -/
def rem (a b : Fp) : Fp := unlessNan a b (remNumbers a b)

/-- The product of two data and a third added to it, rounded once to a format. -/
def fma (fmt : Format) (a b c : Fp) : Fp :=
  if a.isFinite && b.isFinite && c.isFinite then
    let negative := (a.isNegative != b.isNegative) && c.isNegative
    fmt.round negative (a.toRat * b.toRat + c.toRat)
  else if a.isNan || b.isNan then unlessNan a b invalid
  else add (mulNumbers a b) c

/-- The magnitude of one datum with the sign of another. -/
def copySign (magnitude sign : Fp) : Fp :=
  if magnitude.isNegative = sign.isNegative then magnitude else magnitude.neg

/-! ## Order -/

/-- Where a datum stands: below all rationals, among them, or above. -/
def rank : Fp → Int
  | .infinity true => -1
  | .infinity false => 1
  | _ => 0

/-- Whether the first of two numbers is the lesser. -/
def lessThan (a b : Fp) : Bool :=
  !a.isNan && !b.isNan && (a.rank < b.rank || (a.rank == b.rank && decide (a.toRat < b.toRat)))

/-- Whether two numbers are equal, the two zeros included. -/
def equals (a b : Fp) : Bool :=
  !a.isNan && !b.isNan && a.rank == b.rank && decide (a.toRat = b.toRat)

/-- Whether one of two data is no number. -/
def unordered (a b : Fp) : Bool := a.isNan || b.isNan

end Ssa.Fp

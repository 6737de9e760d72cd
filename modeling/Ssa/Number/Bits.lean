/-
# `Ssa.Number.Bits` — floating point as digits

The interchange form of a datum is a word of three fields: a sign, an exponent and a fraction.
A value whose significand is `m` and whose last digit has exponent `e` is written
`(e - minExp) * 2 ^ (precision - 1) + m`, whether its leading digit is at its full height or not:
the leading digit of a significand of full length falls on the last place of the exponent field
and raises it by one.
-/
import Ssa.Number.Fp

namespace Ssa.Format

/-- The weight of the last digit of the exponent field. -/
def fieldUnit (fmt : Format) : Nat := Nat.pow 2 (fmt.precision - 1)

/-- The exponent field of infinities and of what is no number. -/
def topField (fmt : Format) : Nat := (fmt.maxExp - fmt.minExp + 2).toNat

/-- The weight of the sign. -/
def signUnit (fmt : Format) : Nat := (fmt.topField + 1) * fmt.fieldUnit

/-- The width of the word that holds a datum. -/
def width (fmt : Format) : Nat := Nat.log2 fmt.signUnit + 1

/-- The exponent and fraction fields of the magnitude of a nonzero value. -/
def encodeMagnitude (fmt : Format) (q : Rat) : Nat :=
  let e := fmt.quantum q
  let m := (truncate (q / (2 : Rat) ^ e)).natAbs
  (e - fmt.minExp).toNat * fmt.fieldUnit + m

/-- The fraction field of what is no number, never zero.  It takes the leading digits of the
payload, as many as the field has. -/
def encodePayload (fmt : Format) (payload : Nat) : Nat :=
  let kept := (payload >>> fmt.droppedDigits) % fmt.fieldUnit
  if kept = 0 then fmt.fieldUnit / 2 else kept

/-- The word of a datum of a format. -/
def encode (fmt : Format) (x : Fp) : Nat :=
  let sign := if x.isNegative then fmt.signUnit else 0
  sign + match x with
    | .nan _ payload => fmt.topField * fmt.fieldUnit + fmt.encodePayload payload
    | .infinity _ => fmt.topField * fmt.fieldUnit
    | .zero _ => 0
    | .finite q _ => fmt.encodeMagnitude q

/-- The payload of a fraction field.  Reading a format narrower than the widest makes the datum
quiet. -/
def decodePayload (fmt : Format) (fraction : Nat) : Nat :=
  if fmt.precision = 53 then fraction
  else (fraction <<< fmt.droppedDigits) ||| Fp.quietDigit

/-- The magnitude of an exponent field below the top one and a fraction. -/
def decodeMagnitude (fmt : Format) (field fraction : Nat) : Rat :=
  if field = 0 then (fraction : Rat) * (2 : Rat) ^ fmt.minExp
  else ((fraction + fmt.fieldUnit : Nat) : Rat) * (2 : Rat) ^ (fmt.minExp + field - 1)

/-- The datum of a word. -/
def decode (fmt : Format) (word : Nat) : Fp :=
  let negative := decide (word / fmt.signUnit % 2 = 1)
  let field := word % fmt.signUnit / fmt.fieldUnit
  let fraction := word % fmt.fieldUnit
  if field = fmt.topField then
    if fraction = 0 then .infinity negative else .nan negative (fmt.decodePayload fraction)
  else
    let q := fmt.decodeMagnitude field fraction
    Fp.ofRat negative (if negative then -q else q)

end Ssa.Format

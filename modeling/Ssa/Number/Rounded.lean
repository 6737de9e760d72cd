/-
# `Ssa.Number.Rounded` — numbers with a given number of digits

A number can be written with a given number of digits in all, with a given number of them after the
point, or with as few as read back as it.  In each case there is a row of digits and a place for the
point, which may lie beyond either end of the row; notation then puts zeros and an exponent where
they belong.
-/
import Ssa.Number.Decimal

namespace Ssa.Decimal

/-! ## Digits -/

/-- The digits of a magnitude, without zeros at their end, and how many stand before the point. -/
structure Digits where
  digits : List Char
  point : Int
deriving Repr, Inhabited

namespace Digits

/-- The digits of zero. -/
def zero : Digits := ⟨['0'], 1⟩

/-- The digits of a magnitude with a number of places after the point. -/
def toPlaces (q : Rat) (places : Nat) : Digits :=
  if q = 0 then zero
  else
    let n := (roundEven (q * (10 : Rat) ^ (places : Int))).toNat
    if n = 0 then ⟨[], -places⟩
    else ⟨significantDigits n, (Nat.toDigits 10 n).length - places⟩

/-- The digits of a magnitude, a given number of them. -/
def toLength (q : Rat) (length : Nat) : Digits :=
  if q = 0 then zero
  else
    let e := leadingExp10 q
    let n := (roundEven (q / (10 : Rat) ^ (e - length + 1))).toNat
    ⟨significantDigits n, (Nat.toDigits 10 n).length - length + e + 1⟩

/-- The fewest digits that read back as a magnitude. -/
def fewest (q : Rat) : Digits :=
  if q = 0 then zero
  else
    let (n, e) := shortest q
    ⟨significantDigits n, (Nat.toDigits 10 n).length + e⟩

end Digits

/-! ## Notation -/

/-- A way of writing a number down. -/
inductive Style where
  /-- As few digits as read back, with an exponent if the number is very great or small. -/
  | fewest
  /-- A number of digits in all, with an exponent if there would be too many zeros. -/
  | general
  /-- A number of places after the point. -/
  | fixed
  /-- One digit before the point, a number of places after it, and an exponent. -/
  | scientific
deriving DecidableEq, Repr, Inhabited

/-- What is asked of a notation: the number of places, whether there is to be a digit after the
point, and whether the point and zeros at the end are kept. -/
structure Notation where
  style : Style
  places : Nat
  pointed : Bool
  full : Bool
deriving Repr, Inhabited

namespace Notation

/-- How many digits in all the notation has, where it has a number of them. -/
def length (n : Notation) : Nat :=
  match n.style with
  | .scientific => n.places + 1
  | _ => max 1 n.places

/-- The digits of a magnitude that a notation shows. -/
def digitsOf (n : Notation) (q : Rat) : Digits :=
  match n.style with
  | .fewest => .fewest q
  | .fixed => .toPlaces q n.places
  | .general | .scientific => .toLength q n.length

/-- Whether a notation shows digits with an exponent. -/
def hasExponent (n : Notation) (d : Digits) : Bool :=
  match n.style with
  | .fewest => d.point ≤ -4 || 16 < d.point
  | .general => d.point ≤ -4 || (n.length : Int) - (if n.pointed then 1 else 0) < d.point
  | .fixed => false
  | .scientific => true

/-- The place up to which a notation shows digits or zeros, before the point is looked at. -/
def lastPlace (n : Notation) (d : Digits) : Int :=
  match n.style with
  | .fewest => d.digits.length
  | .general => if n.full then n.length else d.digits.length
  | .fixed => d.point + n.places
  | .scientific => n.length

/-- Digits with a point after the given number of them, and zeros up to a place. -/
def pointedDigits (digits : List Char) (point last : Int) : List Char :=
  let length : Int := digits.length
  let before := if point ≤ 0 then '0' :: '.' :: zeros (-point).toNat else []
  let middle := if 0 < point && point ≤ length then
      digits.take point.toNat ++ '.' :: digits.drop point.toNat
    else digits
  let after := if length < point then
      zeros (point - length).toNat ++ '.' :: zeros (last - point).toNat
    else zeros (last - length).toNat
  before ++ middle ++ after

/-- A row of characters without a point at its end. -/
def withoutPoint (cs : List Char) : List Char :=
  if cs.getLast? = some '.' then cs.dropLast else cs

/-- The text of a magnitude. -/
def magnitudeText (n : Notation) (q : Rat) : List Char :=
  let d := n.digitsOf q
  let hasExponent := n.hasExponent d
  let point := if hasExponent then 1 else d.point
  let last := n.lastPlace d
  let last := if point < last then last else if n.pointed && !hasExponent then point + 1 else point
  let body := pointedDigits d.digits point last
  (if n.full then body else withoutPoint body) ++
    (if hasExponent then exponentText (d.point - 1) else [])

/-- The text of a datum without its sign. -/
def unsignedText (n : Notation) (x : Fp) : List Char :=
  match x with
  | .nan .. => "nan".toList
  | .infinity _ => "inf".toList
  | x => n.magnitudeText x.toRat.abs

/-- Whether the text of a datum shows no digit but zeros. -/
def showsZero (n : Notation) (x : Fp) : Bool :=
  x.isFinite && (n.digitsOf x.toRat.abs).digits.all (· == '0')

end Notation

end Ssa.Decimal

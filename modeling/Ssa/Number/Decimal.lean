/-
# `Ssa.Number.Decimal` — numbers as decimal text

A floating-point value is displayed with the fewest digits that read back as that value; of two
equally short ones the nearer is taken.  Positional notation is used for magnitudes from `10 ^ -4`
to below `10 ^ 16`, and a point is always shown.  Reading takes a sign, digits of any script with
single low lines between them, a point and an exponent.
-/
import Ssa.Number.Fp
import Ssa.Text.Blank
import Ssa.Text.Digit

namespace Ssa.Decimal

/-! ## The fewest digits -/

/-- The exponent of the leading decimal digit of a positive rational: the `k` with
`10 ^ k ≤ q < 10 ^ (k + 1)`. -/
def leadingExp10 (q : Rat) : Int :=
  let k := leadingExp q * 30103 / 100000
  if (10 : Rat) ^ (k + 1) ≤ q then k + 1 else if q < (10 : Rat) ^ k then k - 1 else k

/-- Whether a decimal reads back as a given double value. -/
def readsBack (q decimal : Rat) : Bool :=
  (Format.double.round false decimal).toRat = q

/-- A decimal of the given number of digits that reads back as a positive value, as an integer and
the exponent of its last digit. -/
def ofLength? (q : Rat) (length : Nat) : Option (Nat × Int) :=
  let e := leadingExp10 q - length + 1
  let unit := (10 : Rat) ^ e
  let below := (q / unit).floor
  let above := below + 1
  let nearBelow := readsBack q (below * unit)
  let nearAbove := readsBack q (above * unit)
  let rest := q / unit - below
  if nearBelow && nearAbove then
    if rest < 1 / 2 || (rest = 1 / 2 && below % 2 = 0) then some (below.toNat, e)
    else some (above.toNat, e)
  else if nearBelow then some (below.toNat, e)
  else if nearAbove then some (above.toNat, e)
  else none

/-- The shortest decimal of a positive double value: seventeen digits always suffice. -/
def shortest (q : Rat) : Nat × Int :=
  ((List.range 18).findSome? fun n => if n = 0 then none else ofLength? q n).getD (0, 0)

/-- The digits of a number without the zeros at its end. -/
def significantDigits (n : Nat) : List Char :=
  ((Nat.toDigits 10 n).reverse.dropWhile (· = '0')).reverse

/-- A row of zeros. -/
def zeros (n : Nat) : List Char := List.replicate n '0'

/-- The text of digits with the point after the given number of them. -/
def positional (digits : List Char) (point : Int) : List Char :=
  if point ≤ 0 then '0' :: '.' :: zeros (-point).toNat ++ digits
  else if digits.length ≤ point.toNat then
    digits ++ zeros (point.toNat - digits.length) ++ ['.', '0']
  else digits.take point.toNat ++ '.' :: digits.drop point.toNat

/-- The text of an exponent: a sign and at least two digits. -/
def exponentText (e : Int) : List Char :=
  let digits := Nat.toDigits 10 e.natAbs
  'e' :: (if e < 0 then '-' else '+') :: zeros (2 - digits.length) ++ digits

/-- The text of digits with one of them before the point, and an exponent. -/
def scientific (digits : List Char) (point : Int) : List Char :=
  match digits with
  | [] => exponentText (point - 1)
  | [d] => d :: exponentText (point - 1)
  | d :: rest => d :: '.' :: rest ++ exponentText (point - 1)

/-- The text of a positive double value. -/
def magnitudeText (q : Rat) : List Char :=
  let (n, e) := shortest q
  let digits := significantDigits n
  let point := (Nat.toDigits 10 n).length + e
  if -4 < point && point ≤ 16 then positional digits point else scientific digits point

end Decimal

/-- The text of a datum of floating point. -/
def Fp.display : Fp → String
  | .nan .. => "nan"
  | .infinity s => if s then "-inf" else "inf"
  | .zero s => if s then "-0.0" else "0.0"
  | .finite q _ =>
    String.ofList ((if q < 0 then ['-'] else []) ++ Decimal.magnitudeText q.abs)

namespace Decimal

/-! ## Reading -/

/-- A text that is to be read as a number: trimmed, its digits brought to one script. -/
def plainChars (s : String) : List Char :=
  (numberChars s).map fun c => (digitValue? c).elim c Nat.digitChar

/-- A sign at the head of a text, and what follows it. -/
def takeSign : List Char → Bool × List Char
  | '-' :: rest => (true, rest)
  | '+' :: rest => (false, rest)
  | cs => (false, cs)

/-- Drop the low lines of a text, provided that each stands between two digits. -/
def dropLowLines (before : Char) : List Char → Option (List Char)
  | [] => some []
  | '_' :: c :: rest =>
    if before.isDigit && c.isDigit then (dropLowLines c rest).map (c :: ·) else none
  | '_' :: [] => none
  | c :: rest => (dropLowLines c rest).map (c :: ·)

/-- The number that a row of digits writes. -/
def ofDigits (cs : List Char) : Nat :=
  cs.foldl (fun n c => n * 10 + (c.toNat - 48)) 0

/-- The greatest number of digits that an integer is read from. -/
def maxDigits : Nat := 4300

/-- The integer that a text writes. -/
def readInt? (s : String) : Option Int := do
  let (negative, rest) := takeSign (plainChars s)
  let digits ← dropLowLines ' ' rest
  if digits.isEmpty || maxDigits < digits.length || !digits.all Char.isDigit then none
  else
    let n : Int := ofDigits digits
    some (if negative then -n else n)

/-- The exponent part of a number's text, which has to be all that is left. -/
def readExponent? : List Char → Option Int
  | [] => some 0
  | c :: rest =>
    if c = 'e' || c = 'E' then
      let (negative, digits) := takeSign rest
      if digits.isEmpty || !digits.all Char.isDigit then none
      else
        let n : Int := ofDigits digits
        some (if negative then -n else n)
    else none

/-- The value of the digits before and after a point, at an exponent.  Exponents beyond the reach
of every format are cut to one that is still beyond it. -/
def decimalValue (whole fraction : List Char) (e : Int) : Rat :=
  let digits := ofDigits (whole ++ fraction)
  if digits = 0 then 0
  else
    let places : Int := (whole ++ fraction).length
    let e := max (-(1200 + places)) (min (1200 + places) (e - fraction.length))
    (digits : Rat) * (10 : Rat) ^ e

/-- The unsigned number that a text writes with digits. -/
def readMagnitude? (cs : List Char) : Option Rat := do
  let whole := cs.takeWhile Char.isDigit
  let rest := cs.dropWhile Char.isDigit
  let (fraction, rest) := match rest with
    | '.' :: more => (more.takeWhile Char.isDigit, more.dropWhile Char.isDigit)
    | _ => ([], rest)
  if whole.isEmpty && fraction.isEmpty then none
  else
    let e ← readExponent? rest
    some (decimalValue whole fraction e)

/-- A lower-case letter of the first alphabet in place of its capital. -/
def lower (cs : List Char) : List Char := cs.map Char.toLower

/-- The floating-point datum that a text writes. -/
def readFp? (s : String) : Option Fp := do
  let cs ← dropLowLines ' ' (plainChars s)
  let (negative, rest) := takeSign cs
  if lower rest = "inf".toList || lower rest = "infinity".toList then some (.infinity negative)
  else if lower rest = "nan".toList then some (.nan negative Fp.quietDigit)
  else
    let q ← readMagnitude? rest
    some (Format.double.round negative (if negative then -q else q))

end Decimal

end Ssa

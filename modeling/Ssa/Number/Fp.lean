/-
# `Ssa.Number.Fp` — binary floating point, by value

A datum of binary floating point is not a number, an infinity, a zero with a sign, or a nonzero
rational.  The datum does not say which format it came from: a format is a separate record, and
rounding to a format is the one operation that needs it.  So a value of a narrow format is also a
value of every wider one, and two data are the same value exactly when they are equal.
-/

namespace Ssa

/-- A datum of binary floating point.  The payload of a datum that is no number is its fraction
field in the widest format, of 52 digits. -/
inductive Fp where
  | nan (negative : Bool) (payload : Nat)
  | infinity (negative : Bool)
  | zero (negative : Bool)
  | finite (value : Rat) (nonzero : value ≠ 0)
deriving DecidableEq, Repr

namespace Fp

instance : Inhabited Fp := ⟨.zero false⟩

/-- The datum of a rational, given the sign that a zero is to have. -/
def ofRat (negativeZero : Bool) (q : Rat) : Fp :=
  if h : q = 0 then .zero negativeZero else .finite q h

/-- The rational that a datum stands for; zero where it stands for none. -/
def toRat : Fp → Rat
  | .finite q _ => q
  | _ => 0

/-- The sign of a datum. -/
def isNegative : Fp → Bool
  | .nan s _ => s
  | .infinity s => s
  | .zero s => s
  | .finite q _ => decide (q < 0)

/-- Whether a datum is no number. -/
def isNan : Fp → Bool
  | .nan .. => true
  | _ => false

/-- Whether a datum is an infinity. -/
def isInfinite : Fp → Bool
  | .infinity _ => true
  | _ => false

/-- Whether a datum stands for a rational. -/
def isFinite : Fp → Bool
  | .zero _ => true
  | .finite .. => true
  | _ => false

/-- Whether a datum is a zero of either sign. -/
def isZero : Fp → Bool
  | .zero _ => true
  | _ => false

/-! ## What is no number -/

/-- The payload digit that marks a quiet datum. -/
def quietDigit : Nat := 0x8000000000000

/-- The datum that is no number and carries no message. -/
def plainNan : Fp := .nan false quietDigit

/-- What an operation without a result gives, by the convention of the x86 processors. -/
def invalid : Fp := .nan true quietDigit

/-- The quiet form of a datum that is no number; other data stay as they are. -/
def quiet : Fp → Fp
  | .nan s payload => .nan s (payload ||| quietDigit)
  | x => x

end Fp

/-! ## Formats -/

/-- A binary format: how many digits a significand has, the exponent of the least positive value,
and the exponent of the last digit of the greatest values. -/
structure Format where
  precision : Nat
  minExp : Int
  maxExp : Int
deriving DecidableEq, Repr

namespace Format

/-- The format of 16 digits. -/
def half : Format := ⟨11, -24, 5⟩

/-- The format of 32 digits. -/
def single : Format := ⟨24, -149, 104⟩

/-- The format of 64 digits. -/
def double : Format := ⟨53, -1074, 971⟩

end Format

/-- The nearest integer, and of two equally near ones the even one. -/
def roundEven (q : Rat) : Int :=
  let below := q.floor
  let rest := q - below
  if rest < 1 / 2 then below
  else if 1 / 2 < rest then below + 1
  else if below % 2 = 0 then below else below + 1

/-- The exponent of the leading binary digit of a nonzero rational: the `k` with
`2 ^ k ≤ |q| < 2 ^ (k + 1)`. -/
def leadingExp (q : Rat) : Int :=
  let k : Int := (Nat.log2 q.num.natAbs : Int) - (Nat.log2 q.den : Int)
  if (2 : Rat) ^ k ≤ q.abs then k else k - 1

/-- The integer part of a rational, toward zero. -/
def truncate (q : Rat) : Int := q.num.tdiv q.den

namespace Format

/-- The exponent of the last digit of the values of a format around a nonzero rational. -/
def quantum (fmt : Format) (q : Rat) : Int :=
  max (leadingExp q - ((fmt.precision : Int) - 1)) fmt.minExp

/-- The magnitude from which on a rounded result is an infinity. -/
def bound (fmt : Format) : Rat := (2 : Rat) ^ (fmt.maxExp + fmt.precision)

/-- The value of a format nearest to a rational, ties to the even significand.  A result that is
zero has the sign of the rational, or the given one if that is zero itself. -/
def round (fmt : Format) (negativeZero : Bool) (q : Rat) : Fp :=
  if q = 0 then .zero negativeZero
  else
    let unit := (2 : Rat) ^ fmt.quantum q
    let rounded := roundEven (q / unit) * unit
    if fmt.bound ≤ rounded.abs then .infinity (decide (q < 0))
    else Fp.ofRat (decide (q < 0)) rounded

/-- How many digits of a payload a format leaves out. -/
def droppedDigits (fmt : Format) : Nat := 53 - fmt.precision

/-- The payload that a format keeps of what is no number.  The widest format keeps all; the
narrowest keeps none; between them the leading digits are kept and the datum is made quiet. -/
def keptPayload (fmt : Format) (payload : Nat) : Nat :=
  if fmt.precision = 53 then payload
  else if fmt.precision = 11 then Fp.quietDigit
  else ((payload >>> fmt.droppedDigits) <<< fmt.droppedDigits) ||| Fp.quietDigit

/-- A datum brought to a format. -/
def convert (fmt : Format) : Fp → Fp
  | .nan s payload => .nan s (fmt.keptPayload payload)
  | .finite q _ => fmt.round false q
  | x => x

/-- What it means that a datum is a value of a format. -/
def Holds (fmt : Format) : Fp → Prop
  | .finite q _ => ∃ m e : Int, m.natAbs < Nat.pow 2 fmt.precision ∧ fmt.minExp ≤ e ∧ e ≤ fmt.maxExp ∧
      q = m * (2 : Rat) ^ e
  | _ => True

end Format

end Ssa

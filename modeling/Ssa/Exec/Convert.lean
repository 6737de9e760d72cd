/-
# `Ssa.Exec.Convert` — conversions between types

A conversion takes a value of its source type to one of its target type.  Narrowing and widening
of integers work on readings; between integers and floating point the integer part is taken one
way and the nearest value the other way; a reinterpretation keeps the digits.
-/
import Ssa.Exec.Arith

namespace Ssa

/-- The width of a type of integers. -/
def Ty.width : Ty → Except Failure Nat
  | .int w => .ok w
  | _ => .error .lacksAttribute

/-- The integer that a value is, where an integer is needed. -/
def Value.integer (v : Value) : Except Failure Int :=
  match v.int? with
  | some n => .ok n
  | none => .error .typeMismatch

namespace CastOp

/-- The unsigned reading of a value at the width of a type. -/
def wrapTo (t : Ty) (v : Value) : Except Failure Value := do
  let w ← t.width
  return .int (Word.wrap w (← v.integer))

/-- The signed reading of a value at the width of a type. -/
def signedAt (t : Ty) (v : Value) : Except Failure Int := do
  let w ← t.width
  IntOp.signedReading w (← v.integer)

/-- The integer part of a value, wrapped to the width of a type; zero for infinities and for what
is no number. -/
def integerPart (t : Ty) (v : Value) : Except Failure Value := do
  match ← v.realNumber with
  | .int n => return .int (Word.wrap (← t.width) n)
  | .real x =>
    if x.isFinite then return .int (Word.wrap (← t.width) (truncate x.toRat))
    else pure (.int 0)

/-- The digits of an integer value of the given width. -/
def digits (width : Nat) (v : Value) : Except Failure Nat :=
  match v.int? with
  | some n => if 0 ≤ n && n < Word.count width then .ok n.toNat else .error .notAWord
  | none => .error .notAWord

/-- The datum of a value at a precision, which has to be within its range. -/
def datum (p : Precision) (v : Value) : Except Failure Fp :=
  match v.double? with
  | none => .error .notAWord
  | some x =>
    let y := p.format.convert x
    if x.isFinite && y.isInfinite then .error .outOfRange else .ok y

/-- Reinterpret the digits of an integer as floating point. -/
def wordToFp (p : Precision) (v : Value) : Except Failure Value := do
  return .real (p.format.decode (← digits p.width v))

/-- Reinterpret floating point as an integer. -/
def fpToWord (p : Precision) (v : Value) : Except Failure Value := do
  return .int (p.format.encode (← datum p v))

/-- Reinterpret the digits of a value.  Pointers stay as they are, and so do integers; the two
wider precisions of floating point correspond to the integers of their width. -/
def reinterpret (function : String) (source target : Ty) (v : Value) : Except Failure Value :=
  match source, target with
  | .pointer .., .pointer .. => .ok v
  | .int _, .int _ => .ok v
  | .int 32, .fp .single => wordToFp .single v
  | .int 64, .fp .double => wordToFp .double v
  | .fp .single, .int 32 => fpToWord .single v
  | .fp .double, .int 64 => fpToWord .double v
  | _, _ => .error (.unsupported (.bitcast source target) function)

/-- Convert between an integer and a pointer: only integers are converted. -/
def address (function : String) (op : CastOp) (target : Ty) (v : Value) : Except Failure Value :=
  match v.int? with
  | some n => match target with
    | .int w => .ok (.int (Word.wrap w n))
    | _ => .ok v
  | none => .error (.unsupported (.instruction op.word) function)

/-- Convert a value of one type to another. -/
def apply (function : String) (op : CastOp) (source target : Ty) (v : Value) :
    Except Failure Value :=
  match op with
  | .trunc | .zext => wrapTo target v
  | .sext => do
    let n ← signedAt source v
    return .int (Word.wrap (← target.width) n)
  | .fptrunc | .fpext => v.normalize target
  | .fptoui | .fptosi => integerPart target v
  | .uitofp => do (Value.real (← v.toFp)).normalize target
  | .sitofp => do
    let n ← signedAt source v
    (Value.real (← Constant.doubleOfInt n)).normalize target
  | .bitcast => reinterpret function source target v
  | .ptrtoint | .inttoptr => address function op target v
  | .addrspacecast => .error (.unsupported (.instruction op.word) function)

end CastOp

end Ssa

/-
# `Ssa.Program.Intrinsic` — the functions of the machine

Some instructions stand for calls of functions that the machine provides.  Such a function is
declared in the module that calls it, under a name that ends in a word for the type it works on.
-/
import Ssa.Program.Typing
import Ssa.Text.Ends

namespace Ssa

/-- The functions of the machine that an instruction may stand for. -/
inductive Intrinsic where
  | ctpop | bswap | fma | saddWithOverflow | umulWithOverflow
deriving DecidableEq, Repr, Inhabited

namespace Intrinsic

/-- All functions of the machine. -/
def all : List Intrinsic := [.ctpop, .bswap, .fma, .saddWithOverflow, .umulWithOverflow]

/-- The word for a type at the end of a function of the machine, if there is one. -/
def suffix? : Ty → Option String
  | .int w => some s!"i{w}"
  | .fp .half => some "f16"
  | .fp .single => some "f32"
  | .fp .double => some "f64"
  | .pointer t s => (suffix? t).map fun rest => s!"p{s}" ++ rest
  | _ => none

/-- The word for a function of the machine. -/
def word : Intrinsic → String
  | .ctpop => "llvm.ctpop."
  | .bswap => "llvm.bswap."
  | .fma => "llvm.fma."
  | .saddWithOverflow => "llvm.sadd.with.overflow."
  | .umulWithOverflow => "llvm.umul.with.overflow."

/-- The name of a function of the machine for a type, if it has one. -/
def name? (which : Intrinsic) (t : Ty) : Option String :=
  (suffix? t).map (which.word ++ ·)

/-- The type on which a function of the machine works, given its arguments. -/
def base (which : Intrinsic) (args : List Operand) : Except Failure Ty :=
  match which, args with
  | .ctpop, [a] | .bswap, [a] => if a.type.isInt then .ok a.type else .error .typeMismatch
  | .fma, a :: _ => .ok a.type
  | .saddWithOverflow, [a, b] | .umulWithOverflow, [a, b] =>
    if a.type ≠ b.type then .error .badValue
    else if a.type.isInt then .ok a.type else .error .typeMismatch
  | _, _ => .error .typeMismatch

/-- The result and the parameters of a function of the machine. -/
def signature (which : Intrinsic) (t : Ty) : Ty × List Ty :=
  match which with
  | .ctpop | .bswap => (t, [t])
  | .fma => (t, [t, t, t])
  | .saddWithOverflow | .umulWithOverflow => (.struct false [t, .int 1], [t, t])

/-- Whether a name is that of a function of the machine, with or without a word for a type. -/
def isNamed (which : Intrinsic) (name : String) : Bool :=
  begins which.word name || name ++ "." == which.word

end Intrinsic

end Ssa

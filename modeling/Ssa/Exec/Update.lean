/-
# `Ssa.Exec.Update` — updates in one step

An update in one step reads a place, combines what is there with a value, and puts the result back.
Which results there are is told by a word of the assembly language.
-/
import Ssa.Exec.Value

namespace Ssa.Update

/-- What an update puts in the place of one unsigned number, given another, at a width. -/
def ofInts (op : String) (w : Nat) (old v : Int) : Int :=
  let bySign (keep : Int → Int → Bool) : Int :=
    if keep (Word.toSigned w old) (Word.toSigned w v) then old else v
  let exact := match op with
    | "add" => old + v
    | "sub" => old - v
    | "and" => Word.and w old v
    | "nand" => -1 - Word.and w old v
    | "or" => Word.or w old v
    | "xor" => Word.xor w old v
    | "max" => bySign fun a b => decide (b ≤ a)
    | "min" => bySign fun a b => decide (a ≤ b)
    | "umax" => max old v
    | "umin" => min old v
    | "uinc_wrap" => if v ≤ old then 0 else old + 1
    | "udec_wrap" => if old = 0 || v < old then v else old - 1
    | "usub_cond" => if v ≤ old then old - v else old
    | "usub_sat" => if v ≤ old then old - v else 0
    | _ => v
  Word.wrap w exact

/-- Whether the first of two data is the lesser, a negative zero being less than a positive one. -/
def precedes (x y : Fp) : Bool :=
  (Number.real x).lessThan (.real y) || (x.isZero && y.isZero && x.isNegative && !y.isNegative)

/-- The one of two data that comes last by an order.  What is no number is passed over, or taken if
that is asked for. -/
def extreme (takesNan : Bool) (before : Fp → Fp → Bool) (x y : Fp) : Fp :=
  if x.isNan then (if takesNan then x else y)
  else if y.isNan then (if takesNan then y else x)
  else if before x y then y else x

/-- What an update puts in the place of one datum, given another, at a precision. -/
def ofFps (op : String) (p : Precision) (old v : Fp) : Fp :=
  let exact := match op with
    | "fadd" => old.add v
    | "fsub" => old.sub v
    | "fmax" => extreme false precedes old v
    | "fmin" => extreme false (fun x y => precedes y x) old v
    | "fmaximum" => extreme true precedes old v
    | "fminimum" => extreme true (fun x y => precedes y x) old v
    | _ => v
  p.format.convert exact

/-- What an update puts in the place of one value of a type, given another. -/
def ofScalars (op : String) (t : Ty) (old v : Value) : Value :=
  match t, old, v with
  | .int w, .int a, .int b => .int (ofInts op w a b)
  | .fp p, .real x, .real y => .real (ofFps op p x y)
  | _, _, v => v

/-- What an update puts in the place of one value of a type, given another, in each lane. -/
def apply (op : String) (t : Ty) (old v : Value) : Value :=
  match t, old, v with
  | .vector _ e, .parts xs, .parts ys => .parts (List.zipWith (ofScalars op e) xs ys)
  | t, old, v => ofScalars op t old v

end Ssa.Update

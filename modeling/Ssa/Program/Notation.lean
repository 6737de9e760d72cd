/-
# `Ssa.Program.Notation` — words for types, constants and instructions

Short ways of writing down the parts of a draft: a type by its name with a star for each pointer, a
constant by the name of a way to make it, an instruction by its word.
-/
import Ssa.Program.Draft
import Ssa.Text.Ends

namespace Ssa

/-! ## Types -/

/-- The type of a name without stars.  The name of a named structure follows a percent sign. -/
def Ty.ofName? (cs : List Char) : Option Ty :=
  match cs with
  | '%' :: name => some (.named (String.ofList name))
  | _ =>
    match String.ofList cs with
    | "void" => some .void
    | "label" => some .label
    | "half" => some (.fp .half)
    | "float" => some (.fp .single)
    | "double" => some (.fp .double)
    | _ =>
      match cs with
      | 'i' :: digits => (Decimal.readInt? (String.ofList digits)).map fun n => .int n.toNat
      | _ => none

/-- The pointer type that a number of stars makes of a type. -/
def Ty.starred : Nat → Ty → Ty
  | 0, t => t
  | n + 1, t => starred n t.ref

/-- The type that a text writes. -/
def Ty.ofText? (s : String) : Option Ty :=
  let cs := s.toList.reverse
  (Ty.ofName? (cs.dropWhile (· == '*')).reverse).map
    (Ty.starred (cs.takeWhile (· == '*')).length)

/-! ## Constants -/

namespace Recipe

/-- A constant with a name of its own. -/
def precomputed? : String → Option Recipe
  | "FALSE_I1" => some (.typed (.int 1) (.int 0))
  | "TRUE_I1" => some (.typed (.int 1) (.int 1))
  | "ZERO_I32" => some (.typed (.int 32) (.int 0))
  | "ONE_I32" => some (.typed (.int 32) (.int 1))
  | "ZERO_I64" => some (.typed (.int 64) (.int 0))
  | "ONE_I64" => some (.typed (.int 64) (.int 1))
  | _ => none

/-- The width that follows a word. -/
def widthAfter? (word name : String) : Option Int :=
  if begins word name then
    Decimal.readInt? (String.ofList (name.toList.drop word.toList.length))
  else none

/-- The way of making a constant of a content that a name stands for.  A width is given where the
name does not hold it. -/
def ofName? (name : String) (width : Int) (content : Literal) : Option Recipe :=
  match name with
  | "sint" => some (.signed width content)
  | "uint" => some (.unsigned width content)
  | "half" => some (.typed (.fp .half) content)
  | "float_" => some (.typed (.fp .single) content)
  | "double" => some (.typed (.fp .double) content)
  | _ =>
    match widthAfter? "sint" name, widthAfter? "uint" name with
    | some w, _ => some (.signed w content)
    | none, some w => some (.unsigned w content)
    | none, none => precomputed? name

end Recipe

/-! ## Instructions -/

namespace Draft

/-- The action of a comparison by a word. -/
def comparison? (word predicate : String) (a b : Value) : Option Action :=
  match word with
  | "icmp" => some (match IntPred.ofWord? predicate with
    | some p => .op (.icmp p a b)
    | none => .unknownPredicate a b)
  | "fcmp" => some (match FpPred.ofWord? predicate with
    | some p => .op (.fcmp p a b)
    | none => .unknownPredicate a b)
  | _ => none

/-- The action of a word that takes operands only. -/
def action? (word : String) (operands : List Value) : Option Action :=
  match word, operands with
  | "fneg", [a] => some (.op (.fneg a))
  | "neg", [a] => some (.negate a)
  | "not", [a] => some (.complement a)
  | "select", [c, a, b] => some (.op (.select c a b))
  | "load", [p] => some (.op (.load p))
  | "load_atomic", [p] => some (.op (.atomicLoad p))
  | "extractelement", [a, i] => some (.op (.extractElement a i))
  | "insertelement", [a, b, i] => some (.op (.insertElement a b i))
  | "cmpxchg", [p, a, b] => some (.op (.compareExchange p a b))
  | "ctpop", [a] => some (.intrinsic .ctpop [a])
  | "bswap", [a] => some (.intrinsic .bswap [a])
  | "fma", [a, b, c] => some (.intrinsic .fma [a, b, c])
  | "sadd_with_overflow", [a, b] => some (.intrinsic .saddWithOverflow [a, b])
  | "umul_with_overflow", [a, b] => some (.intrinsic .umulWithOverflow [a, b])
  | _, [a, b] =>
    match IntOp.ofWord? word, FpOp.ofWord? word with
    | some op, _ => some (.op (.int op a b))
    | none, some op => some (.op (.fp op a b))
    | none, none => none
  | _, _ => none

/-- The action without a value of a word that takes operands only. -/
def effect? (word : String) (operands : List Value) : Option Action :=
  match word, operands with
  | "store", [v, p] => some (.op (.store v p))
  | "store_atomic", [v, p] => some (.op (.atomicStore v p))
  | "ret", [] => some (.op (.ret none))
  | "ret", [v] => some (.op (.ret (some v)))
  | "unreachable", [] => some (.op .unreachable)
  | "fence", [] => some (.op .fence)
  | _, _ => none

/-- The operand of a word: a key after a percent sign, or a symbol after an at sign. -/
def Value.ofWord? (s : String) : Option Value :=
  match s.toList with
  | '%' :: word => some (.key (String.ofList word))
  | '@' :: word => some (.symbol (String.ofList word))
  | _ => none

/-- The key and the name of a value: one word for both, or two with an equals sign between them. -/
def identity (s : String) : String × String :=
  let cs := s.toList
  match cs.dropWhile (· != '=') with
  | [] => (s, s)
  | _ :: name => (String.ofList (cs.takeWhile (· != '=')), String.ofList name)

end Draft

end Ssa

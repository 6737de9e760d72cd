/-
# `Ssa.Program.Constant` — constants

A constant has a type and a content.  Numbers are kept as they were given: an integer is neither
wrapped to its width nor turned into floating point before a program is written out or run.
-/
import Ssa.Program.TypeTable
import Ssa.Number.Bits
import Ssa.Number.Decimal
import Ssa.Number.Word

namespace Ssa

/-- A content that has not been given a type yet. -/
inductive Literal where
  | null
  | undef
  | int (value : Int)
  | truth (value : Bool)
  | real (value : Fp)
  | list (elements : List Literal)
deriving Repr, Inhabited

/-- A constant. -/
inductive Constant where
  | null (type : Ty)
  | undef (type : Ty)
  | int (type : Ty) (value : Int)
  | truth (type : Ty) (value : Bool)
  | real (type : Ty) (value : Fp)
  | aggregate (type : Ty) (elements : List Constant)
deriving Repr, Inhabited

namespace Constant

/-- The type of a constant. -/
def type : Constant → Ty
  | .null t | .undef t | .int t _ | .truth t _ | .real t _ | .aggregate t _ => t

/-! ## Making constants -/

/-- A constant of a content that is no list.  A vector gets the content in each place; the null
integer is zero. -/
def ofScalar (content : Ty → Constant) : Ty → Except Failure Constant
  | .void => .error .refused
  | .vector n e => do
    let c ← ofScalar content e
    pure (.aggregate (.vector n e) (List.replicate n c))
  | t => .ok (content t)

/-- Null of a type that is no vector. -/
def nullContent : Ty → Constant
  | .int w => .int (.int w) 0
  | t => .null t

/-- The type at a position of a list of types. -/
def placeIn (ts : List Ty) (i : Nat) : Except Failure Ty :=
  match ts[i]? with
  | some t => .ok t
  | none => .error .beyondEnd

/-- The type of a place that is to be filled. -/
def placeType (types : TypeTable) (t : Ty) (i : Nat) : Except Failure Ty :=
  match t with
  | .array n e | .vector n e => if i < n then .ok e else .error .beyondEnd
  | .struct _ ts => placeIn ts i
  | .named name => match types.fields? name with
    | some ts => placeIn ts i
    | none => .error .typeMismatch
  | _ => .error .lacksAttribute

/-- Check that no place is left over.  A type without places takes the empty list. -/
def checkFilled (types : TypeTable) (t : Ty) (count : Nat) : Except Failure Unit :=
  let exactly (n : Nat) : Except Failure Unit := if count = n then .ok () else .error .badValue
  match t with
  | .array n _ | .vector n _ => exactly n
  | .struct _ ts => exactly ts.length
  | .named name => match types.fields? name with
    | some ts => exactly ts.length
    | none => .error .refused
  | .void => .error .refused
  | _ => .ok ()

mutual

/-- The constant of a type and a content. -/
def make (types : TypeTable) (t : Ty) : Literal → Except Failure Constant
  | .null => ofScalar nullContent t
  | .undef => ofScalar .undef t
  | .int v => ofScalar (.int · v) t
  | .truth v => ofScalar (.truth · v) t
  | .real v => ofScalar (.real · v) t
  | .list elements => do
    let cs ← makePlaces types t 0 elements
    checkFilled types t cs.length
    pure (.aggregate t cs)

/-- The constants of a list of contents, which fill the places of a type from a position on. -/
def makePlaces (types : TypeTable) (t : Ty) (i : Nat) :
    List Literal → Except Failure (List Constant)
  | [] => .ok []
  | l :: ls => do
    let e ← placeType types t i
    let c ← make types e l
    let cs ← makePlaces types t (i + 1) ls
    pure (c :: cs)

end

/-- The number in a range of width digits around zero that agrees with an integer in its last
digits, as a constant. -/
def signed (w : Nat) (v : Int) : Except Failure Constant :=
  if w = 0 then .error .negativeShift else .ok (.int (.int w) (Word.toSigned w v))

/-- The number without sign that agrees with an integer in its last digits, as a constant. -/
def unsigned (w : Nat) (v : Int) : Constant := .int (.int w) (Word.wrap w v)

/-! ## Text -/

/-- The nearest double of an integer; integers beyond the greatest double have none. -/
def doubleOfInt (v : Int) : Except Failure Fp :=
  match Format.double.round false v with
  | .infinity _ => .error .integerTooLarge
  | x => .ok x

/-- The datum that an integer is written as at a precision.  One that has no double cannot be
brought to the narrower precisions at all. -/
def fpOfInt (p : Precision) (v : Int) : Except Failure Fp :=
  match p, doubleOfInt v with
  | .double, outcome => outcome
  | _, .ok x => .ok x
  | _, .error _ => .error .notAWord

/-- The digits of a floating-point value in the double format, padded with blanks. -/
def digitsText (x : Fp) : String :=
  let digits := "0x" ++ String.ofList (Nat.toDigits 16 (Format.double.encode x))
  String.ofList (List.replicate (16 - digits.length) ' ') ++ digits

/-- The text of a floating-point value at a precision.  A value beyond the range of the narrowest
precision has none. -/
def realText (p : Precision) (x : Fp) : Except Failure String :=
  let rounded := p.format.convert x
  if p = .half && x.isFinite && rounded.isInfinite then .error .outOfRange
  else .ok (digitsText rounded)

/-- The datum of an integer that a precision takes.  The narrowest one has no infinity for integers
beyond its range: they are rounded as the next wider precision does. -/
def roundInt (p : Precision) (x : Fp) : Fp :=
  let rounded := p.format.convert x
  if p = .half && x.isFinite && rounded.isInfinite then Format.single.convert x else rounded

/-- The text of an integer at a precision. -/
def intText (p : Precision) (v : Int) : Except Failure String :=
  (fpOfInt p v).map fun x => digitsText (roundInt p x)

/-- The text of a number, shown as it is, in a type that has no notation of its own for numbers. -/
def misplacedNumber (shown : String) : Ty → Except Failure String
  | .array .. | .vector .. | .struct .. | .named _ => .error .typeMismatch
  | _ => .ok shown

/-- The text of the empty list in a type without places. -/
def misplacedList : Ty → Except Failure String
  | .fp .double => .error .typeMismatch
  | .fp _ => .error .notAWord
  | _ => .ok "[]"

/-- The text of the null of a type. -/
def nullText : Ty → String
  | .fp _ => "0.0"
  | .pointer .. => "null"
  | _ => "zeroinitializer"

/-- The brackets around the places of an aggregate. -/
def brackets : Ty → String × String
  | .array .. => ("[", "]")
  | .vector .. => ("<", ">")
  | .struct true _ => ("<\x7b", "\x7d>")
  | _ => ("\x7b", "\x7d")

mutual

/-- The text of the content of a constant. -/
def reference : Constant → Except Failure String
  | .null t => .ok (nullText t)
  | .undef _ => .ok "undef"
  | .int t v => match t with
    | .fp p => intText p v
    | t => misplacedNumber (toString v) t
  | .truth t v => match t with
    | .int _ => .ok (if v then "true" else "false")
    | .fp p => intText p (if v then 1 else 0)
    | t => misplacedNumber (if v then "True" else "False") t
  | .real t x => match t with
    | .fp p => realText p x
    | t => misplacedNumber x.display t
  | .aggregate t cs =>
    if t.hasPlaces then do
      let parts ← typedReferences cs
      pure ((brackets t).1 ++ ", ".intercalate parts ++ (brackets t).2)
    else misplacedList t

/-- The texts of constants, each after its type. -/
def typedReferences : List Constant → Except Failure (List String)
  | [] => .ok []
  | c :: cs => do
    let text ← reference c
    let rest ← typedReferences cs
    pure ((c.type.text ++ " " ++ text) :: rest)

end

/-- The text of a constant with its type. -/
def text (c : Constant) : Except Failure String :=
  c.reference.map fun s => c.type.text ++ " " ++ s

end Constant

end Ssa

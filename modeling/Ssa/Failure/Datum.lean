/-
# `Ssa.Failure.Datum` — what a message may mention

A message mentions numbers, texts, and collections of them.  A datum is shown plainly, or displayed
so that it can be told what it is: a text displayed has quotation marks, and what is in a collection
is always displayed.  A datum has parts, which are reached by name, by position or by key.
-/
import Ssa.Number.Decimal
import Ssa.Text.Quoted

namespace Ssa

/-- A value that a message may mention. -/
inductive Datum where
  | nothing
  | truth (b : Bool)
  | int (n : Int)
  | real (x : Fp)
  | text (s : String)
  | list (items : List Datum)
  /-- Values under keys, in order. -/
  | table (keys : List String) (values : List Datum)
  /-- The sort of a datum, by name. -/
  | sort (name : String)
deriving Repr, Inhabited

instance : Coe String Datum := ⟨.text⟩

instance : Coe Int Datum := ⟨.int⟩

namespace Datum

/-- Why a datum cannot be found or shown as asked. -/
inductive Fault where
  /-- There is nothing under a key. -/
  | missing (key : String)
  /-- There is nothing at a position. -/
  | beyondEnd
  /-- What is asked for is not written correctly, or does not go together. -/
  | malformed
  /-- The datum is not of a sort that can be asked so. -/
  | unfit
  /-- There is no part of a name. -/
  | lacking
  /-- A number is out of range. -/
  | tooLarge
deriving DecidableEq, Repr

/-! ## Text -/

mutual

/-- A datum as it is displayed. -/
def display : Datum → String
  | .nothing => "None"
  | .truth b => if b then "True" else "False"
  | .int n => toString n
  | .real x => x.display
  | .text s => Ssa.display s
  | .list items => "[" ++ ", ".intercalate (displays items) ++ "]"
  | .table keys values =>
    let entries := List.zipWith (fun k v => Ssa.display k ++ ": " ++ v) keys (displays values)
    "\x7b" ++ ", ".intercalate entries ++ "\x7d"
  | .sort name => "<class '" ++ name ++ "'>"

/-- The data of a list as they are displayed. -/
def displays : List Datum → List String
  | [] => []
  | d :: ds => d.display :: displays ds

end

/-- A datum as it is shown: a text is itself. -/
def shown : Datum → String
  | .text s => s
  | d => d.display

/-- A character by number unless it is of the first alphabet. -/
def plainChar (c : Char) : String :=
  if c.toNat < 0x80 then String.singleton c
  else if c.toNat < 0x100 then "\\x" ++ hexPadded 2 c.toNat
  else if c.toNat < 0x10000 then "\\u" ++ hexPadded 4 c.toNat
  else "\\U" ++ hexPadded 8 c.toNat

/-- A datum as it is displayed in the characters of the first alphabet. -/
def displayPlain (d : Datum) : String := String.join (d.display.toList.map plainChar)

/-! ## Parts -/

/-- The number that a datum is as a key of a table of numbers. -/
def keyNumber? : Datum → Option Int
  | .int n => some n
  | .truth b => some (if b then 1 else 0)
  | .real x => if x.isFinite && x.toRat.den = 1 then some x.toRat.num else none
  | _ => none

/-- Whether a datum can be a key: a collection cannot. -/
def isKey : Datum → Bool
  | .list _ | .table .. => false
  | _ => true

/-- The name of the sort of a datum. -/
def sortName : Datum → String
  | .nothing => "NoneType"
  | .truth _ => "bool"
  | .int _ => "int"
  | .real _ => "float"
  | .text _ => "str"
  | .list _ => "list"
  | .table .. => "dict"
  | .sort _ => "type"

/-- The part of an integer of a name. -/
def intPart (n : Int) (name : String) : Option Datum :=
  match name with
  | "real" | "numerator" => some (.int n)
  | "imag" => some (.int 0)
  | "denominator" => some (.int 1)
  | _ => none

/-- The part of a name. -/
def partNamed (d : Datum) (name : String) : Except Fault Datum :=
  let found : Option Datum := match d, name with
    | d, "__class__" => some (.sort d.sortName)
    | .truth b, name => intPart (if b then 1 else 0) name
    | .int n, name => intPart n name
    | .real x, "real" => some (.real x)
    | .real _, "imag" => some (.real (.zero false))
    | .sort s, "__name__" | .sort s, "__qualname__" => some (.text s)
    | .sort _, "__module__" => some (.text "builtins")
    | _, _ => none
  match found with
  | some part => .ok part
  | none => .error .lacking

/-- The part at a position of a list of parts. -/
def nth (parts : List Datum) (i : Nat) : Except Fault Datum :=
  match parts[i]? with
  | some part => .ok part
  | none => .error .beyondEnd

/-- The part at a position. -/
def partAt (d : Datum) (i : Nat) : Except Fault Datum :=
  match d with
  | .list items => nth items i
  | .text s => nth (s.toList.map fun c => .text (String.singleton c)) i
  | .table .. => .error (.missing (toString i))
  | _ => .error .unfit

/-- The part under a key. -/
def partUnder (d : Datum) (key : String) : Except Fault Datum :=
  match d with
  | .table keys values =>
    match (keys.zip values).lookup key with
    | some part => .ok part
    | none => .error (.missing key)
  | _ => .error .unfit

end Datum

end Ssa

/-
# `Ssa.Generic` — values at the boundary of an engine

Arguments and results are values together with a type.  An integer is wrapped to its width on the
way in and can be read with or without sign on the way out; a result of a function that returns
nothing reads as zero.
-/
import Ssa.Exec.Memory

namespace Ssa

/-- A value with a type. -/
structure GenericValue where
  type : Ty
  payload : Value
deriving Repr, Inhabited

namespace GenericValue

/-- The type of pointers that are given without one. -/
def opaquePointer : Ty := Ty.ref (.int 8)

/-- Check that an integer is within the signed range of a type. -/
def checkSigned (t : Ty) (n : Int) : Except Failure Unit :=
  match t with
  | .int w =>
    if w = 0 then .error .negativeShift
    else if Word.fitsSigned w n then .ok ()
    else .error (.doesNotFit n t)
  | _ => .error .lacksAttribute

/-- An integer of a type, wrapped to its width.  A signed one has to be within range. -/
def ofInt (t : Ty) (v : Value) (signed : Bool) : Except Failure GenericValue := do
  let n ← v.toInt
  if signed then checkSigned t n
  match t with
  | .int w => pure ⟨t, .int (Word.wrap w n)⟩
  | _ => throw .lacksAttribute

/-- A floating-point value, brought to a type. -/
def ofFp (t : Ty) (v : Value) : Except Failure GenericValue := do
  let x ← v.toFp
  return ⟨t, ← (Value.real x).normalize t⟩

/-- A pointer, taken as it is. -/
def ofPointer (v : Value) (t : Option Ty) : GenericValue :=
  ⟨t.getD opaquePointer, v⟩

/-- The reading of an integer as a type. -/
def readAs (t : Ty) (signed : Bool) (n : Int) : Except Failure Int :=
  match t with
  | .int w =>
    if signed then (if w = 0 then .error .negativeShift else .ok (Word.toSigned w n))
    else .ok (Word.wrap w n)
  | _ => .ok n

/-- The integer that a value reads as. -/
def toInt (g : GenericValue) (signed : Bool) : Except Failure Int :=
  match g.payload with
  | .null => .ok 0
  | .real x => x.toInt >>= readAs g.type signed
  | v => match v.int? with
    | some n => readAs g.type signed n
    | none => .error (.noIntegerView g.type)

/-- The floating-point datum that a value reads as. -/
def toFp (g : GenericValue) : Except Failure Fp :=
  match g.payload with
  | .null => .ok (.zero false)
  | v => v.toFp

end GenericValue

/-- What a run gives: a value, unless the function returns nothing. -/
abbrev RunResult := Option GenericValue

namespace RunResult

/-- The integer that a result reads as. -/
def toInt (r : RunResult) (signed : Bool) : Except Failure Int :=
  match r with
  | none => .ok 0
  | some g => g.toInt signed

/-- The floating-point datum that a result reads as. -/
def toFp (r : RunResult) : Except Failure Fp :=
  match r with
  | none => .ok (.zero false)
  | some g => g.toFp

end RunResult

/-! ## Recipes -/

/-- How a value of the boundary is to be made. -/
inductive GenericRecipe where
  | int (type : Ty) (v : Value) (signed : Bool)
  | real (type : Ty) (v : Value)
  | pointer (v : Value) (type : Option Ty)
deriving Repr, Inhabited

namespace GenericRecipe

/-- The types that a recipe writes out. -/
def types : GenericRecipe → List Ty
  | .int t .. | .real t _ | .pointer _ (some t) => [t]
  | .pointer _ none => []

/-- The value that a recipe makes. -/
def make : GenericRecipe → Except Failure GenericValue
  | .int t v signed => GenericValue.ofInt t v signed
  | .real t v => GenericValue.ofFp t v
  | .pointer v t => .ok (GenericValue.ofPointer v t)

end GenericRecipe

/-! ## Display -/

/-- A value as it is displayed, with the contents of cells up to a depth. -/
def Value.display (s : Storage) : (depth : Nat) → Value → String
  | _, .null => "None"
  | _, .int n => toString n
  | _, .truth b => if b then "True" else "False"
  | _, .real x => x.display
  | 0, .cell _ => "..."
  | depth + 1, .cell id =>
    match s.cell? id with
    | some c => "<Cell " ++ c.type.text ++ " = " ++ display s depth c.value ++ ">"
    | none => "None"
  | _, .function _ _ name type =>
    "<ir.Function " ++ Ssa.display name ++ " of type '" ++ type.text ++ "'>"
  | _, .text t => Ssa.display t
  | _, .parts _ => "..."

/-- A value of an engine's boundary as it is displayed. -/
def GenericValue.display (s : Storage) (g : GenericValue) : String :=
  "GenericValue(" ++ g.type.text ++ ", " ++ g.payload.display s (s.cells.size + 1) ++ ")"

/-- A result as it is displayed. -/
def RunResult.display (s : Storage) (r : RunResult) : String :=
  "FuncallResult(" ++ (match r with
    | none => "None"
    | some g => g.display s) ++ ")"

end Ssa

/-
# `Ssa.Exec.Boundary` — into compiled code and back

Values cross the boundary between compiled code and its caller by way of carriers, one for each
type that can be passed.
-/
import Ssa.Exec.Compiled

namespace Ssa.Compiled

/-- How a value of a type is passed to and from compiled code. -/
inductive Carrier where
  | nothing
  | truth
  | word (width : Nat)
  | single
  | double
  | address
deriving DecidableEq, Repr, Inhabited

/-- The widths of integers that can be passed. -/
def passableWidths : List Nat := [8, 16, 32, 64]

/-- The carrier of a type. -/
def carrier (t : Ty) : Except Failure Carrier :=
  match t with
  | .void => .ok .nothing
  | .int w =>
    if w = 1 then .ok .truth
    else if passableWidths.contains w then .ok (.word w)
    else .error (.unpassable (.type t))
  | .fp .single => .ok .single
  | .fp .double => .ok .double
  | .pointer .. => .ok .address
  | t => .error (.unpassable (.type t))

/-- The double of a number that is passed. -/
def passedFp (v : Value) : Except Failure Fp :=
  match v.number? with
  | none => .error .badArgument
  | some n => match n.toFp with
    | .ok x => .ok x
    | .error _ => .error .badArgument

/-- A text in storage of its own: four octets for each character, and four zeros at its end. -/
def textOctets (s : String) : List UInt8 :=
  s.toList.flatMap (fun c => Layout.octetsOf 4 c.toNat) ++ Layout.gap 4

/-- The address of a text in storage. -/
def passText (s : String) : Exec Value := do
  let bytes := textOctets s
  let id ← Exec.reserve bytes.length
  Exec.setOctets (Storage.addressOf id) bytes
  pure (.int (Storage.addressOf id))

/-- The integer that is passed. -/
def passedInt (w : Nat) (v : Value) : Except Failure Value :=
  match v.int? with
  | some n => .ok (.int (Word.wrap w n))
  | none => .error .badArgument

/-- The value that compiled code gets for an argument. -/
def Carrier.pass (c : Carrier) (v : Value) : Exec Value :=
  match c with
  | .nothing => pure .null
  | .truth => pure (.ofBool v.isTrue)
  | .word w => Exec.lift (passedInt w v)
  | .single => Exec.lift ((passedFp v).map fun x => .real (Format.single.convert x))
  | .double => Exec.lift ((passedFp v).map .real)
  | .address => match v with
    | .null => pure (.int 0)
    | .text s => passText s
    | v => Exec.lift (passedInt 64 v)

/-- The value that the caller gets for a result. -/
def Carrier.result (c : Carrier) (v : Value) : Value :=
  match c, v with
  | .nothing, _ => .null
  | .address, .int 0 => .null
  | _, v => v

/-- Call a compiled function of the given type by name. -/
def invoke (p : Program) (steps : Nat) (name : String) (result : Ty) (params : List Ty)
    (args : List Value) : Exec Value := do
  if params.length < args.length then throw (.unpassable .further)
  let back ← Exec.lift (carrier result)
  let carriers ← Exec.lift (params.mapM carrier)
  match (p.module.functionIndex? name).bind p.module.function? with
  | none => throw (.noBody name)
  | some f =>
    if f.isDeclaration then throw (.noBody name)
    let passed ← (carriers.zip args).mapM fun (c, v) => c.pass v
    return back.result (← Machine.call rules p steps f passed)

end Ssa.Compiled

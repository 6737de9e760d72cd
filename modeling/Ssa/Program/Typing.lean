/-
# `Ssa.Program.Typing` — the types that instructions give

The builder refuses an instruction whose operands do not go together.  It looks at few things: what
it lets pass may still be wrong, and is found when the module is checked as a whole.
-/
import Ssa.Program.Module

namespace Ssa

namespace Ty

/-- The place among a number of places that a position stands for: a negative one counts from the
end. -/
def position? (count : Nat) (i : Int) : Option Nat :=
  let j := if i < 0 then i + count else i
  if 0 ≤ j && j < count then some j.toNat else none

/-- The type at a position of a list of types. -/
def memberAt? (ts : List Ty) (i : Int) : Option Ty := (position? ts.length i).bind (ts[·]?)

/-- The type one step into an aggregate.  The places of an array are only counted from its start. -/
def part? (types : TypeTable) (i : Int) : Ty → Option Ty
  | .array n e => if 0 ≤ i && i < n then some e else none
  | .vector n e => (position? n i).map fun _ => e
  | .struct _ ts => memberAt? ts i
  | .named name => (types.fields? name).bind (memberAt? · i)
  | _ => none

/-- The type at a place of an aggregate. -/
def at? (types : TypeTable) (t : Ty) (path : List Int) : Option Ty :=
  path.foldlM (fun t i => t.part? types i) t

end Ty

/-- The position that an index of a structure stands for. -/
def Operand.position : Operand → Except Failure Int
  | .const (.int _ v) => .ok v
  | .const (.truth _ b) => .ok (if b then 1 else 0)
  | .const _ => .error .typeMismatch
  | _ => .error .lacksAttribute

/-- The type one step on from an address, given the index of the step. -/
def stepType (types : TypeTable) (index : Operand) (t : Ty) : Except Failure Ty :=
  let whenInt (next : Except Failure Ty) : Except Failure Ty :=
    if index.type.isInt then next else .error .typeMismatch
  let field (ts : List Ty) : Except Failure Ty := do
    match Ty.memberAt? ts (← index.position) with
    | some t => pure t
    | none => throw .beyondEnd
  match t with
  | .pointer t _ => whenInt (.ok t)
  | .array _ e => whenInt (.ok e)
  | .struct _ ts => whenInt (field ts)
  | .named name => whenInt (match types.fields? name with
    | some ts => field ts
    | none => do
      discard index.position
      throw .typeMismatch)
  | _ => .error .lacksAttribute

/-- The type of pointers to a type.  There are none to nothing. -/
def pointerTo (t : Ty) (space : Nat) : Except Failure Ty :=
  if t = .void then .error .refused else .ok (.pointer t space)

/-- What is known after following some indices from an address: the type before the last step, the
type reached, and the address space of the last pointer passed. -/
structure Walk where
  before : Ty
  reached : Ty
  space : Nat

/-- Follow one more index. -/
def Walk.step (types : TypeTable) (w : Walk) (index : Operand) : Except Failure Walk := do
  let next ← stepType types index w.reached
  let space := match w.reached with
    | .pointer _ s => s
    | _ => w.space
  pure ⟨w.reached, next, space⟩

/-- The type of the address at the end of a path of indices.  A step from a pointer to what is no
pointer stays with the type of the pointer. -/
def addressType (types : TypeTable) (pointer : Operand) (indices : List Operand) :
    Except Failure Ty := do
  if !pointer.type.isPointer then throw .lacksAttribute
  let w ← indices.foldlM (Walk.step types) ⟨.void, pointer.type, 0⟩
  if !w.reached.isPointer && w.before.isPointer then pure w.before
  else pointerTo w.reached w.space

/-- The type of the function that an operand denotes. -/
def functionType : Operand → Except Failure Ty
  | .const _ => .error .lacksAttribute
  | .local _ t | .global _ t =>
    match t with
    | .pointer (.function r ps v) _ => .ok (.function r ps v)
    | .function r ps v => .ok (.function r ps v)
    | _ => .error .typeMismatch

/-- Check arguments against parameters in order: one for each is needed, and further ones pass. -/
def checkArguments : List Ty → List Operand → Except Failure Unit
  | [], _ => .ok ()
  | _ :: _, [] => .error .beyondEnd
  | p :: ps, a :: as => if a.type = p then checkArguments ps as else .error .typeMismatch

/-- The type of the value of a call. -/
def callType (callee : Operand) (args : List Operand) : Except Failure Ty := do
  match ← functionType callee with
  | .function r ps _ =>
    checkArguments ps args
    pure r
  | _ => throw .typeMismatch

/-- What the pointer of an access points to. -/
def accessType (pointer : Operand) : Except Failure Ty :=
  match pointer.type with
  | .pointer t _ => .ok t
  | _ => .error .typeMismatch

/-- Check that a value can be stored through a pointer. -/
def checkStore (value pointer : Operand) : Except Failure Ty := do
  let t ← accessType pointer
  if t = value.type then pure .void else throw .typeMismatch

/-- The type that two operands share. -/
def sharedType (a b : Operand) : Except Failure Ty :=
  if a.type = b.type then .ok a.type else .error .badValue

/-- The type of a place in an aggregate. -/
def placeType (types : TypeTable) (a : Operand) (path : List Int) : Except Failure Ty :=
  match a.type.at? types path with
  | some t => .ok t
  | none => .error .typeMismatch

/-- The type of an element of a vector. -/
def elementType (a index : Operand) : Except Failure Ty :=
  match a.type with
  | .vector _ e => if index.type.isInt then .ok e else .error .typeMismatch
  | _ => .error .typeMismatch

/-- The type of the value of an operation.  The type asked for is that of a conversion or a
phi, whose operands do not determine it. -/
def OpOver.typeOf (types : TypeTable) (asked : Ty) : Op → Except Failure Ty
  | .int _ a b | .fp _ a b => sharedType a b
  | .fneg a => .ok a.type
  | .icmp _ a _ | .fcmp _ a _ => .ok a.type.truth
  | .cast .. | .phi _ => .ok asked
  | .select _ a b => if a.type = b.type then .ok a.type else .error .refused
  | .alloca t count =>
    match count with
    | some n => if n.type.isInt then pointerTo t 0 else .error .refused
    | none => pointerTo t 0
  | .load p | .atomicLoad p => accessType p
  | .store v p | .atomicStore v p => checkStore v p
  | .call f args | .invoke f args _ _ => callType f args
  | .br _ | .condBr .. | .switch .. | .ret _ | .unreachable | .indirectBr .. | .fence => .ok .void
  | .address p is => addressType types p is
  | .extractValue a path => placeType types a path
  | .insertValue a b path => do
    let t ← placeType types a path
    if b.type = t then pure a.type else throw .typeMismatch
  | .extractElement a i => elementType a i
  | .insertElement a b i => do
    let t ← elementType a i
    if b.type = t then pure a.type else throw .typeMismatch
  | .atomicUpdate _ _ v => .ok v.type
  | .compareExchange _ _ v => .ok (.struct false [v.type, .int 1])
  | .comment text => if text.toList.contains '\n' then .error .refused else .ok .void

end Ssa

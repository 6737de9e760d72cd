/-
# `Ssa.Session.Handle` — functions of a module, from outside

A handle denotes a function without owning it.  Most handles are places in the table of a module,
and are followed through the number of the module each time they are used.  A bare handle denotes a
function directly; which module the function belongs to, and what its type is, it does not tell.
-/
import Ssa.Session.Lifetime

namespace Ssa

/-- A handle to a function: a place in the table of a module, or the function itself. -/
inductive Handle where
  | member (module index : Nat)
  | bare (module symbol : Nat)
deriving DecidableEq, Repr, Inhabited

/-- Whether a handle is bare. -/
def Handle.isBare : Handle → Bool
  | .bare .. => true
  | .member .. => false

/-- The place of a handle in the table of its module. -/
def Handle.index? : Handle → Option Nat
  | .member _ i => some i
  | .bare .. => none

/-- The number of the module that a handle goes through. -/
def Handle.moduleId? : Handle → Option Nat
  | .member m _ => some m
  | .bare .. => none

namespace Session

/-- The module and the position in it that a handle leads to. -/
def resolve : Handle → Act (Nat × Nat)
  | .bare m i => pure (m, i)
  | .member m i => do
    let r ← liveModule m
    match r.table[i]? with
    | some symbol => pure (m, symbol)
    | none => throw .beyondEnd

/-- The function at a position of a module. -/
def functionAt (m symbol : Nat) : Act Function := do
  match (← moduleRecord m).module.function? symbol with
  | some f => pure f
  | none => throw .lacksAttribute

/-- The function that a handle leads to. -/
def functionOf (h : Handle) : Act Function := do
  let (m, symbol) ← resolve h
  functionAt m symbol

/-- The module of a handle.  A bare handle tells none. -/
def moduleOf : Handle → Act (Option Nat)
  | .bare .. => pure none
  | .member m _ => do
    require .module m
    pure (some m)

/-- A bare handle to the function that a handle leads to. -/
def toBare (h : Handle) : Act Handle := do
  let (m, symbol) ← resolve h
  pure (.bare m symbol)

/-- The name of a function. -/
def functionName (h : Handle) : Act String := do return (← functionOf h).name

/-- The function that a handle leads to, of which the type is to be told. -/
def signedFunction (h : Handle) : Act Function := do
  let f ← functionOf h
  if h.isBare then throw (.unknownSignature f.name)
  pure f

/-- The type of a function. -/
def signature (h : Handle) : Act Ty := do return (← signedFunction h).type

/-- A parameter of a function: its name and its type. -/
def parameter (h : Handle) (index : Int) : Act (String × Ty) := do
  let f ← functionOf h
  let outside := Failure.parameterIndex index f.name f.params.length
  if index < 0 then throw outside
  match f.params[index.toNat]? with
  | some t => pure (f.localName index.toNat, t)
  | none => throw outside

/-- Append a block to a function. -/
def appendBlock (h : Handle) (label : String) : Act String := do
  let (m, symbol) ← resolve h
  onWorkbench m do
    let b ← Build.appendBlock symbol label
    return ((← get).module.function? symbol).elim "" (·.blockName b)

/-- The names of the blocks of a function. -/
def blockNames (h : Handle) : Act (List String) := do
  return (← functionOf h).blocks.toList.map Block.name

end Session

end Ssa

/-
# `Ssa.Session.Symbols` — what a module declares

The names of a module's functions and global variables are one space.  A function enters the table
of its module when it is declared through the session, or when it is first found by a look-up or a
listing; its place in the table is what handles to it hold.
-/
import Ssa.Session.Handle
import Ssa.Validity.Check

namespace Ssa.Session

/-! ## Functions -/

/-- Enter a function into the table, and give a handle to it. -/
def adopt (m symbol : Nat) : Build Handle := do
  Build.adopt symbol
  return .member m ((← get).table.idxOf symbol)

/-- The parts of a function's type. -/
def functionType : Ty → Except Failure (Ty × List Ty × Bool)
  | .function r ps v => .ok (r, ps, v)
  | _ => .error .lacksAttribute

/-- Declare a function.  Its name must be new to the module. -/
def addFunction (m : Nat) (name : String) (type : Ty) : Act Handle := do
  let r ← liveModule m
  if (r.module.index? name).isSome then throw (.duplicateSymbol name r.name)
  let (result, params, variadic) ← lift (functionType type)
  onWorkbench m do
    let symbol ← Build.declare (·.declareFunction name result params variadic)
    adopt m symbol

/-- Declare a function without a place in the table. -/
def declareOutside (m : Nat) (name : String) (type : Ty) : Act Handle := do
  require .module m
  let (result, params, variadic) ← lift (functionType type)
  return .bare m (← onWorkbench m
    (Build.declare (·.declareFunction name result params variadic)))

/-- Find a function by name. -/
def lookup (m : Nat) (name : String) : Act (Option Handle) := do
  let r ← liveModule m
  match r.module.functionIndex? name with
  | some symbol => return some (← onWorkbench m (adopt m symbol))
  | none => pure none

/-- Find a function by name, or declare it.  A function that is there keeps its type. -/
def getOrDeclare (m : Nat) (name : String) (type : Ty) : Act Handle := do
  match ← lookup m name with
  | none => addFunction m name type
  | some h =>
    let actual ← signature h
    if actual ≠ type then
      note (.typeIgnored name (← moduleRecord m).name actual type)
    pure h

/-- Handles to all functions of a module, in the order of the table. -/
def functions (m : Nat) : Act (List Handle) := do
  let r ← liveModule m
  onWorkbench m (r.module.functionIndices.forM Build.adopt)
  return (List.range (← moduleRecord m).table.length).map (.member m ·)

/-! ## Global variables -/

/-- A global variable of a module. -/
structure GlobalRef where
  module : Nat
  symbol : Nat
deriving DecidableEq, Repr, Inhabited

/-- What is known of a global variable. -/
def variableOf (g : GlobalRef) : Act Variable := do
  match (← moduleRecord g.module).module.variableAt? g.symbol with
  | some v => pure v
  | none => throw .lacksAttribute

/-- Declare a global variable.  Its name must be new to the module. -/
def addGlobal (m : Nat) (name : String) (type : Ty) : Act GlobalRef := do
  require .module m
  return ⟨m, ← onWorkbench m (Build.declare (·.addVariable name type))⟩

/-- Bind the initial value of a global variable of the module. -/
def setInitializer (m : Nat) (g : GlobalRef) (value : Constant) : Act Unit := do
  let r ← liveModule m
  if g.module ≠ m then
    let v ← variableOf g
    throw (.foreign s!"global '{v.name}'" (← moduleRecord g.module).name r.name)
  modifyModule m fun r => { r with module := r.module.setInitializer g.symbol (.const value) }

/-! ## Named structures -/

/-- What a context knows of a named structure. -/
def structureOf (context : Nat) (name : String) : Act NamedType := do
  return ((← contextRecord context).types.find name).getD ⟨name, none⟩

/-- The named structure of a context, which has to be live. -/
def identify (context : Nat) (name : String) : Act NamedType := do
  require .context context
  mention context (.named name)
  structureOf context name

/-- Give a named structure its body. -/
def defineBody (context : Nat) (name : String) (fields : List Ty) : Act NamedType := do
  for t in fields do mention context t
  let types ← lift ((← contextRecord context).types.define name fields)
  modifyContext context fun c => { c with types }
  structureOf context name

/-! ## Drafts -/

/-- Apply a draft to a module. -/
def build (m : Nat) (d : Draft) : Act Unit := do
  if !(d.types.isEmpty && d.globals.isEmpty && d.functions.isEmpty) then require .module m
  onWorkbench m d.apply

/-- Build the body of a function. -/
def buildBody (h : Handle) (blocks : List Draft.Block) : Act Unit := do
  let (m, symbol) ← resolve h
  onWorkbench m (Draft.buildBody symbol blocks)

/-! ## Text and check -/

/-- The text of a module. -/
def render (m : Nat) : Act String := do
  let r ← liveModule m
  let c ← contextRecord r.context
  let (text, module) := r.module.render c.types
  modifyModule m fun r => { r with module }
  lift text

/-- Check a module. -/
def verify (m : Nat) : Act Unit := do
  discard (render m)
  let r ← moduleRecord m
  let c ← contextRecord r.context
  lift (r.module.check c.types)

/-- Whether a module passes its check. -/
def isValid (m : Nat) : Act Bool := do
  try
    verify m
    pure true
  catch f =>
    if f.isVerification then pure false else throw f

end Ssa.Session

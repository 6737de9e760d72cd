/-
# `Ssa.Program.Module` — blocks, functions, modules

A function lists its values, parameters first, then instructions in the order of their creation;
their numbers are positions in that list.  A module lists its global variables and functions in
the order of their declaration; an operand refers to them by position.
-/
import Ssa.Program.Instr
import Ssa.Program.Scope

namespace Ssa

/-- A block: a name and a list of instructions. -/
structure Block where
  name : String
  instrs : List Instr
deriving Repr, Inhabited

/-- Whether an instruction of a block ends it. -/
def Block.isTerminated (b : Block) : Bool := b.instrs.any (·.op.isTerminator)

/-- What is known of a value of a function apart from how it is computed. -/
structure Local where
  name : String
  type : Ty
  form : Form
deriving Repr, Inhabited

/-- A function.  Without blocks it is a declaration. -/
structure Function where
  name : String
  result : Ty
  params : List Ty
  variadic : Bool
  scope : Scope
  locals : Array Local
  blocks : Array Block
deriving Repr, Inhabited

namespace Function

/-- The type of a function. -/
def type (f : Function) : Ty := .function f.result f.params f.variadic

/-- Whether a function has no body. -/
def isDeclaration (f : Function) : Bool := f.blocks.isEmpty

/-- The name of a value. -/
def localName (f : Function) (id : Nat) : String := ((f.locals[id]?).map Local.name).getD ""

/-- How a value came to be. -/
def localForm (f : Function) (id : Nat) : Form := ((f.locals[id]?).map Local.form).getD .effect

/-- The name of a block. -/
def blockName (f : Function) (b : Nat) : String := ((f.blocks[b]?).map Block.name).getD ""

/-- Bring a name into use for a further value. -/
def addLocal (f : Function) (name : String) (type : Ty) (form : Form) : Nat × Function :=
  let (name, scope) := f.scope.register name
  (f.locals.size, { f with scope, locals := f.locals.push ⟨name, type, form⟩ })

/-- A declaration.  The parameters and the returned value have no names of their own. -/
def declare (name : String) (result : Ty) (params : List Ty) (variadic : Bool) : Function :=
  let empty : Function := ⟨name, result, params, variadic, .fresh, #[], #[]⟩
  let f := params.foldl (fun f t => (f.addLocal "" t .argument).2) empty
  { f with scope := (f.scope.register "").2 }

/-- Append an empty block. -/
def addBlock (f : Function) (name : String) : Nat × Function :=
  let (name, scope) := f.scope.register name
  (f.blocks.size, { f with scope, blocks := f.blocks.push ⟨name, []⟩ })

end Function

/-- A global variable.  Its text is fixed by the first rendering that reaches it: from then on
`shown` is the initializer that the text gives, whatever `init` becomes. -/
structure Variable where
  name : String
  type : Ty
  init : Option Operand
  shown : Option (Option Operand)
deriving Repr, Inhabited

/-- The initializer that the text of a global variable gives, or would give. -/
def Variable.textInit (v : Variable) : Option Operand := v.shown.getD v.init

/-- What a module declares under a name. -/
inductive Symbol where
  | variable (v : Variable)
  | function (f : Function)
deriving Repr, Inhabited

/-- The name of a symbol. -/
def Symbol.name : Symbol → String
  | .variable v => v.name
  | .function f => f.name

/-- The type of the address of a symbol. -/
def Symbol.type : Symbol → Ty
  | .variable v => v.type.ref
  | .function f => f.type.ref

/-- A module. -/
structure Module where
  name : String
  symbols : Array Symbol
deriving Repr, Inhabited

namespace Module

/-- A module that declares nothing. -/
def empty (name : String) : Module := ⟨name, #[]⟩

/-- The position of a name among the symbols. -/
def index? (m : Module) (name : String) : Option Nat :=
  m.symbols.findIdx? (·.name == name)

/-- The function at a position. -/
def function? (m : Module) (i : Nat) : Option Function :=
  match m.symbols[i]? with
  | some (.function f) => some f
  | _ => none

/-- The global variable at a position. -/
def variableAt? (m : Module) (i : Nat) : Option Variable :=
  match m.symbols[i]? with
  | some (.variable v) => some v
  | _ => none

/-- The position of the function of a name. -/
def functionIndex? (m : Module) (name : String) : Option Nat :=
  (m.index? name).bind fun i => (m.function? i).map fun _ => i

/-- The positions of the functions, in the order of their declaration. -/
def functionIndices (m : Module) : List Nat :=
  (List.range m.symbols.size).filter fun i => (m.function? i).isSome

/-- The operand that denotes the symbol at a position. -/
def operand? (m : Module) (i : Nat) : Option Operand :=
  (m.symbols[i]?).map fun s => .global i s.type

/-- Declare a further symbol.  The empty name and names in use are refused. -/
def declare (m : Module) (s : Symbol) : Except Failure (Nat × Module) :=
  if s.name = "" || (m.index? s.name).isSome then .error .nameTaken
  else .ok (m.symbols.size, { m with symbols := m.symbols.push s })

/-- Put another symbol at a position. -/
def replace (m : Module) (i : Nat) (s : Symbol) : Module :=
  { m with symbols := m.symbols.setIfInBounds i s }

/-- Change the function at a position. -/
def modifyFunction (m : Module) (i : Nat) (change : Function → Function) : Module :=
  match m.function? i with
  | some f => m.replace i (.function (change f))
  | none => m

/-- Declare a global variable without an initializer.  It is known by its address, so its type is
one that can be pointed to. -/
def declareVariable (m : Module) (name : String) (type : Ty) : Except Failure (Nat × Module) :=
  if type = .void then .error .refused else m.declare (.variable ⟨name, type, none, none⟩)

/-- Declare a function. -/
def declareFunction (m : Module) (name : String) (result : Ty) (params : List Ty)
    (variadic : Bool) : Except Failure (Nat × Module) :=
  m.declare (.function (.declare name result params variadic))

/-- Declare a global variable under a name that the module does not hold yet. -/
def addVariable (m : Module) (name : String) (type : Ty) : Except Failure (Nat × Module) :=
  if (m.index? name).isSome then .error (.duplicateSymbol name m.name)
  else m.declareVariable name type

/-- Declare a function under a name that the module does not hold yet. -/
def addFunction (m : Module) (name : String) (result : Ty) (params : List Ty) (variadic : Bool) :
    Except Failure (Nat × Module) :=
  if (m.index? name).isSome then .error (.duplicateSymbol name m.name)
  else m.declareFunction name result params variadic

/-- Bind the initializer of the global variable at a position. -/
def setInitializer (m : Module) (i : Nat) (init : Operand) : Module :=
  match m.variableAt? i with
  | some v => m.replace i (.variable { v with init := some init })
  | none => m

end Module

end Ssa

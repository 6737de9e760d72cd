/-
# `Ssa.Program.Draft` — programs in source form

A draft describes what to add to a module: structures, global variables, functions and bodies.
Inside a body values and blocks are called by keys of the draft's own, which are unrelated to the
names that the program will have.  A draft is applied step by step; what was done before a step
that fails remains.
-/
import Ssa.Program.Intrinsic

namespace Ssa

/-! ## Building -/

/-- What building works on: the structures of the context, the module, and the table of the
functions that handles were given out for, in the order of the first handle. -/
structure Workbench where
  types : TypeTable
  module : Module
  table : List Nat
deriving Repr, Inhabited

/-- A step of building, which may fail and leaves what it did before. -/
abbrev Build := ExceptT Failure (StateM Workbench)

namespace Build

/-- A step that the outcome of a computation decides. -/
def lift {α : Type} : Except Failure α → Build α
  | .ok a => pure a
  | .error e => throw e

/-- Make a type.  The named structures that were mentioned before a refusal remain. -/
def mention (t : Ty) : Build Unit :=
  t.makings.forM fun step => do
    let w ← get
    let types ← lift (w.types.make step)
    set { w with types }

/-- Change the module. -/
def modifyModule (change : Module → Module) : Build Unit :=
  modify fun w => { w with module := change w.module }

/-- Declare something in the module. -/
def declare (act : Module → Except Failure (Nat × Module)) : Build Nat := do
  let w ← get
  let (i, module) ← lift (act w.module)
  set { w with module }
  pure i

/-- Enter a function into the table. -/
def adopt (i : Nat) : Build Unit :=
  modify fun w => if w.table.contains i then w else { w with table := w.table ++ [i] }

/-- Append a block to a function. -/
def appendBlock (fn : Nat) (name : String) : Build Nat := do
  match (← get).module.function? fn with
  | none => throw .lacksAttribute
  | some f =>
    let (b, f) := f.addBlock name
    modifyModule (·.replace fn (.function f))
    pure b

/-- Put an instruction at the end of a block. -/
def insert (fn block : Nat) (i : Instr) : Build Unit :=
  modifyModule (·.modifyFunction fn fun f =>
    { f with blocks := f.blocks.modify block fun b => { b with instrs := b.instrs ++ [i] } })

/-- Whether a block has its end already. -/
def isTerminated (fn block : Nat) : Build Bool := do
  let w ← get
  pure (((w.module.function? fn).bind (·.blocks[block]?)).any Block.isTerminated)

/-- Add an instruction at the end of a block.  Its name is in use from then on, even if the block
has its end already and the instruction is refused. -/
def emit (fn block : Nat) (name : String) (asked : Ty) (op : Op) : Build Operand := do
  let w ← get
  let type ← lift (op.typeOf w.types asked)
  match w.module.function? fn with
  | none => throw .lacksAttribute
  | some f =>
    let (id, f) := f.addLocal name type op.form
    modifyModule (·.replace fn (.function f))
    if op.isTerminator && (← isTerminated fn block) then throw .refused
    insert fn block ⟨id, type, op⟩
    pure (.local id type)

/-- Change the operation of an instruction. -/
def modifyOp (fn block id : Nat) (change : Op → Op) : Build Unit :=
  modifyModule (·.modifyFunction fn fun f =>
    { f with blocks := f.blocks.modify block fun b =>
        { b with instrs := b.instrs.map fun i =>
            if i.id = id then { i with op := change i.op } else i } })

/-- Set the entries of a phi. -/
def setIncoming (fn block id : Nat) (incoming : List (Operand × Nat)) : Build Unit :=
  modifyOp fn block id fun _ => .phi incoming

/-- Add an instruction that grows, step by step, after it has its place. -/
def emitGrowing {α : Type} (fn block : Nat) (name : String) (op : Op) (parts : List α)
    (grow : α → Build (Op → Op)) : Build Operand := do
  let o ← emit fn block name .void op
  parts.forM fun part => do
    let change ← grow part
    match o with
    | .local id _ => modifyOp fn block id change
    | _ => pure ()
  pure o

end Build

/-! ## Drafts -/

/-- How a constant is to be made. -/
inductive Recipe where
  | typed (type : Ty) (content : Literal)
  | signed (width : Int) (value : Literal)
  | unsigned (width : Int) (value : Literal)
  | truth (value : Bool)
deriving Repr, Inhabited

/-- The integer that a content is. -/
def Literal.int? : Literal → Except Failure Int
  | .int v => .ok v
  | .truth b => .ok (if b then 1 else 0)
  | _ => .error .typeMismatch

namespace Recipe

/-- An integer constant of a width that may be too small. -/
def makeInt (make : Nat → Int → Except Failure Constant) (width : Int) (value : Literal) :
    Except Failure Constant :=
  if width < 0 then .error .negativeShift
  else value.int? >>= make width.toNat

/-- The constant that a recipe makes. -/
def make (types : TypeTable) : Recipe → Except Failure Constant
  | .typed t content => Constant.make types t content
  | .signed w v => makeInt Constant.signed w v
  | .unsigned w v => makeInt (fun w v => .ok (Constant.unsigned w v)) w v
  | .truth b => .ok (.int (.int 1) (if b then 1 else 0))

/-- The type that a recipe writes out. -/
def type : Recipe → Ty
  | .typed t _ => t
  | _ => .void

end Recipe

namespace Draft

/-- An operand of a draft. -/
inductive Value where
  | key (key : String)
  | symbol (name : String)
  | constant (recipe : Recipe)
deriving Repr, Inhabited

/-- The label of a case: a number, which is of the type that is switched on, or a constant. -/
inductive CaseLabel where
  | number (content : Literal)
  | constant (recipe : Recipe)
deriving Repr, Inhabited


/-- What an instruction of a draft asks for. -/
inductive Action where
  | op (op : OpOver Value String)
  | switch (value : Value) (default : String) (cases : List (CaseLabel × String))
  | indirectBr (address : Value) (targets : List String)
  | cast (op : CastOp) (a : Value) (type : Ty)
  | phi (type : Ty) (incoming : List (Value × String))
  | negate (a : Value)
  | complement (a : Value)
  | intrinsic (which : Intrinsic) (args : List Value)
  /-- A comparison by a predicate that does not exist. -/
  | unknownPredicate (a b : Value)
deriving Repr, Inhabited

/-- An instruction of a draft: the key of its value, its name, and what it asks for. -/
structure Step where
  key : Option String
  name : String
  action : Action
deriving Repr, Inhabited

/-- A block of a draft. -/
structure Block where
  key : String
  name : String
  steps : List Step
deriving Repr, Inhabited

/-- A global variable of a draft. -/
structure Variable where
  name : String
  type : Ty
  init : Option Value
deriving Repr, Inhabited

/-- A function of a draft. -/
structure Function where
  name : String
  result : Ty
  params : List Ty
  variadic : Bool
  body : Option (List Block)
deriving Repr, Inhabited

/-- What is known while a body is built: the function, the values and blocks by key, latest first,
and the phis whose entries are still to be set. -/
structure Progress where
  fn : Nat
  values : List (String × Operand)
  blocks : List (String × Nat)
  pending : List (Nat × Nat × List (Value × String))

/-- The entry of a key. -/
def look {α : Type} (entries : List (String × α)) (key : String) : Build α :=
  match entries.lookup key with
  | some a => pure a
  | none => throw .noKey

/-- The operand that the address of a symbol is. -/
def symbolOperand (name : String) : Build Operand := do
  let m := (← get).module
  match (m.index? name).bind m.operand? with
  | some o => pure o
  | none => throw .noKey

/-- The constant that a recipe makes. -/
def makeConstant (r : Recipe) : Build Constant := do
  Build.mention r.type
  Build.lift (r.make (← get).types)

/-- The operand that an operand of a draft stands for. -/
def Value.resolve (p : Progress) : Value → Build Operand
  | .key k => look p.values k
  | .symbol name => symbolOperand name
  | .constant r => return .const (← makeConstant r)

/-- The types that an operation of a draft writes out. -/
def writtenTypes {Value Target : Type} : OpOver Value Target → List Ty
  | .alloca t _ => [t]
  | _ => []

/-! ## Functions of the machine -/

/-- The operand that denotes a function of the machine, declared where it is not. -/
def intrinsicOperand (which : Intrinsic) (t : Ty) : Build Operand := do
  let name ← match which.name? t with
    | some name => pure name
    | none => throw .lacksAttribute
  let (result, params) := which.signature t
  if ((← get).module.index? name).isNone then
    discard (Build.declare (·.declareFunction name result params false))
  symbolOperand name

/-! ## Bodies -/

/-- The constant that negation subtracts from, or that complement combines with. -/
def fillConstant (v : Int) (t : Ty) : Build Operand := do
  return .const (← Build.lift (Constant.make (← get).types t (.int v)))

/-- The label and the block of a case.  A number becomes a constant of the type that is switched on
when it is entered, after its block has been looked up. -/
def resolveCase (p : Progress) (type : Ty) (label : CaseLabel) (target : String) :
    Build (Constant × Nat) := do
  match label with
  | .constant r =>
    let c ← makeConstant r
    return (c, ← look p.blocks target)
  | .number content =>
    let target ← look p.blocks target
    return (← Build.lift (Constant.make (← get).types type content), target)

/-- Do what an instruction of a draft asks for. -/
def Action.perform (p : Progress) (block : Nat) (name : String) : Action → Build Operand
  | .op o => do
    for t in writtenTypes o do Build.mention t
    let resolved ← o.traverse (Value.resolve p) (look p.blocks)
    Build.emit p.fn block name .void resolved
  | .switch v d cases => do
    let v ← v.resolve p
    let d ← look p.blocks d
    Build.emitGrowing p.fn block name (.switch v d []) cases fun (label, target) => do
      let (c, target) ← resolveCase p v.type label target
      pure fun op => match op with
        | .switch v d cases => .switch v d (cases ++ [(.const c, target)])
        | op => op
  | .indirectBr a targets => do
    let a ← a.resolve p
    Build.emitGrowing p.fn block name (.indirectBr a []) targets fun target => do
      let target ← look p.blocks target
      pure fun op => match op with
        | .indirectBr a targets => .indirectBr a (targets ++ [target])
        | op => op
  | .cast c a t => do
    let a ← a.resolve p
    Build.mention t
    if a.type = t then pure a else Build.emit p.fn block name t (.cast c a)
  | .phi t _ => do
    Build.mention t
    Build.emit p.fn block name t (.phi [])
  | .negate a => do
    let a ← a.resolve p
    let zero ← fillConstant 0 a.type
    Build.emit p.fn block name .void (.int .sub zero a)
  | .complement a => do
    let a ← a.resolve p
    let ones ← fillConstant (-1) a.type
    Build.emit p.fn block name .void (.int .xor a ones)
  | .intrinsic which args => do
    let args ← args.mapM (Value.resolve p)
    let t ← Build.lift (which.base args)
    let callee ← intrinsicOperand which t
    Build.emit p.fn block name .void (.call callee args)
  | .unknownPredicate a b => do
    discard (a.resolve p)
    discard (b.resolve p)
    throw .badValue

/-- The phi that an instruction leaves for later. -/
def pendingPhi (block : Nat) (action : Action) (o : Operand) :
    List (Nat × Nat × List (Value × String)) :=
  match action, o with
  | .phi _ incoming, .local id _ => [(block, id, incoming)]
  | _, _ => []

/-- Add an instruction of a draft to a block. -/
def Step.build (block : Nat) (p : Progress) (s : Step) : Build Progress := do
  let o ← s.action.perform p block s.name
  let values := match s.key with
    | some k => (k, o) :: p.values
    | none => p.values
  pure { p with values, pending := p.pending ++ pendingPhi block s.action o }

/-- Set the entries of a phi. -/
def setPhi (p : Progress) : Nat × Nat × List (Value × String) → Build Unit
  | (block, id, incoming) => do
    let entries ← incoming.mapM fun (v, b) => return (← v.resolve p, ← look p.blocks b)
    Build.setIncoming p.fn block id entries

/-- The keys of the parameters are their positions. -/
def paramValues (f : Ssa.Function) : List (String × Operand) :=
  f.params.mapIdx fun i t => (toString i, .local i t)

/-- Build a body: all blocks, then the instructions of each, then the entries of the phis. -/
def buildBody (fn : Nat) (blocks : List Block) : Build Unit := do
  match (← get).module.function? fn with
  | none => throw .lacksAttribute
  | some f =>
    let ids ← blocks.mapM fun b => Build.appendBlock fn b.name
    let keys := (blocks.map Block.key).zip ids
    let start : Progress := ⟨fn, paramValues f, keys.reverse, []⟩
    let p ← (blocks.zip ids).foldlM
      (fun p (b, id) => b.steps.foldlM (Step.build (keys.reverse.lookup b.key |>.getD id)) p) start
    for phi in p.pending do setPhi p phi

/-! ## Whole drafts -/

/-- Declare a global variable. -/
def Variable.declare (v : Variable) : Build Unit := do
  Build.mention v.type
  discard (Build.declare (·.addVariable v.name v.type))

/-- Bind the initializer of a global variable. -/
def Variable.bind (v : Variable) : Build Unit := do
  match v.init with
  | none => pure ()
  | some init =>
    let o ← init.resolve ⟨0, [], [], []⟩
    match (← get).module.index? v.name with
    | some i => Build.modifyModule (·.setInitializer i o)
    | none => throw .noKey

/-- Declare a function, and enter it into the table. -/
def Function.declare (f : Function) : Build Nat := do
  Build.mention (.function f.result f.params f.variadic)
  let i ← Build.declare (·.addFunction f.name f.result f.params f.variadic)
  Build.adopt i
  pure i

/-- Declare a structure, and give it its body if there is one. -/
def declareType : String × Option (List Ty) → Build Unit
  | (name, body) => do
    Build.mention (.named name)
    match body with
    | none => pure ()
    | some fields =>
      for t in fields do Build.mention t
      let w ← get
      let types ← Build.lift (w.types.define name fields)
      set { w with types }

end Draft

/-- What to add to a module. -/
structure Draft where
  types : List (String × Option (List Ty))
  globals : List Draft.Variable
  functions : List Draft.Function
deriving Repr, Inhabited

/-- Apply a draft: structures, global variables, declarations, initializers, bodies. -/
def Draft.apply (d : Draft) : Build Unit := do
  for t in d.types do declareType t
  for v in d.globals do v.declare
  let ids ← d.functions.mapM Draft.Function.declare
  for v in d.globals do v.bind
  for (f, i) in d.functions.zip ids do
    match f.body with
    | some blocks => buildBody i blocks
    | none => pure ()

end Ssa

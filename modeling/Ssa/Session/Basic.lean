/-
# `Ssa.Session.Basic` — what a session holds

A session holds contexts, modules and engines.  Each is entered into one registry and spoken of by
its number there; what is known of it is kept beside the registry, and is reached only through a
number that is live.  One context is the global one: it is made when it is first needed, and is
never released.

A step of a session may fail; what it did before that remains.
-/
import Ssa.Session.Event
import Ssa.Registry.Basic
import Ssa.Files.Commit
import Ssa.Exec.Memory
import Ssa.Program.Draft

namespace Ssa

/-- The kinds of things in the registry. -/
inductive Kind where
  | context | module | engine
deriving DecidableEq, Repr

/-- The word for a kind. -/
def Kind.word : Kind → String
  | .context => "context"
  | .module => "module"
  | .engine => "engine"

/-- A context: its named structures, and the modules in it that have not been released. -/
structure ContextRecord where
  id : Nat
  isGlobal : Bool
  types : TypeTable
  modules : List Nat
deriving Repr, Inhabited

/-- A module of a context.  The table lists the functions that handles were given out for. -/
structure ModuleRecord where
  id : Nat
  context : Nat
  module : Module
  table : List Nat
deriving Repr, Inhabited

/-- The name of a module. -/
def ModuleRecord.name (r : ModuleRecord) : String := r.module.name

/-- What runs the functions of an engine: the interpreter, on the module as it is, or compiled
code, made from the module as it was. -/
inductive Backend where
  | interpreter
  | compiled (types : TypeTable) (code : Module)
deriving Repr, Inhabited

/-- An engine of a module.  Its global variables have storage of its own. -/
structure EngineRecord where
  id : Nat
  module : Nat
  backend : Backend
  globals : List (Nat × Nat)
deriving Repr, Inhabited

/-- The generator of code: whether it has been set up, and why it cannot be, if it cannot. -/
structure Generator where
  ready : Bool
  fault : Option String
deriving Repr, Inhabited

/-- A session. -/
structure Session where
  registry : Registry Unit
  contexts : List ContextRecord
  modules : List ModuleRecord
  engines : List EngineRecord
  globalContext : Option Nat
  storage : Storage
  files : Files
  host : Triple
  generator : Generator
  log : List Event
deriving Repr, Inhabited

/-- A step of a session. -/
abbrev Act := ExceptT Failure (StateM Session)

namespace Session

/-- The host that is assumed where none is given. -/
def usualHost : Triple := .read "x86_64-unknown-linux-gnu"

/-- A session in which nothing has been made yet. -/
def fresh (files : Files) : Session :=
  ⟨.empty, [], [], [], none, .empty, files, usualHost, ⟨true, none⟩, []⟩

/-- A step that the outcome of a computation decides. -/
def lift {α : Type} : Except Failure α → Act α
  | .ok a => pure a
  | .error e => throw e

/-- Note something down. -/
def note (e : Event) : Act Unit := modify fun s => { s with log := s.log ++ [e] }

/-! ## Numbers -/

/-- Give a number to something new. -/
def enter (k : Kind) : Act Nat := do
  let s ← get
  let (id, registry) := s.registry.insert k.word ()
  set { s with registry }
  pure id

/-- Insist that a number leads to something of a kind. -/
def require (k : Kind) (id : Int) : Act Unit := do
  lift ((← get).registry.get id k.word)

/-- Whether a number leads to something. -/
def isLive (s : Session) (id : Nat) : Bool := s.registry.isLive id

/-! ## Records -/

/-- What is known of a context. -/
def context? (s : Session) (id : Nat) : Option ContextRecord := s.contexts.find? (·.id == id)

/-- What is known of a module. -/
def module? (s : Session) (id : Nat) : Option ModuleRecord := s.modules.find? (·.id == id)

/-- What is known of an engine. -/
def engine? (s : Session) (id : Nat) : Option EngineRecord := s.engines.find? (·.id == id)

/-- Change what is known of a context. -/
def modifyContext (id : Nat) (change : ContextRecord → ContextRecord) : Act Unit :=
  modify fun s =>
    { s with contexts := s.contexts.map fun r => if r.id = id then change r else r }

/-- Change what is known of a module. -/
def modifyModule (id : Nat) (change : ModuleRecord → ModuleRecord) : Act Unit :=
  modify fun s =>
    { s with modules := s.modules.map fun r => if r.id = id then change r else r }

/-- Change what is known of an engine. -/
def modifyEngine (id : Nat) (change : EngineRecord → EngineRecord) : Act Unit :=
  modify fun s =>
    { s with engines := s.engines.map fun r => if r.id = id then change r else r }

/-- A record that is there, or the failure that the thing is gone. -/
def found {α : Type} (k : Kind) (id : Nat) : Option α → Act α
  | some r => pure r
  | none => throw (.disposed k.word (toString id))

/-- What is known of a context, live or not. -/
def contextRecord (id : Nat) : Act ContextRecord := do found .context id ((← get).context? id)

/-- What is known of a module, live or not. -/
def moduleRecord (id : Nat) : Act ModuleRecord := do found .module id ((← get).module? id)

/-- What is known of an engine, live or not. -/
def engineRecord (id : Nat) : Act EngineRecord := do found .engine id ((← get).engine? id)

/-- What is known of a module, which has to be live. -/
def liveModule (id : Nat) : Act ModuleRecord := do
  require .module id
  moduleRecord id

/-! ## Building -/

/-- Do a step of building on a module, live or not. -/
def onWorkbench {α : Type} (id : Nat) (step : Build α) : Act α := do
  let r ← moduleRecord id
  let c ← contextRecord r.context
  let (outcome, w) := step.run.run ⟨c.types, r.module, r.table⟩
  modifyContext r.context fun c => { c with types := w.types }
  modifyModule id fun r => { r with module := w.module, table := w.table }
  lift outcome

/-- Take a step in making a type in a context. -/
def makeStep (context : Nat) (step : Ty.Making) : Act Unit := do
  let c ← contextRecord context
  let types ← lift (c.types.make step)
  modifyContext context fun c => { c with types }

/-- Make a type in a context.  The named structures that were mentioned before a refusal remain. -/
def mention (context : Nat) (t : Ty) : Act Unit := t.makings.forM (makeStep context)

end Session

end Ssa

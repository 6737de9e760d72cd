/-
# `Ssa.Session.Engine` — running functions of a module

An engine belongs to one module.  It has storage of its own for the global variables, which keep
their content from run to run.  A run is admitted only if engine and module are live, the function
belongs to the module, and the arguments match its parameters in number; a run that is refused has
no effect.
-/
import Ssa.Session.Symbols
import Ssa.Exec.Interpreted
import Ssa.Exec.Boundary
import Ssa.Exec.Snapshot
import Ssa.Generic

namespace Ssa.Session

/-! ## The code generator -/

/-- Set up the code generator unless that has been done. -/
def prepareGenerator : Act Unit := do
  let s ← get
  if s.generator.ready then pure ()
  else
    match s.generator.fault with
    | some reason => throw (.noBackend reason)
    | none =>
      set { s with generator := { s.generator with ready := true } }
      note (.generatorReady s.host)

/-- The machine for a processor on a host. -/
def makeMachine (host : Triple) (p : Processor) (l : Level) : Act TargetMachine := do
  prepareGenerator
  let machine ← lift (TargetMachine.make host p l)
  note (.machineMade machine)
  pure machine

/-! ## Making engines -/

/-- Enter an engine. -/
def enterEngine (m : Nat) (backend : Backend) : Act Nat := do
  let id ← enter .engine
  modify fun s => { s with engines := s.engines ++ [⟨id, m, backend, []⟩] }
  pure id

/-- Do a step; if it fails because a module does not pass its check, or for want of a target, fail
in the way given. -/
def reporting {α : Type} (report : Failure) (step : Act α) : Act α := do
  try step
  catch f =>
    match f with
    | .noTarget .. => throw report
    | f => throw (if f.isVerification then report else f)

/-- Make an engine that interprets a module. -/
def createInterpreter (m : Nat) : Act Nat := do
  prepareGenerator
  let name := ((← get).module? m).elim "" ModuleRecord.name
  reporting (.notInterpretable name) (verify m)
  let id ← enterEngine m .interpreter
  note (.interpreterBound id name)
  pure id

/-- Make an engine that runs compiled code.  What is compiled is the module as it is now. -/
def createCompiled (m : Nat) (level : Level) : Act Nat := do
  prepareGenerator
  let name := ((← get).module? m).elim "" ModuleRecord.name
  reporting (.notCompilable name) do
    verify m
    discard (makeMachine (← get).host .native level)
  note (.codeReady name level)
  let r ← moduleRecord m
  let types := (← contextRecord r.context).types
  let id ← enterEngine m (.compiled types r.module.snapshot)
  note (.compiledBound id name)
  pure id

/-! ## Arguments -/

/-- Make a type in the global context, which is itself made when a structure is first mentioned. -/
def mentionGlobally (t : Ty) : Act Unit :=
  t.makings.forM fun step => do
    match step with
    | .naming _ => makeStep (← globalContextId) step
    | .pointingToVoid => throw .refused

/-- Make a value to be passed to a function. -/
def makeValue (r : GenericRecipe) : Act GenericValue := do
  r.types.forM mentionGlobally
  lift r.make

/-! ## Admission -/

/-- A function that is to be run: by name, or by a handle. -/
inductive Callee where
  | named (name : String)
  | handle (h : Handle)
deriving DecidableEq, Repr, Inhabited

/-- The position in a module of the function that is to be run. -/
def position (m : Nat) : Callee → Act Nat
  | .named name => do
    match ← lookup m name with
    | some h => return (← resolve h).2
    | none => throw (.noFunction name (← moduleRecord m).name)
  | .handle (.bare owner symbol) => do
    if owner = m then pure symbol
    else throw (.foreign s!"function '{(← functionAt owner symbol).name}'"
      (← moduleRecord owner).name (← moduleRecord m).name)
  | .handle (.member owner index) => do
    if owner = m then return (← resolve (.member owner index)).2
    else
      let f ← functionOf (.member owner index)
      throw (.foreign s!"function '{f.name}'" (← moduleRecord owner).name (← moduleRecord m).name)

/-- Insist on one argument for each parameter; a variadic function takes more. -/
def checkCount (f : Function) (count : Nat) : Except Failure Unit :=
  if count < f.params.length || (f.params.length < count && !f.variadic) then
    .error (.argumentCount f.name f.params.length count)
  else .ok ()

/-! ## Runs -/

/-- The number of steps after which a run is given up. -/
def stepBound : Nat := 0x10000000000

/-- What runs a function. -/
def Backend.start (b : Backend) (m : Nat) (current : Module) (f : Function) (args : List Value) :
    Exec Value :=
  match b with
  | .interpreter => Machine.call Interpreted.rules ⟨m, [], current⟩ stepBound f args
  | .compiled types code =>
    Compiled.invoke ⟨m, types, code⟩ stepBound f.name f.result f.params args

/-- Do a run on the storage of an engine. -/
def onMemory (e : EngineRecord) (run : Exec Value) : Act Value := do
  let s ← get
  let (outcome, memory) := run.run.run ⟨s.storage, e.globals⟩
  set { s with storage := memory.storage }
  modifyEngine e.id fun e => { e with globals := memory.globals }
  lift outcome

/-- The result of a function, as it crosses the boundary. -/
def resultOf (type : Ty) (v : Value) : Except Failure RunResult :=
  match type, v with
  | .void, _ => .ok none
  | t, .null => .ok (some ⟨t, .null⟩)
  | t, v => (v.normalize t).map fun v => some ⟨t, v⟩

/-- Run a function on arguments. -/
def run (engine : Nat) (callee : Callee) (args : List GenericValue) : Act RunResult := do
  require .engine engine
  let e ← engineRecord engine
  require .module e.module
  let symbol ← position e.module callee
  let f ← functionAt e.module symbol
  lift (checkCount f args.length)
  let current := (← moduleRecord e.module).module
  let v ← onMemory e (Backend.start e.backend e.module current f (args.map GenericValue.payload))
  lift (resultOf f.result v)

/-- The number of the interpreter that is no engine of the session. -/
def bareNumber : Nat := 0

/-- Set up an interpreter of a module that is no engine of the session. -/
def openBare (m : Nat) : Act Unit :=
  modify fun s => { s with engines := s.engines ++ [⟨bareNumber, m, .interpreter, []⟩] }

/-- Run the function of a name by the interpreter that is no engine, on values as they are. -/
def runBare (m : Nat) (name : String) (args : List Value) : Act Value := do
  match ← lookup m name with
  | none => throw .lacksAttribute
  | some h =>
    let symbol := (← resolve h).2
    let r ← moduleRecord m
    let f ← functionAt m symbol
    let e ← engineRecord bareNumber
    onMemory e (Backend.start .interpreter m r.module f args)

end Ssa.Session

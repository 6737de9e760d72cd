/-
# `Ssa.Session.Lifetime` — making and releasing

A context outlives its modules: it is not released while there are any.  Releasing a module leaves
its context, and releasing an engine leaves its module.  What has been released stays so, and to
release it again does nothing.

Things that nothing leads to any more are released without being asked for.  What leads to them is
given from outside; an engine leads to its module, and a module to its context.
-/
import Ssa.Session.Basic

namespace Ssa.Session

/-! ## Contexts -/

/-- Make a context. -/
def makeContext (isGlobal : Bool) : Act Nat := do
  let id ← enter .context
  modify fun s => { s with contexts := s.contexts ++ [⟨id, isGlobal, [], []⟩] }
  note (.contextCreated id isGlobal)
  pure id

/-- Make a context of its own. -/
def createContext : Act Nat := makeContext false

/-- The global context. -/
def globalContextId : Act Nat := do
  match (← get).globalContext with
  | some id => pure id
  | none =>
    let id ← makeContext true
    modify fun s => { s with globalContext := some id }
    pure id

/-- The context that is given, or the global one. -/
def contextOr (context : Option Nat) : Act Nat :=
  match context with
  | some id => pure id
  | none => globalContextId

/-! ## Modules -/

/-- Make a module in a context, which has to be live.  Without a context it is made in the global
one. -/
def createModule (name : String) (context : Option Nat) : Act Nat := do
  let c ← contextOr context
  require .context c
  let id ← enter .module
  modify fun s => { s with modules := s.modules ++ [⟨id, c, .empty name, []⟩] }
  modifyContext c fun r => { r with modules := r.modules ++ [id] }
  note (.moduleCreated name id c)
  pure id

/-! ## Releasing -/

/-- Release a number if it is live, and do what goes with it. -/
def releaseThen (id : Nat) (after : Act Unit) : Act Unit := do
  let s ← get
  if s.isLive id then
    set { s with registry := (s.registry.release id).2 }
    after

/-- Release an engine. -/
def releaseEngine (id : Nat) : Act Unit := releaseThen id (note (.engineReleased id))

/-- Release a module, which leaves its context. -/
def releaseModule (r : ModuleRecord) : Act Unit :=
  releaseThen r.id do
    modifyContext r.context fun c => { c with modules := c.modules.filter (· != r.id) }
    note (.moduleReleased r.name r.id)

/-- Release a context. -/
def releaseContext (id : Nat) : Act Unit := releaseThen id (note (.contextReleased id))

/-- Release an engine when asked to. -/
def disposeEngine (id : Nat) : Act Unit := releaseEngine id

/-- Release a module when asked to. -/
def disposeModule (id : Nat) : Act Unit := do releaseModule (← moduleRecord id)

/-- Release a context when asked to.  The global one stays; one that has modules is refused. -/
def disposeContext (id : Nat) : Act Unit := do
  let c ← contextRecord id
  if !c.isGlobal && (← get).isLive id then
    if !c.modules.isEmpty then throw (.contextInUse id c.modules.length)
    releaseContext id

/-! ## What nothing leads to -/

/-- The modules that engines of a list lead to. -/
def modulesOf (s : Session) (engines : List Nat) : List Nat :=
  s.engines.filterMap fun e => if engines.contains e.id then some e.module else none

/-- The contexts that modules of a list lead to. -/
def contextsOf (s : Session) (modules : List Nat) : List Nat :=
  s.modules.filterMap fun m => if modules.contains m.id then some m.context else none

/-- The numbers that are led to from given ones, those included. -/
def reached (s : Session) (roots : List Nat) : List Nat :=
  let modules := roots ++ s.modulesOf roots
  modules ++ s.contextsOf modules ++ s.globalContext.toList

/-- Release everything that is not led to from the given numbers: engines first, then modules,
then contexts. -/
def collect (roots : List Nat) : Act Unit := do
  let s ← get
  let kept := s.reached roots
  for e in s.engines do
    if !kept.contains e.id then releaseEngine e.id
  for m in s.modules do
    if !kept.contains m.id then releaseModule m
  for c in s.contexts do
    if !kept.contains c.id then releaseContext c.id

end Ssa.Session

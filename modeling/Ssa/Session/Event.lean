/-
# `Ssa.Session.Event` — what a session takes note of

The lives of contexts, modules and engines, the use of the code generator, and what a caller may
not have meant are noted down.  A note has a weight, a source and a sentence.  What the host is, and
how long an object is, are no part of the sentence: placeholders stand for them.
-/
import Ssa.Target.Machine

namespace Ssa

/-- Something that is noted down. -/
inductive Event where
  | contextCreated (id : Nat) (isGlobal : Bool)
  | contextReleased (id : Nat)
  | moduleCreated (name : String) (id context : Nat)
  | moduleReleased (name : String) (id : Nat)
  /-- A function was asked for with another type than it has. -/
  | typeIgnored (name module : String) (actual requested : Ty)
  | interpreterBound (id : Nat) (module : String)
  | compiledBound (id : Nat) (module : String)
  | engineReleased (id : Nat)
  | generatorReady (host : Triple)
  | machineMade (machine : TargetMachine)
  | codeReady (module : String) (level : Level)
  | emitted (module path : String) (machine : TargetMachine)
deriving DecidableEq, Repr

/-- How much a note matters. -/
inductive Weight where
  | debug | warning
deriving DecidableEq, Repr

/-- The word for a weight. -/
def Weight.word : Weight → String
  | .debug => "DEBUG"
  | .warning => "WARNING"

namespace Event

/-- How much a note matters. -/
def weight : Event → Weight
  | .typeIgnored .. => .warning
  | _ => .debug

/-- The part of the work that a note comes from. -/
def source : Event → String
  | .contextCreated .. | .contextReleased _ => "irhandle.core.context"
  | .moduleCreated .. | .moduleReleased .. | .typeIgnored .. => "irhandle.core.module"
  | .interpreterBound .. | .compiledBound .. | .engineReleased _ => "irhandle.engine.engine"
  | .generatorReady _ => "irhandle.backend.native"
  | .machineMade _ => "irhandle.backend.targets"
  | .codeReady .. => "irhandle.engine.jit"
  | .emitted .. => "irhandle.backend.emission"

/-- The sentence of a note. -/
def message : Event → String
  | .contextCreated id isGlobal =>
    s!"context #{id} created" ++ if isGlobal then " (global)" else ""
  | .contextReleased id => s!"context #{id} released"
  | .moduleCreated name id context => s!"module '{name}' #{id} created in context #{context}"
  | .moduleReleased name id => s!"module '{name}' #{id} released"
  | .typeIgnored name module actual requested =>
    s!"reusing '{name}' in module '{module}' with type " ++ actual.text ++
      "; requested type " ++ requested.text ++ " ignored"
  | .interpreterBound id module => s!"interpreter #{id} bound to module '{module}'"
  | .compiledBound id module => s!"JIT engine #{id} bound to module '{module}'"
  | .engineReleased id => s!"engine #{id} released"
  | .generatorReady _ => "native backend initialized for <triple>"
  | .machineMade m => "target machine: triple=<triple> cpu=<cpu> opt=" ++ m.level.word
  | .codeReady module level => s!"MCJIT engine ready for '{module}' at " ++ level.word
  | .emitted module path m =>
    s!"emitted {module} -> {path} (<n> bytes, cpu=" ++ m.processor.word ++ ", " ++
      m.level.word ++ ")"

/-- The line of a note. -/
def line (e : Event) : String := e.weight.word ++ " " ++ e.source ++ ": " ++ e.message

end Event

end Ssa

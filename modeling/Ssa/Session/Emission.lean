/-
# `Ssa.Session.Emission` — objects and text in files

A module is emitted for a machine in three stages: its text has to be readable, there has to be a
machine, and the object has to be written.  Objects are written all at once or not at all.  Of the
octets of an object only the mark of its format is part of this library.
-/
import Ssa.Session.Engine

namespace Ssa

/-- The octets that objects of a format begin with. -/
def ObjectFormat.mark : ObjectFormat → List UInt8
  | .elf => [0x7f, 0x45, 0x4c, 0x46]
  | .macho => [0xcf, 0xfa, 0xed, 0xfe]
  | .coff => [0x64, 0x86]

/-- Whether octets are those of an object of the usual format. -/
def isObject (octets : List UInt8) : Bool := ObjectFormat.elf.mark.isPrefixOf octets

/-- Whether a path holds a character that no name of a file can hold. -/
def Path.isUnusable (p : Path) : Bool := p.parts.any fun part => part.toList.contains '\x00'

namespace Session

/-- Write an object to a path. -/
def writeObject (machine : TargetMachine) (p : Path) : Act Unit := do
  if p.isUnusable then throw .badValue
  let s ← get
  let (files, outcome) := s.files.replace none p machine.triple.objectFormat.mark
  set { s with files }
  match outcome with
  | none => pure ()
  | some why => throw (.objectNotWritten p.text why.reason)

/-- Make an object of readable text under a name, and write it. -/
def emitReadable (name : String) (host : Triple) (processor : Processor) (level : Level)
    (p : Path) : Act Unit := do
  let machine ← makeMachine host processor level
  writeObject machine p
  note (.emitted name p.text machine)

/-- Emit a module as an object. -/
def emit (m : Nat) (host : Triple) (processor : Processor) (level : Level) (p : Path) :
    Act Unit := do
  discard (render m)
  let r ← moduleRecord m
  let c ← contextRecord r.context
  if !r.module.isReadable c.types then throw (.notEmittable r.name)
  emitReadable r.name host processor level p

/-- Write the text of a module to a path. -/
def renderToFile (m : Nat) (p : Path) : Act Unit := do
  let text ← render m
  if p.isUnusable then throw .badValue
  let s ← get
  match s.files.write p (Files.octetsOf text) with
  | .ok files => set { s with files }
  | .error why => throw (.textNotWritten p.text why.reason)

/-- The text of a source file. -/
def readSource (p : Path) (report : String → Failure) : Act String := do
  if p.isUnusable then throw .badValue
  match (← get).files.read p with
  | .error why => throw (report why.reason)
  | .ok octets =>
    match Files.textOf? octets with
    | some text => pure text
    | none => throw .notText

/-- Emit a source file as an object, after a check if that is asked for. -/
def emitSource (source : Path) (host : Triple) (processor : Processor) (level : Level)
    (p : Path) (checked : Bool) : Act Unit := do
  let text ← readSource source (.sourceNotRead source.text)
  let name := source.stem
  if checked then lift (checkAssembly name text)
  else discard (lift (readAssembly name text))
  emitReadable name host processor level p

end Session

end Ssa

/-
# `Ssa.Main` — the command line on the files of the machine

What the arguments name is read from the disk, the command is carried out on that, and what it
changed is written back.
-/
import Ssa.Command.Run

namespace Ssa.Command

/-- The paths that a task names. -/
def Task.paths : Task → List Path
  | .info => []
  | .verify source => [.read source]
  | .emit source out .. =>
    let p := Path.read source
    let target := match out with
      | some o => [Path.read o]
      | none => (p.withEnding ".o").toOption.toList
    p :: target

/-- The paths that lead to a path, and the path itself. -/
def Path.leading (p : Path) : List Path :=
  (List.range (p.parts.length + 1)).map fun n => { p with parts := p.parts.take n }

/-- What is at a path on the disk. -/
def nodeAt (p : Path) : IO (Option Node) := do
  let place := (← IO.currentDir) / p.text
  if ← place.isDir then return some .directory
  if ← place.pathExists then
    return some (.file Files.plainMode (← IO.FS.readBinFile place).toList)
  return none

/-- Add what is at a path on the disk. -/
def survey (files : Files) (p : Path) : IO Files := do
  match files.locate p, ← nodeAt p with
  | .ok place, some n => return if place.isEmpty then files else files.put place n
  | _, _ => return files

/-- Write back a file that has changed. -/
def store (old new : Files) (p : Path) : IO Unit := do
  match new.read p, old.read p with
  | .ok octets, .ok before =>
    if octets ≠ before then IO.FS.writeBinFile p.text ⟨octets.toArray⟩
  | .ok octets, .error _ => IO.FS.writeBinFile p.text ⟨octets.toArray⟩
  | _, _ => return ()

/-- Carry out a command on the disk. -/
def Invocation.carryOut (i : Invocation) : IO UInt32 := do
  let files ← (i.task.paths.flatMap Path.leading).foldlM survey Files.fresh
  match i.perform files with
  | .error f => throw (IO.userError (f.message?.getD "the command failed"))
  | .ok outcome =>
    for p in i.task.paths do store files outcome.files p
    for line in outcome.out do IO.println line
    for line in outcome.err do IO.eprintln line
    return outcome.code.toUInt32

end Ssa.Command

/-- The command line. -/
def main (args : List String) : IO UInt32 := do
  match Ssa.Command.Invocation.read args with
  | .ok i => i.carryOut
  | .error .help => return 0
  | .error .usage => return 2

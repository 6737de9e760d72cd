/-
# `Ssa.Files.Commit` — writing a file all at once

A file is replaced in steps: its new content is written to a file of another name in the same
directory, and that file is then renamed.  Whoever looks at the file meanwhile sees the old content
or the new one.  When a step fails, the file of the other name is taken away again.
-/
import Ssa.Files.Tree

namespace Ssa

/-- A step of replacing a file. -/
inductive CommitStep where
  | create
  | setMode
  | write
  | close
  | rename
deriving DecidableEq, Repr, Inhabited

/-- A replacement: where the new content is collected, where it is to go, and what it is.  Nothing can
go to a path that names no file, such as one that leads up or to the top. -/
structure Commit where
  temp : Place
  target : Option Place
  octets : List UInt8
deriving Repr, Inhabited

namespace Files

/-- The mode that a file has while its content is collected. -/
def privateMode : Nat := 0o600

/-- The file that is being collected, as it is after the given number of octets. -/
def collected (f : Files) (c : Commit) (mode count : Nat) : Files :=
  f.put c.temp (.file mode (c.octets.take count))

/-- Rename a file.  It may take the place of a file, but not of a directory, nor of what has no name of
its own. -/
def rename (f : Files) (source : Place) : Option Place → Except FileFailure Files
  | none => .error .busy
  | some target =>
    match f.node? source, f.node? target with
    | none, _ => .error .missing
    | some _, some .directory => .error .isDirectory
    | some n, _ => .ok ((f.remove source).put target n)

/-- What a step does. -/
def commitStep (c : Commit) (f : Files) : CommitStep → Except FileFailure Files
  | .create => .ok (f.collected c privateMode 0)
  | .setMode => .ok (f.collected c plainMode 0)
  | .write => .ok (f.collected c plainMode c.octets.length)
  | .close => .ok f
  | .rename => f.rename c.temp c.target

/-- The steps in order. -/
def commitSteps : List CommitStep := [.create, .setMode, .write, .close, .rename]

/-- Where a step fails by itself, and why. -/
abbrev Fault := Option (CommitStep × FileFailure)

/-- A step, unless it fails by itself. -/
def attempt (fault : Fault) (c : Commit) (f : Files) (s : CommitStep) :
    Except FileFailure Files :=
  match fault with
  | some (at_, why) => if at_ = s then .error why else f.commitStep c s
  | none => f.commitStep c s

/-- Take the given steps.  The answer holds the trees in between, latest last, and, if a step
failed, why. -/
def commitFrom (fault : Fault) (c : Commit) (f : Files) :
    List CommitStep → List Files × Option FileFailure
  | [] => ([], none)
  | s :: rest =>
    match f.attempt fault c s with
    | .error why => ([f.remove c.temp], some why)
    | .ok g =>
      let (later, outcome) := g.commitFrom fault c rest
      (g :: later, outcome)

/-- Take all steps.  The answer holds the tree at the end, and, if a step failed, why. -/
def commit (fault : Fault) (c : Commit) (f : Files) : Files × Option FileFailure :=
  let (states, outcome) := f.commitFrom fault c commitSteps
  (states.getLast?.getD f, outcome)

/-! ## Names for the time being -/

/-- A name for the file that is being collected. -/
def candidate (name : String) (n : Nat) : String :=
  let digits := toString n
  "." ++ name ++ "." ++ String.ofList (List.replicate (8 - digits.length) '0') ++ digits ++ ".tmp"

/-- A name for the file that is being collected, under which there is nothing yet. -/
def freshName (f : Files) (directory : Place) (name : String) : String :=
  let free := fun n => (f.node? (directory ++ [candidate name n])).isNone
  candidate name (((List.range (f.nodes.length + 1)).find? free).getD 0)

/-! ## Replacing the file at a path -/

/-- The directory that a file is to be in. -/
def directoryOf (f : Files) (p : Path) : Except FileFailure Place := do
  let at_ ← f.locate p.parent
  match f.node? at_ with
  | some .directory => pure at_
  | some (.file ..) => throw .notDirectory
  | none => throw .missing

/-- The replacement of the file at a path. -/
def commitFor (f : Files) (p : Path) (octets : List UInt8) : Except FileFailure Commit := do
  let directory ← f.directoryOf p
  let temp := f.freshName directory p.name
  if nameLimit < temp.utf8ByteSize then throw .nameTooLong
  let target := if p.name = "" || p.name = ".." then none else some (directory ++ [p.name])
  pure ⟨directory ++ [temp], target, octets⟩

/-- Replace the file at a path, all at once or not at all. -/
def replace (fault : Fault) (f : Files) (p : Path) (octets : List UInt8) :
    Files × Option FileFailure :=
  match f.commitFor p octets with
  | .error why => (f, some why)
  | .ok c => f.commit fault c

end Files

end Ssa

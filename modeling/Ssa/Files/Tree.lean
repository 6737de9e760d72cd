/-
# `Ssa.Files.Tree` — directories and files

A tree of files is kept as a list of places, each with a directory or the octets of a file.  The
top of the tree is a directory itself.  Paths are followed name by name from the directory that
work is done in.
-/
import Ssa.Files.Path

namespace Ssa

/-- A place: the names that lead to it from the top. -/
abbrev Place := List String

/-- What is at a place. -/
inductive Node where
  | directory
  | file (mode : Nat) (octets : List UInt8)
deriving DecidableEq, Repr, Inhabited

/-- Why a file cannot be had. -/
inductive FileFailure where
  | missing
  | isDirectory
  | notDirectory
  | busy
  | nameTooLong
  | denied
deriving DecidableEq, Repr

/-- The sentence for a reason. -/
def FileFailure.reason : FileFailure → String
  | .missing => "No such file or directory"
  | .isDirectory => "Is a directory"
  | .notDirectory => "Not a directory"
  | .busy => "Device or resource busy"
  | .nameTooLong => "File name too long"
  | .denied => "Permission denied"

/-- A tree of files, and the place where work is done. -/
structure Files where
  nodes : List (Place × Node)
  here : Place
deriving Repr, Inhabited

namespace Files

/-- What is at a place. -/
def node? (f : Files) (p : Place) : Option Node :=
  if p.isEmpty then some .directory else f.nodes.lookup p

/-- Put something at a place. -/
def put (f : Files) (p : Place) (n : Node) : Files :=
  { f with nodes := (p, n) :: f.nodes.filter fun e => e.1 != p }

/-- Put something at a path under the directory that work is done in, with the directories that
lead there. -/
def putWithin (f : Files) (p : Path) (n : Node) : Files :=
  let leading := (List.range p.parts.length).drop 1
  let f := leading.foldl (fun f k => f.put (f.here ++ p.parts.take k) .directory) f
  f.put (f.here ++ p.parts) n

/-- Take away what is at a place. -/
def remove (f : Files) (p : Place) : Files :=
  { f with nodes := f.nodes.filter fun e => e.1 != p }

/-- A directory to work in that holds nothing. -/
def fresh : Files := ⟨[(["work"], .directory)], ["work"]⟩

/-! ## Following paths -/

/-- The length up to which names are accepted, in octets. -/
def nameLimit : Nat := 255

/-- The place that a name leads to from a directory.  The top leads up to itself. -/
def follow (at_ : Place) (name : String) : Except FileFailure Place :=
  if name = ".." then .ok at_.dropLast
  else if nameLimit < name.utf8ByteSize then .error .nameTooLong
  else .ok (at_ ++ [name])

/-- Go from a place, which is to be a directory, along a name. -/
def enter (f : Files) (at_ : Place) (name : String) : Except FileFailure Place :=
  match f.node? at_ with
  | some .directory => follow at_ name
  | some (.file ..) => .error .notDirectory
  | none => .error .missing

/-- The place of a path, whether there is something or not; everything on the way is there. -/
def locate (f : Files) (p : Path) : Except FileFailure Place :=
  p.parts.foldlM f.enter (if p.root = "" then f.here else [])

/-! ## Reading and writing -/

/-- The octets of the file at a path. -/
def read (f : Files) (p : Path) : Except FileFailure (List UInt8) := do
  let at_ ← f.locate p
  match f.node? at_ with
  | some (.file _ octets) => pure octets
  | some .directory => throw .isDirectory
  | none => throw .missing

/-- The mode that files get. -/
def plainMode : Nat := 0o644

/-- Write a file, which is made if there is none. -/
def write (f : Files) (p : Path) (octets : List UInt8) : Except FileFailure Files := do
  let at_ ← f.locate p
  match f.node? at_ with
  | some (.file mode _) => pure (f.put at_ (.file mode octets))
  | some .directory => throw .isDirectory
  | none => pure (f.put at_ (.file plainMode octets))

/-- The names in the directory that work is done in, with what they name, in ascending order. -/
def listing (f : Files) : List (String × Node) :=
  let entries := f.nodes.filterMap fun (p, n) =>
    match p.getLast? with
    | some name => if p.dropLast = f.here then some (name, n) else none
    | none => none
  entries.mergeSort fun a b => decide (a.1 ≤ b.1)

/-! ## Text -/

/-- The octets of a text. -/
def octetsOf (s : String) : List UInt8 := s.toUTF8.toList

/-- A text with every kind of line end written as a line feed. -/
def unifyLineEnds : List Char → List Char
  | '\r' :: '\n' :: cs => '\n' :: unifyLineEnds cs
  | '\r' :: cs => '\n' :: unifyLineEnds cs
  | c :: cs => c :: unifyLineEnds cs
  | [] => []

/-- The text of octets. -/
def textOf? (octets : List UInt8) : Option String :=
  (String.fromUTF8? ⟨octets.toArray⟩).map fun s => String.ofList (unifyLineEnds s.toList)

end Files

end Ssa

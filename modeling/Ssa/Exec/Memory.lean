/-
# `Ssa.Exec.Memory` — cells, regions, and runs that use them

The memory has two kinds of storage.  A cell has a type and holds one value.  A region is a row of
octets, which are reached by address; neighbouring regions are so far apart that no address leads
into two of them.  Cells and regions are added at the end and never taken away.

The global variables of an engine have a cell or a region each.

A computation of a run may fail; what it did to the memory before that remains.
-/
import Ssa.Exec.Value

namespace Ssa

/-- Storage for one value. -/
structure Cell where
  type : Ty
  value : Value
deriving Repr, Inhabited

/-- Storage for octets. -/
abbrev Region := Array UInt8

/-- What outlasts a run: the cells and the regions. -/
structure Storage where
  cells : Array Cell
  regions : Array Region
deriving Repr, Inhabited

/-- The storage of a run, and which parts of it belong to which global variables, by position in the
module. -/
structure Memory where
  storage : Storage
  globals : List (Nat × Nat)
deriving Repr, Inhabited

namespace Storage

/-- Storage without cells and regions. -/
def empty : Storage := ⟨#[], #[]⟩

/-- The cell of a number. -/
def cell? (s : Storage) (id : Nat) : Option Cell := s.cells[id]?

/-- Add a cell. -/
def addCell (s : Storage) (c : Cell) : Storage := { s with cells := s.cells.push c }

/-- Change the content of a cell. -/
def write (s : Storage) (id : Nat) (v : Value) : Storage :=
  { s with cells := s.cells.modify id fun c => { c with value := v } }

/-! ## Regions -/

/-- The distance between the addresses of neighbouring regions. -/
def regionSpan : Nat := 0x100000000

/-- The address of the first octet of a region.  None is at zero. -/
def addressOf (id : Nat) : Nat := (id + 1) * regionSpan

/-- Add a region of zeros. -/
def addRegion (s : Storage) (size : Nat) : Storage :=
  { s with regions := s.regions.push (Array.replicate size 0) }

/-- The octet at an address.  Where there is no storage there is zero. -/
def octetAt (s : Storage) (address : Nat) : UInt8 :=
  ((s.regions[address / regionSpan - 1]?).bind (·[address % regionSpan]?)).getD 0

/-- A number of octets from an address on. -/
def octetsAt (s : Storage) (address count : Nat) : List UInt8 :=
  (List.range count).map fun i => s.octetAt (address + i)

/-- Change the octet at an address, if there is storage. -/
def setOctet (s : Storage) (address : Nat) (b : UInt8) : Storage :=
  { s with
    regions := s.regions.modify (address / regionSpan - 1)
      (·.setIfInBounds (address % regionSpan) b) }

/-- Change the octets from an address on. -/
def setOctets (s : Storage) (address : Nat) : List UInt8 → Storage
  | [] => s
  | b :: rest => setOctets (s.setOctet address b) (address + 1) rest

/-- Whether an address leads into a region or to its end. -/
def holds (s : Storage) (address : Nat) : Bool :=
  decide (regionSpan ≤ address) &&
    (s.regions[address / regionSpan - 1]?).any fun r => address % regionSpan ≤ r.size

end Storage

namespace Memory

/-- The memory without storage. -/
def empty : Memory := ⟨.empty, []⟩

/-- The part of the storage that belongs to a global variable. -/
def global? (m : Memory) (i : Nat) : Option Nat := m.globals.lookup i

/-- Add a cell. -/
def allocate (m : Memory) (t : Ty) (v : Value) : Nat × Memory :=
  (m.storage.cells.size, { m with storage := m.storage.addCell ⟨t, v⟩ })

/-- Add a region. -/
def reserve (m : Memory) (size : Nat) : Nat × Memory :=
  (m.storage.regions.size, { m with storage := m.storage.addRegion size })

/-- Note which part of the storage belongs to a global variable. -/
def setGlobal (m : Memory) (i id : Nat) : Memory := { m with globals := (i, id) :: m.globals }

end Memory

/-- A computation of a run. -/
abbrev Exec := ExceptT Failure (StateM Memory)

namespace Exec

/-- A computation that does not use the memory. -/
def lift {α : Type} : Except Failure α → Exec α
  | .ok a => pure a
  | .error e => throw e

/-- Change the storage. -/
def modifyStorage (change : Storage → Storage) : Exec Unit :=
  modify fun m => { m with storage := change m.storage }

/-! ## Cells -/

/-- Add a cell, and answer with its number. -/
def allocate (t : Ty) (v : Value) : Exec Nat := do
  let (id, m) := (← get).allocate t v
  set m
  pure id

/-- Change the content of a cell. -/
def write (id : Nat) (v : Value) : Exec Unit := modifyStorage (·.write id v)

/-- The cell of a number. -/
def cell (id : Nat) : Exec Cell := do
  return ((← get).storage.cell? id).getD ⟨.void, .null⟩

/-! ## Regions -/

/-- Add a region, and answer with its number. -/
def reserve (size : Nat) : Exec Nat := do
  let (id, m) := (← get).reserve size
  set m
  pure id

/-- A number of octets from an address on. -/
def octetsAt (address count : Nat) : Exec (List UInt8) := do
  return (← get).storage.octetsAt address count

/-- Change the octets from an address on. -/
def setOctets (address : Nat) (bytes : List UInt8) : Exec Unit :=
  modifyStorage (·.setOctets address bytes)

end Exec

/-- The values of a frame by number, latest first. -/
abbrev Env := List (Nat × Value)

namespace Env

/-- Bind a value. -/
def bind (env : Env) (id : Nat) (v : Value) : Env :=
  (id, v) :: List.filter (fun e => e.1 != id) env

/-- Bind values in order. -/
def bindAll (env : Env) (vs : List (Nat × Value)) : Env :=
  vs.foldl (fun env e => env.bind e.1 e.2) env

end Env

end Ssa

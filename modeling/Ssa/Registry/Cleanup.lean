/-
# `Ssa.Registry.Cleanup` — cleanup that runs once

An entry of a registry may come with a cleanup.  The cleanup runs when it is called for, or when
the thing of the entry goes away, whichever is first, and it does not run again.
-/
import Ssa.Registry.Basic

namespace Ssa

/-- A cleanup: the number of the entry it belongs to, what it is told, and whether it is still to
run. -/
structure Cleanup (β : Type) where
  id : Nat
  args : List β
  alive : Bool
deriving Repr, Inhabited

/-- A registry whose things have owners' names, with cleanups, and the record of the cleanups that
ran. -/
structure Arena (β : Type) where
  registry : Registry String
  cleanups : List (Cleanup β)
  log : List (Nat × List β)
deriving Repr, Inhabited

namespace Arena

variable {β : Type}

/-- The arena without entries. -/
def empty : Arena β := ⟨.empty, [], []⟩

/-- The cleanup of an entry. -/
def cleanup? (a : Arena β) (id : Nat) : Option (Cleanup β) :=
  a.cleanups.find? fun c => c.id == id

/-- Enter a thing. -/
def insert (a : Arena β) (kind owner : String) : Nat × Arena β :=
  let (id, registry) := a.registry.insert kind owner
  (id, { a with registry })

/-- Enter a thing with a cleanup. -/
def track (a : Arena β) (kind owner : String) (args : List β) : Nat × Arena β :=
  let (id, a) := a.insert kind owner
  (id, { a with cleanups := a.cleanups ++ [⟨id, args, true⟩] })

/-- Run the cleanup of an entry if it is still to run. -/
def finalize (a : Arena β) (id : Nat) : Arena β :=
  match a.cleanup? id with
  | some c =>
    if c.alive then
      { a with
        cleanups := a.cleanups.map fun c => if c.id = id then { c with alive := false } else c
        log := a.log ++ [(id, c.args)] }
    else a
  | none => a

/-- Whether the cleanup of an entry is still to run. -/
def isPending (a : Arena β) (id : Nat) : Bool := (a.cleanup? id).any Cleanup.alive

/-- The thing of an entry goes away. -/
def collect (a : Arena β) (id : Nat) : Arena β :=
  { a with registry := a.registry.forget id }.finalize id

end Arena

end Ssa

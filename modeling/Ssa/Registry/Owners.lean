/-
# `Ssa.Registry.Owners` — an arena whose things are held by name

Things are held by name: as long as a name holds a thing it stays, and a name that is given to
another thing lets the first one go.
-/
import Ssa.Registry.Cleanup

namespace Ssa

/-- An arena, the entries of the things that names hold, and the last entry with a cleanup of every
name. -/
structure Owners (β : Type) where
  arena : Arena β
  held : List (String × Nat)
  tracked : List (String × Nat)
deriving Repr, Inhabited

namespace Owners

variable {β : Type}

/-- Nothing is held. -/
def empty : Owners β := ⟨.empty, [], []⟩

/-- Let the thing of a name go. -/
def drop (o : Owners β) (name : String) : Owners β :=
  match o.held.lookup name with
  | some id => { o with arena := o.arena.collect id, held := o.held.filter (·.1 != name) }
  | none => o

/-- Give a name to a thing that is entered. -/
def hold (o : Owners β) (name : String) (enter : Arena β → Nat × Arena β) : Nat × Owners β :=
  let o := o.drop name
  let (id, arena) := enter o.arena
  (id, { o with arena, held := (name, id) :: o.held })

/-- Enter a thing under a name. -/
def insert (o : Owners β) (name kind : String) : Nat × Owners β :=
  o.hold name (·.insert kind name)

/-- Enter a thing with a cleanup under a name. -/
def track (o : Owners β) (name kind : String) (args : List β) : Nat × Owners β :=
  let (id, o) := o.hold name (·.track kind name args)
  (id, { o with tracked := (name, id) :: o.tracked })

/-- Release what a datum leads to. -/
def dismiss (o : Owners β) (id : Datum) : Except Failure (Bool × Owners β) := do
  let (done, registry) ← o.arena.registry.dismiss id
  return (done, { o with arena := { o.arena with registry } })

/-- Whether the last cleanup under a name is still to run. -/
def alive (o : Owners β) (name : String) : Except Failure Bool :=
  match o.tracked.lookup name with
  | some id => .ok (o.arena.isPending id)
  | none => .error .noKey

/-- Run the last cleanup under a name if it is still to run. -/
def finalize (o : Owners β) (name : String) : Owners β :=
  match o.tracked.lookup name with
  | some id => { o with arena := o.arena.finalize id }
  | none => o

end Owners

end Ssa

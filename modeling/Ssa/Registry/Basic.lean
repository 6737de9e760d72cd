/-
# `Ssa.Registry.Basic` — numbered places for things that may go away

Whatever has a lifetime of its own is entered into a registry under a kind, and is spoken of by the
number it got there.  Numbers are given out once, in ascending order.  An entry ends when it is
released, or when the thing itself is gone; from then on its number answers with a failure and
never leads to another thing.

A question to a registry may name any datum where a number or a kind is asked for.  A datum that is
no number leads to nothing.
-/
import Ssa.Failure.Basic

namespace Ssa

/-- A place of a registry: a number, the kind of thing, and the thing, unless it is gone. -/
structure Slot (α : Type) where
  id : Nat
  kind : String
  payload : Option α
deriving Repr, Inhabited

/-- Whether the thing of a place is still there. -/
def Slot.isPresent {α : Type} (s : Slot α) : Bool := s.payload.isSome

/-- The places that have not been released, and how many numbers have been given out. -/
structure Registry (α : Type) where
  slots : List (Slot α)
  issued : Nat
deriving Repr, Inhabited

namespace Registry

variable {α : Type}

/-- The registry without places. -/
def empty : Registry α := ⟨[], 0⟩

/-- The number that the next entry gets. -/
def next (r : Registry α) : Nat := r.issued + 1

/-- The place of a number. -/
def slot? (r : Registry α) (id : Int) : Option (Slot α) :=
  r.slots.find? fun s => (s.id : Int) == id

/-- Enter a thing. -/
def insert (r : Registry α) (kind : String) (payload : α) : Nat × Registry α :=
  (r.next, ⟨r.slots ++ [⟨r.next, kind, some payload⟩], r.next⟩)

/-- The thing of a number that is to be of a kind. -/
def get (r : Registry α) (id : Int) (kind : String) : Except Failure α :=
  match r.slot? id with
  | none => .error (.disposed kind (toString id))
  | some s =>
    match s.payload with
    | none => .error (.disposed kind (toString id))
    | some a => if s.kind = kind then .ok a else .error (.wrongKind (toString id) s.kind kind)

/-- Release a number.  The first release of a number that has been given out succeeds. -/
def release (r : Registry α) (id : Int) : Bool × Registry α :=
  ((r.slot? id).isSome, { r with slots := r.slots.filter fun s => (s.id : Int) != id })

/-- Take note that the thing of a number is gone. -/
def forget (r : Registry α) (id : Nat) : Registry α :=
  { r with slots := r.slots.map fun s => if s.id = id then { s with payload := none } else s }

/-- Whether a number leads to a thing. -/
def isLive (r : Registry α) (id : Int) : Bool := (r.slot? id).any Slot.isPresent

/-- How many numbers lead to things, of one kind or of any. -/
def liveCount (r : Registry α) (kind : Option String) : Nat :=
  (r.slots.filter fun s => s.isPresent && kind.all (· == s.kind)).length

/-! ## Questions about data -/

/-- The place that a datum leads to.  Collections are no keys of a registry. -/
def place? (r : Registry α) (id : Datum) : Except Failure (Option (Slot α)) :=
  if id.isKey then .ok (id.keyNumber?.bind r.slot?) else .error .typeMismatch

/-- The thing that a datum leads to and that is to be of a kind. -/
def find (r : Registry α) (id kind : Datum) : Except Failure α := do
  match (← r.place? id).bind fun s => s.payload.map fun a => (s.kind, a) with
  | none => throw (.disposed kind.shown id.shown)
  | some (actual, a) =>
    match kind with
    | .text expected =>
      if actual = expected then pure a else throw (.wrongKind id.shown actual expected)
    | _ => throw (.wrongKind id.shown actual kind.shown)

/-- Whether a datum leads to a thing. -/
def leads (r : Registry α) (id : Datum) : Except Failure Bool := do
  return (← r.place? id).any Slot.isPresent

/-- Release what a datum leads to. -/
def dismiss (r : Registry α) (id : Datum) : Except Failure (Bool × Registry α) := do
  match ← r.place? id with
  | some s => return r.release s.id
  | none => return (false, r)

/-- How many numbers lead to things of a kind, or of any. -/
def count (r : Registry α) (kind : Datum) : Nat :=
  match kind with
  | .nothing => r.liveCount none
  | .text k => r.liveCount (some k)
  | _ => 0

end Registry

end Ssa

/-
# `Ssa.Program.Scope` — names that are used once

A scope remembers the names that are in use.  A name that is free is taken as it is; one that is
in use gets a number, counted up from one for each base name until the result is free.  The empty
name is always in use, so a value without a name of its own is called by its number.
-/

namespace Ssa

/-- The names in use, and the last number given out for each base name. -/
structure Scope where
  used : List String
  counters : List (String × Nat)
deriving Repr, DecidableEq, Inhabited

namespace Scope

/-- The scope in which only the empty name is in use. -/
def fresh : Scope := ⟨[""], []⟩

/-- Whether a name is in use. -/
def isUsed (s : Scope) (name : String) : Bool := s.used.contains name

/-- The last number given out for a base name. -/
def counter (s : Scope) (base : String) : Nat := (s.counters.lookup base).getD 0

/-- A base name with a number. -/
def numbered (base : String) (n : Nat) : String := base ++ "." ++ toString n

/-- The first free numbered name after a given number.  Of as many candidates as there are names
in use, and one more, one is free. -/
def nextFree (s : Scope) (base : String) : (candidates : Nat) → Nat → Nat
  | 0, n => n
  | candidates + 1, n =>
    if s.isUsed (numbered base n) then nextFree s base candidates (n + 1) else n

/-- The scope with a name in use. -/
def take (s : Scope) (name : String) : Scope := { s with used := name :: s.used }

/-- Bring a name into use, with a number if it is in use already. -/
def register (s : Scope) (name : String) : String × Scope :=
  if s.isUsed name then
    let n := s.nextFree name s.used.length (s.counter name + 1)
    let result := numbered name n
    (result, ⟨result :: s.used, (name, n) :: s.counters⟩)
  else (name, s.take name)

end Scope

end Ssa

/-
# `Ssa.Session.Describe` — things of a session in words
-/
import Ssa.Session.Engine

namespace Ssa.Session

/-- A context in words. -/
def describeContext (id : Nat) : Act String := do
  let c ← contextRecord id
  let live := (← get).isLive id
  let state := if c.isGlobal then "global" else if live then "live" else "disposed"
  pure s!"<Context #{id} {state}>"

/-- A module in words. -/
def describeModule (id : Nat) : Act String := do
  let r ← moduleRecord id
  let count := r.table.length
  let state := if (← get).isLive id then s!"{count} function(s)" else "disposed"
  pure ("<Module " ++ display r.name ++ s!" #{id} {state}>")

/-- The word for what runs the functions of an engine. -/
def modeWord : Backend → String
  | .interpreter => "interpreter"
  | .compiled .. => "jit"

/-- An engine in words. -/
def describeEngine (id : Nat) : Act String := do
  let e ← engineRecord id
  let name := (← moduleRecord e.module).name
  let state := if (← get).isLive id then "bound to " ++ display name else "disposed"
  pure (s!"<Engine #{id} " ++ modeWord e.backend ++ s!" {state}>")

/-- A handle in words. -/
def describeHandle (h : Handle) : Act String := do
  match h with
  | .bare .. => return "<Function " ++ display (← functionName h) ++ " bare>"
  | .member m i =>
    if (← get).isLive m then
      return "<Function " ++ display (← functionName h) ++ s!" module #{m}[{i}]>"
    else pure s!"<Function module #{m}[{i}] stale>"

end Ssa.Session

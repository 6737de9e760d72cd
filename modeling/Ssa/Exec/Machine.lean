/-
# `Ssa.Exec.Machine` — the machine

The machine runs one function at a time and keeps the ones that wait for it on a stack of frames.
A frame has the values computed so far, the block and the position in it, and, while it waits, the
call it waits for.  What an operand stands for and what an instruction does is left to a set of
rules; the machine itself knows how control moves: along a block, to another block by way of its
phis, into a function, and back to the call.
-/
import Ssa.Exec.Memory
import Ssa.Program.Module

namespace Ssa

/-- What is run: a module, the number by which values refer to it, and the named structures that its
layout depends on. -/
structure Program where
  owner : Nat
  types : TypeTable
  module : Module
deriving Repr, Inhabited

/-- The activation of a function. -/
structure Frame where
  function : Function
  env : Env
  block : Nat
  pc : Nat
  pending : Option Nat
deriving Repr, Inhabited

/-- What an instruction asks for. -/
inductive Signal where
  /-- Bind the instruction to a value and go on to the next one. -/
  | value (v : Value)
  /-- Go on at a block. -/
  | goto (target : Nat)
  /-- Run a function, given by its position, and bind the instruction to what it returns. -/
  | call (callee : Nat) (args : List Value)
  /-- Leave the function. -/
  | ret (v : Value)
deriving Repr, Inhabited

/-- What an operand stands for, and what an instruction asks for, in a frame. -/
structure Rules where
  eval : Program → Function → Env → Operand → Exec Value
  perform : Program → Function → Env → Instr → Exec Signal

namespace Function

/-- The instructions of a block. -/
def instrs (f : Function) (b : Nat) : List Instr := ((f.blocks[b]?).map Block.instrs).getD []

/-- The phis at the head of a block. -/
def leadingPhis (f : Function) (b : Nat) : List Instr := (f.instrs b).takeWhile (·.op.isPhi)

end Function

namespace Frame

/-- The instruction that a frame is at. -/
def current? (fr : Frame) : Option Instr := (fr.function.instrs fr.block)[fr.pc]?

/-- Bind a value, and go on to the next instruction. -/
def advance (fr : Frame) (id : Nat) (v : Value) : Frame :=
  { fr with env := fr.env.bind id v, pc := fr.pc + 1, pending := none }

/-- Bind the pending call to what it returned, and go on to the next instruction. -/
def resume (fr : Frame) (v : Value) : Frame :=
  match fr.pending with
  | some id => fr.advance id v
  | none => fr

/-- Suspend a frame at a call. -/
def await (fr : Frame) (id : Nat) : Frame := { fr with pending := some id }

end Frame

namespace Machine

/-! ## From block to block -/

/-- The name of the block that control comes from, if it comes from one. -/
def sourceName (f : Function) : Option Nat → String
  | some b => f.blockName b
  | none => "<entry>"

/-- The operand that a phi takes when control comes from a block: that of its first entry for the
block. -/
def entryFor (incoming : List (Operand × Nat)) (source : Option Nat) : Option Operand :=
  (incoming.find? fun e => some e.2 == source).map Prod.fst

/-- The entries of a phi. -/
def incomingOf (i : Instr) : List (Operand × Nat) :=
  match i.op with
  | .phi incoming => incoming
  | _ => []

/-- The value of a phi. -/
def phiValue (rules : Rules) (p : Program) (f : Function) (env : Env) (source : Option Nat)
    (i : Instr) : Exec (Nat × Value) := do
  match entryFor (incomingOf i) source with
  | some o => return (i.id, ← rules.eval p f env o)
  | none => throw (.noIncoming (f.localName i.id) f.name (sourceName f source))

/-- Go on at a block: all its leading phis read their entries before any of them is bound. -/
def jump (rules : Rules) (p : Program) (fr : Frame) (source : Option Nat) (target : Nat) :
    Exec Frame := do
  let phis := fr.function.leadingPhis target
  let values ← phis.mapM (phiValue rules p fr.function fr.env source)
  pure { fr with env := fr.env.bindAll values, block := target, pc := phis.length }

/-! ## Into a function -/

/-- The values of the parameters, as far as there are arguments. -/
def bindParams : List Ty → List Value → Nat → Except Failure Env
  | t :: ts, v :: vs, id => do
    let x ← v.normalize t
    let env ← bindParams ts vs (id + 1)
    pure ((id, x) :: env)
  | _, _, _ => .ok []

/-- The frame of a function at its first block. -/
def enter (rules : Rules) (p : Program) (f : Function) (args : List Value) : Exec Frame := do
  if f.isDeclaration then throw (.noBody f.name)
  let env ← Exec.lift (bindParams f.params args 0)
  jump rules p ⟨f, env, 0, 0, none⟩ none 0

/-- The frame of the function at a position of the module. -/
def enterAt (rules : Rules) (p : Program) (callee : Nat) (args : List Value) : Exec Frame :=
  match p.module.function? callee with
  | some f => enter rules p f args
  | none => throw (.unsupported .indirectCall "")

/-! ## Steps -/

/-- A machine: running, with the innermost frame first, or done. -/
inductive State where
  | running (frame : Frame) (waiting : List Frame)
  | done (v : Value)
deriving Repr, Inhabited

/-- Where the machine is after a function returned. -/
def leave (v : Value) : List Frame → State
  | [] => .done v
  | caller :: rest => .running (caller.resume v) rest

/-- One step of a frame: one instruction. -/
def step (rules : Rules) (p : Program) (fr : Frame) (waiting : List Frame) : Exec State := do
  match fr.current? with
  | none => throw (.noTerminator (fr.function.blockName fr.block) fr.function.name)
  | some i =>
    match ← rules.perform p fr.function fr.env i with
    | .value v => pure (.running (fr.advance i.id v) waiting)
    | .goto target =>
      let fr ← jump rules p fr (some fr.block) target
      pure (.running fr waiting)
    | .call callee args =>
      let inner ← enterAt rules p callee args
      pure (.running inner (fr.await i.id :: waiting))
    | .ret v => pure (leave v waiting)

/-- At most the given number of steps. -/
def run (rules : Rules) (p : Program) : (steps : Nat) → State → Exec Value
  | _, .done v => pure v
  | 0, .running .. => throw .stepLimit
  | steps + 1, .running fr waiting => do
    let s ← step rules p fr waiting
    run rules p steps s

/-- Run a function on arguments. -/
def call (rules : Rules) (p : Program) (steps : Nat) (f : Function) (args : List Value) :
    Exec Value := do
  let fr ← enter rules p f args
  run rules p steps (.running fr [])

end Machine

end Ssa

/-
# `Ssa.Script.Thing` — what the steps of a script give

A script drives a session step by step.  What a step gives can be given a name, and later steps
speak of it by that name.  Contexts, modules and engines to which no name leads go away.
-/
import Ssa.Session.Describe
import Ssa.Session.Emission

namespace Ssa.Script

/-- What a step gives. -/
inductive Thing where
  | nothing
  | truth (b : Bool)
  | count (n : Int)
  | real (x : Fp)
  | text (s : String)
  | context (id : Nat)
  | module (id : Nat)
  | engine (id : Nat)
  | function (h : Handle) (name : String)
  /-- A function that was declared outside the table; it answers with its name. -/
  | outside (h : Handle) (name : String)
  | named (context : Nat) (entry : NamedType)
  | global (g : Session.GlobalRef) (name : String) (type : Ty)
  | block (name : String)
  | parameter (name : String) (type : Ty)
  | type (t : Ty)
  | value (g : GenericValue)
  | datum (v : Value)
  | result (r : RunResult)
  | equality (eq : Bool)
  | written (path : Path) (same : Bool)
  | files (f : Files)
  | list (things : List Thing)
deriving Repr, Inhabited

/-- The handle that a thing is. -/
def Thing.handle? : Thing → Option Handle
  | .function h _ | .outside h _ => some h
  | _ => none

/-- The number of a context, module or engine. -/
def Thing.number? : Thing → Option Nat
  | .context id | .module id | .engine id => some id
  | _ => none

/-- Why a step gives nothing. -/
inductive Trouble where
  /-- A name that stands for nothing. -/
  | unbound
  | failed (f : Failure)
deriving Repr, Inhabited

/-- A thing that has been named, told apart from all things that were named before. -/
structure Entry where
  serial : Nat
  thing : Thing
deriving Repr, Inhabited

namespace Entry

/-- Whether two things are one. -/
def same (a b : Entry) : Bool :=
  match a.thing, b.thing with
  | .named c e, .named d f => c == d && e.name == f.name
  | .global g .., .global h .. => decide (g = h)
  | x, y =>
    match x.number?, y.number? with
    | some i, some k => i == k
    | _, _ => a.serial == b.serial

/-- Whether two things are equal.  Handles are equal when they denote a function in the same way. -/
def equal (a b : Entry) : Bool :=
  match a.thing.handle?, b.thing.handle? with
  | some g, some h => decide (g = h)
  | _, _ =>
    match a.thing, b.thing with
    | .named _ e, .named _ f => e.name == f.name
    | _, _ => a.same b

end Entry

/-- A session with names.  What is held stays, even if its name is forgotten meanwhile. -/
structure Desk where
  session : Session
  names : List (String × Entry)
  held : List Nat
  serial : Nat
deriving Repr, Inhabited

/-- A desk on which nothing has been done. -/
def Desk.fresh (files : Files) : Desk := ⟨.fresh files, [], [], 0⟩

/-- The numbers that are held or named. -/
def Desk.roots (d : Desk) : List Nat :=
  d.held ++ d.names.filterMap fun e => e.2.thing.number?

/-- A part of a step. -/
abbrev Doing := ExceptT Trouble (StateM Desk)

/-- Do a step of the session. -/
def act {α : Type} (a : Act α) : Doing α := do
  let d ← get
  let (outcome, session) := a.run.run d.session
  set { d with session }
  match outcome with
  | .ok a => pure a
  | .error f => throw (.failed f)

/-- A computation that may fail. -/
def lift {α : Type} (x : Except Failure α) : Doing α := act (Session.lift x)

/-- A thing that is not of the kind that is needed. -/
def unfit {α : Type} : Doing α := throw (.failed .lacksAttribute)

/-! ## Names -/

/-- What a name stands for. -/
def entry (name : String) : Doing Entry := do
  match (← get).names.lookup name with
  | some e => pure e
  | none => throw .unbound

/-- The thing that a name stands for. -/
def thing (name : String) : Doing Thing := return (← entry name).thing

/-- The context that a name stands for. -/
def context (name : String) : Doing Nat := do
  match ← thing name with
  | .context id => pure id
  | _ => unfit

/-- The context that a name stands for, if there is a name. -/
def context? : Option String → Doing (Option Nat)
  | some name => return some (← context name)
  | none => pure none

/-- The module that a name stands for. -/
def module (name : String) : Doing Nat := do
  match ← thing name with
  | .module id => pure id
  | _ => unfit

/-- The engine that a name stands for. -/
def engine (name : String) : Doing Nat := do
  match ← thing name with
  | .engine id => pure id
  | _ => unfit

/-- The handle that a name stands for. -/
def handle (name : String) : Doing Handle := do
  match (← thing name).handle? with
  | some h => pure h
  | none => unfit

/-- Give a thing a name, which stood for something else before or for nothing. -/
def bind (name : String) (t : Thing) : Doing Unit :=
  modify fun d =>
    { d with
      names := (name, ⟨d.serial, t⟩) :: d.names.filter (·.1 != name)
      serial := d.serial + 1 }

/-- Let go what no name leads to. -/
def settle : Doing Unit := do
  let d ← get
  act (Session.collect d.roots)

/-- Forget a name, which stands for something unless it has been forgotten just now. -/
def forget (name : String) : Doing Unit := do
  if ((← get).names.lookup name).isNone then throw (.failed .noKey)
  modify fun d => { d with names := d.names.filter (·.1 != name) }
  settle

/-- Forget names, all of which have to stand for something. -/
def forgetAll (names : List String) : Doing Unit := do
  names.forM fun name => discard (entry name)
  names.forM forget

/-- Hold a number. -/
def hold (id : Nat) : Doing Unit := modify fun d => { d with held := id :: d.held }

/-- Let go of the number that was held last. -/
def letGo : Doing Unit := modify fun d => { d with held := d.held.tail }

/-! ## Things of a session -/

/-- A handle as a thing. -/
def ofHandle (h : Handle) : Doing Thing := do
  match h with
  | .member .. => pure (.function h "")
  | .bare .. => return .function h (← act (Session.functionName h))

/-- A global variable as a thing. -/
def ofGlobal (g : Session.GlobalRef) : Doing Thing := do
  let v ← act (Session.variableOf g)
  pure (.global g v.name v.type)

end Ssa.Script

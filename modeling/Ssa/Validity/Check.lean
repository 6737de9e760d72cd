/-
# `Ssa.Validity.Check` — the check of a module

A module is judged by its text.  First the text has to be readable, then the verifier must have
nothing against it; the first of the two that fails is reported.  What stands on the line of the
module's name is a remark, but a name with a line break ends the remark early.
-/
import Ssa.Validity.Flow
import Ssa.Assembly.Reader

namespace Ssa

/-- Why a module does not pass its check. -/
inductive Defect where
  | unreadable
  | unverified
deriving DecidableEq, Repr

/-- The failure that reports a defect of a module of the given name. -/
def Defect.failure (name : String) : Defect → Failure
  | .unreadable => .unreadable name
  | .unverified => .unverified name

/-- What of a module's name is not part of the remark it stands in: what follows a line break. -/
def nameTail (name : String) : Option String :=
  match name.toList.dropWhile fun c => !Assembly.Token.isLineEnd c with
  | [] => none
  | cs => some (String.ofList cs ++ "\"")

/-- Whether the line of a module's name can be read. -/
def nameLineReads (name : String) : Bool :=
  match nameTail name with
  | none => true
  | some tail => (Assembly.read name tail).isSome

/-- Whether a module's text ends within its first line. -/
def isCutShort (name : String) : Bool :=
  !nameReads name && (nameTail (String.ofList (name.toList.takeWhile (· != '\x00')))).isNone

namespace Module

/-- Whether the text of a module can be read. -/
def isReadable (types : TypeTable) (m : Module) : Bool :=
  isCutShort m.name ||
    (nameReads m.name && nameLineReads m.name && m.declarationsRead types)

/-- The defect of a module, if it has one. -/
def defect? (types : TypeTable) (m : Module) : Option Defect :=
  if !m.isReadable types then some .unreadable
  else if isCutShort m.name || m.isVerified then none
  else some .unverified

/-- Check a module under its own name. -/
def check (types : TypeTable) (m : Module) : Except Failure Unit :=
  match m.defect? types with
  | some d => .error (d.failure m.name)
  | none => .ok ()

end Module

/-- The module of a text that can be read. -/
def readAssembly (name text : String) : Except Failure (TypeTable × Module) :=
  match Assembly.read name text with
  | some (types, m) =>
    if m.declarationsRead types then .ok (types, m) else .error (.unreadable name)
  | none => .error (.unreadable name)

/-- Check a text under a name. -/
def checkAssembly (name text : String) : Except Failure Unit := do
  let (_, m) ← readAssembly name text
  if m.isVerified then pure () else throw (.unverified name)

end Ssa

/-
# `Ssa.Failure.Basic` — what can go wrong, by cause

Every operation of the library that can fail says why with one of the causes below.  Some causes
are listed in the catalogue: they have a code there, and their message is the entry's template
filled with the fields of the cause.  The others are mistakes in the use of the library; some of
them have a message too.

The diagnostics of the assembly reader and of the verifier are not part of a message.  Where a
template asks for one, a placeholder stands for it.
-/
import Ssa.Failure.Catalogue
import Ssa.Ty

namespace Ssa

/-- How a value inside a function came to be. -/
inductive Form where
  | argument
  | arithmetic
  | integerComparison
  | floatComparison
  | cast
  | select
  | alloca
  | call
  | invoke
  | load
  | atomicLoad
  | phi
  | address
  | extractValue
  | insertValue
  | extractElement
  | insertElement
  | atomicUpdate
  | compareExchange
  | block
  /-- An instruction that gives no value. -/
  | effect
deriving DecidableEq, Repr, Inhabited

/-- The word by which messages refer to a form. -/
def Form.word : Form → String
  | .argument => "Argument"
  | .arithmetic => "Instruction"
  | .integerComparison => "ICMPInstr"
  | .floatComparison => "FCMPInstr"
  | .cast => "CastInstr"
  | .select => "SelectInstr"
  | .alloca => "AllocaInstr"
  | .call => "CallInstr"
  | .invoke => "InvokeInstr"
  | .load => "LoadInstr"
  | .atomicLoad => "LoadAtomicInstr"
  | .phi => "PhiInstr"
  | .address => "GEPInstr"
  | .extractValue => "ExtractValue"
  | .insertValue => "InsertValue"
  | .extractElement => "ExtractElement"
  | .insertElement => "InsertElement"
  | .atomicUpdate => "AtomicRMW"
  | .compareExchange => "CmpXchg"
  | .block => "Block"
  | .effect => "Instruction"

/-- What the interpreter has no rule for. -/
inductive Unsupported where
  /-- An instruction, by the word that the assembly language has for it. -/
  | instruction (mnemonic : String)
  /-- A value that has not been computed. -/
  | operand (form : Form)
  /-- A constant that is neither an integer nor floating point. -/
  | constant (type : Ty)
  /-- An access through what is not a cell. -/
  | rawPointer (mnemonic : String)
  /-- A comparison other than equality of what is no integer. -/
  | pointerComparison (predicate : String)
  | bitcast (source target : Ty)
  /-- A call of what is not a function of the module. -/
  | indirectCall
deriving DecidableEq, Repr

/-- The name of what is unsupported. -/
def Unsupported.opname : Unsupported → String
  | .instruction mnemonic => mnemonic
  | .operand form => "operand " ++ form.word
  | .constant type => "constant of type " ++ type.text
  | .rawPointer mnemonic => mnemonic ++ " through a raw pointer"
  | .pointerComparison predicate => "icmp " ++ predicate ++ " on pointers"
  | .bitcast source target => "bitcast " ++ source.text ++ " to " ++ target.text
  | .indirectCall => "indirect call"

/-- What was to be passed between a compiled function and its caller. -/
inductive Unpassable where
  | type (t : Ty)
  /-- Arguments beyond the listed parameters. -/
  | further
deriving DecidableEq, Repr

/-- The name of what cannot be passed. -/
def Unpassable.name : Unpassable → String
  | .type t => t.text
  | .further => "... (variadic arguments)"

/-- A cause of failure. -/
inductive Failure where
  -- Listed in the catalogue
  | notInterpretable (module : String)
  | notCompilable (module : String)
  | unverified (module : String)
  | unreadable (module : String)
  | notEmittable (module : String)
  | objectNotWritten (path reason : String)
  | noTarget (cpu triple : String)
  | textNotWritten (path reason : String)
  | sourceNotRead (path reason : String)
  /-- A thing, by its kind and the text of its number. -/
  | disposed (kind id : String)
  | foreign (what owner module : String)
  | unknownSignature (name : String)
  | parameterIndex (index : Int) (name : String) (count : Nat)
  | duplicateSymbol (name module : String)
  | contextInUse (id count : Nat)
  | wrongKind (id actual expected : String)
  | unsupported (what : Unsupported) (function : String)
  | noBody (function : String)
  | argumentCount (function : String) (expected got : Nat)
  | unpassable (what : Unpassable)
  | reachedUnreachable (function : String)
  | noFunction (name module : String)
  | noTerminator (block function : String)
  | divisionByZero (function : String)
  | noIncoming (phi function block : String)
  | noBackend (reason : String)
  -- Numbers
  | mathDomain
  | nanToInteger
  | infinityToInteger
  | integerTooLarge
  | negativeShift
  | doesNotFit (value : Int) (type : Ty)
  | noIntegerView (type : Ty)
  /-- A division by zero outside a program. -/
  | zeroDivision
  /-- A number beyond the range of a representation. -/
  | outOfRange
  /-- A value that is no word of the width asked for. -/
  | notAWord
  -- Choices by name
  | unknownCpu (text : String)
  | unknownLevel (text : String)
  -- Misuse while building a program
  /-- An operand, element or initializer of another type than the one asked for. -/
  | typeMismatch
  /-- A type or value that does not have what is asked of it. -/
  | lacksAttribute
  /-- A value that is not among the accepted ones. -/
  | badValue
  /-- A condition that the builder insists on. -/
  | refused
  /-- A position beyond the end of a list. -/
  | beyondEnd
  /-- A name that a scope holds already, or the empty name. -/
  | nameTaken
  /-- A structure that has a body already. -/
  | bodyDefined
  /-- A value that a compiled function cannot take as this argument. -/
  | badArgument
  /-- A key without an entry. -/
  | noKey
  -- Other
  | notText
  /-- A run that did not end within the number of steps allowed to it. -/
  | stepLimit
  | catalogue (cause : CatalogueFailure)
deriving DecidableEq, Repr

namespace Failure

/-- What stands in a message for a diagnostic of the assembly reader or the verifier. -/
def diagnostic : String := "<reason>"

/-- The code of a cause and the fields of its message, for the causes listed in the catalogue. -/
def listing? : Failure → Option (String × List (String × Datum))
  | .notInterpretable m => some ("IH0101", [("module", m), ("reason", diagnostic)])
  | .notCompilable m => some ("IH0102", [("module", m), ("reason", diagnostic)])
  | .unverified m => some ("IH0201", [("module", m), ("reason", diagnostic)])
  | .unreadable m => some ("IH0202", [("module", m), ("reason", diagnostic)])
  | .notEmittable m => some ("IH0301", [("module", m), ("reason", diagnostic)])
  | .objectNotWritten p r => some ("IH0302", [("path", p), ("reason", r)])
  | .noTarget c t => some ("IH0303", [("cpu", c), ("triple", t), ("reason", diagnostic)])
  | .textNotWritten p r => some ("IH0304", [("path", p), ("reason", r)])
  | .sourceNotRead p r => some ("IH0305", [("path", p), ("reason", r)])
  | .disposed k i => some ("IH0401", [("kind", k), ("handle", i)])
  | .foreign w o m => some ("IH0402", [("what", w), ("owner", o), ("module", m)])
  | .unknownSignature n => some ("IH0403", [("name", n)])
  | .parameterIndex i n c =>
    some ("IH0404", [("index", i), ("name", n), ("count", .int c)])
  | .duplicateSymbol n m => some ("IH0405", [("name", n), ("module", m)])
  | .contextInUse i c => some ("IH0406", [("handle", .int i), ("count", .int c)])
  | .wrongKind i a e =>
    some ("IH0407", [("handle", i), ("actual", a), ("expected", e)])
  | .unsupported w f => some ("IH0501", [("opname", .text w.opname), ("function", f)])
  | .noBody f => some ("IH0502", [("function", f)])
  | .argumentCount f e g =>
    some ("IH0503", [("function", f), ("expected", .int e), ("got", .int g)])
  | .unpassable w => some ("IH0504", [("type", .text w.name)])
  | .reachedUnreachable f => some ("IH0505", [("function", f)])
  | .noFunction n m => some ("IH0506", [("name", n), ("module", m)])
  | .noTerminator b f => some ("IH0507", [("block", b), ("function", f)])
  | .divisionByZero f => some ("IH0508", [("function", f)])
  | .noIncoming p f b => some ("IH0509", [("name", p), ("function", f), ("block", b)])
  | .noBackend r => some ("IH0900", [("reason", r)])
  | _ => none

/-- The entry of a cause and its message, for the causes listed in the catalogue. -/
def listed? (f : Failure) : Option (Entry × String) :=
  f.listing?.bind fun (code, fields) => (Catalogue.standard.message code fields).toOption

/-- The message of a cause that is not listed in the catalogue, where it has one. -/
def message? : Failure → Option String
  | .mathDomain => some "math domain error"
  | .nanToInteger => some "cannot convert float NaN to integer"
  | .infinityToInteger => some "cannot convert float infinity to integer"
  | .integerTooLarge => some "int too large to convert to float"
  | .negativeShift => some "negative shift count"
  | .doesNotFit v t => some (toString v ++ " does not fit in signed " ++ t.text)
  | .noIntegerView t => some ("generic value of type " ++ t.text ++ " has no integer view")
  | .unknownCpu text =>
    some s!"unknown CPU '{text}' (expected one of: native, x86-64, i686)"
  | .unknownLevel text =>
    some s!"unknown optimization level '{text}' (expected O0, O1, O2 or O3)"
  | .catalogue cause => cause.message?
  | _ => none

/-- Whether a cause says that a module did not pass its check. -/
def isVerification (f : Failure) : Bool :=
  f.listed?.any fun (e, _) => e.class_ == .verification

/-- Whether a cause is one that callers are expected to handle: it is listed, and not fatal. -/
def isRecoverable (f : Failure) : Bool :=
  f.listed?.any fun (e, _) => e.class_.lineage.contains .general

end Failure

end Ssa

/-
# `Ssa.Failure.Catalogue` — failures that carry a code

The failures that callers are expected to tell apart are listed in a catalogue.  An entry has a
code, a template for its message, a category, a class and a sentence of explanation.  A code is
listed once: the entry that was listed first stays.
-/
import Ssa.Failure.Template
import Ssa.Text.Quoted

namespace Ssa

/-- What part of the work a failure belongs to. -/
inductive Category where
  | construction | verification | emission | handle | execution | fatal
deriving DecidableEq, Repr

/-- The word for a category. -/
def Category.word : Category → String
  | .construction => "construction"
  | .verification => "verification"
  | .emission => "emission"
  | .handle => "handle"
  | .execution => "execution"
  | .fatal => "fatal"

/-- The category of a word. -/
def Category.ofWord? (word : String) : Option Category :=
  [Category.construction, .verification, .emission, .handle, .execution, .fatal].find?
    fun c => c.word == word

/-- How failures are grouped for those who handle them. -/
inductive FailureClass where
  | general
  | engineCreation
  | verification
  | emission
  | render
  | handle
  | staleHandle
  | foreignHandle
  | unknownSignature
  | duplicateSymbol
  | contextInUse
  | parameterIndex
  | execution
  | backendUnavailable
deriving DecidableEq, Repr

/-- The name of a class. -/
def FailureClass.name : FailureClass → String
  | .general => "IRHandleError"
  | .engineCreation => "EngineCreationError"
  | .verification => "VerificationError"
  | .emission => "EmissionError"
  | .render => "RenderError"
  | .handle => "HandleError"
  | .staleHandle => "StaleHandleError"
  | .foreignHandle => "ForeignHandleError"
  | .unknownSignature => "UnknownSignatureError"
  | .duplicateSymbol => "DuplicateSymbolError"
  | .contextInUse => "ContextInUseError"
  | .parameterIndex => "ParameterIndexError"
  | .execution => "ExecutionError"
  | .backendUnavailable => "BackendUnavailableError"

/-- The class that a class is a case of. -/
def FailureClass.parent? : FailureClass → Option FailureClass
  | .general | .backendUnavailable => none
  | .engineCreation | .verification | .emission | .render | .handle | .execution => some .general
  | .staleHandle | .foreignHandle | .unknownSignature | .duplicateSymbol | .contextInUse
  | .parameterIndex => some .handle

/-- A class and the classes that it is a case of. -/
def FailureClass.lineage (c : FailureClass) : List FailureClass :=
  match c.parent? with
  | none => [c]
  | some .handle => [c, .handle, .general]
  | some p => [c, p]

/-- An entry of the catalogue. -/
structure Entry where
  code : String
  text : String
  category : Category
  class_ : FailureClass
  doc : String
deriving DecidableEq, Repr

/-- The entries, in the order in which they were listed. -/
structure Catalogue where
  entries : List Entry
deriving Repr

/-- Why a message cannot be made. -/
inductive CatalogueFailure where
  | unknownCode (code : String)
  | duplicateCode (code : String)
  /-- The word is not that of a category. -/
  | unknownCategory (word : String)
  /-- A code among the values, where it would be given twice. -/
  | givenTwice
  | missingField (field : String) (entry : Entry)
  /-- Another fault of a value that the message mentions. -/
  | fault (f : Datum.Fault)
deriving DecidableEq, Repr

namespace Catalogue

/-- The entry of a code. -/
def entry? (c : Catalogue) (code : String) : Option Entry :=
  c.entries.find? fun e => e.code == code

/-- List a further entry. -/
def add (c : Catalogue) (e : Entry) : Except CatalogueFailure Catalogue :=
  match c.entry? e.code with
  | some _ => .error (.duplicateCode e.code)
  | none => .ok ⟨c.entries ++ [e]⟩

/-- The codes, in the order in which they were listed. -/
def codes (c : Catalogue) : List String := c.entries.map Entry.code

end Catalogue

/-- The message of an entry. -/
def Entry.message (e : Entry) (values : List (String × Datum)) : Except CatalogueFailure String :=
  match Template.fill values e.text with
  | .ok s => .ok s
  | .error (.missing name) => .error (.missingField name e)
  | .error f => .error (.fault f)

/-- The entry of a code, and its message. -/
def Catalogue.message (c : Catalogue) (code : String) (values : List (String × Datum)) :
    Except CatalogueFailure (Entry × String) :=
  if values.any (·.1 == "code") then .error .givenTwice
  else match c.entry? code with
    | none => .error (.unknownCode code)
    | some e => (e.message values).map fun s => (e, s)

/-- List a further entry of the general class, whose category is given by its word. -/
def Catalogue.extend (c : Catalogue) (code text category : String) :
    Except CatalogueFailure Catalogue :=
  match Category.ofWord? category with
  | none => .error (.unknownCategory category)
  | some category => c.add ⟨code, text, category, .general, ""⟩

/-- The text of a failure to make a message, where it has one. -/
def CatalogueFailure.message? : CatalogueFailure → Option String
  | .unknownCode code => some s!"unknown error code: {code}"
  | .missingField field e =>
    some (s!"missing text key '{field}' for {e.code} (needed by: " ++ display e.text ++ ")")
  | _ => none

/-! ## The entries -/

/-- Failures to make an engine. -/
def constructionEntries : List Entry := [
  ⟨"IH0101", "cannot create interpreter for module '\x7bmodule\x7d': \x7breason\x7d",
    .construction, .engineCreation,
    "The module failed the interpreter's preconditions (usually verification)."⟩,
  ⟨"IH0102", "cannot create JIT engine for module '\x7bmodule\x7d': \x7breason\x7d",
    .construction, .engineCreation,
    "MCJIT could not parse, verify or finalize the module."⟩]

/-- Failures of a module's check. -/
def verificationEntries : List Entry := [
  ⟨"IH0201", "module '\x7bmodule\x7d' failed verification: \x7breason\x7d",
    .verification, .verification,
    "The native verifier rejected the module."⟩,
  ⟨"IH0202", "cannot parse IR for '\x7bmodule\x7d': \x7breason\x7d",
    .verification, .verification,
    "The textual form of the module is not valid LLVM assembly."⟩]

/-- Failures to write or read. -/
def emissionEntries : List Entry := [
  ⟨"IH0301", "cannot emit object for module '\x7bmodule\x7d': \x7breason\x7d",
    .emission, .emission,
    "The code generator rejected the module."⟩,
  ⟨"IH0302", "cannot write object file '\x7bpath\x7d': \x7breason\x7d",
    .emission, .emission,
    "The output path could not be written; no partial file is left."⟩,
  ⟨"IH0303", "no target for CPU '\x7bcpu\x7d' (triple '\x7btriple\x7d'): \x7breason\x7d",
    .emission, .emission,
    "The target for the requested CPU is not registered on this host."⟩,
  ⟨"IH0304", "cannot write IR text to '\x7bpath\x7d': \x7breason\x7d",
    .emission, .render,
    "render_to_file could not write its destination."⟩,
  ⟨"IH0305", "cannot read IR source '\x7bpath\x7d': \x7breason\x7d",
    .emission, .emission,
    "The textual IR input file could not be read."⟩]

/-- Misuse of handles. -/
def handleEntries : List Entry := [
  ⟨"IH0401", "\x7bkind\x7d #\x7bhandle\x7d has been disposed",
    .handle, .staleHandle,
    "A handle was used after its owner released it."⟩,
  ⟨"IH0402", "\x7bwhat\x7d belongs to module '\x7bowner\x7d', not '\x7bmodule\x7d'",
    .handle, .foreignHandle,
    "A handle from one module was passed to another module or engine."⟩,
  ⟨"IH0403", "function '\x7bname\x7d' was wrapped from a bare handle; its signature is unknown",
    .handle, .unknownSignature,
    "Bare handles carry no owning module or function type."⟩,
  ⟨"IH0404",
    "parameter index \x7bindex\x7d out of range for '\x7bname\x7d' (\x7bcount\x7d parameters)",
    .handle, .parameterIndex,
    "Parameter indices must be in [0, parameter_count())."⟩,
  ⟨"IH0405", "symbol '\x7bname\x7d' already defined in module '\x7bmodule\x7d'",
    .handle, .duplicateSymbol,
    "Global value names are unique within a module."⟩,
  ⟨"IH0406", "context #\x7bhandle\x7d still has \x7bcount\x7d live module(s)",
    .handle, .contextInUse,
    "A context must outlive every module built in it."⟩,
  ⟨"IH0407", "arena id #\x7bhandle\x7d names a \x7bactual\x7d, not a \x7bexpected\x7d",
    .handle, .foreignHandle,
    "An arena id was resolved as the wrong kind of object."⟩]

/-- Failures of a run. -/
def executionEntries : List Entry := [
  ⟨"IH0501", "unsupported instruction '\x7bopname\x7d' in function '\x7bfunction\x7d'",
    .execution, .execution,
    "The interpreter does not implement this instruction."⟩,
  ⟨"IH0502", "function '\x7bfunction\x7d' has no body in this module",
    .execution, .execution,
    "Calls to external declarations cannot be interpreted."⟩,
  ⟨"IH0503", "function '\x7bfunction\x7d' expects \x7bexpected\x7d argument(s), got \x7bgot\x7d",
    .execution, .execution,
    "Argument count does not match the function signature."⟩,
  ⟨"IH0504", "type '\x7btype\x7d' cannot be passed across the JIT boundary",
    .execution, .execution,
    "Only integers up to 64 bits, float, double, pointers and void are marshalled."⟩,
  ⟨"IH0505", "reached 'unreachable' in function '\x7bfunction\x7d'",
    .execution, .execution,
    "Control flow reached an unreachable terminator."⟩,
  ⟨"IH0506", "no function named '\x7bname\x7d' in module '\x7bmodule\x7d'",
    .execution, .execution,
    "Engine.run was given a name the bound module does not define."⟩,
  ⟨"IH0507", "block '\x7bblock\x7d' in function '\x7bfunction\x7d' has no terminator",
    .execution, .execution,
    "Execution fell off the end of a basic block."⟩,
  ⟨"IH0508", "integer division by zero in function '\x7bfunction\x7d'",
    .execution, .execution,
    "udiv, sdiv, urem and srem with a zero divisor are undefined."⟩,
  ⟨"IH0509",
    "phi '\x7bname\x7d' in function '\x7bfunction\x7d' has no incoming value from block '\x7bblock\x7d'",
    .execution, .execution,
    "Control reached a phi from a predecessor it does not list."⟩]

/-- Failures from which there is no way on. -/
def fatalEntries : List Entry := [
  ⟨"IH0900", "no native code generator available: \x7breason\x7d",
    .fatal, .backendUnavailable,
    "The host platform has no LLVM backend; this is not recoverable."⟩]

/-- The catalogue of this library. -/
def Catalogue.standard : Catalogue :=
  ⟨constructionEntries ++ verificationEntries ++ emissionEntries ++ handleEntries ++
    executionEntries ++ fatalEntries⟩

end Ssa

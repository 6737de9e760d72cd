/-
# `Ssa.Command.Run` — the command line

Three commands: one shows the choices, one checks a source file, and one emits a source file as an
object.  A command ends with a code, zero or two, and with two there is a line that says why.
-/
import Ssa.Command.Arguments
import Ssa.Session.Emission

namespace Ssa.Command

/-! ## Grammar -/

/-- The options before the command. -/
def headGrammar : Grammar :=
  ⟨[⟨["-v", "--verbose"], false, none⟩, ⟨["--traceback"], false, none⟩], 1⟩

/-- What the commands take. -/
def grammarOf (command : String) : Option Grammar :=
  match command with
  | "info" => some ⟨[], 0⟩
  | "verify" => some ⟨[], 1⟩
  | "emit" => some ⟨[⟨["-o", "--out"], true, none⟩,
      ⟨["--cpu"], true, some (Processor.all.map Processor.word)⟩,
      ⟨["--opt"], true, some (Level.all.map Level.word)⟩,
      ⟨["--no-verify"], false, none⟩], 1⟩
  | _ => none

/-- What is to be done. -/
inductive Task where
  | info
  | verify (source : String)
  | emit (source : String) (out : Option String) (cpu level : String) (checked : Bool)
deriving DecidableEq, Repr, Inhabited

/-- A command: what is to be done, whether to show notes of little weight, and whether to show
where a failure comes from. -/
structure Invocation where
  task : Task
  verbose : Bool
  traceback : Bool
deriving DecidableEq, Repr, Inhabited

/-- The task of a command, given what was read after it. -/
def taskOf (command : String) (r : Reading) : Except Ending Task :=
  match command, r.words with
  | "info", [] => .ok .info
  | "verify", [source] => .ok (.verify source)
  | "emit", [source] =>
    let out := (r.value? "--out").filter (· ≠ "")
    .ok (.emit source out ((r.value? "--cpu").getD "native") ((r.value? "--opt").getD "O2")
      (!r.has "--no-verify"))
  | _, _ => .error .usage

/-- The command that arguments ask for. -/
def Invocation.read (args : List String) : Except Ending Invocation := do
  let (head, command, rest) ← readHead headGrammar args
  match grammarOf command with
  | none => throw .usage
  | some g =>
    let r ← Command.read g rest
    if head.surplus || r.surplus then throw .usage
    return ⟨← taskOf command r, head.has "--verbose", head.has "--traceback"⟩

/-! ## Tasks -/

/-- A word with blanks up to a width. -/
def padded (width : Nat) (s : String) : String :=
  s ++ String.ofList (List.replicate (width - s.length) ' ')

/-- The versions of the parts. -/
def versionLines : List String :=
  ["irhandle <version>", "Python <version>", "llvmlite <version>", "LLVM <version>"]

/-- What the first command shows. -/
def infoLines (host : Triple) : List String :=
  versionLines ++ ["", "Default triple: " ++ host.name, "Host CPU: <cpu>", "", "CPUs:"] ++
    (Processor.all.map fun p => "  " ++ padded 8 p.word ++ " " ++ (p.triple host).name) ++
    ["", "Codegen levels:"] ++
    (Level.all.map fun l => "  " ++ l.word ++ "  " ++ l.description)

/-- How a task ended: with lines to show, or with a source that could not be read. -/
inductive Done where
  | shown (lines : List String)
  | unreadable (path : Path) (reason : String)
deriving Repr, Inhabited

/-- Check a source file. -/
def verifySource (source : Path) : Act Done := do
  if source.isUnusable then throw .badValue
  match (← get).files.read source with
  | .error why => pure (.unreadable source why.reason)
  | .ok octets =>
    match Files.textOf? octets with
    | none => throw .notText
    | some text =>
      Session.lift (checkAssembly source.stem text)
      pure (.shown [source.text ++ ": ok"])

/-- Emit a source file. -/
def emitSource (source : Path) (out : Option String) (cpu level : String) (checked : Bool) :
    Act Done := do
  let target ← match out with
    | some p => pure (Path.read p)
    | none => Session.lift (source.withEnding ".o")
  let level ← Session.lift (Level.read level)
  let processor ← Session.lift (Processor.read cpu)
  Session.emitSource source (← get).host processor level target checked
  pure (.shown ["wrote " ++ target.text])

/-- Carry out a task. -/
def Task.perform : Task → Act Done
  | .info => do return .shown (infoLines (← get).host)
  | .verify source => verifySource (.read source)
  | .emit source out cpu level checked => emitSource (.read source) out cpu level checked

/-! ## Endings -/

/-- How a command ended. -/
structure Outcome where
  code : Nat
  out : List String
  err : List String
  files : Files
deriving Repr, Inhabited

/-- The line that says that where a failure comes from is shown. -/
def tracebackLine : String := "Traceback (most recent call last):"

/-- The notes that are shown. -/
def shownNotes (verbose : Bool) (log : List Event) : List String :=
  (log.filter fun e => verbose || e.weight == .warning).map Event.line

/-- The line for a failure of the catalogue. -/
def failureLine (e : Entry) (message : String) : String := "error: " ++ e.code ++ ": " ++ message

/-- Carry out a command.  Failures that callers are expected to handle end it with a code; any
other failure is the answer. -/
def Invocation.perform (i : Invocation) (files : Files) : Except Failure Outcome :=
  let (done, s) := i.task.perform.run.run (Session.fresh files)
  let notes := shownNotes i.verbose s.log
  match done with
  | .ok (.shown lines) => .ok ⟨0, lines, notes, s.files⟩
  | .ok (.unreadable p reason) =>
    .ok ⟨2, [], notes ++ ["error: cannot read " ++ p.text ++ ": " ++ reason], s.files⟩
  | .error f =>
    match f.listed? with
    | some (e, message) =>
      if f.isRecoverable then
        let trace := if i.traceback then [tracebackLine] else []
        .ok ⟨2, [], notes ++ trace ++ [failureLine e message], s.files⟩
      else .error f
    | none => .error f

end Ssa.Command

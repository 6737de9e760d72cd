/-
# `Ssa.Program.Render` — programs as assembly text

A module is written as a header, one line for each named structure of its context, and one entry
for each symbol in the order of declaration.  An entry that holds a constant without a text cannot
be written, and then neither can the module.

The line of a global variable is fixed when it is first written, so rendering also gives back the
module in which the lines that were reached are fixed.
-/
import Ssa.Program.Module
import Ssa.Text.Blank

namespace Ssa

/-! ## References -/

/-- The text that stands for an operand. -/
def Operand.reference (m : Module) (f : Function) : Operand → Except Failure String
  | .const c => c.reference
  | .local id _ => .ok ("%" ++ quoteName (f.localName id))
  | .global i _ => .ok ("@" ++ quoteName (((m.symbols[i]?).map Symbol.name).getD ""))

/-- The text of an operand after its type. -/
def Operand.typed (m : Module) (f : Function) (o : Operand) : Except Failure String :=
  (o.reference m f).map fun s => o.type.text ++ " " ++ s

/-- The text that stands for a block. -/
def Function.blockReference (f : Function) (b : Nat) : String := "%" ++ quoteName (f.blockName b)

/-- The text that stands for a block as the place to go on at. -/
def Function.labelReference (f : Function) (b : Nat) : String := "label " ++ f.blockReference b

/-- Whether a character may stand in a label without marks. -/
def isLabelChar (c : Char) : Bool :=
  c.isAlpha || c == '-' || c == '$' || c == '.' || c == '_'

/-- Whether a label may stand without marks.  A line break at its end is overlooked. -/
def isPlainLabel (name : String) : Bool :=
  let cs := name.toList
  match if cs.getLast? = some '\n' then cs.dropLast else cs with
  | [] => false
  | c :: rest => isLabelChar c && rest.all fun c => isLabelChar c || c.isDigit

/-- A label at the head of its block. -/
def labelText (name : String) : String := if isPlainLabel name then name else quoteName name

/-! ## Instructions -/

/-- A list of operands, each after its type. -/
def typedList (m : Module) (f : Function) (os : List Operand) : Except Failure String :=
  (os.mapM (Operand.typed m f)).map (", ".intercalate ·)

/-- The type by which a call names its callee: the whole type for a variadic function, and the
returned type for any other. -/
def calleeTypeText : Ty → String
  | .pointer (.function r ps true) _ => (Ty.function r ps true).text
  | .pointer (.function r _ false) _ => r.text
  | t => t.text

/-- What a pointer type points to. -/
def Ty.pointee : Ty → Ty
  | .pointer t _ => t
  | t => t

/-- The text of a call without its verb. -/
def callText (m : Module) (f : Function) (callee : Operand) (args : List Operand) :
    Except Failure String := do
  let parts ← typedList m f args
  let target ← callee.reference m f
  pure (calleeTypeText callee.type ++ " " ++ target ++ "(" ++ parts ++ ")")

/-- A place in an aggregate, as positions of parts within parts. -/
def pathText (path : List Int) : String :=
  ", ".intercalate (path.map toString)

/-- Positions after the operands they belong to. -/
def withPath (text : String) (path : List Int) : String :=
  text ++ ", " ++ pathText path

/-- The text of an operation whose value has the given type. -/
def OpOver.render (m : Module) (f : Function) (type : Ty) (op : Op) : Except Failure String := do
  let head := op.word ++ " "
  match op with
  | .int _ a b | .fp _ a b =>
    pure (head ++ (← a.typed m f) ++ ", " ++ (← b.reference m f))
  | .fneg a => pure (head ++ (← a.typed m f))
  | .icmp p a b =>
    pure (head ++ p.word ++ " " ++ (← a.typed m f) ++ ", " ++ (← b.reference m f))
  | .fcmp p a b =>
    pure (head ++ p.word ++ " " ++ (← a.typed m f) ++ ", " ++ (← b.reference m f))
  | .cast _ a => pure (head ++ (← a.typed m f) ++ " to " ++ type.text)
  | .select c a b =>
    pure (head ++ " " ++ (← c.typed m f) ++ ", " ++ (← a.typed m f) ++ ", " ++ (← b.typed m f))
  | .phi incoming =>
    let entries ← incoming.mapM fun (v, b) => do
      pure ("[" ++ (← v.reference m f) ++ ", " ++ f.blockReference b ++ "]")
    pure (head ++ " " ++ type.text ++ " " ++ ", ".intercalate entries)
  | .alloca t none => pure (head ++ t.text)
  | .alloca t (some n) => pure (head ++ t.text ++ ", " ++ (← n.typed m f))
  | .load p => pure (head ++ type.text ++ ", " ++ (← p.typed m f))
  | .store v p => pure (head ++ (← v.typed m f) ++ ", " ++ (← p.typed m f))
  | .call callee args => pure (head ++ (← callText m f callee args))
  | .br t => pure (head ++ f.labelReference t)
  | .condBr c t e =>
    pure (head ++ (← c.typed m f) ++ ", " ++ f.labelReference t ++ ", " ++ f.labelReference e)
  | .switch v d cases =>
    let entries ← cases.mapM fun (c, b) => do
      pure ((← c.typed m f) ++ ", " ++ f.labelReference b)
    pure (head ++ (← v.typed m f) ++ ", " ++ f.labelReference d ++
      " [" ++ " ".intercalate entries ++ "]")
  | .ret none | .unreachable => pure op.word
  | .ret (some v) => pure (head ++ (← v.typed m f))
  | .indirectBr a ts =>
    pure (head ++ (← a.typed m f) ++ ", [" ++ ", ".intercalate (ts.map f.labelReference) ++ "]")
  | .invoke callee args normal unwind =>
    pure (head ++ (← callText m f callee args) ++ "\n      to " ++ f.labelReference normal ++
      " unwind " ++ f.labelReference unwind)
  | .address p is =>
    pure (head ++ p.type.pointee.text ++ ", " ++ (← p.typed m f) ++ ", " ++ (← typedList m f is))
  | .extractValue a path => pure (withPath (head ++ (← a.typed m f)) path)
  | .insertValue a b path =>
    pure (withPath (head ++ (← a.typed m f) ++ ", " ++ (← b.typed m f)) path)
  | .extractElement a i => pure (head ++ (← typedList m f [a, i]))
  | .insertElement a b i => pure (head ++ (← typedList m f [a, b, i]))
  | .atomicUpdate o p v =>
    pure (head ++ o ++ " " ++ (← typedList m f [p, v]) ++ " seq_cst")
  | .compareExchange p e v =>
    pure (head ++ (← typedList m f [p, e]) ++ ", " ++ e.type.text ++ " " ++ (← v.reference m f) ++
      " seq_cst seq_cst")
  | .atomicLoad p => pure (head ++ type.text ++ ", " ++ (← p.typed m f) ++ " seq_cst, align 4")
  | .atomicStore v p => pure (head ++ (← typedList m f [v, p]) ++ " seq_cst, align 4")
  | .fence => pure (head ++ "seq_cst")
  | .comment text => pure (head ++ text)

/-- The text of an instruction, with the name of its value if it has one. -/
def Instr.render (m : Module) (f : Function) (i : Instr) : Except Failure String := do
  let body ← i.op.render m f i.type
  let target := if i.type = .void then "" else "%" ++ quoteName (f.localName i.id) ++ " = "
  pure (trimEnd (target ++ body))

/-! ## Functions and modules -/

/-- The text of a block. -/
def Block.render (m : Module) (f : Function) (b : Block) : Except Failure String := do
  let lines ← b.instrs.mapM (·.render m f)
  pure (labelText b.name ++ ":\n" ++ String.join (lines.map fun l => "  " ++ l ++ "\n"))

/-- The text of a parameter. -/
def Function.paramText (f : Function) (i : Nat) (t : Ty) : String :=
  t.text ++ " %" ++ quoteName (f.localName i)

/-- The text of a function. -/
def Function.render (m : Module) (f : Function) : Except Failure String := do
  let params := f.params.mapIdx f.paramText
  let head := (if f.isDeclaration then "declare " else "define ") ++ f.result.text ++ " @" ++
    quoteName f.name ++ "(" ++ Ty.paramsText params f.variadic ++ ")\n"
  if f.isDeclaration then pure head
  else
    let blocks ← f.blocks.toList.mapM (·.render m f)
    pure (head ++ "\x7b\n" ++ String.join blocks ++ "\x7d\n")

/-- The text of an initializer, which has to be of the type of its variable. -/
def Variable.initText (m : Module) (type : Ty) (init : Operand) : Except Failure String :=
  if init.type = type then
    init.reference m (.declare "" .void [] false)
  else .error .typeMismatch

/-- The text of a global variable. -/
def Variable.render (m : Module) (v : Variable) : Except Failure String := do
  let name := "@" ++ quoteName v.name ++ " = "
  match v.textInit with
  | none => pure (name ++ "external global " ++ v.type.text)
  | some init =>
    let value ← Variable.initText m v.type init
    pure (trimEnd (name ++ "global " ++ v.type.text ++ " " ++ value))

/-- The text of a symbol, and the symbol with its text fixed. -/
def Symbol.render (m : Module) : Symbol → Except Failure String × Symbol
  | .function f => (f.render m, .function f)
  | .variable v =>
    match v.render m with
    | .ok text => (.ok text, .variable { v with shown := some v.textInit })
    | .error e => (.error e, .variable v)

/-- The texts of symbols in order, up to the first that has none, and the symbols as rendering
leaves them. -/
def renderSymbols (m : Module) : List Symbol → Except Failure (List String) × List Symbol
  | [] => (.ok [], [])
  | s :: rest =>
    match s.render m with
    | (.error e, s') => (.error e, s' :: rest)
    | (.ok text, s') =>
      let (texts, rest') := renderSymbols m rest
      (texts.map (text :: ·), s' :: rest')

namespace Module

/-- The lines before the first symbol. -/
def header (m : Module) (types : TypeTable) : List String :=
  ["; ModuleID = \"" ++ m.name ++ "\"",
    "target triple = \"unknown-unknown-unknown\"",
    "target datalayout = \"\"",
    ""] ++ types.map TypeTable.declaration

/-- The text of a module, and the module with the lines fixed that were written. -/
def render (types : TypeTable) (m : Module) : Except Failure String × Module :=
  let (texts, symbols) := renderSymbols m m.symbols.toList
  (texts.map fun ts => "\n".intercalate (m.header types ++ ts),
    { m with symbols := symbols.toArray })

/-- The text of a module. -/
def text (types : TypeTable) (m : Module) : Except Failure String := (m.render types).1

end Module

end Ssa

/-
# `Ssa.Validity.Reading` — what the assembly reader accepts

A module is readable when its text can be read back: every type is well formed, every constant can
stand where it stands, every reference is to a value of the type it is read at, every instruction
is one that exists for the types of its operands, and every block has its end, and only there.

Some operands are written without their type and are read at the type of an operand before them.
A constant that stands there is judged by its text.
-/
import Ssa.Validity.Types
import Ssa.Assembly.Token
import Ssa.Program.Typing

namespace Ssa

/-! ## Constants and references -/

/-- Whether a precision has a datum that was rounded for another. -/
def Precision.keeps (q : Precision) (y : Fp) : Bool :=
  y.isNan || decide (q.format.convert y = y)

/-- Whether a number that is shown in decimal can be read at a precision: with a point, and
exactly. -/
def Precision.readsDecimal (q : Precision) (x : Fp) : Bool :=
  x.isFinite && x.display.toList.contains '.' && q.keeps x

/-- The brackets by which an aggregate of a type is read, and the types of its places. -/
def Ty.places (types : TypeTable) : Ty → Option (String × List Ty)
  | .array n t => some ("[", List.replicate n t)
  | .vector n t => some ("<", List.replicate n t)
  | .struct true ts => some ("<\x7b", ts)
  | .struct false ts => some ("\x7b", ts)
  | .named name => (types.fields? name).map fun ts => ("\x7b", ts)
  | _ => none

mutual

/-- Whether the text of a constant can be read at a type. -/
def Constant.readsAt (types : TypeTable) (t : Ty) : Constant → Bool
  | .null u => match u with
    | .fp _ => t.isFp
    | .pointer .. => t.isPointer
    | _ => t.isFirstClass types && t.isSized types
  | .undef _ => t.isFirstClass types
  | .int u v => match u, t with
    | .fp p, .fp q => q.keeps (Constant.roundInt p (Format.double.round false v))
    | .fp _, _ => false
    | u, .int _ => !u.hasPlaces
    | _, _ => false
  | .truth u _ => match u, t with
    | .int _, .int w => w == 1
    | .fp _, .fp _ => true
    | _, _ => false
  | .real u x => match u, t with
    | .fp p, .fp q => q.keeps (p.format.convert x)
    | u, .fp q => !u.hasPlaces && q.readsDecimal x
    | _, _ => false
  | .aggregate u cs => match t.places types with
    | some (open_, ts) =>
      u.hasPlaces && open_ == (Constant.brackets u).1 && ts.length == cs.length &&
        Constant.allRead types ts cs
    | none => false

/-- Whether each of a list of constants, written with its type, stands for a value of the type
asked for. -/
def Constant.allRead (types : TypeTable) : List Ty → List Constant → Bool
  | t :: ts, c :: cs =>
    c.type.agrees t && c.type.isWellFormed types && c.readsAt types c.type &&
      Constant.allRead types ts cs
  | _, _ => true

end

/-- The type at which the value of a number is defined, if the function defines it. -/
def Function.definedType? (f : Function) (id : Nat) : Option Ty :=
  match f.params[id]? with
  | some t => some t
  | none =>
    (f.blocks.toList.findSome? fun b => b.instrs.find? fun i => i.id == id).bind fun i =>
      if i.type = .void then none else some i.type

/-- Whether an operand can be read at a type. -/
def Operand.readsAt (types : TypeTable) (m : Module) (f : Function) (t : Ty) : Operand → Bool
  | .const c => t.isWellFormed types && c.readsAt types t
  | .local id _ => t.isWellFormed types && (f.definedType? id).any t.agrees
  | .global i _ => t.isWellFormed types && (m.symbols[i]?).any fun s => t.agrees s.type

/-- Whether an operand can be read at the type that is written before it. -/
def Operand.reads (types : TypeTable) (m : Module) (f : Function) (o : Operand) : Bool :=
  o.readsAt types m f o.type

/-! ## Instructions -/

/-- Whether a type is that of the operands of an operation on integers. -/
def Ty.isIntLike (t : Ty) : Bool := t.scalar.isInt

/-- Whether a type is that of the operands of an operation on floating point. -/
def Ty.isFpLike (t : Ty) : Bool := t.scalar.isFp

/-- Whether a condition chooses between values of a type: one digit, or one for each element. -/
def Ty.chooses (cond t : Ty) : Bool :=
  match cond with
  | .int w => w == 1
  | .vector n (.int w) => w == 1 && t.lanes? == some n
  | _ => false

/-- The number that a case of a switch stands for at its own width. -/
def caseNumber? : Operand → Option (Nat × Int)
  | .const (.int (.int w) v) => some (w, Word.wrap w v)
  | .const (.truth (.int w) b) => some (w, if b then 1 else 0)
  | .const (.null (.int w)) => some (w, 0)
  | _ => none

/-- Whether the cases of a switch are numbers, and no number occurs twice at one width. -/
def casesDistinct (cases : List Operand) : Bool :=
  let numbers := cases.map caseNumber?
  numbers.all Option.isSome && (List.range numbers.length).all fun i =>
    !(numbers.take i).contains (numbers.getD i none)

/-- The words for the updates of integers in one step. -/
def integerUpdates : List String :=
  ["add", "sub", "and", "nand", "or", "xor", "max", "min", "umax", "umin", "uinc_wrap", "udec_wrap",
    "usub_cond", "usub_sat"]

/-- The words for the updates of floating point in one step. -/
def fpUpdates : List String :=
  ["fadd", "fsub", "fmax", "fmin", "fmaximum", "fminimum"]

/-- Whether an update in one step exists for values of a type: their octets can be accessed in one
step. -/
def canUpdate (op : String) (t : Ty) : Bool :=
  t.accessDigits?.any (fun n => Ty.isAtomicWidth ((n + 7) / 8 * 8)) &&
    if op == "xchg" then t.isInt || t.isFp || t.isPointer
    else if integerUpdates.contains op then t.isInt
    else if fpUpdates.contains op then t.isFpLike
    else false

/-- The type of a place one step into an aggregate that is addressed. -/
def addressStep (types : TypeTable) (t : Ty) (index : Operand) : Option Ty :=
  match t with
  | .array _ e | .vector _ e => some e
  | .struct .. | .named _ => match index with
    | .const (.int (.int 32) v) => if v < 0 then none else t.part? types v
    | _ => none
  | _ => none

/-- Whether a path of indices leads on from an address. -/
def canAddress (types : TypeTable) (pointer : Operand) (indices : List Operand) : Bool :=
  match pointer.type with
  | .pointer t _ =>
    t.isSized types && !indices.isEmpty && indices.all (fun i => i.type.isInt) &&
      ((indices.drop 1).foldlM (addressStep types) t).isSome
  | _ => false

/-- The type of a place in an aggregate that is no vector. -/
def memberType? (types : TypeTable) (t : Ty) (path : List Int) : Option Ty :=
  path.foldlM (fun t i => match t with
    | .vector .. => none
    | t => if i < 0 then none else t.part? types i) t

/-- Whether a call can be read: its result and its arguments have types that calls can have, and
code is where code is kept. -/
def callReads (types : TypeTable) (m : Module) (f : Function) (callee : Operand)
    (args : List Operand) : Bool :=
  let all := args.all fun a => a.reads types m f && a.type.isFirstClass types
  match callee.type with
  | .pointer (.function r ps v) s =>
    all && s == 0 && (Ty.function r ps v).isWellFormed types &&
      callee.readsAt types m f (.pointer (.function r ps v) s)
  | _ => false

/-- Whether a name or remark can be read.  The character of number zero ends the text. -/
def nameReads (name : String) : Bool := !name.toList.contains '\x00'

/-- Whether an instruction can be read. -/
def Instr.reads (types : TypeTable) (m : Module) (f : Function) (i : Instr) : Bool :=
  let reads := Operand.reads types m f
  let isBlock := fun b => decide (b < f.blocks.size)
  match i.op with
  | .int _ a b => a.type.isIntLike && reads a && b.readsAt types m f a.type
  | .fp _ a b => a.type.isFpLike && reads a && b.readsAt types m f a.type
  | .fneg a => a.type.isFpLike && reads a
  | .icmp _ a b =>
    (a.type.isIntLike || a.type.scalar.isPointer) && reads a && b.readsAt types m f a.type
  | .fcmp _ a b => a.type.isFpLike && reads a && b.readsAt types m f a.type
  | .cast op a => i.type.isWellFormed types && reads a && Ty.canConvert op a.type i.type
  | .select c a b => reads c && reads a && reads b && a.type.agrees b.type && c.type.chooses a.type
  | .phi incoming =>
    i.type.isFirstClass types &&
      incoming.all fun (v, b) => isBlock b && v.readsAt types m f i.type
  | .alloca t n =>
    t.isWellFormed types && t.isSized types && n.all fun n => n.type.isInt && reads n
  | .load p => reads p && p.type.isPointer && i.type.isFirstClass types && i.type.isSized types
  | .store v p =>
    reads v && reads p && p.type.isPointer && v.type.isFirstClass types && v.type.isSized types
  | .call callee args => callReads types m f callee args
  | .br t => isBlock t
  | .condBr c t e => reads c && c.type == .int 1 && isBlock t && isBlock e
  | .switch v d cases =>
    reads v && v.type.isInt && isBlock d &&
      cases.all (fun (c, b) => reads c && isBlock b) && casesDistinct (cases.map Prod.fst)
  | .ret none => f.result == .void
  | .ret (some v) => v.type != .void && reads v && v.type.agrees f.result
  | .unreachable => true
  | .indirectBr a ts => reads a && a.type.isPointer && ts.all isBlock
  | .invoke callee args n u => callReads types m f callee args && isBlock n && isBlock u
  | .address p is => reads p && is.all reads && canAddress types p is
  | .extractValue a path => reads a && !path.isEmpty && (memberType? types a.type path).isSome
  | .insertValue a b path =>
    reads a && reads b && !path.isEmpty && (memberType? types a.type path).any b.type.agrees
  | .extractElement a n => reads a && reads n && a.type.lanes?.isSome && n.type.isInt
  | .insertElement a b n =>
    reads a && reads b && reads n && a.type.lanes?.isSome && a.type.scalar.agrees b.type &&
      n.type.isInt
  | .atomicUpdate op p v => reads p && reads v && p.type.isPointer && canUpdate op v.type
  | .compareExchange p e v =>
    reads p && reads e && v.readsAt types m f e.type && p.type.isPointer &&
      e.type.isFirstClass types
  | .atomicLoad p => reads p && p.type.isPointer && i.type.isFirstClass types
  | .atomicStore v p => reads v && reads p && p.type.isPointer && v.type.isFirstClass types
  | .fence => true
  | .comment text => nameReads text && commentEnds text.toList
where
  /-- Whether a remark stays a remark to its end: after a carriage return nothing but remarks may
  come. -/
  commentEnds (cs : List Char) : Bool :=
    match cs.dropWhile (· != '\x0d') with
    | [] => true
    | rest => Assembly.Token.read (String.ofList rest) == some []

/-! ## Blocks, functions, modules -/

/-- The instructions of a block without remarks. -/
def Block.proper (b : Block) : List Instr := b.instrs.filter fun i => !i.op.isComment

/-- Whether a block has its end at its end and nowhere else. -/
def Block.endsProperly (b : Block) : Bool :=
  match b.proper.reverse with
  | [] => false
  | last :: before => last.op.isTerminator && before.all fun i => !i.op.isTerminator

/-- Whether a block can be read. -/
def Block.reads (types : TypeTable) (m : Module) (f : Function) (b : Block) : Bool :=
  b.endsProperly && b.instrs.all (·.reads types m f) && nameReads b.name &&
    !(isPlainLabel b.name && b.name.toList.contains '\n')

/-- Whether a function can be read. -/
def Function.reads (types : TypeTable) (m : Module) (f : Function) : Bool :=
  f.type.isWellFormed types && nameReads f.name &&
    f.locals.all (fun l => nameReads l.name) && f.blocks.all (·.reads types m f)

/-- Whether a global variable can be read. -/
def Variable.reads (types : TypeTable) (m : Module) (v : Variable) : Bool :=
  v.type.isStorable && v.type.isWellFormed types && nameReads v.name &&
    v.textInit.all fun o => o.readsAt types m (.declare "" .void [] false) v.type

/-- Whether a symbol can be read. -/
def Symbol.reads (types : TypeTable) (m : Module) : Symbol → Bool
  | .variable v => v.reads types m
  | .function f => f.reads types m

/-- Whether a named structure can be read.  It must not hold itself. -/
def NamedType.reads (types : TypeTable) (e : NamedType) : Bool :=
  nameReads e.name &&
    e.fields.all fun ts => ts.all Ty.isStorable && Ty.allWellFormed types ts &&
      !Ty.anyHoldsBy (Ty.leadsTo types e.name types.length) ts

/-- Whether what a module declares can be read. -/
def Module.declarationsRead (types : TypeTable) (m : Module) : Bool :=
  types.all (·.reads types) && m.symbols.all (·.reads types m)

end Ssa

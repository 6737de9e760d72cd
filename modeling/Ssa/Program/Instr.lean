/-
# `Ssa.Program.Instr` — instructions

An instruction has a number inside its function, by which its value is referred to, the type of
that value, and an operation over operands.  Every operand says its own type.  Blocks are referred
to by their position in the function.
-/
import Ssa.Program.Constant

namespace Ssa

/-- What an instruction computes with: a constant, a value of the function (a parameter or an
instruction), or the address of a global variable or function of the module. -/
inductive Operand where
  | const (c : Constant)
  | local (id : Nat) (type : Ty)
  | global (index : Nat) (type : Ty)
deriving Repr, Inhabited

/-- The type of an operand. -/
def Operand.type : Operand → Ty
  | .const c => c.type
  | .local _ t => t
  | .global _ t => t

/-- Whether two operands are the same local value. -/
def Operand.isSameLocal : Operand → Operand → Bool
  | .local i _, .local j _ => i == j
  | _, _ => false

/-! ## Operations on numbers -/

/-- Operations on two integers. -/
inductive IntOp where
  | add | sub | mul | udiv | sdiv | urem | srem | and | or | xor | shl | lshr | ashr
deriving DecidableEq, Repr, Inhabited

/-- Operations on two floating-point values. -/
inductive FpOp where
  | fadd | fsub | fmul | fdiv | frem
deriving DecidableEq, Repr, Inhabited

/-- Predicates on two integers: signed ones begin with `s`, unsigned ones with `u`. -/
inductive IntPred where
  | eq | ne | ugt | uge | ult | ule | sgt | sge | slt | sle
deriving DecidableEq, Repr, Inhabited

/-- Predicates on two floating-point values: those that begin with `o` ask for an order, those
that begin with `u` hold without one. -/
inductive FpPred where
  | never | oeq | ogt | oge | olt | ole | one | ord | ueq | ugt | uge | ult | ule | une | uno
  | always
deriving DecidableEq, Repr, Inhabited

/-- Conversions. -/
inductive CastOp where
  | trunc | zext | sext | fptrunc | fpext | fptoui | fptosi | uitofp | sitofp
  | bitcast | ptrtoint | inttoptr | addrspacecast
deriving DecidableEq, Repr, Inhabited

/-- The word of the assembly language for an operation. -/
def IntOp.word : IntOp → String
  | .add => "add" | .sub => "sub" | .mul => "mul"
  | .udiv => "udiv" | .sdiv => "sdiv" | .urem => "urem" | .srem => "srem"
  | .and => "and" | .or => "or" | .xor => "xor"
  | .shl => "shl" | .lshr => "lshr" | .ashr => "ashr"

/-- All operations on two integers. -/
def IntOp.all : List IntOp :=
  [.add, .sub, .mul, .udiv, .sdiv, .urem, .srem, .and, .or, .xor, .shl, .lshr, .ashr]

/-- The operation of a word. -/
def IntOp.ofWord? (w : String) : Option IntOp := IntOp.all.find? (·.word == w)

/-- The word of the assembly language for an operation. -/
def FpOp.word : FpOp → String
  | .fadd => "fadd" | .fsub => "fsub" | .fmul => "fmul" | .fdiv => "fdiv" | .frem => "frem"

/-- All operations on two floating-point values. -/
def FpOp.all : List FpOp := [.fadd, .fsub, .fmul, .fdiv, .frem]

/-- The operation of a word. -/
def FpOp.ofWord? (w : String) : Option FpOp := FpOp.all.find? (·.word == w)

/-- The word of the assembly language for a predicate. -/
def IntPred.word : IntPred → String
  | .eq => "eq" | .ne => "ne"
  | .ugt => "ugt" | .uge => "uge" | .ult => "ult" | .ule => "ule"
  | .sgt => "sgt" | .sge => "sge" | .slt => "slt" | .sle => "sle"

/-- All predicates on two integers. -/
def IntPred.all : List IntPred :=
  [.eq, .ne, .ugt, .uge, .ult, .ule, .sgt, .sge, .slt, .sle]

/-- The predicate of a word. -/
def IntPred.ofWord? (w : String) : Option IntPred := IntPred.all.find? (·.word == w)

/-- The word of the assembly language for a predicate. -/
def FpPred.word : FpPred → String
  | .never => "false" | .always => "true" | .ord => "ord" | .uno => "uno"
  | .oeq => "oeq" | .ogt => "ogt" | .oge => "oge" | .olt => "olt" | .ole => "ole" | .one => "one"
  | .ueq => "ueq" | .ugt => "ugt" | .uge => "uge" | .ult => "ult" | .ule => "ule" | .une => "une"

/-- All predicates on two floating-point values. -/
def FpPred.all : List FpPred :=
  [.never, .oeq, .ogt, .oge, .olt, .ole, .one, .ord, .ueq, .ugt, .uge, .ult, .ule, .une, .uno,
    .always]

/-- The predicate of a word. -/
def FpPred.ofWord? (w : String) : Option FpPred := FpPred.all.find? (·.word == w)

/-- The word of the assembly language for a conversion. -/
def CastOp.word : CastOp → String
  | .trunc => "trunc" | .zext => "zext" | .sext => "sext"
  | .fptrunc => "fptrunc" | .fpext => "fpext"
  | .fptoui => "fptoui" | .fptosi => "fptosi" | .uitofp => "uitofp" | .sitofp => "sitofp"
  | .bitcast => "bitcast" | .ptrtoint => "ptrtoint" | .inttoptr => "inttoptr"
  | .addrspacecast => "addrspacecast"

/-- All conversions. -/
def CastOp.all : List CastOp :=
  [.trunc, .zext, .sext, .fptrunc, .fpext, .fptoui, .fptosi, .uitofp, .sitofp, .bitcast,
    .ptrtoint, .inttoptr, .addrspacecast]

/-- The conversion of a word. -/
def CastOp.ofWord? (w : String) : Option CastOp := CastOp.all.find? (·.word == w)

/-! ## Instructions -/

/-- An operation, over any way of writing operands and of referring to blocks. -/
inductive OpOver (Value Target : Type) where
  | int (op : IntOp) (a b : Value)
  | fp (op : FpOp) (a b : Value)
  | fneg (a : Value)
  | icmp (pred : IntPred) (a b : Value)
  | fcmp (pred : FpPred) (a b : Value)
  | cast (op : CastOp) (a : Value)
  | select (cond a b : Value)
  | phi (incoming : List (Value × Target))
  | alloca (type : Ty) (count : Option Value)
  | load (pointer : Value)
  | store (value pointer : Value)
  | call (callee : Value) (args : List Value)
  -- Ends of blocks
  | br (target : Target)
  | condBr (cond : Value) (ifTrue ifFalse : Target)
  | switch (value : Value) (default : Target) (cases : List (Value × Target))
  | ret (value : Option Value)
  | unreachable
  | indirectBr (address : Value) (targets : List Target)
  | invoke (callee : Value) (args : List Value) (normal unwind : Target)
  -- Addresses, parts of aggregates, atomic accesses, remarks
  | address (pointer : Value) (indices : List Value)
  | extractValue (a : Value) (path : List Int)
  | insertValue (a b : Value) (path : List Int)
  | extractElement (a index : Value)
  | insertElement (a b index : Value)
  | atomicUpdate (op : String) (pointer value : Value)
  | compareExchange (pointer expected value : Value)
  | atomicLoad (pointer : Value)
  | atomicStore (value pointer : Value)
  | fence
  | comment (text : String)
deriving Repr, Inhabited

/-- An operation of a function. -/
abbrev Op := OpOver Operand Nat

/-- An instruction. -/
structure Instr where
  id : Nat
  type : Ty
  op : Op
deriving Repr, Inhabited

namespace OpOver

variable {Value Target : Type}

/-- Whether an operation ends a block. -/
def isTerminator : OpOver Value Target → Bool
  | .br _ | .condBr .. | .switch .. | .ret _ | .unreachable | .indirectBr .. | .invoke .. => true
  | _ => false

/-- Whether an operation chooses a value by the block that control came from. -/
def isPhi : OpOver Value Target → Bool
  | .phi _ => true
  | _ => false

/-- Whether an operation is a remark for the reader. -/
def isComment : OpOver Value Target → Bool
  | .comment _ => true
  | _ => false

/-- The blocks to which an operation may pass control. -/
def targets : OpOver Value Target → List Target
  | .br t => [t]
  | .condBr _ t f => [t, f]
  | .switch _ d cases => d :: cases.map Prod.snd
  | .indirectBr _ ts => ts
  | .invoke _ _ n u => [n, u]
  | _ => []

/-- The operands of an operation.  Those of a phi are read in other blocks and are not listed. -/
def operands : OpOver Value Target → List Value
  | .int _ a b | .fp _ a b | .icmp _ a b | .fcmp _ a b => [a, b]
  | .fneg a | .cast _ a | .load a | .atomicLoad a => [a]
  | .select c a b => [c, a, b]
  | .phi _ => []
  | .alloca _ count => count.toList
  | .store v p | .atomicStore v p => [v, p]
  | .call f args => f :: args
  | .br _ | .unreachable | .fence | .comment _ => []
  | .condBr c _ _ => [c]
  | .switch v _ cases => v :: cases.map Prod.fst
  | .ret v => v.toList
  | .indirectBr a _ => [a]
  | .invoke f args _ _ => f :: args
  | .address p is => p :: is
  | .extractValue a _ => [a]
  | .insertValue a b _ => [a, b]
  | .extractElement a i => [a, i]
  | .insertElement a b i => [a, b, i]
  | .atomicUpdate _ p v => [p, v]
  | .compareExchange p e v => [p, e, v]

/-- The word of the assembly language for an operation. -/
def word : OpOver Value Target → String
  | .int op _ _ => op.word
  | .fp op _ _ => op.word
  | .fneg _ => "fneg"
  | .icmp .. => "icmp"
  | .fcmp .. => "fcmp"
  | .cast op _ => op.word
  | .select .. => "select"
  | .phi _ => "phi"
  | .alloca .. => "alloca"
  | .load _ => "load"
  | .store .. => "store"
  | .call .. => "call"
  | .br _ | .condBr .. => "br"
  | .switch .. => "switch"
  | .ret none => "ret void"
  | .ret (some _) => "ret"
  | .unreachable => "unreachable"
  | .indirectBr .. => "indirectbr"
  | .invoke .. => "invoke"
  | .address .. => "getelementptr"
  | .extractValue .. => "extractvalue"
  | .insertValue .. => "insertvalue"
  | .extractElement .. => "extractelement"
  | .insertElement .. => "insertelement"
  | .atomicUpdate .. => "atomicrmw"
  | .compareExchange .. => "cmpxchg"
  | .atomicLoad _ => "load atomic"
  | .atomicStore .. => "store atomic"
  | .fence => "fence"
  | .comment _ => ";"

/-- How the value of an operation came to be. -/
def form : OpOver Value Target → Form
  | .int .. | .fp .. | .fneg _ => .arithmetic
  | .icmp .. => .integerComparison
  | .fcmp .. => .floatComparison
  | .cast .. => .cast
  | .select .. => .select
  | .phi _ => .phi
  | .alloca .. => .alloca
  | .load _ => .load
  | .call .. => .call
  | .invoke .. => .invoke
  | .address .. => .address
  | .extractValue .. => .extractValue
  | .insertValue .. => .insertValue
  | .extractElement .. => .extractElement
  | .insertElement .. => .insertElement
  | .atomicUpdate .. => .atomicUpdate
  | .compareExchange .. => .compareExchange
  | .atomicLoad _ => .atomicLoad
  | _ => .effect

/-- The operation with its operands and blocks written in another way, first to last. -/
def traverse {Value' Target' : Type} {m : Type → Type} [Monad m]
    (value : Value → m Value') (target : Target → m Target') :
    OpOver Value Target → m (OpOver Value' Target')
  | .int op a b => return .int op (← value a) (← value b)
  | .fp op a b => return .fp op (← value a) (← value b)
  | .fneg a => return .fneg (← value a)
  | .icmp p a b => return .icmp p (← value a) (← value b)
  | .fcmp p a b => return .fcmp p (← value a) (← value b)
  | .cast op a => return .cast op (← value a)
  | .select c a b => return .select (← value c) (← value a) (← value b)
  | .phi incoming => return .phi (← incoming.mapM fun (v, t) => return (← value v, ← target t))
  | .alloca t none => return .alloca t none
  | .alloca t (some n) => return .alloca t (some (← value n))
  | .load p => return .load (← value p)
  | .store v p => return .store (← value v) (← value p)
  | .call f args => return .call (← value f) (← args.mapM value)
  | .br t => return .br (← target t)
  | .condBr c t e => return .condBr (← value c) (← target t) (← target e)
  | .switch v d cases =>
    return .switch (← value v) (← target d)
      (← cases.mapM fun (c, t) => return (← value c, ← target t))
  | .ret none => return .ret none
  | .ret (some v) => return .ret (some (← value v))
  | .unreachable => return .unreachable
  | .indirectBr a ts => return .indirectBr (← value a) (← ts.mapM target)
  | .invoke f args n u =>
    return .invoke (← value f) (← args.mapM value) (← target n) (← target u)
  | .address p is => return .address (← value p) (← is.mapM value)
  | .extractValue a path => return .extractValue (← value a) path
  | .insertValue a b path => return .insertValue (← value a) (← value b) path
  | .extractElement a i => return .extractElement (← value a) (← value i)
  | .insertElement a b i => return .insertElement (← value a) (← value b) (← value i)
  | .atomicUpdate op p v => return .atomicUpdate op (← value p) (← value v)
  | .compareExchange p e v => return .compareExchange (← value p) (← value e) (← value v)
  | .atomicLoad p => return .atomicLoad (← value p)
  | .atomicStore v p => return .atomicStore (← value v) (← value p)
  | .fence => return .fence
  | .comment text => return .comment text

end OpOver

end Ssa

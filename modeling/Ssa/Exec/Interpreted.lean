/-
# `Ssa.Exec.Interpreted` — the rules of the interpreter

The interpreter computes with integers, floating point, and cells.  It has rules for arithmetic,
comparisons, conversions, choices, scalar storage, control and direct calls; whatever else a run
comes upon is reported as unsupported, by name.
-/
import Ssa.Exec.Machine
import Ssa.Exec.Convert

namespace Ssa.Interpreted

/-! ## Operands -/

/-- The value of a constant: zero for null and undefined ones, and the representation in its type
for numbers. -/
def constant (function : String) : Constant → Except Failure Value
  | .null t | .undef t => .ok (Value.zero t)
  | .int t v => scalar t (.int v)
  | .truth t v => scalar t (.truth v)
  | .real t v => scalar t (.real v)
  | .aggregate t _ => .error (.unsupported (.constant t) function)
where
  /-- A number in a type. -/
  scalar (t : Ty) (v : Value) : Except Failure Value :=
    if t.isInt || t.isFp then v.normalize t
    else .error (.unsupported (.constant t) function)

/-- The value that the cell of a global variable holds at first.  Only constants are read. -/
def initialValue (function : String) (v : Variable) : Except Failure Value :=
  match v.init with
  | none => .ok (Value.zero v.type)
  | some (.const c) => constant function c
  | some _ => .error .lacksAttribute

/-- The cell of a global variable, which is made when it is first asked for. -/
def globalCell (function : String) (i : Nat) (v : Variable) : Exec Value := do
  match (← get).global? i with
  | some id => pure (.cell id)
  | none =>
    let x ← Exec.lift (initialValue function v)
    let id ← Exec.allocate v.type x
    modify (·.setGlobal i id)
    pure (.cell id)

/-- What an operand stands for. -/
def eval (p : Program) (f : Function) (env : Env) : Operand → Exec Value
  | .const c => Exec.lift (constant f.name c)
  | .local id _ =>
    match env.lookup id with
    | some v => pure v
    | none => throw (.unsupported (.operand (f.localForm id)) f.name)
  | .global i _ =>
    match p.module.symbols[i]? with
    | some (.variable v) => globalCell f.name i v
    | some (.function g) => pure (.function p.owner i g.name g.type.ref)
    | none => throw .lacksAttribute

/-! ## Instructions

What an instruction does is said over any way of evaluating operands. -/

/-- The cell that an access goes through. -/
def cellOf (f : Function) (word : String) : Value → Exec Nat
  | .cell id => pure id
  | _ => throw (.unsupported (.rawPointer word) f.name)

/-- An operation on integers whose type has to be one of integers. -/
def integerOp (f : Function) (op : IntOp) (t : Ty) (a b : Value) : Except Failure Value :=
  match t with
  | .int w => op.apply f.name w a b
  | _ => .error (.unsupported (.instruction op.word) f.name)

/-- The value of an operation that only computes. -/
def compute (ev : Operand → Exec Value) (f : Function) (t : Ty) (op : Op) : Exec Value :=
  match op with
  | .int op a b => do
    let x ← ev a
    let y ← ev b
    Exec.lift (integerOp f op t x y)
  | .fp op a b => do
    let x ← ev a
    let y ← ev b
    Exec.lift (op.apply x y >>= Value.normalize t)
  | .fneg a => do
    let x ← ev a
    Exec.lift (x.negate >>= Value.normalize t)
  | .icmp pred a b => do
    let x ← ev a
    let y ← ev b
    Exec.lift (pred.apply f.name a.type (a.isSameLocal b) x y)
  | .fcmp pred a b => do
    let x ← ev a
    let y ← ev b
    Exec.lift (pred.apply x y)
  | .cast op a => do
    let x ← ev a
    Exec.lift (op.apply f.name a.type t x)
  | .select c a b => do
    let x ← ev c
    if x.isTrue then ev a else ev b
  | .alloca t _ => return .cell (← Exec.allocate t (Value.zero t))
  | .load a => do
    let x ← ev a
    let id ← cellOf f op.word x
    return (← Exec.cell id).value
  | .store v a => do
    let x ← ev v
    let y ← ev a
    let id ← cellOf f op.word y
    Exec.write id x
    pure .null
  | op => throw (.unsupported (.instruction op.word) f.name)

/-- The label of the first case that a value is equal to, or the default. -/
def chooseCase (ev : Operand → Exec Value) (v : Value) (default : Nat) :
    List (Operand × Nat) → Exec Nat
  | [] => pure default
  | (c, target) :: rest => do
    let x ← ev c
    if x.equals v then pure target else chooseCase ev v default rest

/-- A call of a function of the module by name.  What else a callee may be is not supported. -/
def call (p : Program) (ev : Operand → Exec Value) (f : Function) (callee : Operand)
    (args : List Operand) : Exec Signal :=
  match callee with
  | .global i _ =>
    match p.module.function? i with
    | some _ => do return .call i (← args.mapM ev)
    | none => throw (.unsupported .indirectCall f.name)
  | _ => throw (.unsupported .indirectCall f.name)

/-- What an instruction that moves control asks for; other instructions are left to the last
argument. -/
def control (ev : Operand → Exec Value) (f : Function) (op : Op)
    (callOf : Operand → List Operand → Exec Signal) (otherwise : Exec Value) : Exec Signal :=
  match op with
  | .ret none => pure (.ret .null)
  | .ret (some v) => do return .ret (← ev v)
  | .br t => pure (.goto t)
  | .condBr c t e => do
    let x ← ev c
    pure (.goto (if x.isTrue then t else e))
  | .switch v d cases => do
    let x ← ev v
    return .goto (← chooseCase ev x d cases)
  | .unreachable => throw (.reachedUnreachable f.name)
  | .call callee args | .invoke callee args _ _ => callOf callee args
  | _ => do return .value (← otherwise)

/-- What an instruction asks for. -/
def perform (p : Program) (f : Function) (env : Env) (i : Instr) : Exec Signal :=
  let ev := eval p f env
  control ev f i.op (call p ev f) (compute ev f i.type i.op)

/-- The rules of the interpreter. -/
def rules : Rules := ⟨eval, perform⟩

end Ssa.Interpreted

/-
# `Ssa.Exec.Compiled` — the rules of compiled code

Compiled code computes what its text says: every result is rounded once to the precision of its
type, vectors are computed lane by lane, pointers are addresses, storage holds octets that may be
read back as another type, and the functions of the machine are available.  The rules are those for
programs whose behaviour is defined; elsewhere any answer will do.
-/
import Ssa.Exec.Interpreted
import Ssa.Exec.Layout
import Ssa.Exec.Update
import Ssa.Program.Intrinsic

namespace Ssa.Compiled

open Layout (intOf partsOf)

/-! ## Addresses of functions -/

/-- The address of the first function, which lies beyond all storage. -/
def functionBase : Nat := 0x1000000000000000

/-- The distance between the addresses of neighbouring functions. -/
def functionSpan : Nat := 16

/-- The address of the function at a position of the module. -/
def functionAddress (i : Nat) : Value := .int (functionBase + i * functionSpan : Nat)

/-- The position of the function at an address. -/
def functionAt? (address : Int) : Option Nat :=
  let n := address.toNat
  if functionBase ≤ n && (n - functionBase) % functionSpan = 0 then
    some ((n - functionBase) / functionSpan)
  else none

/-! ## Constants and global variables -/

/-- A number in a type. -/
def scalar (t : Ty) (v : Value) : Except Failure Value :=
  match t with
  | .fp p => v.toFp.map fun x => .real (p.format.convert x)
  | t => v.normalize t

mutual

/-- The value of a constant. -/
def constant (types : TypeTable) : Constant → Except Failure Value
  | .null t | .undef t => .ok (Layout.ofType types t).zero
  | .int t v => scalar t (.int v)
  | .truth t v => scalar t (.truth v)
  | .real t v => scalar t (.real v)
  | .aggregate _ cs => (constants types cs).map .parts

/-- The values of a list of constants. -/
def constants (types : TypeTable) : List Constant → Except Failure (List Value)
  | [] => .ok []
  | c :: cs => do
    let v ← constant types c
    let vs ← constants types cs
    pure (v :: vs)

end

/-- The address of the region of a global variable. -/
def regionAddress (m : Memory) (i : Nat) : Value :=
  .int (Storage.addressOf ((m.global? i).getD 0))

/-- The value of an initializer, once all global variables have their regions. -/
def initialValue (p : Program) (m : Memory) : Operand → Except Failure Value
  | .const c => constant p.types c
  | .global i _ =>
    if (p.module.function? i).isSome then .ok (functionAddress i) else .ok (regionAddress m i)
  | .local .. => .error .lacksAttribute

/-- The global variables of a module with their positions. -/
def globalVariables (m : Module) : List (Nat × Variable) :=
  (List.range m.symbols.size).filterMap fun i => (m.variableAt? i).map fun v => (i, v)

/-- Give every global variable a region, and then its initial value, which may be an address. -/
def makeGlobals (p : Program) : Exec Unit := do
  let vars := globalVariables p.module
  for (i, v) in vars do
    let id ← Exec.reserve (Layout.ofType p.types v.type).size
    modify (·.setGlobal i id)
  for (i, v) in vars do
    match v.init with
    | none => pure ()
    | some o => do
      let m ← get
      let x ← Exec.lift (initialValue p m o)
      Exec.setOctets (intOf (regionAddress m i)).toNat ((Layout.ofType p.types v.type).encode x)

/-- The address of a global variable.  The regions are made when one is first asked for. -/
def globalAddress (p : Program) (i : Nat) : Exec Value := do
  if ((← get).global? i).isNone then makeGlobals p
  return regionAddress (← get) i

/-- What an operand stands for. -/
def eval (p : Program) (f : Function) (env : Env) : Operand → Exec Value
  | .const c => Exec.lift (constant p.types c)
  | .local id _ =>
    match env.lookup id with
    | some v => pure v
    | none => throw (.unsupported (.operand (f.localForm id)) f.name)
  | .global i _ =>
    match p.module.symbols[i]? with
    | some (.variable _) => globalAddress p i
    | some (.function _) => pure (functionAddress i)
    | none => throw .lacksAttribute

/-! ## Parts of aggregates -/

/-- The part of an aggregate at a place. -/
def partAt (v : Value) : List Int → Value
  | [] => v
  | i :: path => partAt ((partsOf v).getD i.toNat .null) path

/-- An aggregate with another part at a place. -/
def withPart (part : Value) (v : Value) : List Int → Value
  | [] => part
  | i :: path => .parts ((partsOf v).modify i.toNat fun x => withPart part x path)

/-! ## Numbers -/

/-- Apply an operation to a value of a type, in each lane. -/
def inLanes (t : Ty) (act : Ty → Value → Except Failure Value) (v : Value) :
    Except Failure Value :=
  match t with
  | .vector _ e => ((partsOf v).mapM (act e)).map .parts
  | t => act t v

/-- Apply an operation to two values of a type, in each lane. -/
def inBothLanes (t : Ty) (act : Ty → Value → Value → Except Failure Value) (v w : Value) :
    Except Failure Value :=
  match t with
  | .vector _ e => (((partsOf v).zip (partsOf w)).mapM fun (x, y) => act e x y).map .parts
  | t => act t v w

/-- Round a result to the precision of its type. -/
def rounded (t : Ty) (v : Value) : Value :=
  match t, v with
  | .fp p, .real x => .real (p.format.convert x)
  | _, v => v

/-- The datum that a floating-point value is. -/
def fp (v : Value) : Except Failure Fp := v.number >>= Number.toFp

/-- The result of an operation on two data. -/
def fpResult (op : FpOp) (x y : Fp) : Fp :=
  match op with
  | .fadd => x.add y
  | .fsub => x.sub y
  | .fmul => x.mul y
  | .fdiv => x.div y
  | .frem => x.rem y

/-- The result of an operation on two floating-point values of a type. -/
def fpApply (op : FpOp) (t : Ty) (v w : Value) : Except Failure Value := do
  return rounded t (.real (fpResult op (← fp v) (← fp w)))

/-- Compare two integers or two addresses. -/
def compare (f : Function) (pred : IntPred) (t : Ty) (v w : Value) : Except Failure Value :=
  pred.apply f.name (if t.isPointer then .int 64 else t) false v w

/-- The choice between two values, made in each lane if the condition has lanes. -/
def choose (t : Ty) (cond v w : Value) : Value :=
  match t with
  | .vector .. => .parts (List.zipWith (fun c (x, y) => if c.isTrue then x else y) (partsOf cond)
      ((partsOf v).zip (partsOf w)))
  | _ => if cond.isTrue then v else w

/-- The floating-point value nearest to an integer. -/
def nearest (t : Ty) (n : Int) : Value :=
  match t with
  | .fp p => .real (p.format.round false n)
  | _ => .null

/-- Convert a scalar of one type to another.  Pointers are the integers of their addresses. -/
def convertScalar (f : Function) (op : CastOp) (source target : Ty) (v : Value) :
    Except Failure Value :=
  match op with
  | .uitofp => do return nearest target (← v.integer)
  | .sitofp => do return nearest target (← CastOp.signedAt source v)
  | .ptrtoint => v.normalize target
  | .inttoptr => v.normalize (.int 64)
  | .addrspacecast => .ok v
  | op => (op.apply f.name source target v).map (rounded target)

/-- Convert a value of one type to another: its digits are kept, or each lane is converted. -/
def convert (types : TypeTable) (f : Function) (op : CastOp) (source target : Ty) (v : Value) :
    Except Failure Value :=
  if op = .bitcast then
    .ok ((Layout.ofType types target).ofWord ((Layout.ofType types source).toWord v))
  else inLanes source (fun t x => convertScalar f op t target.scalar x) v

/-! ## Storage -/

/-- The place that an access goes through, which has to be in storage. -/
def placeOf (f : Function) (word : String) (v : Value) : Exec Nat := do
  let address := (intOf v).toNat
  if (← get).storage.holds address then pure address
  else throw (.unsupported (.rawPointer word) f.name)

/-- Read a value of a type. -/
def load (p : Program) (t : Ty) (place : Nat) : Exec Value := do
  let l := Layout.ofType p.types t
  return l.decode (← Exec.octetsAt place l.accessSize)

/-- Write a value of a type. -/
def store (p : Program) (t : Ty) (place : Nat) (v : Value) : Exec Unit :=
  Exec.setOctets place ((Layout.ofType p.types t).encode v)

/-- The signed reading of an index. -/
def indexOf (t : Ty) (v : Value) : Int :=
  match t with
  | .int w => Word.toSigned w (intOf v)
  | _ => intOf v

/-- The address at the end of a path of indices: the first one passes over whole values, and each
further one leads to a part. -/
def addressAlong (l : Layout) (start : Int) : List Int → Int
  | [] => start
  | i :: path =>
    (path.foldl (fun (l, address) i => ((l.part i).1, address + (l.part i).2))
      (l, start + i * l.size)).2

/-- What a pointer type points to. -/
def pointeeOf : Ty → Ty
  | .pointer t _ => t
  | t => t

/-! ## Instructions -/

/-- The value of an instruction that updates storage in one step. -/
def update (p : Program) (ev : Operand → Exec Value) (f : Function) (word : String) :
    Op → Exec Value
  | .atomicUpdate op a v => do
    let place ← placeOf f word (← ev a)
    let x ← ev v
    let old ← load p v.type place
    store p v.type place (Update.apply op v.type old x)
    pure old
  | .compareExchange a e v => do
    let place ← placeOf f word (← ev a)
    let expected ← ev e
    let x ← ev v
    let old ← load p e.type place
    let l := Layout.ofType p.types e.type
    let equal := l.toWord old == l.toWord expected
    if equal then store p e.type place x
    pure (.parts [old, .ofBool equal])
  | _ => pure .null

/-- The value of an operation that only computes. -/
def compute (p : Program) (ev : Operand → Exec Value) (f : Function) (t : Ty) (op : Op) :
    Exec Value :=
  match op with
  | .int op a b => do
    let x ← ev a
    let y ← ev b
    Exec.lift (inBothLanes t (Interpreted.integerOp f op) x y)
  | .fp op a b => do
    let x ← ev a
    let y ← ev b
    Exec.lift (inBothLanes t (fpApply op) x y)
  | .fneg a => do
    let x ← ev a
    Exec.lift (inLanes t (fun _ v => do return .real (← fp v).neg) x)
  | .icmp pred a b => do
    let x ← ev a
    let y ← ev b
    Exec.lift (inBothLanes a.type (compare f pred) x y)
  | .fcmp pred a b => do
    let x ← ev a
    let y ← ev b
    Exec.lift (inBothLanes a.type (fun _ => pred.apply) x y)
  | .cast op a => do
    let x ← ev a
    Exec.lift (convert p.types f op a.type t x)
  | .select c a b => do
    let x ← ev c
    let y ← ev a
    let z ← ev b
    pure (choose c.type x y z)
  | .alloca t count => do
    let n : Int ← match count with
      | some n => pure (intOf (← ev n))
      | none => pure 1
    let id ← Exec.reserve (n.toNat * (Layout.ofType p.types t).size)
    pure (.int (Storage.addressOf id))
  | .load a | .atomicLoad a => do
    let place ← placeOf f op.word (← ev a)
    load p t place
  | .store v a | .atomicStore v a => do
    let x ← ev v
    let place ← placeOf f op.word (← ev a)
    store p v.type place x
    pure .null
  | .address a is => do
    let start ← ev a
    let path ← is.mapM fun i => return indexOf i.type (← ev i)
    let l := Layout.ofType p.types (pointeeOf a.type)
    pure (.int (Word.wrap 64 (addressAlong l (intOf start) path)))
  | .extractValue a path => do return partAt (← ev a) path
  | .insertValue a b path => do
    let x ← ev a
    let y ← ev b
    pure (withPart y x path)
  | .extractElement a i => do
    let x ← ev a
    return partAt x [intOf (← ev i)]
  | .insertElement a b i => do
    let x ← ev a
    let y ← ev b
    return withPart y x [intOf (← ev i)]
  | .atomicUpdate .. | .compareExchange .. => update p ev f op.word op
  | .fence | .comment _ => pure .null
  | op => Interpreted.compute ev f t op

/-! ## Functions of the machine -/

/-- The result of an operation with a digit that tells whether it left the range. -/
def withOverflow (w : Nat) (exact inRange : Int) : Value :=
  .parts [.int (Word.wrap w exact), .int (if exact = inRange then 0 else 1)]

/-- The value of a function of the machine on integers of a width. -/
def intrinsicOnInts (which : Intrinsic) (w : Nat) (args : List Int) : Option Value :=
  match which, args with
  | .ctpop, [a] => some (.int (Word.popCount w a))
  | .bswap, [a] => some (.int (Word.swapOctets w a))
  | .saddWithOverflow, [a, b] =>
    let exact := Word.toSigned w a + Word.toSigned w b
    some (withOverflow w exact (Word.toSigned w exact))
  | .umulWithOverflow, [a, b] =>
    let exact := Word.wrap w a * Word.wrap w b
    some (withOverflow w exact (Word.wrap w exact))
  | _, _ => none

/-- The value of a function of the machine. -/
def intrinsic (which : Intrinsic) (params : List Ty) (args : List Value) :
    Except Failure Value := do
  match which, params, args with
  | .fma, .fp p :: _, [a, b, c] =>
    return .real (p.format.convert (Fp.fma p.format (← fp a) (← fp b) (← fp c)))
  | which, .int w :: _, args =>
    match intrinsicOnInts which w (← args.mapM Value.integer) with
    | some v => pure v
    | none => throw .typeMismatch
  | _, _, _ => throw .typeMismatch

/-- The function of the machine that a declaration is. -/
def intrinsicOf? (f : Function) : Option Intrinsic :=
  if f.isDeclaration then Intrinsic.all.find? (·.isNamed f.name) else none

/-- Call the function at a position of the module. -/
def callAt (p : Program) (i : Nat) (args : List Value) : Exec Signal :=
  match (p.module.function? i).bind fun g => (intrinsicOf? g).map fun which => (which, g) with
  | some (which, g) => do return .value (← Exec.lift (intrinsic which g.params args))
  | none => pure (.call i args)

/-- A call of the function at an address. -/
def call (p : Program) (ev : Operand → Exec Value) (f : Function) (callee : Operand)
    (args : List Operand) : Exec Signal := do
  match functionAt? (intOf (← ev callee)) with
  | some i => do
    let vs ← args.mapM ev
    callAt p i vs
  | none => throw (.unsupported .indirectCall f.name)

/-- What an instruction asks for. -/
def perform (p : Program) (f : Function) (env : Env) (i : Instr) : Exec Signal :=
  let ev := eval p f env
  Interpreted.control ev f i.op (call p ev f) (compute p ev f i.type i.op)

/-- The rules of compiled code. -/
def rules : Rules := ⟨eval, perform⟩

end Ssa.Compiled

/-
# `Ssa.Assembly.Reader` — reading assembly text

Reading has two stages.  The first follows the text and keeps names as they are written; operands
that are written without a type get that of the operand before them.  The second gives every value
and block its position, as the text may refer to what comes later.  What is read this way may still
break the rules of the language; that is for the check of modules.

The part of the language that is read is the one that programs of this library are written in, with
pointers of either style, numbered values, and the flags of arithmetic, which are skipped.
-/
import Ssa.Assembly.Token
import Ssa.Validity.Reading

namespace Ssa.Assembly

/-- A step of reading: it takes tokens off a list, or fails. -/
abbrev Parse := StateT (List Token) Option

namespace Parse

/-- The next token. -/
def next : Parse Token := do
  match ← get with
  | t :: rest => set rest; pure t
  | [] => failure

/-- The next token, left where it is. -/
def peek : Parse (Option Token) := return (← get).head?

/-- A given token. -/
def token (t : Token) : Parse Unit := do
  if (← next) = t then pure () else failure

/-- A given mark. -/
def mark (c : Char) : Parse Unit := token (.mark c)

/-- A given word. -/
def word (s : String) : Parse Unit := token (.word s)

/-- A given token, if it is the next one. -/
def tryToken (t : Token) : Parse Bool := (do token t; pure true) <|> pure false

/-- As many of a thing as there are, at most a given number. -/
def many {α : Type} (p : Parse α) : (most : Nat) → Parse (List α)
  | 0 => pure []
  | most + 1 => (do let a ← p; let as ← many p most; pure (a :: as)) <|> pure []

/-- As many of a thing as there are. -/
def all {α : Type} (p : Parse α) : Parse (List α) := do many p (← get).length

/-- A list with commas between its members, which may be empty. -/
def list {α : Type} (p : Parse α) : Parse (List α) :=
  (do let a ← p; let as ← all (do mark ','; p); pure (a :: as)) <|> pure []

/-- A natural number. -/
def nat : Parse Nat := do
  match ← next with
  | .integer v => if v < 0 then failure else pure v.toNat
  | _ => failure

/-- Skip the words of a list. -/
def skip (words : List String) : Parse Unit := do
  discard (all do
    match ← next with
    | .word w => if words.contains w then pure () else failure
    | _ => failure)

end Parse

open Parse

/-! ## Types -/

/-- The type that a word is. -/
def typeOfWord? (w : String) : Option Ty :=
  match w with
  | "void" => some .void
  | "label" => some .label
  | "half" => some (.fp .half)
  | "float" => some (.fp .single)
  | "double" => some (.fp .double)
  | w => match w.toList with
    | 'i' :: digits =>
      if !digits.isEmpty && digits.all Char.isDigit then some (.int (Decimal.ofDigits digits))
      else none
    | _ => none

/-- An address space, the first one if none is written. -/
def space : Parse Nat :=
  (do word "addrspace"; mark '('; let n ← nat; mark ')'; pure n) <|> pure 0

/-- The members of a list of parameter types, and whether further ones may follow. -/
def paramTypes (type : Parse Ty) : Parse (List Ty × Bool) := do
  let ts ← list type
  let variadic ← if ts.isEmpty then tryToken (.word "...")
    else (do mark ','; word "..."; pure true) <|> pure false
  mark ')'
  pure (ts, variadic)

/-- What may be written after a type to make another. -/
def typeSuffix (type : Parse Ty) (t : Ty) : Parse Ty :=
  (do let s ← space; mark '*'; pure (.pointer t s)) <|>
  (do mark '('; let (ps, v) ← paramTypes type; pure (.function t ps v))

/-- A type with all that is written after it. -/
def withSuffixes (type : Parse Ty) : (most : Nat) → Ty → Parse Ty
  | 0, t => pure t
  | most + 1, t => (do withSuffixes type most (← typeSuffix type t)) <|> pure t

/-- The count and the element type of an array or vector. -/
def repeated (type : Parse Ty) : Parse (Nat × Ty) := do
  let n ← nat
  word "x"
  return (n, ← type)

/-- A type without anything after it. -/
def baseType (type : Parse Ty) : Parse Ty := do
  match ← next with
  | .word "ptr" => return .pointer (.int 8) (← space)
  | .word w => match typeOfWord? w with
    | some t => pure t
    | none => failure
  | .value (.named s) => pure (.named s)
  | .mark '[' => do
    let (n, t) ← repeated type
    mark ']'
    pure (.array n t)
  | .mark '\x7b' => do
    let ts ← list type
    mark '\x7d'
    pure (.struct false ts)
  | .mark '<' =>
    (do mark '\x7b'; let ts ← list type; mark '\x7d'; mark '>'; pure (.struct true ts)) <|>
    (do let (n, t) ← repeated type; mark '>'; pure (.vector n t))
  | _ => failure

/-- A type, nested at most to a depth. -/
def typeTo : (depth : Nat) → Parse Ty
  | 0 => failure
  | depth + 1 => do
    let t ← baseType (typeTo depth)
    withSuffixes (typeTo depth) depth t

/-- A type. -/
def type : Parse Ty := do typeTo (← get).length

/-! ## Operands -/

/-- What an operand refers to. -/
inductive Reference where
  | const (c : Constant)
  | value (n : Name)
  | symbol (n : Name)
deriving Repr, Inhabited

/-- An operand as it is written. -/
structure Written where
  type : Ty
  reference : Reference
deriving Repr, Inhabited

/-- The constant that a double is at a type, which has to have it exactly. -/
def realOf? (t : Ty) (x : Fp) : Option Constant :=
  match t with
  | .fp p => if p.keeps x then some (.real t x) else none
  | _ => none

/-- The constant that a token is at a type. -/
def constantOf? (t : Ty) : Token → Option Constant
  | .integer v => if t.isInt then some (.int t v) else none
  | .hexDigits n => realOf? t (Format.double.decode n)
  | .decimal q => realOf? t (Format.double.round false q)
  | .word "true" => some (.truth t true)
  | .word "false" => some (.truth t false)
  | .word "null" => if t.isPointer then some (.null t) else none
  | .word "undef" | .word "poison" => some (.undef t)
  | .word "zeroinitializer" => match t with
    | .int _ => some (.int t 0)
    | t => some (.null t)
  | _ => none

/-- The places of an aggregate of a type, each written with its type. -/
def places (constant : Ty → Parse Constant) : Parse (List Constant) :=
  list do
    let t ← type
    constant t

/-- A constant of a type, nested at most to a depth. -/
def constantTo : (depth : Nat) → Ty → Parse Constant
  | 0, _ => failure
  | depth + 1, t => do
    match ← next with
    | .mark '[' => do
      let cs ← places (constantTo depth)
      mark ']'
      pure (.aggregate t cs)
    | .mark '\x7b' => do
      let cs ← places (constantTo depth)
      mark '\x7d'
      pure (.aggregate t cs)
    | .mark '<' =>
      (do
        mark '\x7b'
        let cs ← places (constantTo depth)
        mark '\x7d'
        mark '>'
        pure (.aggregate t cs)) <|>
      (do
        let cs ← places (constantTo depth)
        mark '>'
        pure (.aggregate t cs))
    | k => match constantOf? t k with
      | some c => pure c
      | none => failure

/-- An operand read at a type. -/
def operandAt (t : Ty) : Parse Written := do
  match ← peek with
  | some (.value n) => discard next; pure ⟨t, .value n⟩
  | some (.symbol n) => discard next; pure ⟨t, .symbol n⟩
  | _ => return ⟨t, .const (← constantTo (← get).length t)⟩

/-- An operand with its type. -/
def operand : Parse Written := do operandAt (← type)

/-- An operand after a comma. -/
def further : Parse Written := do
  mark ','
  operand

/-- Two operands of which the first has its type. -/
def pair : Parse (Written × Written) := do
  let a ← operand
  mark ','
  let b ← operandAt a.type
  pure (a, b)

/-- A block that is referred to. -/
def blockName : Parse Name := do
  match ← next with
  | .value n => pure n
  | _ => failure

/-- A block to go on at. -/
def target : Parse Name := do
  word "label"
  blockName

/-- A block to go on at, after a comma. -/
def furtherTarget : Parse Name := do
  mark ','
  target

/-! ## Instructions -/

/-- An operation as it is written. -/
abbrev WrittenOp := OpOver Written Name

/-- An instruction as it is written: the name of its value, if it has one, and the type that is
written for that value, if it is. -/
structure WrittenInstr where
  result : Option Name
  asked : Ty
  op : WrittenOp
deriving Repr, Inhabited

/-- The words that may stand between an operation and its operands. -/
def flags : List String :=
  ["nsw", "nuw", "exact", "disjoint", "nneg", "samesign", "fast", "nnan", "ninf", "nsz", "arcp",
    "contract", "afn", "reassoc", "inbounds", "volatile"]

/-- An alignment after a comma. -/
def alignment : Parse Unit :=
  (do mark ','; word "align"; discard nat) <|> pure ()

/-- The positions of parts within parts, after commas. -/
def path : Parse (List Int) := all do
  mark ','
  return (← nat : Int)

/-- The callee and the arguments of a call, and the type of its result. -/
def callParts : Parse (Ty × Written × List Written) := do
  let t ← type
  let callee ← match ← next with
    | .symbol n => pure (Reference.symbol n)
    | .value n => pure (Reference.value n)
    | _ => failure
  mark '('
  let args ← list operand
  mark ')'
  let signature := match t with
    | .function .. => t
    | r => .function r (args.map Written.type) false
  let result := match t with
    | .function r .. => r
    | r => r
  pure (result, ⟨signature.ref, callee⟩, args)

/-- The entry of a phi. -/
def phiEntry (t : Ty) : Parse (Written × Name) := do
  mark '['
  let v ← operandAt t
  mark ','
  let b ← blockName
  mark ']'
  pure (v, b)

/-- The case of a switch. -/
def switchCase : Parse (Written × Name) := do
  let c ← operand
  let b ← furtherTarget
  pure (c, b)

/-- An access that may be atomic. -/
def load : Parse (Ty × WrittenOp) := do
  let atomic ← tryToken (.word "atomic")
  skip flags
  let t ← type
  let p ← further
  if atomic then word "seq_cst"
  alignment
  pure (t, if atomic then .atomicLoad p else .load p)

/-- A store that may be atomic. -/
def store : Parse (Ty × WrittenOp) := do
  let atomic ← tryToken (.word "atomic")
  skip flags
  let v ← operand
  let p ← further
  if atomic then word "seq_cst"
  alignment
  pure (.void, if atomic then .atomicStore v p else .store v p)

/-- A return with or without a value. -/
def ret : Parse (Ty × WrittenOp) :=
  (do word "void"; pure (.void, .ret none)) <|> (do return (.void, .ret (some (← operand))))

/-- A branch with or without a condition. -/
def branch : Parse (Ty × WrittenOp) :=
  (do return (.void, .br (← target))) <|>
  (do return (.void, .condBr (← operand) (← furtherTarget) (← furtherTarget)))

/-- Storage in a frame. -/
def storage : Parse (Ty × WrittenOp) := do
  let t ← type
  let n ← (do return some (← further)) <|> pure none
  alignment
  pure (.void, .alloca t n)

/-- The step from an address to itself, which need not be written. -/
def stay : Written := ⟨.int 64, .const (.int (.int 64) 0)⟩

/-- An operation that is not one of arithmetic, comparison or conversion. -/
def otherOp (w : String) : Parse (Ty × WrittenOp) := do
  match w with
  | "fneg" => return (.void, .fneg (← operand))
  | "select" => return (.void, .select (← operand) (← further) (← further))
  | "phi" => do
    let t ← type
    let entries ← list (phiEntry t)
    pure (t, .phi entries)
  | "alloca" => storage
  | "load" => load
  | "store" => store
  | "call" => do
    let (t, callee, args) ← callParts
    pure (t, .call callee args)
  | "br" => branch
  | "switch" => do
    let v ← operand
    let d ← furtherTarget
    mark '['
    let cases ← all switchCase
    mark ']'
    pure (.void, .switch v d cases)
  | "ret" => ret
  | "unreachable" => pure (.void, .unreachable)
  | "indirectbr" => do
    let a ← operand
    mark ','
    mark '['
    let ts ← list target
    mark ']'
    pure (.void, .indirectBr a ts)
  | "invoke" => do
    let (t, callee, args) ← callParts
    word "to"
    let n ← target
    word "unwind"
    let u ← target
    pure (t, .invoke callee args n u)
  | "getelementptr" => do
    skip flags
    discard type
    let p ← further
    let is ← all further
    pure (.void, .address p (if is.isEmpty then [stay] else is))
  | "extractvalue" => return (.void, .extractValue (← operand) (← path))
  | "insertvalue" => return (.void, .insertValue (← operand) (← further) (← path))
  | "extractelement" => return (.void, .extractElement (← operand) (← further))
  | "insertelement" => return (.void, .insertElement (← operand) (← further) (← further))
  | "atomicrmw" => do
    let o ← next
    let p ← operand
    let v ← further
    word "seq_cst"
    match o with
    | .word o => pure (.void, .atomicUpdate o p v)
    | _ => failure
  | "cmpxchg" => do
    let p ← operand
    let e ← further
    let v ← further
    if !e.type.agrees v.type then failure
    word "seq_cst"
    word "seq_cst"
    pure (.void, .compareExchange p e v)
  | "fence" => do
    word "seq_cst"
    pure (.void, .fence)
  | _ => failure

/-- A comparison after its verb. -/
def comparison {Pred : Type} (ofWord? : String → Option Pred)
    (make : Pred → Written → Written → WrittenOp) : Parse (Ty × WrittenOp) := do
  skip flags
  match ← next with
  | .word w => match ofWord? w with
    | some p => do
      let (a, b) ← pair
      pure (.void, make p a b)
    | none => failure
  | _ => failure

/-- An operation after its verb. -/
def opAfter (w : String) : Parse (Ty × WrittenOp) := do
  match IntOp.ofWord? w, FpOp.ofWord? w, CastOp.ofWord? w with
  | some op, _, _ => do
    skip flags
    let (a, b) ← pair
    pure (.void, .int op a b)
  | _, some op, _ => do
    skip flags
    let (a, b) ← pair
    pure (.void, .fp op a b)
  | _, _, some op => do
    skip flags
    let a ← operand
    word "to"
    let t ← type
    pure (t, .cast op a)
  | _, _, _ =>
    if w = "icmp" then comparison IntPred.ofWord? .icmp
    else if w = "fcmp" then comparison FpPred.ofWord? .fcmp
    else otherOp w

/-- An instruction. -/
def instruction : Parse WrittenInstr := do
  let result ← (do
    match ← next with
    | .value n => mark '='; pure (some n)
    | _ => failure) <|> pure none
  skip ["tail", "musttail", "notail"]
  match ← next with
  | .word w => do
    let (asked, op) ← opAfter w
    pure ⟨result, asked, op⟩
  | _ => failure

/-! ## Functions and other items -/

/-- A block as it is written. -/
structure WrittenBlock where
  label : Option Name
  instrs : List WrittenInstr
deriving Repr, Inhabited

/-- A function as it is written. -/
structure WrittenFunction where
  name : Name
  result : Ty
  params : List (Ty × Option Name)
  variadic : Bool
  blocks : List WrittenBlock
deriving Repr, Inhabited

/-- A global variable as it is written. -/
structure WrittenVariable where
  name : Name
  type : Ty
  init : Option Written
deriving Repr, Inhabited

/-- What a text consists of. -/
inductive Item where
  | structure_ (name : String) (fields : Option (List Ty))
  | variable (v : WrittenVariable)
  | function (f : WrittenFunction)
  | remark
deriving Repr, Inhabited

/-- A label. -/
def label : Parse Name := do
  match ← next with
  | .label n => pure n
  | _ => failure

/-- Instructions up to the end of a block. -/
def blockInstrs : (most : Nat) → Parse (List WrittenInstr)
  | 0 => failure
  | most + 1 => do
    let i ← instruction
    if i.op.isTerminator then pure [i] else return i :: (← blockInstrs most)

/-- A block, with or without a label. -/
def block : Parse WrittenBlock := do
  let name ← (do return some (← label)) <|> pure none
  let instrs ← blockInstrs (← get).length
  pure ⟨name, instrs⟩

/-- A parameter of a definition or declaration. -/
def parameter : Parse (Ty × Option Name) := do
  let t ← type
  let n ← (do return some (← blockName)) <|> pure none
  pure (t, n)

/-- The words that may stand around the head of a function or a global variable. -/
def linkage : List String :=
  ["private", "internal", "weak", "weak_odr", "linkonce", "linkonce_odr", "common", "appending",
    "available_externally", "dso_local", "default", "hidden", "protected", "unnamed_addr",
    "local_unnamed_addr", "nounwind", "readnone", "willreturn", "norecurse", "nofree", "nosync"]

/-- The head of a function. -/
def functionHead : Parse WrittenFunction := do
  skip linkage
  let t ← type
  let name ← match ← next with
    | .symbol n => pure n
    | _ => failure
  mark '('
  let params ← list parameter
  let variadic ← if params.isEmpty then tryToken (.word "...")
    else (do mark ','; word "..."; pure true) <|> pure false
  mark ')'
  skip linkage
  pure ⟨name, t, params, variadic, []⟩

/-- The initializer of a global variable, if it is written. -/
def initializer (t : Ty) (isExternal : Bool) : Parse (Option Written) :=
  if isExternal then pure none else do return some (← operandAt t)

/-- A global variable after its name. -/
def variableAfter (name : Name) : Parse Item := do
  let isExternal ← tryToken (.word "external")
  skip linkage
  word "global" <|> word "constant"
  let t ← type
  let init ← initializer t isExternal
  alignment
  pure (.variable ⟨name, t, init⟩)

/-- An item of a text. -/
def item : Parse Item := do
  match ← next with
  | .word "target" => do
    discard next
    mark '='
    match ← next with
    | .quoted _ => pure .remark
    | _ => failure
  | .word "source_filename" => do
    mark '='
    match ← next with
    | .quoted _ => pure .remark
    | _ => failure
  | .word "declare" => return .function (← functionHead)
  | .word "define" => do
    let f ← functionHead
    mark '\x7b'
    let blocks ← all block
    mark '\x7d'
    if blocks.isEmpty then failure else pure (.function { f with blocks })
  | .value (.named s) => do
    mark '='
    word "type"
    (do word "opaque"; pure (.structure_ s none)) <|>
    (do match ← type with
        | .struct false ts => pure (.structure_ s (some ts))
        | _ => failure)
  | .symbol n => do
    mark '='
    variableAfter n
  | _ => failure

/-- The items of a text. -/
def items? (tokens : List Token) : Option (List Item) :=
  match (all item).run tokens with
  | some (is, []) => some is
  | _ => none

/-! ## Positions -/

/-- A name as text. -/
def Name.text : Name → String
  | .named s => s
  | .numbered n => toString n

/-- The names given so far in a function, with their positions, and the next number. -/
structure Numbering where
  values : List (Name × Nat)
  blocks : List (Name × Nat)
  next : Nat

/-- Give a name, or the next number to what has no name.  A number has to be the next one, and a
name is given once. -/
def Numbering.name (s : Numbering) (n : Option Name) : Option (Name × Numbering) :=
  match n with
  | none => some (.numbered s.next, { s with next := s.next + 1 })
  | some (.numbered k) =>
    if k = s.next then some (.numbered k, { s with next := s.next + 1 }) else none
  | some n =>
    if (s.values.lookup n).isSome || (s.blocks.lookup n).isSome then none else some (n, s)

/-- Give a name to a value. -/
def Numbering.addValue (s : Numbering) (n : Option Name) (id : Nat) : Option Numbering := do
  let (n, s) ← s.name n
  some { s with values := (n, id) :: s.values }

/-- The operand that a written one is, given the positions of names. -/
def Written.resolve (symbols : List (Name × Nat)) (s : Numbering) (w : Written) : Option Operand :=
  match w.reference with
  | .const c => some (.const c)
  | .value n => (s.values.lookup n).map (.local · w.type)
  | .symbol n => (symbols.lookup n).map (.global · w.type)

/-- The type of the value of an operation, where it is not written. -/
def resultType (types : TypeTable) (asked : Ty) : Op → Ty
  | .int _ a _ | .fp _ a _ | .fneg a | .select _ a _ | .insertValue a _ _
  | .insertElement a _ _ => a.type
  | .icmp _ a _ | .fcmp _ a _ => a.type.truth
  | .alloca t _ => t.ref
  | .address p _ => match p.type with
    | .pointer _ s => .pointer (.int 8) s
    | t => t
  | .extractValue a path => (memberType? types a.type path).getD .void
  | .extractElement a _ => a.type.scalar
  | .atomicUpdate _ _ v => v.type
  | .compareExchange _ e _ => .struct false [e.type, .int 1]
  | _ => asked

/-- Whether the value of an operation has no name because there is none.  A call may go either
way. -/
def givesNothing (asked : Ty) : WrittenOp → Bool
  | .call .. | .invoke .. => asked == .void
  | op => op.form == .effect

/-- Give names to the values of the instructions of a block. -/
def nameInstrs : List WrittenInstr → Nat → Numbering → Option (Nat × Numbering)
  | [], id, s => some (id, s)
  | i :: rest, id, s => do
    if givesNothing i.asked i.op then
      if i.result.isSome then none else nameInstrs rest (id + 1) s
    else
      let s ← s.addValue i.result id
      nameInstrs rest (id + 1) s

/-- Give names to blocks and to what is in them. -/
def nameBlocks : List WrittenBlock → Nat → Nat → Numbering → Option Numbering
  | [], _, _, s => some s
  | b :: rest, position, id, s => do
    let (n, s) ← s.name b.label
    let (id, s) ← nameInstrs b.instrs id { s with blocks := (n, position) :: s.blocks }
    nameBlocks rest (position + 1) id s

/-- Give names to the values and blocks of a function. -/
def WrittenFunction.numbering (f : WrittenFunction) : Option Numbering := do
  let s ← f.params.zipIdx.foldlM (fun s (p, i) => s.addValue p.2 i) (⟨[], [], 0⟩ : Numbering)
  nameBlocks f.blocks 0 f.params.length s

/-- Add an instruction to a function and to a list. -/
def addInstr (types : TypeTable) (symbols : List (Name × Nat)) (s : Numbering)
    (acc : Function × List Instr) (w : WrittenInstr) : Option (Function × List Instr) := do
  let (f, is) := acc
  let op ← w.op.traverse (Written.resolve symbols s) (s.blocks.lookup ·)
  let t := resultType types w.asked op
  let name := ((s.values.find? fun e => e.2 == f.locals.size).map fun e => e.1.text).getD ""
  some ({ f with locals := f.locals.push ⟨name, t, op.form⟩ }, is ++ [⟨f.locals.size, t, op⟩])

/-- Add a block to a function. -/
def addBlock (types : TypeTable) (symbols : List (Name × Nat)) (s : Numbering) (f : Function)
    (b : WrittenBlock) : Option Function := do
  let name := ((s.blocks.find? fun e => e.2 == f.blocks.size).map fun e => e.1.text).getD ""
  let (f, is) ← b.instrs.foldlM (addInstr types symbols s) (f, [])
  some { f with blocks := f.blocks.push ⟨name, is⟩ }

/-- The function that a written one is. -/
def WrittenFunction.resolve (types : TypeTable) (symbols : List (Name × Nat))
    (w : WrittenFunction) : Option Function := do
  let s ← w.numbering
  let f := Function.declare w.name.text w.result (w.params.map Prod.fst) w.variadic
  w.blocks.foldlM (addBlock types symbols s) f

/-- The variable that a written one is. -/
def WrittenVariable.resolve (symbols : List (Name × Nat)) (w : WrittenVariable) :
    Option Variable := do
  match w.init with
  | none => some ⟨w.name.text, w.type, none, none⟩
  | some i =>
    let o ← i.resolve symbols ⟨[], [], 0⟩
    some ⟨w.name.text, w.type, some o, none⟩

/-- The name under which an item is a symbol. -/
def Item.symbolName? : Item → Option Name
  | .variable v => some v.name
  | .function f => some f.name
  | _ => none

/-- The symbol that an item is, if it is one. -/
def Item.resolve (types : TypeTable) (symbols : List (Name × Nat)) :
    Item → Option (Option Symbol)
  | .variable v => (v.resolve symbols).map fun v => some (.variable v)
  | .function f => (f.resolve types symbols).map fun f => some (.function f)
  | _ => some none

/-- The named structures of a text. -/
def structuresOf (items : List Item) : TypeTable :=
  items.filterMap fun i => match i with
    | .structure_ name fields => some ⟨name, fields⟩
    | _ => none

/-- The module that a text writes, and the named structures it declares. -/
def read (name text : String) : Option (TypeTable × Module) := do
  let tokens ← Token.read text
  let items ← items? tokens
  let types := structuresOf items
  let names := items.filterMap Item.symbolName?
  if !decide (names.Nodup) || !decide ((types.map NamedType.name).Nodup) then none
  else
    let symbols ← items.mapM (Item.resolve types names.zipIdx)
    some (types, ⟨name, (symbols.filterMap id).toArray⟩)

end Ssa.Assembly

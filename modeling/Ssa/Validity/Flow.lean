/-
# `Ssa.Validity.Flow` — what the verifier asks of control flow

Control enters a function at its first block and nowhere goes back to it.  Phis stand at the head
of their block and have one entry for each way into it.  A value is used only where it has been
computed on every way that leads there.

For each block the verifier has the list of the values that are available at its head: computed on
every way from the first block.  A block that no way leads to has no such list, and there every
use is allowed.  The lists are found by iteration, and what is asked of them in the end is only
that no way into a block brings less than its list says.
-/
import Ssa.Validity.Reading
import Ssa.Program.Intrinsic

namespace Ssa

/-! ## Ways into blocks -/

/-- The blocks that the end of a block may pass control to, as often as it names them. -/
def Block.successors (b : Block) : List Nat := b.instrs.flatMap (·.op.targets)

/-- The blocks that may pass control to a block, as often as they name it. -/
def Function.predecessors (f : Function) (b : Nat) : List Nat :=
  (List.range f.blocks.size).flatMap fun p =>
    (((f.blocks[p]?).map Block.successors).getD []).filterMap fun t =>
      if t = b then some p else none

/-! ## Available values -/

/-- The values that a block computes. -/
def Block.defines (b : Block) : List Nat := b.instrs.map Instr.id

/-- The values available at a place, if a way leads there. -/
abbrev Available := Option (List Nat)

namespace Available

/-- What is available on either of two ways. -/
def meet : Available → Available → Available
  | none, a => a
  | a, none => a
  | some xs, some ys => some (xs.filter ys.contains)

/-- What is available after further values have been computed. -/
def extend (a : Available) (ids : List Nat) : Available := a.map (· ++ ids)

/-- Whether a value is available. -/
def has (a : Available) (id : Nat) : Bool := a.all (·.contains id)

/-- Whether all that one list says is available by another. -/
def within (a b : Available) : Bool :=
  match a, b with
  | _, none => true
  | none, some _ => false
  | some xs, some ys => xs.all ys.contains

end Available

namespace Function

/-- What is available at the end of a block, given what is available at the heads. -/
def availableAtEnd (f : Function) (heads : List Available) (b : Nat) : Available :=
  (heads.getD b none).extend (((f.blocks[b]?).map Block.defines).getD [])

/-- What the ways into a block bring.  The first block is also entered from outside. -/
def brought (f : Function) (heads : List Available) (b : Nat) : Available :=
  (f.predecessors b).foldl (fun a p => a.meet (f.availableAtEnd heads p))
    (if b = 0 then some [] else none)

/-- One round of the iteration. -/
def refine (f : Function) (heads : List Available) : List Available :=
  (List.range f.blocks.size).map (f.brought heads)

/-- A number of rounds of the iteration. -/
def refineTimes (f : Function) : (rounds : Nat) → List Available → List Available
  | 0, heads => heads
  | rounds + 1, heads => refineTimes f rounds (f.refine heads)

/-- What is available at the head of each block.  No way without a repeated block is longer than
there are blocks, so as many rounds suffice. -/
def available (f : Function) : List Available :=
  f.refineTimes (f.blocks.size + 1) (List.replicate f.blocks.size none)

/-- Whether no way into a block brings less than its list says. -/
def availableHolds (f : Function) (heads : List Available) : Bool :=
  (List.range f.blocks.size).all fun b => (heads.getD b none).within (f.brought heads b)

/-- Whether a value can be used, given what is available. -/
def canUse (f : Function) (a : Available) : Operand → Bool
  | .local id _ => decide (id < f.params.length) || a.has id
  | _ => true

/-- Whether each instruction of a list uses only what is available before it. -/
def usesHold (f : Function) : Available → List Instr → Bool
  | _, [] => true
  | a, i :: rest =>
    i.op.operands.all (f.canUse a) && f.usesHold (a.extend [i.id]) rest

/-- The entries of a phi. -/
def entriesOf (i : Instr) : List (Operand × Nat) :=
  match i.op with
  | .phi incoming => incoming
  | _ => []

/-- Whether each entry of the phis of a block is available at the end of the block it is for. -/
def entriesHold (f : Function) (heads : List Available) (b : Block) : Bool :=
  b.instrs.all fun i => (entriesOf i).all fun (v, p) => f.canUse (f.availableAtEnd heads p) v

end Function

/-! ## Phis -/

/-- Whether phis stand only at the head of a list of instructions. -/
def phisLead (is : List Instr) : Bool :=
  (is.dropWhile (·.op.isPhi)).all fun i => !i.op.isPhi

/-- The normal form of what has no digit set. -/
def zeroForm : String := "zero"

/-- The normal form of an integer of a width. -/
def intForm (n : Int) : String := if n = 0 then zeroForm else toString n

/-- The normal form of floating point: its digits. -/
def fpForm (q : Precision) (x : Fp) : String := intForm (q.format.encode x)

/-- The normal form of an aggregate: one word if all its parts are zero, or all are undefined. -/
def partsForm (parts : List String) : String :=
  if parts.all (· == zeroForm) then zeroForm
  else if parts.all (· == "undef") then "undef"
  else "(" ++ ",".intercalate parts ++ ")"

mutual

/-- The normal form of a constant that is read at a type.  Constants of one normal form are one
value. -/
def Constant.form (t : Ty) : Constant → String
  | .null _ => zeroForm
  | .undef _ => "undef"
  | .int u v => match t, u with
    | .int w, _ => intForm (Word.wrap w v)
    | .fp q, .fp p => fpForm q (Constant.roundInt p (Format.double.round false v))
    | _, _ => intForm v
  | .truth _ b => match t with
    | .fp q => fpForm q (Fp.ofRat false (if b then 1 else 0))
    | _ => intForm (if b then 1 else 0)
  | .real u x => match t, u with
    | .fp q, .fp p => fpForm q (p.format.convert x)
    | .fp q, _ => fpForm q x
    | _, _ => x.display
  | .aggregate _ cs => partsForm (Constant.forms cs)

/-- The normal forms of constants that are written with their types. -/
def Constant.forms : List Constant → List String
  | [] => []
  | c :: cs => c.form c.type :: Constant.forms cs

end

/-- Whether two operands written at one type are one value. -/
def Operand.sameValue (t : Ty) (a b : Operand) : Bool :=
  match a, b with
  | .local i _, .local j _ => i == j
  | .global i _, .global j _ => i == j
  | .const c, .const d => c.form t == d.form t
  | _, _ => false

/-- Whether two lists hold the same numbers, each equally often. -/
def sameCounts (xs ys : List Nat) : Bool :=
  (xs ++ ys).all fun x => xs.count x == ys.count x

/-- Whether a phi has one entry for each way into its block, and one value for each block. -/
def Function.phiMatches (f : Function) (b : Nat) (i : Instr) : Bool :=
  let entries := Function.entriesOf i
  !i.op.isPhi ||
    (sameCounts (entries.map Prod.snd) (f.predecessors b) &&
      entries.all fun (v, p) => entries.all fun (w, q) => p != q || v.sameValue i.type w)

/-! ## Instructions that exist but may not be used so -/

/-- Whether values of a type can be accessed in one step. -/
def Ty.isAtomic (t : Ty) : Bool := t.accessDigits?.any isAtomicWidth

/-- Whether a name is kept for functions of the machine. -/
def isReserved (name : String) : Bool := begins "llvm." name

/-- Whether a function of the machine can be called as it is declared.  Octets can be swapped in
pairs only. -/
def Intrinsic.accepts (which : Intrinsic) (f : Function) : Bool :=
  f.params.head?.any fun t =>
    let truth := match t with
      | .vector n _ => Ty.vector n (.int 1)
      | _ => .int 1
    let result := match which with
      | .saddWithOverflow | .umulWithOverflow => Ty.struct false [t, truth]
      | _ => t
    let swaps := match which, t.scalar with
      | .bswap, .int w => w % 16 == 0
      | _, _ => true
    !f.variadic && f.result == result && f.params == (which.signature t).2 && swaps &&
      (if which = .fma then t.isFpLike else t.isIntLike)

/-- Whether a function can be called as it is declared. -/
def Function.isCallable (f : Function) : Bool :=
  Intrinsic.all.all fun which => !which.isNamed f.name || which.accepts f

/-- Whether the address of an operand may be taken: functions of the machine have none. -/
def Operand.isAddressable (m : Module) : Operand → Bool
  | .global g _ => (m.function? g).all fun f => !isReserved f.name
  | _ => true

/-- The operands of an instruction that are read as values, which a callee is not. -/
def Instr.readOperands (i : Instr) : List Operand :=
  match i.op with
  | .call _ args | .invoke _ args _ _ => args
  | .phi incoming => incoming.map Prod.fst
  | op => op.operands

/-- Whether the verifier has nothing against an instruction by itself.  A call that may unwind
needs a place for it that is none of the blocks that can be built; the cases of a switch are of its
type. -/
def Instr.isVerified (m : Module) (i : Instr) : Bool :=
  i.readOperands.all (·.isAddressable m) &&
    match i.op with
    | .invoke .. => false
    | .switch v _ cases => cases.all fun (c, _) => c.type == v.type
    | .compareExchange _ e _ => e.type.isAtomic && (e.type.isInt || e.type.isPointer)
    | .atomicLoad _ => i.type.isAtomic
    | .atomicStore v _ => v.type.isAtomic
    | .atomicUpdate _ _ v => v.type.isAtomic
    | .call (.global g _) _ => (m.function? g).all Function.isCallable
    | _ => true

/-! ## Functions and modules -/

/-- Whether the verifier has nothing against a block. -/
def Function.blockIsVerified (m : Module) (f : Function) (heads : List Available) (b : Nat)
    (block : Block) : Bool :=
  phisLead block.proper && block.instrs.all (f.phiMatches b) &&
    block.instrs.all (·.isVerified m) && f.usesHold (heads.getD b none) block.instrs &&
    f.entriesHold heads block

/-- Whether the verifier has nothing against a function.  One with a reserved name has no body. -/
def Function.isVerified (m : Module) (f : Function) : Bool :=
  let heads := f.available
  (f.isDeclaration || !isReserved f.name) && (f.predecessors 0).isEmpty && f.availableHolds heads &&
    (f.blocks.toList.zipIdx.all fun (block, b) => f.blockIsVerified m heads b block)

/-- Whether the verifier has nothing against a module. -/
def Module.isVerified (m : Module) : Bool :=
  m.symbols.all fun s => match s with
    | .function f => f.isVerified m
    | .variable v => v.textInit.all (·.isAddressable m)

end Ssa

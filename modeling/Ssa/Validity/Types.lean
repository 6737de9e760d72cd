/-
# `Ssa.Validity.Types` — types as the assembly reader takes them

The assembly reader keeps of a pointer only its address space, so two types that differ in what
their pointers point to are one type to it.  It accepts fewer types than can be built, and asks of
some that they have a size.
-/
import Ssa.Program.Module

namespace Ssa.Ty

/-! ## Pointers without pointees -/

mutual

/-- A type whose pointers point to nothing in particular. -/
def erase : Ty → Ty
  | .pointer _ s => .pointer .void s
  | .array n t => .array n t.erase
  | .vector n t => .vector n t.erase
  | .struct p ts => .struct p (eraseAll ts)
  | .function r ps v => .function r.erase (eraseAll ps) v
  | t => t

/-- The types of a list, each without pointees. -/
def eraseAll : List Ty → List Ty
  | [] => []
  | t :: ts => t.erase :: eraseAll ts

end

/-- Whether two types are one to the assembly reader. -/
def agrees (t u : Ty) : Bool := decide (t.erase = u.erase)

/-! ## Sizes -/

mutual

/-- Whether a type has a size, given which named structures have one. -/
def sizedBy (named : String → Bool) : Ty → Bool
  | .int _ | .fp _ | .pointer .. => true
  | .array _ t | .vector _ t => t.sizedBy named
  | .struct _ ts => allSizedBy named ts
  | .named name => named name
  | .void | .label | .function .. => false

/-- Whether all types of a list have a size. -/
def allSizedBy (named : String → Bool) : List Ty → Bool
  | [] => true
  | t :: ts => t.sizedBy named && allSizedBy named ts

end

/-- Whether a named structure has a size, following names to a depth. -/
def namedSized (types : TypeTable) : (depth : Nat) → String → Bool
  | 0, _ => false
  | depth + 1, name =>
    match types.fields? name with
    | some ts => allSizedBy (namedSized types depth) ts
    | none => false

/-! ## Structures within structures -/

mutual

/-- Whether a type holds, other than by pointers, a named structure that is told of. -/
def holdsBy (named : String → Bool) : Ty → Bool
  | .array _ t | .vector _ t => t.holdsBy named
  | .struct _ ts => anyHoldsBy named ts
  | .named name => named name
  | _ => false

/-- Whether a type of a list holds a named structure that is told of. -/
def anyHoldsBy (named : String → Bool) : List Ty → Bool
  | [] => false
  | t :: ts => t.holdsBy named || anyHoldsBy named ts

end

/-- Whether a structure is another one or holds it, following names to a depth. -/
def leadsTo (types : TypeTable) (target : String) : (depth : Nat) → String → Bool
  | 0, name => name == target
  | depth + 1, name =>
    name == target || anyHoldsBy (leadsTo types target depth) ((types.fields? name).getD [])

/-- Whether a type has a size.  A structure that contains itself has none. -/
def isSized (types : TypeTable) (t : Ty) : Bool :=
  t.sizedBy (namedSized types types.length)

/-! ## Well-formed types -/

/-- The greatest width of integers. -/
def maxWidth : Nat := 0x800000

/-- How many address spaces there are. -/
def addressSpaces : Nat := 0x1000000

/-- Whether storage of a size can be accessed in one step: an octet, doubled any number of times. -/
def isAtomicWidth (w : Nat) : Bool := 8 ≤ w && w == Nat.pow 2 (Nat.log2 w)

/-- Whether a type may be the element of a vector. -/
def isVectorElement : Ty → Bool
  | .int _ | .fp _ | .pointer .. => true
  | _ => false

/-- Whether values of a type can be held by storage. -/
def isStorable : Ty → Bool
  | .void | .label | .function .. => false
  | _ => true

/-- Whether a type may be that of a parameter. -/
def isParameter (types : TypeTable) : Ty → Bool
  | .named name => (types.fields? name).isSome
  | t => t.isStorable

/-- Whether a type may be that of a result. -/
def isResult : Ty → Bool
  | .label | .function .. => false
  | _ => true

mutual

/-- Whether the assembly reader accepts a type. -/
def isWellFormed (types : TypeTable) : Ty → Bool
  | .void | .label | .fp _ => true
  | .named name => (types.find name).isSome
  | .int w => 1 ≤ w && w ≤ maxWidth
  | .pointer t s => s < addressSpaces && t != .void && t != .label && t.isWellFormed types
  | .array _ t => t.isStorable && t.isWellFormed types
  | .vector n t => 1 ≤ n && t.isVectorElement && t.isWellFormed types
  | .struct _ ts => ts.all isStorable && allWellFormed types ts
  | .function r ps _ =>
    r.isResult && r.isWellFormed types && ps.all (isParameter types) && allWellFormed types ps

/-- Whether the assembly reader accepts all types of a list. -/
def allWellFormed (types : TypeTable) : List Ty → Bool
  | [] => true
  | t :: ts => t.isWellFormed types && allWellFormed types ts

end

/-- Whether values of a type can be computed with. -/
def isFirstClass (types : TypeTable) (t : Ty) : Bool :=
  t.isParameter types && t.isWellFormed types

/-! ## Scalars and vectors of them -/

/-- How many elements a vector has. -/
def lanes? : Ty → Option Nat
  | .vector n _ => some n
  | _ => none

/-- How many digits a scalar that is no pointer has. -/
def digits? : Ty → Option Nat
  | .int w => some w
  | .fp p => some p.width
  | .vector n t => t.digits?.map (n * ·)
  | _ => none

/-- How many digits a scalar or a vector of them has; those of a pointer are the digits of its
address. -/
def accessDigits? : Ty → Option Nat
  | .pointer .. => some 64
  | .vector n t => t.accessDigits?.map (n * ·)
  | t => t.digits?

/-- Whether a vector has a single element. -/
def isSingleLane (t : Ty) : Bool := t.lanes? == some 1

/-- Whether a conversion goes from the first type to the second. -/
def canConvert (op : CastOp) (source target : Ty) : Bool :=
  let sameLanes := source.lanes? == target.lanes?
  match op, source.scalar, target.scalar with
  | .trunc, .int v, .int w => sameLanes && w < v
  | .zext, .int v, .int w | .sext, .int v, .int w => sameLanes && v < w
  | .fptrunc, .fp p, .fp q => sameLanes && q.width < p.width
  | .fpext, .fp p, .fp q => sameLanes && p.width < q.width
  | .fptoui, .fp _, .int _ | .fptosi, .fp _, .int _ => sameLanes
  | .uitofp, .int _, .fp _ | .sitofp, .int _, .fp _ => sameLanes
  | .ptrtoint, .pointer .., .int _ | .inttoptr, .int _, .pointer .. => sameLanes
  | .bitcast, .pointer _ s, .pointer _ r =>
    s == r && (sameLanes || (source.isPointer && target.isSingleLane) ||
      (source.isSingleLane && target.isPointer))
  | .bitcast, _, _ => source.digits?.isSome && source.digits? == target.digits?
  | .addrspacecast, .pointer _ s, .pointer _ r => sameLanes && s != r
  | _, _, _ => false

end Ssa.Ty

/-
# `Ssa.Exec.Value` — the values of a run

A value does not carry its type.  Integers of a width are kept as their unsigned reading, floating
point as an exact datum, and pointers as cells, functions, null, or integers that were made into
pointers.  A value from outside may be anything; bringing it to a type gives the representation
that the type asks for.
-/
import Ssa.Program.Constant
import Ssa.Number.Arith

namespace Ssa

/-- A value. -/
inductive Value where
  | null
  | int (n : Int)
  | truth (b : Bool)
  | real (x : Fp)
  /-- A cell of the memory. -/
  | cell (id : Nat)
  /-- The function at a position of the module that a number stands for. -/
  | function (owner index : Nat) (name : String) (type : Ty)
  | text (s : String)
  /-- The parts of an aggregate. -/
  | parts (vs : List Value)
deriving Repr, Inhabited

/-- A value that is a number. -/
inductive Number where
  | int (n : Int)
  | real (x : Fp)
deriving Repr, Inhabited

namespace Number

/-- The nearest double of a number. -/
def toFp : Number → Except Failure Fp
  | .int n => Constant.doubleOfInt n
  | .real x => .ok x

/-- The rational of a number; zero for what stands for none. -/
def toRat : Number → Rat
  | .int n => n
  | .real x => x.toRat

/-- Where a number stands: below all rationals, among them, or above. -/
def rank : Number → Int
  | .int _ => 0
  | .real x => x.rank

/-- Whether a number is not one. -/
def isNan : Number → Bool
  | .int _ => false
  | .real x => x.isNan

/-- Whether the first number is the lesser, by exact value. -/
def lessThan (a b : Number) : Bool :=
  !a.isNan && !b.isNan && (a.rank < b.rank || (a.rank == b.rank && decide (a.toRat < b.toRat)))

/-- Whether two numbers are equal, by exact value. -/
def equals (a b : Number) : Bool :=
  !a.isNan && !b.isNan && a.rank == b.rank && decide (a.toRat = b.toRat)

/-- Whether a number is zero. -/
def isZero (a : Number) : Bool := a.equals (.int 0)

/-- The value of a number. -/
def toValue : Number → Value
  | .int n => .int n
  | .real x => .real x

end Number

/-- The integer part of a datum of floating point. -/
def Fp.toInt : Fp → Except Failure Int
  | .nan .. => .error .nanToInteger
  | .infinity _ => .error .infinityToInteger
  | x => .ok (truncate x.toRat)

namespace Value

/-- The number that a value is.  The two truths are one and zero. -/
def number? : Value → Option Number
  | .int n => some (.int n)
  | .truth b => some (.int (if b then 1 else 0))
  | .real x => some (.real x)
  | _ => none

/-- The integer that a value is. -/
def int? : Value → Option Int
  | .int n => some n
  | .truth b => some (if b then 1 else 0)
  | _ => none

/-- The number that a value is, where a number is needed. -/
def number (v : Value) : Except Failure Number :=
  match v.number? with
  | some n => .ok n
  | none => .error .typeMismatch

/-- The nearest double of a value that is a number, unless the number is out of range. -/
def double? (v : Value) : Option Fp := v.number?.bind fun n => n.toFp.toOption

/-- Whether a value counts as true where a choice hangs on it. -/
def isTrue : Value → Bool
  | .null => false
  | .int n => n ≠ 0
  | .truth b => b
  | .real x => !x.isZero
  | .cell _ => true
  | .function .. => true
  | .text s => s ≠ ""
  | .parts vs => !vs.isEmpty

/-- Whether two values are the same thing.  Numbers are compared without regard to how they are
written down. -/
def equals (v w : Value) : Bool :=
  match v.number?, w.number? with
  | some a, some b => a.equals b
  | none, none =>
    match v, w with
    | .null, .null => true
    | .cell i, .cell j => i == j
    | .function m i .., .function n j .. => m == n && i == j
    | .text s, .text t => s == t
    | _, _ => false
  | _, _ => false

/-- Whether there is only one text like this: the empty one, and those of one octet. -/
def isShort (s : String) : Bool :=
  match s.toList with
  | [] => true
  | [c] => c.toNat < 0x100
  | _ => false

/-- Whether two values that were come by separately are one.  Floating point that was computed or
given twice is not one, whatever its digits, and neither are texts unless they are short.  A datum
does not say where it was computed: one that was stored once and loaded twice counts as two here. -/
def identical (v w : Value) : Bool :=
  match v, w with
  | .real _, _ | _, .real _ => false
  | .int a, .int b => a == b
  | .truth a, .truth b => a == b
  | .text s, .text t => s == t && isShort s
  | _, _ => if v.number?.isSome || w.number?.isSome then false else v.equals w

/-! ## Texts

Values are not looked at before they are added or multiplied, and texts can be: they are joined, and
written several times over. -/

/-- A text written a number of times over, if neither the number nor the length is beyond a word of
64 bits. -/
def writtenOver (s : String) (n : Int) : Except Failure Value :=
  if !Word.fitsSigned 64 n || (Word.count 63 : Int) ≤ s.length * n then .error .outOfRange
  else .ok (.text (String.join (List.replicate (if s = "" then 0 else n.toNat) s)))

/-- The sum of two values that are texts. -/
def joined? : Value → Value → Option (Except Failure Value)
  | .text s, .text t => some (.ok (.text (s ++ t)))
  | _, _ => none

/-- The product of two values of which one is a text and the other an integer. -/
def repeated? : Value → Value → Option (Except Failure Value)
  | .text s, w => w.int?.map (writtenOver s)
  | v, .text s => v.int?.map (writtenOver s)
  | _, _ => none

theorem eq_of_joined? {v w : Value} {r : Except Failure Value} (h : v.joined? w = some r) :
    ∃ s, r = .ok (.text s) := by
  unfold joined? at h
  split at h
  · cases h
    exact ⟨_, rfl⟩
  · cases h

theorem writtenOver_cases (s : String) (n : Int) :
    writtenOver s n = .error .outOfRange ∨ ∃ t, writtenOver s n = .ok (.text t) := by
  unfold writtenOver
  split
  · exact .inl rfl
  · exact .inr ⟨_, rfl⟩

theorem eq_of_repeated? {v w : Value} {r : Except Failure Value} (h : v.repeated? w = some r) :
    r = .error .outOfRange ∨ ∃ s, r = .ok (.text s) := by
  unfold repeated? at h
  split at h
  · obtain ⟨n, -, rfl⟩ := Option.map_eq_some_iff.mp h
    exact writtenOver_cases _ n
  · obtain ⟨n, -, rfl⟩ := Option.map_eq_some_iff.mp h
    exact writtenOver_cases _ n
  · cases h

/-! ## Bringing a value to a type -/

/-- The integer that a value stands for: the integer part of a number, or what a text writes. -/
def toInt : Value → Except Failure Int
  | .int n => .ok n
  | .truth b => .ok (if b then 1 else 0)
  | .real x => x.toInt
  | .text s => match Decimal.readInt? s with
    | some n => .ok n
    | none => .error .badValue
  | _ => .error .typeMismatch

/-- The double that a value stands for: the nearest one to a number, or what a text writes. -/
def toFp : Value → Except Failure Fp
  | .int n => Constant.doubleOfInt n
  | .truth b => .ok (Fp.ofRat false (if b then 1 else 0))
  | .real x => .ok x
  | .text s => match Decimal.readFp? s with
    | some x => .ok x
    | none => .error .badValue
  | _ => .error .typeMismatch

/-- The representation of a value in a type: integers are wrapped to their width, values of single
precision are rounded to it, and those of the other precisions are kept as doubles. -/
def normalize (t : Ty) (v : Value) : Except Failure Value :=
  match t with
  | .int w => v.toInt.map fun n => .int (Word.wrap w n)
  | .fp .single => v.toFp.map fun x => .real (Format.single.convert x)
  | .fp _ => v.toFp.map .real
  | _ => .ok v

/-- The value that storage of a type holds at first. -/
def zero : Ty → Value
  | .int _ => .int 0
  | .fp _ => .real (.zero false)
  | _ => .null

end Value

end Ssa

/-
# `Ssa.Exec.Layout` — how values lie in storage

Storage is made of octets.  A scalar takes the octets that its digits need, the last digits first; a
vector packs its lanes without gaps.  The elements of an array and the fields of a structure lie one
after another, each at a multiple of its alignment unless the structure is packed.

A value is written as octets and read back from them.  Octets that are missing read as zero, so the
zero of a layout is what is read from no octets at all.
-/
import Ssa.Exec.Value

namespace Ssa

/-- How values of a type lie in storage. -/
inductive Layout where
  | int (width : Nat)
  | fp (precision : Precision)
  | address
  | vector (count : Nat) (lane : Layout)
  | array (count : Nat) (element : Layout)
  | struct (packed : Bool) (fields : List Layout)
deriving Repr, Inhabited

/-- The least multiple of a number that is not below another. -/
def roundUp (n unit : Nat) : Nat := (n + unit - 1) / unit * unit

/-- The least power of two that is not below a number. -/
def powerAtLeast (n : Nat) : Nat := if n ≤ 1 then 1 else Word.count (Nat.log2 (n - 1) + 1)

namespace Layout

/-! ## The layout of a type -/

/-- The layout of what takes no storage. -/
def nothing : Layout := .struct false []

mutual

/-- The layout of a type, given those of the named structures. -/
def ofTypeBy (named : String → Layout) : Ty → Layout
  | .int w => .int w
  | .fp p => .fp p
  | .pointer .. => .address
  | .vector n t => .vector n (ofTypeBy named t)
  | .array n t => .array n (ofTypeBy named t)
  | .struct packed ts => .struct packed (ofTypesBy named ts)
  | .named name => named name
  | .void | .label | .function .. => nothing

/-- The layouts of a list of types. -/
def ofTypesBy (named : String → Layout) : List Ty → List Layout
  | [] => []
  | t :: ts => ofTypeBy named t :: ofTypesBy named ts

end

/-- The layout of a named structure, following names to a depth. -/
def ofNamed (types : TypeTable) : (depth : Nat) → String → Layout
  | 0, _ => nothing
  | depth + 1, name =>
    .struct false (ofTypesBy (ofNamed types depth) ((types.fields? name).getD []))

/-- The layout of a type.  A structure that holds no part of itself is no deeper than there are
names. -/
def ofType (types : TypeTable) (t : Ty) : Layout := ofTypeBy (ofNamed types types.length) t

/-! ## Sizes -/

/-- How many digits a scalar or vector has. -/
def digits : Layout → Nat
  | .int w => w
  | .fp p => p.width
  | .address => 64
  | .vector n l => n * l.digits
  | _ => 0

/-- How many octets hold the digits of a scalar or vector. -/
def octets (l : Layout) : Nat := (l.digits + 7) / 8

mutual

/-- The number of which the places of a layout are multiples.  That of integers has a bound. -/
def align : Layout → Nat
  | .int w => min 16 (powerAtLeast ((w + 7) / 8))
  | .fp p => p.width / 8
  | .address => 8
  | .vector n l => powerAtLeast (octets (.vector n l))
  | .array _ l => l.align
  | .struct true _ => 1
  | .struct false ls => alignAll ls

/-- The greatest alignment in a list. -/
def alignAll : List Layout → Nat
  | [] => 1
  | l :: ls => max l.align (alignAll ls)

end

/-- Where something comes to lie if all before a place is taken. -/
def placeFrom (packed : Bool) (start : Nat) (l : Layout) : Nat :=
  if packed then start else roundUp start l.align

mutual

/-- How far apart neighbouring values of a layout lie. -/
def size : Layout → Nat
  | .array n l => n * l.size
  | .struct true ls => endOf true 0 ls
  | .struct false ls => roundUp (endOf false 0 ls) (alignAll ls)
  | .int w => roundUp (octets (.int w)) (align (.int w))
  | .fp p => octets (.fp p)
  | .address => 8
  | .vector n l => roundUp (octets (.vector n l)) (align (.vector n l))

/-- Where the last of a list of fields ends. -/
def endOf (packed : Bool) (start : Nat) : List Layout → Nat
  | [] => start
  | l :: ls => endOf packed (placeFrom packed start l + l.size) ls

end

/-- Where a field of a list begins. -/
def fieldPlace (packed : Bool) (start : Nat) : List Layout → Nat → Nat
  | [], _ => start
  | l :: _, 0 => placeFrom packed start l
  | l :: ls, i + 1 => fieldPlace packed (placeFrom packed start l + l.size) ls i

/-- The layout of a part, and how far from the start of the whole it lies. -/
def part (l : Layout) (i : Int) : Layout × Int :=
  match l with
  | .array _ l | .vector _ l => (l, i * l.size)
  | .struct packed ls => (ls.getD i.toNat nothing, fieldPlace packed 0 ls i.toNat)
  | l => (l, 0)

/-! ## Digits -/

/-- The parts of an aggregate value. -/
def partsOf : Value → List Value
  | .parts vs => vs
  | _ => []

/-- The integer that a value is, zero for what is none. -/
def intOf (v : Value) : Int := v.int?.getD 0

/-- The digits of a scalar or vector value as one number.  The first lane has the last digits. -/
def toWord : Layout → Value → Nat
  | .int w, v => (Word.wrap w (intOf v)).toNat
  | .fp p, .real x => p.format.encode x
  | .address, v => (Word.wrap 64 (intOf v)).toNat
  | .vector _ l, v =>
    (partsOf v).foldr (fun x rest => rest * Word.count l.digits + l.toWord x) 0
  | _, _ => 0

/-- The scalar or vector value with the given digits. -/
def ofWord : Layout → Nat → Value
  | .int w, n => .int (Word.wrap w n)
  | .fp p, n => .real (p.format.decode (n % Word.count p.width))
  | .address, n => .int (Word.wrap 64 n)
  | .vector count l, n =>
    .parts ((List.range count).map fun i => l.ofWord (n / Word.count (i * l.digits)))
  | _, _ => .null

/-! ## Octets -/

/-- The given number of last octets of a number, the very last first. -/
def octetsOf : (count : Nat) → Nat → List UInt8
  | 0, _ => []
  | count + 1, n => n.toUInt8 :: octetsOf count (n / 256)

/-- The number that octets write, the last one first. -/
def ofOctets (bytes : List UInt8) : Nat := bytes.foldr (fun b n => n * 256 + b.toNat) 0

/-- A number of zero octets. -/
def gap (count : Nat) : List UInt8 := List.replicate count 0

/-- Octets with a gap after them, up to a length. -/
def padded (length : Nat) (bytes : List UInt8) : List UInt8 := bytes ++ gap (length - bytes.length)

mutual

/-- The octets of a value. -/
def encode : Layout → Value → List UInt8
  | .array n l, v => ((partsOf v).take n).flatMap fun x => padded l.size (l.encode x)
  | .struct packed ls, v => encodeFields packed 0 ls (partsOf v)
  | .int w, v => octetsOf (octets (.int w)) (toWord (.int w) v)
  | .fp p, v => octetsOf (octets (.fp p)) (toWord (.fp p) v)
  | .address, v => octetsOf 8 (toWord .address v)
  | .vector n l, v => octetsOf (octets (.vector n l)) (toWord (.vector n l) v)

/-- The octets of fields from a place on. -/
def encodeFields (packed : Bool) (start : Nat) : List Layout → List Value → List UInt8
  | l :: ls, v :: vs =>
    let place := placeFrom packed start l
    gap (place - start) ++ padded l.size (l.encode v) ++
      encodeFields packed (place + l.size) ls vs
  | _, _ => []

end

mutual

/-- The value that octets write. -/
def decode : Layout → List UInt8 → Value
  | .array n l, bytes => .parts ((List.range n).map fun i => l.decode (bytes.drop (i * l.size)))
  | .struct packed ls, bytes => .parts (decodeFields packed 0 ls bytes)
  | .int w, bytes => ofWord (.int w) (ofOctets (bytes.take (octets (.int w))))
  | .fp p, bytes => ofWord (.fp p) (ofOctets (bytes.take (octets (.fp p))))
  | .address, bytes => ofWord .address (ofOctets (bytes.take 8))
  | .vector n l, bytes =>
    ofWord (.vector n l) (ofOctets (bytes.take (octets (.vector n l))))

/-- The values of fields from a place on, which is where the octets begin. -/
def decodeFields (packed : Bool) (start : Nat) : List Layout → List UInt8 → List Value
  | [], _ => []
  | l :: ls, bytes =>
    let bytes := bytes.drop (placeFrom packed start l - start)
    l.decode bytes ::
      decodeFields packed (placeFrom packed start l + l.size) ls (bytes.drop l.size)

end

/-- The value whose octets are all zero. -/
def zero (l : Layout) : Value := l.decode []

/-- How many octets an access takes. -/
def accessSize : Layout → Nat
  | .array n l => (Layout.array n l).size
  | .struct packed ls => (Layout.struct packed ls).size
  | l => l.octets

end Layout

end Ssa

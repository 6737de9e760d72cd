/-
# `Ssa.Failure.Presentation` — how a datum is shown in a message

A gap of a message may say how what it stands for is to be shown: how wide, on which side of the
space, with which sign, in which notation.  A presentation is a row of such wishes, each of which
may be left out:

    [[fill]align][sign][z][#][0][width][separator][.precision][kind]

Not all wishes go together, and not all sorts of data can be shown in every way.
-/
import Ssa.Failure.Datum
import Ssa.Number.Rounded
import Ssa.Number.Arith

namespace Ssa

/-- The side of the space on which a datum is shown.  Between the sign and the digits there is space
too. -/
inductive Alignment where
  | left | right | middle | afterSign
deriving DecidableEq, Repr, Inhabited

/-- The alignment of a mark. -/
def Alignment.ofMark? (c : Char) : Option Alignment :=
  if c = '<' then some .left
  else if c = '>' then some .right
  else if c = '^' then some .middle
  else if c = '=' then some .afterSign
  else none

/-- How a datum is to be shown. -/
structure Presentation where
  fill : Char
  align : Alignment
  sign : Option Char
  /-- Whether a zero loses its sign. -/
  plainZero : Bool
  alternate : Bool
  width : Option Nat
  separator : Option Char
  precision : Option Nat
  kind : Option Char
deriving Repr, Inhabited

namespace Presentation

open Datum (Fault)

/-! ## Reading -/

/-- The greatest number that can be written where a number is read. -/
def maxNumber : Nat := 0x7fffffffffffffff

/-- The number that digits write, at the head of a text, and what follows it. -/
def takeNumber : (before : Nat) → List Char → Except Fault (Nat × List Char)
  | n, [] => .ok (n, [])
  | n, c :: rest =>
    match digitValue? c with
    | none => .ok (n, c :: rest)
    | some d =>
      if (maxNumber - d) / 10 < n then .error .malformed else takeNumber (n * 10 + d) rest

/-- A number at the head of a text, if there is one, and what follows it. -/
def takeNumber? (cs : List Char) : Except Fault (Option Nat × List Char) := do
  let (n, rest) ← takeNumber 0 cs
  pure (if rest.length = cs.length then none else some n, rest)

/-- The fill and the alignment at the head of a text, and what follows them. -/
def takeAlign (cs : List Char) : Option Char × Option Alignment × List Char :=
  let alone : Option Char × Option Alignment × List Char := match cs with
    | c :: rest => match Alignment.ofMark? c with
      | some a => (none, some a, rest)
      | none => (none, none, cs)
    | [] => (none, none, cs)
  match cs with
  | c :: mark :: rest => match Alignment.ofMark? mark with
    | some a => (some c, some a, rest)
    | none => alone
  | _ => alone

/-- A mark at the head of a text, if it is one of a list. -/
def takeMark (marks : List Char) (cs : List Char) : Option Char × List Char :=
  match cs with
  | c :: rest => if marks.contains c then (some c, rest) else (none, cs)
  | [] => (none, [])

/-- The marks that separate groups of digits, at the head of a text.  There is only one. -/
def takeSeparator (cs : List Char) : Except Fault (Option Char × List Char) :=
  match takeMark [',', '_'] cs with
  | (some c, rest) =>
    if rest.head? = some '_' || (c = '_' && rest.head? = some ',') then .error .malformed
    else .ok (some c, rest)
  | (none, _) => .ok (none, cs)

/-- The precision at the head of a text, which has to have digits. -/
def takePrecision (cs : List Char) : Except Fault (Option Nat × List Char) :=
  match cs with
  | '.' :: rest => do
    match ← takeNumber? rest with
    | (none, _) => throw .malformed
    | found => pure found
  | _ => .ok (none, cs)

/-- Whether a kind of number can have its digits in groups. -/
def canGroup (separator : Char) (kind : Option Char) : Bool :=
  kind.all fun k => "deEfFgG%".toList.contains k || (separator == '_' && "boxX".toList.contains k)

/-- The presentation that a text asks for, where data are aligned and are of a kind if nothing is
said. -/
def read (align : Alignment) (kind : Option Char) (s : String) : Except Fault Presentation := do
  let (fill, asked, cs) := takeAlign s.toList
  let (sign, cs) := takeMark [' ', '+', '-'] cs
  let (zero, cs) := takeMark ['z'] cs
  let (alternate, cs) := takeMark ['#'] cs
  let (padding, cs) := if fill.isNone then takeMark ['0'] cs else (none, cs)
  let usual := if padding.isSome && align = .right then .afterSign else align
  let (width, cs) ← takeNumber? cs
  let (separator, cs) ← takeSeparator cs
  let (precision, cs) ← takePrecision cs
  let kind ← match cs with
    | [] => pure kind
    | [k] => pure (some k)
    | _ => throw .malformed
  if !separator.all (canGroup · kind) then throw .malformed
  pure {
    fill := fill.getD (padding.getD ' ')
    align := asked.getD usual
    sign, plainZero := zero.isSome, alternate := alternate.isSome
    width, separator, precision, kind }

/-! ## Space -/

/-- A number of copies of the fill. -/
def filling (p : Presentation) (count : Nat) : List Char := List.replicate count p.fill

/-- A head and a body with the space around and between them. -/
def spaced (p : Presentation) (head body : List Char) : String :=
  let count := p.width.getD 0 - (head.length + body.length)
  String.ofList (match p.align with
    | .left => head ++ body ++ p.filling count
    | .right => p.filling count ++ head ++ body
    | .middle => p.filling (count / 2) ++ head ++ body ++ p.filling (count - count / 2)
    | .afterSign => head ++ p.filling count ++ body)

/-! ## Texts -/

/-- A text as a presentation asks for it. -/
def ofText (s spec : String) : Except Fault String := do
  let p ← read .left (some 's') spec
  if p.kind ≠ some 's' || p.sign.isSome || p.plainZero || p.alternate || p.align = .afterSign then
    throw .malformed
  let cs := s.toList
  pure (p.spaced [] (p.precision.elim cs cs.take))

/-! ## Numbers -/

/-- The parts of a number's text. -/
structure Parts where
  negative : Bool
  /-- What stands between the sign and the digits. -/
  base : List Char
  digits : List Char
  /-- What follows the digits before the point, the point included. -/
  rest : List Char

/-- Digits, the last one first, in groups from the last one on, with zeros up to a width.  A group
is never empty and never ends in a separator. -/
def group (size : Nat) (separator : Char) : (groups : Nat) → List Char → (width : Int) → List Char
  | 0, digits, _ => digits
  | groups + 1, digits, width =>
    let wanted := max (max (digits.length : Int) width) 1
    let length := min size wanted.toNat
    let here := digits.take length ++ List.replicate (length - digits.length) '0'
    let left := digits.drop length
    if left.isEmpty && width ≤ length then here
    else here ++ separator :: group size separator groups left (width - length - 1)

/-- The digits of a number in groups, with zeros up to a width. -/
def groupedDigits (p : Presentation) (digits : List Char) (width : Int) : List Char :=
  if digits.isEmpty then []
  else match p.separator with
    | none => List.replicate (width - digits.length).toNat '0' ++ digits
    | some c =>
      let size := if p.kind.any fun k => "boxX".toList.contains k then 4 else 3
      (group size c (digits.length + width.toNat) digits.reverse width).reverse

/-- The sign that is shown. -/
def signOf (p : Presentation) (negative : Bool) : List Char :=
  if negative then ['-']
  else match p.sign with
    | some '+' => ['+']
    | some ' ' => [' ']
    | _ => []

/-- A number as a presentation asks for it.  Zeros that fill the space before the digits are digits
themselves. -/
def compose (p : Presentation) (n : Parts) : String :=
  let head := p.signOf n.negative ++ n.base
  let least : Int := if p.fill = '0' && p.align = .afterSign then
      (p.width.elim (-1 : Int) fun w => w) - (head.length + n.rest.length : Nat)
    else 0
  p.spaced head (p.groupedDigits n.digits least ++ n.rest)

/-- A text in capitals of the first alphabet. -/
def capitals (cs : List Char) : List Char := cs.map Char.toUpper

/-- The character of a number. -/
def charOf (n : Int) : Except Fault Char :=
  if 0 ≤ n && n ≤ 0x10ffff then .ok (Char.ofNat n.toNat) else .error .tooLarge

/-- The parts of an integer in a base. -/
def inBase (p : Presentation) (base : Nat) (mark : List Char) (n : Int) : Parts :=
  ⟨decide (n < 0), if p.alternate then mark else [], Nat.toDigits base n.natAbs, []⟩

/-- An integer as a presentation of integers asks for it. -/
def ofWhole (p : Presentation) (k : Char) (n : Int) : Except Fault String := do
  if p.precision.isSome || p.plainZero then throw .malformed
  match k with
  | 'c' => do
    if p.sign.isSome || p.alternate then throw .malformed
    pure (p.compose ⟨false, [], [], [← charOf n]⟩)
  | 'b' => pure (p.compose (p.inBase 2 ['0', 'b'] n))
  | 'o' => pure (p.compose (p.inBase 8 ['0', 'o'] n))
  | 'x' => pure (p.compose (p.inBase 16 ['0', 'x'] n))
  | 'X' =>
    let parts := p.inBase 16 ['0', 'X'] n
    pure (p.compose { parts with digits := capitals parts.digits })
  | _ => pure (p.compose (p.inBase 10 [] n))

/-- The style that a kind stands for. -/
def styleOf : Option Char → Decimal.Style
  | none => .fewest
  | some k =>
    if "eE".toList.contains k then .scientific
    else if "fF%".toList.contains k then .fixed
    else .general

/-- The notation that a presentation asks for.  If a number of digits is asked for and no kind, a
digit after the point is shown still. -/
def notationOf (p : Presentation) : Decimal.Notation :=
  let style := if p.kind.isNone && p.precision.isSome then .general else styleOf p.kind
  ⟨style, p.precision.getD 6, p.kind.isNone, p.alternate⟩

/-- A floating-point number as a presentation asks for it. -/
def ofReal (p : Presentation) (x : Fp) : String :=
  let hundredfold := p.kind = some '%'
  let x := if hundredfold then x.mul (Fp.ofRat false 100) else x
  let form := p.notationOf
  let text := form.unsignedText x
  let text := if p.kind.any fun k => "EFG".toList.contains k then capitals text else text
  let text := if hundredfold then text ++ ['%'] else text
  let negative := x.isNegative && !x.isNan && !(p.plainZero && form.showsZero x)
  p.compose ⟨negative, [], text.takeWhile Char.isDigit, text.dropWhile Char.isDigit⟩

/-- The kinds of presentation for integers. -/
def wholeKinds : List Char := "bcdoxXn".toList

/-- The kinds of presentation for floating point. -/
def realKinds : List Char := "eEfFgGn%".toList

/-- An integer as a presentation asks for it, which may be one of floating point. -/
def ofInt (n : Int) (spec : String) : Except Fault String := do
  let p ← read .right (some 'd') spec
  let k := p.kind.getD 'd'
  if wholeKinds.contains k then ofWhole p k n
  else if realKinds.contains k then
    match Format.double.round false n with
    | .infinity _ => throw .tooLarge
    | x => pure (ofReal p x)
  else throw .malformed

/-- A floating-point number as a presentation asks for it. -/
def ofFp (x : Fp) (spec : String) : Except Fault String := do
  let p ← read .right none spec
  if p.kind.all realKinds.contains then pure (ofReal p x) else throw .malformed

end Presentation

/-- A datum as a presentation asks for it.  What is no text and no number can only be shown as it
is. -/
def Datum.present (d : Datum) (spec : String) : Except Datum.Fault String :=
  if spec = "" then .ok d.shown
  else match d with
    | .text s => Presentation.ofText s spec
    | .int n => Presentation.ofInt n spec
    | .truth b => Presentation.ofInt (if b then 1 else 0) spec
    | .real x => Presentation.ofFp x spec
    | _ => .error .unfit

end Ssa

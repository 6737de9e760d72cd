/-
# `Ssa.Text.Quoted` — names and texts between quotation marks

Two ways of writing a text so that it can be told apart from what stands around it.
A *name* of the assembly language stands between double quotes; inside, the backslash and the
double quote are written as a backslash and two hexadecimal digits, and all else stands for
itself.  A *displayed* text is meant for a human reader: it is quoted by whichever mark needs no
escape, and characters that cannot be seen are written by number.
-/
import Ssa.Text.Printable

namespace Ssa

/-! ## Names of the assembly language -/

/-- The two characters that a name cannot hold as they are. -/
def escapeNameChar (c : Char) : List Char :=
  if c = '\\' then ['\\', '5', 'c']
  else if c = '"' then ['\\', '2', '2']
  else [c]

/-- A name with its backslashes and double quotes written by number. -/
def escapeName (s : String) : String :=
  String.ofList (s.toList.flatMap escapeNameChar)

/-- A name as the assembly language writes it, marks included. -/
def quoteName (s : String) : String :=
  "\"" ++ escapeName s ++ "\""

/-! ## Displayed texts -/

/-- The hexadecimal digits of a number, most significant first, padded with zeros to a width. -/
def hexPadded (width n : Nat) : String :=
  let digits := Nat.toDigits 16 n
  String.ofList (List.replicate (width - digits.length) '0' ++ digits)

/-- The mark that surrounds a displayed text: the single quote, unless the text holds one and
holds no double quote. -/
def displayMark (s : String) : Char :=
  if s.toList.contains '\'' && !s.toList.contains '"' then '"' else '\''

/-- How a displayed text shows one of its characters. -/
def displayChar (mark c : Char) : String :=
  if c = '\\' then "\\\\"
  else if c = mark then String.ofList ['\\', c]
  else if c = '\n' then "\\n"
  else if c = '\r' then "\\r"
  else if c = '\t' then "\\t"
  else if isPrintable c then String.singleton c
  else if c.toNat < 0x100 then "\\x" ++ hexPadded 2 c.toNat
  else if c.toNat < 0x10000 then "\\u" ++ hexPadded 4 c.toNat
  else "\\U" ++ hexPadded 8 c.toNat

/-- A text as it is displayed inside other text, marks included. -/
def display (s : String) : String :=
  let mark := displayMark s
  let body := String.join (s.toList.map (displayChar mark))
  String.singleton mark ++ body ++ String.singleton mark

end Ssa

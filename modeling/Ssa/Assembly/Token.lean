/-
# `Ssa.Assembly.Token` — the words of the assembly language

A text is cut into names of values and symbols, labels, numbers, words and single marks; blanks and
remarks lie between them.  A name between quotation marks is the text with its escapes undone.
-/
import Ssa.Text.Blank
import Ssa.Program.Render

namespace Ssa.Assembly

/-- What a value, block or symbol is called: by a name or by a number. -/
inductive Name where
  | named (s : String)
  | numbered (n : Nat)
deriving DecidableEq, Repr, Inhabited

/-- A word of the assembly language. -/
inductive Token where
  | word (s : String)
  | value (n : Name)
  | symbol (n : Name)
  | label (n : Name)
  | integer (v : Int)
  | decimal (v : Rat)
  | hexDigits (n : Nat)
  | quoted (s : String)
  | mark (c : Char)
deriving DecidableEq, Repr, Inhabited

namespace Token

/-- The value of a hexadecimal digit. -/
def hexValue? (c : Char) : Option Nat :=
  if c.isDigit then some (c.toNat - 48)
  else if 'a' ≤ c && c ≤ 'f' then some (c.toNat - 87)
  else if 'A' ≤ c && c ≤ 'F' then some (c.toNat - 55)
  else none

/-- A quoted text with its escapes undone. -/
def unescape : List Char → List Char
  | '\\' :: '\\' :: rest => '\\' :: unescape rest
  | '\\' :: a :: b :: rest =>
    match hexValue? a, hexValue? b with
    | some x, some y => Char.ofNat (x * 16 + y) :: unescape rest
    | _, _ => '\\' :: unescape (a :: b :: rest)
  | c :: rest => c :: unescape rest
  | [] => []

/-- The text up to a closing quotation mark, and what follows the mark. -/
def takeQuoted : List Char → Option (List Char × List Char)
  | [] => none
  | '"' :: rest => some ([], rest)
  | c :: rest => (takeQuoted rest).map fun (s, r) => (c :: s, r)

/-- Whether a character may stand in a word. -/
def isWordChar (c : Char) : Bool := isLabelChar c || c.isDigit

/-- A name after its sign. -/
def takeName (cs : List Char) : Option (Name × List Char) :=
  match cs with
  | '"' :: rest => (takeQuoted rest).map fun (s, r) => (.named (String.ofList (unescape s)), r)
  | _ =>
    let word := cs.takeWhile isWordChar
    let rest := cs.dropWhile isWordChar
    if word.isEmpty then none
    else if word.all Char.isDigit then some (.numbered (Decimal.ofDigits word), rest)
    else some (.named (String.ofList word), rest)

/-- The number that hexadecimal digits write. -/
def ofHexDigits? (cs : List Char) : Option Nat :=
  if cs.isEmpty then none
  else cs.foldlM (fun n c => (hexValue? c).map (n * 16 + ·)) 0

/-- The token of a word that begins like a number. -/
def ofNumber? (word : List Char) : Option Token :=
  match word with
  | '0' :: 'x' :: rest => (ofHexDigits? rest).map .hexDigits
  | _ =>
    let (negative, digits) := Decimal.takeSign word
    if !digits.isEmpty && digits.all Char.isDigit then
      let n : Int := Decimal.ofDigits digits
      some (.integer (if negative then -n else n))
    else if digits.head?.any Char.isDigit && digits.contains '.' then
      (Decimal.readMagnitude? digits).map fun q => .decimal (if negative then -q else q)
    else none

/-- The token of a word. -/
def ofWord (word : List Char) : Token := (ofNumber? word).getD (.word (String.ofList word))

/-- The name that a word is as a label. -/
def labelName (word : List Char) : Name :=
  if word.all Char.isDigit then .numbered (Decimal.ofDigits word)
  else .named (String.ofList word)

/-- A word or label at the head of a text, and what follows it.  A number may have a sign in its
exponent. -/
def takeWord (cs : List Char) : Token × List Char :=
  let word := cs.takeWhile isWordChar
  let rest := cs.dropWhile isWordChar
  match rest with
  | ':' :: rest => (.label (labelName word), rest)
  | '+' :: more =>
    if word.getLast? = some 'e' && word.contains '.' then
      (ofWord (word ++ '+' :: more.takeWhile Char.isDigit), more.dropWhile Char.isDigit)
    else (ofWord word, rest)
  | _ => (ofWord word, rest)

/-- A number after a plus sign, which has to have a point, and what follows it. -/
def takePositive (cs : List Char) : Option (Token × List Char) :=
  match takeWord cs with
  | (.decimal q, rest) => if 0 ≤ q then some (.decimal q, rest) else none
  | _ => none

/-- The first token of a text that begins with one, and what follows it. -/
def take : List Char → Option (Token × List Char)
  | '%' :: rest => (takeName rest).map fun (n, r) => (.value n, r)
  | '@' :: rest => (takeName rest).map fun (n, r) => (.symbol n, r)
  | '"' :: rest =>
    (takeQuoted rest).map fun (s, r) => match r with
      | ':' :: r => (.label (.named (String.ofList (unescape s))), r)
      | r => (.quoted (String.ofList (unescape s)), r)
  | '+' :: rest => takePositive rest
  | c :: rest =>
    if isWordChar c then some (takeWord (c :: rest))
    else if "()[]\x7b\x7d<>,=*".toList.contains c then some (.mark c, rest)
    else none
  | [] => none

/-- The characters that separate words. -/
def isSeparator (c : Char) : Bool := c == ' ' || c == '\t' || c == '\n' || c == '\x0d'

/-- The end of a remark. -/
def isLineEnd (c : Char) : Bool := c == '\n' || c == '\x0d'

/-- What follows a remark between marks.  A star takes the character after it along, whether or not
that ends the remark. -/
def skipEnclosed : List Char → Option (List Char)
  | '*' :: '/' :: rest => some rest
  | '*' :: _ :: rest => skipEnclosed rest
  | _ :: rest => skipEnclosed rest
  | [] => none

/-- The tokens of a text.  As many steps suffice as the text has characters. -/
def readChars : (steps : Nat) → List Char → Option (List Token)
  | _, [] => some []
  | 0, _ => none
  | steps + 1, c :: rest =>
    if isSeparator c then readChars steps rest
    else if c = ';' then readChars steps (rest.dropWhile fun c => !isLineEnd c)
    else if c = '/' then
      match rest with
      | '*' :: rest => (skipEnclosed rest).bind (readChars steps)
      | _ => none
    else
      match take (c :: rest) with
      | none => none
      | some (t, rest) => (readChars steps rest).map (t :: ·)

/-- The tokens of a text, which ends before the character of number zero. -/
def read (s : String) : Option (List Token) :=
  readChars s.length (s.toList.takeWhile (· != '\x00'))

end Token

end Ssa.Assembly

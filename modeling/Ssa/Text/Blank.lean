/-
# `Ssa.Text.Blank` — white space around a text

White space is what Unicode gives the bidirectional class of a separator or the general category
of a space, the control characters of the ASCII row included.  A text is *trimmed* by dropping it
at both ends.
-/

namespace Ssa

/-- The characters that count as white space. -/
def isBlank (c : Char) : Bool :=
  let n := c.toNat
  (9 ≤ n && n ≤ 13) || (28 ≤ n && n ≤ 32) || n == 0x85 || n == 0xa0 || n == 0x1680 ||
    (0x2000 ≤ n && n ≤ 0x200a) || n == 0x2028 || n == 0x2029 || n == 0x202f ||
    n == 0x205f || n == 0x3000

/-- The white space that may surround a number: without the control characters that separate
records. -/
def isNumberBlank (c : Char) : Bool := isBlank c && !(28 ≤ c.toNat && c.toNat ≤ 31)

/-- What is left of a list of characters after the white space at its end. -/
def dropBlankEnd (cs : List Char) : List Char :=
  (cs.reverse.dropWhile isBlank).reverse

/-- A text without the white space at its end. -/
def trimEnd (s : String) : String :=
  String.ofList (dropBlankEnd s.toList)

/-- The characters of a text between the white space that may surround a number. -/
def numberChars (s : String) : List Char :=
  ((s.toList.dropWhile isNumberBlank).reverse.dropWhile isNumberBlank).reverse

/-- A text without the white space at both its ends. -/
def trim (s : String) : String :=
  String.ofList (dropBlankEnd (s.toList.dropWhile isBlank))

end Ssa

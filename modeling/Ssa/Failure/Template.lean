/-
# `Ssa.Failure.Template` — texts with named gaps

A template is text in which a name between braces stands for a value; a doubled brace stands for
the brace itself.  The name may lead on to a part of the value, and after it may stand how the value
is to be converted and presented.  A presentation may have gaps of its own.

Filling a template is a single pass: what is put into a gap is not read again, values without a gap
have no effect, and the first gap that cannot be filled is reported.
-/
import Ssa.Failure.Presentation

namespace Ssa

open Datum (Fault)

/-- A part of a template. -/
inductive Template.Piece where
  | plain (c : Char)
  /-- A gap: what it stands for, a conversion, and a presentation, which may have gaps. -/
  | gap (path : List Char) (conversion : Option Char) (spec : List Char)
  /-- A gap that is not closed, or a brace without its partner. -/
  | malformed
deriving DecidableEq, Repr

/-- A template, as the list of its parts. -/
abbrev Template := List Template.Piece

namespace Template

/-! ## Reading -/

/-- The path at the head of a gap, the mark that ends it, and what follows.  Between square brackets
no mark ends it. -/
def takePath : (bracketed : Bool) → List Char → Option (List Char × Char × List Char)
  | _, [] => none
  | true, c :: rest => (takePath (c != ']') rest).map fun (path, r) => (c :: path, r)
  | false, c :: rest =>
    if c = '\x7b' then none
    else if c = '\x7d' || c = ':' || c = '!' then some ([], c, rest)
    else (takePath (c == '[') rest).map fun (path, r) => (c :: path, r)

/-- The presentation up to the brace that closes the gap, and what follows that.  Braces inside it
are counted. -/
def takeSpec : (depth : Nat) → List Char → Option (List Char × List Char)
  | _, [] => none
  | depth, c :: rest =>
    if c = '\x7d' then
      match depth with
      | 0 => some ([], rest)
      | depth + 1 => (takeSpec depth rest).map fun (spec, r) => (c :: spec, r)
    else if c = '\x7b' then (takeSpec (depth + 1) rest).map fun (spec, r) => (c :: spec, r)
    else (takeSpec depth rest).map fun (spec, r) => (c :: spec, r)

/-- What may follow a conversion: the end of the gap, or a presentation. -/
def takeAfterConversion (path : List Char) (conversion : Char) :
    List Char → Option (Piece × List Char)
  | '\x7d' :: rest => some (.gap path (some conversion) [], rest)
  | ':' :: rest => (takeSpec 0 rest).map fun (spec, r) => (.gap path (some conversion) spec, r)
  | _ => none

/-- A gap after its opening brace, and what follows it. -/
def takeGap (cs : List Char) : Option (Piece × List Char) :=
  match takePath false cs with
  | none => none
  | some (path, ':', rest) => (takeSpec 0 rest).map fun (spec, r) => (.gap path none spec, r)
  | some (path, '!', c :: rest) => takeAfterConversion path c rest
  | some (_, '!', []) => none
  | some (path, _, rest) => some (.gap path none [], rest)

/-- Read a template.  As many steps suffice as the text has characters. -/
def readChars : (steps : Nat) → List Char → Template
  | 0, _ => []
  | _, [] => []
  | steps + 1, c :: rest =>
    if c = '\x7b' || c = '\x7d' then
      if rest.head? = some c then .plain c :: readChars steps (rest.drop 1)
      else if c = '\x7d' then [.malformed]
      else
        match takeGap rest with
        | some (gap, rest) => gap :: readChars steps rest
        | none => [.malformed]
    else .plain c :: readChars steps rest

/-- The template that characters write. -/
def ofChars (cs : List Char) : Template := readChars cs.length cs

/-- The template that a text writes. -/
def read (s : String) : Template := ofChars s.toList

/-! ## Paths -/

/-- The position that digits write, unless the characters are no digits. -/
def position? (cs : List Char) : Except Fault (Option Nat) := do
  match ← Presentation.takeNumber? cs with
  | (n, []) => pure n
  | _ => pure none

/-- The part of a value by a name or a key. -/
def partIn (d : Datum) (key : List Char) : Except Fault Datum := do
  match ← position? key with
  | some i => if key.isEmpty then throw .malformed else d.partAt i
  | none => if key.isEmpty then throw .malformed else d.partUnder (String.ofList key)

/-- Follow what is left of a path.  As many steps suffice as it has characters. -/
def follow : (steps : Nat) → Datum → List Char → Except Fault Datum
  | _, d, [] => .ok d
  | 0, _, _ => .error .malformed
  | steps + 1, d, c :: rest =>
    if c = '.' then do
      let name := rest.takeWhile fun c => c != '.' && c != '['
      if name.isEmpty then throw .malformed
      let part ← d.partNamed (String.ofList name)
      follow steps part (rest.drop name.length)
    else if c = '[' then do
      let key := rest.takeWhile (· != ']')
      match rest.drop key.length with
      | [] => throw .malformed
      | _ :: rest => do
        let part ← partIn d key
        follow steps part rest
    else .error .malformed

/-- The value that a path leads to.  There are no values without names. -/
def find (values : List (String × Datum)) (path : List Char) : Except Fault Datum := do
  let name := path.takeWhile fun c => c != '.' && c != '['
  let byPosition := (← position? name).isSome
  if name.isEmpty || byPosition then throw .beyondEnd
  match values.lookup (String.ofList name) with
  | none => throw (.missing (String.ofList name))
  | some d => follow path.length d (path.drop name.length)

/-! ## Filling -/

/-- A value converted to a text, if that is asked for. -/
def convert (conversion : Option Char) (d : Datum) : Except Fault Datum :=
  match conversion with
  | none => .ok d
  | some 's' => .ok (.text d.shown)
  | some 'r' => .ok (.text d.display)
  | some 'a' => .ok (.text d.displayPlain)
  | some _ => .error .malformed

/-- The texts of parts one after another. -/
def join (fillPiece : Piece → Except Fault String) : Template → Except Fault String
  | [] => .ok ""
  | p :: rest => do
    let s ← fillPiece p
    let t ← join fillPiece rest
    pure (s ++ t)

/-- The text that a part becomes, given the values and a way of filling presentations. -/
def Piece.fill (values : List (String × Datum)) (fillSpec : List Char → Except Fault String) :
    Piece → Except Fault String
  | .plain c => .ok (String.singleton c)
  | .malformed => .error .malformed
  | .gap path conversion spec => do
    let d ← find values path
    let d ← convert conversion d
    let spec ← if spec.contains '\x7b' then fillSpec spec else pure (String.ofList spec)
    d.present spec

/-- The text that characters become.  Gaps are nested to a depth at most. -/
def fillChars (values : List (String × Datum)) : (depth : Nat) → List Char → Except Fault String
  | 0, _ => .error .malformed
  | depth + 1, cs => join (Piece.fill values (fillChars values depth)) (ofChars cs)

/-- The text that a text with gaps becomes. -/
def fill (values : List (String × Datum)) (s : String) : Except Fault String :=
  fillChars values 2 s.toList

end Template

end Ssa

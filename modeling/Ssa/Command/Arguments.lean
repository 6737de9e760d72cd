/-
# `Ssa.Command.Arguments` — reading the arguments of a command

Arguments are options and plain words.  An option may be given by the beginning of its long name
if no other option begins like that, its value may follow an equals sign, and options of one letter
may be written together.  After a double hyphen every argument is a plain word.  Arguments are read
from left to right; a call for help ends the reading at once, unless an argument anywhere begins
several options: what every argument is is settled before the first of them is taken.
-/
import Ssa.Text.Digit
import Ssa.Text.Ends

namespace Ssa.Command

/-- An option: its names, and whether a value goes with it. -/
structure OptionForm where
  names : List String
  takesValue : Bool
  /-- The values that are accepted, if not all are. -/
  choices : Option (List String)
deriving Repr, Inhabited

/-- The option that calls for help. -/
def helpForm : OptionForm := ⟨["-h", "--help"], false, none⟩

/-- What a command takes: its options, and how many plain words. -/
structure Grammar where
  options : List OptionForm
  words : Nat
deriving Repr, Inhabited

/-- Why reading ended without a command to carry out. -/
inductive Ending where
  | usage
  | help
deriving DecidableEq, Repr

/-- What an argument is. -/
inductive Piece where
  | word (s : String)
  /-- The double hyphen. -/
  | hyphens
  | option (form : OptionForm) (name : String) (value : Option String)
  /-- The beginning of several options. -/
  | ambiguous
  | unknown
deriving Repr, Inhabited

/-! ## Recognizing options -/

/-- All names of options, with the options. -/
def Grammar.names (g : Grammar) : List (String × OptionForm) :=
  (helpForm :: g.options).flatMap fun o => o.names.map fun n => (n, o)

/-- A text divided at its first equals sign. -/
def divideEquals (s : String) : Option (String × String) :=
  let cs := s.toList
  match cs.dropWhile (· != '=') with
  | [] => none
  | _ :: value => some (String.ofList (cs.takeWhile (· != '=')), String.ofList value)

/-- The options that a text with two hyphens begins. -/
def longMatches (g : Grammar) (s : String) : List Piece :=
  let (start, value) := match divideEquals s with
    | some (n, v) => (n, some v)
    | none => (s, none)
  (g.names.filter fun e => begins start e.1).map fun e => .option e.2 e.1 value

/-- The options that a text with one hyphen begins, or that its first letter names. -/
def shortMatches (g : Grammar) (s : String) : List Piece :=
  let letter := String.ofList (s.toList.take 2)
  let rest := String.ofList (s.toList.drop 2)
  g.names.filterMap fun e =>
    if e.1 = letter then some (.option e.2 e.1 (some rest))
    else if begins s e.1 then some (.option e.2 e.1 none)
    else none

/-- Whether a character is a digit of some script. -/
def isDigit (c : Char) : Bool := (digitValue? c).isSome

/-- A text without a line break at its end. -/
def withoutBreak (cs : List Char) : List Char :=
  if cs.getLast? = some '\n' then cs.dropLast else cs

/-- Whether a text looks like a negative number.  A line break may end it. -/
def looksNegative (s : String) : Bool :=
  match withoutBreak s.toList with
  | '-' :: cs =>
    let whole := cs.takeWhile isDigit
    match cs.dropWhile isDigit with
    | [] => !whole.isEmpty
    | '.' :: fraction => !fraction.isEmpty && fraction.all isDigit
    | _ => false
  | _ => false

/-- The option that a text stands for by a beginning. -/
def recognizeStart (g : Grammar) (s : String) : Piece :=
  match if begins "--" s then longMatches g s else shortMatches g s with
  | [p] => p
  | _ :: _ :: _ => .ambiguous
  | [] => if looksNegative s || s.toList.contains ' ' then .word s else .unknown

/-- What an argument before the double hyphen is. -/
def recognize (g : Grammar) (s : String) : Piece :=
  if s = "--" then .hyphens
  else if !begins "-" s || s = "-" then .word s
  else
    match g.names.lookup s with
    | some form => .option form s none
    | none =>
      match (divideEquals s).bind fun (n, v) => (g.names.lookup n).map fun f => (f, n, v) with
      | some (form, name, value) => .option form name (some value)
      | none => recognizeStart g s

/-- What the arguments are. -/
def recognizeAll (g : Grammar) : List String → List Piece
  | [] => []
  | s :: rest =>
    match recognize g s with
    | .hyphens => .hyphens :: rest.map .word
    | p => p :: recognizeAll g rest

/-- Whether an argument begins several options. -/
def anyAmbiguous (g : Grammar) (args : List String) : Bool :=
  (recognizeAll g args).any fun
    | .ambiguous => true
    | _ => false

/-! ## Reading -/

/-- What has been read: options with their values, plain words, and whether there was more than is
taken. -/
structure Reading where
  options : List (OptionForm × Option String)
  words : List String
  surplus : Bool
deriving Repr, Inhabited

/-- Whether an option has been given. -/
def Reading.has (r : Reading) (name : String) : Bool :=
  r.options.any fun e => e.1.names.contains name

/-- The value that was given last for an option. -/
def Reading.value? (r : Reading) (name : String) : Option String :=
  (r.options.reverse.find? fun e => e.1.names.contains name).bind Prod.snd

/-- Take an option without a value. -/
def Reading.mark (r : Reading) (form : OptionForm) : Except Ending Reading :=
  if form.names = helpForm.names then .error .help
  else .ok { r with options := r.options ++ [(form, none)] }

/-- Take an option with a value. -/
def Reading.assign (r : Reading) (form : OptionForm) (value : String) : Except Ending Reading :=
  if form.choices.all (·.contains value) then
    .ok { r with options := r.options ++ [(form, some value)] }
  else .error .usage

/-- The options of one letter that are written together, the last with its value if it has one.
Nothing is taken unless all of them are options. -/
def together (g : Grammar) : List Char → Option (List (OptionForm × Option String))
  | [] => some []
  | c :: cs =>
    match g.names.lookup (String.ofList ['-', c]) with
    | none => none
    | some form =>
      if !form.takesValue then (together g cs).map ((form, none) :: ·)
      else if cs.isEmpty then none
      else some [(form, some (String.ofList cs))]

/-- Take options in order. -/
def Reading.takeAll (r : Reading) : List (OptionForm × Option String) → Except Ending Reading
  | [] => .ok r
  | (form, none) :: rest => r.mark form >>= fun r => r.takeAll rest
  | (form, some v) :: rest => r.assign form v >>= fun r => r.takeAll rest

/-- Take an option that stands with a text of its own. -/
def Reading.takeJoined (g : Grammar) (r : Reading) (form : OptionForm) (name value : String) :
    Except Ending Reading :=
  if form.takesValue then r.assign form value
  else if begins "--" name || value = "" then .error .usage
  else
    match together g value.toList with
    | some more => r.takeAll ((form, none) :: more)
    | none => .error .usage

/-- Read pieces.  Plain words are taken as long as the grammar has room for them; the double hyphen
goes with a word that is taken before or after it. -/
def readPieces (g : Grammar) : List Piece → Reading → Except Ending Reading
  | [], r => if r.words.length < g.words then .error .usage else .ok r
  | .ambiguous :: _, _ => .error .usage
  | .unknown :: rest, r => readPieces g rest { r with surplus := true }
  | .word s :: .hyphens :: rest, r =>
    if r.words.length < g.words then readPieces g rest { r with words := r.words ++ [s] }
    else readPieces g rest { r with surplus := true }
  | .word s :: rest, r =>
    if r.words.length < g.words then readPieces g rest { r with words := r.words ++ [s] }
    else readPieces g rest { r with surplus := true }
  | .hyphens :: rest, r =>
    if r.words.length < g.words then readPieces g rest r
    else readPieces g rest { r with surplus := true }
  | .option form name (some value) :: rest, r => do
    readPieces g rest (← r.takeJoined g form name value)
  | .option form _ none :: .word s :: rest, r =>
    if form.takesValue then do readPieces g rest (← r.assign form s)
    else do readPieces g (.word s :: rest) (← r.mark form)
  | .option form _ none :: rest, r =>
    if form.takesValue then .error .usage
    else do readPieces g rest (← r.mark form)

/-- Read arguments. -/
def read (g : Grammar) (args : List String) : Except Ending Reading :=
  if anyAmbiguous g args then .error .usage
  else readPieces g (recognizeAll g args) ⟨[], [], false⟩

/-! ## Commands of commands -/

/-- Take the options before the first plain word; the answer has that word and the arguments after
it.  A double hyphen here is no word. -/
def takeHead (g : Grammar) : List String → Reading → Except Ending (Reading × String × List String)
  | [], _ => .error .usage
  | s :: rest, r =>
    match recognize g s with
    | .word s => .ok (r, s, rest)
    | .hyphens | .ambiguous => .error .usage
    | .unknown => takeHead g rest { r with surplus := true }
    | .option form name (some value) => do takeHead g rest (← r.takeJoined g form name value)
    | .option form _ none => do
      if form.takesValue then .error .usage else takeHead g rest (← r.mark form)

/-- Read the options before the first plain word.  All arguments are looked at first, those after
that word too. -/
def readHead (g : Grammar) (args : List String) :
    Except Ending (Reading × String × List String) :=
  if anyAmbiguous g args then .error .usage else takeHead g args ⟨[], [], false⟩

end Ssa.Command

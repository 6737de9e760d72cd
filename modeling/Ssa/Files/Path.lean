/-
# `Ssa.Files.Path` — names of files

A path is a list of names, taken from a starting place.  Empty names and names of a single dot say
nothing and are left out; a name of two dots leads one directory up and is kept, because where it
leads is known only when the path is followed.
-/
import Ssa.Failure.Basic

namespace Ssa

/-- A path: the slashes it begins with, and its names. -/
structure Path where
  root : String
  parts : List String
deriving DecidableEq, Repr, Inhabited

namespace Path

/-- The texts between slashes. -/
def splitSlash : List Char → List (List Char)
  | [] => [[]]
  | c :: cs =>
    match splitSlash cs with
    | [] => [[c]]
    | part :: parts => if c = '/' then [] :: part :: parts else (c :: part) :: parts

/-- The slashes that a path begins with: none, one, or exactly two. -/
def rootOf : List Char → String
  | '/' :: '/' :: '/' :: _ => "/"
  | '/' :: '/' :: _ => "//"
  | '/' :: _ => "/"
  | _ => ""

/-- The path that a text writes. -/
def read (s : String) : Path :=
  ⟨rootOf s.toList,
    ((splitSlash s.toList).map String.ofList).filter fun part => part ≠ "" && part ≠ "."⟩

/-- The text of a path. -/
def text (p : Path) : String :=
  if p.root = "" && p.parts.isEmpty then "." else p.root ++ "/".intercalate p.parts

/-- The last name of a path. -/
def name (p : Path) : String := p.parts.getLast?.getD ""

/-- The path without its last name. -/
def parent (p : Path) : Path := { p with parts := p.parts.dropLast }

/-- A name divided at its last dot, which is neither its first nor its last character. -/
def divideName (name : String) : String × String :=
  let cs := name.toList
  let tail := (cs.reverse.takeWhile (· != '.')).reverse
  let stem := cs.take (cs.length - tail.length - 1)
  if tail.isEmpty || stem.isEmpty || tail.length = cs.length then (name, "")
  else (String.ofList stem, String.ofList ('.' :: tail))

/-- The last name of a path without its ending. -/
def stem (p : Path) : String := (divideName p.name).1

/-- The path with another ending of its last name.  There has to be one. -/
def withEnding (p : Path) (ending : String) : Except Failure Path :=
  if p.name = "" then .error .badValue
  else .ok { p with parts := p.parts.dropLast ++ [p.stem ++ ending] }

end Path

end Ssa

/-
# `Ssa.Program.TypeTable` — named structures

A context keeps its named structures in the order in which they were first mentioned.  A structure
has no body at first, and is given one at most once.
-/
import Ssa.Failure.Basic

namespace Ssa

/-- A named structure: its fields, once it has a body. -/
structure NamedType where
  name : String
  fields : Option (List Ty)
deriving Repr, Inhabited, DecidableEq

/-- The named structures of a context, in the order in which they were first mentioned. -/
abbrev TypeTable := List NamedType

namespace TypeTable

/-- The structure of a name. -/
def find (t : TypeTable) (name : String) : Option NamedType :=
  List.find? (fun e => e.name == name) t

/-- The fields of a structure that has a body. -/
def fields? (t : TypeTable) (name : String) : Option (List Ty) :=
  (t.find name).bind NamedType.fields

/-- The table after a name has been mentioned. -/
def mention (t : TypeTable) (name : String) : Except Failure TypeTable :=
  if (t.find name).isSome then .ok t
  else if name = "" then .error .nameTaken
  else .ok (t ++ [⟨name, none⟩])

/-- The table after a step in making a type. -/
def make (t : TypeTable) : Ty.Making → Except Failure TypeTable
  | .naming name => t.mention name
  | .pointingToVoid => .error .refused

/-- Give a structure its body. -/
def define (t : TypeTable) (name : String) (fields : List Ty) : Except Failure TypeTable :=
  match t.fields? name with
  | some _ => .error .bodyDefined
  | none => .ok (t.map fun e => if e.name == name then { e with fields := some fields } else e)

/-- What a table says about a named structure. -/
def declaration (e : NamedType) : String :=
  (Ty.named e.name).text ++ " = type " ++
    match e.fields with
    | none => "opaque"
    | some fields => (Ty.struct false fields).text

end TypeTable

end Ssa

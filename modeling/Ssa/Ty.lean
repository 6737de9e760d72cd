/-
# `Ssa.Ty` — the types of values

Types are compared by structure.  A pointer remembers what it points to and its address space; a
named structure is known by its name alone, and its body, if it has one, is kept by the context
that the name belongs to.
-/
import Ssa.Text.Quoted
import Ssa.Number.Fp

namespace Ssa

/-- The three precisions of floating point. -/
inductive Precision where
  | half | single | double
deriving DecidableEq, Repr, Inhabited

/-- The format of a precision. -/
def Precision.format : Precision → Format
  | .half => .half
  | .single => .single
  | .double => .double

/-- The width of a datum of a precision. -/
def Precision.width : Precision → Nat
  | .half => 16
  | .single => 32
  | .double => 64

/-- A type. -/
inductive Ty where
  | void
  | label
  | int (width : Nat)
  | fp (precision : Precision)
  | pointer (pointee : Ty) (space : Nat)
  | array (count : Nat) (element : Ty)
  | vector (count : Nat) (element : Ty)
  | struct (packed : Bool) (fields : List Ty)
  | named (name : String)
  | function (result : Ty) (params : List Ty) (variadic : Bool)
deriving Repr, Inhabited

namespace Ty

/-! ## Equality -/

mutual

/-- Whether two types are built alike. -/
def same : Ty → Ty → Bool
  | .void, .void => true
  | .label, .label => true
  | .int w, .int v => w == v
  | .fp p, .fp q => decide (p = q)
  | .pointer t s, .pointer u r => t.same u && s == r
  | .array n t, .array m u => n == m && t.same u
  | .vector n t, .vector m u => n == m && t.same u
  | .struct p ts, .struct q us => p == q && sameList ts us
  | .named n, .named m => n == m
  | .function r ps v, .function q us u => r.same q && sameList ps us && v == u
  | _, _ => false

/-- Whether two lists of types are built alike. -/
def sameList : List Ty → List Ty → Bool
  | [], [] => true
  | t :: ts, u :: us => t.same u && sameList ts us
  | _, _ => false

end

mutual

theorem same_self : (t : Ty) → t.same t = true
  | .void | .label => rfl
  | .int _ | .fp _ | .named _ => by simp [same]
  | .pointer t _ => by simp [same, same_self t]
  | .array _ t => by simp [same, same_self t]
  | .vector _ t => by simp [same, same_self t]
  | .struct _ ts => by simp [same, sameList_self ts]
  | .function r ps _ => by simp [same, same_self r, sameList_self ps]

theorem sameList_self : (ts : List Ty) → sameList ts ts = true
  | [] => rfl
  | t :: ts => by simp [sameList, same_self t, sameList_self ts]

end

mutual

theorem eq_of_same : (t u : Ty) → t.same u = true → t = u
  | .void, u, h | .label, u, h | .int _, u, h | .fp _, u, h | .named _, u, h => by
    cases u <;> simp_all [same]
  | .pointer t _, u, h => by
    cases u <;> simp [same] at h
    rw [eq_of_same t _ h.1, h.2]
  | .array _ t, u, h => by
    cases u <;> simp [same] at h
    rw [h.1, eq_of_same t _ h.2]
  | .vector _ t, u, h => by
    cases u <;> simp [same] at h
    rw [h.1, eq_of_same t _ h.2]
  | .struct _ ts, u, h => by
    cases u <;> simp [same] at h
    rw [h.1, eq_of_sameList ts _ h.2]
  | .function r ps _, u, h => by
    cases u <;> simp [same] at h
    rw [eq_of_same r _ h.1.1, eq_of_sameList ps _ h.1.2, h.2]

theorem eq_of_sameList : (ts us : List Ty) → sameList ts us = true → ts = us
  | [], us, h => by cases us <;> simp_all [sameList]
  | t :: ts, us, h => by
    cases us <;> simp [sameList] at h
    rw [eq_of_same t _ h.1, eq_of_sameList ts _ h.2]

end

/-- Two types are equal exactly when they are built alike. -/
theorem same_iff {t u : Ty} : t.same u = true ↔ t = u :=
  ⟨eq_of_same t u, fun h => h ▸ same_self t⟩

instance : DecidableEq Ty := fun _ _ => decidable_of_iff _ same_iff

/-! ## Text -/

/-- The text of an address space, empty for the first one. -/
def spaceText (space : Nat) : String :=
  if space = 0 then "" else s!" addrspace({space})"

/-- The text of a list of parameters, with the mark of further ones. -/
def paramsText (params : List String) (variadic : Bool) : String :=
  ", ".intercalate (if variadic then params ++ ["..."] else params)

mutual

/-- The text of a type. -/
def text : Ty → String
  | .void => "void"
  | .label => "label"
  | .int w => s!"i{w}"
  | .fp .half => "half"
  | .fp .single => "float"
  | .fp .double => "double"
  | .pointer t space => t.text ++ spaceText space ++ "*"
  | .array n t => s!"[{n} x " ++ t.text ++ "]"
  | .vector n t => s!"<{n} x " ++ t.text ++ ">"
  | .struct packed ts =>
    let body := "\x7b" ++ ", ".intercalate (texts ts) ++ "\x7d"
    if packed then "<" ++ body ++ ">" else body
  | .named name => "%" ++ quoteName name
  | .function r ps variadic => r.text ++ " (" ++ paramsText (texts ps) variadic ++ ")"

/-- The texts of a list of types. -/
def texts : List Ty → List String
  | [] => []
  | t :: ts => t.text :: texts ts

end

/-! ## Shape -/

/-- Whether a type is that of integers. -/
def isInt : Ty → Bool
  | .int _ => true
  | _ => false

/-- Whether a type is that of floating point. -/
def isFp : Ty → Bool
  | .fp _ => true
  | _ => false

/-- Whether a type is that of pointers. -/
def isPointer : Ty → Bool
  | .pointer .. => true
  | _ => false

/-- The type of an element of a vector; other types are their own. -/
def scalar : Ty → Ty
  | .vector _ t => t
  | t => t

/-- Whether values of a type have places for further values. -/
def hasPlaces : Ty → Bool
  | .array .. | .vector .. | .struct .. | .named _ => true
  | _ => false

/-- A step in making a type that is more than writing it down. -/
inductive Making where
  /-- Mention the structure of a name. -/
  | naming (name : String)
  /-- Point to nothing, which is refused. -/
  | pointingToVoid
deriving DecidableEq, Repr, Inhabited

mutual

/-- The steps in making a type: its parts come before it. -/
def makings : Ty → List Making
  | .pointer t _ => t.makings ++ (match t with
    | .void => [.pointingToVoid]
    | _ => [])
  | .array _ t | .vector _ t => t.makings
  | .struct _ ts => allMakings ts
  | .named name => [.naming name]
  | .function r ps _ => r.makings ++ allMakings ps
  | _ => []

/-- The steps in making the types of a list. -/
def allMakings : List Ty → List Making
  | [] => []
  | t :: ts => t.makings ++ allMakings ts

end

/-- The type that comparing values of a type gives: one digit, or a vector of them. -/
def truth : Ty → Ty
  | .vector n _ => .vector n (.int 1)
  | _ => .int 1

/-- A pointer in the first address space. -/
def ref (t : Ty) : Ty := .pointer t 0

end Ty

end Ssa

/-
# `Ssa.Target.Triple` — names of platforms

A platform is named by an architecture, a vendor, an operating system and, where it matters, a
further part that may hold hyphens itself.  The parts stand between hyphens.
-/
import Ssa.Text.Ends

namespace Ssa

/-- A platform. -/
structure Triple where
  arch : String
  vendor : String
  os : String
  abi : String
deriving DecidableEq, Repr, Inhabited

namespace Triple

/-- The part of a text before its first hyphen, and the part after it if there is one. -/
def splitHyphen : List Char → List Char × Option (List Char)
  | [] => ([], none)
  | c :: cs =>
    if c = '-' then ([], some cs)
    else
      let (first, rest) := splitHyphen cs
      (c :: first, rest)

/-- A part of a name: what stands before the next hyphen, or a word for what is not named. -/
def takePart : Option (List Char) → String × Option (List Char)
  | none => ("unknown", none)
  | some cs =>
    let (first, rest) := splitHyphen cs
    (String.ofList first, rest)

/-- The platform of a name.  Parts that are missing are unknown. -/
def read (name : String) : Triple :=
  let (arch, rest) := takePart (some name.toList)
  let (vendor, rest) := takePart rest
  let (os, rest) := takePart rest
  ⟨arch, vendor, os, String.ofList (rest.getD [])⟩

/-- The name of a platform. -/
def name (t : Triple) : String :=
  let plain := t.arch ++ "-" ++ t.vendor ++ "-" ++ t.os
  if t.abi = "" then plain else plain ++ "-" ++ t.abi

/-- The same platform with another architecture. -/
def withArch (t : Triple) (arch : String) : Triple := { t with arch }

/-- Whether the architecture is one of the x86 family. -/
def isX86 (t : Triple) : Bool :=
  ["x86_64", "amd64", "i386", "i486", "i586", "i686"].contains t.arch

/-- Whether the operating system is Linux. -/
def isLinux (t : Triple) : Bool := t.os = "linux"

/-- Whether the operating system is a Darwin. -/
def isDarwin (t : Triple) : Bool := begins "darwin" t.os || begins "macos" t.os

end Triple

end Ssa

/-
# `Ssa.Target.Machine` — processors, levels, and machines to emit for

Code is emitted for a processor at a level of effort.  The processor decides the platform together
with the host, and there has to be a target for its architecture.
-/
import Ssa.Target.Triple
import Ssa.Text.Blank
import Ssa.Failure.Basic

namespace Ssa

/-! ## Processors -/

/-- The processors that code can be emitted for. -/
inductive Processor where
  | native | x86_64 | i686
deriving DecidableEq, Repr, Inhabited

namespace Processor

/-- All processors. -/
def all : List Processor := [.native, .x86_64, .i686]

/-- The word for a processor. -/
def word : Processor → String
  | .native => "native"
  | .x86_64 => "x86-64"
  | .i686 => "i686"

/-- The symbolic name of a processor. -/
def symbol : Processor → String
  | .native => "NATIVE"
  | .x86_64 => "X86_64"
  | .i686 => "I686"

/-- The way in which the words for processors are compared: without white space around, in small
letters, and with hyphens for low lines.  No letter outside ASCII has a small form that occurs in
them. -/
def key (text : String) : String :=
  (trim text).map fun c => if c = '_' then '-' else c.toLower

/-- The processor that a text names. -/
def read (text : String) : Except Failure Processor :=
  match all.find? fun p => p.word == key text with
  | some p => .ok p
  | none => .error (.unknownCpu text)

/-- The platform of a processor on a host. -/
def triple (p : Processor) (host : Triple) : Triple :=
  match p with
  | .native => host
  | .x86_64 => host.withArch "x86_64"
  | .i686 => host.withArch "i686"

end Processor

/-! ## Levels -/

/-- How much effort is spent on the emitted code. -/
inductive Level where
  | o0 | o1 | o2 | o3
deriving DecidableEq, Repr, Inhabited

namespace Level

/-- All levels. -/
def all : List Level := [.o0, .o1, .o2, .o3]

/-- The number of a level. -/
def number : Level → Nat
  | .o0 => 0 | .o1 => 1 | .o2 => 2 | .o3 => 3

/-- The word for a level. -/
def word : Level → String
  | .o0 => "O0" | .o1 => "O1" | .o2 => "O2" | .o3 => "O3"

/-- What a level means. -/
def description : Level → String
  | .o0 => "none" | .o1 => "less" | .o2 => "default" | .o3 => "aggressive"

/-- The way in which the words for levels are compared: without white space around, in capitals,
and with the letter in front.  No letter outside ASCII has a capital form that occurs in them. -/
def key (text : String) : String :=
  let k := (trim text).map Char.toUpper
  if begins "O" k then k else "O" ++ k

/-- The level that a text names. -/
def read (text : String) : Except Failure Level :=
  match all.find? fun l => l.word == key text with
  | some l => .ok l
  | none => .error (.unknownLevel text)

end Level

/-! ## Machines -/

/-- The architectures for which there is a target. -/
def registeredArchs : List String :=
  ["x86_64", "x86_64h", "amd64", "i386", "i486", "i586", "i686", "i786", "i886", "i986"]

/-- What code is emitted for. -/
structure TargetMachine where
  processor : Processor
  triple : Triple
  level : Level
deriving DecidableEq, Repr, Inhabited

/-- The machine for a processor on a host. -/
def TargetMachine.make (host : Triple) (p : Processor) (l : Level) :
    Except Failure TargetMachine :=
  let triple := p.triple host
  if registeredArchs.contains triple.arch then .ok ⟨p, triple, l⟩
  else .error (.noTarget p.word triple.name)

/-! ## Objects -/

/-- The formats of object files. -/
inductive ObjectFormat where
  | elf | macho | coff
deriving DecidableEq, Repr, Inhabited

/-- The format of object files on a platform: the one that its last part ends in, or the one of
its operating system. -/
def Triple.objectFormat (t : Triple) : ObjectFormat :=
  if endsIn "elf" t.abi then .elf
  else if endsIn "macho" t.abi then .macho
  else if endsIn "coff" t.abi then .coff
  else if ["darwin", "macos", "ios", "tvos", "watchos", "xros", "visionos", "driverkit"].any
      (begins · t.os) then .macho
  else if ["windows", "win32", "uefi"].any (begins · t.os) then .coff
  else .elf

end Ssa

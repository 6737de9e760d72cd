/-
# `Ssa.Exec.Snapshot` — what is compiled of a module

Compiled code is made from the text of a module, once.  Where an operand is written without its
type, the text says less than the module does: the operand is read at the type of another one.  And
a global variable has the initializer that its text gives.
-/
import Ssa.Program.Module

namespace Ssa

/-- The constant that the text of a constant stands for at a type. -/
def Constant.readAs (t : Ty) : Constant → Constant
  | .null _ => .null t
  | .undef _ => .undef t
  | .int u v => match u with
    | .fp p => .real t (roundInt p (Format.double.round false v))
    | _ => .int t v
  | .truth u b => match u with
    | .fp _ => .real t (Fp.ofRat false (if b then 1 else 0))
    | _ => .truth t b
  | .real u x => match u with
    | .fp p => .real t (p.format.convert x)
    | _ => .real t x
  | .aggregate _ cs => .aggregate t cs

/-- The operand that the text of an operand stands for at a type. -/
def Operand.readAs (t : Ty) : Operand → Operand
  | .const c => .const (c.readAs t)
  | o => o

/-- The operation that the text of one stands for. -/
def OpOver.asRead (type : Ty) : Op → Op
  | .int op a b => .int op a (b.readAs a.type)
  | .fp op a b => .fp op a (b.readAs a.type)
  | .icmp pred a b => .icmp pred a (b.readAs a.type)
  | .fcmp pred a b => .fcmp pred a (b.readAs a.type)
  | .phi incoming => .phi (incoming.map fun (o, b) => (o.readAs type, b))
  | .compareExchange p e v => .compareExchange p e (v.readAs e.type)
  | op => op

/-- The function that the text of one stands for. -/
def Function.snapshot (f : Function) : Function :=
  { f with
    blocks := f.blocks.map fun b =>
      { b with instrs := b.instrs.map fun i => { i with op := i.op.asRead i.type } } }

/-- The module that the text of one stands for. -/
def Module.snapshot (m : Module) : Module :=
  { m with symbols := m.symbols.map fun s => match s with
      | .variable v => .variable { v with init := v.textInit }
      | .function f => .function f.snapshot }

end Ssa

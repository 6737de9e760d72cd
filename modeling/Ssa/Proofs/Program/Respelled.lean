/-
# `Ssa.Proofs.Program.Respelled` — modules with their integers spelled otherwise

There are many constants for one word: an integer is kept as it was given, and those that differ by a
multiple of the number of words are the same word.  Two of them are spellings of their own, that by the
signed reading and that by the unsigned one.  Two modules are taken here of which the one has some of the
integers of the other in such a spelling, wherever constants stand: among the operands of an instruction,
as the number of a case, in an entry of a phi, as an initializer, and inside an aggregate.

What is done to operands is done by `OpOver.map`, and an operation with some operands replaced is an
operation over pairs of operands, seen from either side.

**Proved here.**

    operands are of the same types, and the same as local values    (`Operand.Respelled.type`, `.isSameLocal`)
    phis stand where they stood, with entries for the same blocks   (`Instr.Respelled.isPhi`, `.incomingOf`)
-/
import Ssa.Exec.Interpreted
import Ssa.Proofs.Program.Pointwise

namespace Ssa

/-! ## Operations over other operands -/

namespace OpOver

variable {V W T : Type}

/-- An operation with its operands written in another way. -/
def map (φ : V → W) (op : OpOver V T) : OpOver W T := Id.run (op.traverse (fun v => pure (φ v)) pure)

theorem map_map {X : Type} (φ : V → W) (ψ : W → X) (op : OpOver V T) :
    (op.map φ).map ψ = op.map fun v => ψ (φ v) := by
  cases op with
  | alloca t n => cases n <;> rfl
  | ret v => cases v <;> rfl
  | _ => simp [map, traverse, Function.comp_def]

theorem map_same (op : OpOver V T) : op.map (fun v => v) = op := by
  cases op with
  | alloca t n => cases n <;> rfl
  | ret v => cases v <;> rfl
  | _ => simp [map, traverse]

theorem map_phi (φ : V → W) (es : List (V × T)) :
    (OpOver.phi es).map φ = .phi (es.map fun e => (φ e.1, e.2)) := by
  simp [map, traverse]

@[simp] theorem isPhi_map (φ : V → W) (op : OpOver V T) : (op.map φ).isPhi = op.isPhi := by
  cases op with
  | alloca t n => cases n <;> rfl
  | ret v => cases v <;> rfl
  | _ => rfl

end OpOver

/-! ## Constants and operands -/

/-- The width and the value of an integer constant. -/
def Constant.integer? : Constant → Option (Nat × Int)
  | .int (.int w) v => some (w, v)
  | .truth (.int w) b => some (w, if b then 1 else 0)
  | _ => none

/-- A constant, or one that has the signed or the unsigned constant of the same width and value in place
of an integer. -/
inductive Constant.Respelled : Constant → Constant → Prop
  | same (c : Constant) : Respelled c c
  | signed {c d : Constant} {w : Nat} {v : Int} :
      c.integer? = some (w, v) → Constant.signed w v = .ok d → Respelled c d
  | unsigned {c : Constant} {w : Nat} {v : Int} :
      c.integer? = some (w, v) → Respelled c (.unsigned w v)
  | aggregate (t : Ty) {cs ds : List Constant} :
      List.Forall₂ Respelled cs ds → Respelled (.aggregate t cs) (.aggregate t ds)

/-- An operand, with its integers so if it is a constant. -/
def Operand.Respelled : Operand → Operand → Prop
  | .const c, .const d => c.Respelled d
  | o, o' => o' = o

theorem Constant.type_of_integer? {c : Constant} {w : Nat} {v : Int} (h : c.integer? = some (w, v)) :
    c.type = .int w := by
  unfold integer? at h
  split at h <;> cases h <;> rfl

/-- The signed constant of a width and a value. -/
theorem Constant.eq_of_signed {w : Nat} {v : Int} {d : Constant} (h : Constant.signed w v = .ok d) :
    d = .int (.int w) (Word.toSigned w v) := by
  unfold Constant.signed at h
  split at h <;> cases h
  rfl

namespace Operand.Respelled

variable {o o' a a' b b' : Operand}

theorem refl (o : Operand) : o.Respelled o := by
  cases o with
  | const c => exact .same c
  | _ => rfl

theorem type (h : o.Respelled o') : o'.type = o.type := by
  cases o with
  | const c =>
      cases o' with
      | const d =>
          show d.type = c.type
          cases (show c.Respelled d from h) with
          | same | aggregate => rfl
          | signed hc hd =>
              rw [Constant.eq_of_signed hd, Constant.type_of_integer? hc]
              rfl
          | unsigned hc => exact (Constant.type_of_integer? hc).symm
      | _ => cases h
  | _ => cases h; rfl

theorem isSameLocal (ha : a.Respelled a') (hb : b.Respelled b') :
    a'.isSameLocal b' = a.isSameLocal b := by
  cases a with
  | const c =>
      cases a' with
      | const d => rfl
      | _ => cases ha
  | «local» i t =>
      cases ha
      cases b with
      | const c =>
          cases b' with
          | const d => rfl
          | _ => cases hb
      | _ => cases hb; rfl
  | global k t => cases ha; rfl

end Operand.Respelled

/-! ## Instructions, functions, modules -/

/-- An operand, and what stands in its place. -/
structure Respelling where
  before : Operand
  after : Operand
  holds : before.Respelled after

/-- An operation with some of its integers spelled otherwise. -/
def OpOver.Respelled (op op' : Op) : Prop :=
  ∃ pairs : OpOver Respelling Nat, op = pairs.map Respelling.before ∧ op' = pairs.map Respelling.after

theorem OpOver.Respelled.refl (op : Op) : op.Respelled op := by
  refine ⟨op.map fun o => ⟨o, o, .refl o⟩, ?_, ?_⟩
  · rw [map_map, map_same]
  · rw [map_map, map_same]

/-- An instruction with some of its integers spelled otherwise. -/
structure Instr.Respelled (i i' : Instr) : Prop where
  id : i'.id = i.id
  type : i'.type = i.type
  op : i.op.Respelled i'.op

/-- A function with such instructions. -/
abbrev Function.Respelled (f f' : Function) : Prop := f.Pointwise Instr.Respelled f'

/-- A variable with such an initializer. -/
structure Variable.Respelled (v v' : Variable) : Prop where
  name : v'.name = v.name
  type : v'.type = v.type
  init : Option.Rel Operand.Respelled v.init v'.init

/-- A symbol with such instructions or such an initializer. -/
def Symbol.Respelled : Symbol → Symbol → Prop
  | .variable v, .variable v' => v.Respelled v'
  | .function f, .function f' => f.Respelled f'
  | _, _ => False

/-- A module with some of its integers spelled otherwise. -/
structure Module.Respelled (m m' : Module) : Prop where
  symbols : ∀ i : Nat, Option.Rel Symbol.Respelled m.symbols[i]? m'.symbols[i]?

/-! ## What is the same -/

namespace Instr.Respelled

variable {i i' : Instr}

theorem refl (i : Instr) : i.Respelled i := ⟨rfl, rfl, .refl i.op⟩

theorem isPhi (h : i.Respelled i') : i'.op.isPhi = i.op.isPhi := by
  obtain ⟨pairs, hop, hop'⟩ := h.op
  rw [hop, hop', OpOver.isPhi_map, OpOver.isPhi_map]

theorem incomingOf (h : i.Respelled i') :
    List.Forall₂ (fun e e' => e.1.Respelled e'.1 ∧ e'.2 = e.2) (Machine.incomingOf i)
      (Machine.incomingOf i') := by
  obtain ⟨pairs, hop, hop'⟩ := h.op
  unfold Machine.incomingOf
  rw [hop, hop']
  cases pairs with
  | phi es =>
      rw [OpOver.map_phi, OpOver.map_phi]
      exact List.forall₂_map_left_iff.mpr (List.forall₂_map_right_iff.mpr
        (List.forall₂_same.mpr fun e _ => ⟨e.1.holds, rfl⟩))
  | alloca t n => cases n <;> exact .nil
  | ret v => cases v <;> exact .nil
  | _ => exact .nil

end Instr.Respelled

namespace Module.Respelled

variable {m m' : Module}

theorem function? (h : m.Respelled m') (k : Nat) :
    Option.Rel Function.Respelled (m.function? k) (m'.function? k) := by
  refine Module.function?_rel h.symbols (fun s s' hs => ?_) k
  cases s <;> cases s' <;> first | exact hs | trivial

end Module.Respelled

end Ssa

/-
# `Ssa.Proofs.Program.Reordered` — modules with their phis in another order

The phis at the head of a block may stand in another order, and so may the entries of a phi, as long as
those for one block keep theirs.  All else is the same, and instructions stand where they stood.

**Proved here.**

    a phi has the same first entry for each block                  (`entryFor_eq`)
    after its phis, a block has the same instructions in the same places   (`getElem?_instrs`)
    functions have one outline                                     (`Reordered.outline`)
-/
import Mathlib.Data.List.Forall2
import Ssa.Proofs.Program.Built
import Ssa.Proofs.Program.Outline

namespace Ssa

/-! ## What may be in another order -/

/-- A phi with its entries in another order.  Those for one block are in the same order. -/
structure Instr.Reordered (i i' : Instr) : Prop where
  id : i'.id = i.id
  type : i'.type = i.type
  isPhi : i'.op.isPhi = i.op.isPhi
  entries : ∀ b, (Machine.incomingOf i').filter (·.2 = b) = (Machine.incomingOf i).filter (·.2 = b)

/-- A block with its leading phis, and their entries, in another order. -/
structure Block.Reordered (b b' : Block) : Prop where
  name : b'.name = b.name
  phis : ∃ is, is.Perm (b.instrs.takeWhile (·.op.isPhi)) ∧
    List.Forall₂ Instr.Reordered is (b'.instrs.takeWhile (·.op.isPhi))
  rest : b'.instrs.dropWhile (·.op.isPhi) = b.instrs.dropWhile (·.op.isPhi)

/-- A function that is the same but for the order of phis and entries. -/
structure Function.Reordered (f f' : Function) : Prop where
  rest : ∃ blocks, f' = { f with blocks }
  blocks : ∀ b : Nat, Option.Rel Block.Reordered f.blocks[b]? f'.blocks[b]?

/-- A symbol that is the same but for the order of phis and entries. -/
def Symbol.Reordered : Symbol → Symbol → Prop
  | .variable v, .variable v' => v' = v
  | .function f, .function f' => f.Reordered f'
  | _, _ => False

/-- A module that is the same but for the order of phis and entries. -/
structure Module.Reordered (m m' : Module) : Prop where
  name : m'.name = m.name
  symbols : ∀ i : Nat, Option.Rel Symbol.Reordered m.symbols[i]? m'.symbols[i]?

/-! ## What is the same -/

namespace Instr

variable {i i' : Instr}

theorem Reordered.refl (i : Instr) : i.Reordered i := ⟨rfl, rfl, rfl, fun _ => rfl⟩

/-- The first entry for a block is the same. -/
theorem Reordered.entryFor_eq (h : i.Reordered i') (source : Option Nat) :
    Machine.entryFor (Machine.incomingOf i') source = Machine.entryFor (Machine.incomingOf i) source := by
  cases source with
  | none =>
      have hnone (es : List (Operand × Nat)) : Machine.entryFor es none = none := by
        simp [Machine.entryFor]
      rw [hnone, hnone]
  | some b =>
      have hfirst (es : List (Operand × Nat)) :
          Machine.entryFor es (some b) = ((es.filter (·.2 = b)).head?).map Prod.fst := by
        have hsame : (fun e : Operand × Nat => some e.2 == some b) = fun e => decide (e.2 = b) :=
          funext fun e => by rw [Option.some_beq_some, beq_eq_decide]
        rw [Machine.entryFor, List.head?_filter, hsame]
      rw [hfirst, hfirst, h.entries b]

end Instr

namespace Function

variable {f f' : Function}

theorem leadingPhis_eq (f : Function) (b : Nat) :
    f.leadingPhis b = ((f.blocks[b]?).map fun k => k.instrs.takeWhile (·.op.isPhi)).getD [] := by
  rw [leadingPhis, instrs]
  cases f.blocks[b]? <;> rfl

theorem nodup_leadingPhis {m : Module} (h : f.IsBuilt m) (b : Nat) :
    ((f.leadingPhis b).map Instr.id).Nodup :=
  (h.distinct b).sublist ((List.takeWhile_sublist _).map _)

namespace Reordered

theorem outline (h : f.Reordered f') : f.SameOutline f' :=
  .of_rel h.rest h.blocks fun _ _ hb => hb.name

/-- The leading phis of a block are the same, but for their order and that of their entries. -/
theorem leadingPhis (h : f.Reordered f') (b : Nat) :
    ∃ is, is.Perm (f.leadingPhis b) ∧ List.Forall₂ Instr.Reordered is (f'.leadingPhis b) := by
  have hb := h.blocks b
  rw [leadingPhis_eq, leadingPhis_eq]
  generalize f.blocks[b]? = x, f'.blocks[b]? = y at hb
  cases hb with
  | none => exact ⟨[], .nil, .nil⟩
  | some hb => exact hb.phis

theorem length_leadingPhis (h : f.Reordered f') (b : Nat) :
    (f'.leadingPhis b).length = (f.leadingPhis b).length := by
  obtain ⟨is, hperm, hall⟩ := h.leadingPhis b
  rw [← hall.length_eq, hperm.length_eq]

/-- After the leading phis, a block has the same instructions in the same places. -/
theorem getElem?_instrs (h : f.Reordered f') {b pc : Nat} (hpc : (f.leadingPhis b).length ≤ pc) :
    (f'.instrs b)[pc]? = (f.instrs b)[pc]? := by
  have hrest : (f'.instrs b).dropWhile (·.op.isPhi) = (f.instrs b).dropWhile (·.op.isPhi) := by
    have hb := h.blocks b
    rw [instrs, instrs]
    generalize f.blocks[b]? = x, f'.blocks[b]? = y at hb
    cases hb with
    | none => rfl
    | some hb => exact hb.rest
  have hsplit (g : Function) : g.instrs b = g.leadingPhis b ++ (g.instrs b).dropWhile (·.op.isPhi) :=
    List.takeWhile_append_dropWhile.symm
  rw [hsplit f, hsplit f', List.getElem?_append_right hpc,
    List.getElem?_append_right (h.length_leadingPhis b ▸ hpc), hrest, h.length_leadingPhis b]

end Reordered

end Function

namespace Module.Reordered

variable {m m' : Module}

theorem function? (h : m.Reordered m') (k : Nat) :
    Option.Rel Function.Reordered (m.function? k) (m'.function? k) := by
  refine Module.function?_rel h.symbols (fun s s' hs => ?_) k
  cases s <;> cases s' <;> first | exact hs | trivial

end Module.Reordered

end Ssa

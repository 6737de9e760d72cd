/-
# `Ssa.Proofs.Program.Pointwise` — functions related instruction by instruction

Two functions may differ in their instructions only, each of which is related to the one that stands in its
place.  They have one outline then, and where the relation keeps what is a phi, the heads of their blocks are
related too.

**Proved here.**

    the functions have one outline                                   (`Function.Pointwise.outline`)
    instructions in one place are related                            (`Function.Pointwise.getElem?`)
    the phis at the head of a block are related                      (`Function.Pointwise.leadingPhis`)
    entries for the same blocks are found alike                      (`Machine.entryFor_rel`)
-/
import Mathlib.Data.List.Forall2
import Ssa.Proofs.Program.Outline

namespace Ssa

/-! ## Lists -/

theorem forall₂_takeWhile {α β : Type} {R : α → β → Prop} {p : α → Bool} {q : β → Bool}
    {as : List α} {bs : List β} (h : List.Forall₂ R as bs) (hpq : ∀ a b, R a b → q b = p a) :
    List.Forall₂ R (as.takeWhile p) (bs.takeWhile q) := by
  induction h with
  | nil => exact .nil
  | @cons a b as bs hab _ ih =>
      rw [List.takeWhile_cons, List.takeWhile_cons, hpq a b hab]
      split
      · exact .cons hab ih
      · exact .nil

/-- Among entries for the same blocks, those that a phi takes are related. -/
theorem Machine.entryFor_rel {S : Operand → Operand → Prop} {es es' : List (Operand × Nat)}
    (h : List.Forall₂ (fun e e' => S e.1 e'.1 ∧ e'.2 = e.2) es es') (source : Option Nat) :
    Option.Rel S (entryFor es source) (entryFor es' source) := by
  unfold entryFor
  induction h with
  | nil => exact .none
  | @cons e e' es es' he _ ih =>
      rw [List.find?_cons, List.find?_cons, he.2]
      cases some e.2 == source with
      | true => exact .some he.1
      | false => exact ih

/-! ## Functions -/

/-- Blocks of one name, with instructions that are related. -/
structure Block.Pointwise (R : Instr → Instr → Prop) (b b' : Block) : Prop where
  name : b'.name = b.name
  instrs : List.Forall₂ R b.instrs b'.instrs

/-- Functions that are the same but for instructions that are related. -/
structure Function.Pointwise (R : Instr → Instr → Prop) (f f' : Function) : Prop where
  rest : ∃ blocks, f' = { f with blocks }
  blocks : ∀ b : Nat, Option.Rel (Block.Pointwise R) f.blocks[b]? f'.blocks[b]?

namespace Function.Pointwise

variable {R : Instr → Instr → Prop} {f f' : Function}

theorem outline (h : f.Pointwise R f') : f.SameOutline f' :=
  .of_rel h.rest h.blocks fun _ _ hb => hb.name

theorem instrs (h : f.Pointwise R f') (b : Nat) : List.Forall₂ R (f.instrs b) (f'.instrs b) := by
  have hb := h.blocks b
  rw [Function.instrs, Function.instrs]
  generalize f.blocks[b]? = x, f'.blocks[b]? = y at hb
  cases hb with
  | none => exact .nil
  | some hb => exact hb.instrs

/-- What stands at a position of a block is related. -/
theorem getElem? (h : f.Pointwise R f') (b pc : Nat) :
    Option.Rel R (f.instrs b)[pc]? (f'.instrs b)[pc]? := by
  have hb := h.instrs b
  generalize f.instrs b = is, f'.instrs b = is' at hb
  induction hb generalizing pc with
  | nil => exact .none
  | cons hi _ ih =>
      cases pc with
      | zero => exact .some hi
      | succ pc => exact ih pc

theorem leadingPhis (h : f.Pointwise R f') (hphi : ∀ i i', R i i' → i'.op.isPhi = i.op.isPhi) (b : Nat) :
    List.Forall₂ R (f.leadingPhis b) (f'.leadingPhis b) :=
  forall₂_takeWhile (h.instrs b) hphi

end Function.Pointwise

end Ssa

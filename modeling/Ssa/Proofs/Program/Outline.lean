/-
# `Ssa.Proofs.Program.Outline` — functions that differ inside their blocks only

A rewriting of a program that leaves its control flow as it is changes what stands in the blocks of its
functions, and nothing else: the blocks stay where they are, under their names.  The two functions then have
one outline.  What is looked up in a function without a look at its instructions is the same in both, whatever
the instructions are.

**Proved here.**

    names, parameters, types and what is a declaration are the same   (`Function.SameOutline.params`, …)
    so are the names of values and of blocks                          (`.localName`, `.blockName`)
    functions of modules stand in the same places                     (`Module.function?_rel`)
-/
import Ssa.Exec.Machine

namespace Ssa

/-! ## Functions -/

/-- Functions that are the same but for what stands in their blocks. -/
structure Function.SameOutline (f f' : Function) : Prop where
  rest : ∃ blocks, f' = { f with blocks }
  blocks : ∀ b : Nat, (f'.blocks[b]?).map Block.name = (f.blocks[b]?).map Block.name

namespace Function.SameOutline

variable {f f' : Function}

/-- Blocks that are related one by one, by a relation that keeps names, make one outline. -/
theorem of_rel {B : Block → Block → Prop} (rest : ∃ blocks, f' = { f with blocks })
    (h : ∀ b : Nat, Option.Rel B f.blocks[b]? f'.blocks[b]?) (hname : ∀ k k', B k k' → k'.name = k.name) :
    f.SameOutline f' where
  rest := rest
  blocks b := by
    have hb := h b
    generalize f.blocks[b]? = x, f'.blocks[b]? = y at hb
    cases hb with
    | none => rfl
    | some hk => exact congrArg some (hname _ _ hk)

theorem name (h : f.SameOutline f') : f'.name = f.name := by
  obtain ⟨_, rfl⟩ := h.rest
  rfl

theorem params (h : f.SameOutline f') : f'.params = f.params := by
  obtain ⟨_, rfl⟩ := h.rest
  rfl

theorem type (h : f.SameOutline f') : f'.type = f.type := by
  obtain ⟨_, rfl⟩ := h.rest
  rfl

theorem localName (h : f.SameOutline f') (id : Nat) : f'.localName id = f.localName id := by
  obtain ⟨_, rfl⟩ := h.rest
  rfl

theorem localForm (h : f.SameOutline f') (id : Nat) : f'.localForm id = f.localForm id := by
  obtain ⟨_, rfl⟩ := h.rest
  rfl

theorem blockName (h : f.SameOutline f') (b : Nat) : f'.blockName b = f.blockName b :=
  congrArg (·.getD "") (h.blocks b)

theorem sourceName (h : f.SameOutline f') (source : Option Nat) :
    Machine.sourceName f' source = Machine.sourceName f source := by
  cases source with
  | none => rfl
  | some b => exact h.blockName b

theorem isDeclaration (h : f.SameOutline f') : f'.isDeclaration = f.isDeclaration := by
  -- a function is a declaration when there is no name of a first block
  have hfirst (g : Function) : g.isDeclaration = ((g.blocks[0]?).map Block.name).isNone := by
    rw [Bool.eq_iff_iff]
    simp [Function.isDeclaration, Array.isEmpty]
  rw [hfirst, hfirst, h.blocks 0]

end Function.SameOutline

/-! ## Modules -/

/-- Two symbols are variables, or functions that are related. -/
def Symbol.Matched (R : Function → Function → Prop) : Symbol → Symbol → Prop
  | .variable _, .variable _ => True
  | .function f, .function f' => R f f'
  | _, _ => False

/-- Where symbols stand for symbols of their kind, and functions for functions that are related, what is
found at a position is related. -/
theorem Module.function?_rel {S : Symbol → Symbol → Prop} {R : Function → Function → Prop}
    {m m' : Module} (h : ∀ i : Nat, Option.Rel S m.symbols[i]? m'.symbols[i]?)
    (hS : ∀ s s', S s s' → s.Matched R s') (k : Nat) :
    Option.Rel R (m.function? k) (m'.function? k) := by
  have hk := h k
  unfold Module.function?
  generalize m.symbols[k]? = x, m'.symbols[k]? = y at hk
  cases hk with
  | none => exact .none
  | @some s s' hs =>
      have hmatched := hS s s' hs
      rcases s with v | g <;> rcases s' with v' | g' <;> try contradiction
      · exact .none
      · exact .some hmatched

end Ssa

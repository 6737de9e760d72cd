/-
# `Ssa.Proofs.Program.Recased` — modules with their switches written otherwise

The cases of a switch are numbers as they were given, with labels.  Only what a number is at the width of
the value counts, so cases may be given by other numbers; and when no two of them are the same at that
width they may stand in another order.  A switch may also be taken apart into tests, each an equality and
a branch, the first of them in place of the switch and the others in blocks of their own.

Two modules are taken here of which the one has some of its switches written otherwise.  What the tests
need besides, numbers for their answers and places for their blocks, is spare: the rest makes no use of it.

**Proved here.**

    phis are the same, and so is how what follows them is related    (`Recased.takeWhile_isPhi`, `.drop_isPhi`)
    types, parameters and names are the same                         (`Function.Recased.params`, …)
    the functions of the modules stand in the same places            (`Module.Recased.function?`)
-/
import Mathlib.Data.Int.ModEq
import Mathlib.Data.List.Forall2
import Mathlib.Data.Set.Basic
import Ssa.Proofs.Program.Outline

namespace Ssa

/-! ## Cases -/

namespace Switch

/-- The case of a number at a width, with its label. -/
def caseOf (w : Nat) (e : Int × Nat) : Operand × Nat := (.const (.int (.int w) e.1), e.2)

/-- Cases that are for the same words: those of numbers no two of which are congruent, in another order,
or those of other numbers that are congruent to the first ones, each to each. -/
inductive Rearranged (w : Nat) (es es' : List (Int × Nat)) : Prop
  | permuted : es.Pairwise (fun e e' => ¬e.1 ≡ e'.1 [ZMOD 2 ^ w]) → es.Perm es' → Rearranged w es es'
  | renumbered : List.Forall₂ (fun e e' => e.1 ≡ e'.1 [ZMOD 2 ^ w] ∧ e'.2 = e.2) es es' →
      Rearranged w es es'

/-- The test of one case: whether the value is equal to its number, and a branch to its label or to where
the next case is tested. -/
def test (v : Operand) (w z id : Nat) (e : Int × Nat) (next : Nat) : List Instr :=
  [⟨z, .int 1, .icmp .eq v (caseOf w e).1⟩, ⟨id, .void, .condBr (.local z (.int 1)) e.2 next⟩]

/-- What two functions may differ in besides: numbers of values and places of blocks. -/
structure Spare where
  locals : Set Nat
  blocks : Set Nat

/-- Instructions of a function that test a value for the cases in turn and end in the default: for no case
a branch to it, and else the first test in place and the others where it leads to. -/
inductive Tests (f : Function) (spare : Spare) (v : Operand) (w d : Nat) :
    List (Int × Nat) → List Instr → Prop
  | default (id : Nat) : Tests f spare v w d [] [⟨id, .void, .br d⟩]
  | last (z id : Nat) (e : Int × Nat) : z ∈ spare.locals → Tests f spare v w d [e] (test v w z id e d)
  | next (z id : Nat) (e : Int × Nat) {es : List (Int × Nat)} (b : Nat) : z ∈ spare.locals →
      Tests f spare v w d es (f.instrs b) → Tests f spare v w d (e :: es) (test v w z id e b)

/-- Tests begin with no phi. -/
theorem Tests.takeWhile_isPhi {f : Function} {spare : Spare} {v : Operand} {w d : Nat}
    {es : List (Int × Nat)} {is : List Instr} (h : Tests f spare v w d es is) :
    is.takeWhile (·.op.isPhi) = [] := by
  cases h <;> rfl

end Switch

open Switch

/-! ## Operands and instructions -/

/-- An operand is no value of such a number. -/
def Operand.Avoids (locals : Set Nat) : Operand → Prop
  | .local id _ => id ∉ locals
  | _ => True

/-- An instruction makes no use of what is spare. -/
structure Instr.Avoids (spare : Spare) (i : Instr) : Prop where
  id : i.id ∉ spare.locals
  operands : ∀ o ∈ i.op.operands, o.Avoids spare.locals
  entries : ∀ e ∈ Machine.incomingOf i, e.1.Avoids spare.locals
  targets : ∀ t ∈ i.op.targets, t ∉ spare.blocks

/-- Nothing is spare. -/
def Switch.Spare.nothing : Spare := ⟨∅, ∅⟩

theorem Instr.Avoids.of_nothing (i : Instr) : i.Avoids .nothing where
  id := Set.notMem_empty i.id
  operands o _ := by
    cases o with
    | «local» id _ => exact Set.notMem_empty id
    | _ => trivial
  entries e _ := by
    cases e.1 with
    | «local» id _ => exact Set.notMem_empty id
    | _ => trivial
  targets t _ := Set.notMem_empty t

/-- An instruction that is the same, or a switch with cases that are for the same words. -/
def Instr.Rearranged (i i' : Instr) : Prop :=
  i' = i ∨ ∃ v d w es es', i.op = .switch v d (es.map (caseOf w)) ∧
    i' = { i with op := .switch v d (es'.map (caseOf w)) } ∧ Switch.Rearranged w es es'

/-- Instructions of two functions that are the same but for how switches are written.  A switch that may
be taken apart, with labels of blocks without phis, is the last before tests. -/
inductive Recased (apart : Prop) (spare : Spare) (f f' : Function) : List Instr → List Instr → Prop
  | nil : Recased apart spare f f' [] []
  | cons {i i' : Instr} {is is' : List Instr} : i.Avoids spare → i.Rearranged i' →
      Recased apart spare f f' is is' → Recased apart spare f f' (i :: is) (i' :: is')
  | tested {i : Instr} {v : Operand} {d w : Nat} {es : List (Int × Nat)} {is' : List Instr} :
      apart → i.Avoids spare → i.op = .switch v d (es.map (caseOf w)) →
      (∀ l ∈ d :: es.map Prod.snd, f.leadingPhis l = []) → Tests f' spare v w d es is' →
      Recased apart spare f f' [i] is'

/-! ## Functions and modules -/

/-- A function with some of its switches written otherwise. -/
structure Function.Recased (apart : Prop) (spare : Spare) (f f' : Function) : Prop where
  name : f'.name = f.name
  type : f'.type = f.type
  locals : ∀ id ∉ spare.locals, f'.locals[id]? = f.locals[id]?
  isDeclaration : f'.isDeclaration = f.isDeclaration
  entry : 0 ∉ spare.blocks
  blockName : ∀ b ∉ spare.blocks, f'.blockName b = f.blockName b
  instrs : ∀ b ∉ spare.blocks, Ssa.Recased apart spare f f' (f.instrs b) (f'.instrs b)

/-- A symbol with some switches written otherwise. -/
def Symbol.Recased (apart : Prop) : Symbol → Symbol → Prop
  | .variable v, .variable v' => v' = v
  | .function f, .function f' => ∃ spare, f.Recased apart spare f'
  | _, _ => False

/-- A module with some of its switches written otherwise.  Whether any may be taken apart is said apart. -/
structure Module.Recased (apart : Prop) (m m' : Module) : Prop where
  symbols : ∀ i : Nat, Option.Rel (Symbol.Recased apart) m.symbols[i]? m'.symbols[i]?

/-! ## What is the same -/

namespace Instr.Rearranged

variable {i i' : Instr}

theorem id (h : i.Rearranged i') : i'.id = i.id := by
  obtain rfl | ⟨_, _, _, _, _, -, rfl, -⟩ := h <;> rfl

theorem isPhi (h : i.Rearranged i') : i'.op.isPhi = i.op.isPhi := by
  obtain rfl | ⟨_, _, _, _, _, hop, rfl, -⟩ := h
  · rfl
  · rw [hop]
    rfl

theorem eq_of_isPhi (h : i.Rearranged i') (hphi : i.op.isPhi = true) : i' = i := by
  obtain rfl | ⟨_, _, _, _, _, hop, -, -⟩ := h
  · rfl
  · rw [hop] at hphi
    cases hphi

end Instr.Rearranged

namespace Recased

variable {apart : Prop} {spare : Spare} {f f' : Function} {is is' : List Instr}

/-- Phis are the same. -/
theorem takeWhile_isPhi (h : Recased apart spare f f' is is') :
    is'.takeWhile (·.op.isPhi) = is.takeWhile (·.op.isPhi) ∧
      ∀ i ∈ is.takeWhile (·.op.isPhi), i.Avoids spare := by
  induction h with
  | nil => exact ⟨rfl, List.forall_mem_nil _⟩
  | @cons i i' is is' hi hii' _ ih =>
      rw [List.takeWhile_cons, List.takeWhile_cons, hii'.isPhi]
      split
      case isTrue hphi =>
        rw [hii'.eq_of_isPhi hphi, ih.1]
        exact ⟨rfl, List.forall_mem_cons.mpr ⟨hi, ih.2⟩⟩
      case isFalse => exact ⟨rfl, List.forall_mem_nil _⟩
  | @tested i _ _ _ _ _ _ _ hop _ htests =>
      have hphi : [i].takeWhile (·.op.isPhi) = [] := by
        rw [List.takeWhile_cons, hop]
        rfl
      rw [htests.takeWhile_isPhi, hphi]
      exact ⟨rfl, List.forall_mem_nil _⟩

/-- What follows the phis is related as the whole is. -/
theorem drop_isPhi (h : Recased apart spare f f' is is') :
    Recased apart spare f f' (is.drop (is.takeWhile (·.op.isPhi)).length)
      (is'.drop (is'.takeWhile (·.op.isPhi)).length) := by
  induction h with
  | nil => exact .nil
  | @cons i i' is is' hi hii' his ih =>
      rw [List.takeWhile_cons, List.takeWhile_cons, hii'.isPhi]
      split
      · exact ih
      · exact .cons hi hii' his
  | @tested i _ _ _ _ _ hapart hi hop hlabels htests =>
      have hphi : [i].takeWhile (·.op.isPhi) = [] := by
        rw [List.takeWhile_cons, hop]
        rfl
      rw [htests.takeWhile_isPhi, hphi]
      exact .tested hapart hi hop hlabels htests

end Recased

namespace Function.Recased

variable {apart : Prop} {spare : Spare} {f f' : Function} {b id : Nat}

theorem params (h : f.Recased apart spare f') : f'.params = f.params := by
  have htype := h.type
  simp only [Function.type, Ty.function.injEq] at htype
  exact htype.2.1

theorem localName (h : f.Recased apart spare f') (hid : id ∉ spare.locals) :
    f'.localName id = f.localName id := by
  rw [Function.localName, Function.localName, h.locals id hid]

theorem localForm (h : f.Recased apart spare f') (hid : id ∉ spare.locals) :
    f'.localForm id = f.localForm id := by
  rw [Function.localForm, Function.localForm, h.locals id hid]

theorem sourceName (h : f.Recased apart spare f') {source : Option Nat}
    (hsource : ∀ b ∈ source, b ∉ spare.blocks) :
    Machine.sourceName f' source = Machine.sourceName f source := by
  cases source with
  | none => rfl
  | some b => exact h.blockName b (hsource b rfl)

theorem leadingPhis (h : f.Recased apart spare f') (hb : b ∉ spare.blocks) :
    f'.leadingPhis b = f.leadingPhis b :=
  (h.instrs b hb).takeWhile_isPhi.1

theorem phis_avoid (h : f.Recased apart spare f') (hb : b ∉ spare.blocks) :
    ∀ i ∈ f.leadingPhis b, i.Avoids spare :=
  (h.instrs b hb).takeWhile_isPhi.2

end Function.Recased

namespace Module.Recased

variable {apart : Prop} {m m' : Module}

theorem function? (h : m.Recased apart m') (k : Nat) :
    Option.Rel (fun f f' => ∃ spare, f.Recased apart spare f') (m.function? k) (m'.function? k) := by
  refine Module.function?_rel h.symbols (fun s s' hs => ?_) k
  cases s <;> cases s' <;> first | exact hs | trivial

end Module.Recased

end Ssa

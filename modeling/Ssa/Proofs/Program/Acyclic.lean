/-
# `Ssa.Proofs.Program.Acyclic` — programs in which nothing comes round again

A module has two graphs: in each function the blocks lead to those that their ends name, and the
functions call those that their calls name, an invoke being a call here.  If neither has a cycle, a
block has a height, the number of blocks that can still come after it and itself, and a function a
depth, the number of functions that calls in it can come to.  Heights go down along the flow of
control, depths along calls.

**Proved here.**

    a block leads only to lower blocks                              (`Module.IsAcyclic.height_lt`)
    a function calls only shallower functions                       (`Module.IsAcyclic.depth_lt`)
    control that only goes on, and calls that only go back, have no cycle   (`Module.isAcyclic_of_forward`)
-/
import Ssa.Proofs.Program.Built
import Ssa.Validity.Flow
import Mathlib.Data.Set.Card
import Mathlib.Logic.Relation

namespace Ssa

open Relation (ReflTransGen TransGen)

/-! ## Numbers that go down -/

/-- How many numbers below a bound have a property. -/
noncomputable def countBelow (n : Nat) (P : Nat → Prop) : Nat := {c | c < n ∧ P c}.ncard

theorem finite_below (n : Nat) (P : Nat → Prop) : {c | c < n ∧ P c}.Finite :=
  (Set.finite_lt_nat n).subset fun _ hc => hc.1

theorem countBelow_le (n : Nat) (P : Nat → Prop) : countBelow n P ≤ n := by
  have hsub : {c | c < n ∧ P c} ⊆ (Finset.range n : Set Nat) := fun _ hc => by simpa using hc.1
  calc countBelow n P ≤ (Finset.range n : Set Nat).ncard :=
        Set.ncard_le_ncard hsub (Finset.finite_toSet _)
    _ = n := by rw [Set.ncard_coe_finset, Finset.card_range]

/-- A property that implies another, and does not hold of a number that has the other, is one of fewer
numbers. -/
theorem countBelow_lt {n a : Nat} {P Q : Nat → Prop} (h : ∀ c, Q c → P c) (ha : a < n) (hp : P a)
    (hq : ¬ Q a) : countBelow n Q < countBelow n P := by
  have hsub : {c | c < n ∧ Q c} ⊆ {c | c < n ∧ P c} := fun c hc => ⟨hc.1, h c hc.2⟩
  exact Set.ncard_lt_ncard ⟨hsub, fun hback => hq (hback ⟨ha, hp⟩).2⟩ (finite_below n P)

/-- A relation along which a number goes down has no cycle. -/
theorem not_transGen_self {α : Type} {r : α → α → Prop} (rank : α → Nat)
    (h : ∀ a b, r a b → rank b < rank a) (a : α) : ¬ TransGen r a a := by
  have hdown {b : α} (hab : TransGen r a b) : rank b < rank a := by
    induction hab with
    | single hr => exact h _ _ hr
    | tail _ hr ih => exact (h _ _ hr).trans ih
  exact fun haa => Nat.lt_irrefl _ (hdown haa)

/-! ## The two graphs -/

/-- The end of a block of a function names another block. -/
def Function.Leads (f : Function) (b c : Nat) : Prop :=
  ∃ block, f.blocks[b]? = some block ∧ c ∈ block.successors

/-- The position of the function that an operation calls by name. -/
def OpOver.callee? : Op → Option Nat
  | .call (.global k _) _ | .invoke (.global k _) _ _ _ => some k
  | _ => none

/-- A function has a call of what is at a position. -/
def Function.Calls (f : Function) (k : Nat) : Prop :=
  ∃ b, ∃ i ∈ f.instrs b, i.op.callee? = some k

/-- The function at one position has a call of what is at another. -/
def Module.Calls (m : Module) (j k : Nat) : Prop := ∃ f, m.function? j = some f ∧ f.Calls k

/-- No block comes after itself, and no function calls itself, by whatever way. -/
structure Module.IsAcyclic (m : Module) : Prop where
  flow : ∀ k f, m.function? k = some f → ∀ b, ¬ TransGen f.Leads b b
  calls : ∀ k, ¬ TransGen m.Calls k k

theorem Function.leads_of_target {f : Function} {b t : Nat} {i : Instr} (hi : i ∈ f.instrs b)
    (ht : t ∈ i.op.targets) : f.Leads b t := by
  obtain ⟨block, hblock, hmem⟩ := mem_instrs hi
  exact ⟨block, hblock, List.mem_flatMap.mpr ⟨i, hmem, ht⟩⟩

theorem Function.Leads.lt {f : Function} {b c : Nat} (h : f.Leads b c) : b < f.blocks.size := by
  obtain ⟨block, hblock, -⟩ := h
  exact (Array.getElem?_eq_some_iff.mp hblock).1

/-! ## Heights and depths -/

/-- How many blocks control can still come to from a block on, itself among them. -/
noncomputable def Function.height (f : Function) (b : Nat) : Nat :=
  countBelow f.blocks.size (ReflTransGen f.Leads b)

/-- How many functions the calls in a function can come to. -/
noncomputable def Module.depth (m : Module) (f : Function) : Nat :=
  countBelow m.symbols.size fun k => ∃ j, f.Calls j ∧ ReflTransGen m.Calls j k

theorem Function.height_le (f : Function) (b : Nat) : f.height b ≤ f.blocks.size := countBelow_le _ _

namespace Module.IsAcyclic

variable {m : Module} (h : m.IsAcyclic)
include h

/-- A block leads only to lower blocks. -/
theorem height_lt {k : Nat} {f : Function} (hf : m.function? k = some f) {b c : Nat}
    (hbc : f.Leads b c) : f.height c < f.height b :=
  countBelow_lt (fun _ hcd => .head hbc hcd) hbc.lt .refl
    fun hcb => h.flow k f hf b (.head' hbc hcb)

/-- A function calls only shallower functions. -/
theorem depth_lt {f g : Function} {k : Nat} (hfk : f.Calls k) (hk : m.function? k = some g) :
    m.depth g < m.depth f := by
  refine countBelow_lt (a := k) ?_ (lt_of_function? hk) ⟨k, hfk, .refl⟩ ?_
  · rintro c ⟨j, hgj, hjc⟩
    exact ⟨k, hfk, .head ⟨g, hk, hgj⟩ hjc⟩
  · rintro ⟨j, hgj, hjk⟩
    exact h.calls k (.head' ⟨g, hk, hgj⟩ hjk)

end Module.IsAcyclic

/-! ## Programs that go forward -/

/-- Every block names only later ones, and every function calls only what was declared before it. -/
def Module.isForward (m : Module) : Bool :=
  (List.range m.symbols.size).all fun k => (m.function? k).all fun f =>
    (List.range f.blocks.size).all fun b => (f.instrs b).all fun i =>
      i.op.targets.all (b < ·) && i.op.callee?.all (· < k)

/-- Control that only goes on, and calls that only go back, have no cycle. -/
theorem Module.isAcyclic_of_forward {m : Module} (h : m.isForward = true) : m.IsAcyclic := by
  have hinstr {k : Nat} {f : Function} (hf : m.function? k = some f) {b : Nat} {i : Instr}
      (hi : i ∈ f.instrs b) : (∀ t ∈ i.op.targets, b < t) ∧ ∀ c, i.op.callee? = some c → c < k := by
    obtain ⟨block, hblock, -⟩ := Function.mem_instrs hi
    have hb := (Array.getElem?_eq_some_iff.mp hblock).1
    have hf' := List.all_eq_true.mp h k (List.mem_range.mpr (lt_of_function? hf))
    rw [hf] at hf'
    have hi' := List.all_eq_true.mp (List.all_eq_true.mp hf' b (List.mem_range.mpr hb)) i hi
    obtain ⟨ht, hc⟩ := Bool.and_eq_true_iff.mp hi'
    refine ⟨fun t htt => by simpa using List.all_eq_true.mp ht t htt, fun c hcc => ?_⟩
    rw [hcc] at hc
    simpa using hc
  refine ⟨fun k f hf b => ?_, fun k => ?_⟩
  · refine not_transGen_self (fun c => f.blocks.size - c) (fun b c hbc => ?_) b
    obtain ⟨block, hblock, hc⟩ := hbc
    obtain ⟨i, hi, ht⟩ := List.mem_flatMap.mp hc
    have hlt := (hinstr hf (Function.instrs_of_block hblock ▸ hi)).1 c ht
    have hb := (Array.getElem?_eq_some_iff.mp hblock).1
    omega
  · refine not_transGen_self id (fun j k hjk => ?_) k
    obtain ⟨f, hf, b, i, hi, hcallee⟩ := hjk
    exact (hinstr hf hi).2 k hcallee

end Ssa

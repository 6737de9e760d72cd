/-
# `Ssa.Proofs.Program.Zeroed` — modules with address zero in place of null

Null can be written down; the address zero has to be made from the integer, by an instruction.  Two
modules are taken here of which the one has null, in any of its operands, where the other has a value
that is made so.  All else is the same, and instructions stand where they stood.

**Proved here.**

    an operand is of the same type                         (`Operand.Zeroed.type`)
    functions have one outline                             (`Function.Zeroed.outline`)
    instructions stand in the same places                  (`Function.Zeroed.instrs`)
    the phi of a block has entries for the same blocks     (`Instr.Zeroed.entryFor`)
-/
import Ssa.Proofs.Exec.Sound
import Ssa.Proofs.Program.Pointwise

namespace Ssa

/-! ## Operands and operations -/

/-- A value of a function that is the address zero wherever it is computed. -/
structure Function.MakesZero (f : Function) (z : Nat) : Prop where
  computed : f.params.length ≤ z
  made : ∀ b, ∀ i ∈ f.instrs b, i.id = z →
    i.op = .cast .inttoptr (.const (.int (.int 64) 0)) ∧ i.type.isPointer = true

/-- An operand with address zero in place of null, or the other way round. -/
inductive Operand.Zeroed (f : Function) : Operand → Operand → Prop
  | same (o : Operand) : Zeroed f o o
  | zero {t : Ty} {space z : Nat} : f.MakesZero z →
      Zeroed f (.const (.null (.pointer t space))) (.local z (.pointer t space))
  | null {t : Ty} {space z : Nat} : f.MakesZero z →
      Zeroed f (.local z (.pointer t space)) (.const (.null (.pointer t space)))

theorem Operand.Zeroed.type {f : Function} {o o' : Operand} (h : o.Zeroed f o') : o'.type = o.type := by
  cases h <;> rfl

/-- Two operations are of one kind, with operands that are related. -/
inductive OpOver.Alike (S : Operand → Operand → Prop) : Op → Op → Prop
  | int (op : IntOp) {a a' b b' : Operand} : S a a' → S b b' → Alike S (.int op a b) (.int op a' b')
  | fp (op : FpOp) {a a' b b' : Operand} : S a a' → S b b' → Alike S (.fp op a b) (.fp op a' b')
  | fneg {a a' : Operand} : S a a' → Alike S (.fneg a) (.fneg a')
  | icmp (p : IntPred) {a a' b b' : Operand} :
      S a a' → S b b' → Alike S (.icmp p a b) (.icmp p a' b')
  | fcmp (p : FpPred) {a a' b b' : Operand} :
      S a a' → S b b' → Alike S (.fcmp p a b) (.fcmp p a' b')
  | cast (op : CastOp) {a a' : Operand} : S a a' → Alike S (.cast op a) (.cast op a')
  | select {c c' a a' b b' : Operand} : S c c' → S a a' → S b b' →
      Alike S (.select c a b) (.select c' a' b')
  | phi {es es' : List (Operand × Nat)} :
      List.Forall₂ (fun e e' => S e.1 e'.1 ∧ e'.2 = e.2) es es' → Alike S (.phi es) (.phi es')
  | alloca (t : Ty) (count count' : Option Operand) : Alike S (.alloca t count) (.alloca t count')
  | load {a a' : Operand} : S a a' → Alike S (.load a) (.load a')
  | store {v v' a a' : Operand} : S v v' → S a a' → Alike S (.store v a) (.store v' a')
  | call (callee : Operand) {args args' : List Operand} : List.Forall₂ S args args' →
      Alike S (.call callee args) (.call callee args')
  | br (t : Nat) : Alike S (.br t) (.br t)
  | condBr {c c' : Operand} (t e : Nat) : S c c' → Alike S (.condBr c t e) (.condBr c' t e)
  /-- The labels of cases are constants, and the same. -/
  | switch {v v' : Operand} (d : Nat) (cases : List (Operand × Nat)) : S v v' →
      (∀ e ∈ cases, ∃ c, e.1 = .const c) → Alike S (.switch v d cases) (.switch v' d cases)
  | leave : Alike S (.ret none) (.ret none)
  | ret {v v' : Operand} : S v v' → Alike S (.ret (some v)) (.ret (some v'))
  | unreachable : Alike S .unreachable .unreachable
  | invoke (callee : Operand) {args args' : List Operand} (n u : Nat) : List.Forall₂ S args args' →
      Alike S (.invoke callee args n u) (.invoke callee args' n u)
  /-- Operations that the interpreter has no rule for. -/
  | other {op op' : Op} : op.isRuled = false → op.isPhi = false → op'.isRuled = false →
      op'.isPhi = false → op'.word = op.word → op'.targets = op.targets → Alike S op op'

theorem OpOver.isComputed_of_isRuled {op : Op} (h : op.isRuled = false) : op.isComputed = false := by
  simp only [OpOver.isRuled, Bool.or_eq_false_iff] at h
  exact h.1.1.1

namespace OpOver.Alike

variable {S : Operand → Operand → Prop} {op op' : Op}

theorem isPhi (h : OpOver.Alike S op op') : op'.isPhi = op.isPhi := by
  cases h with
  | other _ hphi _ hphi' => rw [hphi, hphi']
  | _ => rfl

/-- Control may go on at the same blocks. -/
theorem targets (h : OpOver.Alike S op op') : op'.targets = op.targets := by
  cases h with
  | other _ _ _ _ _ htargets => exact htargets
  | _ => rfl

theorem isComputed (h : OpOver.Alike S op op') : op'.isComputed = op.isComputed := by
  cases h with
  | other hruled _ hruled' => rw [isComputed_of_isRuled hruled, isComputed_of_isRuled hruled']
  | _ => rfl

/-- What computes has operands that are related. -/
theorem operands (h : OpOver.Alike S op op') (hc : op.isComputed = true) :
    List.Forall₂ S op.operands op'.operands := by
  cases h with
  | int _ ha hb | fp _ ha hb | icmp _ ha hb | fcmp _ ha hb => exact .cons ha (.cons hb .nil)
  | fneg ha | cast _ ha => exact .cons ha .nil
  | other hruled => cases hc.symm.trans (isComputed_of_isRuled hruled)
  | _ => cases hc

/-- What computes from the same operands is the same. -/
theorem eq_of_operands (h : OpOver.Alike S op op') (hc : op.isComputed = true)
    (heq : op'.operands = op.operands) : op' = op := by
  cases h with
  | int | fp | icmp | fcmp | fneg | cast =>
      simp only [OpOver.operands, List.cons.injEq, and_true] at heq
      simp [heq]
  | other hruled => cases hc.symm.trans (isComputed_of_isRuled hruled)
  | _ => cases hc

end OpOver.Alike

/-! ## Modules -/

/-- An instruction with address zero in place of null in some operands, or the other way round. -/
structure Instr.Zeroed (f : Function) (i i' : Instr) : Prop where
  id : i'.id = i.id
  type : i'.type = i.type
  op : OpOver.Alike (Operand.Zeroed f) i.op i'.op

/-- A block with such instructions. -/
structure Block.Zeroed (f : Function) (b b' : Block) : Prop where
  name : b'.name = b.name
  instrs : List.Forall₂ (Instr.Zeroed f) b.instrs b'.instrs

/-- A function with such instructions. -/
structure Function.Zeroed (f f' : Function) : Prop where
  rest : ∃ blocks, f' = { f with blocks }
  blocks : ∀ b : Nat, Option.Rel (Block.Zeroed f) f.blocks[b]? f'.blocks[b]?

/-- A symbol with such instructions. -/
def Symbol.Zeroed : Symbol → Symbol → Prop
  | .variable v, .variable v' => v' = v
  | .function f, .function f' => f.Zeroed f'
  | _, _ => False

/-- A module with such instructions. -/
structure Module.Zeroed (m m' : Module) : Prop where
  symbols : ∀ i : Nat, Option.Rel Symbol.Zeroed m.symbols[i]? m'.symbols[i]?

/-! ## What is the same -/

namespace Instr.Zeroed

variable {f : Function} {i i' : Instr}

theorem incomingOf (h : i.Zeroed f i') :
    List.Forall₂ (fun e e' => e.1.Zeroed f e'.1 ∧ e'.2 = e.2) (Machine.incomingOf i)
      (Machine.incomingOf i') := by
  have hnil {j : Instr} (hj : j.op.isPhi = false) : Machine.incomingOf j = [] := by
    unfold Machine.incomingOf
    split
    · rename_i hop
      rw [hop] at hj
      cases hj
    · rfl
  obtain ⟨id, t, op⟩ := i
  obtain ⟨id', t', op'⟩ := i'
  cases h.op with
  | phi hes => exact hes
  | other _ hphi _ hphi' =>
      rw [hnil hphi, hnil hphi']
      exact .nil
  | _ => exact .nil

/-- A phi takes operands that are related, whatever block control comes from. -/
theorem entryFor (h : i.Zeroed f i') (source : Option Nat) :
    Option.Rel (Operand.Zeroed f) (Machine.entryFor (Machine.incomingOf i) source)
      (Machine.entryFor (Machine.incomingOf i') source) :=
  Machine.entryFor_rel h.incomingOf source

/-- What is made from the integer zero on the one side is on the other. -/
theorem made (h : i.Zeroed f i') (hi : i.op = .cast .inttoptr (.const (.int (.int 64) 0))) :
    i'.op = i.op := by
  obtain ⟨id, t, op⟩ := i
  obtain ⟨id', t', op'⟩ := i'
  cases hi
  cases h.op with
  | cast _ ha =>
      cases ha
      rfl
  | other hruled => cases hruled

end Instr.Zeroed

namespace Function.Zeroed

variable {f f' : Function}

theorem pointwise (h : f.Zeroed f') : f.Pointwise (Instr.Zeroed f) f' where
  rest := h.rest
  blocks b := by
    have hb := h.blocks b
    generalize f.blocks[b]? = x, f'.blocks[b]? = y at hb
    cases hb with
    | none => exact .none
    | some hb => exact .some ⟨hb.name, hb.instrs⟩

theorem outline (h : f.Zeroed f') : f.SameOutline f' := h.pointwise.outline

theorem instrs (h : f.Zeroed f') (b : Nat) :
    List.Forall₂ (Instr.Zeroed f) (f.instrs b) (f'.instrs b) :=
  h.pointwise.instrs b

theorem leadingPhis (h : f.Zeroed f') (b : Nat) :
    List.Forall₂ (Instr.Zeroed f) (f.leadingPhis b) (f'.leadingPhis b) :=
  h.pointwise.leadingPhis (fun _ _ hi => hi.op.isPhi) b

end Function.Zeroed

namespace Module.Zeroed

variable {m m' : Module}

theorem function? (h : m.Zeroed m') (k : Nat) :
    Option.Rel Function.Zeroed (m.function? k) (m'.function? k) := by
  refine Module.function?_rel h.symbols (fun s s' hs => ?_) k
  cases s <;> cases s' <;> first | exact hs | trivial

end Module.Zeroed

end Ssa

/-
# `Ssa.Proofs.Exec.Pointwise` — runs of functions related instruction by instruction

Two modules have functions in the same places that are related instruction by instruction.  Where related
instructions ask for the same, and related phis have the same values, machines for the two are at one place
after every step, with the same values and one memory.  This is so for any rules.

**Proved here.**

    machines go on at one place                       (`Program.Pointwise.jump`, `.enter`, `.step`)
    and come to the same, with the same memory        (`Program.Pointwise.run`, `.call`)
-/
import Ssa.Exec.Machine
import Ssa.Proofs.Pairs
import Ssa.Proofs.Program.Pointwise

namespace Ssa

open Effect (Paired)

/-! ## Programs and frames -/

/-- Two programs of which the functions are related instruction by instruction, and related instructions
come to the same by some rules. -/
structure Program.Pointwise (rules : Rules) (R : Instr → Instr → Prop) (p p' : Program) : Prop where
  functions : ∀ k : Nat, Option.Rel (Function.Pointwise R) (p.module.function? k) (p'.module.function? k)
  id : ∀ i i', R i i' → i'.id = i.id
  isPhi : ∀ i i', R i i' → i'.op.isPhi = i.op.isPhi
  perform : ∀ f f' env i i', f.Pointwise R f' → R i i' →
    rules.perform p' f' env i' = rules.perform p f env i
  phiValue : ∀ f f' env source i i', f.Pointwise R f' → R i i' →
    Machine.phiValue rules p' f' env source i' = Machine.phiValue rules p f env source i

/-- Two frames are at one place of functions that are so related, with the same values. -/
structure Frame.Pointwise (R : Instr → Instr → Prop) (fr fr' : Frame) : Prop where
  function : fr.function.Pointwise R fr'.function
  rest : ∃ function, fr' = { fr with function }

namespace Frame.Pointwise

variable {R : Instr → Instr → Prop} {fr fr' : Frame}

theorem env (h : fr.Pointwise R fr') : fr'.env = fr.env := by
  obtain ⟨_, rfl⟩ := h.rest
  rfl

theorem block (h : fr.Pointwise R fr') : fr'.block = fr.block := by
  obtain ⟨_, rfl⟩ := h.rest
  rfl

theorem current? (h : fr.Pointwise R fr') : Option.Rel R fr.current? fr'.current? := by
  have hi := h.function.getElem? fr.block fr.pc
  obtain ⟨_, rfl⟩ := h.rest
  exact hi

theorem advance (h : fr.Pointwise R fr') (id : Nat) (v : Value) :
    (fr.advance id v).Pointwise R (fr'.advance id v) := by
  refine ⟨h.function, ?_⟩
  obtain ⟨function, rfl⟩ := h.rest
  exact ⟨function, rfl⟩

theorem await (h : fr.Pointwise R fr') (id : Nat) : (fr.await id).Pointwise R (fr'.await id) := by
  refine ⟨h.function, ?_⟩
  obtain ⟨function, rfl⟩ := h.rest
  exact ⟨function, rfl⟩

theorem resume (h : fr.Pointwise R fr') (v : Value) : (fr.resume v).Pointwise R (fr'.resume v) := by
  have hpending : fr'.pending = fr.pending := by
    obtain ⟨_, rfl⟩ := h.rest
    rfl
  unfold Frame.resume
  rw [hpending]
  cases fr.pending with
  | none => exact h
  | some id => exact h.advance id v

end Frame.Pointwise

/-- Two machines are at one place, or done with one value. -/
inductive Machine.State.Pointwise (R : Instr → Instr → Prop) : Machine.State → Machine.State → Prop
  | running {fr fr' : Frame} {waiting waiting' : List Frame} : fr.Pointwise R fr' →
      List.Forall₂ (Frame.Pointwise R) waiting waiting' →
      Pointwise R (.running fr waiting) (.running fr' waiting')
  | done (v : Value) : Pointwise R (.done v) (.done v)

theorem Machine.leave_pointwise {R : Instr → Instr → Prop} (v : Value) {waiting waiting' : List Frame}
    (h : List.Forall₂ (Frame.Pointwise R) waiting waiting') :
    (leave v waiting).Pointwise R (leave v waiting') := by
  cases h with
  | nil => exact .done v
  | cons hcaller hrest => exact .running (hcaller.resume v) hrest

/-- One memory for both. -/
abbrev Machine.alongside : Pairing Memory Memory := .still Eq

/-! ## Steps -/

namespace Program.Pointwise

open Machine (alongside)

variable {rules : Rules} {R : Instr → Instr → Prop} {p p' : Program} {f f' : Function} {fr fr' : Frame}
  {waiting waiting' : List Frame} {mem : Memory} (hp : p.Pointwise rules R p')
include hp

theorem mapM_phiValue (hf : f.Pointwise R f') (env : Env) (source : Option Nat) (target : Nat) :
    (f'.leadingPhis target).mapM (Machine.phiValue rules p' f' env source) =
      (f.leadingPhis target).mapM (Machine.phiValue rules p f env source) := by
  have hphis := hf.leadingPhis hp.isPhi target
  generalize f.leadingPhis target = is, f'.leadingPhis target = is' at hphis
  induction hphis with
  | nil => rfl
  | cons hi _ ih => rw [List.mapM_cons, List.mapM_cons, hp.phiValue f f' env source _ _ hf hi, ih]

/-- Two frames go on at one block. -/
theorem jump (hfr : fr.Pointwise R fr') (source : Option Nat) (target : Nat) :
    Paired alongside () (Machine.jump rules p fr source target) mem
      (Machine.jump rules p' fr' source target) mem fun _ => Frame.Pointwise R := by
  have hlength := (hfr.function.leadingPhis hp.isPhi target).length_eq
  unfold Machine.jump
  dsimp only
  rw [hfr.env, hp.mapM_phiValue hfr.function, ← hlength]
  refine .same fun vs mem₁ _ => .pure rfl ⟨hfr.function, ?_⟩
  obtain ⟨function, rfl⟩ := hfr.rest
  exact ⟨function, rfl⟩

/-- Two functions are entered. -/
theorem enter (hf : f.Pointwise R f') (args : List Value) :
    Paired alongside () (Machine.enter rules p f args) mem (Machine.enter rules p' f' args) mem
      fun _ => Frame.Pointwise R := by
  unfold Machine.enter
  rw [hf.outline.isDeclaration, hf.outline.params, hf.outline.name]
  split
  · exact .stop (.throw rfl _)
  · exact .same fun env mem₁ _ => hp.jump ⟨hf, f', rfl⟩ none 0

theorem enterAt (callee : Nat) (args : List Value) :
    Paired alongside () (Machine.enterAt rules p callee args) mem (Machine.enterAt rules p' callee args) mem
      fun _ => Frame.Pointwise R := by
  unfold Machine.enterAt
  have hk := hp.functions callee
  generalize p.module.function? callee = x, p'.module.function? callee = y at hk
  cases hk with
  | none => exact .throw rfl _
  | some hf => exact hp.enter hf args

theorem step (hfr : fr.Pointwise R fr') (hwaiting : List.Forall₂ (Frame.Pointwise R) waiting waiting') :
    Paired alongside () (Machine.step rules p fr waiting) mem (Machine.step rules p' fr' waiting') mem
      fun _ => Machine.State.Pointwise R := by
  have hcurrent := hfr.current?
  unfold Machine.step
  generalize fr.current? = x, fr'.current? = y at hcurrent
  cases hcurrent with
  | none =>
      dsimp only
      rw [hfr.block, hfr.function.outline.blockName, hfr.function.outline.name]
      exact .throw rfl _
  | some hi =>
      dsimp only
      rw [hfr.env, hp.perform _ _ _ _ _ hfr.function hi, hp.id _ _ hi, hfr.block]
      refine .same fun signal mem₁ _ => ?_
      cases signal with
      | value v => exact .pure rfl (.running (hfr.advance _ v) hwaiting)
      | ret v => exact .pure rfl (Machine.leave_pointwise v hwaiting)
      | goto t =>
          refine .bind (hp.jump hfr _ t) fun _ _ _ _ _ _ hs hnext => ?_
          cases hs
          exact .pure rfl (.running hnext hwaiting)
      | call c args =>
          refine .bind (hp.enterAt c args) fun _ _ _ _ _ _ hs hinner => ?_
          cases hs
          exact .pure rfl (.running hinner (.cons (hfr.await _) hwaiting))

/-! ## Runs -/

theorem run (steps : Nat) {st st' : Machine.State} (hst : st.Pointwise R st') :
    Paired alongside () (Machine.run rules p steps st) mem (Machine.run rules p' steps st') mem
      fun _ => Eq := by
  induction steps generalizing st st' mem with
  | zero =>
      cases hst with
      | done v => exact .pure rfl rfl
      | running => exact .throw rfl _
  | succ steps ih =>
      cases hst with
      | done v => exact .pure rfl rfl
      | running hfr hwaiting =>
          refine .bind (hp.step hfr hwaiting) fun _ _ _ _ _ _ hs hnext => ?_
          cases hs
          exact ih hnext

/-- Calls of functions that are so related come to the same, and leave the same memory. -/
theorem call (steps : Nat) (hf : f.Pointwise R f') (args : List Value) (mem : Memory) :
    (Machine.call rules p' steps f' args).on mem = (Machine.call rules p steps f args).on mem := by
  have hcall : Paired alongside () (Machine.call rules p steps f args) mem
      (Machine.call rules p' steps f' args) mem fun _ => Eq := by
    refine .bind (hp.enter hf args) fun _ _ _ _ _ _ hs hfr => ?_
    cases hs
    exact hp.run steps (.running hfr .nil)
  obtain ⟨_, -, hmem, hagree⟩ := hcall
  exact Prod.ext hagree.eq.symm (show _ = _ from hmem).symm

end Program.Pointwise

end Ssa

/-
# `Ssa.Proofs.Exec.Remaining` — how much is left of a run

In a module without cycles, every state of a run has a number of steps that the run can still take at
most.  A frame in a function `f` counts

    (height of its block · breadth of f  +  breadth of f − its position)  ·  weight of f

where the breadth of a function is above the number of instructions of any of its blocks, and its weight,
a power whose exponent is its depth, is above all that a function that it calls can count.  A frame that
waits counts as if it had passed its call already.  An instruction brings the position on, a jump the
height down; a call takes the one step at the call off the caller, which is more than the callee counts; a
return takes off what the callee had left.

**Proved here.**

    every step takes something off                                        (`remaining_lt`)
    a state is not run for more steps than are left                       (`run_ends`)
    a module without cycles ends every call, within a number of steps
      that its text alone determines                                      (`Module.IsAcyclic.call_ends`)
-/
import Ssa.Proofs.Exec.Escapes
import Ssa.Proofs.Exec.Recursive
import Ssa.Proofs.Exec.Signals
import Mathlib.Algebra.Order.BigOperators.Group.List

namespace Ssa

/-! ## What functions and frames count -/

/-- A number above that of the instructions of any block. -/
def Function.breadth (f : Function) : Nat := (f.blocks.toList.map (·.instrs.length)).sum + 1

/-- What a function can count, its calls passed over. -/
def Function.work (f : Function) : Nat := (f.blocks.size + 1) * f.breadth

/-- What a function counts from a position of a block on, its calls passed over. -/
noncomputable def Function.ahead (f : Function) (b pc : Nat) : Nat :=
  f.height b * f.breadth + (f.breadth - pc)

/-- A number that no function of a module counts more than, its calls passed over. -/
def Module.work (m : Module) : Nat :=
  ((List.range m.symbols.size).map fun k => (m.function? k).elim 0 Function.work).sum

/-- What one instruction of a function counts, with all that it may call. -/
noncomputable def Module.weight (m : Module) (f : Function) : Nat := (m.work + 1) ^ m.depth f

/-- A number of steps in which every call of a function of the module ends that has no cycle. -/
def Module.span (m : Module) : Nat := (m.work + 1) ^ (m.symbols.size + 1)

namespace Function

variable (f : Function)

theorem length_instrs_lt (b : Nat) : (f.instrs b).length < f.breadth := by
  cases hb : f.blocks[b]? with
  | none => simp [instrs, hb, breadth]
  | some block =>
      rw [instrs_of_block hb]
      have hmem : block ∈ f.blocks.toList := List.mem_of_getElem? (by simpa using hb)
      exact Nat.lt_succ_of_le (List.le_sum_of_mem (List.mem_map_of_mem hmem))

theorem ahead_le (b pc : Nat) : f.ahead b pc ≤ f.work := by
  have hheight : f.height b * f.breadth ≤ f.blocks.size * f.breadth :=
    Nat.mul_le_mul_right _ (f.height_le b)
  rw [work, Nat.succ_mul]
  exact Nat.add_le_add hheight (Nat.sub_le _ _)

/-- An instruction brings the position on. -/
theorem ahead_succ {b pc : Nat} (hpc : pc < (f.instrs b).length) :
    f.ahead b (pc + 1) + 1 = f.ahead b pc := by
  have hlt := f.length_instrs_lt b
  unfold ahead
  omega

/-- Wherever control goes on in a lower block, less is left. -/
theorem ahead_lt {b c pc : Nat} (hlower : f.height c < f.height b) (hpc : pc < (f.instrs b).length)
    (pc' : Nat) : f.ahead c pc' < f.ahead b pc := by
  have hlt := f.length_instrs_lt b
  calc f.ahead c pc' ≤ (f.height c + 1) * f.breadth := by
        rw [Nat.succ_mul]
        exact Nat.add_le_add_left (Nat.sub_le _ _) _
    _ ≤ f.height b * f.breadth := Nat.mul_le_mul_right _ hlower
    _ < f.ahead b pc := Nat.lt_add_of_pos_right (by omega)

end Function

namespace Module

variable {m : Module} {f g : Function} {k : Nat}

theorem work_le (hf : m.function? k = some f) : f.work ≤ m.work := by
  refine List.le_sum_of_mem (List.mem_map.mpr ⟨k, ?_, ?_⟩)
  · exact List.mem_range.mpr (lt_of_function? hf)
  · rw [hf]
    rfl

theorem weight_pos (m : Module) (f : Function) : 0 < m.weight f := Nat.pow_pos (Nat.succ_pos _)

/-- All that a shallower function counts is less than what one instruction does. -/
theorem work_mul_weight_lt (hg : m.function? k = some g) (hdepth : m.depth g < m.depth f) :
    g.work * m.weight g < m.weight f := by
  calc g.work * m.weight g < (m.work + 1) * m.weight g :=
        Nat.mul_lt_mul_of_pos_right (Nat.lt_succ_of_le (work_le hg)) (m.weight_pos g)
    _ = (m.work + 1) ^ (m.depth g + 1) := (pow_succ' ..).symm
    _ ≤ m.weight f := Nat.pow_le_pow_right (Nat.succ_pos _) hdepth

end Module

/-- What a frame counts from a position of its block on. -/
noncomputable def Frame.remaining (m : Module) (fr : Frame) (pc : Nat) : Nat :=
  fr.function.ahead fr.block pc * m.weight fr.function

namespace Frame

variable {m : Module} {fr : Frame} {i : Instr}

theorem lt_of_current (hi : fr.current? = some i) : fr.pc < (fr.function.instrs fr.block).length :=
  (List.getElem?_eq_some_iff.mp hi).1

/-- What is left at an instruction is one instruction and what is left after it. -/
theorem remaining_succ (m : Module) (hi : fr.current? = some i) :
    fr.remaining m (fr.pc + 1) + m.weight fr.function = fr.remaining m fr.pc := by
  rw [remaining, remaining, ← fr.function.ahead_succ (lt_of_current hi), Nat.succ_mul]

theorem remaining_lt_span {k : Nat} (hk : m.function? k = some fr.function) (pc : Nat) :
    fr.remaining m pc < m.span := by
  have hdepth : m.depth fr.function ≤ m.symbols.size := countBelow_le _ _
  have hwork : fr.function.ahead fr.block pc < m.work + 1 :=
    Nat.lt_succ_of_le ((fr.function.ahead_le _ _).trans (Module.work_le hk))
  calc fr.remaining m pc < (m.work + 1) * m.weight fr.function :=
        Nat.mul_lt_mul_of_pos_right hwork (m.weight_pos _)
    _ ≤ (m.work + 1) * (m.work + 1) ^ m.symbols.size :=
        Nat.mul_le_mul_left _ (Nat.pow_le_pow_right (Nat.succ_pos _) hdepth)
    _ = m.span := (pow_succ' ..).symm

end Frame

namespace Machine

open Interpreted (rules)

/-! ## What states count -/

/-- What is left of a run at a state. -/
noncomputable def State.remaining (m : Module) : State → Nat
  | .running fr waiting =>
    fr.remaining m fr.pc + (waiting.map fun w => w.remaining m (w.pc + 1)).sum + 1
  | .done _ => 0

variable {p : Program} {f : Function} {args : List Value} {mem mem₁ mem' : Memory} {k : Nat}

section

variable (hacyclic : p.module.IsAcyclic) (hf : p.module.function? k = some f)
include hacyclic hf

/-- Every step takes something off. -/
theorem remaining_lt {fr : Frame} {waiting : List Frame} {st : State}
    (hfr : Reaches rules p f args mem (.running fr waiting) mem₁)
    (hs : (step rules p fr waiting).on mem₁ = (.ok st, mem')) :
    st.remaining p.module < (State.running fr waiting).remaining p.module := by
  have hof := reaches_member hf hfr
  have hawaits := reaches_awaits hfr
  obtain ⟨j, hj⟩ := hof fr (.head _)
  cases stepped_of_on hs with
  | @bound i v _ hi hp =>
      have hweight := p.module.weight_pos fr.function
      have hafter : (fr.advance i.id v).remaining p.module (fr.advance i.id v).pc +
          p.module.weight fr.function = fr.remaining p.module fr.pc := fr.remaining_succ p.module hi
      simp only [State.remaining]
      omega
  | @left i v _ hi hp =>
      cases waiting with
      | nil => exact Nat.succ_pos _
      | cons caller rest =>
          obtain ⟨_, _, _, _, _, _, hpending⟩ := hawaits caller (.head _)
          have hweight := p.module.weight_pos fr.function
          have hgone := fr.remaining_succ p.module hi
          simp only [State.remaining, leave, Frame.resume, hpending, List.map_cons, List.sum_cons]
          show caller.remaining p.module (caller.pc + 1) + _ + 1 < _
          omega
  | @jumped i t next _ _ hi hp hjump =>
      have hlower := hacyclic.height_lt hj
        (Function.leads_of_target (List.mem_of_getElem? hi) (Interpreted.perform_asks hp))
      have hnext : next.remaining p.module next.pc < fr.remaining p.module fr.pc := by
        obtain ⟨_, rfl⟩ := eq_of_jump hjump
        exact Nat.mul_lt_mul_of_pos_right (fr.function.ahead_lt hlower (Frame.lt_of_current hi) _)
          (p.module.weight_pos _)
      simp only [State.remaining]
      omega
  | @called i c g _ inner _ _ hi hp hg he =>
      have hdepth := hacyclic.depth_lt
        ⟨fr.block, i, List.mem_of_getElem? hi, (Interpreted.perform_asks hp).1⟩ hg
      have hinner : inner.remaining p.module inner.pc < p.module.weight fr.function := by
        rw [Frame.remaining, function_of_enter he]
        exact (Nat.mul_le_mul_right _ (g.ahead_le _ _)).trans_lt (Module.work_mul_weight_lt hg hdepth)
      have hafter : (fr.await i.id).remaining p.module ((fr.await i.id).pc + 1) +
          p.module.weight fr.function = fr.remaining p.module fr.pc := fr.remaining_succ p.module hi
      simp only [State.remaining, List.map_cons, List.sum_cons]
      omega

/-! ## Runs -/

/-- From a state that is reached, a run ends within as many steps as are left there. -/
theorem run_ends {n : Nat} {st : State} (hst : Reaches rules p f args mem st mem₁)
    (hn : st.remaining p.module ≤ n) :
    ∃ r mem', Endings r ∧ ∀ k, (run rules p (n + k) st).on mem₁ = (r, mem') := by
  induction n generalizing st mem₁ with
  | zero =>
      cases st with
      | running => exact absurd hn (Nat.not_succ_le_zero _)
      | done v => exact ⟨.ok v, mem₁, .ok v, fun k => by rw [run_done]; rfl⟩
  | succ n ih =>
      cases st with
      | done v => exact ⟨.ok v, mem₁, .ok v, fun k => by rw [run_done]; rfl⟩
      | running fr waiting =>
          rcases hs : (step rules p fr waiting).on mem₁ with ⟨e | next, mem₂⟩
          · refine ⟨.error e, mem₂, Endings.error_iff.mpr (Interpreted.step_endsRun hs), fun k => ?_⟩
            rw [Nat.add_right_comm, on_run_succ, hs]
          · have hlt := remaining_lt hacyclic hf hst hs
            obtain ⟨r, mem', hr, hrun⟩ := ih (.stepped hst hs) (by omega)
            refine ⟨r, mem', hr, fun k => ?_⟩
            rw [Nat.add_right_comm, on_run_succ, hs]
            exact hrun k

end

end Machine

/-- In a module without cycles every call of a function ends, in a value or in a failure that ends runs,
whatever the arguments are and whatever the cells hold: the steps that `Module.span` counts are enough,
and more do not change what comes of it. -/
theorem Module.IsAcyclic.call_ends {m : Module} (h : m.IsAcyclic) (owner : Nat) (types : TypeTable)
    {k : Nat} {f : Function} (hf : m.function? k = some f) (args : List Value) (mem : Memory) :
    ∃ r mem', Endings r ∧ ∀ n,
      (Machine.call Interpreted.rules ⟨owner, types, m⟩ (m.span + n) f args).on mem = (r, mem') := by
  rcases he : (Machine.enter Interpreted.rules ⟨owner, types, m⟩ f args).on mem with ⟨e | fr, mem₁⟩
  · refine ⟨.error e, mem₁, ?_, fun n => Effect.on_bind_of_error he⟩
    exact Interpreted.eval_endsRun (Machine.eval_call_of_error he)
  · have hleft : (Machine.State.running fr []).remaining m ≤ m.span :=
      Frame.remaining_lt_span ((Machine.function_of_enter he).symm ▸ hf) fr.pc
    obtain ⟨r, mem', hr, hrun⟩ :=
      Machine.run_ends (p := ⟨owner, types, m⟩) h hf (.entered he) hleft
    exact ⟨r, mem', hr, fun n => (Effect.on_bind_of_ok he).trans (hrun n)⟩

/-- A function that goes one of two ways, on one of them through a call of another function. -/
def detour : Draft where
  types := []
  globals := []
  functions := [
    ⟨"next", .int 8, [.int 8], false, some [⟨"e", "e", [
      ⟨some "y", "y", .op (.int .add (.key "0") (.constant (.typed (.int 8) (.int 1))))⟩,
      ⟨none, "", .op (.ret (some (.key "y")))⟩]⟩]⟩,
    ⟨"f", .int 8, [.int 1, .int 8], false, some [
      ⟨"e", "e", [⟨none, "", .op (.condBr (.key "0") "far" "near")⟩]⟩,
      ⟨"far", "far", [
        ⟨some "z", "z", .op (.call (.symbol "next") [.key "1"])⟩,
        ⟨none, "", .op (.br "near")⟩]⟩,
      ⟨"near", "near", [
        ⟨some "x", "x", .phi (.int 8) [(.key "1", "e"), (.key "z", "far")]⟩,
        ⟨none, "", .op (.ret (some (.key "x")))⟩]⟩]⟩]

/-- The way through the other function ends. -/
theorem detour_call_ends : (detour.written "m").IsAcyclic ∧
    ∃ f, (detour.written "m").function? 1 = some f ∧ ∃ r mem', Endings r ∧ ∀ n,
      (Machine.call Interpreted.rules ⟨0, [], detour.written "m"⟩ ((detour.written "m").span + n) f
        [.int 1, .int 7]).on .empty = (r, mem') := by
  have hacyclic : (detour.written "m").IsAcyclic := Module.isAcyclic_of_forward (by decide +kernel)
  obtain ⟨f, hf⟩ : ∃ f, (detour.written "m").function? 1 = some f :=
    Option.isSome_iff_exists.mp (by decide +kernel)
  exact ⟨hacyclic, f, hf, hacyclic.call_ends 0 [] hf [.int 1, .int 7] .empty⟩

end Ssa

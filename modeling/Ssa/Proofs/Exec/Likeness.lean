/-
# `Ssa.Proofs.Exec.Likeness` — runs of modules that are alike

The interpreter goes by the functions of a module, and by the types and the initializers of its
variables, but not by whether lines are fixed.  So alike modules run alike.

**Proved here.**

    a machine goes by what operands stand for, what instructions ask for, and functions   (`Machine.call_congr`)
    the interpreter runs alike modules alike                                                (`Interpreted.call_alike`)
-/
import Ssa.Proofs.Program.Lines
import Ssa.Exec.Interpreted

namespace Ssa

/-! ## Machines -/

namespace Machine

variable {rules : Rules} {p p' : Program}

theorem jump_congr (heval : rules.eval p' = rules.eval p) : jump rules p' = jump rules p := by
  have hphi : phiValue rules p' = phiValue rules p := by
    funext f env source i
    rw [phiValue, phiValue, heval]
  funext fr source target
  rw [jump, jump, hphi]

/-- A machine goes by what operands stand for, what instructions ask for, and which functions there
are. -/
theorem call_congr (heval : rules.eval p' = rules.eval p) (hperform : rules.perform p' = rules.perform p)
    (hfunctions : p'.module.function? = p.module.function?) : call rules p' = call rules p := by
  have henter : enter rules p' = enter rules p := by
    funext f args
    rw [enter, enter, jump_congr heval]
  have henterAt : enterAt rules p' = enterAt rules p := by
    funext callee args
    rw [enterAt, enterAt, hfunctions, henter]
  have hstep : step rules p' = step rules p := by
    funext fr waiting
    unfold step
    rw [hperform, jump_congr heval, henterAt]
  have hrun (n : Nat) (s : State) : run rules p' n s = run rules p n s := by
    induction n generalizing s with
    | zero => cases s <;> rfl
    | succ n ih =>
        cases s with
        | done v => rfl
        | running fr waiting => rw [run, run, hstep, funext ih]
  funext n f args
  rw [call, call, henter]
  exact congrArg _ (funext fun fr => hrun n _)

end Machine

/-! ## The interpreter -/

namespace Interpreted

variable {names : List String} {m m' : Module}

theorem eval_alike (h : m.Alike names m') (owner : Nat) (types : TypeTable) :
    eval ⟨owner, types, m'⟩ = eval ⟨owner, types, m⟩ := by
  funext f env o
  cases o with
  | global i t =>
      unfold eval
      dsimp only
      rcases h.at_cases i with ⟨hs, hs'⟩ | ⟨s, s', hs, hs', halike⟩
      · rw [hs, hs']
      · rw [hs, hs']
        rcases s with v | g <;> rcases s' with v' | g' <;> try contradiction
        · obtain ⟨-, htype, hinit, -⟩ := halike
          dsimp only
          unfold globalCell initialValue
          rw [htype, hinit]
        · rw [show g' = g from halike]
  | _ => rfl

theorem perform_alike (h : m.Alike names m') (owner : Nat) (types : TypeTable) :
    perform ⟨owner, types, m'⟩ = perform ⟨owner, types, m⟩ := by
  funext f env i
  have hcall (ev : Operand → Exec Value) (callee : Operand) (args : List Operand) :
      call ⟨owner, types, m'⟩ ev f callee args = call ⟨owner, types, m⟩ ev f callee args := by
    unfold call
    dsimp only
    rw [h.function?]
  unfold perform
  dsimp only
  rw [eval_alike h, funext₂ (hcall _)]

/-- The interpreter runs alike modules alike. -/
theorem call_alike (h : m.Alike names m') (owner : Nat) (types : TypeTable) :
    Machine.call rules ⟨owner, types, m'⟩ = Machine.call rules ⟨owner, types, m⟩ :=
  Machine.call_congr (eval_alike h owner types) (perform_alike h owner types) h.function?

end Interpreted

end Ssa

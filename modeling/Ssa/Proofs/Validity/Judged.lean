/-
# `Ssa.Proofs.Validity.Judged` — modules are judged by what can be read off them

The check of a module looks at its functions and at the lines of its variables, but not at whether a
line is fixed.  So alike modules get one judgement, and writing a module does not change the one it
gets.

**Proved here.**

    alike modules are judged alike                            (`Module.Alike.check_eq`)
    what a check fails for is that the module does not pass it  (`Module.check_error`)
-/
import Ssa.Proofs.Program.Lines
import Ssa.Validity.Check

namespace Ssa

/-! ## The judgement of alike modules -/

namespace Module.Alike

variable {names : List String} {m m' : Module}

theorem readsAt_eq (h : m.Alike names m') (types : TypeTable) :
    Operand.readsAt types m' = Operand.readsAt types m := by
  funext f t o
  cases o with
  | global i u =>
      rw [Operand.readsAt, Operand.readsAt]
      rcases h.at_cases i with ⟨hs, hs'⟩ | ⟨s, s', hs, hs', halike⟩
      · rw [hs, hs']
      · rw [hs, hs', Option.any_some, Option.any_some, halike.type]
  | _ => rfl

theorem instrReads_eq (h : m.Alike names m') (types : TypeTable) :
    Instr.reads types m' = Instr.reads types m := by
  have hreads : Operand.reads types m' = Operand.reads types m := by
    funext f o
    rw [Operand.reads, Operand.reads, h.readsAt_eq]
  have hcall : callReads types m' = callReads types m := by
    funext f callee args
    rw [callReads, callReads, hreads, h.readsAt_eq]
  funext f i
  unfold Instr.reads
  rw [hreads, h.readsAt_eq, hcall]

theorem symbolReads_eq (h : m.Alike names m') (types : TypeTable) {s s' : Symbol} (hs : s.Alike s') :
    s'.reads types m' = s.reads types m := by
  rcases s with v | f <;> rcases s' with w | g <;> try contradiction
  · obtain ⟨hname, htype, -, hline⟩ := hs
    rw [Symbol.reads, Symbol.reads, Variable.reads, Variable.reads, hname, htype, hline, h.readsAt_eq]
  · have hblock : Block.reads types m' = Block.reads types m := by
      funext f b
      rw [Block.reads, Block.reads, h.instrReads_eq]
    cases (hs : g = f)
    rw [Symbol.reads, Symbol.reads, Function.reads, Function.reads, hblock]

theorem isReadable_eq (h : m.Alike names m') (types : TypeTable) :
    m'.isReadable types = m.isReadable types := by
  have hread : m'.declarationsRead types = m.declarationsRead types := by
    rw [declarationsRead, declarationsRead, h.all_eq fun _ _ hs => h.symbolReads_eq types hs]
  rw [isReadable, isReadable, h.name, hread]

theorem isVerified_eq (h : m.Alike names m') : m'.isVerified = m.isVerified := by
  have haddress : Operand.isAddressable m' = Operand.isAddressable m := by
    funext o
    cases o with
    | global g t => rw [Operand.isAddressable, Operand.isAddressable, h.function?]
    | _ => rfl
  have hinstr : Instr.isVerified m' = Instr.isVerified m := by
    funext i
    rw [Instr.isVerified, Instr.isVerified, haddress, h.function?]
  have hblock : Function.blockIsVerified m' = Function.blockIsVerified m := by
    funext f heads b block
    rw [Function.blockIsVerified, Function.blockIsVerified, hinstr]
  refine h.all_eq fun s s' hs => ?_
  rcases s with v | f <;> rcases s' with w | g <;> try contradiction
  · dsimp only
    rw [hs.2.2.2, haddress]
  · cases (hs : g = f)
    dsimp only
    rw [Function.isVerified, Function.isVerified, hblock]

/-- Alike modules are judged alike. -/
theorem check_eq (h : m.Alike names m') (types : TypeTable) : m'.check types = m.check types := by
  rw [check, check, defect?, defect?, h.isReadable_eq, h.isVerified_eq, h.name]

end Module.Alike

/-! ## Failures of checks -/

/-- A check fails only because the module does not pass it. -/
theorem Module.check_error {types : TypeTable} {m : Module} {f : Failure}
    (h : m.check types = .error f) : f.isVerification = true := by
  unfold check at h
  split at h
  · rename_i d hd
    cases h
    cases d <;> rfl
  · cases h

end Ssa

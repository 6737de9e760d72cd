/-
# `Ssa.Proofs.Validity.Accepted` — what the check of a module says of its parts

The check judges a module as a whole.  Here is what it says of each function, block and instruction.
A module whose name ends its text early is not judged at all, so nothing follows for it.
-/
import Ssa.Validity.Check
import Ssa.Proofs.Program.Built

namespace Ssa

/-- A module was judged, and nothing was found against it. -/
structure Module.Accepted (types : TypeTable) (m : Module) : Prop where
  read : m.declarationsRead types = true
  verified : m.isVerified = true

/-- A module that passes its check was judged, unless its text ends within the first line. -/
theorem Module.accepted_of_check {types : TypeTable} {m : Module} (h : m.check types = .ok ())
    (hname : isCutShort m.name = false) : m.Accepted types := by
  unfold check at h
  cases hd : m.defect? types with
  | some d => rw [hd] at h; cases h
  | none =>
      unfold defect? at hd
      split at hd
      · cases hd
      · rename_i hread
        rw [hname, Bool.false_or] at hd
        have hver : m.isVerified = true := by
          cases hv : m.isVerified with
          | true => rfl
          | false => rw [hv] at hd; cases hd
        have hread : m.isReadable types = true := by simpa using hread
        rw [isReadable, hname, Bool.false_or] at hread
        exact ⟨(Bool.and_eq_true_iff.mp hread).2, hver⟩

namespace Module.Accepted

variable {types : TypeTable} {m : Module} (h : m.Accepted types)
include h

theorem symbol_reads {k : Nat} {s : Symbol} (hs : m.symbols[k]? = some s) :
    s.reads types m = true := by
  have hall := (Bool.and_eq_true_iff.mp h.read).2
  exact (Array.all_eq_true_iff_forall_mem.mp hall) s (Array.mem_of_getElem? hs)

variable {k : Nat} {f : Function} (hf : m.function? k = some f)
include hf

theorem function_reads : f.reads types m = true :=
  h.symbol_reads (symbol_of_function? hf)

theorem function_verified : f.isVerified m = true := by
  have hall := (Array.all_eq_true_iff_forall_mem.mp h.verified) (.function f)
    (Array.mem_of_getElem? (symbol_of_function? hf))
  exact hall

variable {b : Nat} {block : Block} (hb : f.blocks[b]? = some block)
include hb

theorem block_reads : block.reads types m f = true := by
  have hread := h.function_reads hf
  simp only [Function.reads, Bool.and_eq_true] at hread
  exact (Array.all_eq_true_iff_forall_mem.mp hread.2) block (Array.mem_of_getElem? hb)

theorem block_verified : f.blockIsVerified m f.available b block = true := by
  have hver := h.function_verified hf
  simp only [Function.isVerified, Bool.and_eq_true, List.all_eq_true] at hver
  refine hver.2 (block, b) ?_
  rw [List.mk_mem_zipIdx_iff_getElem?, Array.getElem?_toList]
  exact hb

end Module.Accepted

namespace Module.Accepted

variable {types : TypeTable} {m : Module} {k b : Nat} {f : Function} {i : Instr}

theorem instr_reads (h : m.Accepted types) (hf : m.function? k = some f) (hi : i ∈ f.instrs b) :
    i.reads types m f = true := by
  obtain ⟨block, hb, hi⟩ := Function.mem_instrs hi
  have hread := h.block_reads hf hb
  simp only [Block.reads, Bool.and_eq_true, List.all_eq_true] at hread
  exact hread.1.1.2 i hi

theorem instr_verified (h : m.Accepted types) (hf : m.function? k = some f)
    (hi : i ∈ f.instrs b) : i.isVerified m = true := by
  obtain ⟨block, hb, hi⟩ := Function.mem_instrs hi
  have hver := h.block_verified hf hb
  simp only [Function.blockIsVerified, Bool.and_eq_true, List.all_eq_true] at hver
  exact hver.1.1.2 i hi

end Module.Accepted

end Ssa

/-
# `Ssa.Proofs.Exec.Outcome` — what a computation of a run comes to

A computation takes a memory and comes to an outcome, a value or a failure, and to the memory that
it leaves.  Here is what the single computations come to, and what an operand stands for.
-/
import Ssa.Exec.Interpreted
import Ssa.Proofs.Effect

namespace Ssa

namespace Exec

variable {α : Type}

@[simp] theorem on_lift (r : Except Failure α) (mem : Memory) : (lift r).on mem = (r, mem) := by
  cases r <;> rfl

@[simp] theorem on_allocate (t : Ty) (v : Value) (mem : Memory) :
    (allocate t v).on mem = (.ok (mem.allocate t v).1, (mem.allocate t v).2) := rfl

@[simp] theorem on_write (id : Nat) (v : Value) (mem : Memory) :
    (write id v).on mem = (.ok (), { mem with storage := mem.storage.write id v }) := rfl

@[simp] theorem on_cell (id : Nat) (mem : Memory) :
    (cell id).on mem = (.ok ((mem.storage.cell? id).getD ⟨.void, .null⟩), mem) := rfl

end Exec

namespace Interpreted

variable {p : Program} {f : Function} {env : Env} {t : Ty}

theorem eval_local {id : Nat} {v : Value} (h : env.lookup id = some v) :
    eval p f env (.local id t) = pure v := by
  unfold eval
  dsimp only
  rw [h]

theorem eval_variable {i : Nat} {x : Variable} (h : p.module.symbols[i]? = some (.variable x)) :
    eval p f env (.global i t) = globalCell f.name i x := by
  unfold eval
  dsimp only
  rw [h]

theorem eval_function {i : Nat} {g : Function} (h : p.module.symbols[i]? = some (.function g)) :
    eval p f env (.global i t) = pure (.function p.owner i g.name g.type.ref) := by
  unfold eval
  dsimp only
  rw [h]

end Interpreted

end Ssa

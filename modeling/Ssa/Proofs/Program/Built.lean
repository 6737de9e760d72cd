/-
# `Ssa.Proofs.Program.Built` — modules as the builder leaves them

The builder gives each instruction the type that its operation asks for, enters its value under
that type into the function, with a number of its own, and refers only to what is there.  None of this
can be read off the text of a module afterwards, which leaves out what pointers point to.
-/
import Mathlib.Data.List.Nodup
import Ssa.Exec.Machine
import Ssa.Program.Typing
import Ssa.Proofs.Validity.Typed

namespace Ssa

/-! ## Symbols and instructions by position -/

theorem Module.symbol_of_function? {m : Module} {k : Nat} {f : Function}
    (h : m.function? k = some f) : m.symbols[k]? = some (.function f) := by
  unfold function? at h
  split at h
  · cases h; assumption
  · cases h

/-- What stands at a position after a symbol was put in the place of another. -/
theorem Module.symbols_replace {m : Module} {k : Nat} (hk : k < m.symbols.size) (s : Symbol) (i : Nat) :
    (m.replace k s).symbols[i]? = if k = i then some s else m.symbols[i]? := by
  simp [Module.replace, Array.getElem?_setIfInBounds, hk]

/-- A symbol is where it was after a further one is declared. -/
theorem Module.symbols_push {m : Module} {k : Nat} {s : Symbol} (h : m.symbols[k]? = some s)
    (further : Symbol) : (m.symbols.push further)[k]? = some s := by
  obtain ⟨hk, -⟩ := Array.getElem?_eq_some_iff.mp h
  rw [Array.getElem?_push_lt hk, ← Array.getElem?_eq_getElem hk, h]

theorem Module.lt_of_function? {m : Module} {k : Nat} {f : Function} (h : m.function? k = some f) :
    k < m.symbols.size :=
  (Array.getElem?_eq_some_iff.mp (symbol_of_function? h)).1

theorem Module.symbol_of_variableAt? {m : Module} {k : Nat} {v : Variable}
    (h : m.variableAt? k = some v) : m.symbols[k]? = some (.variable v) := by
  unfold variableAt? at h
  split at h
  · cases h; assumption
  · cases h

theorem Function.mem_instrs {f : Function} {b : Nat} {i : Instr} (h : i ∈ f.instrs b) :
    ∃ block, f.blocks[b]? = some block ∧ i ∈ block.instrs := by
  unfold instrs at h
  cases hb : f.blocks[b]? with
  | none => rw [hb] at h; cases h
  | some block => rw [hb] at h; exact ⟨block, rfl, h⟩

theorem Function.instrs_of_block {f : Function} {b : Nat} {block : Block}
    (h : f.blocks[b]? = some block) : f.instrs b = block.instrs := by
  rw [instrs, h]
  rfl

/-! ## Built modules -/

/-- An instruction as the builder leaves it. -/
structure Instr.IsBuilt (m : Module) (f : Function) (i : Instr) : Prop where
  bound : ∃ l, f.locals[i.id]? = some l ∧ l.type = i.type
  known : ∀ o ∈ i.op.values, o.IsKnown m f
  asked : ∃ types asked, i.op.typeOf types asked = .ok i.type

/-- A function as the builder leaves it. -/
structure Function.IsBuilt (m : Module) (f : Function) : Prop where
  params : ∀ (j : Nat) t, f.params[j]? = some t → ∃ l, f.locals[j]? = some l ∧ l.type = t
  instrs : ∀ b, ∀ i ∈ f.instrs b, i.IsBuilt m f
  distinct : ∀ b, ((f.instrs b).map Instr.id).Nodup

/-- A module as the builder leaves it. -/
def Module.IsBuilt (m : Module) : Prop := ∀ k f, m.function? k = some f → f.IsBuilt m

end Ssa

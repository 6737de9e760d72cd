/-
# `Ssa.Proofs.Exec.Onward` — where the interpreter leads memories

Whatever the interpreter does, there are three things that it does to a memory: it asks for the cell of a
variable, it adds a cell, and it writes to one.  A memory that comes of another in this way is onward of it:
the one in which an operand was evaluated, an instruction performed, a step taken, or a call made.

The first two of them make new cells only.  So a variable that has a cell keeps it, and no cell is that of two
variables.

**Proved here.**

    evaluating, running and calling lead onward                           (`eval_leads`, `run_leads`, `call_leads`)
    so does going on with a call                                          (`call_onward`)
    onward, cells stay, and variables keep theirs                         (`Onward.storage_extends`, `Onward.keeps`)
    and different ones have different cells                               (`Onward.isApart`)
    two references come to one cell  ⟺  they are to one variable        (`cell_eq_iff`)
-/
import Ssa.Proofs.Exec.Sharing
import Ssa.Proofs.Exec.Within

namespace Ssa

/-- A memory comes of another by what the interpreter of a module does to memories. -/
inductive Memory.Onward (m : Module) (start : Memory) : Memory → Prop
  | here : Onward m start start
  | refers {mem : Memory} (function : String) {i : Nat} {x : Variable} : Onward m start mem →
      m.symbols[i]? = some (.variable x) →
      Onward m start ((Interpreted.globalCell function i x).on mem).2
  | adds {mem : Memory} (c : Cell) : Onward m start mem →
      Onward m start { mem with storage := mem.storage.addCell c }
  | writes {mem : Memory} (id : Nat) (v : Value) : Onward m start mem →
      Onward m start { mem with storage := mem.storage.write id v }

namespace Memory.Onward

variable {m : Module} {mem mem' mem'' : Memory}

theorem trans (h : mem.Onward m mem') (h' : mem'.Onward m mem'') : mem.Onward m mem'' := by
  induction h' with
  | here => exact h
  | refers function _ hx ih => exact .refers function ih hx
  | adds c _ ih => exact .adds c ih
  | writes id v _ ih => exact .writes id v ih

end Memory.Onward

/-! ## Computations -/

theorem Memory.Onward.admits (m : Module) : Memory.Admits m (Memory.Onward m) where
  refl _ := .here
  trans := Memory.Onward.trans
  refers _ function _ _ hx := .refers function .here hx
  adds _ t := .adds ⟨t, Value.zero t⟩ .here

theorem Memory.Onward.admitsWrites (m : Module) : Memory.AdmitsWrites (Memory.Onward m) :=
  fun _ id v => .writes id v .here

/-- A computation leads onward, from any memory. -/
def Exec.Leads {α : Type} (m : Module) (x : Exec α) : Prop := ∀ mem : Memory, mem.Onward m (x.on mem).2

namespace Interpreted

open Exec (Leads)

theorem eval_leads (p : Program) (f : Function) (env : Env) (o : Operand) :
    Leads p.module (eval p f env o) :=
  eval_within (Memory.Onward.admits _) f env o

theorem run_leads (p : Program) (steps : Nat) (st : Machine.State) :
    Leads p.module (Machine.run rules p steps st) :=
  run_within (Memory.Onward.admits _) (Memory.Onward.admitsWrites _) steps st

theorem call_leads (p : Program) (steps : Nat) (f : Function) (args : List Value) :
    Leads p.module (Machine.call rules p steps f args) :=
  call_within (Memory.Onward.admits _) (Memory.Onward.admitsWrites _) steps f args

/-- What a run has done to the memory after some steps leads on to what it has done after more. -/
theorem run_onward (p : Program) {steps more : Nat} (h : steps ≤ more) (st : Machine.State) (mem : Memory) :
    Memory.Onward p.module ((Machine.run rules p steps st).on mem).2
      ((Machine.run rules p more st).on mem).2 := by
  induction steps generalizing more st mem with
  | zero =>
      have hstart : ((Machine.run rules p 0 st).on mem).2 = mem := by cases st <;> rfl
      rw [hstart]
      exact run_leads p more st mem
  | succ steps ih =>
      obtain ⟨more, rfl⟩ : ∃ n, more = n + 1 := ⟨more - 1, by omega⟩
      cases st with
      | done v => exact .here
      | running fr waiting =>
          rw [Machine.run, Machine.run, Effect.on_bind, Effect.on_bind]
          rcases (Machine.step rules p fr waiting).on mem with ⟨e | next, mem'⟩
          · exact .here
          · exact ih (Nat.le_of_succ_le_succ h) next mem'

theorem call_onward (p : Program) (f : Function) (args : List Value) (mem : Memory) {steps more : Nat}
    (h : steps ≤ more) : Memory.Onward p.module ((Machine.call rules p steps f args).on mem).2
      ((Machine.call rules p more f args).on mem).2 := by
  rw [Machine.call, Machine.call, Effect.on_bind, Effect.on_bind]
  rcases (Machine.enter rules p f args).on mem with ⟨e | fr, mem'⟩
  · exact .here
  · exact run_onward p h _ mem'

end Interpreted

/-! ## Cells of variables -/

/-- The cells of variables are there, and none is that of two. -/
structure Memory.IsApart (mem : Memory) : Prop where
  there : ∀ i a, mem.global? i = some a → a < mem.storage.cells.size
  distinct : ∀ i j a, mem.global? i = some a → mem.global? j = some a → i = j

namespace Memory

variable {m : Module} {mem mem' : Memory} {i j a b : Nat}

theorem global?_setGlobal_some (h : (mem.setGlobal i a).global? j = some b) :
    j = i ∧ b = a ∨ j ≠ i ∧ mem.global? j = some b := by
  rw [Ties.global?_setGlobal] at h
  split at h
  · exact .inl ⟨‹_›, (Option.some_inj.mp h).symm⟩
  · exact .inr ⟨‹_›, h⟩

theorem global?_setGlobal_none (h : (mem.setGlobal i a).global? j = none) :
    j ≠ i ∧ mem.global? j = none := by
  rw [Ties.global?_setGlobal] at h
  split at h
  · cases h
  · exact ⟨‹_›, h⟩

namespace IsApart

theorem of_none (h : ∀ i, mem.global? i = none) : mem.IsApart where
  there i _ hi := nomatch (h i).symm.trans hi
  distinct i _ _ hi _ := nomatch (h i).symm.trans hi

theorem addCell (h : mem.IsApart) (c : Cell) :
    IsApart { mem with storage := mem.storage.addCell c } := by
  refine ⟨fun i a hi => ?_, h.distinct⟩
  have hsize : (mem.storage.addCell c).cells.size = mem.storage.cells.size + 1 := Array.size_push c
  exact hsize ▸ Nat.lt_succ_of_lt (h.there i a hi)

theorem write (h : mem.IsApart) (id : Nat) (v : Value) :
    IsApart { mem with storage := mem.storage.write id v } := by
  refine ⟨fun i a hi => ?_, h.distinct⟩
  have hsize : (mem.storage.write id v).cells.size = mem.storage.cells.size := Array.size_modify
  exact hsize ▸ h.there i a hi

/-- A variable is given the cell that is made next, which is beyond those of the others. -/
theorem next (h : mem.IsApart) (i : Nat) (c : Cell) :
    IsApart ({ mem with storage := mem.storage.addCell c }.setGlobal i mem.storage.cells.size) := by
  constructor
  · intro j a hj
    rcases global?_setGlobal_some hj with ⟨rfl, rfl⟩ | ⟨-, hj⟩
    · have hsize : (mem.storage.addCell c).cells.size = mem.storage.cells.size + 1 := Array.size_push c
      exact hsize ▸ Nat.lt_succ_self _
    · exact (h.addCell c).there j a hj
  · intro j k a hj hk
    rcases global?_setGlobal_some hj with ⟨rfl, rfl⟩ | ⟨-, hj⟩ <;>
      rcases global?_setGlobal_some hk with ⟨hki, ha⟩ | ⟨-, hk⟩
    · exact hki.symm
    · exact absurd (h.there k _ hk) (Nat.lt_irrefl _)
    · subst ha
      exact absurd (h.there j _ hj) (Nat.lt_irrefl _)
    · exact h.distinct j k a hj hk

end IsApart

/-- What asking for the cell of a variable leaves. -/
theorem globalCell_leaves (function : String) (i : Nat) (x : Variable) (mem : Memory) :
    ((Interpreted.globalCell function i x).on mem).2 = mem ∨
      mem.global? i = none ∧ ∃ v, Interpreted.initialValue function x = .ok v ∧
        ((Interpreted.globalCell function i x).on mem).2 =
          { mem with storage := mem.storage.addCell ⟨x.type, v⟩ }.setGlobal i mem.storage.cells.size := by
  cases hi : mem.global? i with
  | some a => exact .inl (by rw [Ties.globalCell_of_some function x hi])
  | none =>
      rw [Ties.globalCell_of_none function x hi]
      cases Interpreted.initialValue function x with
      | error e => exact .inl rfl
      | ok v => exact .inr ⟨rfl, v, rfl, rfl⟩

namespace Onward

/-- A variable that has a cell keeps it. -/
theorem keeps (h : mem.Onward m mem') (hi : mem.global? i = some a) : mem'.global? i = some a := by
  induction h with
  | here => exact hi
  | adds | writes => assumption
  | @refers mem₁ function j x _ _ ih =>
      rcases globalCell_leaves function j x mem₁ with heq | ⟨hj, v, -, heq⟩
      · rw [heq]
        exact ih
      · rw [heq, Ties.global?_setGlobal, if_neg]
        · exact ih
        · rintro rfl
          nomatch hj.symm.trans ih

theorem isApart (h : mem.Onward m mem') (hapart : mem.IsApart) : mem'.IsApart := by
  induction h with
  | here => exact hapart
  | adds c _ ih => exact ih.addCell c
  | writes id v _ ih => exact ih.write id v
  | @refers mem₁ function j x _ _ ih =>
      rcases globalCell_leaves function j x mem₁ with heq | ⟨-, v, -, heq⟩
      · rw [heq]
        exact ih
      · rw [heq]
        exact ih.next j ⟨x.type, v⟩

/-- Each cell stays. -/
theorem storage_extends (h : mem.Onward m mem') : mem.storage.Extends mem'.storage := by
  induction h with
  | here => exact .refl _
  | adds c _ ih => exact ih.trans (.addCell _ c)
  | writes id v _ ih => exact ih.trans (.write _ id v)
  | @refers mem₁ function j x _ _ ih =>
      rcases globalCell_leaves function j x mem₁ with heq | ⟨-, v, -, heq⟩
      · rw [heq]
        exact ih
      · rw [heq]
        exact ih.trans (.addCell _ _)

end Onward

end Memory

/-! ## References -/

namespace Interpreted

variable {p : Program} {f g : Function} {env env' : Env} {i j a b : Nat} {t t' : Ty}
  {mem mem₁ mem₂ mem₂' : Memory}

/-- What a reference comes to, if that is a cell: the cell that the variable has then. -/
theorem global?_of_eval (h : (eval p f env (.global i t)).on mem = (.ok (.cell a), mem₁)) :
    mem₁.global? i = some a := by
  unfold eval at h
  dsimp only at h
  split at h
  · rename_i x _
    cases hi : mem.global? i with
    | some id =>
        rw [Ties.globalCell_of_some _ x hi] at h
        cases h
        exact hi
    | none =>
        rw [Ties.globalCell_of_none _ x hi] at h
        cases hv : initialValue f.name x with
        | error e => rw [hv] at h; cases h
        | ok v =>
            rw [hv] at h
            cases h
            exact (Ties.global?_setGlobal _ i _ i).trans (if_pos rfl)
  · cases h
  · cases h

/-- Two references come to one cell if and only if they are to one variable, wherever they stand, and however
much later the second comes to its cell. -/
theorem cell_eq_iff (hapart : mem.IsApart)
    (hfirst : (eval p f env (.global i t)).on mem = (.ok (.cell a), mem₁))
    (honward : mem₁.Onward p.module mem₂)
    (hsecond : (eval p g env' (.global j t')).on mem₂ = (.ok (.cell b), mem₂')) : a = b ↔ i = j := by
  have hfrom : mem.Onward p.module mem₁ := by
    have h := eval_leads p f env (.global i t) mem
    rwa [hfirst] at h
  have hto : mem₁.Onward p.module mem₂' := by
    have h := eval_leads p g env' (.global j t') mem₂
    rw [hsecond] at h
    exact honward.trans h
  have hi : mem₂'.global? i = some a := hto.keeps (global?_of_eval hfirst)
  have hj : mem₂'.global? j = some b := global?_of_eval hsecond
  constructor
  · rintro rfl
    exact ((hfrom.trans hto).isApart hapart).distinct i j a hi hj
  · rintro rfl
    exact Option.some_inj.mp (hi.symm.trans hj)

end Interpreted

end Ssa

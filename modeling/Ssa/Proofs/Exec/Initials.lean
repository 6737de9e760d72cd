/-
# `Ssa.Proofs.Exec.Initials` — what a variable begins with

A variable is given its cell when it is first asked for, with what its initializer comes to.  For a
constant that is what it comes to as an operand, so as long as nothing is stored in the cell a load from
the variable yields just that.  An address comes to nothing there: where the operand would be the cell of
another variable, or a function, the variable cannot even be asked for.

**Proved here.**

    what the interpreter does gives cells only to what they begin with      (`Memory.Opened.admits`)
    a cell holds what its variable begins with until something is stored   (`Lives.begins`)
    a load from a variable in which nothing was stored                     (`Lives.load_initial`)
    a variable that begins with an address                                 (`not_initial`)
-/
import Ssa.Proofs.Exec.Contents
import Ssa.Proofs.Exec.Furnished
import Ssa.Proofs.Session.Admitted

namespace Ssa

open Interpreted (rules eval initialValue constant)

/-! ## Cells of variables -/

/-- A cell is of the type of a variable and holds what that begins with, whoever asked for it. -/
def Memory.HoldsInitial (m : Module) (mem : Memory) (g id : Nat) : Prop :=
  ∃ x function v, m.symbols[g]? = some (.variable x) ∧ initialValue function x = .ok v ∧
    mem.storage.cell? id = some ⟨x.type, v⟩

/-- What becomes of a memory as long as nothing is stored: cells and variables stay as they are, and
variables that are given a cell begin with what is in it. -/
structure Memory.Opened (m : Module) (mem mem' : Memory) : Prop where
  kept : ∀ id c, mem.storage.cell? id = some c → mem'.storage.cell? id = some c
  stays : ∀ g id, mem.global? g = some id → mem'.global? g = some id
  opened : ∀ g id, mem.global? g = none → mem'.global? g = some id → mem'.HoldsInitial m g id

namespace Memory

variable {m : Module} {mem mem' mem'' : Memory} {g id : Nat}

theorem HoldsInitial.kept (h : mem.HoldsInitial m g id)
    (hkept : ∀ id c, mem.storage.cell? id = some c → mem'.storage.cell? id = some c) :
    mem'.HoldsInitial m g id := by
  obtain ⟨x, function, v, hx, hv, hc⟩ := h
  exact ⟨x, function, v, hx, hv, hkept id _ hc⟩

namespace Opened

theorem refl (mem : Memory) : mem.Opened m mem :=
  ⟨fun _ _ h => h, fun _ _ h => h, fun _ _ hnone h => nomatch hnone.symm.trans h⟩

/-- A variable that has a cell begins with what is in it, if it did so when it had one before. -/
theorem holds (h : mem.Opened m mem')
    (hbefore : mem.global? g = some id → mem.HoldsInitial m g id) (hg : mem'.global? g = some id) :
    mem'.HoldsInitial m g id := by
  cases hmem : mem.global? g with
  | none => exact h.opened g id hmem hg
  | some k =>
      cases (h.stays g k hmem).symm.trans hg
      exact (hbefore hmem).kept h.kept

theorem trans (h : mem.Opened m mem') (h' : mem'.Opened m mem'') : mem.Opened m mem'' where
  kept id c hc := h'.kept id c (h.kept id c hc)
  stays g id hg := h'.stays g id (h.stays g id hg)
  opened g id hnone hg := h'.holds (h.opened g id hnone) hg

theorem kept_addCell (mem : Memory) (c : Cell) (id : Nat) (c' : Cell)
    (hc : mem.storage.cell? id = some c') : (mem.storage.addCell c).cell? id = some c' := by
  rw [Storage.cell?_addCell, if_neg (Storage.lt_of_cell? hc).ne, hc]

/-- The interpreter gives a variable a cell with what it begins with, and takes none away. -/
theorem admits (m : Module) : Memory.Admits m (Memory.Opened m) where
  refl := refl
  trans := trans
  refers mem function i x hx := by
    rcases globalCell_leaves function i x mem with heq | ⟨hnone, v, hv, heq⟩
    · rw [heq]
      exact refl mem
    · rw [heq]
      refine ⟨kept_addCell mem _, fun g id hg => ?_, fun g id hg hid => ?_⟩
      · rw [Ties.global?_setGlobal, if_neg]
        · exact hg
        · rintro rfl
          nomatch hnone.symm.trans hg
      · rcases global?_setGlobal_some hid with ⟨rfl, rfl⟩ | ⟨-, hid⟩
        · refine ⟨x, function, v, hx, hv, ?_⟩
          exact (Storage.cell?_addCell _ _ _).trans (if_pos rfl)
        · nomatch hg.symm.trans hid
  adds mem t :=
    ⟨kept_addCell mem _, fun _ _ h => h, fun _ _ hnone h => nomatch hnone.symm.trans h⟩

end Opened

end Memory

/-- The variables of an engine begin with what is in their cells, but for those that something was stored
in. -/
def Memory.Begins (m : Module) (log : List Stored) (mem : Memory) : Prop :=
  ∀ g id, mem.global? g = some id → (∀ s ∈ log, s.cell ≠ id) → mem.HoldsInitial m g id

namespace Memory.Begins

variable {m : Module} {log : List Stored} {mem mem' : Memory}

theorem opened (h : mem.Begins m log) (hopened : mem.Opened m mem') : mem'.Begins m log :=
  fun g id hg hlog => hopened.holds (fun hbefore => h g id hbefore hlog) hg

theorem write (h : mem.Begins m log) (s : Stored) :
    Memory.Begins m (s :: log) { mem with storage := mem.storage.write s.cell s.value } := by
  intro g id hg hlog
  obtain ⟨hne, hlog⟩ := List.forall_mem_cons.mp hlog
  obtain ⟨x, function, v, hx, hv, hc⟩ := h g id hg hlog
  refine ⟨x, function, v, hx, hv, ?_⟩
  rw [Storage.cell?_write, if_neg hne, hc]

end Memory.Begins

namespace Machine

/-- Throughout the life of an engine that begins without storage for its variables, a variable that has a
cell in which nothing was stored begins with what is there. -/
theorem Lives.begins {p : Program} {start mem : Memory} {log : List Stored} {st : Option State}
    (h : Lives p start log st mem) (hstart : start.globals = []) : mem.Begins p.module log := by
  have hR := Memory.Opened.admits p.module
  induction h with
  | fresh =>
      intro g id hg
      rw [Memory.global?, hstart] at hg
      cases hg
  | @entered log st mem mem' f args fr _ he ih | @barred log st mem mem' f args fr _ he ih =>
      have hopened := Interpreted.enter_within hR f args mem
      rw [he] at hopened
      exact ih.opened hopened
  | @stepped log fr waiting mem mem' st _ hstep ih =>
      cases hs : fr.store? p mem with
      | none =>
          have hopened := Interpreted.step_unstored hR waiting hs
          rw [hstep] at hopened
          exact ih.opened hopened
      | some s =>
          obtain ⟨i, v, a, mem₁, -, -, -, hon, -, hstored⟩ := Interpreted.step_of_store? waiting hs
          have hopened := Interpreted.stored_within hR fr v a mem
          rw [hon] at hopened
          cases hstep.symm.trans hstored
          exact (ih.opened hopened).write s
  | @failed log fr waiting mem mem' e _ hstep ih =>
      cases hs : fr.store? p mem with
      | none =>
          have hopened := Interpreted.step_unstored hR waiting hs
          rw [hstep] at hopened
          exact ih.opened hopened
      | some s =>
          obtain ⟨i, v, a, mem₁, -, -, -, -, -, hstored⟩ := Interpreted.step_of_store? waiting hs
          cases hstep.symm.trans hstored

end Machine

/-! ## Loads -/

namespace Interpreted

variable {p : Program} {fr : Frame} {waiting : List Frame} {mem mem₁ : Memory} {i : Instr} {a : Operand}
  {g id : Nat} {x : Variable} {t : Ty}

theorem initialValue_const {function : String} {c : Constant} (hx : x.init = some (.const c)) :
    initialValue function x = constant function c := by
  rw [initialValue, hx]

theorem initialValue_address {function : String} {o : Operand} (hx : x.init = some o)
    (ho : ∀ c, o ≠ .const c) : initialValue function x = .error .lacksAttribute := by
  rw [initialValue, hx]
  cases o with
  | const c => exact absurd rfl (ho c)
  | _ => rfl

/-- A load through what has no value. -/
theorem step_load_failed {e : Failure} (hi : fr.current? = some i) (hop : i.op = .load a)
    (ha : (eval p fr.function fr.env a).on mem = (.error e, mem₁)) :
    (Machine.step rules p fr waiting).on mem = (.error e, mem₁) := by
  refine Machine.on_of_stepped (.failed hi ?_)
  show (Interpreted.perform p fr.function fr.env i).on mem = _
  unfold Interpreted.perform
  rw [hop]
  simp only [control, compute, bind_assoc, Effect.on_bind, ha]

/-- A load from a cell that holds what a variable begins with. -/
theorem step_load_held (waiting : List Frame) (hi : fr.current? = some i) (hop : i.op = .load a)
    (ha : (eval p fr.function fr.env a).on mem = (.ok (.cell id), mem₁))
    (hx : p.module.symbols[g]? = some (.variable x)) (hheld : mem₁.HoldsInitial p.module g id) :
    ∃ v, initialValue fr.function.name x = .ok v ∧
      (Machine.step rules p fr waiting).on mem =
        (.ok (.running (fr.advance i.id v) waiting), mem₁) := by
  obtain ⟨x', function, v, hx', hv, hc⟩ := hheld
  cases hx.symm.trans hx'
  exact ⟨v, (initialValue_eq_ok_iff _ _ x v).mp hv, step_load hi hop ha hc⟩

/-- A load from a variable by its name, as long as its cell, if it has one, holds what it begins with. -/
theorem step_load_named (waiting : List Frame) (hi : fr.current? = some i)
    (hop : i.op = .load (.global g t))
    (hx : p.module.symbols[g]? = some (.variable x))
    (hheld : ∀ id, mem.global? g = some id → mem.HoldsInitial p.module g id) :
    ((Machine.step rules p fr waiting).on mem).1 =
      (initialValue fr.function.name x).map fun v => .running (fr.advance i.id v) waiting := by
  have heval : eval p fr.function fr.env (.global g t) = globalCell fr.function.name g x := eval_variable hx
  cases hg : mem.global? g with
  | some id =>
      obtain ⟨v, hv, hstep⟩ := step_load_held waiting hi hop
        (by rw [heval, Ties.globalCell_of_some _ x hg]) hx (hheld id hg)
      rw [hstep, hv]
      rfl
  | none =>
      have hon := Ties.globalCell_of_none fr.function.name x hg
      cases hv : initialValue fr.function.name x with
      | error e =>
          rw [hv, ← heval] at hon
          rw [step_load_failed hi hop hon]
          rfl
      | ok v =>
          rw [hv, ← heval] at hon
          have hc : (mem.storage.addCell ⟨x.type, v⟩).cell? mem.storage.cells.size = some ⟨x.type, v⟩ :=
            (Storage.cell?_addCell _ _ _).trans (if_pos rfl)
          have hstep : (Machine.step rules p fr waiting).on mem =
              (.ok (.running (fr.advance i.id v) waiting), _) := step_load hi hop hon hc
          rw [hstep]
          rfl

end Interpreted

/-- **What a variable begins with is what its initializer means as an operand, if that is a constant.**
In the life of an engine that began without storage for its variables, a frame is at a load, and nothing
was stored in the cell of a variable that has an initializer.  If the load is from the variable by its
name and the initializer is a constant, the step comes to what the initializer comes to as an operand
there, value or failure; if it is an address, the step fails.  If the load is through any pointer that
comes to the cell of the variable, the initializer is a constant, and the step binds its value. -/
theorem Machine.Lives.load_initial {p : Program} {start mem : Memory} {log : List Stored} {fr : Frame}
    {waiting : List Frame} {i : Instr} {a o : Operand} {g : Nat} {x : Variable}
    (h : Lives p start log (some (.running fr waiting)) mem) (hstart : start.globals = [])
    (hx : p.module.symbols[g]? = some (.variable x)) (ho : x.init = some o)
    (hnew : ∀ s ∈ log, mem.global? g ≠ some s.cell) (hi : fr.current? = some i)
    (hop : i.op = .load a) :
    (∀ t, a = .global g t →
      (∀ c, o = .const c → ((step rules p fr waiting).on mem).1 =
        ((eval p fr.function fr.env o).on mem).1.map fun v => .running (fr.advance i.id v) waiting) ∧
      ((∀ c, o ≠ .const c) → ((step rules p fr waiting).on mem).1 = .error .lacksAttribute)) ∧
    ∀ id mem₁, (eval p fr.function fr.env a).on mem = (.ok (.cell id), mem₁) →
      mem₁.global? g = some id →
      ∃ c v, o = .const c ∧ (eval p fr.function fr.env o).on mem = (.ok v, mem) ∧
        (step rules p fr waiting).on mem = (.ok (.running (fr.advance i.id v) waiting), mem₁) := by
  have hbegins := h.begins hstart
  have hheld (id : Nat) (hg : mem.global? g = some id) : mem.HoldsInitial p.module g id :=
    hbegins g id hg fun s hs heq => hnew s hs (heq ▸ hg)
  constructor
  · rintro t rfl
    have hstep := Interpreted.step_load_named waiting hi hop hx hheld
    constructor
    · rintro c rfl
      rw [hstep, Interpreted.initialValue_const ho, eval, Exec.on_lift]
    · intro hc
      rw [hstep, Interpreted.initialValue_address ho hc]
      rfl
  · intro id mem₁ ha hg
    have hopened := Interpreted.eval_within (Memory.Opened.admits p.module) fr.function fr.env a mem
    rw [ha] at hopened
    obtain ⟨v, hv, hstep⟩ :=
      Interpreted.step_load_held waiting hi hop ha hx (hopened.holds (hheld id) hg)
    by_cases hc : ∃ c, o = .const c
    · obtain ⟨c, rfl⟩ := hc
      refine ⟨c, v, rfl, ?_, hstep⟩
      rw [eval, Exec.on_lift, ← Interpreted.initialValue_const ho, hv]
    · rw [Interpreted.initialValue_address ho fun c heq => hc ⟨c, heq⟩] at hv
      cases hv

/-! ## A variable that begins with five -/

/-- A function that loads a variable of 32 digits. -/
def loading : Function :=
  ⟨"f", .int 32, [], false, .fresh, #[], #[⟨"e", [
    ⟨0, .int 32, .load (.global 0 (.pointer (.int 32) 0))⟩]⟩]⟩

/-- A variable of 32 digits that begins with five, and that function. -/
def fiveAtFirst : Module :=
  ⟨"m", #[.variable ⟨"x", .int 32, some (.const (.int (.int 32) 5)), none⟩, .function loading]⟩

theorem load_initial_five : ∃ fr,
    Machine.Lives ⟨0, [], fiveAtFirst⟩ .empty [] (some (.running fr [])) .empty ∧
      ((Machine.step rules ⟨0, [], fiveAtFirst⟩ fr []).on .empty).1 =
        .ok (.running (fr.advance 0 (.int 5)) []) := by
  have hfresh : Machine.Lives ⟨0, [], fiveAtFirst⟩ .empty [] none .empty := .fresh
  have henter : (Machine.enter rules ⟨0, [], fiveAtFirst⟩ loading []).on .empty = (.ok _, .empty) := rfl
  have hentered := hfresh.entered henter
  have hload := (hentered.load_initial (g := 0) (o := .const (.int (.int 32) 5)) rfl rfl rfl nofun rfl
    rfl).1 _ rfl
  exact ⟨_, hentered, (hload.1 _ rfl).trans rfl⟩

/-! ## A variable that begins with the address of another -/

/-- A variable that begins with five, one that begins with the address of it, and a function that loads
through the second. -/
def aimed : Draft where
  types := []
  globals := [⟨"x", .int 32, some (.constant (.typed (.int 32) (.int 5)))⟩,
    ⟨"p", .pointer (.int 32) 0, some (.symbol "x")⟩]
  functions := [⟨"f", .int 32, [], false, some [⟨"e", "e", [
    ⟨some "q", "q", .op (.load (.symbol "p"))⟩,
    ⟨some "v", "v", .op (.load (.key "q"))⟩,
    ⟨none, "", .op (.ret (some (.key "v")))⟩]⟩]⟩]

/-- Whether a symbol is a variable that begins with the address of the first one. -/
def Symbol.isAimed : Symbol → Bool
  | .variable ⟨_, _, some (.global 0 (.pointer (.int 32) 0)), _⟩ => true
  | _ => false

theorem Symbol.exists_of_isAimed {s : Symbol} (h : s.isAimed = true) :
    ∃ x, s = .variable x ∧ x.init = some (.global 0 (.pointer (.int 32) 0)) := by
  unfold Symbol.isAimed at h
  split at h
  · exact ⟨_, rfl, rfl⟩
  · cases h

/-- Whether an outcome is the first cell. -/
def isFirstCell : Except Failure Value → Bool
  | .ok (.cell 0) => true
  | _ => false

theorem eq_of_isFirstCell {r : Except Failure Value} (h : isFirstCell r = true) : r = .ok (.cell 0) := by
  unfold isFirstCell at h
  split at h
  · rfl
  · cases h

/-- As an operand the initializer is a cell; the run fails where the variable is asked for. -/
theorem not_initial : (aimed.written "m").Admitted ∧ ∃ x f,
    (aimed.written "m").symbols[1]? = some (.variable x) ∧
      x.init = some (.global 0 (.pointer (.int 32) 0)) ∧ (aimed.written "m").function? 2 = some f ∧
      f.params = [] ∧
      ((eval ⟨0, [], aimed.written "m"⟩ f [] (.global 0 (.pointer (.int 32) 0))).on .empty).1 =
        .ok (.cell 0) ∧
      ((Machine.call rules ⟨0, [], aimed.written "m"⟩ 9 f []).on .empty).1 =
        .error .lacksAttribute := by
  have hvar : ((aimed.written "m").symbols[1]?).any Symbol.isAimed = true := by decide +kernel
  have hrun : ((aimed.written "m").function? 2).any (fun f => f.params == [] &&
      isFirstCell
        ((eval ⟨0, [], aimed.written "m"⟩ f [] (.global 0 (.pointer (.int 32) 0))).on .empty).1 &&
      Effect.failure? ((Machine.call rules ⟨0, [], aimed.written "m"⟩ 9 f []).on .empty).1 ==
        some .lacksAttribute) = true := by decide +kernel
  obtain ⟨s, hs, hvar⟩ := (Option.any_eq_true _ _).mp hvar
  obtain ⟨x, rfl, hx⟩ := Symbol.exists_of_isAimed hvar
  obtain ⟨f, hf, hrun⟩ := (Option.any_eq_true _ _).mp hrun
  simp only [Bool.and_eq_true, beq_iff_eq] at hrun
  obtain ⟨⟨hparams, heval⟩, hfail⟩ := hrun
  exact ⟨Draft.written_admitted (by decide +kernel), x, f, hs, hx, hf, hparams, eq_of_isFirstCell heval,
    Effect.eq_error_of_failure? hfail⟩

end Ssa

/-
# `Ssa.Proofs.Exec.Within` — what the interpreter does to memories

Whatever the interpreter does, there are three things that it does to a memory: it asks for the cell of a
variable, it adds a cell with nothing in it, and, at a store, it writes to one.  So a relation of memories
that admits these is kept by all that the interpreter does, and one that does not admit writing by all
but stores.

**Proved here.**

    evaluating operands stays within                                       (`eval_within`)
    performing an instruction does, if its stores do                       (`perform_within`)
    going on at a block and entering a function do                         (`jump_within`, `enter_within`)
    a step does, if the stores of its instruction do                       (`step_within`)
-/
import Ssa.Proofs.Exec.Computed

namespace Ssa

/-- A relation of memories that admits what the interpreter of a module does to them, but for writing. -/
structure Memory.Admits (m : Module) (R : Memory → Memory → Prop) : Prop where
  refl (mem : Memory) : R mem mem
  trans {mem mem' mem'' : Memory} : R mem mem' → R mem' mem'' → R mem mem''
  refers (mem : Memory) (function : String) {i : Nat} {x : Variable} :
    m.symbols[i]? = some (.variable x) → R mem ((Interpreted.globalCell function i x).on mem).2
  adds (mem : Memory) (t : Ty) :
    R mem { mem with storage := mem.storage.addCell ⟨t, Value.zero t⟩ }

/-- A relation of memories that admits writing. -/
def Memory.AdmitsWrites (R : Memory → Memory → Prop) : Prop :=
  ∀ (mem : Memory) (id : Nat) (v : Value), R mem { mem with storage := mem.storage.write id v }

/-- A computation stays within a relation, from any memory. -/
def Exec.Within {α : Type} (R : Memory → Memory → Prop) (x : Exec α) : Prop :=
  ∀ mem : Memory, R mem (x.on mem).2

/-- Whether an operation writes to a cell. -/
def OpOver.writes : Op → Bool
  | .store .. => true
  | _ => false

/-! ## Computations -/

namespace Exec.Within

variable {α β : Type} {m : Module} {R : Memory → Memory → Prop} (hR : Memory.Admits m R)
include hR

theorem pure (a : α) : Within R (Pure.pure a) := fun mem => hR.refl mem

theorem throw (e : Failure) : Within R (MonadExcept.throw e : Exec α) := fun mem => hR.refl mem

theorem lift (x : Except Failure α) : Within R (Exec.lift x) := by
  intro mem
  rw [on_lift]
  exact hR.refl mem

theorem bind {x : Exec α} {f : α → Exec β} (hx : Within R x) (hf : ∀ a, Within R (f a)) :
    Within R (x >>= f) := by
  intro mem
  have hfirst := hx mem
  rw [Effect.on_bind]
  rcases hon : x.on mem with ⟨e | a, mem₁⟩
  · rw [hon] at hfirst
    exact hfirst
  · rw [hon] at hfirst
    exact hR.trans hfirst (hf a mem₁)

theorem mapM {F : α → Exec β} (h : ∀ a, Within R (F a)) (as : List α) : Within R (as.mapM F) := by
  induction as with
  | nil => exact .pure hR []
  | cons a as ih =>
      rw [List.mapM_cons]
      exact .bind hR (h a) fun _ => .bind hR ih fun _ => .pure hR _

theorem allocate (t : Ty) : Within R (Exec.allocate t (Value.zero t)) := fun mem => hR.adds mem t

theorem cell (id : Nat) : Within R (Exec.cell id) := by
  intro mem
  rw [on_cell]
  exact hR.refl mem

end Exec.Within

/-! ## Instructions -/

namespace Interpreted

open Exec (Within)

variable {p : Program} {R : Memory → Memory → Prop}

section

variable {m : Module} (hR : Memory.Admits m R) {ev : Operand → Exec Value}
  (hev : ∀ o, Within R (ev o))
include hR hev

theorem compute_within (f : Function) (t : Ty) {op : Op}
    (hop : op.writes = true → Memory.AdmitsWrites R) : Within R (compute ev f t op) := by
  have cellOf_within (word : String) (v : Value) : Within R (cellOf f word v) := by
    unfold cellOf
    split
    · exact .pure hR _
    · exact .throw hR _
  by_cases hc : op.isComputed = true
  · rw [compute_eq_result ev f t hc]
    exact .bind hR (.mapM hR hev _) fun _ => .lift hR _
  cases op with
  | int | fp | fneg | icmp | fcmp | cast => exact absurd rfl hc
  | select c a b =>
      refine .bind hR (hev c) fun x => ?_
      split <;> exact hev _
  | alloca u n => exact .bind hR (.allocate hR u) fun _ => .pure hR _
  | load a =>
      exact .bind hR (hev a) fun x => .bind hR (cellOf_within _ x) fun id =>
        .bind hR (.cell hR id) fun _ => .pure hR _
  | store v a =>
      have hwrite (id : Nat) (x : Value) : Within R (Exec.write id x) := fun mem =>
        hop rfl mem id x
      exact .bind hR (hev v) fun x => .bind hR (hev a) fun y => .bind hR (cellOf_within _ y)
        fun id => .bind hR (hwrite id x) fun _ => .pure hR _
  | _ => exact .throw hR _

theorem chooseCase_within (v : Value) (default : Nat) (cases : List (Operand × Nat)) :
    Within R (chooseCase ev v default cases) := by
  induction cases with
  | nil => exact .pure hR default
  | cons c cases ih =>
      refine .bind hR (hev c.1) fun x => ?_
      split
      · exact .pure hR _
      · exact ih

theorem calls_within (p : Program) (f : Function) (callee : Operand) (args : List Operand) :
    Within R (call p ev f callee args) := by
  unfold call
  split
  · split
    · exact .bind hR (.mapM hR hev args) fun _ => .pure hR _
    · exact .throw hR _
  · exact .throw hR _

end

variable (hR : Memory.Admits p.module R)
include hR

theorem eval_within (f : Function) (env : Env) (o : Operand) : Within R (eval p f env o) := by
  cases o with
  | const c => exact .lift hR _
  | «local» id t =>
      unfold eval
      dsimp only
      split
      · exact .pure hR _
      · exact .throw hR _
  | global i t =>
      unfold eval
      dsimp only
      split
      · rename_i x hx
        exact fun mem => hR.refers mem f.name hx
      · exact .pure hR _
      · exact .throw hR _

theorem perform_within (f : Function) (env : Env) {i : Instr}
    (hop : i.op.writes = true → Memory.AdmitsWrites R) : Within R (perform p f env i) := by
  have hev := eval_within hR f env
  unfold perform control
  split
  · exact .pure hR _
  · exact .bind hR (hev _) fun _ => .pure hR _
  · exact .pure hR _
  · exact .bind hR (hev _) fun _ => .pure hR _
  · exact .bind hR (hev _) fun x => .bind hR (chooseCase_within hR hev x _ _) fun _ => .pure hR _
  · exact .throw hR _
  · exact calls_within hR hev p f _ _
  · exact calls_within hR hev p f _ _
  · exact .bind hR (compute_within hR hev f _ hop) fun _ => .pure hR _

/-! ## The machine -/

theorem phiValue_within (f : Function) (env : Env) (source : Option Nat) (i : Instr) :
    Within R (Machine.phiValue rules p f env source i) := by
  unfold Machine.phiValue
  split
  · exact .bind hR (eval_within hR _ _ _) fun _ => .pure hR _
  · exact .throw hR _

theorem jump_within (fr : Frame) (source : Option Nat) (target : Nat) :
    Within R (Machine.jump rules p fr source target) :=
  .bind hR (.mapM hR (phiValue_within hR _ _ _) _) fun _ => .pure hR _

theorem enter_within (f : Function) (args : List Value) :
    Within R (Machine.enter rules p f args) := by
  have hrest : Within R (do
      let env ← Exec.lift (Machine.bindParams f.params args 0)
      Machine.jump rules p ⟨f, env, 0, 0, none⟩ none 0) :=
    .bind hR (.lift hR _) fun _ => jump_within hR _ _ _
  unfold Machine.enter
  split
  · exact .bind hR (.throw (α := PUnit) hR _) fun _ => hrest
  · exact hrest

theorem step_within (fr : Frame) (waiting : List Frame)
    (hop : ∀ i, fr.current? = some i → i.op.writes = true → Memory.AdmitsWrites R) :
    Within R (Machine.step rules p fr waiting) := by
  have enterAt_within (callee : Nat) (args : List Value) :
      Within R (Machine.enterAt rules p callee args) := by
    unfold Machine.enterAt
    split
    · exact enter_within hR _ args
    · exact .throw hR _
  unfold Machine.step
  split
  · exact .throw hR _
  · rename_i i hi
    refine .bind hR (perform_within hR _ _ (hop i hi)) fun signal => ?_
    cases signal with
    | value v => exact .pure hR _
    | goto target => exact .bind hR (jump_within hR _ _ _) fun _ => .pure hR _
    | call callee args => exact .bind hR (enterAt_within callee args) fun _ => .pure hR _
    | ret v => exact .pure hR _

theorem run_within (hwrites : Memory.AdmitsWrites R) (steps : Nat) (st : Machine.State) :
    Within R (Machine.run rules p steps st) := by
  induction steps generalizing st with
  | zero =>
      cases st with
      | running fr waiting => exact .throw hR _
      | done v => exact .pure hR v
  | succ steps ih =>
      cases st with
      | running fr waiting =>
          exact .bind hR (step_within hR fr waiting fun _ _ _ => hwrites) ih
      | done v => exact .pure hR v

theorem call_within (hwrites : Memory.AdmitsWrites R) (steps : Nat) (f : Function)
    (args : List Value) : Within R (Machine.call rules p steps f args) :=
  .bind hR (enter_within hR f args) fun _ => run_within hR hwrites steps _

end Interpreted

end Ssa

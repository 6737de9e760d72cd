/-
# `Ssa.Proofs.Exec.Congruence` — what an instruction goes by

What an instruction asks for goes by what its operands come to, by the name of the function that it is in,
which failures tell, and by where the module has functions.  Two programs that agree in these ask for the
same, however they differ besides.

**Proved here.**

    symbols that stand for the same come to the same      (`Interpreted.eval_global_congr`)
    operations and moves of control by their operands     (`Interpreted.compute_congr`, `.control_congr`)
    calls, if functions stand in the same places          (`Interpreted.call_congr`)
    instructions                                          (`Interpreted.perform_congr`)
-/
import Ssa.Proofs.Exec.Outcome

namespace Ssa

/-- Two symbols stand for the same at a position: variables that come to the same, or functions of one name
and type. -/
def Symbol.StandsFor (function : String) (k : Nat) : Symbol → Symbol → Prop
  | .variable x, .variable x' => Interpreted.globalCell function k x' = Interpreted.globalCell function k x
  | .function g, .function g' => g'.name = g.name ∧ g'.type = g.type
  | _, _ => False

namespace Interpreted

/-! ## Operations and moves of control -/

section

variable {ev ev' : Operand → Exec Value} {f f' : Function}

/-- What computes goes by what its operands come to, and by the name of the function. -/
theorem compute_congr (hname : f'.name = f.name) (t : Ty) {op : Op} (h : ∀ o ∈ op.operands, ev' o = ev o) :
    compute ev' f' t op = compute ev f t op := by
  have hcell : cellOf f' = cellOf f := by
    funext word v
    rw [cellOf.eq_def, cellOf.eq_def, hname]
  have hint : integerOp f' = integerOp f := by
    funext op t a b
    rw [integerOp.eq_def, integerOp.eq_def, hname]
  cases op <;> simp_all [compute, OpOver.operands]

theorem chooseCase_congr (v : Value) (d : Nat) {cases' : List (Operand × Nat)}
    (h : ∀ e ∈ cases', ev' e.1 = ev e.1) : chooseCase ev' v d cases' = chooseCase ev v d cases' := by
  induction cases' with
  | nil => rfl
  | cons e es ih =>
      obtain ⟨he, hes⟩ := List.forall_mem_cons.mp h
      simp only [chooseCase, he, ih hes]

/-- And so does what moves control. -/
theorem control_congr (hname : f'.name = f.name) {op : Op} (h : ∀ o ∈ op.operands, ev' o = ev o)
    {callOf callOf' : Operand → List Operand → Exec Signal}
    (hcall : ∀ callee args, (∀ o ∈ args, ev' o = ev o) → callOf' callee args = callOf callee args)
    (otherwise : Exec Value) :
    control ev' f' op callOf' otherwise = control ev f op callOf otherwise := by
  cases op with
  | ret v =>
      cases v with
      | none => rfl
      | some v => simp only [control, h v (List.mem_singleton_self v)]
  | condBr c t e => simp only [control, h c (List.mem_singleton_self c)]
  | switch v d cases' =>
      have hcases (x : Value) : chooseCase ev' x d cases' = chooseCase ev x d cases' :=
        chooseCase_congr x d fun e he => h e.1 (List.mem_cons_of_mem v (List.mem_map_of_mem he))
      simp only [control, h v List.mem_cons_self, hcases]
  | unreachable => simp only [control, hname]
  | call callee args => exact hcall callee args fun o ho => h o (List.mem_cons_of_mem callee ho)
  | invoke callee args n u => exact hcall callee args fun o ho => h o (List.mem_cons_of_mem callee ho)
  | _ => rfl

theorem mapM_congr {α β : Type} {F G : α → Exec β} {as : List α} (h : ∀ a ∈ as, F a = G a) :
    as.mapM F = as.mapM G := by
  induction as with
  | nil => rfl
  | cons a as ih =>
      obtain ⟨ha, has⟩ := List.forall_mem_cons.mp h
      rw [List.mapM_cons, List.mapM_cons, ha, ih has]

end

/-! ## Operands and instructions -/

section

variable {p p' : Program} {f f' : Function} {env env' : Env} {S : Symbol → Symbol → Prop}
  {R : Function → Function → Prop}

/-- An operand that refers to a symbol, where related symbols stand for the same. -/
theorem eval_global_congr {k : Nat} {t : Ty} (howner : p'.owner = p.owner) (hname : f'.name = f.name)
    (h : Option.Rel S p.module.symbols[k]? p'.module.symbols[k]?)
    (hS : ∀ s s', S s s' → s.StandsFor f.name k s') :
    eval p' f' env' (.global k t) = eval p f env (.global k t) := by
  unfold eval
  dsimp only
  generalize p.module.symbols[k]? = x, p'.module.symbols[k]? = y at h
  cases h with
  | none => rfl
  | @some s s' hs =>
      have hstands := hS s s' hs
      rcases s with v | g <;> rcases s' with v' | g' <;> try contradiction
      · dsimp only
        rw [hname, show globalCell f.name k v' = globalCell f.name k v from hstands]
      · obtain ⟨hname', htype⟩ : g'.name = g.name ∧ g'.type = g.type := hstands
        dsimp only
        rw [howner, hname', htype]

/-- A call of a function, where functions stand in the same places. -/
theorem call_congr {ev ev' : Operand → Exec Value} {args args' : List Operand} (hname : f'.name = f.name)
    (hfunctions : ∀ k, Option.Rel R (p.module.function? k) (p'.module.function? k)) (callee : Operand)
    (hargs : args'.mapM ev' = args.mapM ev) :
    call p' ev' f' callee args' = call p ev f callee args := by
  unfold call
  cases callee with
  | global k t =>
      have hk := hfunctions k
      dsimp only
      rw [hargs, hname]
      generalize p.module.function? k = x, p'.module.function? k = y at hk
      cases hk <;> rfl
  | _ =>
      dsimp only
      rw [hname]

/-- An instruction whose operands come to the same asks for the same. -/
theorem perform_congr {i : Instr} (hname : f'.name = f.name)
    (hfunctions : ∀ k, Option.Rel R (p.module.function? k) (p'.module.function? k))
    (h : ∀ o ∈ i.op.operands, eval p' f' env' o = eval p f env o) :
    perform p' f' env' i = perform p f env i := by
  unfold perform
  dsimp only
  rw [compute_congr hname i.type h]
  exact control_congr hname h (fun callee _ hargs => call_congr hname hfunctions callee (mapM_congr hargs)) _

end

end Interpreted

end Ssa

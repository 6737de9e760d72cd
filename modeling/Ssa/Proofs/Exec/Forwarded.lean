/-
# `Ssa.Proofs.Exec.Forwarded` — an integer that is handed on from call to call

A function hands a parameter on if it calls a function with it and returns what that returns.  In a chain
of such functions the last one returns what it got.  Each function brings what it is given to the type of
its parameter, and what was brought to a width once is not changed by bringing it there again; so the
first function of a chain returns what it got, wrapped once.  Whatever else a function takes, it has to be
possible to pass it: the other operands of the calls come to values of the types of the parameters.

**Proved here.**

    an operand that can be passed comes to a value of the type            (`Operand.Passes.eval`)
    a function on arguments that it accepts is entered, and holds them        (`Function.Accepts.enter`)
    a chain comes to the integer, whichever frames wait for it              (`Forwards.run`)
    a call of a chain, after two steps for each call and one for the last     (`Forwards.call`)
-/
import Ssa.Proofs.Exec.Passing
import Ssa.Proofs.Exec.Sharing

namespace Ssa

open Interpreted (rules eval)

/-! ## Chains of functions -/

/-- The operands of a function that can be passed as a type: a constant that has a value, a parameter, and,
as a pointer, a function or a variable whose first content has a value. -/
inductive Operand.Passes (m : Module) (f : Function) : Ty → Operand → Prop
  | constant {c : Constant} {v : Value} :
      Interpreted.constant f.name c = .ok v → Passes m f c.type (.const c)
  | parameter {i : Nat} {t u : Ty} : f.params[i]? = some t → Passes m f t (.local i u)
  | function {i space : Nat} {g : Function} {t u : Ty} :
      m.symbols[i]? = some (.function g) → Passes m f (.pointer t space) (.global i u)
  | variable {i space : Nat} {x : Variable} {v : Value} {t u : Ty} :
      m.symbols[i]? = some (.variable x) → Interpreted.initialValue f.name x = .ok v →
      Passes m f (.pointer t space) (.global i u)

/-- `Forwards m w n f k`: by way of `n` calls, each of which hands on what it got, the function `f` of the
module `m` returns its parameter at the position `k`, an integer of the width `w`. -/
inductive Forwards (m : Module) (w : Nat) : Nat → Function → Nat → Prop
  | last {k id : Nat} {f : Function} {t u : Ty} :
      f.params[k]? = some (.int w) → f.result = .int w →
      f.instrs 0 = [⟨id, t, .ret (some (.local k u))⟩] → Forwards m w 0 f k
  | next {n k j c id id' : Nat} {f g : Function} {t t' u u' u'' : Ty} {args : List Operand} {more : List Ty} :
      f.params[k]? = some (.int w) → f.result = .int w →
      f.instrs 0 = [⟨id, t, .call (.global c u) args⟩, ⟨id', t', .ret (some (.local id u'))⟩] →
      m.function? c = some g → args[j]? = some (.local k u'') →
      List.Forall₂ (Operand.Passes m f) (g.params ++ more) args →
      Forwards m w n g j → Forwards m w (n + 1) f k

/-- A function accepts arguments: there is one for each parameter, and it can be brought to its type. -/
def Function.Accepts (f : Function) (args : List Value) : Prop :=
  ∀ (i : Nat) (t : Ty), f.params[i]? = some t → ∃ x v, args[i]? = some x ∧ x.normalize t = .ok v

/-- A function holds arguments: each parameter has the argument in its place, brought to its type. -/
def Function.Holds (f : Function) (args : List Value) (env : Env) : Prop :=
  ∀ (i : Nat) (t : Ty), f.params[i]? = some t →
    ∃ x v, args[i]? = some x ∧ x.normalize t = .ok v ∧ env.lookup i = some v

/-! ## Values and types -/

/-- What was brought to a type can be brought to it again. -/
theorem Value.normalize_again {t : Ty} {x v : Value} (h : x.normalize t = .ok v) :
    ∃ v', v.normalize t = .ok v' := by
  cases t with
  | int w =>
      obtain ⟨n, -, rfl⟩ := ok_of_map h
      exact ⟨_, rfl⟩
  | fp p => cases p <;> obtain ⟨z, -, rfl⟩ := ok_of_map h <;> exact ⟨_, rfl⟩
  | _ => exact ⟨v, rfl⟩

theorem Value.normalize_int {w : Nat} {x : Value} {i : Int} (h : x.int? = some i) :
    x.normalize (.int w) = .ok (.int (Word.wrap w i)) := by
  rw [Value.normalize, toInt_of_int? h]
  rfl

/-! ## Into a function -/

theorem Function.Accepts.holds {f : Function} {args : List Value} {env : Env} (h : f.Accepts args)
    (henv : Machine.bindParams f.params args 0 = .ok env) : f.Holds args env := by
  intro i t ht
  obtain ⟨x, -, hx, -⟩ := h i t ht
  obtain ⟨v, hv, hlookup⟩ := Machine.exists_lookup_of_bindParams henv ht hx
  exact ⟨x, v, hx, hv, hlookup⟩

/-- A function whose first block does not begin with a phi is entered on arguments that it accepts, and holds
them. -/
theorem Function.Accepts.enter {f : Function} {args : List Value} {i : Instr} {is : List Instr}
    (h : f.Accepts args) (hblock : f.instrs 0 = i :: is) (hphi : i.op.isPhi = false) (p : Program)
    (mem : Memory) : ∃ env, f.Holds args env ∧
      (Machine.enter rules p f args).on mem = (.ok ⟨f, env, 0, 0, none⟩, mem) := by
  obtain ⟨env, henv⟩ := Machine.bindParams_of_forall 0 h
  have hbody : f.isDeclaration = false := by
    by_contra hnone
    have hempty : f.blocks.size = 0 := by simpa [Function.isDeclaration] using hnone
    have hinstrs : f.instrs 0 = [] := by
      rw [Function.instrs, Array.getElem?_eq_none (by omega)]
      rfl
    rw [hinstrs] at hblock
    cases hblock
  have hphis : f.leadingPhis 0 = [] := by
    rw [Function.leadingPhis, hblock, List.takeWhile_cons, hphi]
    rfl
  refine ⟨env, h.holds henv, ?_⟩
  rw [Machine.on_enter, hbody, henv]
  show (Machine.jump rules p ⟨f, env, 0, 0, none⟩ none 0).on mem = _
  rw [Machine.on_jump]
  dsimp only
  rw [hphis]
  rfl

/-! ## What is passed -/

variable {p : Program} {f : Function} {env : Env} {args : List Value}

/-- An operand that can be passed as a type comes to a value that can be brought to it. -/
theorem Operand.Passes.eval {t : Ty} {a : Operand} (h : a.Passes p.module f t) (henv : f.Holds args env)
    (mem : Memory) : ∃ v mem', (Interpreted.eval p f env a).on mem = (.ok v, mem') ∧
      ∃ v', v.normalize t = .ok v' := by
  cases h with
  | constant hv =>
      refine ⟨_, mem, ?_, Regime.normalize_of_fits (R := ⟨True, True, fun _ => True⟩) (s := .empty)
        (Regime.constant_fits hv)⟩
      unfold Interpreted.eval
      rw [Exec.on_lift, hv]
  | parameter ht =>
      obtain ⟨x, v, -, hv, hlookup⟩ := henv _ _ ht
      exact ⟨v, mem, by rw [Interpreted.eval_local hlookup]; rfl, Value.normalize_again hv⟩
  | function hg =>
      rw [Interpreted.eval_function hg]
      exact ⟨_, mem, rfl, _, rfl⟩
  | @«variable» i _ x v _ _ hx hv =>
      rw [Interpreted.eval_variable hx]
      cases hi : mem.global? i with
      | some id => exact ⟨_, _, Ties.globalCell_of_some f.name x hi, _, rfl⟩
      | none =>
          have hon := Ties.globalCell_of_none f.name x hi
          rw [hv] at hon
          exact ⟨_, _, hon, _, rfl⟩

/-- So do the operands of a call, one after another; a parameter comes to what it holds. -/
theorem Operand.Passes.eval_all {ts : List Ty} {os : List Operand}
    (h : List.Forall₂ (Operand.Passes p.module f) ts os) (henv : f.Holds args env) (mem : Memory) :
    ∃ vs mem', (os.mapM (Interpreted.eval p f env)).on mem = (.ok vs, mem') ∧
      (∀ (i : Nat) (t : Ty), ts[i]? = some t → ∃ x v, vs[i]? = some x ∧ x.normalize t = .ok v) ∧
      ∀ (j k : Nat) (u : Ty) (x : Value), os[j]? = some (.local k u) → env.lookup k = some x →
        vs[j]? = some x := by
  induction h generalizing mem with
  | nil => exact ⟨[], mem, rfl, nofun, nofun⟩
  | @cons t a ts os ha _ ih =>
      obtain ⟨v, mem₁, hv, v', hv'⟩ := ha.eval henv mem
      obtain ⟨vs, mem₂, hvs, htypes, hlocals⟩ := ih mem₁
      refine ⟨v :: vs, mem₂, ?_, fun i t' ht => ?_, fun j k u x hj hx => ?_⟩
      · rw [List.mapM_cons]
        exact (Effect.on_bind_of_ok hv).trans (Effect.on_bind_of_ok hvs)
      · cases i with
        | zero =>
            cases ht
            exact ⟨v, v', rfl, hv'⟩
        | succ i => exact htypes i t' ht
      · cases j with
        | zero =>
            cases hj
            rw [Interpreted.eval_local hx] at hv
            cases hv
            rfl
        | succ j => exact hlocals j k u x hj hx

/-! ## Along a chain -/

namespace Interpreted

open Machine (State step enter leave on_of_stepped)

variable {fr inner : Frame} {i : Instr} {mem mem₁ mem₂ : Memory}

/-- A function is left with what the operand comes to. -/
theorem step_ret {o : Operand} {v : Value} (hi : fr.current? = some i) (hop : i.op = .ret (some o))
    (ho : (eval p fr.function fr.env o).on mem = (.ok v, mem₁)) (waiting : List Frame) :
    (step rules p fr waiting).on mem = (.ok (leave v waiting), mem₁) := by
  refine on_of_stepped (.left hi ?_)
  show (perform p fr.function fr.env i).on mem = _
  unfold perform
  rw [hop]
  exact Effect.on_bind_of_ok ho

/-- A function of the module is entered on what the operands come to, and the frame waits for it. -/
theorem step_call {c : Nat} {u : Ty} {os : List Operand} {g : Function} {vs : List Value}
    (hi : fr.current? = some i) (hop : i.op = .call (.global c u) os) (hg : p.module.function? c = some g)
    (hos : (os.mapM (eval p fr.function fr.env)).on mem = (.ok vs, mem₁))
    (henter : (enter rules p g vs).on mem₁ = (.ok inner, mem₂)) (waiting : List Frame) :
    (step rules p fr waiting).on mem = (.ok (.running inner (fr.await i.id :: waiting)), mem₂) := by
  refine on_of_stepped (.called hi ?_ hg henter)
  show (perform p fr.function fr.env i).on mem = _
  unfold perform
  rw [hop]
  show (call p (eval p fr.function fr.env) fr.function (.global c u) os).on mem = _
  unfold call
  dsimp only
  rw [hg]
  exact Effect.on_bind_of_ok hos

end Interpreted

namespace Forwards

variable {n w k : Nat} {x : Value} {i : Int}

theorem params (h : Forwards p.module w n f k) : f.params[k]? = some (.int w) := by
  cases h <;> assumption

theorem result (h : Forwards p.module w n f k) : f.result = .int w := by
  cases h <;> assumption

/-- What is held for the integer. -/
theorem lookup (h : Forwards p.module w n f k) (henv : f.Holds args env) (hx : args[k]? = some x)
    (hi : x.int? = some i) : env.lookup k = some (.int (Word.wrap w i)) := by
  obtain ⟨x', v, hx', hv, hlookup⟩ := henv k _ h.params
  cases hx.symm.trans hx'
  cases (Value.normalize_int hi).symm.trans hv
  exact hlookup

/-- A function of a chain is entered on what it accepts; and whichever frames wait, it is left with the integer
that it got, wrapped, after two steps for each call and one for the last function. -/
theorem run (h : Forwards p.module w n f k) (hargs : f.Accepts args) (hx : args[k]? = some x)
    (hi : x.int? = some i) (mem : Memory) :
    ∃ fr mem₁ mem', (Machine.enter rules p f args).on mem = (.ok fr, mem₁) ∧ ∀ waiting steps,
      (Machine.run rules p (2 * n + 1 + steps) (.running fr waiting)).on mem₁ =
        (Machine.run rules p steps (Machine.leave (.int (Word.wrap w i)) waiting)).on mem' := by
  induction h generalizing args x mem i with
  | @last k id f t u hparam hresult hblock =>
      obtain ⟨env, henv, henter⟩ := hargs.enter hblock rfl p mem
      have hlast : Forwards p.module w 0 f k := .last hparam hresult hblock
      have hcurrent : (⟨f, env, 0, 0, none⟩ : Frame).current? = some ⟨id, t, .ret (some (.local k u))⟩ := by
        rw [Frame.current?, hblock]
        rfl
      have hreturned := Interpreted.eval_local (p := p) (f := f) (t := u) (hlast.lookup henv hx hi)
      refine ⟨_, mem, mem, henter, fun waiting steps => ?_⟩
      rw [Nat.add_comm, Machine.on_run_succ,
        Interpreted.step_ret hcurrent rfl (congrArg (ExceptT.on · mem) hreturned) waiting]
  | @next n k j c id id' f g t t' u u' u'' os more hparam hresult hblock hg hj hos hnext ih =>
      obtain ⟨env, henv, henter⟩ := hargs.enter hblock rfl p mem
      have hthis : Forwards p.module w (n + 1) f k := .next hparam hresult hblock hg hj hos hnext
      obtain ⟨vs, mem₁, hvs, htypes, hlocals⟩ := Operand.Passes.eval_all hos henv mem
      have haccepts : g.Accepts vs := fun i t ht =>
        htypes i t ((List.getElem?_append_left (List.getElem?_eq_some_iff.mp ht).1).trans ht)
      have hpassed := hlocals j k u'' _ hj (hthis.lookup henv hx hi)
      obtain ⟨inner, mem₂, mem₃, hinner, hrun⟩ := ih haccepts hpassed rfl mem₁
      rw [Word.wrap_wrap] at hrun
      have hcall : (⟨f, env, 0, 0, none⟩ : Frame).current? = some ⟨id, t, .call (.global c u) os⟩ := by
        rw [Frame.current?, hblock]
        rfl
      refine ⟨_, mem, mem₃, henter, fun waiting steps => ?_⟩
      -- the call, what it comes to, and the return from this function
      rw [show 2 * (n + 1) + 1 + steps = 2 * n + 1 + (steps + 1) + 1 by omega, Machine.on_run_succ,
        Interpreted.step_call hcall rfl hg hvs hinner waiting]
      dsimp only
      rw [hrun]
      let back : Frame := ⟨f, env.bind id (.int (Word.wrap w i)), 0, 1, none⟩
      have hcurrent : back.current? = some ⟨id', t', .ret (some (.local id u'))⟩ := by
        rw [Frame.current?, hblock]
        rfl
      have hreturned : Interpreted.eval p back.function back.env (.local id u') = pure (.int (Word.wrap w i)) :=
        Interpreted.eval_local ((Env.lookup_bind ..).trans (if_pos rfl))
      show (Machine.run rules p (steps + 1) (.running back waiting)).on mem₃ = _
      rw [Machine.on_run_succ,
        Interpreted.step_ret hcurrent rfl (congrArg (ExceptT.on · mem₃) hreturned) waiting]

/-- A call of a chain comes to the integer, wrapped. -/
theorem call (h : Forwards p.module w n f k) (hargs : f.Accepts args) (hx : args[k]? = some x)
    (hi : x.int? = some i) (mem : Memory) {steps : Nat} (hsteps : 2 * n + 1 ≤ steps) :
    ((Machine.call rules p steps f args).on mem).1 = .ok (.int (Word.wrap w i)) := by
  obtain ⟨fr, mem₁, mem', henter, hrun⟩ := h.run hargs hx hi mem
  obtain ⟨more, rfl⟩ := Nat.exists_eq_add_of_le hsteps
  rw [Machine.call, Effect.on_bind_of_ok henter, hrun [] more]
  show ((Machine.run rules p more (.done (.int (Word.wrap w i)))).on mem').1 = _
  rw [Machine.run_done]
  rfl

end Forwards

end Ssa

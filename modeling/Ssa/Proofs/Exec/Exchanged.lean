/-
# `Ssa.Proofs.Exec.Exchanged` — instructions with address zero in place of null

Of two instructions the one may have null as an operand where the other has the address zero, or may be
given null, from wherever it comes, where the other is given that address.  A choice takes both for false,
an access is refused through both, and whatever only passes them on does so.  What is left are the
operations that read a number, or compare.

**Proved here.**

    operands come to the same, or to null and the address zero            (`eval_zeroed`)
    so do operations, unless they read or compare what they tell apart    (`compute_zeroed`)
    instructions ask for the same                                         (`perform_zeroed`)
-/
import Ssa.Proofs.Exec.Zeroed

namespace Ssa

open Effect (Paired)
open Interpreted (rules eval perform compute control result)

/-! ## What tells null from address zero -/

namespace OpOver

/-- The operands that an operation reads as numbers, or compares. -/
def numbers : Op → List Operand
  | .switch v _ _ => [v]
  | op => if op.isComputed then op.operands else []

/-- Whether an operation may come to something else on other values of those operands, that are null
where the first are zero, or the other way round.  An equality does not, unless it has null and zero
before it; and pointers that are made into others stay as they are. -/
def tells (op : Op) (vs vs' : List Value) : Bool :=
  match op, vs, vs' with
  | .icmp p _ _, [x, y], [x', y'] => !p.isEquality || x.areNoughts y || x'.areNoughts y'
  | .cast .bitcast a, _, _ => !a.type.isPointer
  | _, _, _ => true

theorem numbers_of_isComputed {op : Op} (h : op.isComputed = true) : op.numbers = op.operands := by
  cases op <;> first | rfl | cases h

end OpOver

/-- Two programs with one owner, of modules of the one of which some operands were exchanged. -/
structure Program.Zeroed (p p' : Program) : Prop where
  owner : p'.owner = p.owner
  module : p.module.Zeroed p'.module

/-! ## Operands -/

section

variable {p p' : Program} {f f' : Function} {env env' : Env} {o o' : Operand} {os os' : List Operand}
  {mem mem' : Memory} {v w : Value}

namespace Interpreted

theorem lift_zeroed {α β : Type} {P : α → β → Prop} {x : Except Failure α} {y : Except Failure β}
    (h : mem.Zeroed mem') (hxy : Agree P x y) :
    Paired zeroing () (Exec.lift x) mem (Exec.lift y) mem' fun _ => P :=
  .of_on (Exec.on_lift x mem) (Exec.on_lift y mem') h hxy

theorem globalCell_zeroed (h : mem.Zeroed mem') (function : String) (i : Nat) (x : Variable) :
    Paired zeroing () (globalCell function i x) mem (globalCell function i x) mem' fun _ v w => w = v := by
  cases hi : mem.global? i with
  | some id =>
      have hi' : mem'.global? i = some id := (congrArg (List.lookup i) h.globals).trans hi
      exact .of_on (Ties.globalCell_of_some _ x hi) (Ties.globalCell_of_some _ x hi') h (.ok rfl)
  | none =>
      have hi' : mem'.global? i = none := (congrArg (List.lookup i) h.globals).trans hi
      have hon := Ties.globalCell_of_none function x hi
      have hon' := Ties.globalCell_of_none function x hi'
      cases hv : initialValue function x with
      | error e =>
          rw [hv] at hon hon'
          exact .of_on hon hon' h (.error e)
      | ok v =>
          rw [hv] at hon hon'
          rw [h.size] at hon'
          exact .of_on hon hon' ((h.addCell x.type (.same v)).setGlobal i _) (.ok rfl)

theorem eval_null {t : Ty} {space : Nat} :
    eval p f env (.const (.null (.pointer t space))) = pure .null := rfl

/-- An operand that is found and was not exchanged comes to the same, or to null and the address zero,
as what it is read from may have been. -/
theorem eval_unexchanged (hp : p.Zeroed p') (hm : mem.Zeroed mem') (hf : f.Zeroed f')
    (henv : env.Zeroed f env') (hfound : o.IsFound env) :
    Paired zeroing () (eval p f env o) mem (eval p' f' env' o) mem' fun _ => Value.Zeroed := by
  cases o with
  | const c =>
      refine (lift_zeroed hm (.of_eq ?_)).mono fun _ v w _ hvw => hvw ▸ .same v
      rw [hf.outline.name]
  | «local» id t =>
      have hid := henv.values id
      unfold eval
      dsimp only
      generalize hv : env.lookup id = x, env'.lookup id = y at hid
      cases hid with
      | none => cases hv.symm.trans (Option.some_get hfound).symm
      | some hvw => exact .pure hm hvw
  | global i t =>
      have hi := hp.module.symbols i
      unfold eval
      dsimp only
      generalize p.module.symbols[i]? = x, p'.module.symbols[i]? = y at hi
      cases hi with
      | none => exact .throw hm _
      | @some s s' hs =>
          rcases s with x | g <;> rcases s' with x' | g' <;> try contradiction
          · cases (hs : x' = x)
            rw [hf.outline.name]
            exact (globalCell_zeroed hm f.name i x).mono fun _ v w _ hvw => hvw ▸ .same v
          · obtain ⟨_, rfl⟩ := (hs : g.Zeroed g').rest
            rw [hp.owner]
            exact .pure hm (.same _)

/-- Operands that are found come to the same, or to null and the address zero; and to the same only if
they were not exchanged. -/
theorem eval_exchanged (hp : p.Zeroed p') (hm : mem.Zeroed mem') (hf : f.Zeroed f')
    (henv : env.Zeroed f env') (ho : o.Zeroed f o') (hfound : o.IsFound env)
    (hfound' : o'.IsFound env') :
    Paired zeroing () (eval p f env o) mem (eval p' f' env' o') mem' fun _ v w =>
      v.Zeroed w ∧ (w = v → o' = o) := by
  cases ho with
  | same => exact (eval_unexchanged hp hm hf henv hfound).mono fun _ _ _ _ h => ⟨h, fun _ => rfl⟩
  | @zero t space z hz =>
      obtain ⟨u, hu⟩ := Option.isSome_iff_exists.mp hfound'
      cases henv.right z u hz hu
      rw [eval_null, eval_local hu]
      exact .pure hm ⟨.zero, nofun⟩
  | @null t space z hz =>
      obtain ⟨u, hu⟩ := Option.isSome_iff_exists.mp hfound
      cases henv.left z u hz hu
      rw [eval_null, eval_local hu]
      exact .pure hm ⟨.null, nofun⟩

/-- Operands of two lists that are found come to the same, or to null and the address zero. -/
theorem eval_zeroed {os os' : List Operand} (hp : p.Zeroed p') (hm : mem.Zeroed mem')
    (hf : f.Zeroed f') (henv : env.Zeroed f env') (ho : o.Zeroed f o')
    (hfound : ∀ o ∈ os, o.IsFound env) (hfound' : ∀ o ∈ os', o.IsFound env') (hmem : o ∈ os)
    (hmem' : o' ∈ os') :
    Paired zeroing () (eval p f env o) mem (eval p' f' env' o') mem' fun _ => Value.Zeroed :=
  (eval_exchanged hp hm hf henv ho (hfound o hmem) (hfound' o' hmem')).mono fun _ _ _ _ h => h.1

/-- Operands that are found come to the same, or to null and the address zero, each; and all to the same
only if none was exchanged. -/
theorem evalAll_zeroed (hp : p.Zeroed p') (hm : mem.Zeroed mem') (hf : f.Zeroed f')
    (henv : env.Zeroed f env') (hos : List.Forall₂ (Operand.Zeroed f) os os')
    (hfound : ∀ o ∈ os, o.IsFound env) (hfound' : ∀ o ∈ os', o.IsFound env') :
    Paired zeroing () (os.mapM (eval p f env)) mem (os'.mapM (eval p' f' env')) mem' fun _ vs ws =>
      List.Forall₂ Value.Zeroed vs ws ∧ (ws = vs → os' = os) := by
  induction hos generalizing mem mem' with
  | nil => exact .pure hm ⟨.nil, fun _ => rfl⟩
  | cons ho _ ih =>
      obtain ⟨hfirst, hrest⟩ := List.forall_mem_cons.mp hfound
      obtain ⟨hfirst', hrest'⟩ := List.forall_mem_cons.mp hfound'
      rw [List.mapM_cons, List.mapM_cons]
      refine .bind (eval_exchanged hp hm hf henv ho hfirst hfirst') fun _ v w _ _ _ hm₁ hvw => ?_
      refine .bind (ih hm₁ hrest hrest') fun _ vs ws _ _ _ hm₂ hvs => ?_
      refine .pure hm₂ ⟨.cons hvw.1 hvs.1, fun h => ?_⟩
      obtain ⟨hv, hvs'⟩ := List.cons_eq_cons.mp h
      rw [hvw.2 hv, hvs.2 hvs']

/-! ## Instructions -/

theorem on_single {F : Operand → Exec Value} {a : Operand} (h : (F a).on mem = (.ok v, mem')) :
    ([a].mapM F).on mem = (.ok [v], mem') := by
  rw [List.mapM_cons]
  exact (Effect.on_bind_of_ok h).trans rfl

theorem on_pair {F : Operand → Exec Value} {a b : Operand} {vs : List Value}
    (h : ([a, b].mapM F).on mem = (.ok vs, mem')) :
    ∃ x y mem₁, vs = [x, y] ∧ (F a).on mem = (.ok x, mem₁) ∧ (F b).on mem₁ = (.ok y, mem') := by
  rw [List.mapM_cons, List.mapM_cons] at h
  obtain ⟨x, mem₁, hx, h⟩ := Effect.on_bind_ok h
  obtain ⟨ys, mem₂, hys, h⟩ := Effect.on_bind_ok h
  obtain ⟨y, mem₃, hy, hnil⟩ := Effect.on_bind_ok hys
  cases h
  cases hnil
  exact ⟨x, y, mem₁, rfl, hx, hy⟩

/-- Two instructions ask for the same: to go on at one of some blocks, or with values that are the same,
or null and the address zero. -/
inductive Signal.Zeroed (targets : List Nat) : Signal → Signal → Prop
  | value {v w : Value} : v.Zeroed w → Zeroed targets (.value v) (.value w)
  | goto {t : Nat} : t ∈ targets → Zeroed targets (.goto t) (.goto t)
  | call (callee : Nat) {vs ws : List Value} : List.Forall₂ Value.Zeroed vs ws →
      Zeroed targets (.call callee vs) (.call callee ws)
  | ret {v w : Value} : v.Zeroed w → Zeroed targets (.ret v) (.ret w)

/-- Two operations read the same as numbers, or what does not make them come to something else. -/
def ReadsAlike (ev ev' : Operand → Exec Value) (mem mem' : Memory) (op op' : Op) : Prop :=
  ∀ vs vs' m m', (op.numbers.mapM ev).on mem = (.ok vs, m) →
    (op'.numbers.mapM ev').on mem' = (.ok vs', m') → vs' = vs ∨ op.tells vs vs' = false

theorem result_eq (hf : f.Zeroed f') (t : Ty) (op : Op) (vs : List Value) :
    result f' t op vs = result f t op vs := by
  obtain ⟨_, rfl⟩ := hf.rest
  rfl

theorem reinterpret_zeroed {function : String} {source target : Ty} (hs : source.isPointer = true)
    (hvw : v.Zeroed w) :
    Agree Value.Zeroed (CastOp.reinterpret function source target v)
      (CastOp.reinterpret function source target w) := by
  cases source with
  | pointer =>
      cases target with
      | pointer => exact .ok hvw
      | _ => exact .error _
  | _ => cases hs

/-- What an operation does not tell apart makes no difference to what it comes to. -/
theorem result_zeroed {op op' : Op} {vs vs' : List Value} {m m' : Memory}
    (hop : op.Alike (Operand.Zeroed f) op') (hc : op.isComputed = true)
    (hvs : (op.operands.mapM (eval p f env)).on mem = (.ok vs, m))
    (hvs' : (op'.operands.mapM (eval p' f' env')).on mem' = (.ok vs', m'))
    (hall : List.Forall₂ Value.Zeroed vs vs') (hkept : vs' = vs → op'.operands = op.operands)
    (htells : op.tells vs vs' = false) (t : Ty) :
    Agree Value.Zeroed (result f t op vs) (result f t op' vs') := by
  cases hop with
  | @icmp pred a a' b b' ha hb =>
      obtain ⟨x, y, _, rfl, hx, hy⟩ := on_pair hvs
      obtain ⟨x', y', _, rfl, hx', hy'⟩ := on_pair hvs'
      obtain ⟨⟨hpred, hxy⟩, hxy'⟩ : (pred.isEquality = true ∧ x.areNoughts y = false) ∧
        x'.areNoughts y' = false := by simpa [OpOver.tells] using htells
      rcases hall with _ | ⟨hxx, _ | ⟨hyy, -⟩⟩
      have hone : x'.isOne (a'.isSameLocal b') y' = x.isOne (a.isSameLocal b) y := by
        -- operands that come to the same were not exchanged, so they are read from the same places
        refine Value.isOne_zeroed hxx hyy hxy hxy' (fun h => eval_of_isSameLocal h hx hy)
          (fun h => eval_of_isSameLocal h hx' hy') fun hxx hyy => ?_
        obtain ⟨rfl, rfl⟩ : a' = a ∧ b' = b := by
          simpa [OpOver.operands] using hkept (by rw [hxx, hyy])
        rfl
      simp only [result, IntPred.apply_equality hpred, hone]
      exact .ok (.same _)
  | @cast op a a' ha =>
      obtain ⟨rfl, hpointer⟩ : op = .bitcast ∧ a.type.isPointer = true := by
        cases op with
        | bitcast => simpa [OpOver.tells] using htells
        | _ => cases htells
      rcases hall with _ | ⟨hxx, _ | _⟩
      · exact .error _
      · simp only [result, CastOp.apply, ha.type]
        exact reinterpret_zeroed hpointer hxx
      · exact .error _
  | other hruled => cases hc.symm.trans (OpOver.isComputed_of_isRuled hruled)
  | int | fp | fneg | fcmp => simp [OpOver.tells] at htells
  | _ => cases hc

/-- What is only computed is the same, or null and the address zero. -/
theorem computed_zeroed (hp : p.Zeroed p') (hm : mem.Zeroed mem') (hf : f.Zeroed f')
    (henv : env.Zeroed f env') {op op' : Op} (hop : op.Alike (Operand.Zeroed f) op')
    (hfound : ∀ o ∈ op.operands, o.IsFound env) (hfound' : ∀ o ∈ op'.operands, o.IsFound env')
    (hreads : ReadsAlike (eval p f env) (eval p' f' env') mem mem' op op')
    (hc : op.isComputed = true) (t : Ty) :
    Paired zeroing () (compute (eval p f env) f t op) mem (compute (eval p' f' env') f' t op') mem'
      fun _ => Value.Zeroed := by
  have hc' : op'.isComputed = true := hop.isComputed.trans hc
  rw [compute_eq_result _ f t hc, compute_eq_result _ f' t hc']
  refine .bindOn (evalAll_zeroed hp hm hf henv (hop.operands hc) hfound hfound')
    fun _ vs vs' m₁ m₁' hvs hvs' _ hm₁ ⟨hall, hkept⟩ => lift_zeroed hm₁ ?_
  rw [result_eq hf]
  rcases hreads vs vs' m₁ m₁' (OpOver.numbers_of_isComputed hc ▸ hvs)
    (OpOver.numbers_of_isComputed hc' ▸ hvs') with heq | htells
  · rw [hop.eq_of_operands hc (hkept heq), heq]
    exact (Agree.of_eq rfl).mono fun v w hvw => hvw ▸ .same v
  · exact result_zeroed hop hc hvs hvs' hall hkept htells t

theorem compute_unruled {ev : Operand → Exec Value} {t : Ty} {op : Op} (h : op.isRuled = false) :
    compute ev f t op = throw (.unsupported (.instruction op.word) f.name) := by
  cases op <;> first | rfl | cases h

theorem control_unruled {ev : Operand → Exec Value} {op : Op}
    {callOf : Operand → List Operand → Exec Signal} {otherwise : Exec Value} (h : op.isRuled = false) :
    control ev f op callOf otherwise = (do return .value (← otherwise)) := by
  cases op <;> first | rfl | cases h

/-- An access goes through the same cell, or fails. -/
theorem cellOf_zeroed (hm : mem.Zeroed mem') (hf : f.Zeroed f') (word : String) (hvw : v.Zeroed w) :
    Paired zeroing () (cellOf f word v) mem (cellOf f' word w) mem' fun _ => Eq := by
  obtain ⟨_, rfl⟩ := hf.rest
  cases hvw with
  | same =>
      cases v with
      | cell id => exact .pure hm rfl
      | _ => exact .throw hm _
  | zero | null => exact .throw hm _

theorem cell_zeroed (hm : mem.Zeroed mem') (id : Nat) :
    Paired zeroing () (Exec.cell id) mem (Exec.cell id) mem' fun _ c c' => c.value.Zeroed c'.value := by
  refine .of_on (Exec.on_cell id mem) (Exec.on_cell id mem') hm (.ok ?_)
  have hid := hm.cells id
  generalize mem.storage.cell? id = x, mem'.storage.cell? id = y at hid
  cases hid with
  | none => exact .same _
  | some hc => exact hc.value

theorem allocate_zeroed (hm : mem.Zeroed mem') (t : Ty) (hvw : v.Zeroed w) :
    Paired zeroing () (Exec.allocate t v) mem (Exec.allocate t w) mem' fun _ => Eq :=
  ⟨(), trivial, hm.addCell t hvw, .ok hm.size.symm⟩

theorem write_zeroed (hm : mem.Zeroed mem') (id : Nat) (hvw : v.Zeroed w) :
    Paired zeroing () (Exec.write id v) mem (Exec.write id w) mem' fun _ _ _ => True :=
  ⟨(), trivial, hm.write id hvw, .ok trivial⟩

section

variable (hp : p.Zeroed p') (hm : mem.Zeroed mem') (hf : f.Zeroed f') (henv : env.Zeroed f env')
include hp hm hf henv

/-- Values are the same, or null and the address zero. -/
theorem compute_zeroed {op op' : Op} (hop : op.Alike (Operand.Zeroed f) op')
    (hfound : ∀ o ∈ op.operands, o.IsFound env) (hfound' : ∀ o ∈ op'.operands, o.IsFound env')
    (hreads : ReadsAlike (eval p f env) (eval p' f' env') mem mem' op op') (t : Ty) :
    Paired zeroing () (compute (eval p f env) f t op) mem (compute (eval p' f' env') f' t op') mem'
      fun _ => Value.Zeroed := by
  by_cases hc : op.isComputed = true
  · exact computed_zeroed hp hm hf henv hop hfound hfound' hreads hc t
  cases hop with
  | int | fp | fneg | icmp | fcmp | cast => exact absurd rfl hc
  | select hcond ha hb =>
      refine .bind (eval_zeroed hp hm hf henv hcond hfound hfound' (.head _) (.head _))
        fun _ x x' m₁ m₁' _ hm₁ hx => ?_
      rw [hx.isTrue]
      split
      · exact eval_zeroed hp hm₁ hf henv ha hfound hfound' (.tail _ (.head _)) (.tail _ (.head _))
      · exact eval_zeroed hp hm₁ hf henv hb hfound hfound' (.tail _ (.tail _ (.head _)))
          (.tail _ (.tail _ (.head _)))
  | alloca u =>
      refine .bind (allocate_zeroed hm u (.same _)) fun _ id id' m₁ m₁' _ hm₁ hid => ?_
      cases hid
      exact .pure hm₁ (.same _)
  | load ha =>
      refine .bind (eval_zeroed hp hm hf henv ha hfound hfound' (.head _) (.head _))
        fun _ x x' m₁ m₁' _ hm₁ hx => ?_
      refine .bind (cellOf_zeroed hm₁ hf _ hx) fun _ id id' m₂ m₂' _ hm₂ hid => ?_
      cases hid
      exact .bind (cell_zeroed hm₂ id) fun _ c c' m₃ m₃' _ hm₃ hc => .pure hm₃ hc
  | store hv ha =>
      refine .bind (eval_zeroed hp hm hf henv hv hfound hfound' (.head _) (.head _))
        fun _ x x' m₁ m₁' _ hm₁ hx => ?_
      refine .bind (eval_zeroed hp hm₁ hf henv ha hfound hfound' (.tail _ (.head _)) (.tail _ (.head _)))
        fun _ y y' m₂ m₂' _ hm₂ hy => ?_
      refine .bind (cellOf_zeroed hm₂ hf _ hy) fun _ id id' m₃ m₃' _ hm₃ hid => ?_
      cases hid
      exact .bind (write_zeroed hm₃ id hx) fun _ _ _ m₄ m₄' _ hm₄ _ => .pure hm₄ (.same _)
  | other hruled _ hruled' _ hword =>
      rw [compute_unruled hruled, compute_unruled hruled', hword, hf.outline.name]
      exact .throw hm _
  | _ =>
      simp only [compute, hf.outline.name]
      exact .throw hm _

omit hp henv in
/-- Control goes by the same case of a switch, as the labels of cases are constants. -/
theorem chooseCase_zeroed (v : Value) (d : Nat) (cases : List (Operand × Nat))
    (hcases : ∀ e ∈ cases, ∃ c, e.1 = .const c) :
    Paired zeroing () (chooseCase (eval p f env) v d cases) mem (chooseCase (eval p' f' env') v d cases)
      mem' fun _ t t' => t' = t ∧ t ∈ d :: cases.map Prod.snd := by
  induction cases generalizing mem mem' with
  | nil => exact .pure hm ⟨rfl, .head _⟩
  | cons e rest ih =>
      obtain ⟨_, target⟩ := e
      obtain ⟨⟨c, rfl⟩, hrest⟩ := List.forall_mem_cons.mp hcases
      have hlabel : Paired zeroing () (eval p f env (.const c)) mem (eval p' f' env' (.const c)) mem'
          fun _ => Eq := lift_zeroed hm (.of_eq (by rw [hf.outline.name]))
      refine .bind hlabel fun _ x _ _ _ _ hm₁ hx => ?_
      subst hx
      split
      · exact .pure hm₁ ⟨rfl, .tail _ (.head _)⟩
      · refine (ih hm₁ hrest).mono fun _ t t' _ ht => ⟨ht.1, ?_⟩
        rcases List.mem_cons.mp ht.2 with rfl | hmem
        · exact .head _
        · exact .tail _ (.tail _ hmem)

/-- A call is of the same function, with arguments that are the same, or null and the address zero. -/
theorem call_zeroed (callee : Operand) {args args' : List Operand}
    (hargs : List.Forall₂ (Operand.Zeroed f) args args') (hfound : ∀ o ∈ args, o.IsFound env)
    (hfound' : ∀ o ∈ args', o.IsFound env') (ts : List Nat) :
    Paired zeroing () (call p (eval p f env) f callee args) mem
      (call p' (eval p' f' env') f' callee args') mem' fun _ => Signal.Zeroed ts := by
  unfold call
  rw [hf.outline.name]
  cases callee with
  | global i t =>
      have hi := hp.module.function? i
      dsimp only
      generalize p.module.function? i = x, p'.module.function? i = y at hi
      cases hi with
      | none => exact .throw hm _
      | some =>
          refine .bind (evalAll_zeroed hp hm hf henv hargs hfound hfound') fun _ vs ws _ _ _ hm₁ hvs => ?_
          exact .pure hm₁ (.call i hvs.1)
  | _ => exact .throw hm _

theorem perform_zeroed {i i' : Instr} (hi : i.Zeroed f i') (hfound : ∀ o ∈ i.op.operands, o.IsFound env)
    (hfound' : ∀ o ∈ i'.op.operands, o.IsFound env')
    (hreads : ReadsAlike (eval p f env) (eval p' f' env') mem mem' i.op i'.op) :
    Paired zeroing () (perform p f env i) mem (perform p' f' env' i') mem' fun _ =>
      Signal.Zeroed i.op.targets := by
  obtain ⟨id, t, op⟩ := i
  obtain ⟨id', t', op'⟩ := i'
  obtain ⟨rfl, rfl, hop⟩ : id' = id ∧ t' = t ∧ op.Alike (Operand.Zeroed f) op' := ⟨hi.id, hi.type, hi.op⟩
  have hcompute := compute_zeroed hp hm hf henv hop hfound hfound' hreads t'
  have htarget {b : Bool} {t e : Nat} : (if b then t else e) ∈ [t, e] := by
    cases b <;> simp
  unfold perform
  cases hop with
  | leave => exact .pure hm (.ret (.same _))
  | ret hv =>
      refine .bind (eval_zeroed hp hm hf henv hv hfound hfound' (.head _) (.head _))
        fun _ x y m₁ m₁' _ hm₁ hxy => ?_
      exact .pure hm₁ (.ret hxy)
  | br t => exact .pure hm (.goto (.head _))
  | condBr t e hc =>
      refine .bind (eval_zeroed hp hm hf henv hc hfound hfound' (.head _) (.head _))
        fun _ x y m₁ m₁' _ hm₁ hxy => ?_
      rw [hxy.isTrue]
      exact .pure hm₁ (.goto htarget)
  | switch d cases hv hcases =>
      refine .bindOn (eval_zeroed hp hm hf henv hv hfound hfound' (.head _) (.head _))
        fun _ x x' m₁ m₁' hx hx' _ hm₁ _ => ?_
      obtain rfl : x' = x := by
        rcases hreads [x] [x'] m₁ m₁' (on_single hx) (on_single hx') with heq | htells
        · exact (List.cons_eq_cons.mp heq).1
        · cases htells
      refine .bind (chooseCase_zeroed hm₁ hf _ d cases hcases) fun _ t t' m₂ m₂' _ hm₂ ht => ?_
      obtain ⟨rfl, hmem⟩ := ht
      exact .pure hm₂ (.goto hmem)
  | unreachable =>
      obtain ⟨_, rfl⟩ := hf.rest
      exact .throw hm _
  | call callee hargs | invoke callee n u hargs =>
      exact call_zeroed hp hm hf henv callee hargs (fun o ho => hfound o (.tail _ ho))
        (fun o ho => hfound' o (.tail _ ho)) _
  | other hruled _ hruled' =>
      rw [control_unruled hruled, control_unruled hruled']
      exact .bind hcompute fun _ _ _ _ _ _ hm₁ hxy => .pure hm₁ (.value hxy)
  | _ => exact .bind hcompute fun _ _ _ _ _ _ hm₁ hxy => .pure hm₁ (.value hxy)

end

/-- What is made from the integer zero is that. -/
theorem perform_made {i : Instr} (hop : i.op = .cast .inttoptr (.const (.int (.int 64) 0)))
    (ht : i.type.isPointer = true) :
    (perform p f env i).on mem = (.ok (.value (.int 0)), mem) := by
  have hzero : (eval p f env (.const (.int (.int 64) 0))).on mem = (.ok (.int 0), mem) := rfl
  refine (perform_cast hop hzero).trans ?_
  cases h : i.type with
  | pointer => rfl
  | _ => rw [h] at ht; cases ht

end Interpreted

end

end Ssa

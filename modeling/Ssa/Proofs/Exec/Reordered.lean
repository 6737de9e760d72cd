/-
# `Ssa.Proofs.Exec.Reordered` — runs of modules with their phis in another order

Two modules that are the same but for the order of phis, and of their entries, do the same step by step.
Where control goes on at a block, the two may ask for the cells of variables in different orders; that leaves
memories that are abreast.  Once all phis have been read, reading one of them again changes nothing, and so
they may be compared in one order.  Only where a jump fails may the two fail for different phis of the block.

**Proved here.**

    operands, instructions and phis come to the same          (`eval_reordered`, …, `phiValue_reordered`)
    so do phis that are read in another order                 (`phis_concur`)
    and jumps, steps, runs and calls, but for which phi fails   (`jump_concurs`, …, `call_concurs`)
-/
import Ssa.Proofs.Exec.Abreast
import Ssa.Proofs.Exec.Congruence
import Ssa.Proofs.Exec.Reached
import Ssa.Proofs.Program.Reordered

namespace Ssa

open Effect (Paired)
open Interpreted (rules eval perform)

/-! ## What is the same -/

section

variable {owner : Nat} {types : TypeTable} {m m' : Module} {f f' : Function}

/-- With the same values, operands of the two modules come to the same. -/
theorem eval_reordered (hm : m.Reordered m') (hf : f.Reordered f') (env : Env) :
    eval ⟨owner, types, m'⟩ f' env = eval ⟨owner, types, m⟩ f env := by
  obtain ⟨blocks, rfl⟩ := hf.rest
  funext o
  cases o with
  | const c => rfl
  | «local» id t => rfl
  | global i t =>
      refine Interpreted.eval_global_congr rfl rfl (hm.symbols i) fun s s' hs => ?_
      rcases s with v | g <;> rcases s' with v' | g' <;> try contradiction
      · cases (show v' = v from hs)
        rfl
      · have hg : g.Reordered g' := hs
        exact ⟨hg.outline.name, hg.outline.type⟩

/-- And so do instructions, since the functions of the two modules stand in the same places. -/
theorem perform_reordered (hm : m.Reordered m') (hf : f.Reordered f') (env : Env) (i : Instr) :
    perform ⟨owner, types, m'⟩ f' env i = perform ⟨owner, types, m⟩ f env i :=
  Interpreted.perform_congr hf.outline.name hm.function? fun o _ => congrFun (eval_reordered hm hf env) o

theorem phiValue_reordered (hm : m.Reordered m') (hf : f.Reordered f') (env : Env) (source : Option Nat)
    {i i' : Instr} (hi : i.Reordered i') :
    Machine.phiValue rules ⟨owner, types, m'⟩ f' env source i' =
      Machine.phiValue rules ⟨owner, types, m⟩ f env source i := by
  unfold Machine.phiValue
  rw [hi.entryFor_eq, hi.id, hf.outline.localName, hf.outline.name, hf.outline.sourceName,
    show rules.eval ⟨owner, types, m'⟩ f' env = rules.eval ⟨owner, types, m⟩ f env from
      eval_reordered hm hf env]

theorem mapM_phiValue_reordered (hm : m.Reordered m') (hf : f.Reordered f') (env : Env)
    (source : Option Nat) {is is' : List Instr} (h : List.Forall₂ Instr.Reordered is is') :
    is'.mapM (Machine.phiValue rules ⟨owner, types, m'⟩ f' env source) =
      is.mapM (Machine.phiValue rules ⟨owner, types, m⟩ f env source) := by
  induction h with
  | nil => rfl
  | cons hi _ ih => rw [List.mapM_cons, List.mapM_cons, phiValue_reordered hm hf env source hi, ih]

end

/-! ## Outcomes that concur -/

/-- Two outcomes are values that are related, or one failure, or failures that may stand for one another. -/
inductive Concur {α β : Type} (E : Failure → Failure → Prop) (P : α → β → Prop) :
    Except Failure α → Except Failure β → Prop
  | ok {a : α} {b : β} : P a b → Concur E P (.ok a) (.ok b)
  | error (e : Failure) : Concur E P (.error e) (.error e)
  | differ {e e' : Failure} : E e e' → Concur E P (.error e) (.error e')

/-- Two computations leave memories that are abreast again, and come to outcomes that concur. -/
def Exec.Concurs {α β : Type} (m : Module) (ρ : Renaming) (E : Failure → Failure → Prop) (x : Exec α)
    (mem : Memory) (y : Exec β) (mem' : Memory) (P : Renaming → α → β → Prop) : Prop :=
  ∃ ρ', ρ'.Extends ρ ∧ (Ties.abreast m).pairing.holds ρ' (x.on mem).2 (y.on mem').2 ∧
    Concur E (P ρ') (x.on mem).1 (y.on mem').1

namespace Exec.Concurs

variable {m : Module} {ρ : Renaming} {E E' : Failure → Failure → Prop} {α β γ δ : Type} {x : Exec α}
  {y : Exec β} {mem mem' : Memory} {P : Renaming → α → β → Prop} {Q : Renaming → γ → δ → Prop}

theorem of_paired (h : Paired (Ties.abreast m).pairing ρ x mem y mem' P) :
    Concurs m ρ E x mem y mem' P := by
  obtain ⟨ρ', hρ, hmem, hagree⟩ := h
  refine ⟨ρ', hρ, hmem, ?_⟩
  generalize (x.on mem).1 = r, (y.on mem').1 = r' at hagree ⊢
  cases hagree with
  | ok hab => exact .ok hab
  | error e => exact .error e

theorem allow (h : Concurs m ρ E x mem y mem' P) (hE : ∀ e e', E e e' → E' e e') :
    Concurs m ρ E' x mem y mem' P := by
  obtain ⟨ρ', hρ, hmem, hr⟩ := h
  refine ⟨ρ', hρ, hmem, ?_⟩
  generalize (x.on mem).1 = r, (y.on mem').1 = r' at hr ⊢
  cases hr with
  | ok hab => exact .ok hab
  | error e => exact .error e
  | differ he => exact .differ (hE _ _ he)

theorem pure {a : α} {b : β} (hmem : (Ties.abreast m).pairing.holds ρ mem mem') (h : P ρ a b) :
    Concurs m ρ E (Pure.pure a) mem (Pure.pure b) mem' P :=
  ⟨ρ, .refl ρ, hmem, .ok h⟩

theorem bind {f : α → Exec γ} {g : β → Exec δ} (h : Concurs m ρ E x mem y mem' P)
    (hfg : ∀ ρ' a b mem₁ mem₁', ρ'.Extends ρ → x.on mem = (.ok a, mem₁) →
      (Ties.abreast m).pairing.holds ρ' mem₁ mem₁' → P ρ' a b →
      Concurs m ρ' E (f a) mem₁ (g b) mem₁' Q) : Concurs m ρ E (x >>= f) mem (y >>= g) mem' Q := by
  obtain ⟨ρ', hρ, hmem, hr⟩ := h
  rcases hx : x.on mem with ⟨r, mem₁⟩
  rcases hy : y.on mem' with ⟨r', mem₁'⟩
  rw [hx, hy] at hmem hr
  cases hr with
  | ok hab =>
      obtain ⟨ρ'', hρ', hmem', hr'⟩ := hfg ρ' _ _ mem₁ mem₁' hρ hx hmem hab
      rw [Concurs, Effect.on_bind_of_ok hx, Effect.on_bind_of_ok hy]
      exact ⟨ρ'', hρ.trans hρ', hmem', hr'⟩
  | error e =>
      rw [Concurs, Effect.on_bind_of_error hx, Effect.on_bind_of_error hy]
      exact ⟨ρ', hρ, hmem, .error e⟩
  | differ he =>
      rw [Concurs, Effect.on_bind_of_error hx, Effect.on_bind_of_error hy]
      exact ⟨ρ', hρ, hmem, .differ he⟩

end Exec.Concurs

open Exec (Concurs)

/-! ## Phis -/

/-- Each of two phis of a list fails on a way into their block. -/
def PhisFail (p : Program) (f : Function) (env : Env) (source : Option Nat) (mem : Memory)
    (is : List Instr) (e e' : Failure) : Prop :=
  ∃ i ∈ is, ∃ i' ∈ is, (Machine.phiValue rules p f env source i).on mem = (.error e, mem) ∧
    (Machine.phiValue rules p f env source i').on mem = (.error e', mem)

/-- On memories that are abreast, a phi that has a value on one side has one on the other. -/
theorem phiValue_abreast {p : Program} {ρ : Renaming} {mem mem' : Memory} {env env' : Env}
    (hmem : (Ties.abreast p.module).pairing.holds ρ mem mem') (henv : env.Renamed ρ env') (f : Function)
    (source : Option Nat) (i : Instr) :
    Agree (fun _ _ => True) ((Machine.phiValue rules p f env source i).on mem).1
      ((Machine.phiValue rules p f env' source i).on mem').1 := by
  obtain ⟨_, -, -, hagree⟩ :=
    Ties.phiValue_paired (Ties.abreast_opens p.owner p.types p.module) hmem henv f source i
  exact hagree.mono fun _ _ _ => trivial

/-- Phis that are read in another order come to the same, or one of them fails on each side. -/
theorem phis_concur (p : Program) {ρ : Renaming} {mem mem' : Memory} {env env' : Env}
    (hmem : (Ties.abreast p.module).pairing.holds ρ mem mem') (henv : env.Renamed ρ env') (f : Function)
    (source : Option Nat) {is is' : List Instr} (hperm : is'.Perm is) :
    Concurs p.module ρ (PhisFail p f env source mem is)
      (is.mapM (Machine.phiValue rules p f env source)) mem
      (is'.mapM (Machine.phiValue rules p f env' source)) mem'
      fun ρ' vs ws => ∃ us, us.Perm ws ∧
        List.Forall₂ (fun x y => x.1 = y.1 ∧ x.2.Renamed ρ' y.2) vs us := by
  -- each side reads alone, in its own order
  have halone (env : Env) (is : List Instr) :
      (is.mapM (Machine.phiValue rules p f env source)).Within (Ties.Alone p.module) :=
    .mapM (Ties.alone_admits _) (Interpreted.phiValue_within (Ties.alone_admits _) f env source) is
  obtain ⟨ρ₁, hρ₁, hmem₁⟩ := halone env is mem ρ mem' hmem
  obtain ⟨ρ₂, hρ₂, hmem₂⟩ := (halone env' is' mem').right hmem₁
  -- and then again, in one order
  have henv₂ := henv.mono (hρ₁.trans hρ₂)
  have hphi := phiValue_abreast hmem₂ henv₂ f source
  have hphis := Ties.phis_paired (Ties.abreast_opens p.owner p.types p.module) hmem₂ henv₂ f source is
  rcases hon : (is.mapM (Machine.phiValue rules p f env source)).on mem with ⟨e | vs, mem₁⟩ <;>
    rcases hon' : (is'.mapM (Machine.phiValue rules p f env' source)).on mem' with ⟨e' | ws, mem₁'⟩ <;>
      rw [Concurs, hon, hon'] <;> rw [hon, hon'] at hmem₂ hphi hphis
  · obtain ⟨honward, before, i, after, rfl, -, hi⟩ := Machine.mapM_phiValue_error hon
    obtain ⟨-, before', i', after', rfl, -, hi'⟩ := Machine.mapM_phiValue_error hon'
    refine ⟨ρ₂, hρ₁.trans hρ₂, hmem₂, .differ ⟨i, by simp, i', hperm.mem_iff.mp (by simp), ?_, ?_⟩⟩
    · exact Machine.phiValue_failed_before honward hi
    · have hagree := hphi i'
      rcases hfails : (Machine.phiValue rules p f env source i').on mem₁ with ⟨r, mem₂⟩
      rw [hfails, hi'] at hagree
      cases hagree
      obtain ⟨rfl, hfails⟩ := Machine.phiValue_fails_again hfails .here
      exact Machine.phiValue_failed_before honward hfails
  · obtain ⟨-, before, i, after, his, -, hi⟩ := Machine.mapM_phiValue_error hon
    obtain ⟨-, hall⟩ := Machine.mapM_phiValue_ok hon'
    have hmem : i ∈ is' := hperm.mem_iff.mpr (by simp [his])
    obtain ⟨w, -, hw⟩ := Machine.phiValue_of_mem hall hmem
    have hagree := hphi i
    rw [hi, hw] at hagree
    nomatch hagree
  · obtain ⟨-, before, i, after, his, -, hi⟩ := Machine.mapM_phiValue_error hon'
    obtain ⟨-, hall⟩ := Machine.mapM_phiValue_ok hon
    have hmem : i ∈ is := hperm.mem_iff.mp (by simp [his])
    obtain ⟨v, -, hv⟩ := Machine.phiValue_of_mem hall hmem
    have hagree := hphi i
    rw [hi, hv] at hagree
    nomatch hagree
  · obtain ⟨-, hall⟩ := Machine.mapM_phiValue_ok hon
    obtain ⟨-, hall'⟩ := Machine.mapM_phiValue_ok hon'
    obtain ⟨us, hus, hws⟩ := List.perm_comp_forall₂ hperm.symm hall'
    obtain ⟨ρ₃, hρ₃, hmem₃, hagree⟩ := hphis
    rw [Effect.on_mapM_of_forall₂ hall, Effect.on_mapM_of_forall₂ hus] at hmem₃ hagree
    cases hagree with
    | ok hvs => exact ⟨ρ₃, (hρ₁.trans hρ₂).trans hρ₃, hmem₃, .ok ⟨us, hws, hvs⟩⟩

/-! ## Frames -/

/-- Two frames are at one place, with values that are taken for one another. -/
structure Frame.Beside (m : Module) (ρ : Renaming) (fr fr' : Frame) : Prop where
  member : ∃ k, m.function? k = some fr.function
  function : fr.function.Reordered fr'.function
  env : fr.env.Renamed ρ fr'.env
  block : fr'.block = fr.block
  pc : fr'.pc = fr.pc
  pending : fr'.pending = fr.pending

/-- They have passed the phis of their block. -/
structure Frame.Twin (m : Module) (ρ : Renaming) (fr fr' : Frame) : Prop extends Frame.Beside m ρ fr fr' where
  past : (fr.function.leadingPhis fr.block).length ≤ fr.pc

namespace Frame.Twin

variable {m : Module} {ρ ρ' : Renaming} {fr fr' : Frame} {v w : Value}

theorem mono (h : fr.Twin m ρ fr') (hρ : ρ'.Extends ρ) : fr.Twin m ρ' fr' :=
  { h with env := h.env.mono hρ }

theorem current? (h : fr.Twin m ρ fr') : fr'.current? = fr.current? := by
  rw [Frame.current?, Frame.current?, h.block, h.pc]
  exact h.function.getElem?_instrs h.past

theorem advance (h : fr.Twin m ρ fr') (id : Nat) (hvw : v.Renamed ρ w) :
    (fr.advance id v).Twin m ρ (fr'.advance id w) where
  member := h.member
  function := h.function
  env := h.env.bind id hvw
  block := h.block
  pc := congrArg (· + 1) h.pc
  pending := rfl
  past := Nat.le_succ_of_le h.past

theorem await (h : fr.Twin m ρ fr') (id : Nat) : (fr.await id).Twin m ρ (fr'.await id) :=
  { h with pending := rfl }

theorem resume (h : fr.Twin m ρ fr') (hvw : v.Renamed ρ w) : (fr.resume v).Twin m ρ (fr'.resume w) := by
  unfold Frame.resume
  rw [h.pending]
  split
  · exact h.advance _ hvw
  · exact h

end Frame.Twin

/-- Two machines are at one place, with values that are taken for one another. -/
inductive Machine.State.Twin (m : Module) (ρ : Renaming) : Machine.State → Machine.State → Prop
  | running {fr fr' : Frame} {waiting waiting' : List Frame} : fr.Twin m ρ fr' →
      List.Forall₂ (Frame.Twin m ρ) waiting waiting' → Twin m ρ (.running fr waiting) (.running fr' waiting')
  | done {v w : Value} : v.Renamed ρ w → Twin m ρ (.done v) (.done w)

theorem Machine.leave_twin {m : Module} {ρ : Renaming} {v w : Value} {waiting waiting' : List Frame}
    (hvw : v.Renamed ρ w) (h : List.Forall₂ (Frame.Twin m ρ) waiting waiting') :
    (leave v waiting).Twin m ρ (leave w waiting') := by
  cases h with
  | nil => exact .done hvw
  | cons hfr hrest => exact .running (hfr.resume hvw) hrest

/-! ## Where control goes on -/

namespace Machine

/-- A step of a frame goes on at a block: in the frame itself, or, at a call, in a new frame. -/
inductive Approaches (p : Program) (fr : Frame) (mem : Memory) : Frame → Option Nat → Nat → Memory → Prop
  | jump {i : Instr} {t : Nat} {mem₁ : Memory} : fr.current? = some i →
      (perform p fr.function fr.env i).on mem = (.ok (.goto t), mem₁) →
      Approaches p fr mem fr (some fr.block) t mem₁
  | call {i : Instr} {c : Nat} {args : List Value} {g : Function} {env : Env} {mem₁ : Memory} :
      fr.current? = some i → (perform p fr.function fr.env i).on mem = (.ok (.call c args), mem₁) →
      p.module.function? c = some g → bindParams g.params args 0 = .ok env →
      Approaches p fr mem ⟨g, env, 0, 0, none⟩ none 0 mem₁

/-- The call of a function goes on at a block, in a frame and with a memory. -/
inductive GoesOn (p : Program) (f : Function) (args : List Value) (mem : Memory) :
    Frame → Option Nat → Nat → Memory → Prop
  | enter {env : Env} : bindParams f.params args 0 = .ok env →
      GoesOn p f args mem ⟨f, env, 0, 0, none⟩ none 0 mem
  | step {fr fr' : Frame} {waiting : List Frame} {source : Option Nat} {target : Nat} {mem₁ mem₂ : Memory} :
      Reaches rules p f args mem (.running fr waiting) mem₁ →
      Approaches p fr mem₁ fr' source target mem₂ → GoesOn p f args mem fr' source target mem₂

/-- The call of a function goes on at a block of which two phis fail. -/
def Strays (p : Program) (f : Function) (args : List Value) (mem : Memory) (e e' : Failure) : Prop :=
  ∃ fr source target mem₁, GoesOn p f args mem fr source target mem₁ ∧
    PhisFail p fr.function fr.env source mem₁ (fr.function.leadingPhis target) e e'

section

variable {owner : Nat} {types : TypeTable} {m m' : Module} (hm : m.Reordered m')
  (hd : ∀ k f, m.function? k = some f → ∀ b, ((f.leadingPhis b).map Instr.id).Nodup)
  {ρ : Renaming} {mem mem' : Memory} (hmem : (Ties.abreast m).pairing.holds ρ mem mem')
  {fr fr' : Frame} {waiting waiting' : List Frame} {f f' : Function} {args args' : List Value}
include hm hd hmem

theorem jump_concurs (hfr : fr.Beside m ρ fr') (source : Option Nat) (target : Nat) :
    Concurs m ρ (PhisFail ⟨owner, types, m⟩ fr.function fr.env source mem (fr.function.leadingPhis target))
      (jump rules ⟨owner, types, m⟩ fr source target) mem
      (jump rules ⟨owner, types, m'⟩ fr' source target) mem' (Frame.Twin m) := by
  obtain ⟨is, hperm, hall⟩ := hfr.function.leadingPhis target
  obtain ⟨k, hk⟩ := hfr.member
  unfold jump
  dsimp only
  rw [mapM_phiValue_reordered hm hfr.function fr'.env source hall, hfr.function.length_leadingPhis]
  refine (phis_concur ⟨owner, types, m⟩ hmem hfr.env fr.function source hperm).bind
    fun ρ₁ vs ws mem₁ mem₁' hρ hon hmem₁ ⟨us, hus, hvs⟩ => .pure hmem₁ ?_
  -- under different numbers, the values may be bound in any order
  have hids : (vs.map Prod.fst).Nodup := by
    obtain ⟨-, hall⟩ := mapM_phiValue_ok hon
    exact ids_of_phiValues hall ▸ hd k _ hk target
  have hsame : vs.map Prod.fst = us.map Prod.fst := by
    rw [← List.forall₂_eq_eq_eq, List.forall₂_map_left_iff, List.forall₂_map_right_iff]
    exact hvs.imp fun _ _ h => h.1
  have hws : (ws.map Prod.fst).Nodup := (hus.map Prod.fst).nodup_iff.mp (hsame ▸ hids)
  refine ⟨⟨hfr.member, hfr.function, fun id => ?_, rfl, rfl, hfr.pending⟩, Nat.le_refl _⟩
  dsimp only
  rw [← Env.lookup_bindAll_perm hws hus]
  exact (hfr.env.mono hρ).bindAll hvs id

theorem enter_concurs (hk : ∃ k, m.function? k = some f) (hf : f.Reordered f')
    (hargs : List.Forall₂ (Value.Renamed ρ) args args') :
    Concurs m ρ (fun e e' => ∃ env, bindParams f.params args 0 = .ok env ∧
        PhisFail ⟨owner, types, m⟩ f env none mem (f.leadingPhis 0) e e')
      (enter rules ⟨owner, types, m⟩ f args) mem (enter rules ⟨owner, types, m'⟩ f' args') mem'
      (Frame.Twin m) := by
  unfold enter
  rw [hf.outline.isDeclaration, hf.outline.params, hf.outline.name]
  split
  · exact .of_paired (.stop (.throw hmem _))
  · refine .bind (.of_paired (Ties.lift_paired hmem (Ties.bindParams_renamed f.params hargs 0)))
      fun ρ₁ env env' mem₁ mem₁' _ hon hmem₁ henv => ?_
    rw [Exec.on_lift] at hon
    obtain ⟨hbound, rfl⟩ := Prod.mk.inj hon
    have hfr : Frame.Beside m ρ₁ ⟨f, env, 0, 0, none⟩ ⟨f', env', 0, 0, none⟩ :=
      ⟨hk, hf, henv, rfl, rfl, rfl⟩
    exact (jump_concurs hm hd hmem₁ hfr none 0).allow fun e e' he => ⟨env, hbound, he⟩

theorem enterAt_concurs (c : Nat) (hargs : List.Forall₂ (Value.Renamed ρ) args args') :
    Concurs m ρ (fun e e' => ∃ g env, m.function? c = some g ∧ bindParams g.params args 0 = .ok env ∧
        PhisFail ⟨owner, types, m⟩ g env none mem (g.leadingPhis 0) e e')
      (enterAt rules ⟨owner, types, m⟩ c args) mem (enterAt rules ⟨owner, types, m'⟩ c args') mem'
      (Frame.Twin m) := by
  unfold enterAt
  have hc := hm.function? c
  cases hg : m.function? c with
  | none =>
      rw [hg] at hc
      generalize m'.function? c = y at hc
      cases hc
      exact .of_paired (.throw hmem _)
  | some g =>
      rw [hg] at hc
      generalize m'.function? c = y at hc
      cases hc with
      | some hf =>
          exact (enter_concurs hm hd hmem ⟨c, hg⟩ hf hargs).allow fun e e' ⟨env, hbound, he⟩ =>
            ⟨g, env, rfl, hbound, he⟩

/-- One step of two machines that are at one place. -/
theorem step_concurs (hfr : fr.Twin m ρ fr') (hwaiting : List.Forall₂ (Frame.Twin m ρ) waiting waiting') :
    Concurs m ρ (fun e e' => ∃ fr₁ source target mem₁,
        Approaches ⟨owner, types, m⟩ fr mem fr₁ source target mem₁ ∧
          PhisFail ⟨owner, types, m⟩ fr₁.function fr₁.env source mem₁ (fr₁.function.leadingPhis target) e e')
      (step rules ⟨owner, types, m⟩ fr waiting) mem (step rules ⟨owner, types, m'⟩ fr' waiting') mem'
      (State.Twin m) := by
  have hwaiting' {ρ' : Renaming} (hρ : ρ'.Extends ρ) : List.Forall₂ (Frame.Twin m ρ') waiting waiting' :=
    hwaiting.imp fun _ _ h => h.mono hρ
  unfold step
  rw [hfr.current?, hfr.block, hfr.function.outline.name, hfr.function.outline.blockName]
  split
  · exact .of_paired (.throw hmem _)
  · rename_i i hi
    have hperform := Ties.perform_paired (Ties.abreast_opens owner types m) hmem hfr.env fr.function i
    rw [← perform_reordered hm hfr.function fr'.env] at hperform
    refine .bind (.of_paired hperform) fun ρ₁ s s' mem₁ mem₁' hρ hon hmem₁ hs => ?_
    have hfr₁ := hfr.mono hρ
    cases hs with
    | value hvw => exact .pure hmem₁ (.running (hfr₁.advance i.id hvw) (hwaiting' hρ))
    | ret hvw => exact .pure hmem₁ (leave_twin hvw (hwaiting' hρ))
    | goto t =>
        refine .bind ((jump_concurs hm hd hmem₁ hfr₁.toBeside _ t).allow fun e e' he => ?_)
          fun ρ₂ _ _ _ _ hρ₂ _ hmem₂ hnext => .pure hmem₂ (.running hnext (hwaiting' (hρ.trans hρ₂)))
        exact ⟨fr, _, t, mem₁, .jump hi hon, he⟩
    | call c hargs =>
        refine .bind ((enterAt_concurs hm hd hmem₁ c hargs).allow fun e e' => ?_)
          fun ρ₂ _ _ _ _ hρ₂ _ hmem₂ hinner =>
            .pure hmem₂ (.running hinner (.cons ((hfr₁.mono hρ₂).await i.id) (hwaiting' (hρ.trans hρ₂))))
        rintro ⟨g, env, hg, hbound, he⟩
        exact ⟨_, none, 0, mem₁, .call hi hon hg hbound, he⟩

/-- Two machines that are at one place come to the same, but for which of two phis fails. -/
theorem run_concurs {mem₀ : Memory} {st st' : State}
    (hst : Reaches rules ⟨owner, types, m⟩ f args mem₀ st mem) (htwin : st.Twin m ρ st') (steps : Nat) :
    Concurs m ρ (Strays ⟨owner, types, m⟩ f args mem₀) (run rules ⟨owner, types, m⟩ steps st) mem
      (run rules ⟨owner, types, m'⟩ steps st') mem' Value.Renamed := by
  induction steps generalizing ρ mem mem' st st' with
  | zero =>
      cases htwin with
      | running => exact .of_paired (.throw hmem _)
      | done hvw => exact .pure hmem hvw
  | succ steps ih =>
      cases htwin with
      | done hvw => exact .pure hmem hvw
      | running hfr hwaiting =>
          refine .bind ((step_concurs hm hd hmem hfr hwaiting).allow fun e e' => ?_)
            fun _ _ _ _ _ _ hon hmem₁ htwin₁ => ih hmem₁ (.stepped hst hon) htwin₁
          rintro ⟨fr₁, source, target, mem₁, happroaches, he⟩
          exact ⟨fr₁, source, target, mem₁, .step hst happroaches, he⟩

theorem call_concurs (hk : ∃ k, m.function? k = some f) (hf : f.Reordered f')
    (hargs : List.Forall₂ (Value.Renamed ρ) args args') (steps : Nat) :
    Concurs m ρ (Strays ⟨owner, types, m⟩ f args mem) (call rules ⟨owner, types, m⟩ steps f args) mem
      (call rules ⟨owner, types, m'⟩ steps f' args') mem' Value.Renamed := by
  refine .bind ((enter_concurs hm hd hmem hk hf hargs).allow fun e e' => ?_)
    fun _ _ _ _ _ _ hon hmem₁ hfr => run_concurs hm hd hmem₁ (.entered hon) (.running hfr .nil) steps
  rintro ⟨env, hbound, he⟩
  exact ⟨_, none, 0, mem, .enter hbound, he⟩

end

end Machine

end Ssa

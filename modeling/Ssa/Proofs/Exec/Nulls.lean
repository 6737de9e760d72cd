/-
# `Ssa.Proofs.Exec.Nulls` — null as address zero

Null and the address zero are held as two values.  What tells them apart is an equality that has both
before it, an order, and whatever makes a number of a pointer; nothing else does.  So pointers go by their
addresses everywhere but there, and a module that has the one in place of the other, in any operands, runs
as before until it comes upon such a place.

**Proved here.**

    jumps, entries and steps lead to the same place                    (`jump_zeroed`, …, `step_zeroed`)
    calls that never tell go the same way, and come to the same        (`together_zeroed`, `call_zeroed`)
    pointers are compared, and made into integers, by their addresses  (`Pointer.by_address`)
-/
import Ssa.Generic
import Ssa.Proofs.Exec.Exchanged

namespace Ssa

open Effect (Paired)
open Interpreted (rules eval perform)

/-! ## The machine -/

/-- Where arguments are brought to a number they are the same. -/
def ArgsAlike (ts : List Ty) (vs ws : List Value) : Prop :=
  ∀ (k : Nat) (t : Ty), ts[k]? = some t → (t.isInt || t.isFp) = true → ws[k]? = vs[k]?

/-- A frame has a value for whatever it uses next. -/
structure Frame.Finds (fr : Frame) : Prop where
  operands : ∀ i, fr.current? = some i → ∀ o ∈ i.op.operands, o.IsFound fr.env
  entries : ∀ i, fr.current? = some i → ∀ t ∈ i.op.targets, ∀ j ∈ fr.function.leadingPhis t, ∀ o,
    Machine.entryFor (Machine.incomingOf j) (some fr.block) = some o → o.IsFound fr.env

/-- In a function with ordered control flow the frames that are reached have it. -/
theorem Frame.Ready.finds {fr : Frame} (h : fr.Ready) (ho : fr.function.IsOrdered) : fr.Finds := by
  refine ⟨fun i hi => h.found ho hi, fun i hi t ht j hj o hentry => ?_⟩
  obtain ⟨o', hentry', hfound⟩ := h.entry_found ho hi ht hj
  cases hentry.symm.trans hentry'
  exact hfound

namespace Machine

/-- Two frames have what they use next, and do not tell null from the address zero: as numbers they read
the same, or what makes no difference to what they do, and functions that take numbers are given the
same. -/
structure Indifferent (p p' : Program) (fr fr' : Frame) (mem mem' : Memory) : Prop where
  left : fr.Finds
  right : fr'.Finds
  reads : ∀ i i', fr.current? = some i → fr'.current? = some i' →
    Interpreted.ReadsAlike (eval p fr.function fr.env) (eval p' fr'.function fr'.env) mem mem' i.op i'.op
  arguments : ∀ i i' c g vs ws m m', fr.current? = some i → fr'.current? = some i' →
    (perform p fr.function fr.env i).on mem = (.ok (.call c vs), m) →
    (perform p' fr'.function fr'.env i').on mem' = (.ok (.call c ws), m') →
    p.module.function? c = some g → ArgsAlike g.params vs ws

variable {p p' : Program} {f f' : Function} {fr fr' : Frame} {waiting waiting' : List Frame}
  {args args' : List Value} {mem mem' : Memory} {source : Option Nat}

section

variable (hp : p.Zeroed p') (hm : mem.Zeroed mem')
include hp hm

theorem phiValue_zeroed {env env' : Env} {i i' : Instr} (hf : f.Zeroed f') (henv : env.Zeroed f env')
    (hi : i.Zeroed f i')
    (hfound : ∀ o, entryFor (incomingOf i) source = some o → o.IsFound env)
    (hfound' : ∀ o, entryFor (incomingOf i') source = some o → o.IsFound env') :
    Paired zeroing () (phiValue rules p f env source i) mem (phiValue rules p' f' env' source i') mem'
      fun _ x y => x.1 = i.id ∧ x.1 = y.1 ∧ x.2.Zeroed y.2 := by
  have hentry := hi.entryFor source
  unfold phiValue
  generalize ho : entryFor (incomingOf i) source = x, ho' : entryFor (incomingOf i') source = y at hentry
  cases hentry with
  | none =>
      obtain ⟨_, rfl⟩ := hf.rest
      rw [hi.id, hf.outline.sourceName]
      exact .throw hm _
  | some h =>
      refine .bind (Interpreted.eval_exchanged hp hm hf henv h (hfound _ ho) (hfound' _ ho'))
        fun _ v w _ _ _ hm₁ hvw => .pure hm₁ ⟨rfl, hi.id.symm, hvw.1⟩

/-- Phis of blocks come to values that are the same, or null and the address zero. -/
theorem phis_zeroed {env env' : Env} {is is' : List Instr} (hf : f.Zeroed f') (henv : env.Zeroed f env')
    (his : List.Forall₂ (Instr.Zeroed f) is is') (hmakes : ∀ i ∈ is, ¬f.MakesZero i.id)
    (hfound : ∀ i ∈ is, ∀ o, entryFor (incomingOf i) source = some o → o.IsFound env)
    (hfound' : ∀ i ∈ is', ∀ o, entryFor (incomingOf i) source = some o → o.IsFound env') :
    Paired zeroing () (is.mapM (phiValue rules p f env source)) mem
      (is'.mapM (phiValue rules p' f' env' source)) mem' fun _ vs ws =>
        List.Forall₂ (fun x y => x.1 = y.1 ∧ x.2.Zeroed y.2 ∧ ¬f.MakesZero x.1) vs ws := by
  induction his generalizing mem mem' with
  | nil => exact .pure hm .nil
  | cons hi _ ih =>
      obtain ⟨hmake, hmakes⟩ := List.forall_mem_cons.mp hmakes
      obtain ⟨hfirst, hrest⟩ := List.forall_mem_cons.mp hfound
      obtain ⟨hfirst', hrest'⟩ := List.forall_mem_cons.mp hfound'
      rw [List.mapM_cons, List.mapM_cons]
      refine .bind (phiValue_zeroed hp hm hf henv hi hfirst hfirst') fun _ x y _ _ _ hm₁ hxy => ?_
      refine .bind (ih hm₁ hmakes hrest hrest') fun _ vs ws _ _ _ hm₂ hvs => ?_
      exact .pure hm₂ (.cons ⟨hxy.2.1, hxy.2.2, hxy.1 ▸ hmake⟩ hvs)

theorem jump_zeroed (hfr : fr.Zeroed fr') {target : Nat}
    (hfound : ∀ i ∈ fr.function.leadingPhis target, ∀ o,
      entryFor (incomingOf i) source = some o → o.IsFound fr.env)
    (hfound' : ∀ i ∈ fr'.function.leadingPhis target, ∀ o,
      entryFor (incomingOf i) source = some o → o.IsFound fr'.env) :
    Paired zeroing () (jump rules p fr source target) mem (jump rules p' fr' source target) mem'
      fun _ => Frame.Zeroed := by
  have hphis := hfr.function.leadingPhis target
  have hmakes : ∀ i ∈ fr.function.leadingPhis target, ¬fr.function.MakesZero i.id := by
    intro i hi hz
    have hphi : i.op.isPhi = true := List.all_eq_true.mp List.all_takeWhile i hi
    rw [(hz.made target i ((List.takeWhile_sublist _).subset hi) rfl).1] at hphi
    cases hphi
  unfold jump
  refine .bind (phis_zeroed hp hm hfr.function hfr.env hphis hmakes hfound hfound')
    fun _ vs ws _ _ _ hm₁ hvs => .pure hm₁ ?_
  exact ⟨hfr.function, hfr.env.bindAll hvs, rfl, hphis.length_eq.symm, hfr.pending, hfr.waits⟩

omit hp hm in
theorem bindParams_zeroed {ts : List Ty} (hargs : List.Forall₂ Value.Zeroed args args')
    (halike : ArgsAlike ts args args') (id : Nat) :
    Agree (fun env env' => ∀ k, Option.Rel Value.Zeroed (env.lookup k) (env'.lookup k))
      (bindParams ts args id) (bindParams ts args' id) := by
  induction hargs generalizing ts id with
  | nil => cases ts <;> exact .ok fun _ => .none
  | @cons v w vs ws hvw _ ih =>
      cases ts with
      | nil => exact .ok fun _ => .none
      | cons t ts =>
          have hfirst : Agree Value.Zeroed (v.normalize t) (w.normalize t) := by
            by_cases ht : (t.isInt || t.isFp) = true
            · cases halike 0 t rfl ht
              exact (Agree.of_eq rfl).mono fun x y h => h ▸ .same x
            · cases t <;> first | exact absurd rfl ht | exact .ok hvw
          refine .bind hfirst fun x y hxy => .bind (ih (fun k => halike (k + 1)) (id + 1))
            fun env env' henv => .ok fun k => ?_
          rw [List.lookup_cons, List.lookup_cons]
          split
          · exact .some hxy
          · exact henv k

theorem enter_zeroed (hf : f.Zeroed f') (hargs : List.Forall₂ Value.Zeroed args args')
    (halike : ArgsAlike f.params args args') :
    Paired zeroing () (enter rules p f args) mem (enter rules p' f' args') mem' fun _ => Frame.Zeroed := by
  have hnone {i : Instr} {o : Operand} (ho : entryFor (incomingOf i) none = some o) : False := by
    obtain ⟨_, _, _, _, hsource⟩ := mem_of_entryFor ho
    cases hsource
  unfold enter
  rw [hf.outline.isDeclaration, hf.outline.name, hf.outline.params]
  split
  · exact .stop (.throw hm _)
  · refine .bind (Interpreted.lift_zeroed hm (bindParams_zeroed hargs halike 0).known)
      fun _ env env' _ _ _ hm₁ ⟨henv, hleft, hright⟩ => ?_
    have hno {args : List Value} {env : Env} {z : Nat} {v : Value} (h : bindParams f.params args 0 = .ok env)
        (hz : f.MakesZero z) (hv : env.lookup z = some v) : v = .int 0 := by
      obtain ⟨j, t, x, hj, ht, -⟩ := lookup_bindParams h hv
      have hlt : j < f.params.length := (List.getElem?_eq_some_iff.mp ht).1
      have := hz.computed
      omega
    have hfr : Frame.Zeroed ⟨f, env, 0, 0, none⟩ ⟨f', env', 0, 0, none⟩ :=
      ⟨hf, ⟨henv, fun z v => hno hleft, fun z v => hno hright⟩, rfl, rfl, rfl, nofun⟩
    exact jump_zeroed hp hm₁ hfr (fun _ _ _ ho => (hnone ho).elim) fun _ _ _ ho => (hnone ho).elim

theorem enterAt_zeroed (callee : Nat) (hargs : List.Forall₂ Value.Zeroed args args')
    (halike : ∀ g, p.module.function? callee = some g → ArgsAlike g.params args args') :
    Paired zeroing () (enterAt rules p callee args) mem (enterAt rules p' callee args') mem' fun _ =>
      Frame.Zeroed := by
  have hcallee := hp.module.function? callee
  unfold enterAt
  generalize hg : p.module.function? callee = x, p'.module.function? callee = y at hcallee
  cases hcallee with
  | none => exact .throw hm _
  | some hf => exact enter_zeroed hp hm hf hargs (halike _ hg)

/-- One step of two frames that do not tell null from the address zero. -/
theorem step_zeroed (hfr : fr.Zeroed fr') (hwaiting : List.Forall₂ Frame.Zeroed waiting waiting')
    (h : Indifferent p p' fr fr' mem mem') :
    Paired zeroing () (step rules p fr waiting) mem (step rules p' fr' waiting') mem' fun _ =>
      State.Zeroed := by
  have hcurrent := hfr.current?
  unfold step
  generalize hi : fr.current? = x, hi' : fr'.current? = y at hcurrent
  cases hcurrent with
  | none =>
      dsimp only
      rw [hfr.block, hfr.function.outline.blockName, hfr.function.outline.name]
      exact .throw hm _
  | @some i i' hii =>
      dsimp only
      have hmem : i ∈ fr.function.instrs fr.block := List.mem_of_getElem? hi
      have hperform := Interpreted.perform_zeroed hp hm hfr.function hfr.env hii (h.left.operands i hi)
        (h.right.operands i' hi') (h.reads i i' hi hi')
      refine .bindOn hperform fun _ s s' m₁ m₁' hs hs' _ hm₁ hsignal => ?_
      -- what is made from the integer zero is bound to that, and is neither a call nor a phi
      have hmade (hz : fr.function.MakesZero i.id) : s = .value (.int 0) ∧ s' = .value (.int 0) := by
        obtain ⟨hop, ht⟩ := hz.made fr.block i hmem rfl
        have hleft := hs.symm.trans (Interpreted.perform_made hop ht)
        have hright := hs'.symm.trans (Interpreted.perform_made ((hii.made hop).trans hop) (hii.type ▸ ht))
        cases hleft
        cases hright
        exact ⟨rfl, rfl⟩
      cases hsignal with
      | value hvw =>
          refine .pure hm₁ (.running ?_ hwaiting)
          rw [hii.id]
          exact hfr.advance hvw fun hz => by simpa using hmade hz
      | goto ht =>
          rw [hfr.block]
          refine .bind (jump_zeroed hp hm₁ hfr (h.left.entries i hi _ ht) ?_) fun _ _ _ _ _ _ hm₂ hnext =>
            .pure hm₂ (.running hnext hwaiting)
          exact hfr.block ▸ h.right.entries i' hi' _ (hii.op.targets ▸ ht)
      | @call callee vs ws hargs =>
          have hinner := enterAt_zeroed hp hm₁ callee hargs fun g hg =>
            h.arguments i i' callee g vs ws m₁ m₁' hi hi' hs hs' hg
          refine .bind hinner fun _ _ _ _ _ _ hm₂ hinner => .pure hm₂ (.running hinner ?_)
          rw [hii.id]
          exact .cons (hfr.await fun hz => nomatch (hmade hz).1) hwaiting
      | ret hvw => exact .pure hm₁ (leave_zeroed hvw hwaiting)

end

/-- The states that two calls lead to at one time, each with the memory then. -/
inductive Together (p p' : Program) (f f' : Function) (args args' : List Value) (mem mem' : Memory) :
    State → Memory → State → Memory → Prop
  | entered {fr fr' : Frame} {m m' : Memory} :
      (enter rules p f args).on mem = (.ok fr, m) →
      (enter rules p' f' args').on mem' = (.ok fr', m') →
      Together p p' f f' args args' mem mem' (.running fr []) m (.running fr' []) m'
  | stepped {fr fr' : Frame} {waiting waiting' : List Frame} {st st' : State} {m m₁ m' m₁' : Memory} :
      Together p p' f f' args args' mem mem' (.running fr waiting) m (.running fr' waiting') m' →
      (step rules p fr waiting).on m = (.ok st, m₁) →
      (step rules p' fr' waiting').on m' = (.ok st', m₁') →
      Together p p' f f' args args' mem mem' st m₁ st' m₁'

/-- Two calls never tell null from the address zero. -/
def NeverTell (p p' : Program) (f f' : Function) (args args' : List Value) (mem mem' : Memory) : Prop :=
  ∀ fr waiting m fr' waiting' m',
    Together p p' f f' args args' mem mem' (.running fr waiting) m (.running fr' waiting') m' →
    Indifferent p p' fr fr' m m'

variable (hp : p.Zeroed p') (hm : mem.Zeroed mem') (hf : f.Zeroed f')
  (hargs : List.Forall₂ Value.Zeroed args args') (halike : ArgsAlike f.params args args')
  (h : NeverTell p p' f f' args args' mem mem')
include hp hm hf hargs halike h

/-- At any time two calls that never tell are at the same place, with the same, or null and the address
zero. -/
theorem together_zeroed {st st' : State} {m m' : Memory}
    (ht : Together p p' f f' args args' mem mem' st m st' m') : m.Zeroed m' ∧ st.Zeroed st' := by
  induction ht with
  | entered he he' =>
      obtain ⟨_, _, hm₁, hfr⟩ := (enter_zeroed hp hm hf hargs halike).of_ok he he'
      exact ⟨hm₁, .running hfr .nil⟩
  | stepped ht hs hs' ih =>
      obtain ⟨hm₁, hfr, hwaiting⟩ := ih
      obtain ⟨_, _, hm₂, hst⟩ := (step_zeroed hp hm₁ hfr hwaiting (h _ _ _ _ _ _ ht)).of_ok hs hs'
      exact ⟨hm₂, hst⟩

/-- Two runs do the same to the end, or until the steps are used up. -/
theorem run_zeroed {st st' : State} {m m' : Memory} (n : Nat)
    (ht : Together p p' f f' args args' mem mem' st m st' m') :
    Paired zeroing () (run rules p n st) m (run rules p' n st') m' fun _ => Value.Zeroed := by
  obtain ⟨hm₁, hst⟩ := together_zeroed hp hm hf hargs halike h ht
  induction n generalizing st st' m m' with
  | zero =>
      cases hst with
      | running => exact .throw hm₁ _
      | done hvw => exact .pure hm₁ hvw
  | succ n ih =>
      cases hst with
      | running hfr hwaiting =>
          exact .bindOn (step_zeroed hp hm₁ hfr hwaiting (h _ _ _ _ _ _ ht))
            fun _ _ _ _ _ hs hs' _ hm₂ hst => ih (.stepped ht hs hs') hm₂ hst
      | done hvw => exact .pure hm₁ hvw

theorem call_zeroed (n : Nat) :
    Paired zeroing () (call rules p n f args) mem (call rules p' n f' args') mem' fun _ =>
      Value.Zeroed :=
  .bindOn (enter_zeroed hp hm hf hargs halike) fun _ _ _ _ _ he he' _ _ _ =>
    run_zeroed hp hm hf hargs halike h n (.entered he he')

end Machine

/-! ## By the address -/

/-- **Null as address zero.**  Null, an address that is made from an integer, and a pointer that is given
as an argument are compared for equality by their addresses, null being zero, but for null and the address
zero themselves, which are not equal; an address is made into the integer it is, and null into none.  With
the address zero in place of null in any operands, or the other way round, a call that never tells the two
apart goes the same way, and comes to the same, or to null and the address zero. -/
theorem Pointer.by_address (p : Program) :
    -- as what null is held, an address that is made from an integer, and a pointer that is given
    (∀ (f : Function) (env : Env) (mem : Memory) (t : Ty) (space : Nat),
      (eval p f env (.const (.null (.pointer t space)))).on mem = (.ok null.value, mem)) ∧
    (∀ (fr : Frame) (i : Instr) (o : Operand) (t : Ty) (space : Nat) (a : BitVec 64)
        (waiting : List Frame) (mem mem₁ : Memory),
      fr.current? = some i → i.op = .cast .inttoptr o → i.type = .pointer t space →
      (eval p fr.function fr.env o).on mem = (.ok (.int a.toNat), mem₁) →
      (Machine.step rules p fr waiting).on mem =
        (.ok (.running (fr.advance i.id (address a).value) waiting), mem₁)) ∧
    (∀ (ts : List Ty) (args : List Value) (env : Env) (k : Nat) (t : Ty) (space : Nat) (x : Pointer)
        (u : Option Ty),
      Machine.bindParams ts args 0 = .ok env → ts[k]? = some (.pointer t space) →
      args[k]? = some (GenericValue.ofPointer x.value u).payload → env.lookup k = some x.value) ∧
    -- equalities, and what is made into an integer again
    (∀ (fr : Frame) (i : Instr) (pred : IntPred) (a b : Operand) (x y : Pointer) (waiting : List Frame)
        (mem mem₁ mem₂ : Memory),
      pred.isEquality = true → fr.current? = some i → i.op = .icmp pred a b →
      (eval p fr.function fr.env a).on mem = (.ok x.value, mem₁) →
      (eval p fr.function fr.env b).on mem₁ = (.ok y.value, mem₂) →
      (Machine.step rules p fr waiting).on mem = (.ok (.running (fr.advance i.id (.ofBool
        (pred.answer (decide (x.number = y.number) && !x.value.areNoughts y.value)))) waiting), mem₂)) ∧
    (∀ (fr : Frame) (i : Instr) (o : Operand) (a : BitVec 64) (waiting : List Frame)
        (mem mem₁ : Memory),
      fr.current? = some i → i.op = .cast .ptrtoint o → i.type = .int 64 →
      (eval p fr.function fr.env o).on mem = (.ok (address a).value, mem₁) →
      (Machine.step rules p fr waiting).on mem =
        (.ok (.running (fr.advance i.id (.int (address a).number)) waiting), mem₁)) ∧
    (∀ (fr : Frame) (i : Instr) (o : Operand) (waiting : List Frame) (mem mem₁ : Memory),
      fr.current? = some i → i.op = .cast .ptrtoint o →
      (eval p fr.function fr.env o).on mem = (.ok null.value, mem₁) →
      (Machine.step rules p fr waiting).on mem =
        (.error (.unsupported (.instruction "ptrtoint") fr.function.name), mem₁)) ∧
    -- the address zero in place of null, or the other way round
    ∀ (p' : Program) (f f' : Function) (args : List Value) (mem mem' : Memory) (n : Nat),
      p.Zeroed p' → f.Zeroed f' → mem.Zeroed mem' → Machine.NeverTell p p' f f' args args mem mem' →
      (∀ st m st' m', Machine.Together p p' f f' args args mem mem' st m st' m' →
        m.Zeroed m' ∧ st.Zeroed st') ∧
      Paired zeroing () (Machine.call rules p n f args) mem (Machine.call rules p' n f' args) mem'
        fun _ => Value.Zeroed := by
  refine ⟨fun _ _ _ _ _ => rfl, ?_, ?_, ?_, ?_, ?_, ?_⟩
  · exact fun _ _ _ _ _ _ waiting _ _ hi hop ht ho => Interpreted.step_inttoptr hi hop ht ho waiting
  · exact fun _ _ _ _ _ _ _ _ h ht hv => Interpreted.lookup_argument h ht hv
  · exact fun _ _ _ _ _ _ _ waiting _ _ _ hpred hi hop ha hb =>
      Interpreted.step_equality hpred hi hop ha hb waiting
  · exact fun _ _ _ _ waiting _ _ hi hop ht ho => Interpreted.step_ptrtoint hi hop ht ho waiting
  · exact fun _ _ _ waiting _ _ hi hop ho => Interpreted.step_ptrtoint_null hi hop ho waiting
  · intro p' f f' args mem mem' n hp hf hm htell
    have hargs : List.Forall₂ Value.Zeroed args args := List.forall₂_same.mpr fun v _ => .same v
    have halike : ArgsAlike f.params args args := fun _ _ _ _ => rfl
    exact ⟨fun _ _ _ _ => Machine.together_zeroed hp hm hf hargs halike htell,
      Machine.call_zeroed hp hm hf hargs halike htell n⟩

/-! ## A comparison with null -/

/-- A pointer to octets. -/
abbrev octets : Ty := .pointer (.int 8) 0

/-- A frame at a single instruction. -/
def posed (env : Env) (t : Ty) (op : Op) : Frame where
  function := ⟨"f", t, [], false, .fresh, #[], #[⟨"e", [⟨1, t, op⟩]⟩]⟩
  env := env
  block := 0
  pc := 0
  pending := none

/-- A function that makes the address zero, and compares two operands. -/
def comparing (a b : Operand) : Function :=
  ⟨"f", .int 1, [], false, .fresh, #[], #[⟨"e", [
    ⟨0, octets, .cast .inttoptr (.const (.int (.int 64) 0))⟩,
    ⟨1, .int 1, .icmp .eq a b⟩,
    ⟨2, .void, .ret (some (.local 1 (.int 1)))⟩]⟩]⟩

/-- A program of such a function. -/
def comparison (a b : Operand) : Program := ⟨0, [], ⟨"m", #[.function (comparing a b)]⟩⟩

/-- The frames of such a function, if what is compared is not equal. -/
def comparingAt (a b : Operand) (pc : Nat) : Frame where
  function := comparing a b
  env := [(1, .int 0), (0, .int 0)].drop (2 - pc)
  block := 0
  pc := pc
  pending := none

/-- Null, the address zero, and the address of the function itself, in such a function. -/
abbrev nullOctets : Operand := .const (.null octets)
abbrev zeroOctets : Operand := .local 0 octets
abbrev ownOctets : Operand := .global 0 octets

theorem comparing_zeroed : (comparing nullOctets ownOctets).Zeroed (comparing zeroOctets ownOctets) := by
  have hz : (comparing nullOctets ownOctets).MakesZero 0 := by
    refine ⟨Nat.le_refl 0, fun block i hi hid => ?_⟩
    match block with
    | 0 =>
        rcases List.mem_cons.mp hi with rfl | hi
        · exact ⟨rfl, rfl⟩
        · rcases List.mem_cons.mp hi with rfl | hi
          · cases hid
          · cases List.mem_singleton.mp hi
            cases hid
    | _ + 1 => cases hi
  refine ⟨⟨_, rfl⟩, fun block => ?_⟩
  match block with
  | 0 =>
      exact .some ⟨rfl, .cons ⟨rfl, rfl, .cast _ (.same _)⟩
        (.cons ⟨rfl, rfl, .icmp _ (.zero hz) (.same _)⟩ (.cons ⟨rfl, rfl, .ret (.same _)⟩ .nil))⟩
  | _ + 1 => exact .none

theorem comparison_zeroed : (comparison nullOctets ownOctets).Zeroed (comparison zeroOctets ownOctets) := by
  refine ⟨rfl, ⟨fun k => ?_⟩⟩
  match k with
  | 0 => exact .some comparing_zeroed
  | _ + 1 => exact .none

/-- As long as two such functions run they are at the same instruction. -/
theorem together_comparing {st st' : Machine.State} {m m' : Memory}
    (h : Machine.Together (comparison nullOctets ownOctets) (comparison zeroOctets ownOctets)
      (comparing nullOctets ownOctets) (comparing zeroOctets ownOctets) [] [] .empty .empty st m st' m') :
    (∃ v, st = .done v) ∨ m = .empty ∧ m' = .empty ∧ ∃ pc < 3,
      st = .running (comparingAt nullOctets ownOctets pc) [] ∧
        st' = .running (comparingAt zeroOctets ownOctets pc) [] := by
  induction h with
  | entered he he' =>
      cases he
      cases he'
      exact .inr ⟨rfl, rfl, 0, by decide, rfl, rfl⟩
  | stepped _ hs hs' ih =>
      rcases ih with ⟨v, hv⟩ | ⟨rfl, rfl, pc, hpc, hst, hst'⟩
      · cases hv
      · cases hst
        cases hst'
        match pc with
        | 0 =>
            cases hs
            cases hs'
            exact .inr ⟨rfl, rfl, 1, by decide, rfl, rfl⟩
        | 1 =>
            cases hs
            cases hs'
            exact .inr ⟨rfl, rfl, 2, by decide, rfl, rfl⟩
        | 2 =>
            cases hs
            exact .inl ⟨_, rfl⟩

theorem finds_comparingAt {a : Operand} (ha : a = nullOctets ∨ a = zeroOctets) {pc : Nat} (hpc : pc < 3) :
    (comparingAt a ownOctets pc).Finds := by
  constructor
  · intro i hi o ho
    match pc with
    | 0 =>
        cases hi
        cases List.mem_singleton.mp ho
        trivial
    | 1 =>
        cases hi
        rcases List.mem_cons.mp ho with rfl | ho
        · rcases ha with rfl | rfl
          · trivial
          · rfl
        · cases List.mem_singleton.mp ho
          trivial
    | 2 =>
        cases hi
        cases List.mem_singleton.mp ho
        rfl
  · intro i hi t ht
    match pc with
    | 0 | 1 | 2 =>
        cases hi
        cases ht

theorem neverTell_comparing :
    Machine.NeverTell (comparison nullOctets ownOctets) (comparison zeroOctets ownOctets)
      (comparing nullOctets ownOctets) (comparing zeroOctets ownOctets) [] [] .empty .empty := by
  intro fr waiting m fr' waiting' m' h
  rcases together_comparing h with ⟨v, hv⟩ | ⟨rfl, rfl, pc, hpc, hst, hst'⟩
  · cases hv
  · cases hst
    cases hst'
    refine ⟨finds_comparingAt (.inl rfl) hpc, finds_comparingAt (.inr rfl) hpc, ?_, ?_⟩
    · intro i i' hi hi' vs vs' m m' hvs hvs'
      match pc with
      | 0 | 2 =>
          cases hi
          cases hi'
          cases hvs
          cases hvs'
          exact .inl rfl
      | 1 =>
          -- neither null nor the address zero is taken for the other here
          cases hi
          cases hi'
          cases hvs
          cases hvs'
          exact .inr rfl
    · intro i i' c g vs ws m m' hi hi' hc
      match pc with
      | 0 | 1 | 2 =>
          cases hi
          cases hc

/-- Beside five null is the address zero; and whether null is compared with a function, or the address
zero, the answer is the same. -/
theorem Pointer.by_address_five :
    (eval (comparison nullOctets ownOctets) (comparing nullOctets ownOctets) [] nullOctets).on .empty =
      (.ok null.value, .empty) ∧
    (Machine.step rules (comparison nullOctets ownOctets)
        (posed [] octets (.cast .inttoptr (.const (.int (.int 64) 5)))) []).on .empty =
      (.ok (.running ((posed [] octets (.cast .inttoptr (.const (.int (.int 64) 5)))).advance 1
        (address 5).value) []), .empty) ∧
    List.lookup 0 [(0, (address 5).value)] = some (address 5).value ∧
    (Machine.step rules (comparison nullOctets ownOctets)
        (posed [(0, (address 5).value)] (.int 1) (.icmp .ne zeroOctets nullOctets)) []).on .empty =
      (.ok (.running ((posed [(0, (address 5).value)] (.int 1) (.icmp .ne zeroOctets nullOctets)).advance 1
        (.ofBool true)) []), .empty) ∧
    (Machine.step rules (comparison nullOctets ownOctets)
        (posed [(0, (address 5).value)] (.int 64) (.cast .ptrtoint zeroOctets)) []).on .empty =
      (.ok (.running ((posed [(0, (address 5).value)] (.int 64) (.cast .ptrtoint zeroOctets)).advance 1
        (.int (address 5).number)) []), .empty) ∧
    (Machine.step rules (comparison nullOctets ownOctets)
        (posed [] (.int 64) (.cast .ptrtoint nullOctets)) []).on .empty =
      (.error (.unsupported (.instruction "ptrtoint") "f"), .empty) ∧
    Paired zeroing ()
      (Machine.call rules (comparison nullOctets ownOctets) 3 (comparing nullOctets ownOctets) []) .empty
      (Machine.call rules (comparison zeroOctets ownOctets) 3 (comparing zeroOctets ownOctets) []) .empty
      fun _ => Value.Zeroed := by
  obtain ⟨hnull, hmade, hgiven, hequal, hinteger, hnone, hexchanged⟩ :=
    Pointer.by_address (comparison nullOctets ownOctets)
  have hempty : Memory.Zeroed .empty .empty := ⟨rfl, rfl, fun _ => .none⟩
  refine ⟨hnull _ _ _ _ _, ?_, ?_, ?_, ?_, ?_, ?_⟩
  · exact hmade _ ⟨1, octets, .cast .inttoptr _⟩ _ _ _ 5 _ _ _ rfl rfl rfl rfl
  · exact hgiven [octets] [(address 5).value] _ 0 _ _ (address 5) none rfl rfl rfl
  · exact hequal _ ⟨1, .int 1, .icmp .ne zeroOctets nullOctets⟩ .ne _ _ (address 5) null _ _ _ _
      rfl rfl rfl rfl rfl
  · exact hinteger _ ⟨1, .int 64, .cast .ptrtoint zeroOctets⟩ _ 5 _ _ _ rfl rfl rfl rfl
  · exact hnone _ ⟨1, .int 64, .cast .ptrtoint nullOctets⟩ _ _ _ _ rfl rfl rfl
  · exact (hexchanged _ _ _ _ _ _ 3 comparison_zeroed comparing_zeroed hempty neverTell_comparing).2

/-- Null is not equal to the address zero, and is not made into an integer: with the address zero in
place of null the answer is another. -/
theorem Pointer.not_by_address :
    null.number = (address 0).number ∧
    ((Machine.call rules (comparison nullOctets nullOctets) 3
      (comparing nullOctets nullOctets) []).on .empty).1 = .ok (.ofBool true) ∧
    ((Machine.call rules (comparison nullOctets zeroOctets) 3
      (comparing nullOctets zeroOctets) []).on .empty).1 = .ok (.ofBool false) ∧
    ((Machine.step rules (comparison nullOctets nullOctets)
        (posed [] (.int 64) (.cast .ptrtoint nullOctets)) []).on .empty).1 =
      .error (.unsupported (.instruction "ptrtoint") "f") :=
  ⟨rfl, rfl, rfl, rfl⟩

end Ssa

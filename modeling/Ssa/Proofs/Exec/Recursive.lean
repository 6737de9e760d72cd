/-
# `Ssa.Proofs.Exec.Recursive` — the machine against the recursive evaluator

The recursive evaluator runs a function block by block.  At a call it evaluates the callee on the
values of the arguments and binds what comes of it to the call.  It knows no stack, no position in
a block and no call that waits: what is left of a block is a list of instructions, and what a
function has computed is an argument of the evaluation, so two activations cannot share it.

**Proved here.**  For any rules, a run of the machine decomposes along the evaluation of its
innermost frame, in both directions:

    Eval of the frame to `v`  ⟹  n + k steps of the machine are k steps after the frame has left
    a run that stops          ⟹  Eval of the frame, and a shorter run after it has left

For the interpreter, whose rules never speak of the number of steps, it follows that a call comes
to a value or a failure with a memory exactly when the evaluator does, and goes on for ever exactly
when the evaluator has no derivation (`call_comes_to_iff_eval`).
-/
import Ssa.Proofs.Exec.Endings

namespace Ssa

/-- What the recursive evaluator is asked for. -/
inductive Task where
  /-- A function on arguments. -/
  | call (f : Function) (args : List Value)
  /-- A block of a function, entered from another one or from outside. -/
  | block (f : Function) (env : Env) (source : Option Nat) (target : Nat)
  /-- What is left of a block. -/
  | instrs (f : Function) (env : Env) (block : Nat) (rest : List Instr)

/-- The instructions of a block after its leading phis. -/
def Function.afterPhis (f : Function) (b : Nat) : List Instr :=
  (f.instrs b).dropWhile (·.op.isPhi)

/-- `Eval rules p task mem r mem'`: on the memory `mem` the task comes to `r` and leaves `mem'`. -/
inductive Eval (rules : Rules) (p : Program) :
    Task → Memory → Except Failure Value → Memory → Prop
  | declared {f : Function} {args : List Value} {mem : Memory} :
      f.isDeclaration = true → Eval rules p (.call f args) mem (.error (.noBody f.name)) mem
  | refused {f : Function} {args : List Value} {mem : Memory} {e : Failure} :
      f.isDeclaration = false → Machine.bindParams f.params args 0 = .error e →
      Eval rules p (.call f args) mem (.error e) mem
  | body {f : Function} {args : List Value} {env : Env} {mem mem' : Memory}
      {r : Except Failure Value} :
      f.isDeclaration = false → Machine.bindParams f.params args 0 = .ok env →
      Eval rules p (.block f env none 0) mem r mem' → Eval rules p (.call f args) mem r mem'
  | phisFail {f : Function} {env : Env} {source : Option Nat} {b : Nat} {mem mem' : Memory}
      {e : Failure} :
      ((f.leadingPhis b).mapM (Machine.phiValue rules p f env source)).on mem = (.error e, mem') →
      Eval rules p (.block f env source b) mem (.error e) mem'
  | phis {f : Function} {env : Env} {source : Option Nat} {b : Nat} {mem mem₁ mem' : Memory}
      {vs : List (Nat × Value)} {r : Except Failure Value} :
      ((f.leadingPhis b).mapM (Machine.phiValue rules p f env source)).on mem = (.ok vs, mem₁) →
      Eval rules p (.instrs f (env.bindAll vs) b (f.afterPhis b)) mem₁ r mem' →
      Eval rules p (.block f env source b) mem r mem'
  | fallsOff {f : Function} {env : Env} {b : Nat} {mem : Memory} :
      Eval rules p (.instrs f env b []) mem (.error (.noTerminator (f.blockName b) f.name)) mem
  | fails {f : Function} {env : Env} {b : Nat} {i : Instr} {rest : List Instr}
      {mem mem' : Memory} {e : Failure} :
      (rules.perform p f env i).on mem = (.error e, mem') →
      Eval rules p (.instrs f env b (i :: rest)) mem (.error e) mem'
  | value {f : Function} {env : Env} {b : Nat} {i : Instr} {rest : List Instr}
      {mem mem₁ mem' : Memory} {v : Value} {r : Except Failure Value} :
      (rules.perform p f env i).on mem = (.ok (.value v), mem₁) →
      Eval rules p (.instrs f (env.bind i.id v) b rest) mem₁ r mem' →
      Eval rules p (.instrs f env b (i :: rest)) mem r mem'
  | goto {f : Function} {env : Env} {b t : Nat} {i : Instr} {rest : List Instr}
      {mem mem₁ mem' : Memory} {r : Except Failure Value} :
      (rules.perform p f env i).on mem = (.ok (.goto t), mem₁) →
      Eval rules p (.block f env (some b) t) mem₁ r mem' →
      Eval rules p (.instrs f env b (i :: rest)) mem r mem'
  | ret {f : Function} {env : Env} {b : Nat} {i : Instr} {rest : List Instr}
      {mem mem' : Memory} {v : Value} :
      (rules.perform p f env i).on mem = (.ok (.ret v), mem') →
      Eval rules p (.instrs f env b (i :: rest)) mem (.ok v) mem'
  | noCallee {f : Function} {env : Env} {b c : Nat} {i : Instr} {rest : List Instr}
      {args : List Value} {mem mem' : Memory} :
      (rules.perform p f env i).on mem = (.ok (.call c args), mem') →
      p.module.function? c = none →
      Eval rules p (.instrs f env b (i :: rest)) mem (.error (.unsupported .indirectCall "")) mem'
  | callFails {f g : Function} {env : Env} {b c : Nat} {i : Instr} {rest : List Instr}
      {args : List Value} {mem mem₁ mem' : Memory} {e : Failure} :
      (rules.perform p f env i).on mem = (.ok (.call c args), mem₁) →
      p.module.function? c = some g → Eval rules p (.call g args) mem₁ (.error e) mem' →
      Eval rules p (.instrs f env b (i :: rest)) mem (.error e) mem'
  | call {f g : Function} {env : Env} {b c : Nat} {i : Instr} {rest : List Instr}
      {args : List Value} {mem mem₁ mem₂ mem' : Memory} {v : Value} {r : Except Failure Value} :
      (rules.perform p f env i).on mem = (.ok (.call c args), mem₁) →
      p.module.function? c = some g → Eval rules p (.call g args) mem₁ (.ok v) mem₂ →
      Eval rules p (.instrs f (env.bind i.id v) b rest) mem₂ r mem' →
      Eval rules p (.instrs f env b (i :: rest)) mem r mem'

/-! ## A frame as a task -/

namespace Frame

/-- The instructions that a frame has yet to come to. -/
def rest (fr : Frame) : List Instr := (fr.function.instrs fr.block).drop fr.pc

/-- What is left to do in a frame. -/
def task (fr : Frame) : Task := .instrs fr.function fr.env fr.block fr.rest

theorem rest_of_current {fr : Frame} {i : Instr} (h : fr.current? = some i) :
    fr.rest = i :: (fr.function.instrs fr.block).drop (fr.pc + 1) := by
  obtain ⟨hpc, hi⟩ := List.getElem?_eq_some_iff.mp h
  rw [rest, List.drop_eq_getElem_cons hpc, hi]

theorem rest_of_ended {fr : Frame} (h : fr.current? = none) : fr.rest = [] :=
  List.drop_eq_nil_of_le (List.getElem?_eq_none_iff.mp h)

theorem current_of_rest {fr : Frame} {i : Instr} {is : List Instr} (h : fr.rest = i :: is) :
    fr.current? = some i ∧ (fr.function.instrs fr.block).drop (fr.pc + 1) = is := by
  cases hi : fr.current? with
  | none => rw [rest_of_ended hi] at h; cases h
  | some j =>
      rw [rest_of_current hi] at h
      cases h
      exact ⟨rfl, rfl⟩

theorem ended_of_rest {fr : Frame} (h : fr.rest = []) : fr.current? = none :=
  List.getElem?_eq_none_iff.mpr (List.drop_eq_nil_iff.mp h)

end Frame

theorem Function.drop_leadingPhis (f : Function) (b : Nat) :
    (f.instrs b).drop (f.leadingPhis b).length = f.afterPhis b := by
  rw [leadingPhis, afterPhis]
  induction f.instrs b with
  | nil => rfl
  | cons i is ih =>
      by_cases h : i.op.isPhi
      · simpa [h] using ih
      · simp [h]

namespace Machine

variable {rules : Rules} {p : Program}

/-- A jump that succeeds leads to the instructions after the phis, with the phis bound. -/
theorem on_jump_ok {fr next : Frame} {source : Option Nat} {b : Nat} {mem mem' : Memory}
    (h : (jump rules p fr source b).on mem = (.ok next, mem')) :
    ∃ vs, ((fr.function.leadingPhis b).mapM
        (phiValue rules p fr.function fr.env source)).on mem = (.ok vs, mem') ∧
      next.task = .instrs fr.function (fr.env.bindAll vs) b (fr.function.afterPhis b) := by
  rw [on_jump] at h
  rcases hvs : ((fr.function.leadingPhis b).mapM
    (phiValue rules p fr.function fr.env source)).on mem with ⟨e | vs, mem₁⟩
  · rw [hvs] at h; cases h
  · rw [hvs] at h
    cases h
    exact ⟨vs, rfl, congrArg (Task.instrs _ _ _) (Function.drop_leadingPhis _ _)⟩

theorem on_jump_error {fr : Frame} {source : Option Nat} {b : Nat} {mem mem' : Memory}
    {e : Failure} (h : (jump rules p fr source b).on mem = (.error e, mem')) :
    ((fr.function.leadingPhis b).mapM
      (phiValue rules p fr.function fr.env source)).on mem = (.error e, mem') := by
  rw [on_jump] at h
  rcases hvs : ((fr.function.leadingPhis b).mapM
    (phiValue rules p fr.function fr.env source)).on mem with ⟨e | vs, mem₁⟩
  · rw [hvs] at h; cases h; rfl
  · rw [hvs] at h; cases h

/-! ## From the evaluator to the machine -/

/-- A frame comes to an outcome: after some number of steps the machine is where the frame's
function has left with the value, or has failed. -/
def Comes (rules : Rules) (p : Program) (fr : Frame) (waiting : List Frame) (mem : Memory)
    (r : Except Failure Value) (mem' : Memory) : Prop :=
  ∃ n, ∀ k, (run rules p (n + k) (.running fr waiting)).on mem =
    match r with
    | .ok v => (run rules p k (leave v waiting)).on mem'
    | .error e => (.error e, mem')

/-- What is to become a frame comes to an outcome, whichever frames wait. -/
def Starts (rules : Rules) (p : Program) (x : Exec Frame) (mem : Memory)
    (r : Except Failure Value) (mem' : Memory) : Prop :=
  (∃ e, x.on mem = (.error e, mem') ∧ r = .error e) ∨
    ∃ fr mem₁, x.on mem = (.ok fr, mem₁) ∧ ∀ waiting, Comes rules p fr waiting mem₁ r mem'

/-- What the machine does about a task. -/
def Does (rules : Rules) (p : Program) : Task → Memory → Except Failure Value → Memory → Prop
  | .call f args, mem, r, mem' => Starts rules p (enter rules p f args) mem r mem'
  | .block f env source target, mem, r, mem' => ∀ fr, fr.function = f → fr.env = env →
      Starts rules p (jump rules p fr source target) mem r mem'
  | .instrs f env b is, mem, r, mem' => ∀ fr, fr.task = .instrs f env b is →
      ∀ waiting, Comes rules p fr waiting mem r mem'

variable {fr : Frame} {waiting : List Frame} {mem mem' mem₁ : Memory} {r : Except Failure Value}

/-- A step that fails is all that the frame comes to. -/
theorem Comes.failed {e : Failure} (h : Stepped rules p fr waiting mem (.error e) mem') :
    Comes rules p fr waiting mem (.error e) mem' :=
  ⟨1, fun k => by rw [Nat.add_comm, on_run_succ, on_of_stepped h]⟩

/-- A step that leaves the function is all that the frame comes to. -/
theorem Comes.left {v : Value} (h : Stepped rules p fr waiting mem (.ok (leave v waiting)) mem') :
    Comes rules p fr waiting mem (.ok v) mem' :=
  ⟨1, fun k => by rw [Nat.add_comm, on_run_succ, on_of_stepped h]⟩

/-- A frame comes to what the frame after it comes to. -/
theorem Comes.step {next : Frame}
    (h : Stepped rules p fr waiting mem (.ok (.running next waiting)) mem₁)
    (hn : Comes rules p next waiting mem₁ r mem') : Comes rules p fr waiting mem r mem' := by
  obtain ⟨n, hn⟩ := hn
  refine ⟨n + 1, fun k => ?_⟩
  rw [Nat.add_right_comm, on_run_succ, on_of_stepped h]
  exact hn k

/-- A call comes to the failure of the callee. -/
theorem Comes.callFails {inner : Frame} {id : Nat} {e : Failure}
    (h : Stepped rules p fr waiting mem (.ok (.running inner (fr.await id :: waiting))) mem₁)
    (hi : Comes rules p inner (fr.await id :: waiting) mem₁ (.error e) mem') :
    Comes rules p fr waiting mem (.error e) mem' := by
  obtain ⟨n, hn⟩ := hi
  refine ⟨n + 1, fun k => ?_⟩
  rw [Nat.add_right_comm, on_run_succ, on_of_stepped h]
  exact hn k

/-- After a call that returns, a frame comes to what it comes to with the value bound. -/
theorem Comes.call {inner : Frame} {id : Nat} {v : Value} {mem₂ : Memory}
    (h : Stepped rules p fr waiting mem (.ok (.running inner (fr.await id :: waiting))) mem₁)
    (hi : Comes rules p inner (fr.await id :: waiting) mem₁ (.ok v) mem₂)
    (hn : Comes rules p (fr.advance id v) waiting mem₂ r mem') :
    Comes rules p fr waiting mem r mem' := by
  obtain ⟨n, hn'⟩ := hi
  obtain ⟨m, hm⟩ := hn
  refine ⟨n + m + 1, fun k => ?_⟩
  rw [Nat.add_right_comm, on_run_succ, on_of_stepped h, Nat.add_assoc]
  exact (hn' (m + k)).trans (hm k)

/-- The machine does what the evaluator says. -/
theorem does_of_eval {task : Task} (h : Eval rules p task mem r mem') :
    Does rules p task mem r mem' := by
  induction h with
  | declared hd =>
      refine .inl ⟨_, ?_, rfl⟩
      rw [on_enter, if_pos hd]
  | refused hd hb =>
      refine .inl ⟨_, ?_, rfl⟩
      rw [on_enter, if_neg (by simp [hd]), hb]
  | @body f args env mem mem' r hd hb _ ih =>
      have hj := ih ⟨f, env, 0, 0, none⟩ rfl rfl
      have he : (enter rules p f args).on mem =
          (jump rules p ⟨f, env, 0, 0, none⟩ none 0).on mem := by
        rw [on_enter, if_neg (by simp [hd]), hb]
      show Starts _ _ _ _ _ _
      unfold Starts at hj ⊢
      rwa [he]
  | phisFail hphis =>
      intro fr hf henv
      subst hf henv
      refine .inl ⟨_, ?_, rfl⟩
      rw [on_jump, hphis]
  | phis hphis _ ih =>
      intro fr hf henv
      subst hf henv
      refine .inr ⟨_, _, by rw [on_jump, hphis], fun waiting => ih _ ?_ waiting⟩
      exact congrArg (Task.instrs _ _ _) (Function.drop_leadingPhis _ _)
  | fallsOff =>
      intro fr hfr waiting
      injection hfr with hf henv hb hrest
      subst hf henv hb
      exact .failed (.ended (Frame.ended_of_rest hrest))
  | fails hp =>
      intro fr hfr waiting
      injection hfr with hf henv hb hrest
      subst hf henv hb
      exact .failed (.failed (Frame.current_of_rest hrest).1 hp)
  | value hp _ ih =>
      intro fr hfr waiting
      injection hfr with hf henv hb hrest
      subst hf henv hb
      obtain ⟨hi, rfl⟩ := Frame.current_of_rest hrest
      exact .step (.bound hi hp) (ih (fr.advance _ _) rfl waiting)
  | goto hp _ ih =>
      intro fr hfr waiting
      injection hfr with hf henv hb hrest
      subst hf henv hb
      have hi := (Frame.current_of_rest hrest).1
      rcases ih fr rfl rfl with ⟨e, hj, rfl⟩ | ⟨next, mem₁, hj, hn⟩
      · exact .failed (.strayed hi hp hj)
      · exact .step (.jumped hi hp hj) (hn waiting)
  | ret hp =>
      intro fr hfr waiting
      injection hfr with hf henv hb hrest
      subst hf henv hb
      exact .left (.left (Frame.current_of_rest hrest).1 hp)
  | noCallee hp hg =>
      intro fr hfr waiting
      injection hfr with hf henv hb hrest
      subst hf henv hb
      exact .failed (.missed (Frame.current_of_rest hrest).1 hp hg)
  | callFails hp hg _ ih =>
      intro fr hfr waiting
      injection hfr with hf henv hb hrest
      subst hf henv hb
      have hi := (Frame.current_of_rest hrest).1
      rcases ih with ⟨e, he, hr⟩ | ⟨inner, mem₁, he, hin⟩
      · cases hr
        exact .failed (.barred hi hp hg he)
      · exact .callFails (.called hi hp hg he) (hin _)
  | call hp hg _ _ ihCall ih =>
      intro fr hfr waiting
      injection hfr with hf henv hb hrest
      subst hf henv hb
      obtain ⟨hi, rfl⟩ := Frame.current_of_rest hrest
      rcases ihCall with ⟨e, -, hr⟩ | ⟨inner, mem₁, he, hin⟩
      · cases hr
      · exact .call (.called hi hp hg he) (hin _) (ih (fr.advance _ _) rfl waiting)

/-! ## From the machine to the evaluator -/

/-- A jump and what its frame is evaluated to are the evaluation of the block. -/
theorem eval_block {next : Frame} {source : Option Nat} {b : Nat}
    (hj : (jump rules p fr source b).on mem = (.ok next, mem₁))
    (hn : Eval rules p next.task mem₁ r mem') :
    Eval rules p (.block fr.function fr.env source b) mem r mem' := by
  obtain ⟨vs, hvs, htask⟩ := on_jump_ok hj
  exact .phis hvs (htask ▸ hn)

/-- Entering a function and what its frame is evaluated to are the evaluation of the call. -/
theorem eval_call {f : Function} {args : List Value} {inner : Frame}
    (he : (enter rules p f args).on mem = (.ok inner, mem₁))
    (hi : Eval rules p inner.task mem₁ r mem') : Eval rules p (.call f args) mem r mem' := by
  rw [on_enter] at he
  by_cases hd : f.isDeclaration
  · rw [if_pos hd] at he; cases he
  · rw [if_neg hd] at he
    cases hb : bindParams f.params args 0 with
    | error e => rw [hb] at he; cases he
    | ok env =>
        rw [hb] at he
        exact .body (by simpa using hd) hb (eval_block he hi)

theorem eval_call_of_error {f : Function} {args : List Value} {e : Failure}
    (he : (enter rules p f args).on mem = (.error e, mem')) :
    Eval rules p (.call f args) mem (.error e) mem' := by
  rw [on_enter] at he
  by_cases hd : f.isDeclaration
  · rw [if_pos hd] at he
    cases he
    exact .declared hd
  · rw [if_neg hd] at he
    have hd : f.isDeclaration = false := by simpa using hd
    cases hb : bindParams f.params args 0 with
    | error e => rw [hb] at he; cases he; exact .refused hd hb
    | ok env => rw [hb] at he; exact .body hd hb (.phisFail (on_jump_error he))

/-- What a run that stops has to show of its innermost frame: that it failed, or that it left and
the run went on in fewer steps. -/
def Decomposes (rules : Rules) (p : Program) (n : Nat) (fr : Frame) (waiting : List Frame)
    (mem : Memory) (r : Except Failure Value) (mem' : Memory) : Prop :=
  (∃ e, r = .error e ∧ Eval rules p fr.task mem (.error e) mem') ∨
    ∃ v mem₁ k, k < n ∧ Eval rules p fr.task mem (.ok v) mem₁ ∧
      (run rules p k (leave v waiting)).on mem₁ = (r, mem')

/-- The frame before a step decomposes as the frame after it does. -/
theorem Decomposes.step {n m : Nat} {next : Frame} (hnm : n ≤ m)
    (h : Decomposes rules p n next waiting mem₁ r mem')
    (heval : ∀ r mem', Eval rules p next.task mem₁ r mem' → Eval rules p fr.task mem r mem') :
    Decomposes rules p m fr waiting mem r mem' := by
  rcases h with ⟨e, rfl, hE⟩ | ⟨v, mem₂, k, hk, hE, hr⟩
  · exact .inl ⟨e, rfl, heval _ _ hE⟩
  · exact .inr ⟨v, mem₂, k, by omega, heval _ _ hE, hr⟩

/-- A run that stops decomposes along its innermost frame. -/
theorem decomposes_of_run {n : Nat}
    (h : (run rules p n (.running fr waiting)).on mem = (r, mem')) (hr : r ≠ .error .stepLimit) :
    Decomposes rules p n fr waiting mem r mem' := by
  induction n using Nat.strongRecOn generalizing fr waiting mem with
  | ind n ih =>
    cases n with
    | zero => cases h; exact absurd rfl hr
    | succ n =>
      rw [on_run_succ] at h
      rcases hs : (step rules p fr waiting).on mem with ⟨e | s, mem₁⟩ <;> rw [hs] at h
      · cases h
        refine .inl ⟨e, rfl, ?_⟩
        rw [Frame.task]
        cases stepped_of_on hs with
        | ended hi => rw [Frame.rest_of_ended hi]; exact .fallsOff
        | failed hi hp => rw [Frame.rest_of_current hi]; exact .fails hp
        | strayed hi hp hj =>
            rw [Frame.rest_of_current hi]
            exact .goto hp (.phisFail (on_jump_error hj))
        | missed hi hp hg => rw [Frame.rest_of_current hi]; exact .noCallee hp hg
        | barred hi hp hg he =>
            rw [Frame.rest_of_current hi]
            exact .callFails hp hg (eval_call_of_error he)
      · dsimp only at h
        cases stepped_of_on hs with
        | bound hi hp =>
            refine (ih n (by omega) h).step (by omega) fun r mem' hE => ?_
            rw [Frame.task, Frame.rest_of_current hi]
            exact .value hp hE
        | left hi hp =>
            refine .inr ⟨_, mem₁, n, by omega, ?_, h⟩
            rw [Frame.task, Frame.rest_of_current hi]
            exact .ret hp
        | jumped hi hp hj =>
            refine (ih n (by omega) h).step (by omega) fun r mem' hE => ?_
            rw [Frame.task, Frame.rest_of_current hi]
            exact .goto hp (eval_block hj hE)
        | called hi hp hg he =>
            rcases ih n (by omega) h with ⟨e, rfl, hE⟩ | ⟨v, mem₂, k, hk, hE, hrun⟩
            · refine .inl ⟨e, rfl, ?_⟩
              rw [Frame.task, Frame.rest_of_current hi]
              exact .callFails hp hg (eval_call he hE)
            · -- the callee has left: the caller, resumed, runs on with fewer steps
              refine (ih k (by omega) hrun).step (by omega) fun r mem' hrest => ?_
              rw [Frame.task, Frame.rest_of_current hi]
              exact .call hp hg (eval_call he hE) hrest

/-- What stops with no frame waiting has been evaluated. -/
theorem eval_of_run {n : Nat} (h : (run rules p n (.running fr [])).on mem = (r, mem'))
    (hr : r ≠ .error .stepLimit) : Eval rules p fr.task mem r mem' := by
  rcases decomposes_of_run h hr with ⟨e, rfl, hE⟩ | ⟨v, mem₁, k, -, hE, hrun⟩
  · exact hE
  · rw [leave, run_done, Effect.on_pure] at hrun
    cases hrun
    exact hE

theorem eval_of_call {steps : Nat} {f : Function} {args : List Value}
    (h : (call rules p steps f args).on mem = (r, mem')) (hr : r ≠ .error .stepLimit) :
    Eval rules p (.call f args) mem r mem' := by
  rcases Effect.on_bind_cases h with ⟨e, he, rfl⟩ | ⟨fr, mem₁, he, hrun⟩
  · exact eval_call_of_error he
  · exact eval_call he (eval_of_run hrun hr)

theorem call_of_eval {f : Function} {args : List Value}
    (h : Eval rules p (.call f args) mem r mem') :
    ∃ n, ∀ k, (call rules p (n + k) f args).on mem = (r, mem') := by
  rcases does_of_eval h with ⟨e, he, rfl⟩ | ⟨fr, mem₁, he, hc⟩
  · exact ⟨0, fun k => Effect.on_bind_of_error he⟩
  · obtain ⟨n, hn⟩ := hc []
    refine ⟨n, fun k => (Effect.on_bind_of_ok he).trans ((hn k).trans ?_)⟩
    cases r with
    | error e => rfl
    | ok v => exact congrArg (ExceptT.on · mem') (run_done k v)

end Machine

/-! ## The interpreter -/

namespace Interpreted

/-- The evaluator fails only in ways that end a run. -/
theorem eval_endsRun {p : Program} {task : Task} {mem mem' : Memory} {r : Except Failure Value}
    (h : Eval rules p task mem r mem') : Endings r := by
  induction h with
  | declared | fallsOff | noCallee => simp
  | refused _ hb =>
      have hends := Failure.endsRun_of_endsInstr (Machine.bindParams_faults _ _ _ _ hb)
      simpa using hends
  | phisFail hphis =>
      have hends := Exec.FailsBy.mapM (phiValue_endings p _ _ _) _ _ _ (congrArg Prod.fst hphis)
      simpa using hends
  | fails hp =>
      have hends := Failure.endsRun_of_endsInstr (perform_faults p _ _ _ _ _ (congrArg Prod.fst hp))
      simpa using hends
  | ret => exact .ok _
  | body _ _ _ ih | phis _ _ ih | value _ _ ih | goto _ _ ih | callFails _ _ _ ih
  | call _ _ _ _ _ ih => exact ih

/-- A step fails only in ways that end a run. -/
theorem step_endsRun {p : Program} {fr : Frame} {waiting : List Frame} {mem mem' : Memory}
    {e : Failure} (h : (Machine.step rules p fr waiting).on mem = (.error e, mem')) :
    e.endsRun = true := by
  cases Machine.stepped_of_on h with
  | ended | missed => rfl
  | failed hi hp =>
      exact Failure.endsRun_of_endsInstr (perform_faults p _ _ _ _ _ (congrArg Prod.fst hp))
  | strayed hi hp hj =>
      exact Exec.FailsBy.mapM (phiValue_endings p _ _ _) _ _ _
        (congrArg Prod.fst (Machine.on_jump_error hj))
  | barred hi hp hg he => exact eval_endsRun (Machine.eval_call_of_error he) _ rfl

variable (p : Program) (f : Function) (args : List Value) (mem : Memory)

/-- Running a function with a stack of frames refines evaluating it recursively: a call comes to a
value, and leaves a memory, exactly when the evaluator does; it fails exactly when the evaluator
does, with the same failure and the same memory; and it goes on for ever, whatever number of steps
it is given, exactly when the evaluator has no derivation. -/
theorem call_comes_to_iff_eval :
    (∀ v mem', (∃ steps, (Machine.call rules p steps f args).on mem = (.ok v, mem')) ↔
      Eval rules p (.call f args) mem (.ok v) mem') ∧
    (∀ e mem', (e ≠ .stepLimit ∧
        ∃ steps, (Machine.call rules p steps f args).on mem = (.error e, mem')) ↔
      Eval rules p (.call f args) mem (.error e) mem') ∧
    ((∀ steps, ((Machine.call rules p steps f args).on mem).1 = .error .stepLimit) ↔
      ¬ ∃ r mem', Eval rules p (.call f args) mem r mem') := by
  refine ⟨fun v mem' => ⟨?_, ?_⟩, fun e mem' => ⟨?_, ?_⟩, ?_, ?_⟩
  · rintro ⟨steps, h⟩
    exact Machine.eval_of_call h nofun
  · intro h
    obtain ⟨n, hn⟩ := Machine.call_of_eval h
    exact ⟨n, hn 0⟩
  · rintro ⟨he, steps, h⟩
    exact Machine.eval_of_call h (by simpa using he)
  · intro h
    obtain ⟨n, hn⟩ := Machine.call_of_eval h
    refine ⟨?_, n, hn 0⟩
    rintro rfl
    exact absurd (eval_endsRun h _ rfl) (by decide)
  · rintro hall ⟨r, mem', h⟩
    obtain ⟨n, hn⟩ := Machine.call_of_eval h
    have hr : r = .error .stepLimit := (congrArg Prod.fst (hn 0)).symm.trans (hall n)
    exact absurd (eval_endsRun h _ hr) (by decide)
  · intro hnone steps
    exact Classical.byContradiction fun hr => hnone ⟨_, _, Machine.eval_of_call rfl hr⟩

end Interpreted

end Ssa

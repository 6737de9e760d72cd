/-
# `Ssa.Proofs.Exec.Escapes` — failures that are no failures of execution

Whatever the interpreter has no rule for is to be reported as a failure of execution, which the
catalogue lists.  A failure that is not listed as one escapes.  In a module that an interpreter was
made for, control never lets a failure escape, and neither do operands, cells, phis and calls as
such; there are four places where one can come from, and `Machine.State.Trapped` says what they are.

**Proved here.**

    an operand fails unlisted only by the initializer of a variable        (`eval_guarded`)
    an instruction, only by an operand or by the result of an operation    (`perform_guarded`)
    a run lets a failure escape  ⟺  it reaches a state that is trapped     (`escapes_iff_trapped`)
-/
import Ssa.Proofs.Exec.Store
import Ssa.Proofs.Validity.Written

namespace Ssa

/-! ## Failures of execution -/

namespace Failure

/-- Whether a cause is listed in the catalogue as a failure of execution. -/
def isExecution (e : Failure) : Bool :=
  e.listing?.any fun (code, _) =>
    (Catalogue.standard.entry? code).any fun entry => entry.class_ == .execution

/-- Whether a cause that a run ends by is no failure of execution.  A run that uses up its steps has
not ended. -/
def escapes (e : Failure) : Bool := !e.isExecution && e != .stepLimit

end Failure

/-! ## Operands -/

/-- Whatever a computation on a memory fails with is allowed. -/
abbrev Exec.Guarded {α : Type} (x : Exec α) (mem : Memory) (Err : Failure → Prop) : Prop :=
  Effect.Meets (Keeping.nothing Memory) x mem (fun _ _ => True) Err

namespace Exec.Guarded

variable {α : Type} {mem mem' : Memory} {Err : Failure → Prop}

theorem lift {x : Except Failure α} (h : ∀ e, x = .error e → Err e) :
    Guarded (Exec.lift x) mem Err := by
  cases x with
  | ok a => exact .pure trivial trivial
  | error e => exact .throw trivial (h e rfl)

theorem of_ok {x : Exec α} {a : α} (h : x.on mem = (.ok a, mem')) : Guarded x mem Err :=
  ⟨trivial, trivial, fun _ _ _ => trivial, fun _ _ he => by rw [h] at he; cases he⟩

end Exec.Guarded

/-- A failure is that of the initializer of some variable, in a function that asks for it. -/
def Module.Unopened (m : Module) (f : Function) (e : Failure) : Prop :=
  ∃ k v, m.variableAt? k = some v ∧ Interpreted.initialValue f.name v = .error e

/-- A failure is listed, or that of an initializer. -/
def Module.Opening (m : Module) (f : Function) (e : Failure) : Prop :=
  e.escapes = false ∨ m.Unopened f e

/-- An operand is there, and if it is a constant it can be brought to its type. -/
structure Operand.IsSafe (m : Module) (f : Function) (o : Operand) : Prop where
  known : o.IsKnown m f
  bounded : ∀ c, o = .const c → c.isBounded = true

/-- What the instructions of a module use is safe. -/
def Module.IsSafe (m : Module) : Prop :=
  ∀ k f, m.function? k = some f → ∀ b, ∀ i ∈ f.instrs b, ∀ o ∈ i.op.values, o.IsSafe m f

theorem Module.Admitted.isSafe {m : Module} (h : m.Admitted) (hname : isCutShort m.name = false) :
    m.IsSafe := fun k f hf b i hi o ho =>
  ⟨((h.isBuilt k f hf).instrs b i hi).known o ho, fun _ hc => h.isBounded hname hf hi (hc ▸ ho)⟩

namespace Interpreted

open Exec (Guarded)

variable {p : Program} {f : Function} {env : Env} {mem : Memory}

/-- A constant within bounds fails only for want of a rule. -/
theorem constant_escapes {function : String} {c : Constant} {e : Failure}
    (hc : c.isBounded = true) (h : constant function c = .error e) : e.escapes = false := by
  have scalar_escapes {t : Ty} {v : Value} (hv : ∀ e, v.normalize t ≠ .error e)
      (h : constant.scalar function t v = .error e) : e.escapes = false := by
    unfold constant.scalar at h
    split at h
    · exact absurd h (hv e)
    · cases h
      rfl
  cases c with
  | null | undef => cases h
  | int t n =>
      refine scalar_escapes (fun e' he => ?_) h
      cases t with
      | fp p =>
          obtain ⟨x, hx⟩ : ∃ x, Constant.doubleOfInt n = .ok x := by
            cases hd : Constant.doubleOfInt n with
            | ok x => exact ⟨x, rfl⟩
            | error => simp [Constant.isBounded, hd, Except.isOk, Except.toBool] at hc
          cases p <;> simp [Value.normalize, Value.toFp, hx, Except.map] at he
      | _ => cases he
  | truth t b =>
      refine scalar_escapes (fun e' he => ?_) h
      cases t with
      | fp p => cases p <;> cases he
      | _ => cases he
  | real t x =>
      refine scalar_escapes (fun e' he => ?_) h
      cases t with
      | int w =>
          have hfinite : x.isFinite = true := hc
          cases x with
          | zero | finite => cases he
          | nan | infinity => cases hfinite
      | fp p => cases p <;> cases he
      | _ => cases he
  | aggregate t cs =>
      cases h
      rfl

theorem globalCell_guarded {function : String} {i : Nat} {v : Variable} {Err : Failure → Prop}
    (h : ∀ e, initialValue function v = .error e → Err e) :
    Guarded (globalCell function i v) mem Err := by
  refine .bind (Guarded.of_ok (Effect.on_get mem)) fun _ mem₁ _ _ _ _ => ?_
  split
  · exact .pure trivial trivial
  · exact .bind (Guarded.lift h) fun x mem₂ _ _ _ _ =>
      .bind (Guarded.of_ok (Exec.on_allocate v.type x mem₂)) fun _ mem₃ _ _ _ _ =>
        .bind (Guarded.of_ok (Effect.on_modify _ mem₃)) fun _ _ _ _ _ _ => .pure trivial trivial

/-- An operand fails unlisted only by the initializer of a variable. -/
theorem eval_guarded {o : Operand} (ho : o.IsSafe p.module f) :
    Guarded (eval p f env o) mem (p.module.Opening f) := by
  cases o with
  | const c => exact .lift fun e he => .inl (constant_escapes (ho.bounded c rfl) he)
  | «local» id t =>
      unfold eval
      dsimp only
      split
      · exact .pure trivial trivial
      · exact .throw trivial (.inl rfl)
  | global i t =>
      obtain ⟨sym, hsym, -⟩ := Option.map_eq_some_iff.mp ho.known
      unfold eval
      dsimp only
      rw [hsym]
      rcases sym with v | g
      · exact globalCell_guarded fun e he => .inr ⟨i, v, variableAt_of_symbol hsym, he⟩
      · exact .pure trivial trivial

/-! ## Instructions -/

/-- An operation that only computes evaluates its operands, and asks for the result to be bound. -/
theorem perform_eq_result {i : Instr} (h : i.op.isComputed = true) :
    perform p f env i = (do
      let v ← i.op.operands.mapM (eval p f env) >>= fun vs =>
        Exec.lift (result f i.type i.op vs)
      return .value v) := by
  rw [← compute_eq_result _ f i.type h]
  obtain ⟨id, t, op⟩ := i
  cases op <;> first | rfl | cases h

section

variable {i : Instr} (hsafe : ∀ o ∈ i.op.values, o.IsSafe p.module f)
include hsafe

theorem evalAll_guarded {os : List Operand} (hos : ∀ o ∈ os, o ∈ i.op.values) :
    Guarded (os.mapM (eval p f env)) mem (p.module.Opening f) :=
  (Effect.Meets.mapM (T := fun _ _ _ => True) (fun _ _ _ _ _ _ => trivial) os trivial
    fun o ho _ _ _ => eval_guarded (hsafe o (hos o ho))).mono fun _ _ _ => trivial

theorem chooseCase_guarded {v : Value} {default : Nat} {cases : List (Operand × Nat)}
    (hcases : ∀ c ∈ cases, c.1 ∈ i.op.values) :
    Guarded (chooseCase (eval p f env) v default cases) mem (p.module.Opening f) := by
  induction cases generalizing mem with
  | nil => exact .pure trivial trivial
  | cons c rest ih =>
      refine .bind (eval_guarded (hsafe c.1 (hcases c (by simp)))) fun x mem₁ _ _ _ _ => ?_
      split
      · exact .pure trivial trivial
      · exact ih fun c hc => hcases c (List.mem_cons_of_mem _ hc)

theorem call_guarded {callee : Operand} {args : List Operand}
    (hargs : ∀ o ∈ args, o ∈ i.op.values) :
    Guarded (call p (eval p f env) f callee args) mem (p.module.Opening f) := by
  unfold call
  split
  · split
    · exact .bind (evalAll_guarded hsafe hargs) fun _ _ _ _ _ _ => .pure trivial trivial
    · exact .throw trivial (.inl rfl)
  · exact .throw trivial (.inl rfl)

/-- What does not only compute fails unlisted only by an operand. -/
theorem compute_guarded (hop : i.op.isComputed = false) :
    Guarded (compute (eval p f env) f i.type i.op) mem (p.module.Opening f) := by
  have hcell {word : String} {v : Value} {mem₁ : Memory} :
      Guarded (cellOf f word v) mem₁ (p.module.Opening f) := by
    unfold cellOf
    split
    · exact .pure trivial trivial
    · exact .throw trivial (.inl rfl)
  obtain ⟨id, t, op⟩ := i
  have hev {o : Operand} {mem₁ : Memory} (ho : o ∈ op.values) :
      Guarded (eval p f env o) mem₁ (p.module.Opening f) := eval_guarded (hsafe o ho)
  cases op with
  | int | fp | fneg | icmp | fcmp | cast => cases hop
  | select c a b =>
      refine .bind (hev (by simp [OpOver.values, OpOver.operands])) fun x _ _ _ _ _ => ?_
      split <;> exact hev (by simp [OpOver.values, OpOver.operands])
  | alloca u count =>
      exact .bind (Guarded.of_ok (Exec.on_allocate u _ mem)) fun _ _ _ _ _ _ => .pure trivial trivial
  | load a =>
      refine .bind (hev (by simp [OpOver.values, OpOver.operands])) fun x _ _ _ _ _ => ?_
      refine .bind hcell fun k mem₁ _ _ _ _ => ?_
      exact .bind (Guarded.of_ok (Exec.on_cell k mem₁)) fun _ _ _ _ _ _ => .pure trivial trivial
  | store v a =>
      refine .bind (hev (by simp [OpOver.values, OpOver.operands])) fun x _ _ _ _ _ => ?_
      refine .bind (hev (by simp [OpOver.values, OpOver.operands])) fun y _ _ _ _ _ => ?_
      refine .bind hcell fun k mem₁ _ _ _ _ => ?_
      exact .bind (Guarded.of_ok (Exec.on_write k x mem₁)) fun _ _ _ _ _ _ => .pure trivial trivial
  | _ => exact .throw trivial (.inl rfl)

/-- An instruction fails unlisted only by an operand, or because an operation has no result for the
values of its operands. -/
theorem perform_guarded :
    Guarded (perform p f env i) mem fun e => p.module.Opening f e ∨ i.op.isComputed = true ∧
      ∃ vs mem₁, (i.op.operands.mapM (eval p f env)).on mem = (.ok vs, mem₁) ∧
        result f i.type i.op vs = .error e := by
  by_cases hc : i.op.isComputed = true
  · rw [perform_eq_result hc]
    refine .bind (P := fun _ _ => True) ?_ fun _ _ _ _ _ _ => .pure trivial trivial
    refine .bind ((evalAll_guarded hsafe fun o ho => OpOver.mem_values ho).allow fun _ => .inl)
      fun vs mem₁ hvs _ _ _ => ?_
    exact Guarded.lift fun e he => .inr ⟨hc, vs, mem₁, hvs, he⟩
  · refine Effect.Meets.allow ?_ fun _ => .inl
    have hev {o : Operand} (ho : o ∈ i.op.values) :
        Guarded (eval p f env o) mem (p.module.Opening f) := eval_guarded (hsafe o ho)
    unfold perform control
    dsimp only
    split
    · exact .pure trivial trivial
    · rename_i v hop
      exact .bind (hev (by simp [hop, OpOver.values, OpOver.operands])) fun _ _ _ _ _ _ =>
        .pure trivial trivial
    · exact .pure trivial trivial
    · rename_i c t e hop
      exact .bind (hev (by simp [hop, OpOver.values, OpOver.operands])) fun _ _ _ _ _ _ =>
        .pure trivial trivial
    · rename_i v d cases hop
      refine .bind (hev (by simp [hop, OpOver.values, OpOver.operands])) fun x _ _ _ _ _ => ?_
      refine .bind (chooseCase_guarded hsafe fun c hc => ?_) fun _ _ _ _ _ _ => .pure trivial trivial
      rw [hop]
      exact List.mem_cons_of_mem _ (List.mem_map_of_mem hc)
    · exact .throw trivial (.inl rfl)
    · rename_i callee args hop
      exact call_guarded hsafe fun o ho => hop ▸ List.mem_cons_of_mem _ ho
    · rename_i callee args n u hop
      exact call_guarded hsafe fun o ho => hop ▸ List.mem_cons_of_mem _ ho
    · exact .bind (compute_guarded hsafe (by simpa using hc)) fun _ _ _ _ _ _ =>
        .pure trivial trivial

end

end Interpreted

/-! ## States that are trapped -/

open Interpreted (rules)

/-- The machine is in one of the four places where a failure escapes, in a run that is to return a
value of a type. -/
inductive Machine.State.Trapped (p : Program) (last : Ty) (mem : Memory) : Machine.State → Prop
  /-- An operation has no result for the values of its operands. -/
  | applied {fr : Frame} {waiting : List Frame} {i : Instr} {vs : List Value} {mem' : Memory}
      {e : Failure} :
      fr.current? = some i → i.op.isComputed = true →
      (i.op.operands.mapM (Interpreted.eval p fr.function fr.env)).on mem = (.ok vs, mem') →
      Interpreted.result fr.function i.type i.op vs = .error e → e.escapes = true →
      Trapped p last mem (.running fr waiting)
  /-- A call passes what cannot be brought to the type of its parameter. -/
  | passed {fr : Frame} {waiting : List Frame} {i : Instr} {c : Nat} {g : Function}
      {args : List Value} {mem' : Memory} {e : Failure} :
      fr.current? = some i →
      (Interpreted.perform p fr.function fr.env i).on mem = (.ok (.call c args), mem') →
      p.module.function? c = some g → g.isDeclaration = false →
      bindParams g.params args 0 = .error e → e.escapes = true →
      Trapped p last mem (.running fr waiting)
  /-- A variable is asked for whose initializer cannot be brought to its type. -/
  | opened {fr : Frame} {waiting : List Frame} {k : Nat} {v : Variable} {e : Failure}
      {mem' : Memory} :
      p.module.variableAt? k = some v →
      Interpreted.initialValue fr.function.name v = .error e → e.escapes = true →
      (step rules p fr waiting).on mem = (.error e, mem') →
      Trapped p last mem (.running fr waiting)
  /-- What is returned cannot be brought to the type of the result. -/
  | returned {v : Value} {e : Failure} :
      Session.resultOf last v = .error e → e.escapes = true → Trapped p last mem (.done v)

namespace Machine

open Exec (Guarded)

variable {p : Program} {mem mem' : Memory}

/-! ### Steps -/

theorem function_of_jump {fr next : Frame} {source : Option Nat} {t : Nat}
    (h : (jump rules p fr source t).on mem = (.ok next, mem')) : next.function = fr.function := by
  obtain ⟨_, rfl⟩ := eq_of_jump h
  rfl

theorem function_of_enter {f : Function} {args : List Value} {next : Frame}
    (h : (enter rules p f args).on mem = (.ok next, mem')) : next.function = f := by
  rw [on_enter] at h
  split at h
  · cases h
  · split at h
    · exact function_of_jump h
    · cases h

/-- A jump fails unlisted only by an operand of a phi. -/
theorem jump_guarded {fr : Frame} {source : Option Nat} {t : Nat} (hsafe : p.module.IsSafe)
    {k : Nat} (hk : p.module.function? k = some fr.function) :
    Guarded (jump rules p fr source t) mem (p.module.Opening fr.function) := by
  have hphi {i : Instr} {mem₁ : Memory} (hi : i ∈ fr.function.leadingPhis t) :
      Guarded (phiValue rules p fr.function fr.env source i) mem₁
        (p.module.Opening fr.function) := by
    unfold phiValue
    split
    · rename_i o ho
      obtain ⟨incoming, b, hop, hmem, -⟩ := mem_of_entryFor ho
      have hvalue : o ∈ i.op.values := by
        rw [hop]
        exact List.mem_map_of_mem hmem
      exact .bind (Interpreted.eval_guarded
        (hsafe k _ hk t i ((List.takeWhile_sublist _).subset hi) o hvalue))
        fun _ _ _ _ _ _ => .pure trivial trivial
    · exact .throw trivial (.inl rfl)
  unfold jump
  exact .bind (.mapM (T := fun _ _ _ => True) (fun _ _ _ _ _ _ => trivial) _ trivial
    fun i hi _ _ _ => hphi hi) fun _ _ _ _ _ _ => .pure trivial trivial

/-- At the head of the first block there is no way into a phi. -/
theorem first_jump_error {f : Function} {env : Env} {e : Failure}
    (h : (jump rules p ⟨f, env, 0, 0, none⟩ none 0).on mem = (.error e, mem')) :
    e.escapes = false := by
  have hguarded : Guarded (jump rules p ⟨f, env, 0, 0, none⟩ none 0) mem
      (fun e => e.escapes = false) := by
    unfold jump
    refine .bind (.mapM (T := fun _ _ _ => True) (fun _ _ _ _ _ _ => trivial) _ trivial
      fun i _ mem₁ _ _ => ?_) fun _ _ _ _ _ _ => .pure trivial trivial
    have hentry : entryFor (incomingOf i) none = none := by
      simp [entryFor]
    unfold phiValue
    rw [hentry]
    exact .throw trivial rfl
  exact hguarded.error e mem' h

/-- A function fails unlisted to be entered only by its arguments. -/
theorem enter_error {f : Function} {args : List Value} {e : Failure}
    (h : (enter rules p f args).on mem = (.error e, mem')) :
    e.escapes = false ∨ f.isDeclaration = false ∧ bindParams f.params args 0 = .error e := by
  rw [on_enter] at h
  split at h
  · cases h
    exact .inl rfl
  · rename_i hd
    split at h
    · exact .inl (first_jump_error h)
    · rename_i e' hbind
      cases h
      exact .inr ⟨by simpa using hd, hbind⟩

/-- Where a step lets a failure escape, the machine is trapped. -/
theorem trapped_of_step {last : Ty} {fr : Frame} {waiting : List Frame} {e : Failure} {k : Nat}
    (hsafe : p.module.IsSafe) (hk : p.module.function? k = some fr.function)
    (h : (step rules p fr waiting).on mem = (.error e, mem')) (he : e.escapes = true) :
    (State.running fr waiting).Trapped p last mem := by
  have hlisted {P : Prop} (hfalse : e.escapes = false) : P := by
    rw [he] at hfalse
    cases hfalse
  have hopened (hopening : p.module.Opening fr.function e) :
      (State.running fr waiting).Trapped p last mem := by
    rcases hopening with hfalse | ⟨n, v, hv, hinit⟩
    · exact hlisted hfalse
    · exact .opened hv hinit he h
  cases stepped_of_on h with
  | ended => exact hlisted rfl
  | @failed i _ _ hi hp =>
      have hmem : i ∈ fr.function.instrs fr.block := List.mem_of_getElem? hi
      rcases (Interpreted.perform_guarded (hsafe k _ hk _ i hmem)).error e mem' hp with
        hopening | ⟨hc, vs, mem₁, hvs, hresult⟩
      · exact hopened hopening
      · exact .applied hi hc hvs hresult he
  | strayed hi hp hj => exact hopened ((jump_guarded hsafe hk).error e mem' hj)
  | missed => exact hlisted rfl
  | barred hi hp hg henter =>
      rcases enter_error henter with hfalse | ⟨hd, hbind⟩
      · exact hlisted hfalse
      · exact .passed hi hp hg hd hbind he

/-- Where the machine is trapped, a step lets a failure escape. -/
theorem step_of_trapped {last : Ty} {fr : Frame} {waiting : List Frame}
    (h : (State.running fr waiting).Trapped p last mem) :
    ∃ e mem', (step rules p fr waiting).on mem = (.error e, mem') ∧ e.escapes = true := by
  cases h with
  | @applied _ _ i vs mem₁ e hi hc hvs hresult he =>
      refine ⟨e, mem₁, on_of_stepped (.failed hi ?_), he⟩
      show (Interpreted.perform p fr.function fr.env i).on mem = _
      rw [Interpreted.perform_eq_result hc]
      refine Effect.on_bind_of_error ((Effect.on_bind_of_ok hvs).trans ?_)
      rw [hresult, Exec.on_lift]
  | @passed _ _ i c g args mem₁ e hi hp hg hd hbind he =>
      refine ⟨e, mem₁, on_of_stepped (.barred hi hp hg ?_), he⟩
      rw [on_enter, hd, hbind]
      rfl
  | opened hv hinit he hs => exact ⟨_, _, hs, he⟩

/-! ### Runs -/

/-- The frames of a run are of functions of the module. -/
theorem reaches_member {f : Function} {args : List Value} {st : State} {k : Nat}
    (hk : p.module.function? k = some f) (h : Reaches rules p f args mem st mem') :
    ∀ fr ∈ st.frames, ∃ k, p.module.function? k = some fr.function := by
  induction h with
  | entered he =>
      intro fr hfr
      cases List.mem_singleton.mp hfr
      exact ⟨k, function_of_enter he ▸ hk⟩
  | @stepped fr waiting st mem₁ mem₂ _ hs ih =>
      obtain ⟨j, hj⟩ := ih fr (by simp [State.frames])
      have hwaiting : ∀ fr' ∈ waiting, ∃ k, p.module.function? k = some fr'.function :=
        fun fr' hfr' => ih fr' (by simp [State.frames, hfr'])
      cases stepped_of_on hs with
      | bound hi hp => exact List.forall_mem_cons.mpr ⟨⟨j, hj⟩, hwaiting⟩
      | left hi hp =>
          cases waiting with
          | nil => exact nofun
          | cons caller rest =>
              obtain ⟨⟨n, hn⟩, hrest⟩ := List.forall_mem_cons.mp hwaiting
              refine List.forall_mem_cons.mpr ⟨⟨n, ?_⟩, hrest⟩
              cases hpending : caller.pending <;> simpa [Frame.resume, Frame.advance, hpending] using hn
      | jumped hi hp hj' =>
          exact List.forall_mem_cons.mpr ⟨⟨j, function_of_jump hj' ▸ hj⟩, hwaiting⟩
      | @called i c g _ inner _ _ hi hp hg he =>
          exact List.forall_mem_cons.mpr ⟨⟨c, function_of_enter he ▸ hg⟩,
            List.forall_mem_cons.mpr ⟨⟨j, hj⟩, hwaiting⟩⟩

/-- A state that a call leads to is come to within some number of steps. -/
theorem call_of_reaches {f : Function} {args : List Value} {st : State}
    (h : Reaches rules p f args mem st mem') :
    ∃ n, ∀ j, (call rules p (n + j) f args).on mem = (run rules p j st).on mem' := by
  induction h with
  | entered he => exact ⟨0, fun j => (Effect.on_bind_of_ok he).trans (by rw [Nat.zero_add])⟩
  | @stepped fr waiting st mem₁ mem₂ _ hs ih =>
      obtain ⟨n, hn⟩ := ih
      refine ⟨n + 1, fun j => ?_⟩
      rw [Nat.add_right_comm, Nat.add_assoc, hn, on_run_succ, hs]

end Machine

/-! ## Across the boundary -/

/-- A value was made for a parameter of a type: out of an integer, out of a number, or, if the type
is one of pointers, out of whatever there was. -/
inductive GenericValue.IsBuiltFor (t : Ty) : GenericValue → Prop
  | int {v : Value} {signed : Bool} {g : GenericValue} :
      ofInt t v signed = .ok g → IsBuiltFor t g
  | real {v : Value} {g : GenericValue} : ofFp t v = .ok g → IsBuiltFor t g
  | pointer {v : Value} {u : Option Ty} : t.isPointer = true → IsBuiltFor t (ofPointer v u)

/-- What a run of a function gives back across the boundary, if it ends within a number of steps. -/
def Session.answer (p : Program) (steps : Nat) (f : Function) (args : List GenericValue) :
    Exec RunResult := do
  let v ← Machine.call rules p steps f (args.map GenericValue.payload)
  Exec.lift (resultOf f.result v)

/-- A run of a function on a memory lets a failure escape, within some number of steps. -/
def Session.Escapes (p : Program) (f : Function) (args : List GenericValue) (mem : Memory) : Prop :=
  ∃ n e mem', (answer p n f args).on mem = (.error e, mem') ∧ e.escapes = true

/-- A value that was made for a type can be brought to it. -/
theorem GenericValue.normalize_of_isBuiltFor {t : Ty} {g : GenericValue} (h : g.IsBuiltFor t) :
    ∃ v, g.payload.normalize t = .ok v := by
  cases h with
  | int h =>
      obtain ⟨n, -, h⟩ := ok_of_bind h
      cases t with
      | int w =>
          dsimp only at h
          split at h
          · obtain ⟨_, -, h⟩ := ok_of_bind h
            cases h
            exact ⟨_, rfl⟩
          · cases h
            exact ⟨_, rfl⟩
      | _ => dsimp only at h; split at h <;> cases h
  | real h =>
      obtain ⟨x, -, h⟩ := ok_of_bind h
      obtain ⟨v, hv, h⟩ := ok_of_bind h
      cases h
      cases t with
      | int w =>
          obtain ⟨n, -, rfl⟩ := ok_of_map hv
          exact ⟨_, rfl⟩
      | fp p => cases p <;> cases hv <;> exact ⟨_, rfl⟩
      | _ => exact ⟨v, rfl⟩
  | @pointer v u ht =>
      refine ⟨v, ?_⟩
      cases t with
      | pointer => rfl
      | _ => cases ht

theorem Machine.bindParams_of_isBuiltFor {ts : List Ty} {args : List GenericValue}
    (h : List.Forall₂ GenericValue.IsBuiltFor ts args) (id : Nat) :
    ∃ env, bindParams ts (args.map GenericValue.payload) id = .ok env := by
  induction h generalizing id with
  | nil => exact ⟨[], rfl⟩
  | @cons t g ts args hg _ ih =>
      obtain ⟨v, hv⟩ := GenericValue.normalize_of_isBuiltFor hg
      obtain ⟨env, henv⟩ := ih (id + 1)
      exact ⟨(id, v) :: env, by simp [bindParams, hv, henv]; rfl⟩

/-- Where what the instructions use is safe, a run lets a failure escape just if it reaches a state
that is trapped. -/
theorem Module.IsSafe.escapes_iff_trapped {p : Program} (hsafe : p.module.IsSafe) {k : Nat}
    {f : Function} {args : List GenericValue} (hf : p.module.function? k = some f)
    (hargs : List.Forall₂ GenericValue.IsBuiltFor f.params args) (mem : Memory) :
    Session.Escapes p f args mem ↔
      ∃ st mem', Machine.Reaches rules p f (args.map GenericValue.payload) mem st mem' ∧
        st.Trapped p f.result mem' := by
  constructor
  · rintro ⟨n, e, mem', h, he⟩
    rcases Effect.on_bind_cases h with ⟨e', hcall, heq⟩ | ⟨v, mem₁, hcall, hresult⟩
    · cases heq
      rcases Machine.call_cases hcall with ⟨e', heq, henter⟩ | ⟨v, hv, -⟩ | ⟨fr, waiting, heq, -⟩ |
        ⟨fr, waiting, mem₂, e', heq, hr, hs⟩
      · cases heq
        obtain ⟨env, henv⟩ := Machine.bindParams_of_isBuiltFor hargs 0
        rcases Machine.enter_error henter with hfalse | ⟨-, hbind⟩
        · rw [he] at hfalse
          cases hfalse
        · rw [henv] at hbind
          cases hbind
      · cases hv
      · cases heq
        cases he
      · cases heq
        obtain ⟨j, hj⟩ := Machine.reaches_member hf hr fr (by simp [Machine.State.frames])
        exact ⟨_, mem₂, hr, Machine.trapped_of_step hsafe hj hs he⟩
    · rw [Exec.on_lift] at hresult
      rcases Machine.call_cases hcall with ⟨e', heq, -⟩ | ⟨v', hv, hr⟩ | ⟨fr, waiting, heq, -⟩ |
        ⟨fr, waiting, mem₂, e', heq, -⟩
      · cases heq
      · cases hv
        exact ⟨_, mem₁, hr, .returned (congrArg Prod.fst hresult) he⟩
      · cases heq
      · cases heq
  · rintro ⟨st, mem', hr, htrapped⟩
    obtain ⟨n, hn⟩ := Machine.call_of_reaches hr
    cases st with
    | running fr waiting =>
        obtain ⟨e, mem₁, hs, he⟩ := Machine.step_of_trapped htrapped
        refine ⟨n + 1, e, mem₁, Effect.on_bind_of_error ?_, he⟩
        rw [hn, Machine.on_run_succ, hs]
    | done v =>
        cases htrapped with
        | @returned _ e hresult he =>
            refine ⟨n + 0, e, mem', (Effect.on_bind_of_ok (hn 0)).trans ?_, he⟩
            rw [hresult, Exec.on_lift]

end Ssa

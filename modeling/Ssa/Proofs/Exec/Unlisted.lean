/-
# `Ssa.Proofs.Exec.Unlisted` — what the interpreter says it does not support

The interpreter lists what it supports: arithmetic, comparisons, conversions, choices, phis, branches,
switches, returns, calls of functions by name, and scalar storage.  At anything else a run is to stop, with
the name of what it came upon, before anything has happened.  It does, except at an invoke of a function by
name: that is taken for a call.  The function is entered, and what it does to the cells stays; when it
returns, the frame goes on behind the invoke, which was the end of its block.

**Proved here.**

    at what is not listed, and is no such invoke, a call stops as it is   (`perform_unlisted`)
    a frame is behind no end of a block but such invokes                   (`reaches_passed`)
    a call stops behind the end of a block  ⟺  it gets there, by invokes   (`falls_iff`)
-/
import Ssa.Proofs.Exec.Ready
import Ssa.Proofs.Exec.Recursive
import Ssa.Proofs.Exec.Signals
import Ssa.Proofs.Exec.Escapes

namespace Ssa

/-! ## What is listed -/

namespace OpOver

/-- Whether the interpreter lists an operation as supported.  Of calls it lists those that name a
function. -/
def isListed (m : Module) : Op → Bool
  | .int .. | .fp .. | .fneg _ | .icmp .. | .fcmp .. | .cast .. | .select .. | .phi _ | .br _
  | .condBr .. | .switch .. | .ret _ | .unreachable | .alloca .. | .load _ | .store .. => true
  | .call (.global k _) _ => (m.function? k).isSome
  | _ => false

/-- The function that an invoke names. -/
def invoked? (m : Module) : Op → Option Function
  | .invoke (.global k _) _ _ _ => m.function? k
  | _ => none

/-- What a run that comes upon an operation names as unsupported. -/
def refusal : Op → Unsupported
  | .call .. | .invoke .. => .indirectCall
  | op => .instruction op.word

/-- What calls a function by name and ends a block is an invoke. -/
theorem invoked?_of_callee? {m : Module} {op : Op} {c : Nat} (hc : op.callee? = some c)
    (ht : op.isTerminator = true) : op.invoked? m = m.function? c := by
  unfold callee? at hc
  split at hc
  · cases ht
  · cases hc
    rfl
  · cases hc

theorem eq_invoke {m : Module} {op : Op} {g : Function} (h : op.invoked? m = some g) :
    ∃ k t os n u, op = .invoke (.global k t) os n u ∧ m.function? k = some g := by
  unfold invoked? at h
  split at h
  · exact ⟨_, _, _, _, _, rfl, h⟩
  · cases h

end OpOver

namespace Interpreted

variable {p : Program} {f : Function} {env : Env}

/-- What is not listed is refused, by its name, unless it is an invoke of a function by name. -/
theorem perform_unlisted {i : Instr} (h : i.op.isListed p.module = false)
    (hi : i.op.invoked? p.module = none) :
    perform p f env i = throw (.unsupported i.op.refusal f.name) := by
  obtain ⟨id, t, op⟩ := i
  have hcall {callee : Operand} {args : List Operand}
      (hno : ∀ k u, callee = .global k u → p.module.function? k = none) :
      call p (eval p f env) f callee args = throw (.unsupported .indirectCall f.name) := by
    cases callee with
    | global k u => simp only [call, hno k u rfl]
    | _ => rfl
  cases op with
  | call callee args =>
      refine hcall fun k u hcallee => ?_
      subst hcallee
      simpa [OpOver.isListed] using h
  | invoke callee args n u =>
      refine hcall fun k u hcallee => ?_
      subst hcallee
      exact hi
  | int | fp | fneg | icmp | fcmp | cast | select | phi | br | condBr | switch | ret | unreachable
  | alloca | load | store => cases h
  | _ => rfl

end Interpreted

/-! ## Failures other than the end of a block -/

/-- Whether a cause is that a block has ended. -/
def Failure.isFall : Failure → Bool
  | .noTerminator .. => true
  | _ => false

/-- No failure of a computation, on any memory, is that a block has ended. -/
abbrev Exec.StaysOn {α : Type} (x : Exec α) : Prop := Exec.FailsBy (fun e => !e.isFall) x

theorem Failure.not_isFall_of_endsInstr {e : Failure} (h : e.endsInstr = true) : (!e.isFall) = true := by
  cases e <;> first | rfl | cases h

namespace Machine

open Interpreted (rules)

variable {p : Program} {f : Function} {args : List Value} {mem mem' : Memory}

theorem jump_staysOn (fr : Frame) (source : Option Nat) (target : Nat) :
    Exec.StaysOn (jump rules p fr source target) := by
  refine .bind (.mapM (fun i => ?_) _) fun _ => .pure _
  unfold phiValue
  split
  · exact .bind ((Interpreted.eval_faults p _ _ _).mono fun _ => Failure.not_isFall_of_endsInstr)
      fun _ => .pure _
  · simp [Failure.isFall]

theorem enter_staysOn (f : Function) (args : List Value) : Exec.StaysOn (enter rules p f args) := by
  have hparams : FailsBy (fun e => !e.isFall) (bindParams f.params args 0) :=
    (bindParams_faults _ _ _).mono fun _ => Failure.not_isFall_of_endsInstr
  unfold enter
  split
  · exact .bind (Exec.FailsBy.throw_iff.mpr rfl) fun _ => .bind (.lift hparams) fun _ => jump_staysOn _ _ _
  · exact .bind (.lift hparams) fun _ => jump_staysOn _ _ _

/-- A step fails because a block has ended only where it has. -/
theorem ended_of_fall {fr : Frame} {waiting : List Frame} {b g : String}
    (h : (step rules p fr waiting).on mem = (.error (.noTerminator b g), mem')) :
    fr.current? = none ∧ b = fr.function.blockName fr.block ∧ g = fr.function.name := by
  have hstays {α : Type} {x : Exec α} {mem₁ : Memory} (hx : x.StaysOn) :
      x.on mem₁ ≠ (.error (.noTerminator b g), mem') := by
    intro heq
    cases hx mem₁ _ (congrArg Prod.fst heq)
  cases stepped_of_on h with
  | ended hi => exact ⟨hi, rfl, rfl⟩
  | failed hi hp =>
      refine absurd hp (hstays ?_)
      exact (Interpreted.perform_faults p _ _ _).mono fun _ => Failure.not_isFall_of_endsInstr
  | strayed hi hp hj => exact absurd hj (hstays (jump_staysOn _ _ _))
  | barred hi hp hg he => exact absurd he (hstays (enter_staysOn _ _))

end Machine

/-! ## Behind the end of a block -/

/-- A frame is behind no end of its block, but for invokes of functions by name. -/
def Frame.Passed (m : Module) (fr : Frame) : Prop :=
  ∀ i ∈ (fr.function.instrs fr.block).take fr.pc, i.op.isTerminator = true →
    ∃ g, i.op.invoked? m = some g

namespace Frame

variable {m : Module} {fr : Frame} {i : Instr}

/-- Behind the leading phis of a block there is no end. -/
theorem passed_of_phis (hpc : fr.pc = (fr.function.leadingPhis fr.block).length) : fr.Passed m := by
  intro i hi hend
  rw [hpc, take_leadingPhis] at hi
  have hphi : i.op.isPhi = true := List.all_eq_true.mp List.all_takeWhile i hi
  cases hop : i.op <;> simp_all [OpOver.isPhi, OpOver.isTerminator]

/-- A frame that goes on behind an instruction that is no end, or such an invoke. -/
theorem Passed.advance (h : fr.Passed m) (hi : fr.current? = some i)
    (hend : i.op.isTerminator = true → ∃ g, i.op.invoked? m = some g) (id : Nat) (v : Value) :
    (fr.advance id v).Passed m := by
  have htake : (fr.function.instrs fr.block).take (fr.pc + 1) =
      (fr.function.instrs fr.block).take fr.pc ++ [i] := by
    rw [List.take_add_one, show (fr.function.instrs fr.block)[fr.pc]? = some i from hi]
    rfl
  intro j hj
  rw [show (fr.advance id v).pc = fr.pc + 1 from rfl] at hj
  rcases List.mem_append.mp (htake ▸ hj) with hj | hj
  · exact h j hj
  · cases List.mem_singleton.mp hj
    exact hend

end Frame

namespace Machine

open Interpreted (rules)

variable {p : Program} {f : Function} {args : List Value} {mem mem' : Memory}

theorem passed_of_jump {m : Module} {fr next : Frame} {source : Option Nat} {t : Nat}
    (h : (jump rules p fr source t).on mem = (.ok next, mem')) : next.Passed m := by
  obtain ⟨_, rfl⟩ := eq_of_jump h
  exact Frame.passed_of_phis rfl

theorem passed_of_enter {m : Module} {g : Function} {next : Frame}
    (h : (enter rules p g args).on mem = (.ok next, mem')) : next.Passed m := by
  rw [on_enter] at h
  split at h
  · cases h
  · split at h
    · exact passed_of_jump h
    · cases h

/-- In every state that a call leads to, no frame is behind an end of its block, but for invokes of
functions by name. -/
theorem reaches_passed {st : State} (h : Reaches rules p f args mem st mem') :
    ∀ fr ∈ st.frames, fr.Passed p.module := by
  induction h with
  | entered he =>
      intro fr hfr
      cases List.mem_singleton.mp hfr
      exact passed_of_enter he
  | @stepped fr waiting st mem₁ mem₂ hr hs ih =>
      obtain ⟨hfr, hwaiting⟩ := List.forall_mem_cons.mp ih
      cases stepped_of_on hs with
      | @bound i v _ hi hp =>
          refine List.forall_mem_cons.mpr ⟨hfr.advance hi (fun hend => ?_) _ _, hwaiting⟩
          rw [show i.op.isTerminator = false from Interpreted.perform_asks hp] at hend
          cases hend
      | left =>
          cases waiting with
          | nil => exact nofun
          | cons caller rest =>
              obtain ⟨hcaller, hrest⟩ := List.forall_mem_cons.mp hwaiting
              obtain ⟨i, c, g, hi, hcallee, hg, hpending⟩ := reaches_awaits hr caller (.head _)
              refine List.forall_mem_cons.mpr ⟨?_, hrest⟩
              simp only [Frame.resume, hpending]
              exact hcaller.advance hi
                (fun hend => ⟨g, (OpOver.invoked?_of_callee? hcallee hend).trans hg⟩) _ _
      | jumped hi hp hj => exact List.forall_mem_cons.mpr ⟨passed_of_jump hj, hwaiting⟩
      | called hi hp hg he =>
          exact List.forall_mem_cons.mpr
            ⟨passed_of_enter he, List.forall_mem_cons.mpr ⟨hfr, hwaiting⟩⟩

/-- A step at an invoke of a function by name enters the function, on what the arguments stand for, and
leaves the frame to wait as at a call. -/
theorem step_invoke {fr : Frame} {i : Instr} {k n u : Nat} {t : Ty} {os : List Operand} {g : Function}
    (waiting : List Frame) (hi : fr.current? = some i) (hop : i.op = .invoke (.global k t) os n u)
    (hg : p.module.function? k = some g) :
    (step rules p fr waiting).on mem = (do
      let vs ← os.mapM (Interpreted.eval p fr.function fr.env)
      let inner ← enter rules p g vs
      pure (State.running inner (fr.await i.id :: waiting)) : Exec State).on mem := by
  have hperform : rules.perform p fr.function fr.env i =
      (do return .call k (← os.mapM (Interpreted.eval p fr.function fr.env))) := by
    show Interpreted.perform p fr.function fr.env i = _
    simp only [Interpreted.perform, Interpreted.control, Interpreted.call, hop, hg]
  simp only [step, hi, hperform, bind_assoc, pure_bind, enterAt, hg]

/-- A call fails because a block has ended if and only if it leads to a frame that is behind the last
instruction of the block.  Each instruction there that could have been its end is an invoke of a function
by name. -/
theorem falls_iff (b g : String) :
    (∃ n mem', (call rules p n f args).on mem = (.error (.noTerminator b g), mem')) ↔
      ∃ fr waiting mem', Reaches rules p f args mem (.running fr waiting) mem' ∧ fr.current? = none ∧
        b = fr.function.blockName fr.block ∧ g = fr.function.name ∧
        ∀ i ∈ fr.function.instrs fr.block, i.op.isTerminator = true →
          ∃ h, i.op.invoked? p.module = some h := by
  constructor
  · rintro ⟨n, mem', h⟩
    rcases call_cases h with ⟨e, he, henter⟩ | ⟨v, hv, -⟩ | ⟨fr, waiting, hlimit, -⟩ |
      ⟨fr, waiting, mem₁, e, he, hr, hs⟩
    · cases he
      cases enter_staysOn f args mem _ (congrArg Prod.fst henter)
    · cases hv
    · cases hlimit
    · cases he
      obtain ⟨hended, hb, hg⟩ := ended_of_fall hs
      refine ⟨fr, waiting, mem₁, hr, hended, hb, hg, fun i hi => ?_⟩
      have hall := reaches_passed hr fr (.head _)
      rw [Frame.Passed, List.take_of_length_le (List.getElem?_eq_none_iff.mp hended)] at hall
      exact hall i hi
  · rintro ⟨fr, waiting, mem', hr, hended, rfl, rfl, -⟩
    obtain ⟨n, hn⟩ := call_of_reaches hr
    refine ⟨n + 1, mem', ?_⟩
    rw [hn, on_run_succ, on_of_stepped (.ended hended)]

/-- Wherever a call comes to what is not listed, it stops: nothing is entered, no cell is changed, and what
is named is the instruction.  The one exception is an invoke of a function by name, which enters the
function.  Only by such invokes does a call get behind the end of a block, where it fails as if the block
had none. -/
theorem stops_at_unlisted (p : Program) (f : Function) (args : List Value) (mem : Memory) :
    (∀ fr waiting mem₁ i, Reaches rules p f args mem (.running fr waiting) mem₁ →
      fr.current? = some i → i.op.isListed p.module = false →
      (i.op.invoked? p.module = none ∧
          ∃ n, ∀ k, (call rules p (n + k) f args).on mem =
            (.error (.unsupported i.op.refusal fr.function.name), mem₁)) ∨
        ∃ k t os n u g, i.op = .invoke (.global k t) os n u ∧ p.module.function? k = some g ∧
          (step rules p fr waiting).on mem₁ = (do
            let vs ← os.mapM (Interpreted.eval p fr.function fr.env)
            let inner ← enter rules p g vs
            pure (State.running inner (fr.await i.id :: waiting)) : Exec State).on mem₁) ∧
    ∀ b g, (∃ n mem', (call rules p n f args).on mem = (.error (.noTerminator b g), mem')) ↔
      ∃ fr waiting mem', Reaches rules p f args mem (.running fr waiting) mem' ∧ fr.current? = none ∧
        b = fr.function.blockName fr.block ∧ g = fr.function.name ∧
        ∀ i ∈ fr.function.instrs fr.block, i.op.isTerminator = true →
          ∃ h, i.op.invoked? p.module = some h := by
  refine ⟨fun fr waiting mem₁ i hr hi hunlisted => ?_, falls_iff⟩
  cases hinvoked : i.op.invoked? p.module with
  | none =>
      have hstep : (step rules p fr waiting).on mem₁ =
          (.error (.unsupported i.op.refusal fr.function.name), mem₁) := by
        refine on_of_stepped (.failed hi ?_)
        show (Interpreted.perform p fr.function fr.env i).on mem₁ = _
        rw [Interpreted.perform_unlisted hunlisted hinvoked]
        rfl
      obtain ⟨n, hn⟩ := call_of_reaches hr
      refine .inl ⟨rfl, n + 1, fun k => ?_⟩
      rw [Nat.add_assoc, Nat.add_comm 1 k, hn, on_run_succ, hstep]
  | some g =>
      obtain ⟨k, t, os, n, u, hop, hg⟩ := OpOver.eq_invoke hinvoked
      exact .inr ⟨k, t, os, n, u, g, hop, hg, step_invoke waiting hi hop hg⟩

/-! ## A fence, and an invoke -/

/-- A function that comes upon a fence. -/
def fenced : Draft where
  types := []
  globals := []
  functions := [⟨"f", .void, [], false, some [⟨"e", "e", [
    ⟨none, "", .op .fence⟩,
    ⟨none, "", .op (.ret none)⟩]⟩]⟩]

/-- It stops there. -/
theorem fenced_stops : ∃ f fr mem₁, (fenced.written "m").function? 0 = some f ∧
    Reaches rules ⟨0, [], fenced.written "m"⟩ f [] .empty (.running fr []) mem₁ ∧
    ∃ n, ∀ k, (call rules ⟨0, [], fenced.written "m"⟩ (n + k) f []).on .empty =
      (.error (.unsupported (.instruction "fence") fr.function.name), mem₁) := by
  have hstart : (((fenced.written "m").function? 0).bind fun f =>
      (((enter rules ⟨0, [], fenced.written "m"⟩ f []).on .empty).1.toOption.bind Frame.current?).map
        fun i => (i.op.isListed (fenced.written "m"), (i.op.invoked? (fenced.written "m")).isNone,
          i.op.refusal)) = some (false, true, .instruction "fence") := by decide +kernel
  obtain ⟨f, hf, hstart⟩ := Option.bind_eq_some_iff.mp hstart
  obtain ⟨i, hcurrent, hi⟩ := Option.map_eq_some_iff.mp hstart
  obtain ⟨fr, hfr, hcurrent⟩ := Option.bind_eq_some_iff.mp hcurrent
  rcases he : (enter rules ⟨0, [], fenced.written "m"⟩ f []).on .empty with ⟨e | fr', mem₁⟩ <;>
    rw [he] at hfr <;> cases hfr
  simp only [Prod.mk.injEq, Option.isNone_iff_eq_none] at hi
  obtain ⟨hunlisted, hinvoked, hname⟩ := hi
  rcases (stops_at_unlisted ⟨0, [], fenced.written "m"⟩ f [] .empty).1 fr [] mem₁ i (.entered he)
    hcurrent hunlisted with ⟨-, hstops⟩ | ⟨_, _, _, _, _, _, hop, hg, -⟩
  · exact ⟨f, fr, mem₁, hf, .entered he, hname ▸ hstops⟩
  · rw [hop] at hinvoked
    cases hinvoked.symm.trans hg

/-- A function that stores nine to a variable, and one that invokes it. -/
def invoking : Draft where
  types := []
  globals := [⟨"x", .int 32, some (.constant (.typed (.int 32) (.int 5)))⟩]
  functions := [
    ⟨"g", .void, [], false, some [⟨"e", "e", [
      ⟨none, "", .op (.store (.constant (.typed (.int 32) (.int 9))) (.symbol "x"))⟩,
      ⟨none, "", .op (.ret none)⟩]⟩]⟩,
    ⟨"f", .void, [], false, some [
      ⟨"e", "e", [⟨none, "", .op (.invoke (.symbol "g") [] "ok" "bad")⟩]⟩,
      ⟨"ok", "ok", [⟨none, "", .op (.ret none)⟩]⟩,
      ⟨"bad", "bad", [⟨none, "", .op .unreachable⟩]⟩]⟩]

/-- All that the block of the second function has is an invoke, which is not listed and ends the block.  A
call does not stop there: the variable is changed, and what is reported is that the block has no end. -/
theorem not_stops_at_invoke : ∃ f i, (invoking.written "m").function? 2 = some f ∧ f.instrs 0 = [i] ∧
    i.op.isListed (invoking.written "m") = false ∧ i.op.isTerminator = true ∧
    ((call rules ⟨0, [], invoking.written "m"⟩ 9 f []).on .empty).1 = .error (.noTerminator "e" "f") ∧
    (((call rules ⟨0, [], invoking.written "m"⟩ 9 f []).on .empty).2.storage.cell? 0).bind
      (·.value.int?) = some 9 := by
  have hall : ((invoking.written "m").function? 2).map (fun f =>
      ((f.instrs 0).map fun i => (i.op.isListed (invoking.written "m"), i.op.isTerminator),
        Effect.failure? ((call rules ⟨0, [], invoking.written "m"⟩ 9 f []).on .empty).1,
        (((call rules ⟨0, [], invoking.written "m"⟩ 9 f []).on .empty).2.storage.cell? 0).bind
          (·.value.int?))) =
      some ([(false, true)], some (.noTerminator "e" "f"), some 9) := by decide +kernel
  obtain ⟨f, hf, hall⟩ := Option.map_eq_some_iff.mp hall
  simp only [Prod.mk.injEq, List.map_eq_singleton_iff] at hall
  obtain ⟨⟨i, hinstrs, hunlisted, hend⟩, hfails, hcell⟩ := hall
  exact ⟨f, i, hf, hinstrs, hunlisted, hend, Effect.eq_error_of_failure? hfails, hcell⟩

end Machine

end Ssa

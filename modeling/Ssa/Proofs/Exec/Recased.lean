/-
# `Ssa.Proofs.Exec.Recased` — runs with switches written otherwise

Two modules of which the one has some switches written otherwise are run side by side.  Where cases stand
in another order, or have other numbers, the two take the same steps.  Where a switch was taken apart,
the one takes a step and the other goes through tests until it is at the same label; it needs more steps,
and holds answers of tests that nothing else reads.  So for every number of steps of the one there is one
of the other, not less, after which both have come to the same.

**Proved here.**

    operands and instructions come to the same                              (`eval_recased`, `perform_recased`)
    tests lead to the label of the case that is taken                      (`Machine.run_tests`)
    a step is taken on both sides, or there are tests for it               (`Machine.step_recased`)
    runs come to the same, with as many steps or more                      (`Machine.run_recased`)
    switches select by congruence                                          (`Switch.by_congruence`)
-/
import Ssa.Proofs.Exec.Addresses
import Ssa.Proofs.Exec.Cases
import Ssa.Proofs.Exec.Congruence
import Ssa.Proofs.Exec.Pointwise
import Ssa.Proofs.Exec.Reached
import Ssa.Proofs.Exec.Recursive
import Ssa.Proofs.Exec.Signals
import Ssa.Proofs.Exec.Widths

namespace Ssa

open Switch

/-! ## Values that are spare -/

/-- Two frames have the same values but for those under some numbers. -/
def Env.Agrees (spare : Set Nat) (env env' : Env) : Prop := ∀ id ∉ spare, env'.lookup id = env.lookup id

namespace Env.Agrees

variable {spare : Set Nat} {env env' env'' : Env}

theorem refl (env : Env) : env.Agrees spare env := fun _ _ => rfl

theorem trans (h : env.Agrees spare env') (h' : env'.Agrees spare env'') : env.Agrees spare env'' :=
  fun id hid => (h' id hid).trans (h id hid)

theorem bind (h : env.Agrees spare env') (id : Nat) (v : Value) :
    (env.bind id v).Agrees spare (env'.bind id v) := by
  intro k hk
  rw [Env.lookup_bind, Env.lookup_bind, h k hk]

theorem bindAll (h : env.Agrees spare env') (vs : List (Nat × Value)) :
    (env.bindAll vs).Agrees spare (env'.bindAll vs) := by
  induction vs generalizing env env' with
  | nil => exact h
  | cons e vs ih => exact ih (h.bind e.1 e.2)

theorem bind_spare {z : Nat} (hz : z ∈ spare) (v : Value) : env.Agrees spare (env.bind z v) := by
  intro k hk
  have hne : k ≠ z := fun hkz => hk (hkz ▸ hz)
  rw [Env.lookup_bind, if_neg hne]

end Env.Agrees

namespace Interpreted

/-! ## Operands and instructions -/

section

variable {apart : Prop} {owner : Nat} {types : TypeTable} {m m' : Module} {f f' : Function} {spare : Spare}
  {env env' : Env} (hm : m.Recased apart m') (hf : f.Recased apart spare f')
  (henv : env.Agrees spare.locals env')
include hm hf henv

/-- An operand that is not spare comes to the same. -/
theorem eval_recased {o : Operand} (ho : o.Avoids spare.locals) :
    eval ⟨owner, types, m'⟩ f' env' o = eval ⟨owner, types, m⟩ f env o := by
  cases o with
  | const c =>
      unfold eval
      dsimp only
      rw [hf.name]
  | «local» id t =>
      unfold eval
      dsimp only
      rw [henv id ho, hf.localForm ho, hf.name]
  | global k t =>
      refine eval_global_congr rfl hf.name (hm.symbols k) fun s s' hs => ?_
      rcases s with v | g <;> rcases s' with v' | g' <;> try contradiction
      · cases (show v' = v from hs)
        rfl
      · obtain ⟨_, hg⟩ : ∃ spare, g.Recased apart spare g' := hs
        exact ⟨hg.name, hg.type⟩

/-- An instruction that makes no use of what is spare asks for the same. -/
theorem perform_recased {i i' : Instr} (hi : i.Avoids spare) (hii' : i.Rearranged i') :
    perform ⟨owner, types, m'⟩ f' env' i' = perform ⟨owner, types, m⟩ f env i := by
  rw [perform_rearranged hii']
  exact perform_congr hf.name hm.function? fun o ho => eval_recased hm hf henv (hi.operands o ho)

/-- Phis have the same values. -/
theorem mapM_phiValue_recased {source : Option Nat} (hsource : ∀ b ∈ source, b ∉ spare.blocks) {target : Nat}
    (htarget : target ∉ spare.blocks) :
    (f'.leadingPhis target).mapM (Machine.phiValue rules ⟨owner, types, m'⟩ f' env' source) =
      (f.leadingPhis target).mapM (Machine.phiValue rules ⟨owner, types, m⟩ f env source) := by
  rw [hf.leadingPhis htarget]
  refine mapM_congr fun i hi => ?_
  have havoids := hf.phis_avoid htarget i hi
  unfold Machine.phiValue
  cases hentry : Machine.entryFor (Machine.incomingOf i) source with
  | none =>
      dsimp only
      rw [hf.localName havoids.id, hf.name, hf.sourceName hsource]
  | some o =>
      obtain ⟨e, he, rfl⟩ := Option.map_eq_some_iff.mp hentry
      have heval : rules.eval ⟨owner, types, m'⟩ f' env' e.1 = rules.eval ⟨owner, types, m⟩ f env e.1 :=
        eval_recased hm hf henv (havoids.entries e (List.mem_of_find?_eq_some he))
      dsimp only
      rw [heval]

end

end Interpreted

/-! ## Frames -/

/-- Two frames are at one block, with the same to come but for how switches are written, and with the same
values but for those that are spare. -/
structure Frame.Recased (apart : Prop) (spare : Spare) (fr fr' : Frame) : Prop where
  function : fr.function.Recased apart spare fr'.function
  env : fr.env.Agrees spare.locals fr'.env
  block : fr'.block = fr.block
  outside : fr.block ∉ spare.blocks
  rest : Ssa.Recased apart spare fr.function fr'.function fr.rest fr'.rest

/-- A frame at the first instruction of a block. -/
def Frame.moveTo (fr : Frame) (t : Nat) : Frame := { fr with block := t, pc := 0 }

/-- A frame that is at a switch has an integer for it. -/
def Frame.SwitchesOnInts (p : Program) (fr : Frame) (mem : Memory) : Prop :=
  ∀ i v d cases, fr.current? = some i → i.op = .switch v d cases → ∃ x a mem',
    (Interpreted.eval p fr.function fr.env v).on mem = (.ok x, mem') ∧ x.int? = some a

/-- Two frames wait for one call, and are so related once it has returned. -/
def Frame.WaitsRecased (apart : Prop) (fr fr' : Frame) : Prop :=
  ∃ spare id, fr.pending = some id ∧ fr'.pending = some id ∧
    ∀ v, (fr.advance id v).Recased apart spare (fr'.advance id v)

/-- Two machines are at one place, or done with one value. -/
inductive Machine.State.Recased (apart : Prop) : Machine.State → Machine.State → Prop
  | running {spare : Spare} {fr fr' : Frame} {waiting waiting' : List Frame} :
      fr.Recased apart spare fr' → List.Forall₂ (Frame.WaitsRecased apart) waiting waiting' →
      Recased apart (.running fr waiting) (.running fr' waiting')
  | done (v : Value) : Recased apart (.done v) (.done v)

namespace Frame.Recased

variable {apart : Prop} {spare : Spare} {fr fr' : Frame} {i i' : Instr} {is is' : List Instr}

/-- Going on with a value. -/
theorem advance (h : fr.Recased apart spare fr') (hrest : fr.rest = i :: is) (hrest' : fr'.rest = i' :: is')
    (his : Ssa.Recased apart spare fr.function fr'.function is is') (id : Nat) (v : Value) :
    (fr.advance id v).Recased apart spare (fr'.advance id v) where
  function := h.function
  env := h.env.bind id v
  block := h.block
  outside := h.outside
  rest := by
    have hnext : (fr.advance id v).rest = is := (current_of_rest hrest).2
    have hnext' : (fr'.advance id v).rest = is' := (current_of_rest hrest').2
    rw [hnext, hnext']
    exact his

end Frame.Recased

namespace Machine

open Interpreted (rules eval)
open Effect (Paired)

variable {apart : Prop} {v : Value} {waiting waiting' : List Frame}

theorem leave_recased (h : List.Forall₂ (Frame.WaitsRecased apart) waiting waiting') :
    (leave v waiting).Recased apart (leave v waiting') := by
  cases h with
  | nil => exact .done v
  | @cons caller caller' _ _ hcaller hrest =>
      obtain ⟨spare, id, hid, hid', hnext⟩ := hcaller
      have hresume : caller.resume v = caller.advance id v := by rw [Frame.resume, hid]
      have hresume' : caller'.resume v = caller'.advance id v := by rw [Frame.resume, hid']
      rw [leave, leave, hresume, hresume']
      exact .running (hnext v) hrest

section

variable {owner : Nat} {types : TypeTable} {m m' : Module} {f f' : Function} {spare : Spare}
  {fr fr' : Frame} {mem : Memory} (hm : m.Recased apart m')
include hm

/-- Two frames go on at one block. -/
theorem jump_recased (hf : fr.function.Recased apart spare fr'.function)
    (henv : fr.env.Agrees spare.locals fr'.env) {source : Option Nat}
    (hsource : ∀ b ∈ source, b ∉ spare.blocks) {target : Nat} (htarget : target ∉ spare.blocks) :
    Paired alongside () (jump rules ⟨owner, types, m⟩ fr source target) mem
      (jump rules ⟨owner, types, m'⟩ fr' source target) mem fun _ => Frame.Recased apart spare := by
  unfold jump
  dsimp only
  rw [Interpreted.mapM_phiValue_recased hm hf henv hsource htarget]
  exact .same fun vs s _ =>
    .pure rfl ⟨hf, henv.bindAll vs, rfl, htarget, (hf.instrs target htarget).drop_isPhi⟩

/-- Two functions are entered. -/
theorem enter_recased (hf : f.Recased apart spare f') (args : List Value) :
    Paired alongside () (enter rules ⟨owner, types, m⟩ f args) mem (enter rules ⟨owner, types, m'⟩ f' args) mem
      fun _ => Frame.Recased apart spare := by
  unfold enter
  rw [hf.isDeclaration, hf.params, hf.name]
  split
  · exact .stop (.throw rfl _)
  · exact .same fun env s _ => jump_recased hm hf (.refl env) (fun b hb => by cases hb) hf.entry

theorem enterAt_recased (callee : Nat) (args : List Value) :
    Paired alongside () (enterAt rules ⟨owner, types, m⟩ callee args) mem
      (enterAt rules ⟨owner, types, m'⟩ callee args) mem
      fun _ fr fr' => ∃ spare, fr.Recased apart spare fr' := by
  unfold enterAt
  have hk := hm.function? callee
  generalize m.function? callee = x, m'.function? callee = y at hk
  cases hk with
  | none => exact .throw rfl _
  | some hf =>
      obtain ⟨spare, hf⟩ := hf
      exact (enter_recased hm hf args).mono fun _ _ _ _ h => ⟨spare, h⟩

/-! ## Steps -/

/-- Two frames that are at one instruction, but for its cases, take the same step. -/
theorem step_cons (hfr : fr.Recased apart spare fr') {i i' : Instr} {is is' : List Instr}
    (hi : i.Avoids spare) (hii' : i.Rearranged i')
    (his : Recased apart spare fr.function fr'.function is is')
    (hrest : fr.rest = i :: is) (hrest' : fr'.rest = i' :: is')
    (hwaiting : List.Forall₂ (Frame.WaitsRecased apart) waiting waiting') :
    Paired alongside () (step rules ⟨owner, types, m⟩ fr waiting) mem
      (step rules ⟨owner, types, m'⟩ fr' waiting') mem fun _ => State.Recased apart := by
  have hperform : rules.perform ⟨owner, types, m'⟩ fr'.function fr'.env i' = rules.perform _ _ _ _ :=
    Interpreted.perform_recased hm hfr.function hfr.env hi hii'
  have hadvance := hfr.advance hrest hrest' his i.id
  unfold step
  rw [(Frame.current_of_rest hrest).1, (Frame.current_of_rest hrest').1]
  dsimp only
  rw [hperform, hii'.id, hfr.block]
  refine .same fun signal s hon => ?_
  cases signal with
  | value v => exact .pure rfl (.running (hadvance v) hwaiting)
  | ret v => exact .pure rfl (leave_recased hwaiting)
  | goto t =>
      have ht : t ∉ spare.blocks := hi.targets t (Interpreted.perform_asks hon)
      refine .bind (jump_recased hm hfr.function hfr.env (fun b hb => ?_) ht)
        fun _ _ _ _ _ _ hs hnext => ?_
      · cases hb
        exact hfr.outside
      · cases hs
        exact .pure rfl (.running hnext hwaiting)
  | call c args =>
      refine .bind (enterAt_recased hm c args) fun _ inner inner' _ _ _ hs hinner => ?_
      cases hs
      obtain ⟨_, hinner⟩ := hinner
      exact .pure rfl (.running hinner (.cons ⟨spare, i.id, rfl, rfl, hadvance⟩ hwaiting))

end

/-! ## Tests -/

section

variable {p : Program} {fr : Frame} {x : Value} {a : Int} {mem : Memory}

theorem run_goto {i : Instr} {t : Nat} {mem₁ : Memory} (waiting : List Frame) (hi : fr.current? = some i)
    (hperform : (rules.perform p fr.function fr.env i).on mem = (.ok (.goto t), mem₁))
    (ht : fr.function.leadingPhis t = []) (n : Nat) :
    (run rules p (n + 1) (.running fr waiting)).on mem =
      (run rules p n (.running (fr.moveTo t) waiting)).on mem₁ := by
  have hjump : (jump rules p fr (some fr.block) t).on mem₁ = (.ok (fr.moveTo t), mem₁) := by
    rw [on_jump, ht]
    rfl
  rw [on_run_succ, on_of_stepped (.jumped hi hperform hjump)]

/-- A test leads to the label of its case if the value takes it, and on to the next test if not. -/
theorem run_test {v : Operand} {w z id b : Nat} {e : Int × Nat} (waiting : List Frame)
    (hrest : fr.rest = test v w z id e b) (hv : (eval p fr.function fr.env v).on mem = (.ok x, mem))
    (hx : x.int? = some a) (ht : fr.function.leadingPhis e.2 = []) (hb : fr.function.leadingPhis b = [])
    (n : Nat) :
    (run rules p (n + 2) (.running fr waiting)).on mem =
      (run rules p n (.running ((fr.advance z (.ofBool (takes x w e))).moveTo
        (if takes x w e then e.2 else b)) waiting)).on mem := by
  obtain ⟨hi, hnext⟩ := Frame.current_of_rest hrest
  have hequal : IntPred.apply fr.function.name .eq v.type (v.isSameLocal (caseOf w e).1) x
      (.int (Word.wrap w e.1)) = .ok (.ofBool (takes x w e)) := by
    have hone : x.isOne (v.isSameLocal (caseOf w e).1) (.int (Word.wrap w e.1)) = takes x w e := by
      rw [Value.isOne, hx, takes, Value.equals_int hx]
      exact decide_eq_decide.mpr eq_comm
    rw [IntPred.apply_equality rfl, hone]
    rfl
  have hperform := Interpreted.perform_icmp (i := ⟨z, .int 1, .icmp .eq v (caseOf w e).1⟩) rfl hv
    (Effect.on_pure (Value.int (Word.wrap w e.1)) mem)
  rw [hequal] at hperform
  have hrest₁ : (fr.advance z (.ofBool (takes x w e))).rest =
      [⟨id, .void, .condBr (.local z (.int 1)) e.2 b⟩] := hnext
  have hbranch : (rules.perform p fr.function (fr.env.bind z (.ofBool (takes x w e)))
      ⟨id, .void, .condBr (.local z (.int 1)) e.2 b⟩).on mem =
      (.ok (.goto (if takes x w e then e.2 else b)), mem) := by
    have hanswer : eval p fr.function (fr.env.bind z (.ofBool (takes x w e))) (.local z (.int 1)) =
        pure (.ofBool (takes x w e)) :=
      Interpreted.eval_local ((Env.lookup_bind _ _ _ _).trans (if_pos rfl))
    show (eval p fr.function (fr.env.bind z (.ofBool (takes x w e))) (.local z (.int 1)) >>= _).on mem = _
    rw [hanswer]
    cases takes x w e <;> rfl
  have hlabel : fr.function.leadingPhis (if takes x w e then e.2 else b) = [] := by
    split
    · exact ht
    · exact hb
  rw [on_run_succ, on_of_stepped (.bound hi hperform)]
  exact run_goto waiting (Frame.current_of_rest hrest₁).1 hbranch hlabel n

/-- Tests lead to the label of the case that is taken, and leave answers that are spare. -/
theorem run_tests {f : Function} {spare : Spare} {v : Operand} {w d : Nat} {es : List (Int × Nat)}
    {is : List Instr} (waiting : List Frame) (h : Tests f spare v w d es is) (hf : fr.function = f)
    (hrest : fr.rest = is)
    (hv : ∀ env, fr.env.Agrees spare.locals env → (eval p f env v).on mem = (.ok x, mem))
    (hx : x.int? = some a) (hlabels : ∀ l ∈ d :: es.map Prod.snd, f.leadingPhis l = []) :
    ∃ k next, next.function = f ∧ fr.env.Agrees spare.locals next.env ∧ next.block = chosen x d w es ∧
      next.pc = 0 ∧ ∀ n, (run rules p (n + k + 1) (.running fr waiting)).on mem =
        (run rules p n (.running next waiting)).on mem := by
  have hd : f.leadingPhis d = [] := hlabels d List.mem_cons_self
  induction h generalizing fr with
  | default id =>
      refine ⟨0, fr.moveTo d, hf, .refl _, rfl, rfl, fun n => ?_⟩
      exact run_goto waiting (Frame.current_of_rest hrest).1 rfl (hf ▸ hd) n
  | last z id e hz =>
      have he : f.leadingPhis e.2 = [] := hlabels e.2 (List.mem_cons_of_mem d List.mem_cons_self)
      have htest := run_test waiting hrest (hf ▸ hv _ (.refl _)) hx (hf ▸ he) (hf ▸ hd)
      refine ⟨1, (fr.advance z _).moveTo _, hf, .bind_spare hz _, ?_, rfl, htest⟩
      rw [chosen_cons]
      rfl
  | @next z id e es b hz htests ih =>
      have he : f.leadingPhis e.2 = [] := hlabels e.2 (List.mem_cons_of_mem d List.mem_cons_self)
      have hb : f.leadingPhis b = [] := htests.takeWhile_isPhi
      have htest := run_test waiting hrest (hf ▸ hv _ (.refl _)) hx (hf ▸ he) (hf ▸ hb)
      rw [chosen_cons]
      cases htakes : takes x w e with
      | true =>
          rw [htakes] at htest
          exact ⟨1, (fr.advance z (.ofBool true)).moveTo e.2, hf, .bind_spare hz _, rfl, rfl, htest⟩
      | false =>
          rw [htakes] at htest
          have hagrees : fr.env.Agrees spare.locals (fr.env.bind z (.ofBool false)) := .bind_spare hz _
          have hmoved : ((fr.advance z (.ofBool false)).moveTo b).function = f := hf
          have hrest' : ((fr.advance z (.ofBool false)).moveTo b).rest = f.instrs b := by
            rw [← hf]
            rfl
          obtain ⟨k, next, hnext, henv, hblock, hpc, hrun⟩ := ih hmoved hrest'
            (fun env henv => hv env (hagrees.trans henv)) fun l hl => hlabels l <| by
              rcases List.mem_cons.mp hl with rfl | hl
              · exact List.mem_cons_self
              · exact List.mem_cons_of_mem d (List.mem_cons_of_mem e.2 hl)
          exact ⟨k + 2, next, hnext, hagrees.trans henv, hblock, hpc,
            fun n => (htest (n + k + 1)).trans (hrun n)⟩

/-- An operand that comes to an integer makes no cell. -/
theorem eval_int {f : Function} {env : Env} {o : Operand} {mem' : Memory}
    (h : (eval p f env o).on mem = (.ok x, mem')) (hx : x.int? = some a) : mem' = mem := by
  unfold eval at h
  split at h
  · rw [Exec.on_lift] at h
    exact (congrArg Prod.snd h).symm
  · split at h
    · cases h
      rfl
    · cases h
  · split at h
    · obtain ⟨_, _, -, hcell⟩ := Effect.on_bind_ok h
      split at hcell
      · cases hcell
        cases hx
      · obtain ⟨_, _, -, hcell⟩ := Effect.on_bind_ok hcell
        obtain ⟨_, _, -, hcell⟩ := Effect.on_bind_ok hcell
        obtain ⟨_, _, -, hcell⟩ := Effect.on_bind_ok hcell
        cases hcell
        cases hx
    · cases h
      rfl
    · cases h

end

/-- After one step, and as many more as are said, a machine is where an outcome says. -/
def Leads (p : Program) (more : Nat) (fr : Frame) (waiting : List Frame) (mem : Memory)
    (r : Except Failure State) (mem₁ : Memory) : Prop :=
  ∀ n, (run rules p (n + more + 1) (.running fr waiting)).on mem =
    match r with
    | .error e => (.error e, mem₁)
    | .ok st => (run rules p n st).on mem₁

theorem leads_of_step {fr : Frame} {mem mem₁ : Memory} {r : Except Failure State}
    (h : (step rules p fr waiting).on mem = (r, mem₁)) : Leads p 0 fr waiting mem r mem₁ := by
  intro n
  rw [Nat.add_zero, on_run_succ, h]
  cases r <;> rfl

/-! ## Runs -/

section

variable {owner : Nat} {types : TypeTable} {m m' : Module} (hm : m.Recased apart m')
include hm

/-- Where the one machine takes a step, the other takes one to the same end, or takes tests. -/
theorem step_recased {spare : Spare} {fr fr' : Frame} {mem mem₁ : Memory} {r : Except Failure State}
    (hfr : fr.Recased apart spare fr')
    (hwaiting : List.Forall₂ (Frame.WaitsRecased apart) waiting waiting')
    (hints : apart → fr.SwitchesOnInts ⟨owner, types, m⟩ mem)
    (hstep : (step rules ⟨owner, types, m⟩ fr waiting).on mem = (r, mem₁)) :
    ∃ more, (¬apart → more = 0) ∧ ∃ r', Agree (State.Recased apart) r r' ∧
      Leads ⟨owner, types, m'⟩ more fr' waiting' mem r' mem₁ := by
  have hsame (h : Paired alongside () (step rules ⟨owner, types, m⟩ fr waiting) mem
      (step rules ⟨owner, types, m'⟩ fr' waiting') mem fun _ => State.Recased apart) :
      ∃ more, (¬apart → more = 0) ∧ ∃ r', Agree (State.Recased apart) r r' ∧
        Leads ⟨owner, types, m'⟩ more fr' waiting' mem r' mem₁ := by
    obtain ⟨_, -, hmem, hagree⟩ := h
    rcases hstep' : (step rules ⟨owner, types, m'⟩ fr' waiting').on mem with ⟨r', mem₁'⟩
    rw [hstep, hstep'] at hagree hmem
    cases (show mem₁ = mem₁' from hmem)
    exact ⟨0, fun _ => rfl, r', hagree, leads_of_step hstep'⟩
  have hrest := hfr.rest
  generalize his : fr.rest = is, his' : fr'.rest = is' at hrest
  cases hrest with
  | nil =>
      refine hsame ?_
      unfold step
      rw [Frame.ended_of_rest his, Frame.ended_of_rest his', hfr.block, hfr.function.name,
        hfr.function.blockName fr.block hfr.outside]
      exact .throw rfl _
  | cons hi hii' hrest => exact hsame (step_cons hm hfr hi hii' hrest his his' hwaiting)
  | @tested i v d w es _ hapart hi hop hlabels htests =>
      have hcurrent := (Frame.current_of_rest his).1
      obtain ⟨x, a, mem', hx, ha⟩ := hints hapart i v d _ hcurrent hop
      cases eval_int hx ha
      have hvalue (env : Env) (henv : fr'.env.Agrees spare.locals env) :
          (eval ⟨owner, types, m'⟩ fr'.function env v).on mem = (.ok x, mem) := by
        have hv : v.Avoids spare.locals := hi.operands v (by rw [hop]; exact List.mem_cons_self)
        rw [Interpreted.eval_recased hm hfr.function (hfr.env.trans henv) hv]
        exact hx
      have htargets : ∀ l ∈ d :: es.map Prod.snd, l ∉ spare.blocks := by
        have hlist : i.op.targets = d :: es.map Prod.snd := by
          rw [hop]
          simp [OpOver.targets, caseOf]
        exact hlist ▸ hi.targets
      have hlabels' : ∀ l ∈ d :: es.map Prod.snd, fr'.function.leadingPhis l = [] :=
        fun l hl => (hfr.function.leadingPhis (htargets l hl)).trans (hlabels l hl)
      obtain ⟨more, next, hfunction, henv, hblock, hpc, hrun⟩ :=
        run_tests waiting' htests rfl his' hvalue ha hlabels'
      have hlabel := chosen_mem x d w es
      have hgoes : (step rules ⟨owner, types, m⟩ fr waiting).on mem =
          (.ok (.running (fr.moveTo (chosen x d w es)) waiting), mem) := by
        rw [Interpreted.step_switch waiting hcurrent hop hx, Effect.on_bind, on_jump, hlabels _ hlabel]
        rfl
      cases hgoes.symm.trans hstep
      have hrest' : next.rest = fr'.function.instrs (chosen x d w es) := by
        rw [Frame.rest, hfunction, hblock, hpc, List.drop_zero]
      have hmoved : (fr.moveTo (chosen x d w es)).Recased apart spare next := {
        function := hfunction ▸ hfr.function
        env := hfr.env.trans henv
        block := hblock
        outside := htargets _ hlabel
        rest := by
          rw [hrest', hfunction]
          exact hfr.function.instrs _ (htargets _ hlabel) }
      exact ⟨more, fun h => absurd hapart h, .ok (.running next waiting'), .ok (.running hmoved hwaiting), hrun⟩

/-- However many steps the one machine takes, there is a number for the other, not less, after which it
has come to the same. -/
theorem run_recased {f : Function} {args : List Value} {mem₀ mem : Memory} {st st' : State}
    (hints : apart → ∀ fr waiting mem, Reaches rules ⟨owner, types, m⟩ f args mem₀ (.running fr waiting) mem →
      fr.SwitchesOnInts ⟨owner, types, m⟩ mem)
    (hst : Reaches rules ⟨owner, types, m⟩ f args mem₀ st mem) (hrecased : st.Recased apart st')
    (steps : Nat) : ∃ more, (¬apart → more = 0) ∧
      (run rules ⟨owner, types, m'⟩ (steps + more) st').on mem =
        (run rules ⟨owner, types, m⟩ steps st).on mem := by
  induction steps generalizing st st' mem with
  | zero =>
      refine ⟨0, fun _ => rfl, ?_⟩
      cases hrecased with
      | running => rfl
      | done v => rw [run_done, run_done]
  | succ steps ih =>
      cases hrecased with
      | done v => exact ⟨0, fun _ => rfl, by rw [run_done, run_done]⟩
      | @running _ fr fr' waiting waiting' hfr hwaiting =>
          rcases hstep : (step rules ⟨owner, types, m⟩ fr waiting).on mem with ⟨r, mem₁⟩
          obtain ⟨more, hmore, r', hagree, hleads⟩ :=
            step_recased hm hfr hwaiting (fun h => hints h fr waiting mem hst) hstep
          rw [on_run_succ, hstep]
          cases hagree with
          | error e =>
              refine ⟨more, hmore, ?_⟩
              rw [show steps + 1 + more = steps + more + 1 by omega, hleads]
          | @ok st st' hrecased =>
              obtain ⟨more', hmore', hrun⟩ := ih (.stepped hst hstep) hrecased
              refine ⟨more + more', fun h => by rw [hmore h, hmore' h], ?_⟩
              rw [show steps + 1 + (more + more') = (steps + more') + more + 1 by omega, hleads]
              exact hrun

/-- So do calls. -/
theorem call_recased {f f' : Function} {spare : Spare} {args : List Value} {mem : Memory}
    (hf : f.Recased apart spare f')
    (hints : apart → ∀ fr waiting mem', Reaches rules ⟨owner, types, m⟩ f args mem (.running fr waiting) mem' →
      fr.SwitchesOnInts ⟨owner, types, m⟩ mem')
    (steps : Nat) : ∃ more, (¬apart → more = 0) ∧
      (call rules ⟨owner, types, m'⟩ (steps + more) f' args).on mem =
        (call rules ⟨owner, types, m⟩ steps f args).on mem := by
  have hentered : Paired alongside () (enter rules ⟨owner, types, m⟩ f args) mem
      (enter rules ⟨owner, types, m'⟩ f' args) mem fun _ => Frame.Recased apart spare :=
    enter_recased hm hf args
  obtain ⟨_, -, hmem, hagree⟩ := hentered
  rcases henter : (enter rules ⟨owner, types, m⟩ f args).on mem with ⟨r, mem₁⟩
  rcases henter' : (enter rules ⟨owner, types, m'⟩ f' args).on mem with ⟨r', mem₁'⟩
  rw [henter, henter'] at hmem hagree
  cases (show mem₁ = mem₁' from hmem)
  dsimp only at hagree
  cases hagree with
  | error e =>
      refine ⟨0, fun _ => rfl, ?_⟩
      rw [call, call, Effect.on_bind_of_error henter, Effect.on_bind_of_error henter']
  | ok hfr =>
      obtain ⟨more, hmore, hrun⟩ := run_recased hm hints (.entered henter) (.running hfr .nil) steps
      refine ⟨more, hmore, ?_⟩
      rw [call, call, Effect.on_bind_of_ok henter, Effect.on_bind_of_ok henter']
      exact hrun

end

end Machine

/-! ## Switches -/

open Interpreted (rules eval)
open Machine (jump step call Reaches State)

/-- **Switches select by congruence.**  At a switch, a word goes on at the label of the first case with a
number that is congruent to it at its width, and at the default if there is none.  So a module that has
cases of which no two are congruent in another order, or cases of other numbers that are congruent, runs
alike, whatever the values.  And if a module has tests in place of switches, runs that come to an integer
at every switch end alike, and so never do or both do; the tests take more steps. -/
theorem Switch.by_congruence :
    (∀ (p : Program) (fr : Frame) (waiting : List Frame) (i : Instr) (v : Operand) (d w : Nat)
        (es : List (Int × Nat)) (x : Value) (a : Int) (mem mem₁ : Memory),
      fr.current? = some i → i.op = .switch v d (es.map (caseOf w)) →
      (eval p fr.function fr.env v).on mem = (.ok x, mem₁) → x.int? = some a → 0 ≤ a → a < 2 ^ w →
      (step rules p fr waiting).on mem =
        (do
          let next ← jump rules p fr (some fr.block) (firstCongruent a d w es)
          return .running next waiting : Exec State).on mem₁) ∧
    (∀ m m' : Module, m.Recased False m' → ∀ owner types k f f', m.function? k = some f →
      m'.function? k = some f' → ∀ steps args mem,
      (call rules ⟨owner, types, m'⟩ steps f' args).on mem =
        (call rules ⟨owner, types, m⟩ steps f args).on mem) ∧
    ∀ m m' : Module, m.Recased True m' → ∀ owner types k f f', m.function? k = some f →
      m'.function? k = some f' → ∀ args mem,
      (∀ fr waiting mem', Reaches rules ⟨owner, types, m⟩ f args mem (.running fr waiting) mem' →
        fr.SwitchesOnInts ⟨owner, types, m⟩ mem') →
      (∀ steps, ∃ more, (call rules ⟨owner, types, m'⟩ (steps + more) f' args).on mem =
        (call rules ⟨owner, types, m⟩ steps f args).on mem) ∧
      ∀ r mem₁, r ≠ .error .stepLimit →
        ((∃ steps, (call rules ⟨owner, types, m'⟩ steps f' args).on mem = (r, mem₁)) ↔
          ∃ steps, (call rules ⟨owner, types, m⟩ steps f args).on mem = (r, mem₁)) := by
  have hfunction {apart : Prop} {m m' : Module} (hm : m.Recased apart m') {k : Nat} {f f' : Function}
      (hf : m.function? k = some f) (hf' : m'.function? k = some f') :
      ∃ spare, f.Recased apart spare f' := by
    have hk := hm.function? k
    rw [hf, hf'] at hk
    cases hk with
    | some hff' => exact hff'
  refine ⟨fun p fr waiting i v d w es x a mem mem₁ hi hop hx ha hnonneg hlt => ?_,
    fun m m' hm owner types k f f' hf hf' steps args mem => ?_,
    fun m m' hm owner types k f f' hf hf' args mem hints => ?_⟩
  · rw [← chosen_of_int? ha hnonneg hlt]
    exact Interpreted.step_switch waiting hi hop hx
  · obtain ⟨spare, hff'⟩ := hfunction hm hf hf'
    obtain ⟨more, hmore, hcall⟩ : ∃ more, (¬False → more = 0) ∧
        (call rules ⟨owner, types, m'⟩ (steps + more) f' args).on mem =
          (call rules ⟨owner, types, m⟩ steps f args).on mem :=
      Machine.call_recased hm hff' False.elim steps
    rwa [hmore not_false, Nat.add_zero] at hcall
  · obtain ⟨spare, hff'⟩ := hfunction hm hf hf'
    have hcall (steps : Nat) : ∃ more, (¬True → more = 0) ∧
        (call rules ⟨owner, types, m'⟩ (steps + more) f' args).on mem =
          (call rules ⟨owner, types, m⟩ steps f args).on mem :=
      Machine.call_recased hm hff' (fun _ => hints) steps
    refine ⟨fun steps => (hcall steps).imp fun _ h => h.2, fun r mem₁ hr => ⟨?_, ?_⟩⟩
    · rintro ⟨steps, hsteps⟩
      -- with still more steps the other machine comes to the same, so the first one has ended by then
      obtain ⟨n, hn⟩ := Machine.call_of_eval (Machine.eval_of_call hsteps hr)
      obtain ⟨more, -, hmore⟩ := hcall n
      exact ⟨n, hmore.symm.trans (hn more)⟩
    · rintro ⟨steps, hsteps⟩
      obtain ⟨more, -, hmore⟩ := hcall steps
      exact ⟨steps + more, hmore.trans hsteps⟩

/-! ### A switch, the same with other numbers, and tests in its place -/

namespace Switch

/-- A function of an integer of eight digits that begins as given, has a block that returns ten and one
that returns twenty, and may have others. -/
def selecting (is : List Instr) (others : Array Block) : Function :=
  { Function.declare "f" (.int 8) [.int 8] false with
    blocks := #[⟨"e", is⟩,
      ⟨"a", [⟨1, .void, .ret (some (.const (.int (.int 8) 10)))⟩]⟩,
      ⟨"b", [⟨2, .void, .ret (some (.const (.int (.int 8) 20)))⟩]⟩] ++ others }

/-- A module of such a function. -/
def selection (is : List Instr) (others : Array Block) : Module := ⟨"m", #[.function (selecting is others)]⟩

/-- A switch on the parameter, with ten by default. -/
def select (es : List (Int × Nat)) : List Instr :=
  [⟨3, .void, .switch (.local 0 (.int 8)) 1 (es.map (caseOf 8))⟩]

/-- The test for the one case in place of such a switch, and the block for the other. -/
def firstTest : List Instr := test (.local 0 (.int 8)) 8 4 5 (3, 1) 3

def otherTest : Array Block := #[⟨"t", test (.local 0 (.int 8)) 8 6 7 (-1, 2) 1⟩]

theorem selection_renumbered :
    (selection (select [(3, 1), (-1, 2)]) #[]).Recased False (selection (select [(259, 1), (255, 2)]) #[]) := by
  have hnumbers : Rearranged 8 [(3, 1), (-1, 2)] [(259, 1), (255, 2)] :=
    .renumbered (.cons ⟨by decide, rfl⟩ (.cons ⟨by decide, rfl⟩ .nil))
  refine ⟨fun k => ?_⟩
  match k with
  | 0 =>
      refine .some ⟨.nothing, {
        name := rfl
        type := rfl
        locals := fun _ _ => rfl
        isDeclaration := rfl
        entry := Set.notMem_empty 0
        blockName := fun b _ => ?_
        instrs := fun b _ => ?_ }⟩
      · match b with
        | 0 | 1 | 2 | _ + 3 => rfl
      · match b with
        | 0 => exact .cons (.of_nothing _) (.inr ⟨_, _, _, _, _, rfl, rfl, hnumbers⟩) .nil
        | 1 | 2 => exact .cons (.of_nothing _) (.inl rfl) .nil
        | _ + 3 => exact .nil
  | _ + 1 => exact .none

/-- What the tests need besides. -/
def forTests : Spare := ⟨{4, 6}, {3}⟩

theorem selection_tested :
    (selection (select [(3, 1), (-1, 2)]) #[]).Recased True (selection firstTest otherTest) := by
  refine ⟨fun k => ?_⟩
  match k with
  | 0 =>
      have htests : Tests (selecting firstTest otherTest) forTests (.local 0 (.int 8)) 8 1
          [(3, 1), (-1, 2)] firstTest :=
        .next 4 5 (3, 1) 3 (.inl rfl) (.last 6 7 (-1, 2) (.inr rfl))
      refine .some ⟨forTests, {
        name := rfl
        type := rfl
        locals := fun _ _ => rfl
        isDeclaration := rfl
        entry := by simp [forTests]
        blockName := fun b hb => ?_
        instrs := fun b hb => ?_ }⟩
      · match b with
        | 0 | 1 | 2 | _ + 4 => rfl
        | 3 => exact absurd rfl hb
      · match b with
        | 0 =>
            refine .tested trivial ?_ rfl ?_ htests
            · constructor <;> simp [forTests, OpOver.operands, OpOver.targets, caseOf, Operand.Avoids,
                Machine.incomingOf]
            · intro l hl
              have hl : l = 1 ∨ l = 2 := by simpa using hl
              rcases hl with rfl | rfl <;> rfl
        | 1 | 2 =>
            refine .cons ?_ (.inl rfl) .nil
            constructor <;> simp [forTests, OpOver.operands, OpOver.targets, Operand.Avoids,
              Machine.incomingOf]
        | 3 => exact absurd rfl hb
        | _ + 4 => exact .nil
  | _ + 1 => exact .none

/-- The frames of such a function on 255. -/
def selectingAt (block : Nat) : Frame :=
  ⟨selecting (select [(3, 1), (-1, 2)]) #[], [(0, .int 255)], block, 0, none⟩

theorem reaches_selecting {st : State} {mem : Memory}
    (h : Reaches rules ⟨0, [], selection (select [(3, 1), (-1, 2)]) #[]⟩
      (selecting (select [(3, 1), (-1, 2)]) #[]) [.int 255] .empty st mem) :
    mem = .empty ∧ (st = .running (selectingAt 0) [] ∨ st = .running (selectingAt 2) [] ∨
      st = .done (.int 20)) := by
  induction h with
  | entered henter =>
      cases henter
      exact ⟨rfl, .inl rfl⟩
  | stepped _ hstep ih =>
      obtain ⟨rfl, hst | hst | hst⟩ := ih
      · cases hst
        cases hstep
        exact ⟨rfl, .inr (.inl rfl)⟩
      · cases hst
        cases hstep
        exact ⟨rfl, .inr (.inr rfl)⟩
      · cases hst

theorem switchesOnInts_selecting (fr : Frame) (waiting : List Frame) (mem : Memory)
    (h : Reaches rules ⟨0, [], selection (select [(3, 1), (-1, 2)]) #[]⟩
      (selecting (select [(3, 1), (-1, 2)]) #[]) [.int 255] .empty (.running fr waiting) mem) :
    fr.SwitchesOnInts ⟨0, [], selection (select [(3, 1), (-1, 2)]) #[]⟩ mem := by
  intro i v d cases' hi hop
  obtain ⟨rfl, hst | hst | hst⟩ := reaches_selecting h
  · cases hst
    cases hi
    cases hop
    exact ⟨.int 255, 255, .empty, rfl, rfl⟩
  · cases hst
    cases hi
    cases hop
  · cases hst

/-- For 255, which is minus one, the second case is taken; with other numbers and with tests, too. -/
theorem by_congruence_at_minus_one :
    (∀ waiting, (step rules ⟨0, [], selection (select [(3, 1), (-1, 2)]) #[]⟩ (selectingAt 0) waiting).on .empty =
      (.ok (.running (selectingAt 2) waiting), .empty)) ∧
    (call rules ⟨0, [], selection (select [(259, 1), (255, 2)]) #[]⟩ 2
        (selecting (select [(259, 1), (255, 2)]) #[]) [.int 255]).on .empty = (.ok (.int 20), .empty) ∧
    ∃ steps, (call rules ⟨0, [], selection firstTest otherTest⟩ steps
        (selecting firstTest otherTest) [.int 255]).on .empty = (.ok (.int 20), .empty) := by
  obtain ⟨hstep, hrenumbered, htested⟩ := Switch.by_congruence
  have hcall : (call rules ⟨0, [], selection (select [(3, 1), (-1, 2)]) #[]⟩ 2
      (selecting (select [(3, 1), (-1, 2)]) #[]) [.int 255]).on .empty = (.ok (.int 20), .empty) := rfl
  have heval : (eval ⟨0, [], selection (select [(3, 1), (-1, 2)]) #[]⟩ (selectingAt 0).function
      (selectingAt 0).env (.local 0 (.int 8))).on .empty = (.ok (.int 255), .empty) := rfl
  refine ⟨fun waiting => ?_, ?_, ?_⟩
  · exact hstep _ _ waiting _ _ 1 8 [(3, 1), (-1, 2)] _ 255 _ _ rfl rfl heval rfl (by decide) (by decide)
  · exact (hrenumbered _ _ selection_renumbered 0 [] 0 _ _ rfl rfl 2 [.int 255] .empty).trans hcall
  · have hends := (htested _ _ selection_tested 0 [] 0 _ _ rfl rfl [.int 255] .empty
      switchesOnInts_selecting).2 (.ok (.int 20)) .empty (by simp)
    exact hends.mpr ⟨2, hcall⟩

end Switch

end Ssa

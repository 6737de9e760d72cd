/-
# `Ssa.Proofs.Exec.Preserved` — every state of a run fits

A frame fits if what it has computed fits the types of its function.  The frames that wait fit, each
waits for a call of the type that the function above it returns, and the last of them returns what
the whole run is to return.

**Proved here.**

    arguments that can be brought to the parameters  ⟹  the entered frame fits     (`enter_meets`)
    a frame that fits, a sound memory                ⟹  so after a jump, a step      (`jump_meets`, `step_meets`)
    every state that a run of a typed module reaches fits                           (`reaches_fits`)
-/
import Ssa.Proofs.Exec.Sound
import Ssa.Proofs.Exec.Steps

namespace Ssa

/-- A module in which everything is typed. -/
structure Module.IsTyped (m : Module) : Prop where
  params : ∀ k f, m.function? k = some f →
    ∀ (j : Nat) t, f.params[j]? = some t → ∃ l, f.locals[j]? = some l ∧ l.type = t
  instrs : ∀ k f, m.function? k = some f → ∀ b, ∀ i ∈ f.instrs b, i.IsTyped m f
  initializers : m.InitializersFit

/-- No instruction of a module takes an integer for a pointer, unless the regime knows of it. -/
def Module.AddressesAllowed (m : Module) (R : Regime) : Prop :=
  ∀ k f, m.function? k = some f → ∀ b, ∀ i ∈ f.instrs b, i.op.makesAddress = true → R.addresses

/-! ## Environments -/

namespace Env

theorem lookup_bind (env : Env) (id : Nat) (v : Value) (k : Nat) :
    (env.bind id v).lookup k = if k = id then some v else env.lookup k := by
  have hfilter (env : Env) (hk : k ≠ id) :
      List.lookup k (env.filter fun e => e.1 != id) = env.lookup k := by
    induction env with
    | nil => rfl
    | cons e env ih =>
        obtain ⟨j, w⟩ := e
        by_cases hj : j = id
        · simp [hj, ih, List.lookup_cons, show (k == id) = false by simpa using hk]
        · simp [hj, ih, List.lookup_cons]
  show List.lookup k ((id, v) :: env.filter fun e => e.1 != id) = _
  rw [List.lookup_cons]
  by_cases hk : k = id
  · simp [hk]
  · simp [hk, show (k == id) = false by simpa using hk, hfilter env hk]

/-- A value that is found after values have been bound was one of them, or was there before. -/
theorem lookup_bindAll {env : Env} {vs : List (Nat × Value)} {k : Nat} {v : Value}
    (h : (env.bindAll vs).lookup k = some v) : (k, v) ∈ vs ∨ env.lookup k = some v := by
  induction vs generalizing env with
  | nil => exact .inr h
  | cons e vs ih =>
      have hrest : ((env.bind e.1 e.2).bindAll vs).lookup k = some v := h
      rcases ih hrest with hmem | hlook
      · exact .inl (List.mem_cons_of_mem _ hmem)
      · rw [lookup_bind] at hlook
        split at hlook
        · rename_i hk
          cases hlook
          exact .inl (by simp [hk])
        · exact .inr hlook

/-- A value that is bound is found. -/
theorem lookup_bindAll_isSome {env : Env} {vs : List (Nat × Value)} {k : Nat}
    (h : k ∈ vs.map Prod.fst ∨ (env.lookup k).isSome) : ((env.bindAll vs).lookup k).isSome := by
  induction vs generalizing env with
  | nil => exact h.resolve_left (by simp)
  | cons e vs ih =>
      show (((env.bind e.1 e.2).bindAll vs).lookup k).isSome
      refine ih ?_
      rw [lookup_bind]
      by_cases hk : k = e.1
      · exact .inr (by simp [hk])
      · simpa [hk] using h

end Env

/-- What an environment holds for the values of a function is as their types ask for. -/
def Env.Holds (P : Ty → Value → Prop) (f : Function) (env : Env) : Prop :=
  ∀ id v l, env.lookup id = some v → f.locals[id]? = some l → P l.type v

namespace Env.Holds

variable {P : Ty → Value → Prop} {f : Function} {env : Env}

theorem bind (h : env.Holds P f) {id : Nat} {v : Value} {l : Local}
    (hl : f.locals[id]? = some l) (hv : P l.type v) : (env.bind id v).Holds P f := by
  intro k w l' hk hl'
  rw [Env.lookup_bind] at hk
  split at hk
  · rename_i heq
    cases hk
    rw [heq, hl] at hl'
    cases hl'
    exact hv
  · exact h k w l' hk hl'

theorem bindAll (h : env.Holds P f) {vs : List (Nat × Value)}
    (hvs : ∀ e ∈ vs, ∃ l, f.locals[e.1]? = some l ∧ P l.type e.2) : (env.bindAll vs).Holds P f := by
  intro k v l hk hl
  rcases Env.lookup_bindAll hk with hmem | hlook
  · obtain ⟨l', hl', hv⟩ := hvs _ hmem
    rw [hl] at hl'
    cases hl'
    exact hv
  · exact h k v l hlook hl

end Env.Holds

namespace Regime

variable {R : Regime} {s : Storage} {f : Function} {env : Env}

theorem EnvFits.bind (h : R.EnvFits s f env) {id : Nat} {v : Value} {l : Local}
    (hl : f.locals[id]? = some l) (hv : R.Fits s l.type v) : R.EnvFits s f (env.bind id v) :=
  Env.Holds.bind (P := R.Fits s) h hl hv

theorem EnvFits.bindAll (h : R.EnvFits s f env) {vs : List (Nat × Value)}
    (hvs : ∀ e ∈ vs, ∃ l, f.locals[e.1]? = some l ∧ R.Fits s l.type e.2) :
    R.EnvFits s f (env.bindAll vs) :=
  Env.Holds.bindAll (P := R.Fits s) h hvs

end Regime

/-! ## Frames and states -/

/-- A frame is of a function of the module, and what it has computed fits. -/
structure Frame.Fits (R : Regime) (m : Module) (s : Storage) (fr : Frame) : Prop where
  member : ∃ k, m.function? k = some fr.function
  env : R.EnvFits s fr.function fr.env

/-- The frames that wait for a function that returns values of a type fit, and each waits for a
call of the type that is returned to it; in the end a value of the last type is returned. -/
def WaitsFit (R : Regime) (m : Module) (s : Storage) (last : Ty) : Ty → List Frame → Prop
  | t, [] => t = last
  | t, fr :: rest => fr.Fits R m s ∧
      (∃ id l, fr.pending = some id ∧ fr.function.locals[id]? = some l ∧ l.type = t) ∧
      WaitsFit R m s last fr.function.result rest

/-- A state of a run that is to return a value of a type fits. -/
def Machine.State.Fits (R : Regime) (m : Module) (last : Ty) (s : Storage) : Machine.State → Prop
  | .running fr waiting => fr.Fits R m s ∧ WaitsFit R m s last fr.function.result waiting
  | .done v => R.Fits s last v

section

variable {R : Regime} {m : Module} {s s' : Storage}

theorem Frame.Fits.mono {fr : Frame} (h : fr.Fits R m s) (hs : s.Extends s') : fr.Fits R m s' :=
  ⟨h.member, h.env.mono hs⟩

theorem WaitsFit.mono {last t : Ty} {waiting : List Frame} (h : WaitsFit R m s last t waiting)
    (hs : s.Extends s') : WaitsFit R m s' last t waiting := by
  induction waiting generalizing t with
  | nil => exact h
  | cons fr rest ih => exact ⟨h.1.mono hs, h.2.1, ih h.2.2⟩

/-- Where the machine is after a function returned a value of its type, it fits. -/
theorem leave_fits {last t : Ty} {v : Value} {waiting : List Frame}
    (hv : R.Fits s t v) (h : WaitsFit R m s last t waiting) :
    (Machine.leave v waiting).Fits R m last s := by
  cases waiting with
  | nil => exact (show t = last from h) ▸ hv
  | cons fr rest =>
      obtain ⟨hfr, ⟨id, l, hid, hl, rfl⟩, hrest⟩ := h
      have hresume : fr.resume v = fr.advance id v := by rw [Frame.resume, hid]
      show (fr.resume v).Fits R m s ∧ WaitsFit R m s last (fr.resume v).function.result rest
      rw [hresume]
      exact ⟨⟨hfr.member, hfr.env.bind hl hv⟩, hrest⟩

end

/-! ## Jumps -/

/-- The failures of a phi that is reached from a block are allowed. -/
def Instr.PhiAllowed (Err : Failure → Prop) (m : Module) (f : Function) (env : Env)
    (source : Option Nat) (i : Instr) : Prop :=
  match Machine.entryFor (Machine.incomingOf i) source with
  | some o => o.Allowed Err m f env
  | none => Err (.noIncoming (f.localName i.id) f.name (Machine.sourceName f source))

/-- The failures of entering a function are allowed. -/
structure Function.EntryAllowed (Err : Failure → Prop) (m : Module) (f : Function)
    (args : List Value) : Prop where
  declared : f.isDeclaration = true → Err (.noBody f.name)
  params : ∀ e, Machine.bindParams f.params args 0 = .error e → Err e
  phis : ∀ env, ∀ i ∈ f.leadingPhis 0, i.PhiAllowed Err m f env none

/-- The failures of a step of a frame are allowed. -/
structure Frame.StepAllowed (R : Regime) (Err : Failure → Prop) (p : Program)
    (fr : Frame) (mem : Memory) : Prop where
  ended : fr.current? = none →
    Err (.noTerminator (fr.function.blockName fr.block) fr.function.name)
  instr : ∀ i, fr.current? = some i → i.Allowed R Err p fr.function fr.env mem
  jump : ∀ i t, fr.current? = some i → t ∈ i.op.targets → ∀ j ∈ fr.function.leadingPhis t,
    j.PhiAllowed Err p.module fr.function fr.env (some fr.block)
  call : ∀ k g args s, p.module.function? k = some g → R.ArgsFit s g.params args →
    g.EntryAllowed Err p.module args

/-- Lists whose members agree in a view have the same views. -/
theorem map_eq_map_of_forall {α β γ : Type} {P : α → β → Prop} {as : List α} {bs : List β}
    {g : α → γ} {h : β → γ} (hP : List.Forall₂ P as bs) (hgh : ∀ a b, P a b → h b = g a) :
    bs.map h = as.map g := by
  induction hP with
  | nil => rfl
  | cons hab _ ih => rw [List.map_cons, List.map_cons, hgh _ _ hab, ih]

/-- An entry of a phi is one of its operands. -/
theorem Machine.mem_of_entryFor {i : Instr} {source : Option Nat} {o : Operand}
    (h : entryFor (incomingOf i) source = some o) :
    ∃ incoming b, i.op = .phi incoming ∧ (o, b) ∈ incoming ∧ source = some b := by
  obtain ⟨⟨o', b⟩, hfind, rfl⟩ := Option.map_eq_some_iff.mp h
  have hmem := List.mem_of_find?_eq_some hfind
  have hb : some b = source := by simpa using List.find?_some hfind
  unfold incomingOf at hmem
  split at hmem
  · exact ⟨_, b, ‹_›, hmem, hb.symm⟩
  · cases hmem

namespace Machine

open Exec (Meets)
open Interpreted (rules)

variable {R : Regime} {p : Program} {mem : Memory} {Err : Failure → Prop}

section

variable (hm : R.Sound p.module mem) (ht : p.module.IsTyped)
include hm ht

theorem phiValue_meets {f : Function} {env : Env} (henv : R.EnvFits mem.storage f env)
    {source : Option Nat} {i : Instr} (hi : i.IsTyped p.module f)
    (he : i.PhiAllowed Err p.module f env source) :
    Meets R p.module (phiValue rules p f env source i) mem
      (fun s e => e.1 = i.id ∧ R.Fits s i.type e.2) Err := by
  unfold phiValue
  unfold Instr.PhiAllowed at he
  split
  · rename_i o ho
    rw [ho] at he
    obtain ⟨incoming, b, hop, hmem, -⟩ := mem_of_entryFor ho
    have hvalue : o ∈ i.op.values := by
      rw [hop]
      exact List.mem_map_of_mem hmem
    have htype : o.type = i.type := (hop ▸ hi.rule : OpOver.Typed f i.type (.phi incoming)) _ hmem
    refine .bind (Interpreted.eval_meets hm henv ht.initializers (hi.known o hvalue) he)
      fun v mem₁ _ hm₁ _ hv => ?_
    exact .pure hm₁ ⟨rfl, htype ▸ hv⟩
  · rename_i ho
    rw [ho] at he
    exact .throw hm he

/-- After a jump the frame is at the head of the block, with its phis bound to what fits. -/
theorem jump_meets {fr : Frame} (hfr : fr.Fits R p.module mem.storage) {source : Option Nat}
    {target : Nat}
    (he : ∀ i ∈ fr.function.leadingPhis target,
      i.PhiAllowed Err p.module fr.function fr.env source) :
    Meets R p.module (jump rules p fr source target) mem
      (fun s next => next.Fits R p.module s ∧ ∃ vs : List (Nat × Value),
        vs.map Prod.fst = (fr.function.leadingPhis target).map Instr.id ∧
        next = { fr with
          env := fr.env.bindAll vs
          block := target
          pc := (fr.function.leadingPhis target).length }) Err := by
  obtain ⟨k, hk⟩ := hfr.member
  have htyped {i : Instr} (hi : i ∈ fr.function.leadingPhis target) :
      i.IsTyped p.module fr.function :=
    ht.instrs k _ hk target i ((List.takeWhile_sublist _).subset hi)
  unfold jump
  refine .bind (.mapM (T := fun (mem' : Memory) (i : Instr) (e : Nat × Value) =>
      e.1 = i.id ∧ R.Fits mem'.storage i.type e.2)
    (fun _ _ _ _ hs h => ⟨h.1, h.2.mono hs⟩) _ hm fun i hi mem₁ hm₁ hext =>
      phiValue_meets hm₁ ht (hfr.env.mono hext) (htyped hi) (he i hi))
    fun vs mem₁ _ hm₁ hext hvs => ?_
  refine .pure hm₁ ⟨⟨hfr.member, (hfr.env.mono hext).bindAll fun e hemem => ?_⟩, vs, ?_, rfl⟩
  · obtain ⟨hlen, hget⟩ := List.forall₂_iff_get.mp hvs
    obtain ⟨j, hj, rfl⟩ := List.getElem_of_mem hemem
    have hji : j < (fr.function.leadingPhis target).length := hlen ▸ hj
    obtain ⟨hid, hfit⟩ := hget j hji hj
    obtain ⟨l, hl, hlt⟩ := (htyped (List.getElem_mem hji)).bound
    exact ⟨l, hid ▸ hl, hlt ▸ hfit⟩
  · exact map_eq_map_of_forall hvs fun _ _ h => h.1

end

/-! ## Into a function -/

/-- What is bound to a parameter is the argument in its place, brought to its type. -/
theorem lookup_bindParams {ts : List Ty} {vs : List Value} {id k : Nat} {env : Env} {v : Value}
    (h : bindParams ts vs id = .ok env) (hk : env.lookup k = some v) :
    ∃ j t x, k = id + j ∧ ts[j]? = some t ∧ vs[j]? = some x ∧ x.normalize t = .ok v := by
  induction ts generalizing vs id env with
  | nil => cases h; cases hk
  | cons t ts ih =>
      cases vs with
      | nil => cases h; cases hk
      | cons x vs =>
          obtain ⟨y, hy, h⟩ := ok_of_bind h
          obtain ⟨rest, hrest, h⟩ := ok_of_bind h
          cases h
          rw [List.lookup_cons] at hk
          split at hk
          · rename_i heq
            cases hk
            exact ⟨0, t, x, eq_of_beq heq, rfl, rfl, hy⟩
          · obtain ⟨j, u, z, rfl, hu, hz, hn⟩ := ih hrest hk
            exact ⟨j + 1, u, z, by omega, hu, hz, hn⟩

/-- Each parameter that has an argument is bound. -/
theorem isSome_lookup_bindParams {ts : List Ty} {vs : List Value} {id j : Nat} {env : Env}
    (h : bindParams ts vs id = .ok env) (ht : j < ts.length) (hv : j < vs.length) :
    (env.lookup (id + j)).isSome := by
  induction ts generalizing vs id j env with
  | nil => cases ht
  | cons t ts ih =>
      cases vs with
      | nil => cases hv
      | cons x vs =>
          obtain ⟨y, hy, h⟩ := ok_of_bind h
          obtain ⟨rest, hrest, h⟩ := ok_of_bind h
          cases h
          rw [List.lookup_cons]
          cases j with
          | zero => simp
          | succ j =>
              have := ih hrest (Nat.lt_of_succ_lt_succ ht) (Nat.lt_of_succ_lt_succ hv)
              rw [show id + 1 + j = id + (j + 1) by omega] at this
              split
              · rfl
              · exact this

/-- A parameter that has an argument holds it, brought to its type. -/
theorem exists_lookup_of_bindParams {ts : List Ty} {vs : List Value} {env : Env} {k : Nat} {t : Ty} {x : Value}
    (h : bindParams ts vs 0 = .ok env) (ht : ts[k]? = some t) (hx : vs[k]? = some x) :
    ∃ v, x.normalize t = .ok v ∧ env.lookup k = some v := by
  have hbound := isSome_lookup_bindParams h (List.getElem?_eq_some_iff.mp ht).1
    (List.getElem?_eq_some_iff.mp hx).1
  rw [Nat.zero_add] at hbound
  obtain ⟨v, hv⟩ := Option.isSome_iff_exists.mp hbound
  obtain ⟨j, t', x', hj, ht', hx', hnormal⟩ := lookup_bindParams h hv
  rw [Nat.zero_add] at hj
  subst hj
  cases ht.symm.trans ht'
  cases hx.symm.trans hx'
  exact ⟨v, hnormal, hv⟩

/-- Arguments that can be brought to the types of the parameters are bound. -/
theorem bindParams_of_forall {ts : List Ty} {vs : List Value} (id : Nat)
    (h : ∀ (k : Nat) (t : Ty), ts[k]? = some t → ∃ x v, vs[k]? = some x ∧ x.normalize t = .ok v) :
    ∃ env, bindParams ts vs id = .ok env := by
  induction ts generalizing vs id with
  | nil => exact ⟨[], rfl⟩
  | cons t ts ih =>
      obtain ⟨x, v, hx, hv⟩ := h 0 t rfl
      cases vs with
      | nil => cases hx
      | cons y vs =>
          cases hx
          obtain ⟨env, henv⟩ := ih (id + 1) fun k u hu => h (k + 1) u hu
          exact ⟨(id, v) :: env, by simp [bindParams, hv, henv]; rfl⟩

/-- Arguments that fit can be brought to the types of the parameters. -/
theorem bindParams_of_argsFit {s : Storage} {ts : List Ty} {vs : List Value}
    (h : R.ArgsFit s ts vs) (id : Nat) : ∃ env, bindParams ts vs id = .ok env := by
  refine bindParams_of_forall id fun k t ht => ?_
  obtain ⟨x, hx, hfit⟩ := h k t ht
  obtain ⟨v, hv⟩ := Regime.normalize_of_fits hfit
  exact ⟨x, v, hx, hv⟩

/-- What the arguments are bound to fits the parameters. -/
theorem bindParams_fits {s : Storage} {f : Function} {args : List Value} {env : Env}
    (hparams : ∀ (j : Nat) t, f.params[j]? = some t → ∃ l, f.locals[j]? = some l ∧ l.type = t)
    (hargs : R.ArgsReady s f.params args) (h : bindParams f.params args 0 = .ok env) :
    R.EnvFits s f env := by
  intro k v l hk hl
  obtain ⟨j, t, x, rfl, ht, hx, hn⟩ := lookup_bindParams h hk
  obtain ⟨l', hl', rfl⟩ := hparams j t ht
  rw [Nat.zero_add, hl'] at hl
  cases hl
  rcases hargs j _ x ht hx with hi | hf | hfit
  · exact Regime.normalize_fits_scalar (.inl hi) hn
  · exact Regime.normalize_fits_scalar (.inr hf) hn
  · exact Regime.normalize_fits hfit hn

/-- The frame of a function that has been entered is at the head of its first block. -/
theorem enter_meets (hm : R.Sound p.module mem) (ht : p.module.IsTyped) {f : Function}
    (hf : ∃ k, p.module.function? k = some f) {args : List Value}
    (hargs : R.ArgsReady mem.storage f.params args)
    (he : f.EntryAllowed Err p.module args) :
    Meets R p.module (enter rules p f args) mem
      (fun s next => next.Fits R p.module s ∧ ∃ env vs, bindParams f.params args 0 = .ok env ∧
        vs.map Prod.fst = (f.leadingPhis 0).map Instr.id ∧
        next = ⟨f, env.bindAll vs, 0, (f.leadingPhis 0).length, none⟩) Err := by
  obtain ⟨k, hk⟩ := hf
  by_cases hd : f.isDeclaration = true
  · refine .of_on_eq ?_ (.throw hm (he.declared hd))
    rw [on_enter, if_pos hd, Effect.on_throw]
  · cases hbind : bindParams f.params args 0 with
    | error e =>
        refine .of_on_eq ?_ (.throw hm (he.params e hbind))
        rw [on_enter, if_neg hd, hbind, Effect.on_throw]
    | ok env =>
        have henv := bindParams_fits (ht.params k f hk) hargs hbind
        refine .of_on_eq (y := jump rules p ⟨f, env, 0, 0, none⟩ none 0) ?_ ?_
        · rw [on_enter, if_neg hd, hbind]
        · have hfr : (⟨f, env, 0, 0, none⟩ : Frame).Fits R p.module mem.storage := ⟨⟨k, hk⟩, henv⟩
          refine (jump_meets hm ht hfr fun i hi => he.phis env i hi).mono fun s next hnext => ?_
          obtain ⟨hfits, vs, hvs, rfl⟩ := hnext
          exact ⟨hfits, env, vs, rfl, hvs, rfl⟩

/-! ## Steps -/

/-- After a step the machine fits. -/
theorem step_meets (hm : R.Sound p.module mem) (ht : p.module.IsTyped)
    (ha : p.module.AddressesAllowed R) {last : Ty} {fr : Frame} {waiting : List Frame}
    (hst : (State.running fr waiting).Fits R p.module last mem.storage)
    (he : fr.StepAllowed R Err p mem) :
    Meets R p.module (step rules p fr waiting) mem (fun s st => st.Fits R p.module last s) Err := by
  obtain ⟨hfr, hwaits⟩ := hst
  obtain ⟨k, hk⟩ := hfr.member
  unfold step
  split
  · exact .throw hm (he.ended ‹_›)
  · rename_i i hi
    have hmem : i ∈ fr.function.instrs fr.block := List.mem_of_getElem? hi
    have htyped := ht.instrs k _ hk fr.block i hmem
    refine .bind (Interpreted.perform_meets hm hfr.env ht.initializers htyped
      (ha k _ hk fr.block i hmem) (he.instr i hi)) fun sig mem₁ _ hm₁ hext hsig => ?_
    have hfr₁ := hfr.mono hext
    have hwaits₁ := hwaits.mono hext
    obtain ⟨l, hl, hlt⟩ := htyped.bound
    cases sig with
    | value v => exact .pure hm₁ ⟨⟨hfr.member, hfr₁.env.bind hl (hlt ▸ hsig)⟩, hwaits₁⟩
    | goto t =>
        refine .bind (jump_meets hm₁ ht hfr₁ (he.jump i t hi hsig))
          fun next mem₂ _ hm₂ hext₂ hnext => ?_
        obtain ⟨hnext, vs, -, rfl⟩ := hnext
        exact .pure hm₂ ⟨hnext, hwaits₁.mono hext₂⟩
    | ret v => exact .pure hm₁ (leave_fits hsig hwaits₁)
    | call c args =>
        obtain ⟨g, hg, hresult, hargs⟩ := hsig
        have hat : enterAt rules p c args = enter rules p g args := by
          unfold enterAt
          rw [hg]
        dsimp only
        rw [hat]
        refine .bind (enter_meets hm₁ ht ⟨c, hg⟩ hargs.ready (he.call c g args _ hg hargs))
          fun inner mem₂ _ hm₂ hext₂ hinner => ?_
        obtain ⟨hinner, env, vs, -, -, rfl⟩ := hinner
        exact .pure hm₂ ⟨hinner, ⟨hfr.member, (hfr₁.mono hext₂).env⟩,
          ⟨i.id, l, rfl, hl, hlt.trans hresult.symm⟩, hwaits₁.mono hext₂⟩

end Machine

end Ssa

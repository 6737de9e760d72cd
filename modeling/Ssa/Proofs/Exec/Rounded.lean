/-
# `Ssa.Proofs.Exec.Rounded` — every datum of a run is kept in its format

Wherever a datum comes to stand in a run, under the number of a value, in a cell or as a result, it is in
the format in which data of the type that is written there are kept.  What the types are is known from
`reaches_fits`; here it is said what comes of the data, one lemma for each thing that the machine does.

**Proved here.**

    an operand, an instruction come to what is kept                        (`eval_kept`, `compute_kept`)
    a jump, an entry bind what is kept                                      (`jump_kept`, `enter_kept`)
    no step puts anything else into a cell or a frame                      (`step_keeps`, `step_kept`)
    every state of a run, every memory of an engine                        (`reaches_kept`, `ranOn_kept`)
-/
import Ssa.Proofs.Exec.Contents
import Ssa.Proofs.Exec.Kept
import Ssa.Proofs.Exec.Reached

namespace Ssa

/-! ## What is kept -/

/-- The constants of a module that are data are doubles. -/
structure Module.OfDoubles (m : Module) : Prop where
  operands : ∀ k f, m.function? k = some f → ∀ b, ∀ i ∈ f.instrs b, ∀ c,
    Operand.const c ∈ i.op.values → c.IsDouble
  initializers : ∀ i x c, m.variableAt? i = some x → x.init = some (.const c) → c.IsDouble

/-- The cells of a memory that are known hold what is kept in their types. -/
def Memory.Keeps (wide : Prop) (known : Nat → Prop) (mem : Memory) : Prop :=
  ∀ id c, known id → mem.storage.cell? id = some c → c.value.IsKept wide c.type

/-- What a frame has computed is kept in the types of its values. -/
def Frame.Keeps (wide : Prop) (fr : Frame) : Prop :=
  fr.env.Holds (fun t v => v.IsKept wide t) fr.function

/-- What the frames of a machine have computed is kept, and what it has come to is kept in a type. -/
def Machine.State.Keeps (wide : Prop) (last : Ty) : Machine.State → Prop
  | .running fr waiting => ∀ g ∈ fr :: waiting, g.Keeps wide
  | .done v => v.IsKept wide last

/-- What a machine leaves to the frame that waits is kept. -/
theorem Machine.leave_keeps {R : Regime} {m : Module} {s : Storage} {wide : Prop} {last t : Ty}
    {v : Value} {waiting : List Frame} (hv : v.IsKept wide t) (hfits : WaitsFit R m s last t waiting)
    (h : ∀ g ∈ waiting, g.Keeps wide) : (leave v waiting).Keeps wide last := by
  cases waiting with
  | nil => exact (show t = last from hfits) ▸ hv
  | cons fr rest =>
      obtain ⟨-, ⟨id, l, hid, hl, rfl⟩, -⟩ := hfits
      have hresume : fr.resume v = fr.advance id v := by rw [Frame.resume, hid]
      intro g hg
      rw [hresume] at hg
      rcases List.mem_cons.mp hg with rfl | hg
      · exact (h fr (List.mem_cons_self ..)).bind hl hv
      · exact h g (List.mem_cons_of_mem _ hg)

theorem Cell.IsFirst.isKept {m : Module} {wide : Prop} (hinit : m.InitializersFit)
    (hd : wide → m.OfDoubles) {c : Cell} (h : c.IsFirst m) : c.value.IsKept wide c.type := by
  rcases h with hzero | ⟨i, x, function, hx, ht, hv⟩
  · rw [hzero]
    exact Value.isKept_zero
  · have hvar := Interpreted.variableAt_of_symbol hx
    rw [ht]
    exact Interpreted.initialValue_kept (fun c => hinit i x c hvar)
      (fun c hc hw => (hd hw).initializers i x c hvar hc) hv

/-- Cells that are made hold what is kept. -/
theorem Memory.Keeps.grown {m : Module} {wide : Prop} {known : Nat → Prop} {mem mem' : Memory}
    (h : mem.Keeps wide known) (hinit : m.InitializersFit) (hd : wide → m.OfDoubles)
    (hgrown : mem.Grown m mem') : mem'.Keeps wide known := by
  intro id c hk hc
  cases hc' : mem.storage.cell? id with
  | none => exact (hgrown.made id c hc' hc).isKept hinit hd
  | some c' =>
      cases (hgrown.kept id c' hc').symm.trans hc
      exact h id c hk hc'

theorem Memory.Keeps.write {wide : Prop} {known : Nat → Prop} {mem : Memory} {id : Nat} {v : Value}
    (h : mem.Keeps wide known)
    (hv : ∀ c, mem.storage.cell? id = some c → v.IsKept wide c.type) :
    Memory.Keeps wide known { mem with storage := mem.storage.write id v } := by
  intro k c hk hc
  rw [Storage.cell?_write] at hc
  split at hc
  · obtain ⟨c', hc', rfl⟩ := Option.map_eq_some_iff.mp hc
    rename_i heq
    exact hv c' (heq ▸ hc')
  · exact h k c hk hc

/-! ## Instructions -/

namespace Interpreted

section

variable {R : Regime} {p : Program} {f : Function} {env : Env} {mem mem' : Memory}
  (hm : R.Sound p.module mem) (henv : R.EnvFits mem.storage f env)
  (hinit : p.module.InitializersFit)
include hm henv hinit

/-- What an operand comes to fits, on a memory that is sound and has grown. -/
theorem eval_fits {o : Operand} {v : Value} (ho : o.IsKnown p.module f)
    (h : (eval p f env o).on mem = (.ok v, mem')) :
    R.Sound p.module mem' ∧ mem.storage.Extends mem'.storage ∧ R.Fits mem'.storage o.type v := by
  have hmeets : Exec.Meets R p.module (eval p f env o) mem (fun s v => R.Fits s o.type v)
      fun _ => True := eval_meets hm henv hinit ho (o.allowed_true p.module f env)
  exact ⟨(hmeets.after h).1, (hmeets.after h).2, hmeets.ok v mem' h⟩

theorem evalAll_fits {os : List Operand} {vs : List Value} (hos : ∀ o ∈ os, o.IsKnown p.module f)
    (h : (os.mapM (eval p f env)).on mem = (.ok vs, mem')) :
    List.Forall₂ (fun o v => R.Fits mem'.storage (Operand.type o) v) os vs := by
  have hmeets : Exec.Meets R p.module (os.mapM (eval p f env)) mem
      (fun s vs => List.Forall₂ (fun o v => R.Fits s (Operand.type o) v) os vs) fun _ => True :=
    evalAll_meets hm henv hinit hos fun o _ => o.allowed_true p.module f env
  exact hmeets.ok vs mem' h

end

variable {R : Regime} {p : Program} {f : Function} {env : Env} {mem mem' : Memory} {wide : Prop}
  {o : Operand} {i : Instr} {v : Value}

/-- An operand comes to what is kept in the type that it says. -/
theorem eval_kept (henv : env.Holds (fun t v => v.IsKept wide t) f) (ho : o.IsKnown p.module f)
    (hc : ∀ c, o = .const c → wide → c.IsDouble) (h : (eval p f env o).on mem = (.ok v, mem')) :
    v.IsKept wide o.type := by
  cases o with
  | const c =>
      rw [eval, Exec.on_lift] at h
      exact constant_kept (hc c rfl) (congrArg Prod.fst h)
  | «local» id t =>
      obtain ⟨l, hl, rfl⟩ := Option.map_eq_some_iff.mp ho
      unfold eval at h
      dsimp only at h
      split at h
      · cases h
        exact henv id _ l ‹_› hl
      · cases h
  | global j t =>
      obtain ⟨sym, -, rfl⟩ := Option.map_eq_some_iff.mp ho
      refine .of_not_fp ?_
      cases sym <;> rfl

/-- `Asks p f env i mem sig mem'`: on the memory `mem` the instruction `i` asks for `sig` and leaves
`mem'`. -/
inductive Asks (p : Program) (f : Function) (env : Env) (i : Instr) (mem : Memory) :
    Signal → Memory → Prop
  | computed {v : Value} {mem' : Memory} :
      (compute (eval p f env) f i.type i.op).on mem = (.ok v, mem') →
      Asks p f env i mem (.value v) mem'
  | goes {t : Nat} {mem' : Memory} : Asks p f env i mem (.goto t) mem'
  | leaves : i.op = .ret none → Asks p f env i mem (.ret .null) mem
  | returns {o : Operand} {v : Value} {mem' : Memory} :
      i.op = .ret (some o) → (eval p f env o).on mem = (.ok v, mem') →
      Asks p f env i mem (.ret v) mem'
  /-- A function of the module is called by its name. -/
  | calls {c : Nat} {u : Ty} {g : Function} {args : List Operand} {vs : List Value} {mem' : Memory} :
      (i.op = .call (.global c u) args ∨ ∃ a b, i.op = .invoke (.global c u) args a b) →
      p.module.function? c = some g → (args.mapM (eval p f env)).on mem = (.ok vs, mem') →
      Asks p f env i mem (.call c vs) mem'

/-- The list is complete. -/
theorem asks_of_perform {sig : Signal} (h : (perform p f env i).on mem = (.ok sig, mem')) :
    Asks p f env i mem sig mem' := by
  have hcall {callee : Operand} {args : List Operand}
      (hop : i.op = .call callee args ∨ ∃ a b, i.op = .invoke callee args a b)
      (h : (call p (eval p f env) f callee args).on mem = (.ok sig, mem')) :
      Asks p f env i mem sig mem' := by
    unfold call at h
    split at h
    · split at h
      · obtain ⟨vs, mem₁, hvs, h⟩ := Effect.on_bind_ok h
        cases h
        exact .calls hop ‹_› hvs
      · cases h
    · cases h
  unfold perform control at h
  dsimp only at h
  split at h
  · cases h
    exact .leaves ‹_›
  · obtain ⟨v, mem₁, hv, h⟩ := Effect.on_bind_ok h
    cases h
    exact .returns ‹_› hv
  · cases h
    exact .goes
  · obtain ⟨x, mem₁, -, h⟩ := Effect.on_bind_ok h
    cases h
    exact .goes
  · obtain ⟨x, mem₁, -, h⟩ := Effect.on_bind_ok h
    obtain ⟨t, mem₂, -, h⟩ := Effect.on_bind_ok h
    cases h
    exact .goes
  · cases h
  · exact hcall (.inl ‹_›) h
  · exact hcall (.inr ⟨_, _, ‹_›⟩) h
  · obtain ⟨v, mem₁, hv, h⟩ := Effect.on_bind_ok h
    cases h
    exact .computed hv

/-- The constants among the operands of an instruction are doubles. -/
def OfDoubles (wide : Prop) (i : Instr) : Prop :=
  ∀ o ∈ i.op.values, ∀ c, o = .const c → wide → c.IsDouble

theorem ofDoubles_of {m : Module} (hd : wide → m.OfDoubles) {k b : Nat} (hf : m.function? k = some f)
    (hi : i ∈ f.instrs b) : OfDoubles wide i := fun _ ho c heq hw =>
  (hd hw).operands k f hf b i hi c (heq ▸ ho)

theorem evalAll_kept {os : List Operand} {vs : List Value}
    (hkept : env.Holds (fun t v => v.IsKept wide t) f) (hk : ∀ o ∈ os, o.IsKnown p.module f)
    (hc : ∀ o ∈ os, ∀ c, o = .const c → wide → c.IsDouble)
    (h : (os.mapM (eval p f env)).on mem = (.ok vs, mem')) :
    List.Forall₂ (fun o v => v.IsKept wide (Operand.type o)) os vs := by
  have hmeets : Effect.Meets (.nothing Memory) (os.mapM (eval p f env)) mem
      (fun _ vs => List.Forall₂ (fun o v => v.IsKept wide (Operand.type o)) os vs)
      fun _ => True :=
    .mapM (fun _ _ _ _ _ h => h) os trivial fun _ ho _ _ _ =>
      ⟨trivial, trivial, fun _ _ hv => eval_kept hkept (hk _ ho) (hc _ ho) hv, fun _ _ _ => trivial⟩
  exact hmeets.ok vs mem' h

theorem forall₂_and {α β : Type} {P Q : α → β → Prop} {as : List α} {bs : List β}
    (hP : List.Forall₂ P as bs) (hQ : List.Forall₂ Q as bs) :
    List.Forall₂ (fun a b => P a b ∧ Q a b) as bs := by
  induction hP with
  | nil => exact .nil
  | cons hab _ ih =>
      cases hQ with
      | cons hab' hQ => exact .cons ⟨hab, hab'⟩ (ih hQ)

/-- What is read through a pointer is kept in the type of the cell. -/
theorem load_kept {t : Ty} {x : Value} (hmem : mem.Keeps wide R.known)
    (hpoints : R.Points mem.storage t x)
    {word : String} (h : ExceptT.on (do
      let id ← cellOf f word x
      return (← Exec.cell id).value) mem = (.ok v, mem')) :
    v.IsKept wide t := by
  cases hpoints with
  | cell hk hcell ht =>
      simp only [cellOf, Effect.on_bind, Effect.on_pure, Exec.on_cell, hcell, Option.getD_some] at h
      cases h
      exact ht ▸ hmem _ _ hk hcell
  | _ => cases h

/-- What an instruction computes is kept in its type. -/
theorem compute_kept (hm : R.Sound p.module mem) (henv : R.EnvFits mem.storage f env)
    (hinit : p.module.InitializersFit) (hd : wide → p.module.OfDoubles)
    (hmem : mem.Keeps wide R.known) (hkept : env.Holds (fun t v => v.IsKept wide t) f)
    (hi : i.IsTyped p.module f) (hc : OfDoubles wide i)
    (h : (compute (eval p f env) f i.type i.op).on mem = (.ok v, mem')) : v.IsKept wide i.type := by
  have hknown {o : Operand} (ho : o ∈ i.op.operands) : o.IsKnown p.module f :=
    hi.known o (OpOver.mem_values ho)
  have hconst {o : Operand} (ho : o ∈ i.op.operands) := hc o (OpOver.mem_values ho)
  by_cases hcomputed : i.op.isComputed = true
  · rw [compute_eq_result _ f i.type hcomputed] at h
    obtain ⟨vs, mem₁, hvs, h⟩ := Effect.on_bind_ok h
    rw [Exec.on_lift] at h
    have hfits := evalAll_fits hm henv hinit (fun o ho => hknown ho) hvs
    have hall := evalAll_kept hkept (fun o ho => hknown ho) (fun o ho => hconst ho) hvs
    exact result_kept hi.rule (forall₂_and hfits hall) (congrArg Prod.fst h)
  · obtain ⟨id, t, op⟩ := i
    have hrule := hi.rule
    cases op with
    | select c a b =>
        obtain ⟨ha, hb⟩ := hrule
        dsimp only at ha hb
        obtain ⟨x, mem₁, -, h⟩ := Effect.on_bind_ok h
        split at h
        · exact ha ▸ eval_kept hkept (hknown (by simp [OpOver.operands]))
            (hconst (by simp [OpOver.operands])) h
        · exact hb ▸ eval_kept hkept (hknown (by simp [OpOver.operands]))
            (hconst (by simp [OpOver.operands])) h
    | alloca u count =>
        cases (show t = .pointer u 0 from hrule)
        exact .of_not_fp rfl
    | load a =>
        obtain ⟨space, ha⟩ := hrule
        obtain ⟨x, mem₁, hx, h⟩ := Effect.on_bind_ok h
        obtain ⟨-, -, hpoints⟩ := eval_fits hm henv hinit (hknown (by simp [OpOver.operands])) hx
        have hmem₁ := hmem.grown hinit hd (eval_within (Memory.Grown.admits p.module) f env a mem)
        rw [hx] at hmem₁
        rw [ha] at hpoints
        exact load_kept hmem₁ (show R.Points mem₁.storage t x from hpoints) h
    | store v' a =>
        cases hrule.1
        exact .of_not_fp rfl
    | int | fp | fneg | icmp | fcmp | cast => exact absurd rfl hcomputed
    | _ => cases h

end Interpreted

/-! ## The machine -/

namespace Machine

open Interpreted (rules eval perform eval_kept evalAll_kept compute_kept OfDoubles ofDoubles_of)

variable {R : Regime} {p : Program} {mem mem' : Memory} {wide : Prop} {fr next : Frame}

/-- What is kept in the types of arguments can be passed to parameters of floating point. -/
theorem passed_isDouble {params : List Ty} {os : List Operand} {vs : List Value}
    (hparams : argumentsTyped params os)
    (hall : List.Forall₂ (fun o v => v.IsKept wide (Operand.type o)) os vs) (j : Nat) (t : Ty)
    (x : Value) (hj : params[j]? = some t) (hx : vs[j]? = some x) (hfp : t.isFp = true) :
    x.IsDouble wide := by
  obtain ⟨o, ho, rfl⟩ := hparams j t hj
  obtain ⟨hlen, hget⟩ := List.forall₂_iff_get.mp hall
  obtain ⟨hjo, rfl⟩ := List.getElem?_eq_some_iff.mp ho
  obtain ⟨hjv, rfl⟩ := List.getElem?_eq_some_iff.mp hx
  have hkept := hget j hjo hjv
  cases htype : Operand.type os[j] with
  | fp p =>
      have hkept : Value.IsKept wide (.fp p) vs[j] := htype ▸ hkept
      exact hkept.isDouble
  | _ => simp [htype, Ty.isFp] at hfp

section

variable (ht : p.module.IsTyped) (hd : wide → p.module.OfDoubles)
include ht hd

theorem phiValue_kept {k b : Nat} {source : Option Nat} {i : Instr} {e : Nat × Value}
    (hf : p.module.function? k = some fr.function) (hi : i ∈ fr.function.instrs b)
    (hkept : fr.Keeps wide)
    (h : (phiValue rules p fr.function fr.env source i).on mem = (.ok e, mem')) :
    e.1 = i.id ∧ e.2.IsKept wide i.type := by
  unfold phiValue at h
  split at h
  · rename_i o ho
    obtain ⟨v, mem₁, hv, h⟩ := Effect.on_bind_ok h
    cases h
    obtain ⟨incoming, b', hop, hmem, -⟩ := mem_of_entryFor ho
    have htyped := ht.instrs k _ hf b i hi
    have hvalue : o ∈ i.op.values := by
      rw [hop]
      exact List.mem_map_of_mem hmem
    have htype : o.type = i.type :=
      (hop ▸ htyped.rule : OpOver.Typed fr.function i.type (.phi incoming)) _ hmem
    exact ⟨rfl, htype ▸ eval_kept hkept (htyped.known o hvalue) (ofDoubles_of hd hf hi o hvalue) hv⟩
  · cases h

/-- A jump binds the phis of the block to what is kept. -/
theorem jump_kept {k target : Nat} {source : Option Nat}
    (hf : p.module.function? k = some fr.function) (hkept : fr.Keeps wide)
    (h : (jump rules p fr source target).on mem = (.ok next, mem')) : next.Keeps wide := by
  obtain ⟨vs, mem₁, hvs, h⟩ := Effect.on_bind_ok h
  cases h
  have hphi {i : Instr} (hi : i ∈ fr.function.leadingPhis target) : i ∈ fr.function.instrs target :=
    (List.takeWhile_sublist _).subset hi
  have hmeets : Effect.Meets (.nothing Memory) ((fr.function.leadingPhis target).mapM
      (phiValue rules p fr.function fr.env source)) mem
      (fun _ vs => List.Forall₂ (fun (i : Instr) (e : Nat × Value) =>
        e.1 = i.id ∧ e.2.IsKept wide i.type) (fr.function.leadingPhis target) vs) fun _ => True :=
    .mapM (fun _ _ _ _ _ h => h) _ trivial fun i hi _ _ _ =>
      ⟨trivial, trivial, fun _ _ hv => phiValue_kept ht hd hf (hphi hi) hkept hv,
        fun _ _ _ => trivial⟩
  refine Env.Holds.bindAll hkept fun e he => ?_
  obtain ⟨hlen, hget⟩ := List.forall₂_iff_get.mp (hmeets.ok vs _ hvs)
  obtain ⟨j, hj, rfl⟩ := List.getElem_of_mem he
  have hji : j < (fr.function.leadingPhis target).length := hlen ▸ hj
  obtain ⟨hid, hvalue⟩ := hget j hji hj
  obtain ⟨l, hl, hlt⟩ := (ht.instrs k _ hf target _ (hphi (List.getElem_mem hji))).bound
  exact ⟨l, hid ▸ hl, hlt ▸ hvalue⟩

/-- Entering a function binds its parameters to what is kept, if what is passed to those of floating
point are doubles. -/
theorem enter_kept {k : Nat} {f : Function} {args : List Value}
    (hf : p.module.function? k = some f)
    (hargs : ∀ (j : Nat) t x, f.params[j]? = some t → args[j]? = some x → t.isFp = true →
      x.IsDouble wide)
    (h : (enter rules p f args).on mem = (.ok next, mem')) : next.Keeps wide := by
  rw [on_enter] at h
  split at h
  · cases h
  · split at h
    · rename_i env henv
      have hbound : (⟨f, env, 0, 0, none⟩ : Frame).Keeps wide := by
        intro j v l hj hl
        obtain ⟨j', t, x, rfl, htype, hx, hv⟩ := lookup_bindParams henv hj
        obtain ⟨l', hl', rfl⟩ := ht.params k f hf j' t htype
        rw [Nat.zero_add, hl'] at hl
        cases hl
        by_cases hfp : l.type.isFp = true
        · exact Value.normalize_kept (hargs j' _ x htype hx hfp) hv
        · exact .of_not_fp (by simpa using hfp)
      exact jump_kept ht hd hf hbound h
    · cases h

/-! ### Steps -/

/-- A step puts into known cells what is kept. -/
theorem step_keeps (hm : R.Sound p.module mem) (hmem : mem.Keeps wide R.known)
    (hfits : fr.Fits R p.module mem.storage) (hkept : fr.Keeps wide) (waiting : List Frame) :
    ((step rules p fr waiting).on mem).2.Keeps wide R.known := by
  have hinit := ht.initializers
  obtain ⟨k, hf⟩ := hfits.member
  cases hs : fr.store? p mem with
  | none => exact hmem.grown hinit hd (Interpreted.step_unstored (Memory.Grown.admits p.module) waiting hs)
  | some s =>
      obtain ⟨i, v, a, mem₂, hi, hop, -, hon, -, hstep⟩ := Interpreted.step_of_store? waiting hs
      have hgrown := Interpreted.stored_within (Memory.Grown.admits p.module) fr v a mem
      rw [hon] at hgrown
      rw [hstep]
      have htyped := ht.instrs k _ hf fr.block i (List.mem_of_getElem? hi)
      obtain ⟨-, space, ha⟩ : OpOver.Typed fr.function i.type (.store v a) := hop ▸ htyped.rule
      have hv : v ∈ i.op.values := by simp [hop, OpOver.values, OpOver.operands]
      have haddress : a ∈ i.op.values := by simp [hop, OpOver.values, OpOver.operands]
      obtain ⟨x, mem₁, hx, hon⟩ := Effect.on_bind_ok hon
      obtain ⟨y, mem₂, hy, hon⟩ := Effect.on_bind_ok hon
      cases hon
      have hvalue := eval_kept hkept (htyped.known v hv) (ofDoubles_of hd hf
        (List.mem_of_getElem? hi) v hv) hx
      refine (hmem.grown hinit hd hgrown).write fun c hc => ?_
      -- the cell is of the type that the pointer points to
      obtain ⟨hm₁, hext, -⟩ := Interpreted.eval_fits hm hfits.env hinit (htyped.known v hv) hx
      obtain ⟨-, -, hpoints⟩ := Interpreted.eval_fits hm₁ (hfits.env.mono hext) hinit
        (htyped.known a haddress) hy
      rw [ha] at hpoints
      cases (show R.Points _ v.type (.cell s.cell) from hpoints) with
      | cell _ hc' htype =>
          cases hc'.symm.trans hc
          exact htype ▸ hvalue

/-- A function that is called is entered with what is kept. -/
theorem called_kept {k c : Nat} {i : Instr} {g : Function} {args : List Value} {mem₁ : Memory}
    (hf : p.module.function? k = some fr.function) (hi : i ∈ fr.function.instrs fr.block)
    (hkept : fr.Keeps wide)
    (hp : (perform p fr.function fr.env i).on mem = (.ok (.call c args), mem₁))
    (hg : p.module.function? c = some g)
    (he : (enter rules p g args).on mem₁ = (.ok next, mem')) : next.Keeps wide := by
  have htyped := ht.instrs k _ hf fr.block i hi
  cases Interpreted.asks_of_perform hp with
  | @calls _ u g' os _ _ hop hg' hvs =>
      cases hg.symm.trans hg'
      obtain hop | ⟨_, _, hop⟩ := hop
      · obtain ⟨params, variadic, space, hcallee, hparams⟩ :
            OpOver.Typed fr.function i.type (.call (.global c u) os) := hop ▸ htyped.rule
        have hvalues {o : Operand} (ho : o ∈ Operand.global c u :: os) : o ∈ i.op.values := by
          simpa [hop, OpOver.values, OpOver.operands] using ho
        obtain ⟨-, rfl⟩ := Interpreted.signature_of_known hg
          (htyped.known _ (hvalues (List.mem_cons_self ..))) hcallee
        have hall := evalAll_kept hkept
          (fun o ho => htyped.known o (hvalues (List.mem_cons_of_mem _ ho)))
          (fun o ho => ofDoubles_of hd hf hi o (hvalues (List.mem_cons_of_mem _ ho))) hvs
        exact enter_kept ht hd hg (passed_isDouble hparams hall) he
      · exact (hop ▸ htyped.rule : OpOver.Typed fr.function i.type (.invoke _ _ _ _)).elim

/-- What a step comes to is kept. -/
theorem step_kept (hm : R.Sound p.module mem) (hmem : mem.Keeps wide R.known) {last : Ty}
    {waiting : List Frame} {st : State}
    (hfits : (State.running fr waiting).Fits R p.module last mem.storage)
    (hst : (State.running fr waiting).Keeps wide last)
    (h : (step rules p fr waiting).on mem = (.ok st, mem')) : st.Keeps wide last := by
  have hinit := ht.initializers
  obtain ⟨hfr, hwaits⟩ := hfits
  obtain ⟨k, hf⟩ := hfr.member
  have hkept : fr.Keeps wide := hst fr (List.mem_cons_self ..)
  have hrest : ∀ g ∈ waiting, g.Keeps wide := fun g hg => hst g (List.mem_cons_of_mem _ hg)
  cases stepped_of_on h with
  | @bound i v _ hi hp =>
      have hmemb : i ∈ fr.function.instrs fr.block := List.mem_of_getElem? hi
      have htyped := ht.instrs k _ hf fr.block i hmemb
      obtain ⟨l, hl, hlt⟩ := htyped.bound
      cases Interpreted.asks_of_perform hp with
      | computed hv =>
          have hv := compute_kept hm hfr.env hinit hd hmem hkept htyped (ofDoubles_of hd hf hmemb) hv
          exact List.forall_mem_cons.mpr ⟨hkept.bind hl (hlt ▸ hv), hrest⟩
  | @left i v _ hi hp =>
      have hmemb : i ∈ fr.function.instrs fr.block := List.mem_of_getElem? hi
      have htyped := ht.instrs k _ hf fr.block i hmemb
      refine leave_keeps ?_ hwaits hrest
      cases Interpreted.asks_of_perform hp with
      | leaves => exact Value.isKept_null
      | @returns o _ _ hop hv =>
          have ho : o ∈ i.op.values := by simp [hop, OpOver.values, OpOver.operands]
          have htype : o.type = fr.function.result :=
            (hop ▸ htyped.rule : OpOver.Typed fr.function i.type (.ret (some o)))
          exact htype ▸ eval_kept hkept (htyped.known o ho) (ofDoubles_of hd hf hmemb o ho) hv
  | jumped hi hp hj =>
      exact List.forall_mem_cons.mpr ⟨jump_kept ht hd hf hkept hj, hrest⟩
  | @called i c g args inner mem₁ _ hi hp hg he =>
      have hentered := called_kept ht hd hf (List.mem_of_getElem? hi) hkept hp hg he
      exact List.forall_mem_cons.mpr ⟨hentered, List.forall_mem_cons.mpr ⟨hkept, hrest⟩⟩

/-! ### Runs -/

/-- Every state that a run reaches is kept, and so is every known cell. -/
theorem reaches_kept (ha : p.module.AddressesAllowed R) {k : Nat} {f : Function} {args : List Value}
    (hf : p.module.function? k = some f) (hm : R.Sound p.module mem)
    (hargs : R.ArgsReady mem.storage f.params args) (hmem : mem.Keeps wide R.known)
    (hdoubles : ∀ (j : Nat) t x, f.params[j]? = some t → args[j]? = some x → t.isFp = true →
      x.IsDouble wide)
    {st : State} (h : Reaches rules p f args mem st mem') :
    mem'.Keeps wide R.known ∧ st.Keeps wide f.result := by
  induction h with
  | @entered fr mem' he =>
      have hgrown := Interpreted.enter_within (Memory.Grown.admits p.module) f args mem
      rw [he] at hgrown
      refine ⟨hmem.grown ht.initializers hd hgrown, fun g hg => ?_⟩
      cases List.mem_singleton.mp hg
      exact enter_kept ht hd hf hdoubles he
  | @stepped fr waiting st mem₁ mem₂ hreach hs ih =>
      obtain ⟨hm₁, -, hfits⟩ := reaches_fits ht ha ⟨k, hf⟩ hm hargs hreach
      obtain ⟨hmem₁, hst⟩ := ih
      have hafter := step_keeps ht hd hm₁ hmem₁ hfits.1 (hst fr (List.mem_cons_self ..)) waiting
      rw [hs] at hafter
      exact ⟨hafter, step_kept ht hd hm₁ hmem₁ hfits hst hs⟩

/-- However a call ends, its known cells hold what is kept. -/
theorem call_keeps (ha : p.module.AddressesAllowed R) {k : Nat} {f : Function} {args : List Value}
    (hf : p.module.function? k = some f) (hm : R.Sound p.module mem)
    (hargs : R.ArgsReady mem.storage f.params args) (hmem : mem.Keeps wide R.known)
    (hdoubles : ∀ (j : Nat) t x, f.params[j]? = some t → args[j]? = some x → t.isFp = true →
      x.IsDouble wide) (n : Nat) :
    ((call rules p n f args).on mem).2.Keeps wide R.known := by
  rcases hon : (call rules p n f args).on mem with ⟨r, mem'⟩
  have hreached {st : State} {mem₁ : Memory} (h : Reaches rules p f args mem st mem₁) :=
    reaches_kept ht hd ha hf hm hargs hmem hdoubles h
  rcases call_cases hon with ⟨e, rfl, he⟩ | ⟨v, rfl, hv⟩ | ⟨fr, waiting, rfl, hr⟩ |
    ⟨fr, waiting, mem₂, e, rfl, hr, hs⟩
  · have hgrown := Interpreted.enter_within (Memory.Grown.admits p.module) f args mem
    rw [he] at hgrown
    exact hmem.grown ht.initializers hd hgrown
  · exact (hreached hv).1
  · exact (hreached hr).1
  · obtain ⟨hm₂, -, hfits⟩ := reaches_fits ht ha ⟨k, hf⟩ hm hargs hr
    obtain ⟨hmem₂, hst⟩ := hreached hr
    have hafter := step_keeps ht hd hm₂ hmem₂ hfits.1 (hst fr (List.mem_cons_self ..)) waiting
    rw [hs] at hafter
    exact hafter

end

end Machine

/-! ## Runs after runs -/

namespace Regime

variable {R : Regime} {wide : Prop} {m : Module} {s : Storage} {mem : Memory} {params : List Ty}
  {args : List Value}

/-- Cells that lead only to each other, and hold what fits and is kept in their types. -/
def ClosedKept (R : Regime) (wide : Prop) (s : Storage) (known : Nat → Prop) : Prop :=
  R.Closed s known ∧ ∀ id c, known id → s.cell? id = some c → c.value.IsKept wide c.type

/-- Arguments from outside: any integers, any data (doubles, if that is asked for), and elsewhere what
fits and leads only to cells that hold what fits and is kept. -/
def ArgsKept (R : Regime) (wide : Prop) (s : Storage) (params : List Ty) (args : List Value) : Prop :=
  ∀ (k : Nat) (t : Ty) (v : Value), params[k]? = some t → args[k]? = some v →
    t.isInt = true ∨ (t.isFp = true ∧ v.IsDouble wide) ∨
      (t.isFp = false ∧ ∃ known, R.ClosedKept wide s known ∧ ({ R with known } : Regime).Fits s t v)

/-- The regime in which such cells are known too. -/
def adoptKept (R : Regime) (wide : Prop) (s : Storage) : Regime :=
  { R with known := fun id => R.known id ∨ ∃ known, R.ClosedKept wide s known ∧ known id }

theorem Sound.adoptKept (h : R.Sound m mem) (wide : Prop) :
    (R.adoptKept wide mem.storage).Sound m mem :=
  h.adopting fun _ hclosed => hclosed.1

theorem keeps_adoptKept (h : mem.Keeps wide R.known) :
    mem.Keeps wide (R.adoptKept wide mem.storage).known := by
  rintro id c (hk | ⟨known, hclosed, hk⟩) hc
  · exact h id c hk hc
  · exact hclosed.2 id c hk hc

theorem ArgsKept.ready (h : R.ArgsKept wide s params args) :
    (R.adoptKept wide s).ArgsReady s params args := by
  intro k t v ht hv
  rcases h k t v ht hv with hi | ⟨hf, -⟩ | ⟨-, known, hclosed, hfit⟩
  · exact .inl hi
  · exact .inr (.inl hf)
  · exact .inr (.inr (hfit.widen fun id hid => .inr ⟨known, hclosed, hid⟩))

theorem ArgsKept.isDouble (h : R.ArgsKept wide s params args) (j : Nat) (t : Ty) (x : Value)
    (hj : params[j]? = some t) (hx : args[j]? = some x) (hfp : t.isFp = true) : x.IsDouble wide := by
  rcases h j t x hj hx with hi | ⟨-, hdouble⟩ | ⟨hnot, -⟩
  · cases t with
    | int w => simp [Ty.isFp] at hfp
    | _ => cases hi
  · exact hdouble
  · rw [hfp] at hnot
    cases hnot

end Regime

namespace Machine

open Interpreted (rules)

/-- The memories of an engine that began with one: each is left by a run on the one before, of a function
of the module on arguments that are accepted. -/
inductive RanOn (R : Regime) (wide : Prop) (p : Program) (start : Memory) : Memory → Prop
  | fresh : RanOn R wide p start start
  | run {mem : Memory} {k n : Nat} {f : Function} {args : List Value} :
      RanOn R wide p start mem → p.module.function? k = some f →
      R.ArgsKept wide mem.storage f.params args →
      RanOn R wide p start ((call rules p n f args).on mem).2

/-- Every memory of an engine is sound and holds what is kept, in a regime that differs at most in what is
known: cells that are made by runs are. -/
theorem ranOn_kept {R : Regime} {wide : Prop} {p : Program} {start mem : Memory}
    (ht : p.module.IsTyped) (hd : wide → p.module.OfDoubles) (ha : p.module.AddressesAllowed R)
    (hstart : ∀ id, start.storage.cells.size ≤ id → R.known id) (hsound : R.Sound p.module start)
    (hkeeps : start.Keeps wide R.known) (h : RanOn R wide p start mem) :
    ∃ known, (∀ id, start.storage.cells.size ≤ id → known id) ∧
      ({ R with known } : Regime).Sound p.module mem ∧ mem.Keeps wide known := by
  induction h with
  | fresh => exact ⟨R.known, hstart, hsound, hkeeps⟩
  | @run mem k n f args _ hf hargs ih =>
      obtain ⟨known, hknown, hm, hmem⟩ := ih
      have hargs' : ({ R with known } : Regime).ArgsKept wide mem.storage f.params args := hargs
      have hm' := hm.adoptKept wide
      refine ⟨(({ R with known } : Regime).adoptKept wide mem.storage).known,
        fun id hid => .inl (hknown id hid), ?_, ?_⟩
      · exact (call_meets ht (R := ({ R with known } : Regime).adoptKept wide mem.storage) ha ⟨k, hf⟩
          hm' hargs'.ready n).holds
      · exact call_keeps ht hd (R := ({ R with known } : Regime).adoptKept wide mem.storage) ha hf hm'
          hargs'.ready (Regime.keeps_adoptKept hmem) hargs'.isDouble n

end Machine

end Ssa

/-
# `Ssa.Proofs.Exec.Sound` — memories whose cells fit, and what keeps them so

A memory is sound for a module if each known cell holds what fits its type, and the global variables
have known cells of their types.  A computation meets a condition if it leaves a sound memory that
extends the one before, what it gives satisfies the condition, and it fails only in ways that are
allowed.  There is one lemma for each thing that a computation is made of.

**Proved here.**

    adding a cell, writing what fits, noting the cell of a variable keep a memory sound
    an operand comes to a value that fits its type                          (`eval_meets`)
    an operation that is typed comes to a value that fits its type            (`compute_meets`)
    an instruction that is typed asks for what fits                           (`perform_meets`)
-/
import Ssa.Proofs.Exec.Computed

namespace Ssa

/-! ## Sound memories -/

/-- The memory of a run of a module is as the regime wants it. -/
structure Regime.Sound (R : Regime) (m : Module) (mem : Memory) : Prop where
  /-- Cells that are still to be made are known. -/
  unmade : ∀ id, mem.storage.cells.size ≤ id → R.known id
  cells : ∀ id c, R.known id → mem.storage.cell? id = some c → R.Fits mem.storage c.type c.value
  globals : ∀ i id, mem.global? i = some id → R.known id ∧
    ∃ v c, m.variableAt? i = some v ∧ mem.storage.cell? id = some c ∧ c.type = v.type

namespace Regime.Sound

variable {R : Regime} {m : Module} {mem : Memory}

theorem allocate (h : R.Sound m mem) {t : Ty} {v : Value} (hv : R.Fits mem.storage t v) :
    R.Sound m (mem.allocate t v).2 := by
  have hext := Storage.Extends.addCell mem.storage ⟨t, v⟩
  constructor
  · intro id hid
    refine h.unmade id (le_trans ?_ hid)
    show _ ≤ (mem.storage.cells.push _).size
    simp
  · intro id c hk hc
    have hc' : (mem.storage.cells.push ⟨t, v⟩)[id]? = some c := hc
    rw [Array.getElem?_push] at hc'
    split at hc'
    · cases hc'; exact hv.mono hext
    · exact (h.cells id c hk hc').mono hext
  · intro i id hi
    obtain ⟨hk, x, c, hx, hc, ht⟩ := h.globals i id hi
    obtain ⟨c', hc', ht'⟩ := hext id c hc
    exact ⟨hk, x, c', hx, hc', ht'.trans ht⟩

theorem write (h : R.Sound m mem) {id : Nat} {c : Cell} {v : Value}
    (hc : mem.storage.cell? id = some c) (hv : R.Fits mem.storage c.type v) :
    R.Sound m { mem with storage := mem.storage.write id v } := by
  have hext := Storage.Extends.write mem.storage id v
  constructor
  · intro k hk
    refine h.unmade k (le_trans (le_of_eq ?_) hk)
    exact (Array.size_modify ..).symm
  · intro k c' hk hc'
    have hmod : (mem.storage.cells.modify id _)[k]? = some c' := hc'
    rw [Array.getElem?_modify] at hmod
    split at hmod
    · rename_i heq
      subst heq
      rw [show mem.storage.cells[id]? = some c from hc] at hmod
      cases hmod
      exact hv.mono hext
    · exact (h.cells k c' hk hmod).mono hext
  · intro i k hi
    obtain ⟨hk, x, c', hx, hc', ht⟩ := h.globals i k hi
    obtain ⟨c'', hc'', ht''⟩ := hext k c' hc'
    exact ⟨hk, x, c'', hx, hc'', ht''.trans ht⟩

theorem setGlobal (h : R.Sound m mem) {i id : Nat} {v : Variable} {c : Cell} (hk : R.known id)
    (hv : m.variableAt? i = some v) (hc : mem.storage.cell? id = some c) (ht : c.type = v.type) :
    R.Sound m (mem.setGlobal i id) := by
  refine ⟨h.unmade, h.cells, fun j k hj => ?_⟩
  have hj' : List.lookup j ((i, id) :: mem.globals) = some k := hj
  rw [List.lookup_cons] at hj'
  split at hj'
  · rename_i heq
    cases hj'
    cases eq_of_beq heq
    exact ⟨hk, v, c, hv, hc, ht⟩
  · exact h.globals j k hj'

end Regime.Sound

/-! ## Computations that meet a condition -/

/-- Computations of a run keep the memory sound, and only add to it. -/
abbrev Regime.keeping (R : Regime) (m : Module) : Keeping Memory where
  holds := R.Sound m
  grows mem mem' := mem.storage.Extends mem'.storage
  refl mem := .refl mem.storage
  trans h h' := h.trans h'

/-- A computation meets a condition on the storage that it leaves and on what it gives. -/
abbrev Exec.Meets {α : Type} (R : Regime) (m : Module) (x : Exec α) (mem : Memory)
    (Post : Storage → α → Prop) (Err : Failure → Prop) : Prop :=
  Effect.Meets (R.keeping m) x mem (fun mem' => Post mem'.storage) Err

namespace Exec.Meets

variable {α : Type} {R : Regime} {m : Module} {mem : Memory} {Err : Failure → Prop}
  {P : Storage → α → Prop}

theorem lift {x : Except Failure α} (hm : R.Sound m mem) (ha : ∀ a, x = .ok a → P mem.storage a)
    (he : ∀ e, x = .error e → Err e) : Meets R m (Exec.lift x) mem P Err := by
  cases x with
  | ok a => exact .pure hm (ha a rfl)
  | error e => exact .throw hm (he e rfl)

/-! ### Cells -/

theorem allocate {t : Ty} {v : Value} (hm : R.Sound m mem) (hv : R.Fits mem.storage t v) :
    Meets R m (Exec.allocate t v) mem
      (fun s id => R.known id ∧ ∃ c, s.cell? id = some c ∧ c.type = t) Err := by
  refine ⟨hm.allocate hv, Storage.Extends.addCell _ _, fun id mem' h => ?_, fun e mem' h => ?_⟩
  · rw [on_allocate] at h
    cases h
    refine ⟨hm.unmade _ (Nat.le_refl _), ⟨t, v⟩, ?_, rfl⟩
    show (mem.storage.cells.push _)[mem.storage.cells.size]? = _
    simp
  · rw [on_allocate] at h
    cases h

/-- Reading the cell of a pointer that fits. -/
theorem cell {t : Ty} {id : Nat} (hm : R.Sound m mem) (hp : R.Points mem.storage t (.cell id)) :
    Meets R m (Exec.cell id) mem (fun s c => R.Fits s t c.value) Err := by
  refine ⟨hm, .refl _, fun c mem' h => ?_, fun e mem' h => ?_⟩
  · rw [on_cell] at h
    cases hp with
    | cell hk hc ht =>
        rw [hc] at h
        cases h
        exact ht ▸ hm.cells id _ hk hc
  · rw [on_cell] at h
    cases h

/-- Writing to the cell of a pointer that fits. -/
theorem write {t : Ty} {id : Nat} {v : Value} (hm : R.Sound m mem)
    (hp : R.Points mem.storage t (.cell id)) (hv : R.Fits mem.storage t v) :
    Meets R m (Exec.write id v) mem (fun _ _ => True) Err := by
  cases hp with
  | cell hk hc ht =>
      refine ⟨?_, Storage.Extends.write _ _ _, fun _ _ _ => trivial, fun e mem' h => ?_⟩
      · rw [on_write]
        exact hm.write hc (ht ▸ hv)
      · rw [on_write] at h
        cases h

end Exec.Meets

/-! ## Operands -/

/-- What a frame has computed fits the types that the function's values have. -/
def Regime.EnvFits (R : Regime) (s : Storage) (f : Function) (env : Env) : Prop :=
  ∀ id v l, env.lookup id = some v → f.locals[id]? = some l → R.Fits s l.type v

theorem Regime.EnvFits.mono {R : Regime} {s s' : Storage} {f : Function} {env : Env}
    (h : R.EnvFits s f env) (hs : s.Extends s') : R.EnvFits s' f env :=
  fun id v l hv hl => (h id v l hv hl).mono hs

/-- The failures of an operand are allowed. -/
def Operand.Allowed (Err : Failure → Prop) (m : Module) (f : Function) (env : Env) :
    Operand → Prop
  | .const c => ∀ e, Interpreted.constant f.name c = .error e → Err e
  | .local id _ => env.lookup id = none → Err (.unsupported (.operand (f.localForm id)) f.name)
  | .global i _ => ∀ v, m.variableAt? i = some v →
      ∀ e, Interpreted.initialValue f.name v = .error e → Err e

/-- The constants that variables begin with have the types of their variables. -/
def Module.InitializersFit (m : Module) : Prop :=
  ∀ i v c, m.variableAt? i = some v → v.init = some (.const c) → c.type = v.type

namespace Interpreted

open Exec (Meets)

variable {R : Regime} {p : Program} {f : Function} {env : Env} {mem : Memory}
  {Err : Failure → Prop}

theorem initialValue_fits {s : Storage} {function : String} {v : Variable} {x : Value}
    (hv : ∀ c, v.init = some (.const c) → c.type = v.type)
    (h : initialValue function v = .ok x) : R.Fits s v.type x := by
  unfold initialValue at h
  split at h
  · cases h; exact Regime.zero_fits v.type
  · rename_i c hc
    exact hv c hc ▸ Regime.constant_fits h
  · cases h

theorem variableAt_of_symbol {m : Module} {i : Nat} {v : Variable}
    (h : m.symbols[i]? = some (.variable v)) : m.variableAt? i = some v := by
  rw [Module.variableAt?, h]

theorem globalCell_meets {function : String} {i : Nat} {v : Variable} {space : Nat}
    (hm : R.Sound p.module mem) (hv : p.module.variableAt? i = some v)
    (hinit : ∀ c, v.init = some (.const c) → c.type = v.type)
    (he : ∀ e, initialValue function v = .error e → Err e) :
    Meets R p.module (globalCell function i v) mem
      (fun s x => R.Fits s (.pointer v.type space) x) Err := by
  refine .bind (.read hm) fun mem' mem₁ _ _ _ hread => ?_
  obtain ⟨rfl, rfl⟩ := hread
  split
  · rename_i id hid
    obtain ⟨hk, v', c, hv', hc, ht⟩ := hm.globals i id hid
    rw [hv] at hv'
    cases hv'
    exact .pure hm (.cell hk hc ht)
  · refine .bind (Meets.lift (P := fun s x => R.Fits s v.type x) hm
      (fun x hx => initialValue_fits hinit hx) he) fun x mem₂ _ hm₂ _ hx => ?_
    refine .bind (Meets.allocate hm₂ hx) fun id mem₃ _ hm₃ _ hid => ?_
    obtain ⟨hk, c, hc, ht⟩ := hid
    refine .bind (.changed (hm₃.setGlobal hk hv hc ht) (.refl _)) fun _ mem₄ _ hm₄ _ hmem => ?_
    subst hmem
    exact .pure hm₄ (.cell hk hc ht)

/-- An operand comes to a value that fits the type it says. -/
theorem eval_meets {o : Operand} (hm : R.Sound p.module mem) (henv : R.EnvFits mem.storage f env)
    (hinit : p.module.InitializersFit) (ho : o.IsKnown p.module f)
    (he : o.Allowed Err p.module f env) :
    Meets R p.module (eval p f env o) mem (fun s v => R.Fits s o.type v) Err := by
  cases o with
  | const c => exact .lift hm (fun v hv => Regime.constant_fits hv) he
  | «local» id t =>
      obtain ⟨l, hl, rfl⟩ := Option.map_eq_some_iff.mp ho
      unfold eval
      dsimp only
      split
      · exact .pure hm (henv _ _ l ‹_› hl)
      · exact .throw hm (he ‹_›)
  | global i t =>
      obtain ⟨sym, hsym, rfl⟩ := Option.map_eq_some_iff.mp ho
      unfold eval
      dsimp only
      rw [hsym]
      rcases sym with v | g
      · have hv := variableAt_of_symbol hsym
        exact globalCell_meets hm hv (fun c => hinit i v c hv) (he v hv)
      · exact .pure hm .function

/-! ## Instructions -/

end Interpreted

/-- An instruction of a function of a module is typed: its value has the type that the function
says, its operands are there, the rule for its operation holds, and it does not take a pointer of
one type for one of another. -/
structure Instr.IsTyped (m : Module) (f : Function) (i : Instr) : Prop where
  bound : ∃ l, f.locals[i.id]? = some l ∧ l.type = i.type
  known : ∀ o ∈ i.op.values, o.IsKnown m f
  rule : i.op.Typed f i.type
  keepsPointers : i.op.castsPointer = false

/-- Whether an operation moves control. -/
def OpOver.isControl : Op → Bool
  | .ret _ | .br _ | .condBr .. | .switch .. | .unreachable | .call .. | .invoke .. => true
  | _ => false

/-- Whether an operation reads or writes the cell of a pointer. -/
def OpOver.accesses : Op → Bool
  | .load _ | .store .. => true
  | _ => false

/-- Whether the interpreter has a rule for an operation. -/
def OpOver.isRuled (op : Op) : Bool :=
  op.isComputed || op.isControl || op.accesses ||
    match op with
    | .select .. | .alloca .. => true
    | _ => false

/-- The failures of an instruction on a memory are allowed. -/
structure Instr.Allowed (R : Regime) (Err : Failure → Prop) (p : Program) (f : Function)
    (env : Env) (mem : Memory) (i : Instr) : Prop where
  operands : ∀ o ∈ i.op.operands, o.Allowed Err p.module f env
  results : i.op.isComputed = true → ∀ vs mem₁ e,
    (i.op.operands.mapM (Interpreted.eval p f env)).on mem = (.ok vs, mem₁) →
    List.Forall₂ (fun o v => R.Fits mem₁.storage (Operand.type o) v) i.op.operands vs →
    Interpreted.result f i.type i.op vs = .error e → Err e
  rawPointers : i.op.accesses = true → Err (.unsupported (.rawPointer i.op.word) f.name)
  unruled : i.op.isRuled = false → Err (.unsupported (.instruction i.op.word) f.name)
  unreachable : i.op = .unreachable → Err (.reachedUnreachable f.name)
  indirect : ∀ callee args, i.op = .call callee args →
    (∀ k t g, callee = .global k t → p.module.function? k ≠ some g) →
    Err (.unsupported .indirectCall f.name)

/-- What an instruction asks for fits: a value its type, a returned value the result of the
function, arguments the parameters of a function whose result is what the instruction's type says;
and control goes on at one of its targets. -/
def Signal.Fits (R : Regime) (m : Module) (f : Function) (i : Instr) (s : Storage) : Signal → Prop
  | .value v => R.Fits s i.type v
  | .goto t => t ∈ i.op.targets
  | .ret v => R.Fits s f.result v
  | .call c args => ∃ g, m.function? c = some g ∧ g.result = i.type ∧ R.ArgsFit s g.params args

namespace Interpreted

open Exec (Meets)

variable {R : Regime} {p : Program} {f : Function} {env : Env} {mem : Memory}
  {Err : Failure → Prop}

/-- Values that fit the types of the arguments fit the types of the parameters. -/
theorem argsFit_of_forall {s : Storage} {params : List Ty} {args : List Operand}
    {vs : List Value} (ht : argumentsTyped params args)
    (hvs : List.Forall₂ (fun o v => R.Fits s (Operand.type o) v) args vs) :
    R.ArgsFit s params vs := by
  intro k t hk
  obtain ⟨a, ha, rfl⟩ := ht k t hk
  obtain ⟨hlen, hfit⟩ := List.forall₂_iff_get.mp hvs
  obtain ⟨hka, rfl⟩ := List.getElem?_eq_some_iff.mp ha
  have hkv : k < vs.length := hlen ▸ hka
  exact ⟨vs[k], List.getElem?_eq_getElem hkv, hfit k hka hkv⟩

/-- What is called by its name has the result and the parameters that its type says. -/
theorem signature_of_known {m : Module} {k : Nat} {u r : Ty} {params : List Ty} {variadic : Bool}
    {space : Nat} {g : Function} (hg : m.function? k = some g)
    (hknown : (Operand.global k u).IsKnown m f)
    (htype : u = .pointer (.function r params variadic) space) :
    g.result = r ∧ g.params = params := by
  have hsym : m.symbols[k]? = some (.function g) := by
    unfold Module.function? at hg
    split at hg <;> cases hg
    assumption
  have hu : g.type.ref = .pointer (.function r params variadic) space := by
    simpa [Operand.IsKnown, hsym, Symbol.type, htype] using
      (show _ = some u from hknown).trans (congrArg some htype)
  obtain ⟨⟨hresult, hparams, -⟩, -⟩ :
      (g.result = r ∧ g.params = params ∧ g.variadic = variadic) ∧ 0 = space := by
    simpa [Function.type, Ty.ref] using hu
  exact ⟨hresult, hparams⟩

section

variable (hm : R.Sound p.module mem) (henv : R.EnvFits mem.storage f env)
  (hinit : p.module.InitializersFit)
include hm henv hinit

theorem evalAll_meets {os : List Operand} (hk : ∀ o ∈ os, o.IsKnown p.module f)
    (he : ∀ o ∈ os, o.Allowed Err p.module f env) :
    Meets R p.module (os.mapM (eval p f env)) mem
      (fun s vs => List.Forall₂ (fun o v => R.Fits s (Operand.type o) v) os vs) Err :=
  .mapM (fun _ _ _ _ hs h => h.mono hs) os hm fun o ho _ hm₁ hext =>
    eval_meets hm₁ (henv.mono hext) hinit (hk o ho) (he o ho)

theorem compute_meets {i : Instr} (hi : i.IsTyped p.module f) (hcontrol : i.op.isControl = false)
    (hr : i.op.makesAddress = true → R.addresses) (he : i.Allowed R Err p f env mem) :
    Meets R p.module (compute (eval p f env) f i.type i.op) mem
      (fun s v => R.Fits s i.type v) Err := by
  have hev {o : Operand} {mem₁ : Memory} (hm₁ : R.Sound p.module mem₁)
      (hext : mem.storage.Extends mem₁.storage) (ho : o ∈ i.op.operands)
      (hv : o ∈ i.op.values) :
      Meets R p.module (eval p f env o) mem₁ (fun s v => R.Fits s o.type v) Err :=
    eval_meets hm₁ (henv.mono hext) hinit (hi.known o hv) (he.operands o ho)
  by_cases hc : i.op.isComputed = true
  · rw [compute_eq_result _ f i.type hc]
    have hval : i.op.values = i.op.operands := by
      cases h : i.op <;> simp_all [OpOver.isComputed, OpOver.values]
    refine .bind (evalAll_meets hm henv hinit (fun o ho => hi.known o (hval ▸ ho)) he.operands)
      fun vs mem₁ hon hm₁ _ hvs => ?_
    exact Meets.lift (P := fun s v => R.Fits s i.type v) hm₁ (fun v hv => result_fits hi.rule hi.keepsPointers hr hvs hv)
      fun e hv => he.results hc vs mem₁ e hon hvs hv
  · obtain ⟨id, t, op⟩ := i
    have hrule := hi.rule
    cases op with
    | select c a b =>
        obtain ⟨ha, hb⟩ := hrule
        dsimp only at ha hb
        refine .bind (hev (o := c) hm (.refl _) (by simp [OpOver.operands])
          (by simp [OpOver.values, OpOver.operands])) fun x mem₁ _ hm₁ hext _ => ?_
        split
        · exact (hev (o := a) hm₁ hext (by simp [OpOver.operands])
            (by simp [OpOver.values, OpOver.operands])).mono fun s v hv => ha ▸ hv
        · exact (hev (o := b) hm₁ hext (by simp [OpOver.operands])
            (by simp [OpOver.values, OpOver.operands])).mono fun s v hv => hb ▸ hv
    | alloca u count =>
        cases (show t = .pointer u 0 from hrule)
        refine .bind (Meets.allocate hm (Regime.zero_fits u)) fun id mem₁ _ hm₁ _ hid => ?_
        obtain ⟨hk, c, hc, ht⟩ := hid
        exact .pure hm₁ (.cell hk hc ht)
    | load a =>
        obtain ⟨space, ha⟩ := hrule
        refine .bind (hev (o := a) hm (.refl _) (by simp [OpOver.operands])
          (by simp [OpOver.values, OpOver.operands])) fun x mem₁ _ hm₁ _ hx => ?_
        rw [ha] at hx
        unfold cellOf
        split
        · exact .bind (.pure (P := fun _ k => k = _) hm₁ rfl) fun k mem₂ hon _ _ hk => by
            cases hon
            exact .bind (Meets.cell hm₁ hx) fun c mem₃ _ hm₃ _ hc => .pure hm₃ hc
        · exact .bind (.throw (P := fun _ _ => True) hm₁ (he.rawPointers rfl)) fun _ _ hon => by
            cases hon
    | store v a =>
        obtain ⟨rfl, space, ha⟩ := hrule
        refine .bind (hev (o := v) hm (.refl _) (by simp [OpOver.operands])
          (by simp [OpOver.values, OpOver.operands])) fun x mem₁ _ hm₁ hext₁ hx => ?_
        refine .bind (hev (o := a) hm₁ hext₁ (by simp [OpOver.operands])
          (by simp [OpOver.values, OpOver.operands])) fun y mem₂ _ hm₂ hext₂ hy => ?_
        rw [ha] at hy
        unfold cellOf
        split
        · exact .bind (.pure (P := fun _ k => k = _) hm₂ rfl) fun k mem₃ hon _ _ hk => by
            cases hon
            exact .bind (Meets.write hm₂ hy (hx.mono hext₂)) fun _ mem₄ _ hm₄ _ _ =>
              .pure hm₄ (Regime.null_fits rfl rfl)
        · exact .bind (.throw (P := fun _ _ => True) hm₂ (he.rawPointers rfl)) fun _ _ hon => by
            cases hon
    | int | fp | fneg | icmp | fcmp | cast => exact absurd rfl hc
    | ret | br | condBr | switch | unreachable | call | invoke => cases hcontrol
    | _ => exact .throw hm (he.unruled rfl)

theorem chooseCase_meets {v : Value} {default : Nat} {cases : List (Operand × Nat)}
    (hk : ∀ c ∈ cases, c.1.IsKnown p.module f)
    (he : ∀ c ∈ cases, c.1.Allowed Err p.module f env) :
    Meets R p.module (chooseCase (eval p f env) v default cases) mem
      (fun _ t => t ∈ default :: cases.map Prod.snd) Err := by
  induction cases generalizing mem with
  | nil => exact .pure hm (by simp)
  | cons c rest ih =>
      refine .bind (eval_meets hm henv hinit (hk c (by simp)) (he c (by simp)))
        fun x mem₁ _ hm₁ hext _ => ?_
      split
      · exact .pure hm₁ (by simp)
      · refine (ih hm₁ (henv.mono hext) (fun c hc => hk c (by simp [hc]))
          (fun c hc => he c (by simp [hc]))).mono fun _ t ht => ?_
        rcases List.mem_cons.mp ht with rfl | ht
        · simp
        · simp [ht]

theorem call_meets {i : Instr} {callee : Operand} {args : List Operand}
    (hop : i.op = .call callee args) (hi : i.IsTyped p.module f)
    (he : i.Allowed R Err p f env mem) :
    Meets R p.module (call p (eval p f env) f callee args) mem
      (fun s sig => sig.Fits R p.module f i s) Err := by
  have hoperands : i.op.operands = callee :: args := by rw [hop]; rfl
  have hvalues : i.op.values = callee :: args := by rw [hop]; rfl
  have hindirect := he.indirect callee args hop
  obtain ⟨params, variadic, space, htype, hargs⟩ : OpOver.Typed f i.type (.call callee args) :=
    hop ▸ hi.rule
  have hknown := hi.known callee (by simp [hvalues])
  unfold call
  split
  · rename_i k u
    split
    · rename_i g hg
      obtain ⟨hresult, hparams⟩ := signature_of_known hg hknown htype
      refine .bind (evalAll_meets hm henv hinit (fun o ho => hi.known o (by simp [hvalues, ho]))
        (fun o ho => he.operands o (by simp [hoperands, ho]))) fun vs mem₁ _ hm₁ _ hvs => ?_
      exact .pure hm₁ ⟨g, hg, hresult, hparams ▸ argsFit_of_forall hargs hvs⟩
    · rename_i hg
      refine .throw hm (hindirect fun k' t' g heq hg' => ?_)
      cases heq
      rw [hg] at hg'
      cases hg'
  · rename_i hnot
    exact .throw hm (hindirect fun k t g heq => absurd heq (hnot k t))

/-- What an instruction that is typed asks for fits. -/
theorem perform_meets {i : Instr} (hi : i.IsTyped p.module f)
    (hr : i.op.makesAddress = true → R.addresses) (he : i.Allowed R Err p f env mem) :
    Meets R p.module (perform p f env i) mem (fun s sig => sig.Fits R p.module f i s) Err := by
  have hev {o : Operand} (ho : o ∈ i.op.operands) (hv : o ∈ i.op.values) :
      Meets R p.module (eval p f env o) mem (fun s v => R.Fits s o.type v) Err :=
    eval_meets hm henv hinit (hi.known o hv) (he.operands o ho)
  have hrule := hi.rule
  unfold perform control
  dsimp only
  split
  · rename_i hop
    rw [hop] at hrule
    refine .pure hm ?_
    show R.Fits mem.storage f.result .null
    rw [show f.result = .void from hrule]
    exact Regime.null_fits rfl rfl
  · rename_i v hop
    rw [hop] at hrule
    refine .bind (hev (o := v) (by simp [hop, OpOver.operands])
      (by simp [hop, OpOver.values, OpOver.operands])) fun x mem₁ _ hm₁ _ hx => ?_
    exact .pure hm₁ (show R.Fits _ f.result x from (show v.type = f.result from hrule) ▸ hx)
  · rename_i t hop
    exact .pure hm (by simp [Signal.Fits, hop, OpOver.targets])
  · rename_i c t e hop
    refine .bind (hev (o := c) (by simp [hop, OpOver.operands])
      (by simp [hop, OpOver.values, OpOver.operands])) fun x mem₁ _ hm₁ _ _ => ?_
    refine .pure hm₁ ?_
    cases x.isTrue <;> simp [Signal.Fits, hop, OpOver.targets]
  · rename_i v d cases hop
    refine .bind (hev (o := v) (by simp [hop, OpOver.operands])
      (by simp [hop, OpOver.values, OpOver.operands])) fun x mem₁ _ hm₁ hext _ => ?_
    have hmem {c : Operand × Nat} (hc : c ∈ cases) : c.1 ∈ i.op.operands := by
      simp only [hop, OpOver.operands, List.mem_cons, List.mem_map]
      exact .inr ⟨c, hc, rfl⟩
    refine .bind (chooseCase_meets hm₁ (henv.mono hext) hinit
      (fun c hc => hi.known c.1 (by simpa [hop, OpOver.values] using hop ▸ hmem hc))
      (fun c hc => he.operands c.1 (hmem hc))) fun t mem₂ _ hm₂ _ ht => ?_
    exact .pure hm₂ (by simpa [Signal.Fits, hop, OpOver.targets] using ht)
  · rename_i hop
    exact .throw hm (he.unreachable hop)
  · rename_i callee args hop
    exact call_meets hm henv hinit hop hi he
  · rename_i hop
    rw [hop] at hrule
    exact hrule.elim
  · have hcontrol : i.op.isControl = false := by
      cases hop : i.op with
      | ret v => cases v <;> simp_all
      | br | condBr | switch | unreachable | call => simp_all
      | invoke => rw [hop] at hrule; exact hrule.elim
      | _ => rfl
    exact .bind (compute_meets hm henv hinit hi hcontrol hr he)
      fun v mem₁ _ hm₁ _ hv => .pure hm₁ hv

end

end Interpreted

end Ssa

/-
# `Ssa.Proofs.Program.Labelled` — control leads to what is there

A body calls its blocks by keys of the draft, and a key stands for a block of the function that the body
is of.  Blocks are only added, and at the end, so what was the number of a block goes on to be one.  An
instruction therefore leads only to blocks of its own function, whatever the draft asks for, and also if
the draft is refused half-way.

**Proved here.**

    an instruction of a draft leads only to blocks of its function   (`emit_labels`, `perform_labels`)
    bodies and whole drafts leave it so                                (`buildBody_labels`, `apply_labels`)
    so it is in every module that is made step by step                 (`Made.isLabelled`)
-/
import Ssa.Proofs.Program.Changes

namespace Ssa

/-! ## Blocks that are there -/

/-- The blocks that a function leads to are there. -/
def Function.IsLabelled (f : Function) : Prop :=
  ∀ b, ∀ i ∈ f.instrs b, ∀ t ∈ i.op.targets, t < f.blocks.size

/-- The blocks that the functions of a module lead to are there. -/
def Module.IsLabelled (m : Module) : Prop := ∀ k f, m.function? k = some f → f.IsLabelled

/-- The function at a position has a block. -/
def Module.HasBlock (m : Module) (fn b : Nat) : Prop :=
  ∃ f, m.function? fn = some f ∧ b < f.blocks.size

/-- The blocks of a module stay. -/
def Module.Widens (m m' : Module) : Prop := ∀ fn b, m.HasBlock fn b → m'.HasBlock fn b

namespace Module

variable {m m' : Module} {fn : Nat} {f f' : Function}

/-- The same functions have the same blocks. -/
theorem IsLabelled.of_function? (h : m.IsLabelled) (hsame : ∀ k, m'.function? k = m.function? k) :
    m'.IsLabelled ∧ m.Widens m' := by
  refine ⟨fun k f hf => h k f (hsame k ▸ hf), ?_⟩
  rintro fn b ⟨f, hf, hb⟩
  exact ⟨f, (hsame fn).trans hf, hb⟩

/-- A function may be changed that keeps its blocks and leads only to blocks that are there. -/
theorem IsLabelled.replace (h : m.IsLabelled) (hf : m.function? fn = some f)
    (hsize : f.blocks.size ≤ f'.blocks.size) (hf' : f'.IsLabelled) :
    (m.replace fn (.function f')).IsLabelled ∧ m.Widens (m.replace fn (.function f')) := by
  have hk := lt_of_function? hf
  refine ⟨fun k g hg => ?_, ?_⟩
  · rw [function?_replace] at hg
    split at hg
    · cases hg
      exact hf'
    · exact h k g hg
  · rintro k b ⟨g, hg, hb⟩
    unfold HasBlock
    rw [function?_replace]
    by_cases hkf : k = fn
    · subst hkf
      rw [if_pos ⟨rfl, hk⟩]
      cases hf.symm.trans hg
      exact ⟨f', rfl, Nat.lt_of_lt_of_le hb hsize⟩
    · rw [if_neg fun hboth => hkf hboth.1]
      exact ⟨g, hg, hb⟩

/-- A symbol may be declared that leads only to blocks that are there. -/
theorem IsLabelled.declare (h : m.IsLabelled) {s : Symbol} {k : Nat}
    (hs : ∀ g, s = .function g → g.IsLabelled) (hd : m.declare s = .ok (k, m')) :
    m'.IsLabelled ∧ m.Widens m' := by
  obtain ⟨-, -, rfl⟩ := declare_eq_ok hd
  refine ⟨fun j g hg => ?_, ?_⟩
  · rcases function?_push_cases hg with rfl | hg
    · exact hs g rfl
    · exact h j g hg
  · rintro fn b ⟨g, hg, hb⟩
    exact ⟨g, function?_push hg, hb⟩

theorem declareFunction_isLabelled (h : m.IsLabelled) {k : Nat} {name : String} {result : Ty}
    {params : List Ty} {variadic : Bool}
    (hd : m.declareFunction name result params variadic = .ok (k, m')) :
    m'.IsLabelled ∧ m.Widens m' := by
  refine h.declare (fun g hg b i hi => ?_) hd
  cases hg
  rw [Function.instrs_declare] at hi
  cases hi

theorem addVariable_isLabelled (h : m.IsLabelled) {k : Nat} {name : String} {type : Ty}
    (hd : m.addVariable name type = .ok (k, m')) : m'.IsLabelled ∧ m.Widens m' := by
  obtain ⟨v, hv⟩ := declare_of_addVariable hd
  exact h.declare (fun g hg => by cases hg) hv

theorem setInitializer_isLabelled (h : m.IsLabelled) (k : Nat) (init : Operand) :
    (m.setInitializer k init).IsLabelled ∧ m.Widens (m.setInitializer k init) := by
  refine h.of_function? fun i => ?_
  unfold setInitializer
  split
  · exact function?_replaceVariable ‹_› i
  · rfl

end Module

namespace Function

variable {f : Function}

theorem size_addBlock (f : Function) (name : String) :
    (f.addBlock name).2.blocks.size = f.blocks.size + 1 := Array.size_push _

/-- A further block has no instructions. -/
theorem IsLabelled.addBlock (h : f.IsLabelled) (name : String) : (f.addBlock name).2.IsLabelled := by
  intro b i hi t ht
  rw [instrs_addBlock] at hi
  rw [size_addBlock]
  exact Nat.lt_succ_of_lt (h b i hi t ht)

/-- The instructions of a block may be changed to some that lead only to blocks that are there. -/
theorem IsLabelled.modify (h : f.IsLabelled) {g : List Instr → List Instr} {block : Nat}
    (hg : ∀ i ∈ g (f.instrs block), ∀ t ∈ i.op.targets, t < f.blocks.size) :
    ({ f with blocks := f.blocks.modify block fun b => { b with instrs := g b.instrs } } :
      Function).IsLabelled := by
  intro b i hi t ht
  show t < (f.blocks.modify block _).size
  rw [Array.size_modify]
  by_cases hb : block = b
  · subst hb
    rcases mem_instrs_modify hi with hi | hi
    · exact h block i hi t ht
    · exact hg i hi t ht
  · refine h b i ?_ t ht
    unfold instrs at hi ⊢
    dsimp only at hi
    rwa [Array.getElem?_modify, if_neg hb] at hi

end Function

/-! ## Steps of building -/

namespace Build

/-- Building leads only to blocks that are there, which stay. -/
abbrev labelling : Keeping Workbench where
  holds w := w.module.IsLabelled
  grows w w' := w.module.Widens w'.module
  refl _ _ _ h := h
  trans h h' fn b hb := h' fn b (h fn b hb)

/-- A step of building leads only to blocks that are there, and what it gives satisfies a condition. -/
abbrev Labels {α : Type} (x : Build α) (w : Workbench) (Post : Workbench → α → Prop) : Prop :=
  Effect.Meets labelling x w Post fun _ => True

variable {α β : Type} {w : Workbench} {fn : Nat} (hw : w.module.IsLabelled)
include hw

theorem lift_labels (x : Except Failure α) : Labels (Build.lift x) w fun w' _ => w' = w := by
  cases x with
  | ok a => exact .pure hw rfl
  | error e => exact .throw hw trivial

/-- Making types changes no module. -/
theorem labels_of_types (types : TypeTable) :
    Labels (set { w with types }) w fun w' _ => w'.module = w.module :=
  ⟨hw, fun _ _ h => h, fun _ _ h => by cases h; rfl, fun _ _ _ => trivial⟩

theorem mention_labels (t : Ty) : Labels (mention t) w fun _ _ => True := by
  refine .forM hw fun step _ w₁ hw₁ _ => .get ?_
  refine .bind (lift_labels hw₁ _) fun types w₂ _ _ _ hsame => ?_
  subst hsame
  exact (labels_of_types hw₁ types).mono fun _ _ _ => trivial

omit hw in
theorem modifyModule_labels {change : Module → Module}
    (h : (change w.module).IsLabelled ∧ w.module.Widens (change w.module)) :
    Labels (modifyModule change) w fun w' _ => w' = { w with module := change w.module } :=
  .changed h.1 h.2

theorem declare_labels {act : Module → Except Failure (Nat × Module)}
    (h : ∀ k m', act w.module = .ok (k, m') → m'.IsLabelled ∧ w.module.Widens m') :
    Labels (declare act) w fun _ _ => True := by
  refine .get ?_
  cases hact : act w.module with
  | error e => exact .throw hw trivial
  | ok r =>
      obtain ⟨hr, hwidens⟩ := h r.1 r.2 hact
      exact ⟨hr, hwidens, fun _ _ _ => trivial, fun _ _ _ => trivial⟩

theorem declareFunction_labels (name : String) (result : Ty) (params : List Ty) (variadic : Bool) :
    Labels (declare (·.declareFunction name result params variadic)) w fun _ _ => True :=
  declare_labels hw fun _ _ hd => Module.declareFunction_isLabelled hw hd

theorem addFunction_labels (name : String) (result : Ty) (params : List Ty) (variadic : Bool) :
    Labels (declare (·.addFunction name result params variadic)) w fun _ _ => True :=
  declare_labels hw fun _ _ hd =>
    Module.declareFunction_isLabelled hw (Module.declareFunction_of_addFunction hd)

theorem addVariable_labels (name : String) (type : Ty) :
    Labels (declare (·.addVariable name type)) w fun _ _ => True :=
  declare_labels hw fun _ _ hd => Module.addVariable_isLabelled hw hd

theorem adopt_labels (k : Nat) : Labels (adopt k) w fun _ _ => True := by
  have hsame : (if w.table.contains k then w else { w with table := w.table ++ [k] }).module =
      w.module := by split <;> rfl
  refine (Effect.Meets.changed (K := labelling) ?_ fun fn b hb => ?_).mono fun _ _ _ => trivial
  · show Module.IsLabelled _
    rw [hsame]
    exact hw
  · show Module.HasBlock _ fn b
    rw [hsame]
    exact hb

/-- The number of a further block is that of a block. -/
theorem appendBlock_labels (name : String) :
    Labels (appendBlock fn name) w fun w' b => w'.module.HasBlock fn b := by
  refine .get ?_
  split
  · exact .throw hw trivial
  · rename_i f hf
    have hsize : f.blocks.size < (f.addBlock name).2.blocks.size := by
      rw [Function.size_addBlock]
      exact Nat.lt_succ_self _
    refine .bind (modifyModule_labels (hw.replace hf (Nat.le_of_lt hsize) ((hw fn f hf).addBlock name)))
      fun _ w₁ _ hw₁ _ heq => .pure hw₁ ⟨(f.addBlock name).2, ?_, hsize⟩
    rw [heq]
    show (w.module.replace fn (.function (f.addBlock name).2)).function? fn = _
    rw [Module.function?_replace, if_pos ⟨rfl, Module.lt_of_function? hf⟩]

/-- Instructions of a block may be changed to some that lead only to blocks that are there. -/
theorem modifyInstrs_labels {block : Nat} {g : List Instr → List Instr}
    (h : ∀ is, (∀ i ∈ is, ∀ t ∈ i.op.targets, w.module.HasBlock fn t) →
      ∀ i ∈ g is, ∀ t ∈ i.op.targets, w.module.HasBlock fn t) :
    Labels (modifyModule (·.modifyFunction fn fun f =>
      { f with blocks := f.blocks.modify block fun b => { b with instrs := g b.instrs } })) w
      fun _ _ => True := by
  refine (modifyModule_labels ?_).mono fun _ _ _ => trivial
  unfold Module.modifyFunction
  split
  · rename_i f hf
    refine hw.replace hf (Array.size_modify ▸ Nat.le_refl _) ((hw fn f hf).modify fun i hi t ht => ?_)
    obtain ⟨f', hf', hlt⟩ := h (f.instrs block)
      (fun j hj t ht => ⟨f, hf, hw fn f hf block j hj t ht⟩) i hi t ht
    cases hf.symm.trans hf'
    exact hlt
  · exact ⟨hw, fun _ _ hb => hb⟩

theorem insert_labels {block : Nat} {i : Instr} (hi : ∀ t ∈ i.op.targets, w.module.HasBlock fn t) :
    Labels (insert fn block i) w fun _ _ => True := by
  refine modifyInstrs_labels (g := (· ++ [i])) hw fun is his j hj => ?_
  rcases List.mem_append.mp hj with hj | hj
  · exact his j hj
  · cases List.mem_singleton.mp hj
    exact hi

/-- An instruction may be added that leads only to blocks that are there. -/
theorem emit_labels {block : Nat} {name : String} {asked : Ty} {op : Op}
    (hop : ∀ t ∈ op.targets, w.module.HasBlock fn t) :
    Labels (emit fn block name asked op) w fun _ _ => True := by
  refine .get (.bind (lift_labels hw _) fun type w₁ _ _ _ hsame => ?_)
  subst hsame
  split
  · exact .throw hw trivial
  rename_i f hf
  have hf' : (f.addLocal name type op.form).2.IsLabelled := hw fn f hf
  refine .bind (modifyModule_labels (hw.replace hf (Nat.le_refl _) hf')) fun _ w₂ _ hw₂ hg₂ _ => ?_
  refine .bind (P := fun w' _ => w' = w₂) (.get (.pure hw₂ rfl)) fun ended w₃ _ hw₃ _ hsame => ?_
  subst hsame
  refine .guarded hw₃ trivial ?_
  exact .next (insert_labels hw₃ fun t ht => hg₂ fn t (hop t ht)) fun _ _ hw₄ => .pure hw₄ trivial

/-- So may one that leads nowhere. -/
theorem emit_straight {block : Nat} {name : String} {asked : Ty} {op : Op} (hop : op.targets = []) :
    Labels (emit fn block name asked op) w fun _ _ => True :=
  emit_labels hw (by simp [hop])

omit hw in
/-- A change of operations that leads only to blocks that are there. -/
def Aims (m : Module) (fn : Nat) (change : Op → Op) : Prop :=
  ∀ op, (∀ t ∈ op.targets, m.HasBlock fn t) → ∀ t ∈ (change op).targets, m.HasBlock fn t

theorem modifyOp_labels {block id : Nat} {change : Op → Op} (h : Aims w.module fn change) :
    Labels (modifyOp fn block id change) w fun _ _ => True := by
  refine modifyInstrs_labels (g := List.map fun i =>
    if i.id = id then { i with op := change i.op } else i) hw fun is his j hj => ?_
  obtain ⟨i, hi, rfl⟩ := List.mem_map.mp hj
  split
  · exact h i.op (his i hi)
  · exact his i hi

theorem setIncoming_labels (block id : Nat) (incoming : List (Operand × Nat)) :
    Labels (setIncoming fn block id incoming) w fun _ _ => True :=
  modifyOp_labels hw fun _ _ => nofun

theorem emitGrowing_labels {block : Nat} {name : String} {op : Op} {parts : List β}
    {grow : β → Build (Op → Op)} (hop : ∀ t ∈ op.targets, w.module.HasBlock fn t)
    (hgrow : ∀ part w₁, w₁.module.IsLabelled → w.module.Widens w₁.module →
      Labels (grow part) w₁ fun w' change => Aims w'.module fn change) :
    Labels (emitGrowing fn block name op parts grow) w fun _ _ => True := by
  refine .bind (emit_labels hw hop) fun o w₁ _ hw₁ hg₁ _ => ?_
  refine .next (.forM hw₁ fun part _ w₂ hw₂ hg₂ => ?_) fun _ _ hw₃ => .pure hw₃ trivial
  refine .bind (hgrow part w₂ hw₂ fun fn b hb => hg₂ fn b (hg₁ fn b hb))
    fun change w₃ _ hw₃ _ haims => ?_
  split
  · exact modifyOp_labels hw₃ haims
  · exact .pure hw₃ trivial

end Build

/-! ## Bodies and drafts -/

namespace Draft

open Build (Labels lift_labels)

/-- The keys of blocks stand for blocks of the function. -/
def Progress.HasBlocks (m : Module) (p : Progress) : Prop := ∀ e ∈ p.blocks, m.HasBlock p.fn e.2

theorem Progress.HasBlocks.mono {m m' : Module} {p : Progress} (h : p.HasBlocks m)
    (hm : m.Widens m') : p.HasBlocks m' := fun e he => hm _ _ (h e he)

variable {w : Workbench} {p : Progress} (hw : w.module.IsLabelled)
include hw

theorem look_labels {α : Type} (entries : List (String × α)) (key : String) :
    Labels (look entries key) w fun w' a => w' = w ∧ (key, a) ∈ entries := by
  unfold look
  split
  · exact .pure hw ⟨rfl, mem_of_lookup ‹_›⟩
  · exact .throw hw trivial

/-- A key of a block leads to a block. -/
theorem lookBlock_labels (hp : p.HasBlocks w.module) (key : String) :
    Labels (look p.blocks key) w fun w' b => w'.module.HasBlock p.fn b := by
  refine (look_labels hw p.blocks key).mono ?_
  rintro w' b ⟨rfl, hmem⟩
  exact hp _ hmem

theorem symbolOperand_labels (name : String) : Labels (symbolOperand name) w fun _ _ => True := by
  refine .get ?_
  dsimp only
  split
  · exact .pure hw trivial
  · exact .throw hw trivial

theorem makeConstant_labels (r : Recipe) : Labels (makeConstant r) w fun _ _ => True :=
  .next (Build.mention_labels hw _) fun _ _ hw₁ => .get ((lift_labels hw₁ _).mono fun _ _ _ => trivial)

theorem Value.resolve_labels (p : Progress) (v : Value) : Labels (v.resolve p) w fun _ _ => True := by
  cases v with
  | key k => exact (look_labels hw p.values k).mono fun _ _ _ => trivial
  | symbol name => exact symbolOperand_labels hw name
  | constant r => exact .next (makeConstant_labels hw r) fun _ _ hw₁ => .pure hw₁ trivial

theorem intrinsicOperand_labels (which : Intrinsic) (t : Ty) :
    Labels (intrinsicOperand which t) w fun _ _ => True := by
  have hdeclare (name : String) (w₁ : Workbench) (hw₁ : w₁.module.IsLabelled) : Labels (do
      if ((← get).module.index? name).isNone then
        discard (Build.declare
          (·.declareFunction name (which.signature t).1 (which.signature t).2 false))
      symbolOperand name) w₁ fun _ _ => True := by
    refine .get ?_
    split
    · exact .next (.discard (Build.declareFunction_labels hw₁ _ _ _ _)) fun _ _ hw₂ =>
        symbolOperand_labels hw₂ name
    · exact symbolOperand_labels hw₁ name
  unfold intrinsicOperand
  dsimp only
  split
  · rw [pure_bind]
    exact hdeclare _ w hw
  · exact .next (P := fun _ _ => True) (.throw (α := String) hw trivial)
      fun name w₁ hw₁ => hdeclare name w₁ hw₁

theorem fillConstant_labels (v : Int) (t : Ty) : Labels (fillConstant v t) w fun _ _ => True :=
  .get (.next (lift_labels hw _) fun _ _ hw₁ => .pure hw₁ trivial)

theorem resolveCase_labels (hp : p.HasBlocks w.module) (t : Ty) (label : CaseLabel) (target : String) :
    Labels (resolveCase p t label target) w fun w' r => w'.module.HasBlock p.fn r.2 := by
  cases label with
  | constant r =>
      refine .bind (makeConstant_labels hw r) fun c w₁ _ hw₁ hg₁ _ => ?_
      exact .bind (lookBlock_labels hw₁ (hp.mono hg₁) target) fun b _ _ hw₂ _ hb => .pure hw₂ hb
  | number content =>
      refine .bind (lookBlock_labels hw hp target) fun b w₁ _ hw₁ _ hb => .get ?_
      refine .bind (lift_labels hw₁ _) fun c w₂ _ hw₂ _ hsame => ?_
      subst hsame
      exact .pure hw₂ hb

theorem mention_each_labels (ts : List Ty) :
    Labels (forIn ts PUnit.unit fun t _ => do
      Build.mention t
      pure (ForInStep.yield PUnit.unit)) w fun _ _ => True :=
  .each hw fun t _ _ hw₁ _ => Build.mention_labels hw₁ t

omit hw in
/-- A case may be added whose block is there. -/
theorem aims_switch {m : Module} {fn b : Nat} (hb : m.HasBlock fn b) (c : Constant) :
    Build.Aims m fn fun op => match op with
      | .switch v d cases => .switch v d (cases ++ [(.const c, b)])
      | op => op := by
  intro op hop t ht
  cases op with
  | switch v d cases =>
      simp only [OpOver.targets, List.map_append, List.map_cons, List.map_nil, List.mem_cons,
        List.mem_append, List.not_mem_nil, or_false] at ht
      rcases ht with rfl | ht | rfl
      · exact hop _ List.mem_cons_self
      · exact hop t (List.mem_cons_of_mem _ ht)
      · exact hb
  | _ => exact hop t ht

omit hw in
/-- So may a target of a branch to an address. -/
theorem aims_indirectBr {m : Module} {fn b : Nat} (hb : m.HasBlock fn b) :
    Build.Aims m fn fun op => match op with
      | .indirectBr a targets => .indirectBr a (targets ++ [b])
      | op => op := by
  intro op hop t ht
  cases op with
  | indirectBr a targets =>
      rcases List.mem_append.mp ht with ht | ht
      · exact hop t ht
      · exact List.mem_singleton.mp ht ▸ hb
  | _ => exact hop t ht

/-- What an instruction of a draft asks for leads only to blocks that are there. -/
theorem Action.perform_labels (hp : p.HasBlocks w.module) (block : Nat) (name : String)
    (a : Action) : Labels (a.perform p block name) w fun _ _ => True := by
  cases a with
  | op o =>
      refine .bind (mention_each_labels hw _) fun _ w₁ _ hw₁ hg₁ _ => ?_
      refine .bind (OpOver.traverse_meets (K := Build.labelling) (w := w₁) (P := fun _ _ => True)
        (Q := fun w' b => w'.module.HasBlock p.fn b) (fun _ _ _ _ _ => trivial)
        (fun _ _ b hg hb => hg _ b hb) (fun v w' hw' _ => v.resolve_labels hw' p)
        (fun t w' hw' hg => lookBlock_labels hw' ((hp.mono hg₁).mono hg) t) hw₁ o)
        fun resolved w₂ _ hw₂ _ hresolved => ?_
      exact Build.emit_labels hw₂ hresolved.2
  | switch v d cases =>
      refine .bind (v.resolve_labels hw p) fun x w₁ _ hw₁ hg₁ _ => ?_
      refine .bind (lookBlock_labels hw₁ (hp.mono hg₁) d) fun b w₂ _ hw₂ hg₂ hb => ?_
      refine Build.emitGrowing_labels hw₂ (by simpa [OpOver.targets] using hb)
        fun part w₃ hw₃ hg₃ => ?_
      have hp₃ := ((hp.mono hg₁).mono hg₂).mono hg₃
      exact .bind (resolveCase_labels hw₃ hp₃ _ part.1 part.2) fun entry _ _ hw₄ _ hb =>
        .pure hw₄ (aims_switch hb entry.1)
  | indirectBr a targets =>
      refine .bind (a.resolve_labels hw p) fun x w₁ _ hw₁ hg₁ _ => ?_
      refine Build.emitGrowing_labels hw₁ (by simp [OpOver.targets]) fun part w₂ hw₂ hg₂ => ?_
      exact .bind (lookBlock_labels hw₂ ((hp.mono hg₁).mono hg₂) part) fun b w₃ _ hw₃ _ hb =>
        .pure hw₃ (aims_indirectBr hb)
  | cast c a t =>
      refine .next (a.resolve_labels hw p) fun x _ hw₁ =>
        .next (Build.mention_labels hw₁ t) fun _ _ hw₂ => ?_
      split
      · exact .pure hw₂ trivial
      · exact Build.emit_straight hw₂ rfl
  | phi t incoming =>
      exact .next (Build.mention_labels hw t) fun _ _ hw₁ => Build.emit_straight hw₁ rfl
  | negate a | complement a =>
      exact .next (a.resolve_labels hw p) fun _ _ hw₁ => .next (fillConstant_labels hw₁ _ _)
        fun _ _ hw₂ => Build.emit_straight hw₂ rfl
  | intrinsic which args =>
      refine .next (.mapM_all (T := fun _ _ => True) (fun _ _ _ _ _ => trivial) args hw
        fun v _ _ hw₁ _ => v.resolve_labels hw₁ p) fun os w₁ hw₁ => ?_
      exact .next (lift_labels hw₁ _) fun t _ hw₂ => .next (intrinsicOperand_labels hw₂ which t)
        fun _ _ hw₃ => Build.emit_straight hw₃ rfl
  | unknownPredicate a b =>
      exact .next (.discard (a.resolve_labels hw p)) fun _ _ hw₁ =>
        .next (.discard (b.resolve_labels hw₁ p)) fun _ _ hw₂ => .throw hw₂ trivial

theorem Step.build_labels (hp : p.HasBlocks w.module) (block : Nat) (s : Step) :
    Labels (s.build block p) w fun w' p' => p'.HasBlocks w'.module :=
  .bind (s.action.perform_labels hw hp block s.name) fun _ _ _ hw₁ hg₁ _ => .pure hw₁ (hp.mono hg₁)

theorem setPhi_labels (p : Progress) (phi : Nat × Nat × List (Value × String)) :
    Labels (setPhi p phi) w fun _ _ => True := by
  obtain ⟨block, id, incoming⟩ := phi
  refine .next (.mapM_all (T := fun _ _ => True) (fun _ _ _ _ _ => trivial) incoming hw
    fun e _ w₁ hw₁ _ => ?_) fun es w₁ hw₁ => Build.setIncoming_labels hw₁ block id es
  exact .next (e.1.resolve_labels hw₁ p) fun _ _ hw₂ => .next (look_labels hw₂ _ e.2) fun _ _ hw₃ =>
    .pure hw₃ trivial

/-- A body leads only to blocks that are there. -/
theorem buildBody_labels (fn : Nat) (blocks : List Block) :
    Labels (buildBody fn blocks) w fun _ _ => True := by
  refine .get ?_
  split
  · exact .throw hw trivial
  rename_i f hf
  refine .bind (.mapM_all (K := Build.labelling) (T := fun w' b => w'.module.HasBlock fn b)
    (fun _ _ b hg hb => hg fn b hb) blocks hw fun b _ _ hw₁ _ => Build.appendBlock_labels hw₁ b.name) fun ids w₁ _ hw₁ _ hids => ?_
  have hstart : Progress.HasBlocks w₁.module
      ⟨fn, paramValues f, ((blocks.map Block.key).zip ids).reverse, []⟩ := by
    rintro ⟨key, b⟩ he
    exact hids b (List.of_mem_zip (List.mem_reverse.mp he)).2
  refine .next (.foldlM (Q := fun (w' : Workbench) (p : Progress) => p.HasBlocks w'.module) hw₁ hstart
    fun part _ p w₂ hw₂ _ hp => .foldlM hw₂ hp fun s _ p' w₃ hw₃ _ hp' =>
      s.build_labels hw₃ hp' _) fun p w₂ hw₂ => ?_
  exact .next (.each hw₂ fun phi _ _ hw₃ _ => setPhi_labels hw₃ p phi) fun _ _ hw₃ => .pure hw₃ trivial

theorem Variable.declare_labels (v : Variable) : Labels v.declare w fun _ _ => True :=
  .next (Build.mention_labels hw _) fun _ _ hw₁ => .discard (Build.addVariable_labels hw₁ _ _)

theorem Variable.bind_labels (v : Variable) : Labels v.bind w fun _ _ => True := by
  unfold Variable.bind
  split
  · exact .pure hw trivial
  · refine .next (Value.resolve_labels hw _ _) fun o w₁ hw₁ => .get ?_
    split
    · exact (Build.modifyModule_labels (Module.setInitializer_isLabelled hw₁ _ o)).mono
        fun _ _ _ => trivial
    · exact .throw hw₁ trivial

theorem Function.declare_labels (f : Function) : Labels f.declare w fun _ _ => True :=
  .next (Build.mention_labels hw _) fun _ _ hw₁ => .next (Build.addFunction_labels hw₁ _ _ _ _)
    fun k _ hw₂ => .next (Build.adopt_labels hw₂ k) fun _ _ hw₃ => .pure hw₃ trivial

theorem declareType_labels (t : String × Option (List Ty)) :
    Labels (declareType t) w fun _ _ => True := by
  obtain ⟨name, body⟩ := t
  refine .next (Build.mention_labels hw _) fun _ w₁ hw₁ => ?_
  cases body with
  | none => exact .pure hw₁ trivial
  | some fields =>
      refine .next (mention_each_labels hw₁ fields) fun _ w₂ hw₂ => .get ?_
      refine .bind (lift_labels hw₂ _) fun types w₃ _ hw₃ _ hsame => ?_
      subst hsame
      exact (Build.labels_of_types hw₃ types).mono fun _ _ _ => trivial

/-- Applying a draft leads only to blocks that are there, also where it fails. -/
theorem apply_labels (d : Draft) : Labels d.apply w fun _ _ => True := by
  refine .next (.each hw fun t _ _ hw₁ _ => declareType_labels hw₁ t) fun _ w₁ hw₁ => ?_
  refine .next (.each hw₁ fun v _ _ hw₂ _ => v.declare_labels hw₂) fun _ w₂ hw₂ => ?_
  refine .next (.mapM_all (T := fun _ _ => True) (fun _ _ _ _ _ => trivial) _ hw₂
    fun f _ _ hw₃ _ => f.declare_labels hw₃) fun ids w₃ hw₃ => ?_
  refine .next (.each hw₃ fun v _ _ hw₄ _ => v.bind_labels hw₄) fun _ w₄ hw₄ => ?_
  refine .next (.loop hw₄ fun part _ w₅ hw₅ _ => ?_) fun _ _ hw₅ => .pure hw₅ trivial
  obtain ⟨f, i⟩ := part
  dsimp only
  split
  · exact .next (buildBody_labels hw₅ i _) fun _ _ hw₆ => .pure hw₆ rfl
  · exact .pure hw₅ rfl

end Draft

/-! ## Modules that are made -/

namespace Module

variable {m : Module}

theorem empty_isLabelled (name : String) : (Module.empty name).IsLabelled := by
  intro k f hf
  simp [empty, function?] at hf

/-- In every module that is made step by step control leads only to blocks that are there. -/
theorem Made.isLabelled (h : m.Made) : m.IsLabelled := by
  induction h with
  | empty name => exact empty_isLabelled name
  | drafted types table d _ ih => exact (Draft.apply_labels (w := ⟨types, _, table⟩) ih d).holds
  | body types table fn blocks _ ih =>
      exact (Draft.buildBody_labels (w := ⟨types, _, table⟩) ih fn blocks).holds
  | block types table fn name _ ih =>
      exact (Build.appendBlock_labels (w := ⟨types, _, table⟩) ih name).holds
  | function name result params variadic _ hd ih => exact (declareFunction_isLabelled ih hd).1
  | «global» name type _ hd ih => exact (addVariable_isLabelled ih hd).1
  | initializer i init _ ih => exact (setInitializer_isLabelled ih i init).1
  | rendered types _ ih => exact fun k f hf => ih k f (function?_of_render hf)

end Module

end Ssa

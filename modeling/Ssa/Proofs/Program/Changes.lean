/-
# `Ssa.Proofs.Program.Changes` — the ways in which building changes a module

Whatever is built, and also where it is refused half-way, comes to changes of six kinds: a structure
is made, a symbol declared, a function changed in all but its name and its type, an initializer
bound, a line of the text fixed, a function entered into the table.  What these keep, all building
keeps.

**Proved here.**

    a step of building comes to such changes, whether it fails or not   (`emit_goes`, …, `perform_goes`)
    so do bodies and whole drafts                                         (`buildBody_goes`, `apply_goes`)
-/
import Mathlib.Logic.Relation
import Ssa.Proofs.Program.Drafted

namespace Ssa

/-! ## Changes -/

/-- A way in which building changes a workbench. -/
inductive Workbench.Change : Workbench → Workbench → Prop
  | types (w : Workbench) (types : TypeTable) : Change w { w with types }
  | declared {w : Workbench} {s : Symbol} {k : Nat} {m : Module} :
      w.module.declare s = .ok (k, m) → Change w { w with module := m }
  | function {w : Workbench} {k : Nat} {f f' : Function} :
      w.module.function? k = some f → f'.name = f.name → f'.type = f.type →
      Change w { w with module := w.module.replace k (.function f') }
  | initializer (w : Workbench) (k : Nat) (init : Operand) :
      Change w { w with module := w.module.setInitializer k init }
  | rendered (w : Workbench) (types : TypeTable) :
      Change w { w with module := (w.module.render types).2 }
  | adopted {w : Workbench} {k : Nat} :
      (w.module.function? k).isSome → k ∉ w.table → Change w { w with table := w.table ++ [k] }

/-- One workbench comes of another by changes. -/
abbrev Workbench.Leads : Workbench → Workbench → Prop := Relation.ReflTransGen Workbench.Change

/-! ## Building changes a workbench in no other way -/

namespace Build

/-- Building goes from one workbench to others by changes. -/
abbrev changing : Keeping Workbench where
  holds _ := True
  grows := Workbench.Leads
  refl _ := .refl
  trans h h' := h.trans h'

/-- A step of building comes to changes of a workbench. -/
abbrev Goes {α : Type} (x : Build α) (w : Workbench) : Prop :=
  Effect.Meets changing x w (fun _ _ => True) fun _ => True

variable {α β : Type} {w : Workbench}

theorem goes_of_leads {x : Build α} (h : w.Leads (x.on w).2) : Goes x w :=
  ⟨trivial, h, fun _ _ _ => trivial, fun _ _ _ => trivial⟩

theorem pure_goes (a : α) : Goes (pure a) w := .pure trivial trivial

theorem throw_goes (e : Failure) : Goes (throw e : Build α) w := .throw trivial trivial

theorem lift_goes (x : Except Failure α) : Goes (Build.lift x) w := by
  cases x with
  | ok a => exact pure_goes a
  | error e => exact throw_goes e

theorem mention_goes (t : Ty) : Goes (mention t) w := by
  refine .forM trivial fun step _ w₁ _ _ => .get ?_
  cases w₁.types.make step with
  | error e => exact throw_goes e
  | ok types => exact goes_of_leads (.single (.types w₁ types))

theorem modifyModule_goes {change : Module → Module}
    (h : w.Leads { w with module := change w.module }) : Goes (modifyModule change) w :=
  goes_of_leads h

theorem declare_goes {act : Module → Except Failure (Nat × Module)}
    (h : ∀ k m', act w.module = .ok (k, m') → ∃ s, w.module.declare s = .ok (k, m')) :
    Goes (declare act) w := by
  refine .get ?_
  cases hact : act w.module with
  | error e => exact throw_goes e
  | ok r =>
      obtain ⟨s, hs⟩ := h r.1 r.2 hact
      exact goes_of_leads (.single (.declared hs))

end Build

namespace Module

variable {m m' : Module} {k : Nat} {name : String}

theorem declareFunction_of_addFunction {result : Ty} {params : List Ty} {variadic : Bool}
    (h : m.addFunction name result params variadic = .ok (k, m')) :
    m.declareFunction name result params variadic = .ok (k, m') := by
  unfold addFunction at h
  split at h
  · cases h
  · exact h

theorem declare_of_addVariable {type : Ty} (h : m.addVariable name type = .ok (k, m')) :
    ∃ v, m.declare (.variable v) = .ok (k, m') := by
  unfold addVariable declareVariable at h
  split at h
  · cases h
  · split at h
    · cases h
    · exact ⟨_, h⟩

/-- A symbol is declared after all others, under a name that none of them has. -/
theorem declare_eq_ok {s : Symbol} (h : m.declare s = .ok (k, m')) :
    m.index? s.name = none ∧ k = m.symbols.size ∧ m' = { m with symbols := m.symbols.push s } := by
  unfold declare at h
  split at h
  · cases h
  · rename_i hfree
    cases h
    refine ⟨?_, rfl, rfl⟩
    cases hi : m.index? s.name with
    | none => rfl
    | some i => simp [hi] at hfree

theorem function?_of_declare {f : Function} (h : m.declare (.function f) = .ok (k, m')) :
    m'.function? k = some f := by
  obtain ⟨-, rfl, rfl⟩ := declare_eq_ok h
  simp [function?]

theorem isSome_function?_of_functionIndex? (h : m.functionIndex? name = some k) :
    (m.function? k).isSome := by
  obtain ⟨i, -, hi⟩ := Option.bind_eq_some_iff.mp h
  obtain ⟨f, hf, rfl⟩ := Option.map_eq_some_iff.mp hi
  simp [hf]

end Module

namespace Build

variable {α β : Type} {w : Workbench}

theorem declareFunction_goes (name : String) (result : Ty) (params : List Ty) (variadic : Bool) :
    Goes (declare (·.declareFunction name result params variadic)) w :=
  declare_goes fun _ _ h => ⟨_, h⟩

theorem addFunction_goes (name : String) (result : Ty) (params : List Ty) (variadic : Bool) :
    Goes (declare (·.addFunction name result params variadic)) w :=
  declare_goes fun _ _ h => ⟨_, Module.declareFunction_of_addFunction h⟩

theorem addVariable_goes (name : String) (type : Ty) :
    Goes (declare (·.addVariable name type)) w := by
  refine declare_goes fun _ _ h => ?_
  obtain ⟨v, hv⟩ := Module.declare_of_addVariable h
  exact ⟨_, hv⟩

/-- What declaring comes to, if it succeeds. -/
theorem declare_ok {act : Module → Except Failure (Nat × Module)} {k : Nat} {w' : Workbench}
    (h : (declare act).on w = (.ok k, w')) :
    ∃ m', act w.module = .ok (k, m') ∧ w' = { w with module := m' } := by
  rw [declare, Effect.on_bind_of_ok (Effect.on_get w)] at h
  cases hact : act w.module with
  | error e => rw [hact] at h; cases h
  | ok r => rw [hact] at h; cases h; exact ⟨r.2, rfl, rfl⟩

theorem adopt_goes {k : Nat} (h : (w.module.function? k).isSome) : Goes (adopt k) w := by
  refine goes_of_leads ?_
  show w.Leads (if w.table.contains k then w else { w with table := w.table ++ [k] })
  split
  · exact .refl
  · rename_i hnew
    exact .single (.adopted h (by simpa using hnew))

theorem appendBlock_goes (fn : Nat) (name : String) : Goes (appendBlock fn name) w := by
  refine .get ?_
  split
  · exact throw_goes _
  · rename_i f hf
    exact .next (modifyModule_goes (.single (.function hf rfl rfl))) fun _ _ _ => pure_goes _

/-- A function may be changed in all but its name and its type. -/
theorem modifyFunction_goes {fn : Nat} {change : Function → Function}
    (h : ∀ f, (change f).name = f.name ∧ (change f).type = f.type) :
    Goes (modifyModule (·.modifyFunction fn change)) w := by
  refine modifyModule_goes ?_
  unfold Module.modifyFunction
  split
  · rename_i f hf
    exact .single (.function hf (h f).1 (h f).2)
  · exact .refl

theorem insert_goes (fn block : Nat) (i : Instr) : Goes (insert fn block i) w :=
  modifyFunction_goes fun _ => ⟨rfl, rfl⟩

theorem modifyOp_goes (fn block id : Nat) (change : Op → Op) :
    Goes (modifyOp fn block id change) w :=
  modifyFunction_goes fun _ => ⟨rfl, rfl⟩

theorem emit_goes (fn block : Nat) (name : String) (asked : Ty) (op : Op) :
    Goes (emit fn block name asked op) w := by
  refine .get (.bind (P := fun w' _ => w' = w) ?_ fun type w₁ _ _ _ hw₁ => ?_)
  · cases op.typeOf w.types asked with
    | ok t => exact .pure trivial rfl
    | error e => exact .throw trivial trivial
  subst hw₁
  split
  · exact throw_goes _
  rename_i f hf
  refine .next (modifyModule_goes (.single (.function hf rfl rfl))) fun _ w₂ _ => ?_
  refine .next (P := fun _ _ => True) (.get (pure_goes _)) fun ended w₃ _ => ?_
  exact .guarded trivial trivial (.next (insert_goes _ _ _) fun _ _ _ => pure_goes _)

theorem emitGrowing_goes {fn block : Nat} {name : String} {op : Op} {parts : List β}
    {grow : β → Build (Op → Op)} (hgrow : ∀ part w₁, Goes (grow part) w₁) :
    Goes (emitGrowing fn block name op parts grow) w := by
  refine .next (emit_goes _ _ _ _ _) fun o w₁ _ => ?_
  refine .next (.forM trivial fun part _ w₂ _ _ => ?_) fun _ _ _ => pure_goes _
  refine .next (hgrow part w₂) fun change w₃ _ => ?_
  split
  · exact modifyOp_goes _ _ _ _
  · exact pure_goes _

end Build

namespace Draft

open Build (Goes pure_goes throw_goes lift_goes)

variable {w : Workbench}

theorem look_goes {α : Type} (entries : List (String × α)) (key : String) :
    Goes (look entries key) w := by
  unfold look
  split
  · exact pure_goes _
  · exact throw_goes _

theorem symbolOperand_goes (name : String) : Goes (symbolOperand name) w := by
  refine .get ?_
  dsimp only
  split
  · exact pure_goes _
  · exact throw_goes _

theorem makeConstant_goes (r : Recipe) : Goes (makeConstant r) w :=
  .next (Build.mention_goes _) fun _ _ _ => .get (lift_goes _)

theorem Value.resolve_goes (p : Progress) (v : Value) : Goes (v.resolve p) w := by
  cases v with
  | key k => exact look_goes _ _
  | symbol name => exact symbolOperand_goes name
  | constant r => exact .next (makeConstant_goes r) fun _ _ _ => pure_goes _

theorem intrinsicOperand_goes (which : Intrinsic) (t : Ty) : Goes (intrinsicOperand which t) w := by
  have hdeclare (name : String) (w₁ : Workbench) : Goes (do
      if ((← get).module.index? name).isNone then
        discard (Build.declare
          (·.declareFunction name (which.signature t).1 (which.signature t).2 false))
      symbolOperand name) w₁ := by
    refine .get ?_
    split
    · exact .next (.discard (Build.declareFunction_goes _ _ _ _)) fun _ _ _ =>
        symbolOperand_goes name
    · exact symbolOperand_goes name
  unfold intrinsicOperand
  dsimp only
  split
  · rw [pure_bind]
    exact hdeclare _ w
  · exact .next (throw_goes (α := String) _) fun name w₁ _ => hdeclare name w₁

theorem fillConstant_goes (v : Int) (t : Ty) : Goes (fillConstant v t) w :=
  .get (.next (lift_goes _) fun _ _ _ => pure_goes _)

theorem resolveCase_goes (p : Progress) (t : Ty) (label : CaseLabel) (target : String) :
    Goes (resolveCase p t label target) w := by
  cases label with
  | constant r =>
      exact .next (makeConstant_goes r) fun _ _ _ => .next (look_goes _ _) fun _ _ _ => pure_goes _
  | number content =>
      exact .next (look_goes _ _) fun _ _ _ => .get (.next (lift_goes _) fun _ _ _ => pure_goes _)

theorem mention_each_goes (ts : List Ty) :
    Goes (forIn ts PUnit.unit fun t _ => do
      Build.mention t
      pure (ForInStep.yield PUnit.unit)) w :=
  .each trivial fun t _ _ _ _ => Build.mention_goes t

theorem Action.perform_goes (p : Progress) (block : Nat) (name : String) (a : Action) :
    Goes (a.perform p block name) w := by
  cases a with
  | op o =>
      refine .next (mention_each_goes _) fun _ w₁ _ => ?_
      exact .next (OpOver.traverse_meets (K := Build.changing) (P := fun _ _ => True)
        (Q := fun _ _ => True) (fun _ _ _ _ _ => trivial) (fun _ _ _ _ _ => trivial)
        (fun v _ _ _ => v.resolve_goes p)
        (fun t _ _ _ => look_goes _ t) trivial o) fun resolved _ _ => Build.emit_goes _ _ _ _ _
  | switch v d cases =>
      refine .next (v.resolve_goes p) fun x _ _ => .next (look_goes _ d) fun d _ _ => ?_
      exact Build.emitGrowing_goes fun part _ =>
        .next (resolveCase_goes p _ part.1 part.2) fun _ _ _ => pure_goes _
  | indirectBr a targets =>
      refine .next (a.resolve_goes p) fun x _ _ => Build.emitGrowing_goes fun part _ => ?_
      exact .next (look_goes _ part) fun _ _ _ => pure_goes _
  | cast c a t =>
      refine .next (a.resolve_goes p) fun x _ _ => .next (Build.mention_goes t) fun _ _ _ => ?_
      split
      · exact pure_goes _
      · exact Build.emit_goes _ _ _ _ _
  | phi t incoming => exact .next (Build.mention_goes t) fun _ _ _ => Build.emit_goes _ _ _ _ _
  | negate a | complement a =>
      exact .next (a.resolve_goes p) fun _ _ _ => .next (fillConstant_goes _ _) fun _ _ _ =>
        Build.emit_goes _ _ _ _ _
  | intrinsic which args =>
      refine .next (.mapM_all (T := fun _ _ => True) (fun _ _ _ _ _ => trivial) args trivial
        fun v _ _ _ _ => v.resolve_goes p) fun os w₁ _ => ?_
      exact .next (lift_goes _) fun t _ _ => .next (intrinsicOperand_goes which t) fun _ _ _ =>
        Build.emit_goes _ _ _ _ _
  | unknownPredicate a b =>
      exact .next (.discard (a.resolve_goes p)) fun _ _ _ =>
        .next (.discard (b.resolve_goes p)) fun _ _ _ => throw_goes _

theorem Step.build_goes (block : Nat) (p : Progress) (s : Step) : Goes (s.build block p) w :=
  .next (s.action.perform_goes p block s.name) fun _ _ _ => pure_goes _

theorem setPhi_goes (p : Progress) (phi : Nat × Nat × List (Value × String)) :
    Goes (setPhi p phi) w := by
  obtain ⟨block, id, incoming⟩ := phi
  refine .next (.mapM_all (T := fun _ _ => True) (fun _ _ _ _ _ => trivial) incoming trivial
    fun e _ w₁ _ _ => ?_) fun es w₁ _ => Build.modifyOp_goes _ _ _ _
  exact .next (e.1.resolve_goes p) fun _ _ _ => .next (look_goes _ e.2) fun _ _ _ => pure_goes _

theorem buildBody_goes (fn : Nat) (blocks : List Block) : Goes (buildBody fn blocks) w := by
  refine .get ?_
  split
  · exact throw_goes _
  refine .next (.mapM_all (T := fun _ _ => True) (fun _ _ _ _ _ => trivial) blocks trivial
    fun b _ _ _ _ => Build.appendBlock_goes fn b.name) fun ids w₁ _ => ?_
  refine .next (.foldlM (Q := fun _ _ => True) trivial trivial fun part _ p w₂ _ _ _ =>
    .foldlM trivial trivial fun s _ p' _ _ _ _ => s.build_goes _ p') fun p w₂ _ => ?_
  exact .next (.each trivial fun phi _ _ _ _ => setPhi_goes p phi) fun _ _ _ => pure_goes _

theorem Variable.declare_goes (v : Variable) : Goes v.declare w :=
  .next (Build.mention_goes _) fun _ _ _ => .discard (Build.addVariable_goes _ _)

theorem Variable.bind_goes (v : Variable) : Goes v.bind w := by
  unfold Variable.bind
  split
  · exact pure_goes _
  · refine .next (Value.resolve_goes _ _) fun o w₁ _ => .get ?_
    split
    · exact Build.modifyModule_goes (.single (.initializer _ _ o))
    · exact throw_goes _

/-- A function of a draft is declared before it enters the table. -/
theorem Function.declare_goes (f : Function) : Goes f.declare w := by
  refine .next (Build.mention_goes _) fun _ w₁ _ => ?_
  refine .bind (Build.addFunction_goes _ _ _ _) fun k w₂ hon _ _ _ => ?_
  obtain ⟨m', hadd, rfl⟩ := Build.declare_ok hon
  have hk : (m'.function? k).isSome := by
    rw [Module.function?_of_declare (Module.declareFunction_of_addFunction hadd)]
    rfl
  exact .next (Build.adopt_goes hk) fun _ _ _ => pure_goes _

theorem declareType_goes (t : String × Option (List Ty)) : Goes (declareType t) w := by
  obtain ⟨name, body⟩ := t
  refine .next (Build.mention_goes _) fun _ w₁ _ => ?_
  cases body with
  | none => exact pure_goes _
  | some fields =>
      refine .next (mention_each_goes fields) fun _ w₂ _ => .get ?_
      cases w₂.types.define name fields with
      | error e => exact throw_goes e
      | ok types => exact Build.goes_of_leads (.single (.types w₂ types))

/-- Applying a draft comes to changes, also where it fails. -/
theorem apply_goes (d : Draft) : Goes d.apply w := by
  refine .next (.each trivial fun t _ _ _ _ => declareType_goes t) fun _ _ _ => ?_
  refine .next (.each trivial fun v _ _ _ _ => v.declare_goes) fun _ _ _ => ?_
  refine .next (.mapM_all (T := fun _ _ => True) (fun _ _ _ _ _ => trivial) _ trivial
    fun f _ _ _ _ => f.declare_goes) fun ids w₃ _ => ?_
  refine .next (.each trivial fun v _ _ _ _ => v.bind_goes) fun _ _ _ => ?_
  refine .next (.loop trivial fun part _ w₅ _ _ => ?_) fun _ _ _ => pure_goes _
  obtain ⟨f, i⟩ := part
  dsimp only
  split
  · exact .next (buildBody_goes i _) fun _ _ _ => .pure trivial rfl
  · exact .pure trivial rfl

end Draft

end Ssa

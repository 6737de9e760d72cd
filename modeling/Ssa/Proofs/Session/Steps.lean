/-
# `Ssa.Proofs.Session.Steps` — every step of a session comes to changes of it

A step of a session changes it only as the list of changes says, whether it succeeds or fails.  So a
sound session stays sound, and keeps what sessions keep.  None of the steps here releases anything.

**Proved here.**

    reading, types, functions, handles, text, files         (`require_meets`, …, `emitSource_goes`)
    contexts, modules, engines, runs                         (`createContext_goes`, …, `run_goes`)
-/
import Ssa.Proofs.Session.Admitted
import Ssa.Proofs.Session.Kept
import Ssa.Session.Emission

namespace Ssa.Session

open Effect (Meets)

variable {α : Type} {free : Nat → Prop} {s s' : Session} {k id : Nat}

/-- A step on a session keeps it sound, and keeps what is to be kept. -/
abbrev Goes (free : Nat → Prop) (x : Act α) (s : Session) : Prop :=
  Meets (keeping free) x s (fun _ _ => True) fun _ => True

/-- A step leaves a sound session, whether it fails or not. -/
theorem isSound_of_goes {x : Act α} {r : Except Failure α} (h : Goes (fun _ => False) x s)
    (hon : x.on s = (r, s')) : s'.IsSound := (h.after hon).1

theorem goes_of_change {x : Act α} (h : s.Change free (x.on s).2) (hs : s.IsSound) :
    Goes free x s :=
  ⟨h.isSound hs, h.grows hs, fun _ _ _ => trivial, fun _ _ _ => trivial⟩

/-! ## Reading -/

theorem pure_goes (hs : s.IsSound) (a : α) : Goes free (pure a) s := .pure hs trivial

theorem throw_goes (hs : s.IsSound) (e : Failure) : Goes free (throw e : Act α) s :=
  .throw hs trivial

theorem lift_goes (hs : s.IsSound) (x : Except Failure α) : Goes free (lift x) s := by
  cases x with
  | ok a => exact pure_goes hs a
  | error e => exact throw_goes hs e

/-- A step that is refused, and changes nothing. -/
theorem goes_of_error {x : Act α} {e : Failure} (hs : s.IsSound) (hon : x.on s = (.error e, s)) :
    Goes free x s := .of_on_eq hon (throw_goes hs e)

theorem contextRecord_on {c : ContextRecord} (h : s.context? id = some c) :
    (contextRecord id).on s = (.ok c, s) := by
  rw [contextRecord, Effect.on_bind_of_ok (Effect.on_get s), h]
  rfl

theorem moduleRecord_on {r : ModuleRecord} (h : s.module? id = some r) :
    (moduleRecord id).on s = (.ok r, s) := by
  rw [moduleRecord, Effect.on_bind_of_ok (Effect.on_get s), h]
  rfl

theorem engineRecord_on {e : EngineRecord} (h : s.engine? id = some e) :
    (engineRecord id).on s = (.ok e, s) := by
  rw [engineRecord, Effect.on_bind_of_ok (Effect.on_get s), h]
  rfl

theorem contextRecord_of_none (h : s.context? id = none) :
    (contextRecord id).on s = (.error (.disposed Kind.context.word (toString id)), s) := by
  rw [contextRecord, Effect.on_bind_of_ok (Effect.on_get s), h]
  rfl

theorem moduleRecord_of_none (h : s.module? id = none) :
    (moduleRecord id).on s = (.error (.disposed Kind.module.word (toString id)), s) := by
  rw [moduleRecord, Effect.on_bind_of_ok (Effect.on_get s), h]
  rfl

theorem engineRecord_of_none (h : s.engine? id = none) :
    (engineRecord id).on s = (.error (.disposed Kind.engine.word (toString id)), s) := by
  rw [engineRecord, Effect.on_bind_of_ok (Effect.on_get s), h]
  rfl

theorem found_meets (hs : s.IsSound) (kind : Kind) (o : Option α) :
    Meets (keeping free) (found kind id o) s (fun s' a => s' = s ∧ o = some a) fun _ => True := by
  cases o with
  | none => exact .throw hs trivial
  | some a => exact .pure hs ⟨rfl, rfl⟩

theorem moduleRecord_meets (hs : s.IsSound) :
    Meets (keeping free) (moduleRecord k) s (fun s' r => s' = s ∧ s.module? k = some r)
      fun _ => True := .get (found_meets hs .module _)

theorem contextRecord_meets (hs : s.IsSound) :
    Meets (keeping free) (contextRecord k) s (fun s' c => s' = s ∧ s.context? k = some c)
      fun _ => True := .get (found_meets hs .context _)

theorem engineRecord_meets (hs : s.IsSound) :
    Meets (keeping free) (engineRecord k) s (fun s' e => s' = s ∧ s.engine? k = some e)
      fun _ => True := .get (found_meets hs .engine _)

theorem require_meets (hs : s.IsSound) (kind : Kind) :
    Meets (keeping free) (require kind id) s
      (fun s' _ => s' = s ∧ id ∈ s.ids kind ∧ s.isLive id = true) fun _ => True := by
  refine .get ?_
  cases hget : s.registry.get id kind.word with
  | error e => exact .throw hs trivial
  | ok u => exact .pure hs ⟨rfl, hs.numbers.get_iff.mp hget⟩

theorem liveModule_meets (hs : s.IsSound) :
    Meets (keeping free) (liveModule k) s
      (fun s' r => s' = s ∧ s.module? k = some r ∧ s.isLive k = true) fun _ => True :=
  .bind (require_meets hs .module) fun _ _ _ _ _ ⟨hs₁, _, hlive⟩ => by
    subst hs₁
    exact (moduleRecord_meets hs).mono fun s' r h => ⟨h.1, h.2, hlive⟩

theorem note_goes (hs : s.IsSound) (e : Event) : Goes free (note e) s :=
  goes_of_change (.aside s.storage s.files s.generator.ready (s.log ++ [e])) hs

/-! ## Types -/

theorem changeTypes_goes (hs : s.IsSound) (types : TypeTable) :
    Goes free (modifyContext id fun c => { c with types }) s :=
  goes_of_change (.typed id types) hs

theorem makeStep_goes (hs : s.IsSound) (step : Ty.Making) : Goes free (makeStep id step) s :=
  .next (contextRecord_meets hs) fun c _ hs₁ =>
    .next (lift_goes hs₁ (c.types.make step)) fun types _ hs₂ => changeTypes_goes hs₂ types

theorem mention_goes (hs : s.IsSound) (t : Ty) : Goes free (mention id t) s :=
  .forM hs fun step _ _ hs₁ _ => makeStep_goes hs₁ step

theorem structureOf_goes (hs : s.IsSound) (name : String) : Goes free (structureOf id name) s :=
  .next (contextRecord_meets hs) fun _ _ hs₁ => pure_goes hs₁ _

theorem identify_goes (hs : s.IsSound) (name : String) : Goes free (identify id name) s :=
  .next (require_meets hs .context) fun _ _ hs₁ => .next (mention_goes hs₁ _) fun _ _ hs₂ =>
    structureOf_goes hs₂ name

theorem defineBody_goes (hs : s.IsSound) (name : String) (fields : List Ty) :
    Goes free (defineBody id name fields) s := by
  refine .next (.each hs fun t _ _ hs₁ _ => mention_goes hs₁ t) fun _ s₁ hs₁ => ?_
  refine .next (contextRecord_meets hs₁) fun c s₂ hs₂ => ?_
  exact .next (lift_goes hs₂ _) fun types _ hs₃ => .next (changeTypes_goes hs₃ types)
    fun _ _ hs₄ => structureOf_goes hs₄ name

/-! ## Building -/

/-- What a step of building on a module comes to. -/
theorem onWorkbench_on {step : Build α} {r : ModuleRecord} {c : ContextRecord}
    (hr : s.module? id = some r) (hc : s.context? r.context = some c) :
    (onWorkbench id step).on s =
      ((step.on ⟨c.types, r.module, r.table⟩).1,
        (s.changeTypes r.context (step.on ⟨c.types, r.module, r.table⟩).2.types).changeModule id
          fun r' => { r' with
            module := (step.on ⟨c.types, r.module, r.table⟩).2.module
            table := (step.on ⟨c.types, r.module, r.table⟩).2.table }) := by
  rw [onWorkbench, Effect.on_bind_of_ok (moduleRecord_on hr),
    Effect.on_bind_of_ok (contextRecord_on hc)]
  show (lift (step.on ⟨c.types, r.module, r.table⟩).1).on _ = _
  cases (step.on ⟨c.types, r.module, r.table⟩).1 <;> rfl

/-- Building on a module, as long as it comes to changes of the workbench. -/
theorem onWorkbench_goes {step : Build α} (hs : s.IsSound)
    (hstep : ∀ r c, s.module? id = some r → s.context? r.context = some c →
      Build.Goes step ⟨c.types, r.module, r.table⟩) : Goes free (onWorkbench id step) s := by
  cases hr : s.module? id with
  | none => exact goes_of_error hs (Effect.on_bind_of_error (moduleRecord_of_none hr))
  | some r =>
      obtain ⟨c, hc⟩ := hs.context_of_mem (hs.homed r (hs.module?_iff.mp hr).1)
      have hon : (onWorkbench id step).on s = _ := onWorkbench_on hr hc
      have hleads : Workbench.Leads ⟨c.types, r.module, r.table⟩
          (step.on ⟨c.types, r.module, r.table⟩).2 := (hstep r c hr hc).grows
      generalize (step.on ⟨c.types, r.module, r.table⟩).2 = w at hon hleads
      have htyped : s.Change free (s.changeTypes r.context w.types) := .typed _ _
      have hbuilt : (s.changeTypes r.context w.types).Change free
          ((s.changeTypes r.context w.types).changeModule id
            fun r' => { r' with module := w.module, table := w.table }) := by
        refine .built _ _ fun r' hr' => ?_
        cases hr.symm.trans hr'
        exact ⟨rfl, rfl, _, _, hleads⟩
      have hs₁ := htyped.isSound hs
      refine ⟨?_, ?_, fun _ _ _ => trivial, fun _ _ _ => trivial⟩
      · rw [hon]
        exact hbuilt.isSound hs₁
      · rw [hon]
        exact (htyped.grows hs).trans (hbuilt.grows hs₁)

theorem adopt_goes {m symbol : Nat} {w : Workbench} (h : (w.module.function? symbol).isSome) :
    Build.Goes (adopt m symbol) w :=
  .next (Build.adopt_goes h) fun _ _ _ => .get (Build.pure_goes _)

theorem addFunction_goes (hs : s.IsSound) (name : String) (type : Ty) :
    Goes free (addFunction id name type) s := by
  refine .next (liveModule_meets hs) fun r s₁ hs₁ => .guarded hs₁ trivial ?_
  refine .next (lift_goes hs₁ _) fun parts s₂ hs₂ => onWorkbench_goes hs₂ fun r c _ _ => ?_
  refine .bind (Build.declareFunction_goes _ _ _ _) fun symbol w hon _ _ _ => adopt_goes ?_
  obtain ⟨m', hdeclare, rfl⟩ := Build.declare_ok hon
  dsimp only
  rw [Module.function?_of_declare hdeclare]
  rfl

theorem declareOutside_goes (hs : s.IsSound) (name : String) (type : Ty) :
    Goes free (declareOutside id name type) s := by
  refine .next (require_meets hs .module) fun _ s₁ hs₁ => ?_
  refine .next (lift_goes hs₁ _) fun parts s₂ hs₂ => ?_
  exact .next (onWorkbench_goes hs₂ fun _ _ _ _ => Build.declareFunction_goes _ _ _ _)
    fun _ _ hs₃ => pure_goes hs₃ _

theorem lookup_goes (hs : s.IsSound) (name : String) : Goes free (lookup id name) s := by
  refine .bind (liveModule_meets hs) fun r s₁ _ hs₁ _ ⟨heq, hr, _⟩ => ?_
  subst heq
  split
  · rename_i symbol hsymbol
    refine .next (onWorkbench_goes hs₁ fun r' c hr' _ => adopt_goes ?_) fun _ _ hs₂ =>
      pure_goes hs₂ _
    cases hr.symm.trans hr'
    exact Module.isSome_function?_of_functionIndex? hsymbol
  · exact pure_goes hs₁ _

theorem functions_goes (hs : s.IsSound) : Goes free (functions id) s := by
  refine .bind (liveModule_meets hs) fun r s₁ _ hs₁ _ ⟨heq, hr, _⟩ => ?_
  subst heq
  refine .next (onWorkbench_goes hs₁ fun r' c hr' _ => ?_) fun _ s₂ hs₂ =>
    .next (moduleRecord_meets hs₂) fun _ _ hs₃ => pure_goes hs₃ _
  cases hr.symm.trans hr'
  -- while functions enter the table, the module stays as it is
  have hall (ks : List Nat) (hks : ∀ k ∈ ks, (r.module.function? k).isSome) (w : Workbench)
      (hw : w.module = r.module) : Build.Goes (ks.forM Build.adopt) w := by
    induction ks generalizing w with
    | nil => exact Build.pure_goes _
    | cons k ks ih =>
        refine .bind (Build.adopt_goes (hw ▸ hks k List.mem_cons_self)) fun _ w₁ hon _ _ _ => ?_
        refine ih (fun k' hk' => hks k' (List.mem_cons_of_mem _ hk')) w₁ ?_
        cases hon
        dsimp only
        split <;> exact hw
  refine hall _ (fun k hk => ?_) _ rfl
  exact (List.mem_filter.mp hk).2

theorem addGlobal_goes (hs : s.IsSound) (name : String) (type : Ty) :
    Goes free (addGlobal id name type) s :=
  .next (require_meets hs .module) fun _ _ hs₁ =>
    .next (onWorkbench_goes hs₁ fun _ _ _ _ => Build.addVariable_goes _ _) fun _ _ hs₂ =>
      pure_goes hs₂ _

theorem variableOf_goes (hs : s.IsSound) (g : GlobalRef) : Goes free (variableOf g) s := by
  refine .next (moduleRecord_meets hs) fun r s₁ hs₁ => ?_
  split
  · exact pure_goes hs₁ _
  · exact throw_goes hs₁ _

theorem setInitializer_goes (hs : s.IsSound) (g : GlobalRef) (value : Constant) :
    Goes free (setInitializer id g value) s := by
  refine .next (liveModule_meets hs) fun r s₁ hs₁ => ?_
  have hrest (s₂ : Session) (hs₂ : s₂.IsSound) : Goes free (modifyModule id fun r =>
      { r with module := r.module.setInitializer g.symbol (.const value) }) s₂ := by
    refine goes_of_change (.built _ _ fun r _ => ⟨rfl, rfl, [], [], ?_⟩) hs₂
    exact .single (.initializer ⟨[], r.module, r.table⟩ g.symbol (.const value))
  split
  · refine .next (variableOf_goes hs₁ g) fun v s₂ hs₂ => ?_
    refine .next (moduleRecord_meets hs₂) fun owner s₃ hs₃ => ?_
    exact .next (throw_goes (α := PUnit) hs₃ _) fun _ s₄ hs₄ => hrest s₄ hs₄
  · exact hrest s₁ hs₁

theorem build_goes (hs : s.IsSound) (d : Draft) : Goes free (build id d) s := by
  have hrest (s₁ : Session) (hs₁ : s₁.IsSound) : Goes free (onWorkbench id d.apply) s₁ :=
    onWorkbench_goes hs₁ fun _ _ _ _ => Draft.apply_goes d
  unfold build
  split
  · exact .next (require_meets hs .module) fun _ s₁ hs₁ => hrest s₁ hs₁
  · exact hrest s hs

/-! ## Handles -/

theorem resolve_goes (hs : s.IsSound) (h : Handle) : Goes free (resolve h) s := by
  cases h with
  | bare m i => exact pure_goes hs _
  | member m i =>
      refine .next (liveModule_meets hs) fun r s₁ hs₁ => ?_
      split
      · exact pure_goes hs₁ _
      · exact throw_goes hs₁ _

theorem functionAt_goes (hs : s.IsSound) (m symbol : Nat) : Goes free (functionAt m symbol) s := by
  refine .next (moduleRecord_meets hs) fun r s₁ hs₁ => ?_
  split
  · exact pure_goes hs₁ _
  · exact throw_goes hs₁ _

theorem functionOf_goes (hs : s.IsSound) (h : Handle) : Goes free (functionOf h) s :=
  .next (resolve_goes hs h) fun p _ hs₁ => functionAt_goes hs₁ p.1 p.2

theorem moduleOf_goes (hs : s.IsSound) (h : Handle) : Goes free (moduleOf h) s := by
  cases h with
  | bare m i => exact pure_goes hs _
  | member m i => exact .next (require_meets hs .module) fun _ _ hs₁ => pure_goes hs₁ _

theorem toBare_goes (hs : s.IsSound) (h : Handle) : Goes free (toBare h) s :=
  .next (resolve_goes hs h) fun _ _ hs₁ => pure_goes hs₁ _

theorem signedFunction_goes (hs : s.IsSound) (h : Handle) : Goes free (signedFunction h) s :=
  .next (functionOf_goes hs h) fun _ _ hs₁ => .guarded hs₁ trivial (pure_goes hs₁ _)

theorem signature_goes (hs : s.IsSound) (h : Handle) : Goes free (signature h) s :=
  .next (signedFunction_goes hs h) fun _ _ hs₁ => pure_goes hs₁ _

theorem parameter_goes (hs : s.IsSound) (h : Handle) (index : Int) :
    Goes free (parameter h index) s := by
  refine .next (functionOf_goes hs h) fun f s₁ hs₁ => .guarded hs₁ trivial ?_
  split
  · exact pure_goes hs₁ _
  · exact throw_goes hs₁ _

theorem appendBlock_goes (hs : s.IsSound) (h : Handle) (label : String) :
    Goes free (appendBlock h label) s :=
  .next (resolve_goes hs h) fun p _ hs₁ => onWorkbench_goes hs₁ fun _ _ _ _ =>
    .next (Build.appendBlock_goes p.2 label) fun _ _ _ => .get (Build.pure_goes _)

theorem buildBody_goes (hs : s.IsSound) (h : Handle) (blocks : List Draft.Block) :
    Goes free (buildBody h blocks) s :=
  .next (resolve_goes hs h) fun p _ hs₁ => onWorkbench_goes hs₁ fun _ _ _ _ =>
    Draft.buildBody_goes p.2 blocks

theorem getOrDeclare_goes (hs : s.IsSound) (name : String) (type : Ty) :
    Goes free (getOrDeclare id name type) s := by
  refine .next (lookup_goes hs name) fun found s₁ hs₁ => ?_
  cases found with
  | none => exact addFunction_goes hs₁ name type
  | some h =>
      refine .next (signature_goes hs₁ h) fun actual s₂ hs₂ => ?_
      split
      · exact .next (moduleRecord_meets hs₂) fun r s₃ hs₃ =>
          .next (note_goes hs₃ _) fun _ _ hs₄ => pure_goes hs₄ _
      · exact pure_goes hs₂ _

/-! ## Text and check -/

theorem render_goes (hs : s.IsSound) : Goes free (render id) s := by
  refine .bind (liveModule_meets hs) fun r s₁ _ hs₁ _ ⟨heq, hr, _⟩ => ?_
  subst heq
  refine .bind (contextRecord_meets hs₁) fun c s₂ _ hs₂ _ ⟨heq, _⟩ => ?_
  subst heq
  refine .next (goes_of_change (.built _ _ fun r' hr' => ?_) hs₂) fun _ _ hs₃ => lift_goes hs₃ _
  cases hr.symm.trans hr'
  exact ⟨rfl, rfl, c.types, c.types, .single (.rendered ⟨c.types, r.module, r.table⟩ c.types)⟩

/-- A check that succeeds is one of a module that there is. -/
theorem verify_meets (hs : s.IsSound) :
    Meets (keeping free) (verify id) s (fun s' _ => id ∈ s'.ids .module) fun _ => True := by
  refine .next (.discard (render_goes hs)) fun _ s₁ hs₁ => ?_
  refine .bind (moduleRecord_meets hs₁) fun r s₂ _ hs₂ _ ⟨heq, hr⟩ => ?_
  subst heq
  refine .bind (contextRecord_meets hs₂) fun c s₃ _ hs₃ _ ⟨heq, _⟩ => ?_
  subst heq
  cases r.module.check c.types with
  | error e => exact .throw hs₃ trivial
  | ok u => exact .pure hs₃ (mem_ids_of_module? hr).1

theorem verify_goes (hs : s.IsSound) : Goes free (verify id) s :=
  (verify_meets hs).mono fun _ _ _ => trivial

theorem isValid_goes (hs : s.IsSound) : Goes free (isValid id) s := by
  refine .tryCatch (.next (verify_goes hs) fun _ _ hs₁ => pure_goes hs₁ _) fun f s₁ hs₁ => ?_
  split
  · exact pure_goes hs₁ _
  · exact throw_goes hs₁ _

/-! ## Files -/

theorem setFiles_goes (hs : s.IsSound) (files : Files) :
    Goes free (set { s with files } : Act PUnit) s :=
  goes_of_change (.aside s.storage files s.generator.ready s.log) hs

theorem renderToFile_goes (hs : s.IsSound) (p : Path) : Goes free (renderToFile id p) s := by
  refine .next (render_goes hs) fun text s₁ hs₁ => .guarded hs₁ trivial ?_
  refine .get ?_
  split
  · exact setFiles_goes hs₁ _
  · exact throw_goes hs₁ _

theorem prepareGenerator_goes (hs : s.IsSound) : Goes free prepareGenerator s := by
  refine .get ?_
  split
  · exact pure_goes hs _
  · split
    · exact throw_goes hs _
    · exact .next (goes_of_change (.aside s.storage s.files true s.log) hs) fun _ _ hs₁ =>
        note_goes hs₁ _

theorem makeMachine_goes (hs : s.IsSound) (host : Triple) (p : Processor) (l : Level) :
    Goes free (makeMachine host p l) s :=
  .next (prepareGenerator_goes hs) fun _ _ hs₁ => .next (lift_goes hs₁ _) fun machine _ hs₂ =>
    .next (note_goes hs₂ _) fun _ _ hs₃ => pure_goes hs₃ machine

theorem writeObject_goes (hs : s.IsSound) (machine : TargetMachine) (p : Path) :
    Goes free (writeObject machine p) s := by
  unfold writeObject
  refine .guarded hs trivial ?_
  refine .get (.next (setFiles_goes hs _) fun _ s₁ hs₁ => ?_)
  split
  · exact pure_goes hs₁ _
  · exact throw_goes hs₁ _

theorem emitReadable_goes (hs : s.IsSound) (name : String) (host : Triple) (processor : Processor)
    (level : Level) (p : Path) : Goes free (emitReadable name host processor level p) s :=
  .next (makeMachine_goes hs _ _ _) fun machine _ hs₁ => .next (writeObject_goes hs₁ machine p)
    fun _ _ hs₂ => note_goes hs₂ _

theorem emit_goes (hs : s.IsSound) (host : Triple) (processor : Processor) (level : Level)
    (p : Path) : Goes free (emit id host processor level p) s := by
  refine .next (.discard (render_goes hs)) fun _ s₁ hs₁ => ?_
  refine .next (moduleRecord_meets hs₁) fun r s₂ hs₂ => ?_
  exact .next (contextRecord_meets hs₂) fun c s₃ hs₃ =>
    .guarded hs₃ trivial (emitReadable_goes hs₃ _ _ _ _ _)

theorem readSource_goes (hs : s.IsSound) (p : Path) (report : String → Failure) :
    Goes free (readSource p report) s := by
  unfold readSource
  refine .guarded hs trivial ?_
  refine .get ?_
  split
  · exact throw_goes hs _
  · split
    · exact pure_goes hs _
    · exact throw_goes hs _

theorem emitSource_goes (hs : s.IsSound) (source : Path) (host : Triple) (processor : Processor)
    (level : Level) (p : Path) (checked : Bool) :
    Goes free (emitSource source host processor level p checked) s := by
  refine .next (readSource_goes hs _ _) fun text s₁ hs₁ => ?_
  dsimp only
  split
  · exact .next (lift_goes hs₁ _) fun _ s₂ hs₂ => emitReadable_goes hs₂ _ _ _ _ _
  · exact .next (.discard (lift_goes hs₁ _)) fun _ s₂ hs₂ => emitReadable_goes hs₂ _ _ _ _ _

/-! ## Contexts and modules -/

theorem createContext_goes (hs : s.IsSound) : Goes free createContext s := by
  have hmade : s.Change free (s.addContext false) := .contextMade false nofun
  have hnoted : (s.addContext false).Change free (createContext.on s).2 :=
    .aside s.storage s.files s.generator.ready _
  have hs₁ := hmade.isSound hs
  exact ⟨hnoted.isSound hs₁, (hmade.grows hs).trans (hnoted.grows hs₁), fun _ _ _ => trivial,
    fun _ _ _ => trivial⟩

theorem globalContextId_meets (hs : s.IsSound) :
    Meets (keeping free) globalContextId s
      (fun s' c => c ∈ s'.ids .context ∧ s'.isLive c = true) fun _ => True := by
  cases hglobal : s.globalContext with
  | some c =>
      have hon : globalContextId.on s = (.ok c, s) := by
        rw [globalContextId, Effect.on_bind_of_ok (Effect.on_get s), hglobal]
        rfl
      exact .of_on_eq hon (.pure hs (hs.globalLive c hglobal))
  | none =>
      have hon : globalContextId.on s = (.ok s.registry.next,
          { s.addContext true with log := s.log ++ [.contextCreated s.registry.next true] }) := by
        rw [globalContextId, Effect.on_bind_of_ok (Effect.on_get s), hglobal]
        rfl
      have hmade : s.Change free (s.addContext true) := .contextMade true fun _ => hglobal
      have hnoted : (s.addContext true).Change free
          { s.addContext true with log := s.log ++ [.contextCreated s.registry.next true] } :=
        .aside s.storage s.files s.generator.ready _
      have hs₁ := hmade.isSound hs
      have hs₂ := hnoted.isSound hs₁
      refine ⟨hon ▸ hs₂, hon ▸ (hmade.grows hs).trans (hnoted.grows hs₁), fun c s' h => ?_,
        fun _ _ _ => trivial⟩
      rw [hon] at h
      cases h
      exact hs₂.globalLive _ rfl

theorem contextOr_goes (hs : s.IsSound) (context : Option Nat) :
    Goes free (contextOr context) s := by
  cases context with
  | some c => exact pure_goes hs c
  | none => exact (globalContextId_meets hs).mono fun _ _ _ => trivial

/-- Making a module in a context that is live. -/
theorem createModule_goes (hs : s.IsSound) (name : String) (context : Option Nat) :
    Goes free (createModule name context) s := by
  refine .next (contextOr_goes hs context) fun c s₁ hs₁ => ?_
  refine .bind (require_meets hs₁ .context) fun _ s₂ _ hs₂ _ ⟨heq, hmem, hlive⟩ => ?_
  subst heq
  have hmade : s₂.Change free (s₂.addModule name c) := .moduleMade name hmem hlive
  have hnoted : (s₂.addModule name c).Change free
      { s₂.addModule name c with log := s₂.log ++ [.moduleCreated name s₂.registry.next c] } :=
    .aside s₂.storage s₂.files s₂.generator.ready _
  have hs₃ := hmade.isSound hs₂
  exact ⟨hnoted.isSound hs₃, (hmade.grows hs₂).trans (hnoted.grows hs₃), fun _ _ _ => trivial,
    fun _ _ _ => trivial⟩

/-! ## Engines -/

theorem reporting_meets {P : Session → α → Prop} {report : Failure} {step : Act α}
    (h : Meets (keeping free) step s P fun _ => True) :
    Meets (keeping free) (reporting report step) s P fun _ => True := by
  refine .tryCatch h fun f s₁ hs₁ => ?_
  split <;> exact .throw hs₁ trivial

/-- An engine is made of a module that there is. -/
theorem enterEngine_goes (hs : s.IsSound) (backend : Backend) (hid : id ∈ s.ids .module) :
    Goes free (enterEngine id backend) s :=
  goes_of_change (.engineMade backend hid) hs

theorem createInterpreter_goes (hs : s.IsSound) : Goes free (createInterpreter id) s := by
  refine .next (prepareGenerator_goes hs) fun _ s₁ hs₁ => .get ?_
  refine .bind (reporting_meets (verify_meets hs₁)) fun _ s₂ _ hs₂ _ hid => ?_
  exact .next (enterEngine_goes hs₂ _ hid) fun _ _ hs₃ => .next (note_goes hs₃ _) fun _ _ hs₄ =>
    pure_goes hs₄ _

theorem createCompiled_goes (hs : s.IsSound) (level : Level) :
    Goes free (createCompiled id level) s := by
  refine .next (prepareGenerator_goes hs) fun _ s₁ hs₁ => .get ?_
  refine .next (reporting_meets (P := fun _ _ => True) ?_) fun _ s₂ hs₂ => ?_
  · exact .next (verify_goes hs₁) fun _ s₂ hs₂ => .get (.discard (makeMachine_goes hs₂ _ _ _))
  refine .next (note_goes hs₂ _) fun _ s₃ hs₃ => ?_
  refine .bind (moduleRecord_meets hs₃) fun r s₄ _ hs₄ _ ⟨heq, hr⟩ => ?_
  subst heq
  refine .bind (contextRecord_meets hs₄) fun c s₅ _ hs₅ _ ⟨heq, _⟩ => ?_
  subst heq
  exact .next (enterEngine_goes hs₅ _ (mem_ids_of_module? hr).1) fun _ _ hs₆ =>
    .next (note_goes hs₆ _) fun _ _ hs₇ => pure_goes hs₇ _

theorem mentionGlobally_goes (hs : s.IsSound) (t : Ty) : Goes free (mentionGlobally t) s := by
  refine .forM hs fun step _ s₁ hs₁ _ => ?_
  cases step with
  | naming name => exact .next (globalContextId_meets hs₁) fun _ _ hs₂ => makeStep_goes hs₂ _
  | pointingToVoid => exact throw_goes hs₁ _

theorem makeValue_goes (hs : s.IsSound) (r : GenericRecipe) : Goes free (makeValue r) s :=
  .next (.forM hs fun t _ _ hs₁ _ => mentionGlobally_goes hs₁ t) fun _ _ hs₁ => lift_goes hs₁ _

theorem position_goes (hs : s.IsSound) (callee : Callee) : Goes free (position id callee) s := by
  have hresolved (s₁ : Session) (hs₁ : s₁.IsSound) (h : Handle) :
      Goes free (do return (← resolve h).2 : Act Nat) s₁ :=
    .next (resolve_goes hs₁ h) fun _ _ hs₂ => pure_goes hs₂ _
  -- a function of another module is refused after its name and its module's were asked for
  have hforeign (s₁ : Session) (hs₁ : s₁.IsSound) (owner : Nat) (f : Function) :
      Goes free (do throw (.foreign s!"function '{f.name}'" (← moduleRecord owner).name
        (← moduleRecord id).name) : Act Nat) s₁ :=
    .next (moduleRecord_meets hs₁) fun _ _ hs₂ => .next (moduleRecord_meets hs₂) fun _ _ hs₃ =>
      throw_goes hs₃ _
  unfold position
  split
  · refine .next (lookup_goes hs _) fun found s₁ hs₁ => ?_
    split
    · exact hresolved s₁ hs₁ _
    · exact .next (moduleRecord_meets hs₁) fun _ _ hs₂ => throw_goes hs₂ _
  · split
    · exact pure_goes hs _
    · exact .next (functionAt_goes hs _ _) fun f s₁ hs₁ => hforeign s₁ hs₁ _ f
  · split
    · exact hresolved s hs _
    · exact .next (functionOf_goes hs _) fun f s₁ hs₁ => hforeign s₁ hs₁ _ f

theorem onMemory_goes (hs : s.IsSound) (e : EngineRecord) (run : Exec Ssa.Value) :
    Goes free (onMemory e run) s := by
  refine .get ?_
  refine .next (goes_of_change (.aside _ s.files s.generator.ready s.log) hs) fun _ s₁ hs₁ => ?_
  exact .next (goes_of_change (.stored e.id _) hs₁) fun _ _ hs₂ => lift_goes hs₂ _

theorem run_goes (hs : s.IsSound) (callee : Callee) (args : List GenericValue) :
    Goes free (run id callee args) s := by
  refine .next (require_meets hs .engine) fun _ s₁ hs₁ => ?_
  refine .next (engineRecord_meets hs₁) fun e s₂ hs₂ => ?_
  refine .next (require_meets hs₂ .module) fun _ s₃ hs₃ => ?_
  refine .next (position_goes hs₃ callee) fun symbol s₄ hs₄ => ?_
  refine .next (functionAt_goes hs₄ _ _) fun f s₅ hs₅ => ?_
  refine .next (lift_goes hs₅ _) fun _ s₆ hs₆ => ?_
  refine .next (moduleRecord_meets hs₆) fun r s₇ hs₇ => ?_
  exact .next (onMemory_goes hs₇ e _) fun _ _ hs₈ => lift_goes hs₈ _

end Ssa.Session

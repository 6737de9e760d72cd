/-
# `Ssa.Proofs.Session.Likeness` — sessions that are alike

Two sessions are alike if they differ only in which lines of their modules are fixed, in whether the
code generator has been set up where it can be, and in what was noted down.  Whatever is asked of both
comes to the same in both and leaves them alike, unless it binds another initializer to one of the
variables whose lines may be fixed in one of them only.

**Proved here.**

    what leads to modules and from them is the same in sessions that are alike       (`Alike.module?_cases`, `Alike.reached`)
    making, releasing, declaring and writing come to the same and leave them alike    (`createModule_blind`, …, `verify_blind`)
-/
import Ssa.Proofs.Program.Likeness
import Ssa.Proofs.Session.Verdict

namespace Ssa

open Effect (Blind Paired)

/-! ## Records and sessions -/

/-- Two records are of one module, in two states that are alike. -/
structure ModuleRecord.Alike (names : Nat → List String) (r r' : ModuleRecord) : Prop where
  id : r'.id = r.id
  context : r'.context = r.context
  module : r.module.Alike (names r.id) r'.module
  table : r'.table = r.table

theorem ModuleRecord.Alike.name {names : Nat → List String} {r r' : ModuleRecord}
    (h : r.Alike names r') : r'.name = r.name := h.module.name

namespace Session

/-- Two sessions have alike modules, which may differ in the symbols of the names given for each, and
are the same in all else that requests are answered by. -/
structure Alike (names : Nat → List String) (s s' : Session) : Prop where
  registry : s'.registry = s.registry
  contexts : s'.contexts = s.contexts
  modules : List.Forall₂ (ModuleRecord.Alike names) s.modules s'.modules
  engines : s'.engines = s.engines
  globalContext : s'.globalContext = s.globalContext
  storage : s'.storage = s.storage
  files : s'.files = s.files
  host : s'.host = s.host
  fault : s'.generator.fault = s.generator.fault
  ready : s.generator.fault = none ∨ s'.generator.ready = s.generator.ready
  new : ∀ id, s.registry.next ≤ id → names id = []

variable {names : Nat → List String} {s s' : Session} {id m : Nat} {α : Type}

namespace Alike

theorem isLive (h : s.Alike names s') : s'.isLive = s.isLive := by
  funext id
  rw [Session.isLive, Session.isLive, h.registry]

theorem context? (h : s.Alike names s') : s'.context? = s.context? := by
  funext id
  rw [Session.context?, Session.context?, h.contexts]

theorem engine? (h : s.Alike names s') : s'.engine? = s.engine? := by
  funext id
  rw [Session.engine?, Session.engine?, h.engines]

/-- A number leads to records of modules that are alike, or to none in both. -/
theorem module?_cases (h : s.Alike names s') (id : Nat) :
    (s.module? id = none ∧ s'.module? id = none) ∨
      ∃ r r', s.module? id = some r ∧ s'.module? id = some r' ∧ r.Alike names r' ∧ r.id = id := by
  have hmodules := h.modules
  unfold Session.module?
  generalize s.modules = rs, s'.modules = rs' at hmodules
  induction hmodules with
  | nil => exact .inl ⟨rfl, rfl⟩
  | @cons r r' rs rs' hr _ ih =>
      rw [List.find?_cons, List.find?_cons, hr.id]
      cases hid : r.id == id with
      | true => exact .inr ⟨r, r', rfl, rfl, hr, by simpa using hid⟩
      | false => exact ih

/-- What alike records agree in is the same for each number. -/
theorem module?_elim {β : Type} {f : ModuleRecord → β} (h : s.Alike names s')
    (hf : ∀ r r', r.Alike names r' → f r' = f r) (b : β) (id : Nat) :
    (s'.module? id).elim b f = (s.module? id).elim b f := by
  rcases h.module?_cases id with ⟨hr, hr'⟩ | ⟨r, r', hr, hr', halike, -⟩
  · rw [hr, hr']
  · rw [hr, hr', Option.elim_some, Option.elim_some, hf r r' halike]

/-- What sessions that are alike lead to from given numbers is the same. -/
theorem reached (h : s.Alike names s') : s'.reached = s.reached := by
  have hcontexts (ms : List Nat) : s'.contextsOf ms = s.contextsOf ms := by
    have hmodules := h.modules
    unfold contextsOf
    generalize s.modules = rs, s'.modules = rs' at hmodules
    induction hmodules with
    | nil => rfl
    | cons hr _ ih => rw [List.filterMap_cons, List.filterMap_cons, hr.id, hr.context, ih]
  funext roots
  rw [Session.reached, Session.reached, modulesOf, modulesOf, h.engines, h.globalContext, hcontexts]

end Alike

/-! ## Numbers and records -/

theorem lift_blind (x : Except Failure α) : Blind (Alike names) (lift x) := by
  cases x with
  | ok a => exact .pure a
  | error e => exact .throw e

/-- What a step goes by may be written in another way. -/
theorem lift_paired {x x' : Except Failure α} (h : s.Alike names s') (hx : x' = x) :
    Paired (.still (Alike names)) () (lift x) s (lift x') s' fun _ => Eq := by
  rw [hx]
  exact .of_blind h (lift_blind x)

theorem note_blind (e : Event) : Blind (Alike names) (note e) := .changed fun _ _ h => { h with }

theorem enter_paired (h : s.Alike names s') (k : Kind) :
    Paired (.still (Alike names)) () (enter k) s (enter k) s' fun _ id id' => id = id' ∧ names id = [] := by
  refine .get ?_
  rw [h.registry]
  refine ⟨(), trivial, { h with registry := rfl, new := fun id hid => h.new id ?_ },
    .ok ⟨rfl, h.new _ le_rfl⟩⟩
  have hnext : (s.registry.insert k.word ()).2.next = s.registry.next + 1 := rfl
  have hid : (s.registry.insert k.word ()).2.next ≤ id := hid
  omega

theorem require_blind (k : Kind) (id : Int) : Blind (Alike names) (require k id) :=
  .get fun _ _ h => lift_paired h (by rw [h.registry])

theorem found_blind (k : Kind) (id : Nat) (o : Option α) : Blind (Alike names) (found k id o) := by
  cases o with
  | some a => exact .pure a
  | none => exact .throw _

theorem contextRecord_blind (id : Nat) : Blind (Alike names) (contextRecord id) := by
  refine .get fun s s' h => ?_
  rw [h.context?]
  exact .of_blind h (found_blind _ _ _)

theorem engineRecord_blind (id : Nat) : Blind (Alike names) (engineRecord id) := by
  refine .get fun s s' h => ?_
  rw [h.engine?]
  exact .of_blind h (found_blind _ _ _)

theorem moduleRecord_paired (h : s.Alike names s') (id : Nat) :
    Paired (.still (Alike names)) () (moduleRecord id) s (moduleRecord id) s'
      fun _ r r' => r.Alike names r' ∧ r.id = id := by
  refine .get ?_
  rcases h.module?_cases id with ⟨hr, hr'⟩ | ⟨r, r', hr, hr', halike⟩
  · rw [hr, hr']
    exact .throw h _
  · rw [hr, hr']
    exact .pure h halike

theorem liveModule_paired (h : s.Alike names s') (id : Nat) :
    Paired (.still (Alike names)) () (liveModule id) s (liveModule id) s'
      fun _ r r' => r.Alike names r' ∧ r.id = id :=
  .bind (require_blind .module id s s' h) fun _ _ _ _ _ _ h₁ _ => moduleRecord_paired h₁ id

/-- A step that goes by the record of a module, of which it uses only what alike records agree in. -/
theorem moduleRecord_bind {β : Type} {f : ModuleRecord → Act β} (id : Nat)
    (hf : ∀ r, Blind (Alike names) (f r)) (hsame : ∀ r r', r.Alike names r' → f r' = f r) :
    Blind (Alike names) (moduleRecord id >>= f) := by
  intro s s' h
  refine .bind (moduleRecord_paired h id) fun _ r r' _ _ _ h₁ hr => ?_
  rw [hsame r r' hr.1]
  exact .of_blind h₁ (hf r)

theorem liveModule_bind {β : Type} {f : ModuleRecord → Act β} (id : Nat)
    (hf : ∀ r, Blind (Alike names) (f r)) (hsame : ∀ r r', r.Alike names r' → f r' = f r) :
    Blind (Alike names) (liveModule id >>= f) := by
  intro s s' h
  refine .bind (liveModule_paired h id) fun _ r r' _ _ _ h₁ hr => ?_
  rw [hsame r r' hr.1]
  exact .of_blind h₁ (hf r)

theorem modifyContext_blind (id : Nat) (change : ContextRecord → ContextRecord) :
    Blind (Alike names) (modifyContext id change) :=
  .changed fun _ _ h => { h with contexts := by rw [h.contexts] }

theorem modifyEngine_blind (id : Nat) (change : EngineRecord → EngineRecord) :
    Blind (Alike names) (modifyEngine id change) :=
  .changed fun _ _ h => { h with engines := by rw [h.engines] }

theorem modifyModule_paired {change change' : ModuleRecord → ModuleRecord} (h : s.Alike names s')
    (hc : ∀ r r', r.Alike names r' → r.id = id → (change r).Alike names (change' r')) :
    Paired (.still (Alike names)) () (modifyModule id change) s (modifyModule id change') s'
      fun _ => Eq := by
  refine ⟨(), trivial, { h with modules := ?_ }, .ok rfl⟩
  refine List.forall₂_map_left_iff.mpr (List.forall₂_map_right_iff.mpr (h.modules.imp fun r r' hr => ?_))
  rw [hr.id]
  split
  · exact hc r r' hr ‹_›
  · exact hr

/-! ## Building -/

theorem onWorkbench_blind {step : Build α} (hstep : Blind (Workbench.Alike (names id)) step) :
    Blind (Alike names) (onWorkbench id step) := by
  intro s s' h
  refine .bind (moduleRecord_paired h id) fun _ r r' s₁ s₁' _ h₁ hr => ?_
  obtain ⟨hr, rfl⟩ := hr
  rw [hr.context]
  refine .bind (contextRecord_blind r.context s₁ s₁' h₁) fun _ c c' s₂ s₂' _ h₂ hc => ?_
  subst hc
  have hw : Workbench.Alike (names r.id) ⟨c.types, r.module, r.table⟩ ⟨c.types, r'.module, r'.table⟩ :=
    ⟨rfl, hr.module, hr.table⟩
  have houtcome := hstep.outcome hw
  have hstate := hstep.state hw
  unfold ExceptT.on at houtcome hstate
  rcases hx : step.run.run ⟨c.types, r.module, r.table⟩ with ⟨x, w⟩
  rcases hx' : step.run.run ⟨c.types, r'.module, r'.table⟩ with ⟨x', w'⟩
  rw [hx, hx'] at houtcome hstate
  dsimp only at houtcome hstate ⊢
  rw [hstate.types, hstate.table, houtcome]
  refine .bind (modifyContext_blind _ _ s₂ s₂' h₂) fun _ _ _ s₃ s₃' _ h₃ _ => ?_
  refine .bind (modifyModule_paired h₃ fun q q' hq hid => ?_) fun _ _ _ s₄ s₄' _ h₄ _ =>
    .of_blind h₄ (lift_blind x)
  exact ⟨hq.id, hq.context, hid ▸ hstate.module, rfl⟩

theorem makeStep_blind (id : Nat) (step : Ty.Making) : Blind (Alike names) (makeStep id step) :=
  .bind (contextRecord_blind id) fun _ => .bind (lift_blind _) fun _ => modifyContext_blind _ _

theorem mention_blind (id : Nat) (t : Ty) : Blind (Alike names) (mention id t) :=
  .forM (makeStep_blind id) _

/-! ## Making and releasing -/

theorem makeContext_blind (isGlobal : Bool) : Blind (Alike names) (makeContext isGlobal) := by
  intro s s' h
  refine .bind (enter_paired h .context) fun _ id _ s₁ s₁' _ h₁ hid => ?_
  obtain ⟨rfl, -⟩ := hid
  have hadded : Blind (Alike names) (modify fun s =>
      { s with contexts := s.contexts ++ [⟨id, isGlobal, [], []⟩] } : Act Unit) :=
    .changed fun _ _ h => { h with contexts := by rw [h.contexts] }
  exact .of_blind h₁ (.bind hadded fun _ => .bind (note_blind _) fun _ => .pure _)

theorem globalContextId_blind : Blind (Alike names) globalContextId := by
  refine .get fun s s' h => ?_
  rw [h.globalContext]
  split
  · exact .pure h rfl
  · refine .of_blind h (.bind (makeContext_blind true) fun id => .bind ?_ fun _ => .pure _)
    exact .changed fun _ _ h => { h with globalContext := rfl }

theorem createModule_blind (name : String) (context : Option Nat) :
    Blind (Alike names) (createModule name context) := by
  have hcontext : Blind (Alike names) (contextOr context) := by
    cases context with
    | some id => exact .pure id
    | none => exact globalContextId_blind
  refine .bind hcontext fun c => .bind (require_blind _ _) fun _ s s' h => ?_
  refine .bind (enter_paired h .module) fun _ id _ s₁ s₁' _ h₁ hid => ?_
  obtain ⟨rfl, hnames⟩ := hid
  -- none of the symbols of a new module is one of old
  have hnew : ModuleRecord.Alike names ⟨id, c, .empty name, []⟩ ⟨id, c, .empty name, []⟩ :=
    ⟨rfl, rfl, .refl (hnames ▸ List.nil_prefix), rfl⟩
  have hadded : Paired (.still (Alike names)) ()
      (modify fun s => { s with modules := s.modules ++ [⟨id, c, .empty name, []⟩] } : Act Unit) s₁
      (modify fun s => { s with modules := s.modules ++ [⟨id, c, .empty name, []⟩] }) s₁' fun _ => Eq :=
    ⟨(), trivial, { h₁ with modules := List.rel_append h₁.modules (.cons hnew .nil) }, .ok rfl⟩
  refine .bind hadded fun _ _ _ s₂ s₂' _ h₂ _ => .of_blind h₂ ?_
  exact .bind (modifyContext_blind _ _) fun _ => .bind (note_blind _) fun _ => .pure _

theorem releaseThen_blind (id : Nat) {after : Act Unit} (h : Blind (Alike names) after) :
    Blind (Alike names) (releaseThen id after) := by
  refine .get fun s s' hs => ?_
  rw [hs.isLive, hs.registry]
  split
  · have hreleased : Paired (.still (Alike names)) ()
        (set { s with registry := (s.registry.release id).2 } : Act Unit) s
        (set { s' with registry := (s.registry.release id).2 }) s' fun _ => Eq :=
      ⟨(), trivial, { hs with registry := rfl, new := hs.new }, .ok rfl⟩
    exact .bind hreleased fun _ _ _ s₁ s₁' _ h₁ _ => .of_blind h₁ h
  · exact .pure hs rfl

theorem releaseEngine_blind (id : Nat) : Blind (Alike names) (releaseEngine id) :=
  releaseThen_blind id (note_blind _)

theorem releaseContext_blind (id : Nat) : Blind (Alike names) (releaseContext id) :=
  releaseThen_blind id (note_blind _)

theorem releaseModule_blind (r : ModuleRecord) : Blind (Alike names) (releaseModule r) :=
  releaseThen_blind r.id (.bind (modifyContext_blind _ _) fun _ => note_blind _)

theorem releaseModule_congr {r r' : ModuleRecord} (h : r.Alike names r') :
    releaseModule r' = releaseModule r := by
  rw [releaseModule, releaseModule, h.id, h.context, h.name]

theorem disposeModule_blind (id : Nat) : Blind (Alike names) (disposeModule id) :=
  moduleRecord_bind id releaseModule_blind fun _ _ => releaseModule_congr

theorem disposeContext_blind (id : Nat) : Blind (Alike names) (disposeContext id) := by
  refine .bind (contextRecord_blind id) fun c => .get fun s s' h => ?_
  rw [h.isLive]
  refine .of_blind h ?_
  split
  · exact .guarded (releaseContext_blind _)
  · exact .pure _

/-- Releasing what is not kept of two lists of things that have the same numbers. -/
theorem sweep_paired {β : Type} {as bs : List β} {S : β → β → Prop} {number : β → Nat} {kept : List Nat}
    {release : β → Act Unit} (h : s.Alike names s') (has : List.Forall₂ S as bs)
    (hnumber : ∀ a b, S a b → number b = number a) (hrelease : ∀ a b, S a b → release b = release a)
    (hblind : ∀ a, Blind (Alike names) (release a)) :
    Paired (.still (Alike names)) ()
      (forIn as PUnit.unit fun a _ =>
        if (!kept.contains (number a)) = true then do
          release a
          pure (ForInStep.yield PUnit.unit)
        else pure (ForInStep.yield PUnit.unit)) s
      (forIn bs PUnit.unit fun b _ =>
        if (!kept.contains (number b)) = true then do
          release b
          pure (ForInStep.yield PUnit.unit)
        else pure (ForInStep.yield PUnit.unit)) s'
      fun _ _ _ => ∀ a ∈ as, True := by
  refine .loop h has fun a b hab _ s₁ s₁' _ h₁ => ?_
  rw [hnumber a b hab, hrelease a b hab]
  split
  · exact .bind (hblind a s₁ s₁' h₁) fun _ _ _ _ _ _ h₂ _ => .pure h₂ ⟨rfl, rfl, trivial⟩
  · exact .pure h₁ ⟨rfl, rfl, trivial⟩

theorem collect_blind (roots : List Nat) : Blind (Alike names) (collect roots) := by
  refine .get fun s s' h => ?_
  dsimp only
  rw [h.reached, h.engines, h.contexts]
  have hself {β : Type} (as : List β) : List.Forall₂ Eq as as := List.forall₂_same.mpr fun _ _ => rfl
  refine .bind (sweep_paired h (hself s.engines) (fun _ _ he => he ▸ rfl) (fun _ _ he => he ▸ rfl)
    fun e => releaseEngine_blind e.id) fun _ _ _ s₁ s₁' _ h₁ _ => ?_
  refine .bind (sweep_paired h₁ h.modules (fun _ _ hr => hr.id) (fun _ _ => releaseModule_congr)
    releaseModule_blind) fun _ _ _ s₂ s₂' _ h₂ _ => ?_
  refine .bind (sweep_paired h₂ (hself s.contexts) (fun _ _ hc => hc ▸ rfl) (fun _ _ hc => hc ▸ rfl)
    fun c => releaseContext_blind c.id) fun _ _ _ s₃ s₃' _ h₃ _ => ?_
  exact .pure h₃ rfl

/-! ## Functions through handles -/

theorem resolve_blind (h : Handle) : Blind (Alike names) (resolve h) := by
  cases h with
  | bare m i => exact .pure _
  | member m i =>
      refine liveModule_bind m (fun r => ?_) fun r r' hr => by rw [hr.table]
      split
      · exact .pure _
      · exact .throw _

theorem functionAt_blind (m symbol : Nat) : Blind (Alike names) (functionAt m symbol) := by
  refine moduleRecord_bind m (fun r => ?_) fun r r' hr => by rw [hr.module.function?]
  split
  · exact .pure _
  · exact .throw _

theorem functionOf_blind (h : Handle) : Blind (Alike names) (functionOf h) :=
  .bind (resolve_blind h) fun p => functionAt_blind p.1 p.2

theorem moduleOf_blind (h : Handle) : Blind (Alike names) (moduleOf h) := by
  cases h with
  | bare m i => exact .pure _
  | member m i => exact .bind (require_blind _ _) fun _ => .pure _

theorem toBare_blind (h : Handle) : Blind (Alike names) (toBare h) :=
  .bind (resolve_blind h) fun _ => .pure _

theorem functionName_blind (h : Handle) : Blind (Alike names) (functionName h) :=
  .bind (functionOf_blind h) fun _ => .pure _

theorem signedFunction_blind (h : Handle) : Blind (Alike names) (signedFunction h) :=
  .bind (functionOf_blind h) fun _ => .guarded (.pure _)

theorem signature_blind (h : Handle) : Blind (Alike names) (signature h) :=
  .bind (signedFunction_blind h) fun _ => .pure _

theorem parameter_blind (h : Handle) (index : Int) : Blind (Alike names) (parameter h index) := by
  refine .bind (functionOf_blind h) fun f => .guarded ?_
  split
  · exact .pure _
  · exact .throw _

theorem appendBlock_blind (h : Handle) (label : String) : Blind (Alike names) (appendBlock h label) := by
  refine .bind (resolve_blind h) fun p => onWorkbench_blind ?_
  refine .bind (Build.appendBlock_blind _ _) fun b => .get fun w w' hw => .pure hw ?_
  rw [hw.module.function?]

theorem buildBody_blind (h : Handle) (blocks : List Draft.Block) :
    Blind (Alike names) (buildBody h blocks) :=
  .bind (resolve_blind h) fun p => onWorkbench_blind (Draft.buildBody_blind p.2 blocks)

/-! ## What a module declares -/

theorem adopt_blind (m symbol : Nat) {first : List String} :
    Blind (Workbench.Alike first) (adopt m symbol) :=
  .bind (Build.adopt_blind symbol) fun _ => .get fun _ _ hw => .pure hw (by rw [hw.table])

theorem addFunction_blind (m : Nat) (name : String) (type : Ty) :
    Blind (Alike names) (addFunction m name type) := by
  refine liveModule_bind m (fun r => .guarded ?_) fun r r' hr => by rw [hr.module.index?, hr.name]
  exact .bind (lift_blind _) fun _ => onWorkbench_blind
    (.bind (Build.declare_blind fun _ _ h => h.declare _) fun symbol => adopt_blind m symbol)

theorem declareOutside_blind (m : Nat) (name : String) (type : Ty) :
    Blind (Alike names) (declareOutside m name type) :=
  .bind (require_blind _ _) fun _ => .bind (lift_blind _) fun _ =>
    .bind (onWorkbench_blind (Build.declare_blind fun _ _ h => h.declare _)) fun _ => .pure _

theorem lookup_blind (m : Nat) (name : String) : Blind (Alike names) (lookup m name) := by
  refine liveModule_bind m (fun r => ?_) fun r r' hr => by rw [hr.module.functionIndex?]
  split
  · exact .bind (onWorkbench_blind (adopt_blind _ _)) fun _ => .pure _
  · exact .pure _

theorem getOrDeclare_blind (m : Nat) (name : String) (type : Ty) :
    Blind (Alike names) (getOrDeclare m name type) := by
  refine .bind (lookup_blind m name) fun found => ?_
  cases found with
  | none => exact addFunction_blind m name type
  | some h =>
      refine .bind (signature_blind h) fun actual => ?_
      split
      · exact moduleRecord_bind m (fun r => .bind (note_blind _) fun _ => .pure _)
          fun r r' hr => by rw [hr.name]
      · exact .pure _

theorem functions_blind (m : Nat) : Blind (Alike names) (functions m) := by
  refine liveModule_bind m (fun r => ?_) fun r r' hr => by rw [hr.module.functionIndices]
  refine .bind (onWorkbench_blind (.forM Build.adopt_blind _)) fun _ => ?_
  exact moduleRecord_bind m (fun r => .pure _) fun r r' hr => by rw [hr.table]

theorem addGlobal_blind (m : Nat) (name : String) (type : Ty) :
    Blind (Alike names) (addGlobal m name type) :=
  .bind (require_blind _ _) fun _ =>
    .bind (onWorkbench_blind (Build.declare_blind fun _ _ h => h.addVariable _ _)) fun _ => .pure _

/-- Variables at one place go by one name in sessions that are alike. -/
theorem variableOf_paired (h : s.Alike names s') (g : GlobalRef) :
    Paired (.still (Alike names)) () (variableOf g) s (variableOf g) s' fun _ v v' => v'.name = v.name := by
  refine .bind (moduleRecord_paired h g.module) fun _ r r' s₁ s₁' _ h₁ hr => ?_
  unfold Module.variableAt?
  rcases hr.1.module.at_cases g.symbol with ⟨ht, ht'⟩ | ⟨t, t', ht, ht', halike⟩
  · rw [ht, ht']
    exact .throw h₁ _
  · rw [ht, ht']
    rcases t with v | f <;> rcases t' with v' | f' <;> try contradiction
    · exact .pure h₁ halike.1
    · exact .throw h₁ _

/-- An initializer may be bound to a variable that is not one of old. -/
theorem setInitializer_blind (g : GlobalRef) (value : Constant)
    (hnew : g.module = m → (names m).length ≤ g.symbol) :
    Blind (Alike names) (setInitializer m g value) := by
  intro s s' h
  refine .bind (liveModule_paired h m) fun _ r r' s₁ s₁' _ h₁ hr => ?_
  obtain ⟨hr, rfl⟩ := hr
  rw [hr.name]
  split
  · refine .bind (variableOf_paired h₁ g) fun _ v v' s₂ s₂' _ h₂ hv => ?_
    rw [hv]
    refine .bind (moduleRecord_paired h₂ g.module) fun _ q q' s₃ s₃' _ h₃ hq => ?_
    rw [hq.1.name]
    exact .stop (.throw h₃ _)
  · rename_i hown
    refine modifyModule_paired h₁ fun q q' hq hid => ⟨hq.id, hq.context, ?_, hq.table⟩
    exact hq.module.setInitializer (hid ▸ hnew (not_not.mp hown)) _

/-! ## Named structures -/

theorem structureOf_blind (context : Nat) (name : String) :
    Blind (Alike names) (structureOf context name) :=
  .bind (contextRecord_blind _) fun _ => .pure _

theorem identify_blind (context : Nat) (name : String) : Blind (Alike names) (identify context name) :=
  .bind (require_blind _ _) fun _ => .bind (mention_blind _ _) fun _ => structureOf_blind _ _

theorem defineBody_blind (context : Nat) (name : String) (fields : List Ty) :
    Blind (Alike names) (defineBody context name fields) :=
  .bind (.each (mention_blind context) fields) fun _ => .bind (contextRecord_blind _) fun _ =>
    .bind (lift_blind _) fun _ => .bind (modifyContext_blind _ _) fun _ => structureOf_blind _ _

theorem build_blind (m : Nat) (d : Draft) : Blind (Alike names) (build m d) := by
  have hrest : Blind (Alike names) (onWorkbench m d.apply) := onWorkbench_blind (Draft.apply_blind d)
  unfold build
  split
  · exact .bind (require_blind _ _) fun _ => hrest
  · exact hrest

/-! ## Text and check -/

theorem render_blind (m : Nat) : Blind (Alike names) (render m) := by
  intro s s' h
  refine .bind (liveModule_paired h m) fun _ r r' s₁ s₁' _ h₁ hr => ?_
  obtain ⟨hr, rfl⟩ := hr
  rw [hr.context]
  refine .bind (contextRecord_blind r.context s₁ s₁' h₁) fun _ c c' s₂ s₂' _ h₂ hc => ?_
  subst hc
  refine .bind (modifyModule_paired h₂ fun q q' hq hid => ?_) fun _ _ _ s₃ s₃' _ h₃ _ =>
    lift_paired h₃ (hr.module.text_eq c.types)
  exact ⟨hq.id, hq.context, hid ▸ hr.module.render c.types, hq.table⟩

theorem verify_blind (m : Nat) : Blind (Alike names) (verify m) := by
  refine .bind (.discard (render_blind m)) fun _ => moduleRecord_bind m (fun r => ?_) fun r r' hr => ?_
  · exact .bind (contextRecord_blind _) fun c => lift_blind _
  · rw [hr.context]
    exact congrArg _ (funext fun c => by rw [hr.module.check_eq])

theorem isValid_blind (m : Nat) : Blind (Alike names) (isValid m) := by
  refine .tryCatch (.bind (verify_blind m) fun _ => .pure _) fun f => ?_
  split
  · exact .pure _
  · exact .throw _

end Session

end Ssa

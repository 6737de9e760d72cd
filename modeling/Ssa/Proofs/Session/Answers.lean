/-
# `Ssa.Proofs.Session.Answers` — the answers of sessions that are alike

Files, engines, runs and descriptions go by what sessions that are alike have in common.  An engine
that runs compiled code is made of a module whose lines were all fixed by then, so it is the same engine
in both.  So a whole history is answered alike, unless it rebinds a variable of old.

**Proved here.**

    emitting, making engines, running and describing come to the same      (`emit_blind`, …, `run_blind`)
    so does every request that rebinds no variable of old                    (`perform_paired`)
    and a history of such requests leaves sessions alike that were             (`Alike.after`)
-/
import Ssa.Proofs.Exec.Likeness
import Ssa.Proofs.Session.Likeness

namespace Ssa.Session

open Effect (Blind Paired)

variable {names : Nat → List String} {s s' : Session} {id m : Nat} {α : Type}

/-! ## Objects and texts in files -/

theorem Alike.prepared (h : s.Alike names s') : s.prepared.Alike names s'.prepared := by
  have hready := h.ready
  unfold Session.prepared
  split <;> split
  · exact h
  · exact { h with ready := hready.imp_right fun heq => by simp_all }
  · exact { h with ready := hready.imp_right fun heq => by simp_all }
  · exact { h with ready := .inr rfl }

theorem Alike.canGenerate_iff (h : s.Alike names s') : s'.CanGenerate ↔ s.CanGenerate := by
  rw [CanGenerate, CanGenerate, h.fault]
  rcases h.ready with hfault | hready
  · exact iff_of_true (.inr hfault) (.inr hfault)
  · rw [hready]

/-- A code generator that cannot be set up stays as it is. -/
theorem prepareGenerator_of_not (h : ¬ s.CanGenerate) :
    ∃ reason, s.generator.fault = some reason ∧
      prepareGenerator.on s = (.error (.noBackend reason), s) := by
  obtain ⟨hunready, hfault⟩ := not_or.mp h
  obtain ⟨reason, hreason⟩ := Option.ne_none_iff_exists'.mp hfault
  refine ⟨reason, hreason, ?_⟩
  rw [prepareGenerator, Effect.on_bind_of_ok (Effect.on_get s), if_neg hunready, hreason]
  rfl

theorem prepareGenerator_blind : Blind (Alike names) prepareGenerator := by
  intro s s' h
  by_cases hgenerator : s.CanGenerate
  · exact .of_on (prepareGenerator_of_canGenerate hgenerator)
      (prepareGenerator_of_canGenerate (h.canGenerate_iff.mpr hgenerator)) h.prepared (.ok rfl)
  · obtain ⟨reason, hreason, hon⟩ := prepareGenerator_of_not hgenerator
    obtain ⟨reason', hreason', hon'⟩ := prepareGenerator_of_not (mt h.canGenerate_iff.mp hgenerator)
    cases hreason.symm.trans (h.fault ▸ hreason')
    exact .of_on hon hon' h (.error _)

theorem makeMachine_blind (host : Triple) (p : Processor) (l : Level) :
    Blind (Alike names) (makeMachine host p l) :=
  .bind prepareGenerator_blind fun _ => .bind (lift_blind _) fun _ => .bind (note_blind _) fun _ => .pure _

theorem writeObject_blind (machine : TargetMachine) (p : Path) :
    Blind (Alike names) (writeObject machine p) := by
  unfold writeObject
  refine .guarded ?_
  refine .get fun s s' h => ?_
  rw [h.files]
  rcases s.files.replace none p machine.triple.objectFormat.mark with ⟨files, outcome⟩
  have hset : Paired (.still (Alike names)) () (set { s with files } : Act Unit) s
      (set { s' with files }) s' fun _ => Eq := ⟨(), trivial, { h with files := rfl }, .ok rfl⟩
  refine .bind hset fun _ _ _ s₁ s₁' _ h₁ _ => .of_blind h₁ ?_
  cases outcome with
  | none => exact .pure _
  | some why => exact .throw _

theorem emitReadable_blind (name : String) (host : Triple) (processor : Processor) (level : Level)
    (p : Path) : Blind (Alike names) (emitReadable name host processor level p) :=
  .bind (makeMachine_blind _ _ _) fun _ => .bind (writeObject_blind _ _) fun _ => note_blind _

theorem emit_blind (m : Nat) (host : Triple) (processor : Processor) (level : Level) (p : Path) :
    Blind (Alike names) (emit m host processor level p) := by
  refine .bind (.discard (render_blind m)) fun _ => moduleRecord_bind m (fun r => ?_) fun r r' hr => ?_
  · exact .bind (contextRecord_blind _) fun c => .guarded (emitReadable_blind _ _ _ _ _)
  · rw [hr.context, hr.name]
    exact congrArg _ (funext fun c => by rw [hr.module.isReadable_eq])

theorem renderToFile_blind (m : Nat) (p : Path) : Blind (Alike names) (renderToFile m p) := by
  refine .bind (render_blind m) fun text => .guarded ?_
  refine .get fun s s' h => ?_
  rw [h.files]
  split
  · exact ⟨(), trivial, { h with files := rfl }, .ok rfl⟩
  · exact .throw h _

theorem readSource_blind (p : Path) (report : String → Failure) :
    Blind (Alike names) (readSource p report) := by
  unfold readSource
  refine .guarded ?_
  refine .get fun s s' h => ?_
  rw [h.files]
  split
  · exact .throw h _
  · split
    · exact .pure h rfl
    · exact .throw h _

theorem emitSource_blind (source : Path) (host : Triple) (processor : Processor) (level : Level)
    (p : Path) (checked : Bool) :
    Blind (Alike names) (emitSource source host processor level p checked) := by
  refine .bind (readSource_blind _ _) fun text => ?_
  dsimp only
  split
  · exact .bind (lift_blind _) fun _ => emitReadable_blind _ _ _ _ _
  · exact .bind (.discard (lift_blind _)) fun _ => emitReadable_blind _ _ _ _ _

/-! ## Making engines -/

theorem enterEngine_blind (m : Nat) (backend : Backend) : Blind (Alike names) (enterEngine m backend) := by
  intro s s' h
  refine .bind (enter_paired h .engine) fun _ id _ s₁ s₁' _ h₁ hid => ?_
  obtain ⟨rfl, -⟩ := hid
  have hadded : Blind (Alike names) (modify fun s =>
      { s with engines := s.engines ++ [⟨id, m, backend, []⟩] } : Act Unit) :=
    .changed fun _ _ h => { h with engines := by rw [h.engines] }
  exact .of_blind h₁ (.bind hadded fun _ => .pure _)

theorem reporting_paired {P : Unit → α → α → Prop} {report : Failure} {step : Act α}
    (h : Paired (.still (Alike names)) () step s step s' P) :
    Paired (.still (Alike names)) () (reporting report step) s (reporting report step) s' P := by
  refine .tryCatch h fun _ f s₁ s₁' _ h₁ => ?_
  split <;> exact .throw h₁ _

theorem createInterpreter_blind (m : Nat) : Blind (Alike names) (createInterpreter m) := by
  refine .bind prepareGenerator_blind fun _ => .get fun s s' h => ?_
  dsimp only
  rw [h.module?_elim fun _ _ hr => hr.name]
  refine .bind (reporting_paired (verify_blind m s s' h)) fun _ _ _ s₁ s₁' _ h₁ _ => .of_blind h₁ ?_
  exact .bind (enterEngine_blind _ _) fun _ => .bind (note_blind _) fun _ => .pure _

/-- Whether a module can be checked: it is there, and so is its context. -/
theorem verify_cases (hs : s.IsSound) (m : Nat) :
    (∃ f, (verify m).on s = (.error f, s)) ∨
      ∃ r c, s.module? m = some r ∧ s.isLive m = true ∧ s.context? r.context = some c := by
  by_cases hget : s.registry.get m Kind.module.word = .ok ()
  · obtain ⟨hid, hlive⟩ := hs.numbers.get_iff.mp hget
    obtain ⟨r, hr⟩ := hs.module_of_mem hid
    obtain ⟨c, hc⟩ := hs.context_of_mem (hs.homed r (hs.module?_iff.mp hr).1)
    exact .inr ⟨r, c, hr, hlive, hc⟩
  · cases hno : s.registry.get m Kind.module.word with
    | ok u => exact (hget hno).elim
    | error f =>
        have hrequire : (require .module m).on s = (.error f, s) := by rw [require_on, hno]
        exact .inl ⟨f, Effect.on_bind_of_error (Effect.on_bind_of_error (Effect.on_bind_of_error
          (Effect.on_bind_of_error hrequire)))⟩

namespace Alike

theorem noting (h : s.Alike names s') (e : Event) : (s.noting e).Alike names (s'.noting e) := { h with }

theorem written (h : s.Alike names s') (m : Nat) (types : TypeTable) :
    (s.written m types).Alike names (s'.written m types) := by
  refine { h with modules := ?_ }
  refine List.forall₂_map_left_iff.mpr (List.forall₂_map_right_iff.mpr (h.modules.imp fun r r' hr => ?_))
  rw [hr.id]
  split
  · exact ⟨hr.id, hr.context, hr.module.render types, hr.table⟩
  · exact hr

theorem addEngine (h : s.Alike names s') (m : Nat) (backend : Backend) :
    (s.addEngine m backend).Alike names (s'.addEngine m backend) := by
  have hregistry := h.registry
  refine { h with registry := ?_, engines := ?_, new := fun id hid => h.new id ?_ }
  · rw [Session.addEngine, Session.addEngine, hregistry]
  · rw [Session.addEngine, Session.addEngine, h.engines, hregistry]
  · have hid : s.registry.next + 1 ≤ id := hid
    omega

theorem compiling (h : s.Alike names s') (m : Nat) (name : String) (machine : TargetMachine)
    (level : Level) (backend : Backend) :
    (s.compiling m name machine level backend).Alike names (s'.compiling m name machine level backend) := by
  rw [Session.compiling, Session.compiling, h.registry]
  exact (((h.noting _).noting _).addEngine m backend).noting _

end Alike

/-- If the check is passed, then all lines are fixed, and the engines that are made are the same. -/
theorem createCompiled_paired (hs : s.IsSound) (hs' : s'.IsSound) (h : s.Alike names s') (m : Nat)
    (level : Level) :
    Paired (.still (Alike names)) () (createCompiled m level) s (createCompiled m level) s' fun _ => Eq := by
  by_cases hgenerator : s.CanGenerate
  case neg =>
    obtain ⟨reason, -, hnot⟩ := prepareGenerator_of_not hgenerator
    exact .stop ((prepareGenerator_blind s s' h).of_error hnot)
  have hgenerator' := h.canGenerate_iff.mpr hgenerator
  rcases verify_cases (prepared_isSound hs hgenerator) m with ⟨f, hf⟩ | ⟨r, c, hr, hlive, hc⟩
  · refine .of_on_eq (Effect.on_bind_of_ok (prepareGenerator_of_canGenerate hgenerator))
      (Effect.on_bind_of_ok (prepareGenerator_of_canGenerate hgenerator')) (.get ?_)
    dsimp only
    rw [h.prepared.module?_elim fun _ _ hr => hr.name]
    exact .stop (reporting_paired (.stop ((verify_blind m _ _ h.prepared).of_error hf)))
  rw [module?_prepared] at hr
  rw [isLive_prepared] at hlive
  rw [context?_prepared] at hc
  rcases h.module?_cases m with ⟨hnone, -⟩ | ⟨_, r', hr₁, hr', hrr', -⟩
  · nomatch hr.symm.trans hnone
  cases hr.symm.trans hr₁
  have hc' : s'.context? r'.context = some c := by rw [hrr'.context, h.context?, hc]
  have hlive' : s'.isLive m = true := by rw [h.isLive, hlive]
  have hon : (createCompiled m level).on s = _ := createCompiledBy_on .own hs hgenerator hr hlive hc level
  have hon' : (createCompiled m level).on s' = _ :=
    createCompiledBy_on .own hs' hgenerator' hr' hlive' hc' level
  have hverdict : Judge.own.verdict c.types r'.module = Judge.own.verdict c.types r.module := by
    rw [Judge.verdict, hrr'.module.text_eq]
    exact congrArg _ (funext fun _ => hrr'.module.check_eq c.types)
  have hwritten := h.prepared.written m c.types
  rw [hverdict, h.host, h.registry, hrr'.name] at hon'
  cases hv : Judge.own.verdict c.types r.module with
  | error f =>
      rw [hv] at hon hon'
      exact .of_on hon hon' hwritten (.error _)
  | ok u =>
      rw [hv] at hon hon'
      cases hmake : TargetMachine.make s.host .native level with
      | error f =>
          rw [hmake] at hon hon'
          exact .of_on hon hon' hwritten (.error _)
      | ok machine =>
          rw [hmake] at hon hon'
          obtain ⟨text, htext⟩ := Judge.text_of_verdict hv
          rw [hrr'.module.render_eq htext] at hon'
          exact .of_on hon hon' (hwritten.compiling _ _ _ _ _) (.ok rfl)

/-! ## Runs -/

theorem mentionGlobally_blind (t : Ty) : Blind (Alike names) (mentionGlobally t) := by
  refine .forM (fun step => ?_) _
  cases step with
  | naming name => exact .bind globalContextId_blind fun id => makeStep_blind id _
  | pointingToVoid => exact .throw _

theorem makeValue_blind (r : GenericRecipe) : Blind (Alike names) (makeValue r) :=
  .bind (.forM mentionGlobally_blind _) fun _ => lift_blind _

theorem position_blind (m : Nat) (callee : Callee) : Blind (Alike names) (position m callee) := by
  have hforeign {f : Function} (owner : Nat) : Blind (Alike names) (do
      throw (.foreign s!"function '{f.name}'" (← moduleRecord owner).name (← moduleRecord m).name) :
        Act Nat) :=
    moduleRecord_bind owner (fun r => moduleRecord_bind m (fun q => .throw _) fun q q' hq => by
      rw [hq.name]) fun r r' hr => by rw [hr.name]
  cases callee with
  | named name =>
      refine .bind (lookup_blind m name) fun found => ?_
      cases found with
      | none => exact moduleRecord_bind m (fun r => .throw _) fun r r' hr => by rw [hr.name]
      | some h => exact .bind (resolve_blind h) fun _ => .pure _
  | handle h =>
      cases h with
      | bare owner symbol =>
          rw [position]
          split
          · exact .pure _
          · exact .bind (functionAt_blind owner symbol) fun f => hforeign owner
      | member owner index =>
          rw [position]
          split
          · exact .bind (resolve_blind _) fun _ => .pure _
          · exact .bind (functionOf_blind _) fun f => hforeign owner

theorem onMemory_blind (e : EngineRecord) (run : Exec Value) : Blind (Alike names) (onMemory e run) := by
  refine .get fun s s' h => ?_
  rw [h.storage]
  rcases run.run.run ⟨s.storage, e.globals⟩ with ⟨outcome, memory⟩
  have hset : Paired (.still (Alike names)) () (set { s with storage := memory.storage } : Act Unit) s
      (set { s' with storage := memory.storage }) s' fun _ => Eq :=
    ⟨(), trivial, { h with storage := rfl }, .ok rfl⟩
  refine .bind hset fun _ _ _ s₁ s₁' _ h₁ _ => .of_blind h₁ ?_
  exact .bind (modifyEngine_blind _ _) fun _ => lift_blind _

theorem run_blind (engine : Nat) (callee : Callee) (args : List GenericValue) :
    Blind (Alike names) (run engine callee args) := by
  refine .bind (require_blind _ _) fun _ => .bind (engineRecord_blind _) fun e => ?_
  refine .bind (require_blind _ _) fun _ => .bind (position_blind _ _) fun symbol => ?_
  refine .bind (functionAt_blind _ _) fun f => .bind (lift_blind _) fun _ => ?_
  refine moduleRecord_bind e.module (fun r => ?_) fun r r' hr => ?_
  · exact .bind (onMemory_blind _ _) fun v => lift_blind _
  · have hstart : Backend.start e.backend e.module r'.module f =
        Backend.start e.backend e.module r.module f := by
      funext args
      cases e.backend with
      | interpreter =>
          unfold Backend.start
          dsimp only
          rw [Interpreted.call_alike hr.module]
      | compiled types code => rfl
    dsimp only
    rw [hstart]

/-! ## Descriptions and questions -/

theorem describe_blind (k : Kind) (id : Nat) :
    Blind (Alike names) (Request.describe k id).perform := by
  cases k with
  | context =>
      refine .discard (.bind (contextRecord_blind id) fun c => .get fun s s' h => ?_)
      rw [h.isLive]
      exact .pure h rfl
  | module =>
      refine .discard (moduleRecord_bind id (fun r => .get fun s s' h => ?_) fun r r' hr => ?_)
      · rw [h.isLive]
        exact .pure h rfl
      · rw [hr.table, hr.name]
  | engine =>
      refine .discard (.bind (engineRecord_blind id) fun e => moduleRecord_bind e.module
        (fun r => .get fun s s' h => ?_) fun r r' hr => ?_)
      · rw [h.isLive]
        exact .pure h rfl
      · rw [hr.name]

theorem describeHandle_blind (h : Handle) : Blind (Alike names) (describeHandle h) := by
  have hname : Blind (Alike names) (functionName h) := functionName_blind h
  cases h with
  | bare m i => exact .bind hname fun _ => .pure _
  | member m i =>
      refine .get fun s s' h => ?_
      rw [h.isLive]
      refine .of_blind h ?_
      split
      · exact .bind hname fun _ => .pure _
      · exact .pure _

theorem ask_blind (h : Handle) (a : Access) : Blind (Alike names) (a.ask h) := by
  cases a with
  | name => exact functionName_blind h
  | blocks | parameterCount | isDeclaration => exact .bind (functionOf_blind h) fun _ => .pure _
  | signature => exact signature_blind h
  | returnType | parameterTypes | isVariadic => exact .bind (signedFunction_blind h) fun _ => .pure _
  | parameter index => exact parameter_blind h index

/-! ## Requests and histories -/

/-- A request binds an initializer to one of the first symbols of a module. -/
def Request.Rebinds (names : Nat → List String) : Request → Prop
  | setInitializer m g _ => g.module = m ∧ g.symbol < (names m).length
  | _ => False

/-- A request that rebinds no variable of old comes to the same in sessions that are alike. -/
theorem perform_paired (hs : s.IsSound) (hs' : s'.IsSound) (h : s.Alike names s') {r : Request}
    (hr : ¬ r.Rebinds names) :
    Paired (.still (Alike names)) () r.perform s r.perform s' fun _ => Eq := by
  cases r with
  | createCompiled m level =>
      exact .mono (.discard (createCompiled_paired hs hs' h m level)) fun _ _ _ _ _ => rfl
  | setInitializer m g value =>
      exact .of_blind h (setInitializer_blind g value fun hown => not_lt.mp fun hlt => hr ⟨hown, hlt⟩)
  | createContext => exact .of_blind h (.discard (makeContext_blind false))
  | globalContext => exact .of_blind h (.discard globalContextId_blind)
  | createModule name context => exact .of_blind h (.discard (createModule_blind name context))
  | dispose k id =>
      refine .of_blind h ?_
      cases k with
      | context => exact disposeContext_blind id
      | module => exact disposeModule_blind id
      | engine => exact .bind (.discard (engineRecord_blind id)) fun _ => releaseEngine_blind id
  | collect roots => exact .of_blind h (collect_blind roots)
  | describe k id => exact .of_blind h (describe_blind k id)
  | insides k id => exact .of_blind h (require_blind k id)
  | mention context t => exact .of_blind h (mention_blind context t)
  | identify context name => exact .of_blind h (.discard (identify_blind context name))
  | defineBody context name fields => exact .of_blind h (.discard (defineBody_blind context name fields))
  | addFunction m name type => exact .of_blind h (.discard (addFunction_blind m name type))
  | declareOutside m name type => exact .of_blind h (.discard (declareOutside_blind m name type))
  | lookup m name => exact .of_blind h (.discard (lookup_blind m name))
  | getOrDeclare m name type => exact .of_blind h (.discard (getOrDeclare_blind m name type))
  | functions m => exact .of_blind h (.discard (functions_blind m))
  | addGlobal m name type => exact .of_blind h (.discard (addGlobal_blind m name type))
  | build m d => exact .of_blind h (build_blind m d)
  | follow handle => exact .of_blind h (.discard (resolve_blind handle))
  | moduleOf handle => exact .of_blind h (.discard (moduleOf_blind handle))
  | toBare handle => exact .of_blind h (.discard (toBare_blind handle))
  | describeHandle handle => exact .of_blind h (.discard (describeHandle_blind handle))
  | ask handle a => exact .of_blind h (.discard (ask_blind handle a))
  | appendBlock handle label => exact .of_blind h (.discard (appendBlock_blind handle label))
  | buildBody handle blocks => exact .of_blind h (buildBody_blind handle blocks)
  | render m => exact .of_blind h (.discard (render_blind m))
  | renderToFile m p => exact .of_blind h (renderToFile_blind m p)
  | verify m => exact .of_blind h (verify_blind m)
  | isValid m => exact .of_blind h (.discard (isValid_blind m))
  | emit m host processor level p => exact .of_blind h (emit_blind m host processor level p)
  | emitSource source host processor level p checked =>
      exact .of_blind h (emitSource_blind source host processor level p checked)
  | createInterpreter m => exact .of_blind h (.discard (createInterpreter_blind m))
  | makeValue recipe => exact .of_blind h (.discard (makeValue_blind recipe))
  | run engine callee args => exact .of_blind h (.discard (run_blind engine callee args))

/-- A request that rebinds no variable of old leaves sessions alike that were, and answers alike. -/
theorem Alike.does (hs : s.IsSound) (hs' : s'.IsSound) (h : s.Alike names s') {r : Request}
    (hr : ¬ r.Rebinds names) :
    (s.does r).Alike names (s'.does r) ∧ (r.perform.on s').1 = (r.perform.on s).1 := by
  obtain ⟨_, _, hstate, hagree⟩ := perform_paired hs hs' h hr
  exact ⟨hstate, hagree.eq.symm⟩

/-- Histories that rebind no variable of old leave sessions alike that were. -/
theorem Alike.after (hs : s.IsSound) (hs' : s'.IsSound) (h : s.Alike names s') {history : List Request}
    (hnone : ∀ r ∈ history, ¬ r.Rebinds names) :
    (s.after history).Alike names (s'.after history) := by
  induction history generalizing s s' with
  | nil => exact h
  | cons r history ih =>
      obtain ⟨hr, hrest⟩ := List.forall_mem_cons.mp hnone
      exact ih (does_isSound hs r) (does_isSound hs' r) (h.does hs hs' hr).1 hrest

end Ssa.Session

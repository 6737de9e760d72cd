/-
# `Ssa.Proofs.Session.Attempts` — what an attempt that failed leaves

Making a module or an engine and disposing of a context may fail.  The checks come before anything is
entered, so no number is given out, no context lists a module that is not there, and the storage is as
it was; each module has the functions, the table, the initializers and the text that it had.  Making a
module and disposing of a context leave nothing at all.

Making an engine leaves one thing behind: it writes the module out first, and what was written is fixed,
also if the module does not pass.  As long as no other initializer is bound to a variable that was there
at the time, nothing tells that the attempt was made, and the numbers that are given out later are the
same.  Otherwise they need not be: a module may pass a later check only because of the attempt.

**Proved here.**

    a failed attempt leaves a session that is alike                    (`alike_of_createInterpreter`, `alike_of_createCompiled`)
    making a module and disposing of a context leave it as it was        (`eq_of_createModule`, `eq_of_disposeContext`)
    the attempt shows only in what is rebound later                       (`attempt_leaves_alike`)
    and there it shows in the numbers                                      (`attempt_tells`)
-/
import Ssa.Proofs.Session.Answers

namespace Ssa.Session

variable {s s' : Session} {m id : Nat} {f : Failure}

/-! ## What is left -/

/-- The names of the symbols of one module, and of no others. -/
def namesOf (s : Session) (m : Nat) : Nat → List String := fun id =>
  if id = m then (s.module? m).elim [] (·.module.names) else []

theorem namesOf_new (hs : s.IsSound) (hid : s.registry.next ≤ id) : s.namesOf m id = [] := by
  unfold namesOf
  split
  · rename_i heq
    cases hr : s.module? m with
    | none => rfl
    | some r =>
        have hissued := hs.numbers.issued .module m (mem_ids_of_module? hr).1
        have hnext : s.registry.next = s.registry.issued + 1 := rfl
        omega
  · rfl

theorem namesOf_self (hs : s.IsSound) {r : ModuleRecord} (hr : r ∈ s.modules) :
    s.namesOf m r.id <+: r.module.names := by
  unfold namesOf
  split
  · rename_i heq
    rw [hs.module?_iff.mpr ⟨hr, heq⟩]
    exact List.prefix_refl _
  · exact List.nil_prefix

/-- A sound session is alike itself. -/
theorem Alike.refl {names : Nat → List String} (hnames : ∀ r ∈ s.modules, names r.id <+: r.module.names)
    (hnew : ∀ id, s.registry.next ≤ id → names id = []) : s.Alike names s where
  registry := rfl
  contexts := rfl
  modules := List.forall₂_same.mpr fun r hr => ⟨rfl, rfl, .refl (hnames r hr), rfl⟩
  engines := rfl
  globalContext := rfl
  storage := rfl
  files := rfl
  host := rfl
  fault := rfl
  ready := .inr rfl
  new := hnew

theorem alike_self (hs : s.IsSound) (m : Nat) : s.Alike (s.namesOf m) s :=
  .refl (fun _ => namesOf_self hs) fun _ => namesOf_new hs

theorem alike_prepared (hs : s.IsSound) (hgenerator : s.CanGenerate) (m : Nat) :
    s.Alike (s.namesOf m) s.prepared := by
  unfold prepared
  split
  · exact alike_self hs m
  · exact { alike_self hs m with ready := .inl (hgenerator.resolve_left ‹_›) }

theorem alike_written (hs : s.IsSound) (hgenerator : s.CanGenerate) (m : Nat) (types : TypeTable) :
    s.Alike (s.namesOf m) (s.prepared.written m types) := by
  refine { alike_prepared hs hgenerator m with modules := ?_ }
  show List.Forall₂ _ _ (s.prepared.modules.map _)
  rw [modules_prepared]
  refine List.forall₂_map_right_iff.mpr (List.forall₂_same.mpr fun r hr => ?_)
  split
  · rename_i hid
    refine ⟨rfl, rfl, ?_, rfl⟩
    have hnames : s.namesOf m r.id = r.module.names := by
      rw [namesOf, if_pos hid, hs.module?_iff.mpr ⟨hr, hid⟩]
      rfl
    rw [hnames]
    exact Module.render_alike types r.module
  · exact ⟨rfl, rfl, .refl (namesOf_self hs hr), rfl⟩

/-! ## Engines -/

/-- What a failed check, or one of a module that is not there, leaves when an engine is to be made. -/
theorem reporting_error {α : Type} (report : Failure) {step : Act α} {s₁ : Session}
    (h : step.on s = (.error f, s₁)) : ∃ g, (reporting report step).on s = (.error g, s₁) := by
  rw [reporting, Effect.on_tryCatch, h]
  dsimp only
  split
  · exact ⟨_, rfl⟩
  · exact ⟨_, rfl⟩

/-- Making an engine begins with the code generator; without one, nothing is done. -/
theorem alike_of_not_canGenerate {α : Type} {rest : Unit → Act α} (hgenerator : ¬s.CanGenerate)
    (hs : s.IsSound) (hf : (prepareGenerator >>= rest).on s = (.error f, s')) :
    s.Alike (s.namesOf m) s' := by
  obtain ⟨reason, -, hnot⟩ := prepareGenerator_of_not hgenerator
  cases hf.symm.trans (Effect.on_bind_of_error hnot)
  exact alike_self hs m

/-- Making an engine stops with the step whose failures are reported. -/
theorem making_error {α : Type} {report : Session → Failure} {step : Act Unit}
    {rest : Session → Unit → Act α} {s₁ : Session} (hgenerator : s.CanGenerate)
    (h : step.on s.prepared = (.error f, s₁)) :
    ∃ g, (prepareGenerator >>= fun _ => get >>= fun s' => reporting (report s') step >>= rest s').on s =
      (.error g, s₁) := by
  obtain ⟨g, hg⟩ := reporting_error (report s.prepared) h
  refine ⟨g, ?_⟩
  rw [Effect.on_bind_of_ok (prepareGenerator_of_canGenerate hgenerator),
    Effect.on_bind_of_ok (Effect.on_get _)]
  exact Effect.on_bind_of_error hg

theorem alike_of_createInterpreter (hs : s.IsSound) (hf : (createInterpreter m).on s = (.error f, s')) :
    s.Alike (s.namesOf m) s' := by
  by_cases hgenerator : s.CanGenerate
  case neg => exact alike_of_not_canGenerate hgenerator hs hf
  rcases verify_cases (prepared_isSound hs hgenerator) m with ⟨g, hg⟩ | ⟨r, c, hr, hlive, hc⟩
  · obtain ⟨_, hon⟩ : ∃ g', (createInterpreter m).on s = (.error g', s.prepared) :=
      making_error hgenerator hg
    cases hf.symm.trans hon
    exact alike_prepared hs hgenerator m
  · have hon : (createInterpreter m).on s = _ :=
      createInterpreterBy_on .own hs hgenerator ((module?_prepared m).symm.trans hr)
        (isLive_prepared.symm.trans hlive) ((context?_prepared _).symm.trans hc)
    cases hv : Judge.own.verdict c.types r.module with
    | ok u => rw [hv] at hon; nomatch hf.symm.trans hon
    | error g =>
        rw [hv] at hon
        cases hf.symm.trans hon
        exact alike_written hs hgenerator m c.types

theorem alike_of_createCompiled (hs : s.IsSound) {level : Level}
    (hf : (createCompiled m level).on s = (.error f, s')) : s.Alike (s.namesOf m) s' := by
  by_cases hgenerator : s.CanGenerate
  case neg => exact alike_of_not_canGenerate hgenerator hs hf
  rcases verify_cases (prepared_isSound hs hgenerator) m with ⟨g, hg⟩ | ⟨r, c, hr, hlive, hc⟩
  · obtain ⟨_, hon⟩ : ∃ g', (createCompiled m level).on s = (.error g', s.prepared) :=
      making_error hgenerator (Effect.on_bind_of_error hg)
    cases hf.symm.trans hon
    exact alike_prepared hs hgenerator m
  · have hon : (createCompiled m level).on s = _ :=
      createCompiledBy_on .own hs hgenerator ((module?_prepared m).symm.trans hr)
        (isLive_prepared.symm.trans hlive) ((context?_prepared _).symm.trans hc) level
    cases hv : Judge.own.verdict c.types r.module with
    | error g =>
        rw [hv] at hon
        cases hf.symm.trans hon
        exact alike_written hs hgenerator m c.types
    | ok u =>
        rw [hv] at hon
        cases hmake : TargetMachine.make s.host .native level with
        | ok machine => rw [hmake] at hon; nomatch hf.symm.trans hon
        | error g =>
            rw [hmake] at hon
            cases hf.symm.trans hon
            exact alike_written hs hgenerator m c.types

/-! ## Modules and contexts -/

/-- The global context is there, or can be made. -/
theorem globalContextId_on (s : Session) : ∃ c s₁, globalContextId.on s = (.ok c, s₁) := by
  rw [globalContextId, Effect.on_bind_of_ok (Effect.on_get s)]
  cases s.globalContext with
  | some c => exact ⟨c, s, rfl⟩
  | none => exact ⟨_, _, rfl⟩

/-- A module is refused only by a context that is given and not live, and before anything is done. -/
theorem eq_of_createModule (hs : s.IsSound) {name : String} {context : Option Nat}
    (hf : (createModule name context).on s = (.error f, s')) : s' = s := by
  -- a context that is live takes the module
  have htaken {c : Nat} {s₁ : Session} (hc : (contextOr context).on s = (.ok c, s₁))
      (hget : s₁.registry.get c Kind.context.word = .ok ()) :
      ∃ id s₂, (createModule name context).on s = (.ok id, s₂) := by
    have hrequire : (require .context c).on s₁ = (.ok (), s₁) := (require_on _ _).trans (by rw [hget])
    rw [createModule, Effect.on_bind_of_ok hc, Effect.on_bind_of_ok hrequire]
    exact ⟨_, _, rfl⟩
  cases context with
  | none =>
      obtain ⟨c, s₁, hc⟩ := globalContextId_on s
      have hmeets := @globalContextId_meets (fun _ => True) s hs
      obtain ⟨hmem, hlive⟩ := hmeets.ok c s₁ hc
      obtain ⟨_, _, hok⟩ := htaken hc ((hmeets.after hc).1.numbers.get_iff.mpr ⟨hmem, hlive⟩)
      nomatch hf.symm.trans hok
  | some c =>
      have hc : (contextOr (some c)).on s = (.ok c, s) := rfl
      cases hget : s.registry.get c Kind.context.word with
      | ok u =>
          obtain ⟨_, _, hok⟩ := htaken hc hget
          nomatch hf.symm.trans hok
      | error e =>
          have hrequire : (require .context c).on s = (.error e, s) := (require_on _ _).trans (by rw [hget])
          have hon : (createModule name (some c)).on s = (.error e, s) :=
            (Effect.on_bind_of_ok hc).trans (Effect.on_bind_of_error hrequire)
          cases hf.symm.trans hon
          rfl

theorem eq_of_disposeContext (hf : (disposeContext id).on s = (.error f, s')) : s' = s := by
  cases hc : s.context? id with
  | none =>
      cases hf.symm.trans (Effect.on_bind_of_error (contextRecord_of_none hc))
      rfl
  | some c =>
      rw [disposeContext_on hc] at hf
      split at hf
      · cases hf
      split at hf
      · obtain ⟨_, hok⟩ : ∃ s₁, (releaseContext id).on s = (.ok (), s₁) := by
          rw [releaseContext, releaseThen_on]
          split
          · exact ⟨_, rfl⟩
          · exact ⟨_, rfl⟩
        cases hf.symm.trans hok
      · cases hf
        rfl

/-! ## Attempts -/

namespace Request

/-- A request is to make a module or an engine, or to dispose of a context. -/
def Attempts : Request → Prop
  | createModule .. | createInterpreter _ | createCompiled .. | dispose .context _ => True
  | _ => False

/-- The names of the symbols whose lines a request may fix though it fails. -/
def fixes (s : Session) : Request → Nat → List String
  | createInterpreter m | createCompiled m _ => s.namesOf m
  | _ => fun _ => []

end Request

/-- What was there is as it was, as far as it can be read: everything in the registry, the contexts,
the engines and the storage, and of each module its table, its text, its verdict and what its variables
are bound to. -/
structure Leaves (s s' : Session) : Prop where
  registry : s'.registry = s.registry
  contexts : s'.contexts = s.contexts
  engines : s'.engines = s.engines
  storage : s'.storage = s.storage
  globalContext : s'.globalContext = s.globalContext
  modules : s'.modules.map ModuleRecord.id = s.modules.map ModuleRecord.id
  module : ∀ id r r', s.module? id = some r → s'.module? id = some r' →
    r'.name = r.name ∧ r'.context = r.context ∧ r'.table = r.table ∧
      (∀ types, r'.module.text types = r.module.text types ∧ r'.module.check types = r.module.check types) ∧
      (∀ i, r'.module.function? i = r.module.function? i) ∧
      ∀ i, (r'.module.variableAt? i).map Variable.init = (r.module.variableAt? i).map Variable.init

theorem Alike.leaves {names : Nat → List String} (h : s.Alike names s') : s.Leaves s' where
  registry := h.registry
  contexts := h.contexts
  engines := h.engines
  storage := h.storage
  globalContext := h.globalContext
  modules := by
    have hmodules := h.modules
    generalize s.modules = rs, s'.modules = rs' at hmodules
    induction hmodules with
    | nil => rfl
    | cons hr _ ih => rw [List.map_cons, List.map_cons, hr.id, ih]
  module := by
    intro id r r' hr hr'
    rcases h.module?_cases id with ⟨hnone, -⟩ | ⟨_, _, hr₁, hr₁', halike, -⟩
    · nomatch hr.symm.trans hnone
    cases hr.symm.trans hr₁
    cases hr'.symm.trans hr₁'
    refine ⟨halike.name, halike.context, halike.table,
      fun types => ⟨halike.module.text_eq types, halike.module.check_eq types⟩,
      fun i => by rw [halike.module.function?], fun i => ?_⟩
    unfold Module.variableAt?
    rcases halike.module.at_cases i with ⟨ht, ht'⟩ | ⟨t, t', ht, ht', htt'⟩
    · rw [ht, ht']
    · rw [ht, ht']
      rcases t with v | g <;> rcases t' with v' | g' <;> try contradiction
      · exact congrArg some htt'.2.2.1
      · rfl

/-- What is not looked at fails as what is done fails. -/
theorem on_of_discard {α : Type} {x : Act α} (h : ((discard x).on s).1 = .error f) :
    x.on s = (.error f, ((discard x).on s).2) := by
  rcases hx : x.on s with ⟨e | a, s₁⟩
  · have hdiscard : (discard x).on s = (.error e, s₁) := Effect.on_bind_of_error hx
    rw [hdiscard] at h ⊢
    cases h
    rfl
  · have hdiscard : (discard x).on s = (.ok (), s₁) := Effect.on_bind_of_ok hx
    rw [hdiscard] at h
    cases h

/-- An attempt to make a module or to dispose of a context leaves nothing. -/
theorem eq_of_attempt (hs : s.IsSound) {r : Request} (hr : r.Attempts) (hmakes : r.makesEngine = false)
    (hf : (r.perform.on s).1 = .error f) : s.does r = s := by
  cases r with
  | createModule name context => exact eq_of_createModule hs (on_of_discard hf)
  | dispose k id =>
      cases k with
      | context =>
          have hon : (disposeContext id).on s = (.error f, s.does (.dispose .context id)) := Prod.ext hf rfl
          exact eq_of_disposeContext hon
      | module | engine => exact hr.elim
  | createInterpreter m => cases hmakes
  | createCompiled m level => cases hmakes
  | _ => exact hr.elim

theorem alike_of_attempt (hs : s.IsSound) {r : Request} (hr : r.Attempts)
    (hf : (r.perform.on s).1 = .error f) : s.Alike (r.fixes s) (s.does r) := by
  have hself : s.Alike (fun _ => []) s := .refl (fun _ _ => List.nil_prefix) fun _ _ => rfl
  cases r with
  | createInterpreter m => exact alike_of_createInterpreter hs (on_of_discard hf)
  | createCompiled m level => exact alike_of_createCompiled hs (on_of_discard hf)
  | createModule name context => rw [eq_of_attempt hs hr rfl hf]; exact hself
  | dispose k id => rw [eq_of_attempt hs hr rfl hf]; exact hself
  | _ => exact hr.elim

/-- After any history, an attempt that fails leaves what was there as it was.  Later histories that
rebind no variable which the module had then do not tell that it was made: they lead to the same
numbers and to the same in all else that is left, and what is asked next succeeds or fails alike. -/
theorem attempt_leaves_alike {s₀ : Session} (h₀ : s₀.IsInitial) (history : List Request) {r : Request}
    (hr : r.Attempts) (hf : (r.perform.on (s₀.after history)).1 = .error f) :
    (s₀.after history).Leaves ((s₀.after history).does r) ∧
      (r.makesEngine = false → (s₀.after history).does r = s₀.after history) ∧
      ∀ later : List Request, (∀ q ∈ later, ¬ q.Rebinds (r.fixes (s₀.after history))) →
        ((s₀.after history).after later).Leaves (((s₀.after history).does r).after later) ∧
          ∀ q : Request, ¬ q.Rebinds (r.fixes (s₀.after history)) →
            (q.perform.on (((s₀.after history).does r).after later)).1 =
              (q.perform.on ((s₀.after history).after later)).1 := by
  have hs := after_isSound h₀.isSound history
  have hs' := does_isSound hs r
  have halike := alike_of_attempt hs hr hf
  refine ⟨halike.leaves, fun hmakes => eq_of_attempt hs hr hmakes hf, fun later hnone => ?_⟩
  have hlater := halike.after hs hs' hnone
  exact ⟨hlater.leaves, fun q hq =>
    (hlater.does (after_isSound hs later) (after_isSound hs' later) hq).2⟩

/-- Two global variables of a module, of which the second has an initializer of another type. -/
def misbinding : List Request :=
  [.createModule "m" none, .addGlobal 2 "a" (.int 32), .addGlobal 2 "b" (.int 32),
    .setInitializer 2 ⟨2, 1⟩ (.int (.int 64) 5)]

/-- An engine of the module is refused; if a function is declared then, and not a variable rebound,
the next number is as if it had not been asked for. -/
theorem attempt_leaves_alike_misbinding :
    ((Request.createInterpreter 2).perform.on ((fresh .fresh).after misbinding)).1 =
        .error .typeMismatch ∧
      ((((fresh .fresh).after misbinding).does (.createInterpreter 2)).after
        [.addGlobal 2 "c" (.int 32), .createContext]).registry =
      (((fresh .fresh).after misbinding).after [.addGlobal 2 "c" (.int 32), .createContext]).registry := by
  have hfails : ((Request.createInterpreter 2).perform.on ((fresh .fresh).after misbinding)).1 =
      .error .typeMismatch := Effect.eq_error_of_failure? (by decide +kernel)
  have hall := attempt_leaves_alike (fresh_isInitial .fresh) misbinding (r := .createInterpreter 2) trivial hfails
  exact ⟨hfails, (hall.2.2 [.addGlobal 2 "c" (.int 32), .createContext] (by simp [Request.Rebinds])).1.registry⟩

/-- What is done after an engine was refused: the initializer of the second variable is put right, and
the first is given one of another type. -/
def rebinding : List Request :=
  [.setInitializer 2 ⟨2, 1⟩ (.int (.int 32) 5), .setInitializer 2 ⟨2, 0⟩ (.int (.int 64) 7),
    .createInterpreter 2]

/-- The line of the first variable was fixed by the attempt.  So the engine that would be refused is
made, and the numbers that are given out next are others. -/
theorem attempt_tells :
    ((Request.createInterpreter 2).perform.on ((fresh .fresh).after misbinding)).1 =
        .error .typeMismatch ∧
      (((fresh .fresh).after misbinding).after rebinding).registry.next = 3 ∧
      ((((fresh .fresh).after misbinding).does (.createInterpreter 2)).after rebinding).registry.next =
        4 := by
  refine ⟨Effect.eq_error_of_failure? (by decide +kernel), by decide +kernel, by decide +kernel⟩

end Ssa.Session

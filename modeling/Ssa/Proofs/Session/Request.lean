/-
# `Ssa.Proofs.Session.Request` — what can be asked of a session, and histories

Whatever callers do in a session they do by requests: making, disposing and collecting, declaring and
looking up, asking functions through handles, text and checks, engines and runs.  A history is a list
of requests, done one after another; one that fails does not end it.  A session that a history leads
to is sound, and a number that was given out is live exactly until a request releases it.

**Proved here.**

    a request keeps a session sound, and releases only what it is about       (`perform_meets`)
    what a request is to release is gone after it                              (`isGone_of_releases`)
    every history leads from a sound session to a sound one                     (`after_isSound`)
    a live number is gone after a history  ⟺  a request of it has released it    (`isLive_after_iff`)
-/
import Ssa.Proofs.Session.Releasing
import Ssa.Session.Describe

namespace Ssa.Session

open Effect (Meets)

/-! ## Requests -/

/-- A question about the function that a handle leads to. -/
inductive Access where
  | name | blocks | parameterCount | signature | returnType | parameterTypes | isVariadic
  | isDeclaration
  | parameter (index : Int)
deriving DecidableEq, Repr

namespace Access

/-- What answers to a question are. -/
abbrev Answer : Access → Type
  | name => String
  | blocks => List String
  | parameterCount => Nat
  | signature | returnType => Ty
  | parameterTypes => List Ty
  | isVariadic | isDeclaration => Bool
  | parameter _ => String × Ty

/-- Ask a question through a handle. -/
def ask (h : Handle) : (a : Access) → Act a.Answer
  | name => functionName h
  | blocks => blockNames h
  | parameterCount => do return (← functionOf h).params.length
  | signature => Session.signature h
  | returnType => do return (← signedFunction h).result
  | parameterTypes => do return (← signedFunction h).params
  | isVariadic => do return (← signedFunction h).variadic
  | isDeclaration => do return (← functionOf h).isDeclaration
  | parameter index => Session.parameter h index

end Access

/-- A request to a session. -/
inductive Request where
  | createContext
  | globalContext
  | createModule (name : String) (context : Option Nat)
  | dispose (k : Kind) (id : Nat)
  /-- Release what the given numbers do not lead to. -/
  | collect (roots : List Nat)
  | describe (k : Kind) (id : Nat)
  /-- Ask for what is inside of a context or a module. -/
  | insides (k : Kind) (id : Nat)
  | mention (context : Nat) (t : Ty)
  | identify (context : Nat) (name : String)
  | defineBody (context : Nat) (name : String) (fields : List Ty)
  | addFunction (m : Nat) (name : String) (type : Ty)
  | declareOutside (m : Nat) (name : String) (type : Ty)
  | lookup (m : Nat) (name : String)
  | getOrDeclare (m : Nat) (name : String) (type : Ty)
  | functions (m : Nat)
  | addGlobal (m : Nat) (name : String) (type : Ty)
  | setInitializer (m : Nat) (g : GlobalRef) (value : Constant)
  | build (m : Nat) (d : Draft)
  | follow (h : Handle)
  | moduleOf (h : Handle)
  | toBare (h : Handle)
  | describeHandle (h : Handle)
  | ask (h : Handle) (a : Access)
  | appendBlock (h : Handle) (label : String)
  | buildBody (h : Handle) (blocks : List Draft.Block)
  | render (m : Nat)
  | renderToFile (m : Nat) (p : Path)
  | verify (m : Nat)
  | isValid (m : Nat)
  | emit (m : Nat) (host : Triple) (processor : Processor) (level : Level) (p : Path)
  | emitSource (source : Path) (host : Triple) (processor : Processor) (level : Level) (p : Path)
      (checked : Bool)
  | createInterpreter (m : Nat)
  | createCompiled (m : Nat) (level : Level)
  | makeValue (r : GenericRecipe)
  | run (engine : Nat) (callee : Callee) (args : List GenericValue)

namespace Request

/-- Do what a request asks for.  What it gives is not looked at. -/
def perform : Request → Act Unit
  | createContext => discard Session.createContext
  | globalContext => discard globalContextId
  | createModule name context => discard (Session.createModule name context)
  | dispose .context id => disposeContext id
  | dispose .module id => disposeModule id
  | dispose .engine id => do
    discard (engineRecord id)
    disposeEngine id
  | collect roots => Session.collect roots
  | describe .context id => discard (describeContext id)
  | describe .module id => discard (describeModule id)
  | describe .engine id => discard (describeEngine id)
  | insides k id => require k id
  | mention context t => Session.mention context t
  | identify context name => discard (Session.identify context name)
  | defineBody context name fields => discard (Session.defineBody context name fields)
  | addFunction m name type => discard (Session.addFunction m name type)
  | declareOutside m name type => discard (Session.declareOutside m name type)
  | lookup m name => discard (Session.lookup m name)
  | getOrDeclare m name type => discard (Session.getOrDeclare m name type)
  | functions m => discard (Session.functions m)
  | addGlobal m name type => discard (Session.addGlobal m name type)
  | setInitializer m g value => Session.setInitializer m g value
  | build m d => Session.build m d
  | follow h => discard (resolve h)
  | moduleOf h => discard (Session.moduleOf h)
  | toBare h => discard (Session.toBare h)
  | describeHandle h => discard (Session.describeHandle h)
  | ask h a => discard (a.ask h)
  | appendBlock h label => discard (Session.appendBlock h label)
  | buildBody h blocks => Session.buildBody h blocks
  | render m => discard (Session.render m)
  | renderToFile m p => Session.renderToFile m p
  | verify m => Session.verify m
  | isValid m => discard (Session.isValid m)
  | emit m host processor level p => Session.emit m host processor level p
  | emitSource source host processor level p checked =>
    Session.emitSource source host processor level p checked
  | createInterpreter m => discard (Session.createInterpreter m)
  | createCompiled m level => discard (Session.createCompiled m level)
  | makeValue r => discard (Session.makeValue r)
  | run engine callee args => discard (Session.run engine callee args)

/-- The numbers that a request releases, if they are live: the one that is disposed of, unless it is
that of the global context or of a context with modules; or those that are not led to. -/
def Releases (s : Session) (id : Nat) : Request → Prop
  | dispose .context i =>
    i = id ∧ ∃ c, s.context? id = some c ∧ c.isGlobal = false ∧ c.modules = []
  | dispose k i => i = id ∧ id ∈ s.ids k
  | collect roots => id ∉ s.reached roots
  | _ => False

end Request

/-! ## What requests keep -/

variable {s s' : Session} {id : Nat}

theorem ask_goes {free : Nat → Prop} (hs : s.IsSound) (h : Handle) (a : Access) :
    Goes free (a.ask h) s := by
  cases a with
  | name | blocks | parameterCount | isDeclaration =>
      exact .next (functionOf_goes hs h) fun _ _ hs₁ => pure_goes hs₁ _
  | signature => exact signature_goes hs h
  | returnType | parameterTypes | isVariadic =>
      exact .next (signedFunction_goes hs h) fun _ _ hs₁ => pure_goes hs₁ _
  | parameter index => exact parameter_goes hs h index

theorem describeHandle_goes {free : Nat → Prop} (hs : s.IsSound) (h : Handle) :
    Goes free (describeHandle h) s := by
  have hname : Goes free (functionName h) s :=
    .next (functionOf_goes hs h) fun _ _ hs₁ => pure_goes hs₁ _
  cases h with
  | bare m i => exact .next hname fun _ _ hs₁ => pure_goes hs₁ _
  | member m i =>
      refine .get ?_
      split
      · exact .next hname fun _ _ hs₁ => pure_goes hs₁ _
      · exact pure_goes hs _

theorem describe_goes {free : Nat → Prop} (hs : s.IsSound) (k : Kind) (id : Nat) :
    Goes free (Request.describe k id).perform s := by
  cases k with
  | context =>
      exact .discard (.next (contextRecord_meets hs) fun _ _ hs₁ => .get (pure_goes hs₁ _))
  | module =>
      exact .discard (.next (moduleRecord_meets hs) fun _ _ hs₁ => .get (pure_goes hs₁ _))
  | engine =>
      exact .discard (.next (engineRecord_meets hs) fun _ _ hs₁ =>
        .next (moduleRecord_meets hs₁) fun _ _ hs₂ => .get (pure_goes hs₂ _))

theorem dispose_goes (hs : s.IsSound) (k : Kind) (id : Nat) :
    Goes (fun i => (Request.dispose k id).Releases s i) (Request.dispose k id).perform s := by
  cases k with
  | context =>
      cases hc : s.context? id with
      | none => exact goes_of_error hs (Effect.on_bind_of_error (contextRecord_of_none hc))
      | some c =>
          exact goes_of_releasing (disposeContext_meets hs hc fun hlocal hempty =>
            ⟨rfl, c, hc, hlocal, hempty⟩)
  | module =>
      cases hr : s.module? id with
      | none => exact goes_of_error hs (Effect.on_bind_of_error (moduleRecord_of_none hr))
      | some r =>
          exact goes_of_releasing (disposeModule_meets hs hr ⟨rfl, (mem_ids_of_module? hr).1⟩)
  | engine =>
      cases he : s.engine? id with
      | none =>
          exact goes_of_error hs (Effect.on_bind_of_error
            (Effect.on_bind_of_error (engineRecord_of_none he)))
      | some e =>
          have hid := (mem_ids_of_engine? he).1
          have hon : (Request.dispose .engine id).perform.on s = (releaseEngine id).on s :=
            Effect.on_bind_of_ok (Effect.on_bind_of_ok (engineRecord_on he))
          exact .of_on_eq hon (goes_of_releasing (releaseEngine_meets hs hid ⟨rfl, hid⟩))

/-- A request keeps a session sound and what sessions keep, and releases only what it is about. -/
theorem perform_meets (hs : s.IsSound) (r : Request) :
    Goes (fun id => r.Releases s id) r.perform s := by
  cases r with
  | createContext => exact .discard (createContext_goes hs)
  | globalContext => exact .discard (globalContextId_meets hs)
  | createModule name context => exact .discard (createModule_goes hs name context)
  | dispose k id => exact dispose_goes hs k id
  | collect roots => exact goes_of_releasing (collect_meets hs roots)
  | describe k id => exact describe_goes hs k id
  | insides k id => exact (require_meets hs k).mono fun _ _ _ => trivial
  | mention context t => exact mention_goes hs t
  | identify context name => exact .discard (identify_goes hs name)
  | defineBody context name fields => exact .discard (defineBody_goes hs name fields)
  | addFunction m name type => exact .discard (addFunction_goes hs name type)
  | declareOutside m name type => exact .discard (declareOutside_goes hs name type)
  | lookup m name => exact .discard (lookup_goes hs name)
  | getOrDeclare m name type => exact .discard (getOrDeclare_goes hs name type)
  | functions m => exact .discard (functions_goes hs)
  | addGlobal m name type => exact .discard (addGlobal_goes hs name type)
  | setInitializer m g value => exact setInitializer_goes hs g value
  | build m d => exact build_goes hs d
  | follow h => exact .discard (resolve_goes hs h)
  | moduleOf h => exact .discard (moduleOf_goes hs h)
  | toBare h => exact .discard (toBare_goes hs h)
  | describeHandle h => exact .discard (describeHandle_goes hs h)
  | ask h a => exact .discard (ask_goes hs h a)
  | appendBlock h label => exact .discard (appendBlock_goes hs h label)
  | buildBody h blocks => exact buildBody_goes hs h blocks
  | render m => exact .discard (render_goes hs)
  | renderToFile m p => exact renderToFile_goes hs p
  | verify m => exact verify_goes hs
  | isValid m => exact .discard (isValid_goes hs)
  | emit m host processor level p => exact emit_goes hs host processor level p
  | emitSource source host processor level p checked =>
      exact emitSource_goes hs source host processor level p checked
  | createInterpreter m => exact .discard (createInterpreter_goes hs)
  | createCompiled m level => exact .discard (createCompiled_goes hs level)
  | makeValue r => exact .discard (makeValue_goes hs r)
  | run engine callee args => exact .discard (run_goes hs callee args)

/-! ## What is released -/

/-- The session that a request leads to, also if it fails. -/
def does (s : Session) (r : Request) : Session := (r.perform.on s).2

theorem does_isSound (hs : s.IsSound) (r : Request) : (s.does r).IsSound :=
  (perform_meets hs r).holds

theorem does_grows (hs : s.IsSound) (r : Request) : s.Grows (fun id => r.Releases s id) (s.does r) :=
  (perform_meets hs r).grows

theorem isGone_of_meets {free : Nat → Prop} {r : Request} {P : Session → Unit → Prop}
    (h : Meets (releasing free) r.perform s P fun _ => False) (hP : ∀ s' u, P s' u → s'.IsGone id) :
    (s.does r).IsGone id := by
  obtain ⟨u, -, hpost⟩ := h.succeeds
  exact hP _ u hpost

/-- What a request is to release is gone after it. -/
theorem isGone_of_releases (hs : s.IsSound) {k : Kind} (hid : id ∈ s.ids k) {r : Request}
    (hr : r.Releases s id) : (s.does r).IsGone id := by
  cases r with
  | dispose k i =>
      cases k with
      | context =>
          obtain ⟨rfl, c, hc, hlocal, hempty⟩ := hr
          by_cases hlive : s.isLive i = true
          · obtain ⟨hmem, rfl⟩ := hs.context?_iff.mp hc
            have hon :
                (Request.dispose .context c.id).perform.on s = (releaseContext c.id).on s := by
              refine (disposeContext_on hc).trans ?_
              simp [hlocal, hlive, hempty]
            have hreleased : Meets (releasing fun _ => True) (releaseContext c.id) s _ _ :=
              releaseContext_meets hs hmem hlocal hempty trivial
            exact isGone_of_meets (.of_on_eq hon hreleased) fun _ _ h => h
          · have hdead : s.IsGone i :=
              ⟨hs.numbers.issued _ _ (mem_ids_of_context? hc).1, by simpa using hlive⟩
            exact (does_grows hs _).isGone hdead
      | module =>
          obtain ⟨rfl, hmem⟩ := hr
          obtain ⟨r, hr⟩ := hs.module_of_mem hmem
          have hreleased : Meets (releasing fun _ => True) (disposeModule i) s _ _ :=
            disposeModule_meets hs hr trivial
          exact isGone_of_meets (r := .dispose .module i) hreleased fun _ _ h => h
      | engine =>
          obtain ⟨rfl, hmem⟩ := hr
          obtain ⟨e, he⟩ := hs.engine_of_mem hmem
          have hon : (Request.dispose .engine i).perform.on s = (releaseEngine i).on s :=
            Effect.on_bind_of_ok (Effect.on_bind_of_ok (engineRecord_on he))
          have hreleased : Meets (releasing fun _ => True) (releaseEngine i) s _ _ :=
            releaseEngine_meets hs hmem trivial
          exact isGone_of_meets (.of_on_eq hon hreleased) fun _ _ h => h
  | collect roots =>
      exact isGone_of_meets (r := .collect roots) (collect_meets hs roots) fun _ _ h => h k id hid hr
  | _ => exact hr.elim

/-! ## Histories -/

/-- The session that a history leads to. -/
def after (s : Session) (history : List Request) : Session := history.foldl does s

/-- Some request of a history releases a number, on the session as it is then. -/
def Loses (s : Session) : List Request → Nat → Prop
  | [], _ => False
  | r :: history, id => r.Releases s id ∨ (s.does r).Loses history id

/-- Every history leads from a sound session to a sound one. -/
theorem after_isSound (hs : s.IsSound) (history : List Request) : (s.after history).IsSound := by
  induction history generalizing s with
  | nil => exact hs
  | cons r history ih => exact ih (does_isSound hs r)

theorem after_grows (hs : s.IsSound) (history : List Request) :
    s.Grows (fun _ => True) (s.after history) := by
  induction history generalizing s with
  | nil => exact .refl s
  | cons r history ih =>
      exact ((does_grows hs r).mono fun _ _ => trivial).trans (ih (does_isSound hs r))

/-- A live number is gone after a history exactly if a request of it has released it. -/
theorem isLive_after_iff (hs : s.IsSound) {k : Kind} (hid : id ∈ s.ids k)
    (hlive : s.isLive id = true) (history : List Request) :
    (s.after history).isLive id = true ↔ ¬ s.Loses history id := by
  induction history generalizing s with
  | nil => exact iff_of_true hlive not_false
  | cons r history ih =>
      have hs₁ := does_isSound hs r
      have hgrows := does_grows hs r
      by_cases hr : r.Releases s id
      · have hgone := (after_grows hs₁ history).isGone (isGone_of_releases hs hid hr)
        refine iff_of_false ?_ (not_not_intro (.inl hr))
        show ((s.does r).after history).isLive id ≠ true
        rw [hgone.2]
        exact Bool.false_ne_true
      · have hrest := ih hs₁ (hgrows.mem_ids hs hid) (hgrows.live id hlive hr)
        exact hrest.trans (not_congr (by simp [Loses, hr]))

end Ssa.Session

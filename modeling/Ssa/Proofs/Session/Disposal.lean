/-
# `Ssa.Proofs.Session.Disposal` — disposing is for good

What has been disposed of stays so.  To dispose of it again does nothing.  Every request that needs it
is refused with its kind and its number, and nothing changes: the number is looked up before anything
else is done.  Only where an engine is to be made the code generator is set up first.

**Proved here.**

    a request that needs what is gone is refused               (`perform_on_gone`)
    what was disposed of is gone                                (`isGone_of_dispose`)
    it stays so, whatever is done later                          (`disposed_for_good`)
-/
import Ssa.Proofs.Session.Handles

namespace Ssa

/-! ## What requests need -/

/-- What a handle goes through. -/
def Handle.needs : Handle → List (Kind × Nat)
  | .member m _ => [(.module, m)]
  | .bare .. => []

namespace Session

/-- What a function to be run is found through, besides the module of the engine. -/
def Callee.needs : Callee → List (Kind × Nat)
  | .named _ => []
  | .handle h => h.needs

namespace Request

/-- The things that a request needs, in the order in which they are looked up. -/
def needs (s : Session) : Request → List (Kind × Nat)
  | createModule _ (some c) | identify c _ => [(.context, c)]
  | insides k id => [(k, id)]
  | addFunction m .. | declareOutside m .. | lookup m _ | getOrDeclare m .. | functions m
  | addGlobal m .. | setInitializer m .. | render m | renderToFile m _ | verify m | isValid m
  | emit m .. | createInterpreter m | createCompiled m _ => [(.module, m)]
  | build m d =>
    if d.types.isEmpty && d.globals.isEmpty && d.functions.isEmpty then [] else [(.module, m)]
  | follow h | moduleOf h | toBare h | ask h _ | appendBlock h _ | buildBody h _ => h.needs
  | run engine callee _ =>
    (.engine, engine) ::
      match s.engine? engine with
      | some e => (.module, e.module) :: callee.needs
      | none => []
  | _ => []

/-- Whether a request is to make an engine. -/
def makesEngine : Request → Bool
  | createInterpreter _ | createCompiled .. => true
  | _ => false

end Request

/-- A session in which the code generator has been set up. -/
def prepared (s : Session) : Session :=
  if s.generator.ready = true then s
  else
    { s with
      generator := { s.generator with ready := true }
      log := s.log ++ [.generatorReady s.host] }

/-- The session that a request that is refused leaves: as it was, but for the code generator if an
engine was to be made. -/
def refusing (s : Session) (r : Request) : Session := if r.makesEngine then s.prepared else s

variable {s : Session} {m id : Nat}

/-- Where the code generator is set up already, a refusal changes nothing. -/
theorem refusing_of_ready (h : s.generator.ready = true) (r : Request) : s.refusing r = s := by
  rw [refusing, prepared, if_pos h, ite_self]

/-! ## Refusals -/

theorem prepareGenerator_on (h : s.generator.fault = none) :
    prepareGenerator.on s = (.ok (), s.prepared) := by
  rw [prepareGenerator, Effect.on_bind_of_ok (Effect.on_get s), prepared]
  split
  · rfl
  · rw [h]
    rfl

/-- Setting the code generator up changes it and the log. -/
theorem prepared_eq (s : Session) :
    s.prepared = { s with generator := s.prepared.generator, log := s.prepared.log } := by
  unfold prepared
  split <;> rfl

theorem registry_prepared (s : Session) : s.prepared.registry = s.registry := by rw [prepared_eq]

theorem modules_prepared (s : Session) : s.prepared.modules = s.modules := by rw [prepared_eq]

theorem contexts_prepared (s : Session) : s.prepared.contexts = s.contexts := by rw [prepared_eq]

theorem isLive_prepared : s.prepared.isLive id = s.isLive id := by
  rw [isLive, registry_prepared, isLive]

/-- A failure for want of a thing is reported as it is. -/
theorem reporting_disposed {α : Type} {report : Failure} {step : Act α} {kind number : String}
    (h : step.on s = (.error (.disposed kind number), s)) :
    (reporting report step).on s = (.error (.disposed kind number), s) := by
  rw [reporting, Effect.on_tryCatch, h]
  rfl

theorem render_on_gone (h : s.isLive m = false) :
    (render m).on s = (.error (.disposed Kind.module.word (toString m)), s) :=
  Effect.on_bind_of_error (liveModule_on_gone h)

theorem verify_on_gone (h : s.isLive m = false) :
    (verify m).on s = (.error (.disposed Kind.module.word (toString m)), s) :=
  Effect.on_bind_of_error (Effect.on_bind_of_error (render_on_gone h))

theorem isValid_on_gone (h : s.isLive m = false) :
    (isValid m).on s = (.error (.disposed Kind.module.word (toString m)), s) := by
  have hverify : (do verify m; pure true : Act Bool).on s =
      (.error (.disposed Kind.module.word (toString m)), s) :=
    Effect.on_bind_of_error (verify_on_gone h)
  rw [isValid, Effect.on_tryCatch, hverify]
  rfl

theorem createInterpreter_on_gone (hfault : s.generator.fault = none) (h : s.isLive m = false) :
    (createInterpreter m).on s =
      (.error (.disposed Kind.module.word (toString m)), s.prepared) := by
  rw [createInterpreter, Effect.on_bind_of_ok (prepareGenerator_on hfault),
    Effect.on_bind_of_ok (Effect.on_get _)]
  exact Effect.on_bind_of_error (reporting_disposed (verify_on_gone (isLive_prepared.trans h)))

theorem createCompiled_on_gone (hfault : s.generator.fault = none) (level : Level)
    (h : s.isLive m = false) :
    (createCompiled m level).on s =
      (.error (.disposed Kind.module.word (toString m)), s.prepared) := by
  rw [createCompiled, Effect.on_bind_of_ok (prepareGenerator_on hfault),
    Effect.on_bind_of_ok (Effect.on_get _)]
  exact Effect.on_bind_of_error (reporting_disposed
    (Effect.on_bind_of_error (verify_on_gone (isLive_prepared.trans h))))

theorem build_on_gone (h : s.isLive m = false) {d : Draft}
    (hd : (d.types.isEmpty && d.globals.isEmpty && d.functions.isEmpty) = false) :
    (build m d).on s = (.error (.disposed Kind.module.word (toString m)), s) := by
  rw [build, hd, Bool.not_false, if_pos rfl]
  exact Effect.on_bind_of_error (require_on_gone .module h)

/-- A run is refused if the engine, its module or the module of the handle is gone. -/
theorem run_on_gone (hs : s.IsSound) {callee : Callee} {args : List GenericValue} {n : Kind × Nat}
    (hfirst : ((Request.run id callee args).needs s).find? (fun n => !s.isLive n.2) = some n) :
    (run id callee args).on s = (.error (.disposed n.1.word (toString n.2)), s) := by
  cases hlive : s.isLive id with
  | false =>
      have hn : n = (.engine, id) := by simpa [Request.needs, hlive] using hfirst.symm
      subst hn
      exact Effect.on_bind_of_error (require_on_gone .engine hlive)
  | true =>
      cases he : s.engine? id with
      | none => simp [Request.needs, hlive, he] at hfirst
      | some e =>
          have hmem := (hs.engine?_iff.mp he).1
          rw [run, Effect.on_bind_of_ok (hs.require_on (mem_ids_of_engine? he).1 hlive),
            Effect.on_bind_of_ok (engineRecord_on he)]
          cases hmodule : s.isLive e.module with
          | false =>
              have hn : n = (.module, e.module) := by
                simpa [Request.needs, hlive, he, hmodule] using hfirst.symm
              subst hn
              exact Effect.on_bind_of_error (require_on_gone .module hmodule)
          | true =>
              rw [Effect.on_bind_of_ok (hs.require_on (hs.bound e hmem) hmodule)]
              have hcallee : callee.needs.find? (fun n => !s.isLive n.2) = some n := by
                simpa [Request.needs, hlive, he, hmodule] using hfirst
              -- only a handle needs something, and its module is another one
              cases callee with
              | named f => cases hcallee
              | handle h =>
                  cases h with
                  | bare owner symbol => cases hcallee
                  | member owner index =>
                      have hn := List.mem_singleton.mp (List.mem_of_find?_eq_some hcallee)
                      subst hn
                      have hdead : s.isLive owner = false := by
                        simpa using List.find?_some hcallee
                      have hne : owner ≠ e.module := fun heq => by
                        rw [heq, hmodule] at hdead
                        cases hdead
                      refine Effect.on_bind_of_error ?_
                      rw [position, if_neg hne]
                      exact Effect.on_bind_of_error
                        (Effect.on_bind_of_error (isStale_member hdead index).followed)

/-- A request is refused for the first of the things it needs that is gone. -/
theorem perform_on_gone (hs : s.IsSound) {r : Request} {n : Kind × Nat}
    (hfirst : (r.needs s).find? (fun n => !s.isLive n.2) = some n)
    (hfault : r.makesEngine = true → s.generator.fault = none) :
    r.perform.on s = (.error (.disposed n.1.word (toString n.2)), s.refusing r) := by
  have hmem := List.mem_of_find?_eq_some hfirst
  have hdead : s.isLive n.2 = false := by simpa using List.find?_some hfirst
  have hhandle {h : Handle} (hn : n ∈ h.needs) : ∃ m i, h = .member m i ∧ n = (.module, m) := by
    cases h with
    | bare m k => cases hn
    | member m i => exact ⟨m, i, rfl, List.mem_singleton.mp hn⟩
  cases r with
  | createModule name context =>
      cases context with
      | none => cases hmem
      | some c =>
          cases List.mem_singleton.mp hmem
          have hgiven : (contextOr (some c)).on s = (.ok c, s) := rfl
          have hmade : (Session.createModule name (some c)).on s =
              (.error (.disposed Kind.context.word (toString c)), s) :=
            (Effect.on_bind_of_ok hgiven).trans
              (Effect.on_bind_of_error (require_on_gone .context hdead))
          exact Effect.on_bind_of_error hmade
  | identify c name =>
      cases List.mem_singleton.mp hmem
      exact Effect.on_bind_of_error (Effect.on_bind_of_error (require_on_gone .context hdead))
  | insides k id =>
      cases List.mem_singleton.mp hmem
      exact require_on_gone k hdead
  | addFunction | lookup | functions | render =>
      cases List.mem_singleton.mp hmem
      exact Effect.on_bind_of_error (Effect.on_bind_of_error (liveModule_on_gone hdead))
  | declareOutside | addGlobal =>
      cases List.mem_singleton.mp hmem
      exact Effect.on_bind_of_error (Effect.on_bind_of_error (require_on_gone .module hdead))
  | getOrDeclare =>
      cases List.mem_singleton.mp hmem
      exact Effect.on_bind_of_error
        (Effect.on_bind_of_error (Effect.on_bind_of_error (liveModule_on_gone hdead)))
  | setInitializer =>
      cases List.mem_singleton.mp hmem
      exact Effect.on_bind_of_error (liveModule_on_gone hdead)
  | renderToFile =>
      cases List.mem_singleton.mp hmem
      exact Effect.on_bind_of_error (render_on_gone hdead)
  | verify =>
      cases List.mem_singleton.mp hmem
      exact verify_on_gone hdead
  | isValid =>
      cases List.mem_singleton.mp hmem
      exact Effect.on_bind_of_error (isValid_on_gone hdead)
  | emit =>
      cases List.mem_singleton.mp hmem
      exact Effect.on_bind_of_error (Effect.on_bind_of_error (render_on_gone hdead))
  | createInterpreter =>
      cases List.mem_singleton.mp hmem
      exact Effect.on_bind_of_error (createInterpreter_on_gone (hfault rfl) hdead)
  | createCompiled m level =>
      cases List.mem_singleton.mp hmem
      exact Effect.on_bind_of_error (createCompiled_on_gone (hfault rfl) level hdead)
  | build m d =>
      rw [Request.needs] at hmem
      split at hmem
      · cases hmem
      · rename_i hd
        cases List.mem_singleton.mp hmem
        exact build_on_gone hdead (by simpa using hd)
  | follow h =>
      obtain ⟨m, i, rfl, rfl⟩ := hhandle hmem
      exact Effect.on_bind_of_error (isStale_member hdead i).followed
  | moduleOf h =>
      obtain ⟨m, i, rfl, rfl⟩ := hhandle hmem
      exact Effect.on_bind_of_error (isStale_member hdead i).module
  | toBare h =>
      obtain ⟨m, i, rfl, rfl⟩ := hhandle hmem
      exact Effect.on_bind_of_error (isStale_member hdead i).bare
  | ask h a =>
      obtain ⟨m, i, rfl, rfl⟩ := hhandle hmem
      exact Effect.on_bind_of_error ((isStale_member hdead i).asked a)
  | appendBlock h label =>
      obtain ⟨m, i, rfl, rfl⟩ := hhandle hmem
      exact Effect.on_bind_of_error ((isStale_member hdead i).extended label)
  | buildBody h blocks =>
      obtain ⟨m, i, rfl, rfl⟩ := hhandle hmem
      exact (isStale_member hdead i).built blocks
  | run engine callee args => exact Effect.on_bind_of_error (run_on_gone hs hfirst)
  | createContext | globalContext | dispose | collect | describe | mention | defineBody
  | describeHandle | emitSource | makeValue => cases hmem

/-! ## Disposing -/

/-- What is gone is not released again. -/
theorem dispose_on_gone (hs : s.IsSound) {k : Kind} (hid : id ∈ s.ids k)
    (hdead : s.isLive id = false) : (Request.dispose k id).perform.on s = (.ok (), s) := by
  cases k with
  | context =>
      obtain ⟨c, hc⟩ := hs.context_of_mem hid
      exact (disposeContext_on hc).trans (if_pos (.inr hdead))
  | module =>
      obtain ⟨r, hr⟩ := hs.module_of_mem hid
      have hsame : r.id = id := (mem_ids_of_module? hr).2
      refine (disposeModule_on hr).trans ?_
      rw [releaseModule_on, hsame, hdead]
      rfl
  | engine =>
      obtain ⟨e, he⟩ := hs.engine_of_mem hid
      have hon : (Request.dispose .engine id).perform.on s = (releaseEngine id).on s :=
        Effect.on_bind_of_ok (Effect.on_bind_of_ok (engineRecord_on he))
      rw [hon, releaseEngine_on, hdead]
      rfl

/-- What was disposed of had a number that was given out.  It is gone, unless it is the global
context. -/
theorem isGone_of_dispose (hs : s.IsSound) {k : Kind} {s₁ : Session}
    (hon : (Request.dispose k id).perform.on s = (.ok (), s₁))
    (hlocal : k = .context → s.globalContext ≠ some id) :
    id ∈ s.ids k ∧ s₁.IsGone id := by
  have hdoes : s.does (.dispose k id) = s₁ := congrArg Prod.snd hon
  have hreleases : id ∈ s.ids k ∧ (s.isLive id = true → (Request.dispose k id).Releases s id) := by
    cases k with
    | context =>
        cases hc : s.context? id with
        | none => nomatch (Effect.on_bind_of_error (contextRecord_of_none hc)).symm.trans hon
        | some c =>
            obtain ⟨hmem, rfl⟩ := hs.context?_iff.mp hc
            have hnot : c.isGlobal = false := by simpa using mt (hs.isGlobal c hmem).mp (hlocal rfl)
            refine ⟨mem_ids_of_context hmem, fun hlive => ⟨rfl, c, hc, hnot, ?_⟩⟩
            -- a context with modules would have been refused
            by_contra hsome
            have hrefused := disposeContext_on hc
            rw [if_neg (by simp [hlive, hnot]), if_neg hsome] at hrefused
            nomatch hrefused.symm.trans hon
    | module =>
        cases hr : s.module? id with
        | none => nomatch (Effect.on_bind_of_error (moduleRecord_of_none hr)).symm.trans hon
        | some r => exact ⟨(mem_ids_of_module? hr).1, fun _ => ⟨rfl, (mem_ids_of_module? hr).1⟩⟩
    | engine =>
        cases he : s.engine? id with
        | none =>
            nomatch (Effect.on_bind_of_error
              (Effect.on_bind_of_error (engineRecord_of_none he))).symm.trans hon
        | some e => exact ⟨(mem_ids_of_engine? he).1, fun _ => ⟨rfl, (mem_ids_of_engine? he).1⟩⟩
  obtain ⟨hid, hreleases⟩ := hreleases
  refine ⟨hid, hdoes ▸ ?_⟩
  by_cases hlive : s.isLive id = true
  · exact isGone_of_releases hs hid (hreleases hlive)
  · have hgone : s.IsGone id := ⟨hs.numbers.issued _ _ hid, by simpa using hlive⟩
    exact (does_grows hs _).isGone hgone

/-- A thing is gone for good: it is not released again, and a request that needs it is refused and
changes nothing, for the first of the things it needs that is gone.  Only if an engine is to be made,
the code generator is set up first. -/
structure IsRefused (s : Session) (k : Kind) (id : Nat) : Prop where
  dead : s.isLive id = false
  again : (Request.dispose k id).perform.on s = (.ok (), s)
  refused : ∀ r : Request, (k, id) ∈ r.needs s →
    (r.makesEngine = true → s.generator.fault = none) →
    ∃ n, (r.needs s).find? (fun n => !s.isLive n.2) = some n ∧
      r.perform.on s = (.error (.disposed n.1.word (toString n.2)), s.refusing r)
  /-- The refusal names the thing itself, unless the request needs something else that is gone. -/
  named : ∀ r : Request, (k, id) ∈ r.needs s →
    (r.makesEngine = true → s.generator.fault = none) →
    (∀ n ∈ r.needs s, s.isLive n.2 = false → n = (k, id)) →
    r.perform.on s = (.error (.disposed k.word (toString id)), s.refusing r)

theorem IsSound.isRefused (hs : s.IsSound) {k : Kind} (hid : id ∈ s.ids k)
    (hdead : s.isLive id = false) : s.IsRefused k id := by
  have hfirst (r : Request) (hr : (k, id) ∈ r.needs s) :
      ∃ n, (r.needs s).find? (fun n => !s.isLive n.2) = some n :=
    Option.isSome_iff_exists.mp (List.find?_isSome.mpr ⟨(k, id), hr, by simp [hdead]⟩)
  refine ⟨hdead, dispose_on_gone hs hid hdead, fun r hr hfault => ?_, fun r hr hfault honly => ?_⟩
  · obtain ⟨n, hn⟩ := hfirst r hr
    exact ⟨n, hn, perform_on_gone hs hn hfault⟩
  · obtain ⟨n, hn⟩ := hfirst r hr
    have hsame : n = (k, id) :=
      honly n (List.mem_of_find?_eq_some hn) (by simpa using List.find?_some hn)
    subst hsame
    exact perform_on_gone hs hn hfault

/-- What was disposed of after any history, if it is not the global context, is gone for good,
whatever is done later. -/
theorem disposed_for_good {s₀ s₁ : Session} (h₀ : s₀.IsInitial) {before : List Request} {k : Kind}
    (hdisposed : (Request.dispose k id).perform.on (s₀.after before) = (.ok (), s₁))
    (hlocal : k = .context → (s₀.after before).globalContext ≠ some id) (later : List Request) :
    (s₁.after later).IsRefused k id := by
  have hs := after_isSound h₀.isSound before
  have hdoes : (s₀.after before).does (.dispose k id) = s₁ := congrArg Prod.snd hdisposed
  have hs₁ : s₁.IsSound := hdoes ▸ does_isSound hs _
  have hgrows : (s₀.after before).Grows _ s₁ := hdoes ▸ does_grows hs (.dispose k id)
  have hgrows' := after_grows hs₁ later
  obtain ⟨hid, hgone⟩ := isGone_of_dispose hs hdisposed hlocal
  exact (after_isSound hs₁ later).isRefused (hgrows'.mem_ids hs₁ (hgrows.mem_ids hs hid))
    (hgrows'.isGone hgone).2

/-- A module is disposed of after an engine was made of it: the engine runs nothing any more, and no
other is made. -/
theorem disposed_for_good_module :
    let s := (fresh .fresh).after [.createModule "m" none, .createInterpreter 2]
    let s₁ := ((Request.dispose .module 2).perform.on s).2
    let s₂ := s₁.after [.createModule "m" none]
    (Request.run 3 (.named "f") []).perform.on s₂ = (.error (.disposed "module" "2"), s₂) ∧
      (Request.createInterpreter 2).perform.on s₂ = (.error (.disposed "module" "2"), s₂) := by
  intro s s₁ s₂
  have hdisposed : (Request.dispose .module 2).perform.on s = (.ok (), s₁) :=
    Prod.ext (by decide +kernel) rfl
  have hrefused : s₂.IsRefused .module 2 :=
    disposed_for_good (fresh_isInitial .fresh) hdisposed nofun [.createModule "m" none]
  have hneeds : (Request.run 3 (.named "f") []).needs s₂ = [(.engine, 3), (.module, 2)] := by
    decide +kernel
  have hrun := hrefused.named (.run 3 (.named "f") []) (by simp [hneeds]) nofun
    (by rw [hneeds]; decide +kernel)
  have hcreate := hrefused.named (.createInterpreter 2) (.head _) (fun _ => by decide +kernel)
    (by decide +kernel)
  have hready : s₂.generator.ready = true := by decide +kernel
  have hnumber : toString 2 = "2" := by decide +kernel
  rw [refusing_of_ready hready, hnumber] at hrun hcreate
  exact ⟨hrun, hcreate⟩

end Session

end Ssa

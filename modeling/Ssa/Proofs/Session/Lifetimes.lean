/-
# `Ssa.Proofs.Session.Lifetimes` — a context outlives its modules

The modules that a context lists, the numbers that are live in the registry and the records of
modules are three accounts of one thing.  After every history they agree: a context lists the live
modules that were made in it, the context of a live module is live, and a context is released when
asked to exactly if it lists none.  The global context is never released.  An engine goes away without
a trace on contexts and modules, a module without one on other modules and on engines.

**Proved here.**

    what disposing of an engine or a module leaves as it is     (`does_dispose_engine`, `does_dispose_module`)
    all of this, after every history                             (`lifetimes_after`)
-/
import Ssa.Proofs.Session.Request

namespace Ssa.Session

variable {s : Session}

/-- What holds of the lives of contexts, modules and engines at a moment. -/
structure Lifetimes (s : Session) : Prop where
  /-- A context lists the live modules that were made in it, each once. -/
  listed : ∀ c ∈ s.contexts, c.modules = s.residents c.id ∧
    c.modules.length = (s.modules.filter fun r => r.context == c.id && s.isLive r.id).length
  /-- The context of a live module is there, and live. -/
  sheltered : ∀ r ∈ s.modules, s.isLive r.id = true →
    r.context ∈ s.ids .context ∧ s.isLive r.context = true
  /-- A context with live modules is not released, and nothing changes. -/
  inUse : ∀ c ∈ s.contexts, c.isGlobal = false → s.isLive c.id = true → s.residents c.id ≠ [] →
    (Request.dispose .context c.id).perform.on s =
      (.error (.contextInUse c.id (s.residents c.id).length), s)
  /-- A context without live modules is released: its number leads nowhere from then on, and it is
  not released again. -/
  released : ∀ c ∈ s.contexts, c.isGlobal = false → s.isLive c.id = true → s.residents c.id = [] →
    (Request.dispose .context c.id).perform.on s =
      (.ok (), { s.without c.id with log := s.log ++ [.contextReleased c.id] }) ∧
    ∀ later, ((s.does (.dispose .context c.id)).after later).isLive c.id = false
  releasedOnce : ∀ c ∈ s.contexts, s.isLive c.id = false →
    (Request.dispose .context c.id).perform.on s = (.ok (), s)
  /-- The global context stays, whatever is done. -/
  globalStays : ∀ c ∈ s.contexts, c.isGlobal = true →
    (Request.dispose .context c.id).perform.on s = (.ok (), s) ∧
    ∀ later, (s.after later).isLive c.id = true
  /-- Disposing of an engine changes no module and no context, and no registration but its own. -/
  engineAlone : ∀ e ∈ s.engines,
    (s.does (.dispose .engine e.id)).contexts = s.contexts ∧
    (s.does (.dispose .engine e.id)).modules = s.modules ∧
    ∀ id, id ≠ e.id → (s.does (.dispose .engine e.id)).isLive id = s.isLive id
  /-- Disposing of a module changes no module and no engine, no context but its own, and no
  registration but its own. -/
  moduleAlone : ∀ r ∈ s.modules,
    (s.does (.dispose .module r.id)).modules = s.modules ∧
    (s.does (.dispose .module r.id)).engines = s.engines ∧
    (∀ c ∈ s.contexts, c.id ≠ r.context → c ∈ (s.does (.dispose .module r.id)).contexts) ∧
    ∀ id, id ≠ r.id → (s.does (.dispose .module r.id)).isLive id = s.isLive id

/-! ## What is left as it is -/

theorem does_dispose_engine (hs : s.IsSound) {e : EngineRecord} (he : e ∈ s.engines) :
    s.does (.dispose .engine e.id) =
      if s.isLive e.id = true then
        { s.without e.id with log := s.log ++ [.engineReleased e.id] }
      else s := by
  have hrecord := engineRecord_on (hs.engine?_iff.mpr ⟨he, rfl⟩)
  have hon : (Request.dispose .engine e.id).perform.on s = (releaseEngine e.id).on s :=
    Effect.on_bind_of_ok (Effect.on_bind_of_ok hrecord)
  rw [does, hon, releaseEngine_on]

theorem does_dispose_module (hs : s.IsSound) {r : ModuleRecord} (hr : r ∈ s.modules) :
    s.does (.dispose .module r.id) =
      if s.isLive r.id = true then
        { s.withoutModule r with log := s.log ++ [.moduleReleased r.name r.id] }
      else s := by
  have hon : (Request.dispose .module r.id).perform.on s = (releaseModule r).on s :=
    disposeModule_on (hs.module?_iff.mpr ⟨hr, rfl⟩)
  rw [does, hon, releaseModule_on]

/-! ## Every moment -/

theorem IsSound.lifetimes (hs : s.IsSound) : s.Lifetimes := by
  have hdispose {c : ContextRecord} (hc : c ∈ s.contexts) :=
    disposeContext_on (hs.context?_iff.mpr ⟨hc, rfl⟩)
  constructor
  case listed =>
    intro c hc
    have hlist := hs.attached c hc
    exact ⟨hlist, by rw [hlist, residents, List.length_map]⟩
  case sheltered => exact fun r hr hlive => ⟨hs.homed r hr, hs.sheltered r hr hlive⟩
  case inUse =>
    intro c hc hlocal hlive hsome
    refine (hdispose hc).trans ?_
    rw [hs.attached c hc, hlocal, hlive, if_neg (by simp), if_neg hsome]
  case released =>
    intro c hc hlocal hlive hnone
    have hempty : c.modules = [] := (hs.attached c hc).trans hnone
    constructor
    · refine (hdispose hc).trans ?_
      rw [hempty, hlocal, hlive, if_neg (by simp), if_pos rfl, releaseContext_on, if_pos hlive]
    · intro later
      have hreleases : (Request.dispose .context c.id).Releases s c.id :=
        ⟨rfl, c, hs.context?_iff.mpr ⟨hc, rfl⟩, hlocal, hempty⟩
      have hgone := isGone_of_releases hs (mem_ids_of_context hc) hreleases
      exact ((after_grows (does_isSound hs _) later).isGone hgone).2
  case releasedOnce =>
    intro c hc hdead
    exact (hdispose hc).trans (if_pos (.inr hdead))
  case globalStays =>
    intro c hc hglobal
    refine ⟨(hdispose hc).trans (if_pos (.inl hglobal)), fun later => ?_⟩
    have hstays := (after_grows hs later).globalContext c.id ((hs.isGlobal c hc).mp hglobal)
    exact ((after_isSound hs later).globalLive c.id hstays).2
  case engineAlone =>
    intro e he
    rw [does_dispose_engine hs he]
    split
    · exact ⟨rfl, rfl, fun id hid => isLive_without_of_ne hid⟩
    · exact ⟨rfl, rfl, fun _ _ => rfl⟩
  case moduleAlone =>
    intro r hr
    rw [does_dispose_module hs hr]
    split
    · refine ⟨rfl, rfl, fun c hc hne => ?_, fun id hid => isLive_without_of_ne hid⟩
      exact List.mem_map.mpr ⟨c, hc, if_neg hne⟩
    · exact ⟨rfl, rfl, fun c hc _ => hc, fun _ _ => rfl⟩

/-- After every history: a context outlives its modules, and nothing is released but what is disposed
of or collected. -/
theorem lifetimes_after {s₀ : Session} (h₀ : s₀.IsInitial) (history : List Request) :
    (s₀.after history).Lifetimes := (after_isSound h₀.isSound history).lifetimes

/-- A context with a module is not released; when the module is gone, it is. -/
theorem lifetimes_after_createModule :
    let s := (fresh .fresh).after [.createContext, .createModule "m" (some 1)]
    let s' := (fresh .fresh).after
      [.createContext, .createModule "m" (some 1), .dispose .module 2]
    (Request.dispose .context 1).perform.on s = (.error (.contextInUse 1 1), s) ∧
      ∀ later, ((s'.does (.dispose .context 1)).after later).isLive 1 = false := by
  intro s s'
  have hc : (⟨1, false, [], [2]⟩ : ContextRecord) ∈ s.contexts := .head _
  have hc' : (⟨1, false, [], []⟩ : ContextRecord) ∈ s'.contexts := .head _
  have hresidents : s.residents 1 = [2] := by decide +kernel
  have hrefused := (lifetimes_after (fresh_isInitial .fresh) _).inUse _ hc rfl (by decide +kernel)
  rw [hresidents] at hrefused
  have hreleased := (lifetimes_after (fresh_isInitial .fresh) _).released _ hc' rfl
    (by decide +kernel) (by decide +kernel)
  exact ⟨hrefused (by decide), hreleased.2⟩

end Ssa.Session

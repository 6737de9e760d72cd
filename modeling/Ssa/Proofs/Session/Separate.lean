/-
# `Ssa.Proofs.Session.Separate` — what engines do is part of a history

Engines that interpret modules of a session share its storage, and each has variables of its own.  Runs on
them, in whatever order and however they end, make up a history of that storage: a run is a call, and what
it is handed is no cell, or is what an earlier run on the engine gave.  So cells do not overlap in it.

**Proved here.**

    a run goes on in the history, and what it gives is there               (`run_follows`)
    so do turns in any order                                               (`play_follows`)
-/
import Ssa.Proofs.Exec.Separate
import Ssa.Proofs.Session.Turns

namespace Ssa

/-- What was brought to a type is a cell only if it was that cell. -/
theorem Value.eq_cell_of_normalize {t : Ty} {v : Value} {id : Nat} (h : v.normalize t = .ok (.cell id)) :
    v = .cell id := by
  cases t with
  | int w => obtain ⟨n, -, hn⟩ := ok_of_map h; cases hn
  | fp p => cases p <;> obtain ⟨x, -, hx⟩ := ok_of_map h <;> cases hx
  | _ => cases h; rfl

namespace Session

open Interpreted (rules)

variable {s s₁ : Session} {engine : Nat} {args : List GenericValue} {log : List Stored}
  {p : Play}

/-- The storage of a session is that of a history, and the cells of the variables of its engines are there. -/
structure Follows (s : Session) (log : List Stored) : Prop where
  history : ∃ first going mem, History log first going mem ∧ mem.storage = s.storage
  there : ∀ engine, ∀ x ∈ s.globalsOf engine, (s.storage.cell? x.2).isSome

/-- What crosses the boundary is a cell only if it was that cell. -/
theorem eq_cell_of_resultOf {t : Ty} {v : Value} {g : GenericValue} {id : Nat}
    (h : resultOf t v = .ok (some g)) (hg : g.payload = .cell id) : v = .cell id := by
  unfold resultOf at h
  split at h
  · cases h
  · cases h
    cases hg
  · obtain ⟨v', hv', heq⟩ := ok_of_map h
    cases heq
    dsimp only at hg
    exact Value.eq_cell_of_normalize (hg ▸ hv')

theorem Follows.enlists (h : s.Follows log) (h₁ : s.Enlists s₁) : s₁.Follows log := by
  have hmemory (engine : Nat) : s₁.memoryOf engine = s.memoryOf engine := h₁.memoryOf engine
  have hstorage : s₁.storage = s.storage := congrArg Memory.storage (hmemory 0)
  refine ⟨hstorage ▸ h.history, fun engine x hx => ?_⟩
  have hglobals : s₁.globalsOf engine = s.globalsOf engine := congrArg Memory.globals (hmemory engine)
  rw [hstorage]
  exact h.there engine x (hglobals ▸ hx)

/-- A call on the memory of an engine goes on in the history.  The cells stay, and what it comes to is there. -/
theorem Follows.call (h : s.Follows log) {e : EngineRecord} (he : s.engine? e.id = some e) {pr : Program}
    {steps : Nat} {f : Function} {vs : List Value} {r : Except Failure Value} {mem' : Memory}
    (hargs : ∀ v ∈ vs, v.IsThere s.storage)
    (hcall : (Machine.call rules pr steps f vs).on ⟨s.storage, e.globals⟩ = (r, mem')) :
    ∃ log', (s.withMemory e.id mem').Follows (log' ++ log) ∧ s.storage.Extends mem'.storage ∧
      ∀ v, r = .ok v → v.IsThere mem'.storage := by
  obtain ⟨first, going, mem, hhistory, hmem⟩ := h.history
  have hextends : s.storage.Extends mem'.storage := by
    have hleads := Interpreted.call_leads pr steps f vs ⟨s.storage, e.globals⟩
    rw [hcall] at hleads
    exact hleads.storage_extends
  have hvariables : ∀ x ∈ e.globals, (s.storage.cell? x.2).isSome := fun x hx =>
    h.there e.id x (by rwa [globalsOf, he])
  rw [← hmem] at hcall hargs hvariables
  obtain ⟨log', first', going', hhistory', hresult⟩ := hhistory.call hvariables hargs hcall
  refine ⟨log', ⟨⟨first', going', mem', hhistory', rfl⟩, fun engine x hx => ?_⟩, hextends, hresult⟩
  by_cases hengine : engine = e.id
  · subst hengine
    have hglobals : (s.withMemory e.id mem').globalsOf e.id = mem'.globals :=
      congrArg Memory.globals (memoryOf_withMemory he)
    rw [hglobals] at hx
    exact hhistory'.closed _ (.variable hx)
  · rw [globalsOf_withMemory hengine] at hx
    exact hextends.isSome (h.there engine x hx)

/-- A run on an engine that interprets a module goes on in the history.  The cells stay, and what the run gives
is there. -/
theorem run_follows (hs : s.IsSound) (h : s.Follows log)
    (hinterprets : ∀ e, s.engine? engine = some e → e.backend = .interpreter)
    (callee : Callee) (hargs : ∀ g ∈ args, g.payload.IsThere s.storage) :
    ∃ log', ((run engine callee args).on s).2.Follows (log' ++ log) ∧
      s.storage.Extends ((run engine callee args).on s).2.storage ∧
      ∀ g, ((run engine callee args).on s).1 = .ok (some g) →
        g.payload.IsThere ((run engine callee args).on s).2.storage := by
  obtain ⟨s₁, h₁, hon⟩ := run_on hs engine callee args
  have hfollows := h.enlists h₁
  have hstorage : s₁.storage = s.storage := congrArg Memory.storage (h₁.memoryOf engine)
  rw [hon]
  cases ha : s.admission engine callee args.length with
  | error e => exact ⟨[], hfollows, hstorage ▸ .refl _, nofun⟩
  | ok a =>
      obtain ⟨e, r, f⟩ := a
      have he := engine?_of_admission ha
      obtain ⟨-, rfl⟩ := mem_ids_of_engine? he
      show ∃ log', ((proceed e r f args).on s₁).2.Follows (log' ++ log) ∧
        s.storage.Extends ((proceed e r f args).on s₁).2.storage ∧
        ∀ g, ((proceed e r f args).on s₁).1 = .ok (some g) →
          g.payload.IsThere ((proceed e r f args).on s₁).2.storage
      rw [proceed_on, hinterprets e he]
      have hpayloads : ∀ v ∈ args.map GenericValue.payload, v.IsThere s₁.storage := by
        rw [hstorage]
        exact List.forall_mem_map.mpr hargs
      rcases hcall : (Backend.start .interpreter e.module r.module f (args.map GenericValue.payload)).on
        ⟨s₁.storage, e.globals⟩ with ⟨outcome, mem'⟩
      obtain ⟨log', hfollows', hextends, hresult⟩ :=
        hfollows.call ((h₁.engine? e.id).trans he) hpayloads hcall
      refine ⟨log', hfollows', hstorage ▸ hextends, fun g hg id hid => ?_⟩
      obtain ⟨v, hv, hcrossed⟩ := ok_of_bind hg
      exact hresult v hv id (eq_cell_of_resultOf hcrossed hid)

/-! ## Turns -/

/-- Before anything was run there are no cells. -/
theorem Follows.start (hstorage : s.storage = .empty) (hglobals : ∀ engine, s.globalsOf engine = []) :
    s.Follows [] where
  history := ⟨_, _, _, .fresh, hstorage.symm⟩
  there engine x hx := by
    rw [hglobals] at hx
    cases hx

/-- What a turn is handed is there, if what the earlier ones gave is. -/
theorem Arg.value_isThere (h : ∀ x ∈ p.log, (payloadOf x.2).IsThere p.session.storage) (engine : Nat) (a : Arg) :
    (a.value (p.answers engine)).payload.IsThere p.session.storage := by
  cases a with
  | given g plain =>
      intro id hid
      have hg : g.payload = .cell id := hid
      rw [hg] at plain
      cases plain
  | earlier type index =>
      show Value.IsThere _ (((p.answers engine)[index]?).elim .null payloadOf)
      cases hanswer : (p.answers engine)[index]? with
      | none => exact nofun
      | some r =>
          obtain ⟨x, hx, rfl⟩ := List.mem_map.mp (List.mem_of_getElem? hanswer)
          exact h x (List.mem_filter.mp hx).1

theorem isThere_payloadOf {r : Except Failure RunResult} {st : Storage}
    (h : ∀ g, r = .ok (some g) → g.payload.IsThere st) : (payloadOf r).IsThere st := by
  rcases r with e | _ | g
  · exact nofun
  · exact nofun
  · exact h g rfl

/-- Turns of engines that interpret modules go on in the history, in whatever order they are taken, and what
they gave is there. -/
theorem play_follows (hs : s.IsSound) (h : s.Follows log) (turns : List Turn)
    (hturns : ∀ t ∈ turns, ∀ e, s.engine? t.engine = some e → e.backend = .interpreter) :
    ∃ log', (s.play turns).session.Follows (log' ++ log) ∧
      ∀ x ∈ (s.play turns).log, (payloadOf x.2).IsThere (s.play turns).session.storage := by
  suffices hplay : (s.play turns).session.IsSound ∧ s.Later (s.play turns).session ∧
      ∃ log', (s.play turns).session.Follows (log' ++ log) ∧
        ∀ x ∈ (s.play turns).log, (payloadOf x.2).IsThere (s.play turns).session.storage from hplay.2.2
  induction turns using List.reverseRecOn with
  | nil => exact ⟨hs, .refl s, [], h, nofun⟩
  | append_singleton turns t ih =>
      obtain ⟨hsound, hlater, log', hfollows, hgave⟩ := ih fun t' ht' => hturns t' (List.mem_append_left _ ht')
      rw [play_concat]
      have hinterprets (e : EngineRecord) (he : (s.play turns).session.engine? t.engine = some e) :
          e.backend = .interpreter := by
        have hengine := hlater.engines t.engine
        rw [he] at hengine
        generalize hstart : s.engine? t.engine = y at hengine
        cases hengine with
        | @some e₀ _ hsame =>
            obtain ⟨globals, rfl⟩ := hsame
            exact hturns t (by simp) e₀ hstart
      have hargs : ∀ g ∈ t.args.map (Arg.value ((s.play turns).answers t.engine)),
          g.payload.IsThere (s.play turns).session.storage :=
        List.forall_mem_map.mpr fun a _ => a.value_isThere hgave t.engine
      obtain ⟨more, hfollows', hextends, hgives⟩ := run_follows hsound hfollows hinterprets t.callee hargs
      refine ⟨Beside.sound_take hsound t, Beside.later_take hsound hlater t, more ++ log', ?_, fun x hx => ?_⟩
      · rw [List.append_assoc]
        exact hfollows'
      · rcases List.mem_append.mp hx with hx | hx
        · exact fun id hid => hextends.isSome (hgave x hx id hid)
        · cases List.mem_singleton.mp hx
          exact isThere_payloadOf hgives

end Session

end Ssa

/-
# `Ssa.Proofs.Session.Kept` — what a session keeps while it goes on

Numbers are given out in ascending order, and a number that has been released leads nowhere again.
Every record stays what it was: a module remains in its context, goes by its name and keeps its
symbols and its table, an engine remains with its module, and the global context remains global.

**Proved here.**

    a change of a sound session keeps all this          (`Change.grows`)
-/
import Ssa.Proofs.Session.Changes

namespace Ssa.Session

variable {free : Nat → Prop} {s s' : Session}

/-- What a session keeps while it goes on: numbers that were given out stay given out, what is live
stays so unless it is free to be released, what is not live stays so, and each record stays what it
was. -/
structure Grows (free : Nat → Prop) (s s' : Session) : Prop where
  issued : s.registry.issued ≤ s'.registry.issued
  live : ∀ id, s.isLive id = true → ¬ free id → s'.isLive id = true
  dead : ∀ id, id ≤ s.registry.issued → s.isLive id = false → s'.isLive id = false
  context : ∀ id c, s.context? id = some c →
    ∃ c', s'.context? id = some c' ∧ c'.isGlobal = c.isGlobal
  module : ∀ id r, s.module? id = some r → ∃ r', s'.module? id = some r' ∧
    r'.context = r.context ∧ r.module.Keeps r'.module ∧ r.table <+: r'.table
  engine : ∀ id e, s.engine? id = some e → ∃ e', s'.engine? id = some e' ∧
    e'.module = e.module ∧ e'.backend = e.backend
  globalContext : ∀ id, s.globalContext = some id → s'.globalContext = some id
  fault : s'.generator.fault = s.generator.fault

namespace Grows

theorem refl (s : Session) : s.Grows free s where
  issued := Nat.le_refl _
  live _ h _ := h
  dead _ _ h := h
  context _ c h := ⟨c, h, rfl⟩
  module _ r h := ⟨r, h, rfl, .refl _, List.prefix_rfl⟩
  engine _ e h := ⟨e, h, rfl, rfl⟩
  globalContext _ h := h
  fault := rfl

theorem trans {s'' : Session} (h : s.Grows free s') (h' : s'.Grows free s'') : s.Grows free s'' where
  issued := Nat.le_trans h.issued h'.issued
  live id hid hfree := h'.live id (h.live id hid hfree) hfree
  dead id hle hid := h'.dead id (Nat.le_trans hle h.issued) (h.dead id hle hid)
  context id c hc := by
    obtain ⟨c', hc', heq⟩ := h.context id c hc
    obtain ⟨c'', hc'', heq'⟩ := h'.context id c' hc'
    exact ⟨c'', hc'', heq'.trans heq⟩
  module id r hr := by
    obtain ⟨r', hr', hctx, hkeeps, htable⟩ := h.module id r hr
    obtain ⟨r'', hr'', hctx', hkeeps', htable'⟩ := h'.module id r' hr'
    exact ⟨r'', hr'', hctx'.trans hctx, hkeeps.trans hkeeps', htable.trans htable'⟩
  engine id e he := by
    obtain ⟨e', he', hm, hb⟩ := h.engine id e he
    obtain ⟨e'', he'', hm', hb'⟩ := h'.engine id e' he'
    exact ⟨e'', he'', hm'.trans hm, hb'.trans hb⟩
  globalContext id hid := h'.globalContext id (h.globalContext id hid)
  fault := h'.fault.trans h.fault

/-- More numbers may be free. -/
theorem mono {free' : Nat → Prop} (h : s.Grows free s') (hfree : ∀ id, free id → free' id) :
    s.Grows free' s' :=
  { h with live := fun id hid hnot => h.live id hid fun hf => hnot (hfree id hf) }

theorem mem_ids (h : s.Grows free s') {k : Kind} {id : Nat} (hs : s.IsSound)
    (hid : id ∈ s.ids k) : id ∈ s'.ids k := by
  cases k with
  | context =>
      obtain ⟨c, hc⟩ := hs.context_of_mem hid
      obtain ⟨c', hc', -⟩ := h.context id c hc
      exact (mem_ids_of_context? hc').1
  | module =>
      obtain ⟨r, hr⟩ := hs.module_of_mem hid
      obtain ⟨r', hr', -⟩ := h.module id r hr
      exact (mem_ids_of_module? hr').1
  | engine =>
      obtain ⟨e, he⟩ := hs.engine_of_mem hid
      obtain ⟨e', he', -⟩ := h.engine id e he
      exact (mem_ids_of_engine? he').1

end Grows

/-! ### Records after a change -/

theorem context?_map (s s' : Session) {change : ContextRecord → ContextRecord}
    (hid : ∀ c, (change c).id = c.id) (hcontexts : s'.contexts = s.contexts.map change) (id : Nat) :
    s'.context? id = (s.context? id).map change := by
  rw [context?, hcontexts]
  exact find?_number_map fun c _ => hid c

theorem context?_append {c : ContextRecord} {cs : List ContextRecord} {id : Nat}
    (hcontexts : s'.contexts = s.contexts ++ cs) (h : s.context? id = some c) :
    s'.context? id = some c := by
  rw [context?, hcontexts, List.find?_append]
  exact Option.or_eq_some_iff.mpr (.inl h)

theorem module?_append {r : ModuleRecord} {rs : List ModuleRecord} {id : Nat}
    (hmodules : s'.modules = s.modules ++ rs) (h : s.module? id = some r) :
    s'.module? id = some r := by
  rw [module?, hmodules, List.find?_append]
  exact Option.or_eq_some_iff.mpr (.inl h)

theorem engine?_append {e : EngineRecord} {es : List EngineRecord} {id : Nat}
    (hengines : s'.engines = s.engines ++ es) (h : s.engine? id = some e) :
    s'.engine? id = some e := by
  rw [engine?, hengines, List.find?_append]
  exact Option.or_eq_some_iff.mpr (.inl h)

theorem IsSound.module?_changeModule (h : s.IsSound) {i : Nat}
    {change : ModuleRecord → ModuleRecord}
    (hchange : ∀ r, s.module? i = some r → r.BuildsTo (change r)) (id : Nat) :
    (s.changeModule i change).module? id =
      (s.module? id).map fun r => if r.id = i then change r else r := by
  refine find?_number_map fun r hr => ?_
  split
  · exact (hchange r (h.module?_iff.mpr ⟨hr, ‹_›⟩)).id
  · rfl

/-! ### Changes keep what is to be kept -/

/-- Making something gives a number out, and changes nothing for the others. -/
theorem IsSound.grows_of_insert (h : s.IsSound) (k : Kind)
    (hregistry : s'.registry = (s.registry.insert k.word ()).2)
    (hcontext : ∀ id c, s.context? id = some c →
      ∃ c', s'.context? id = some c' ∧ c'.isGlobal = c.isGlobal)
    (hmodule : ∀ id r, s.module? id = some r → s'.module? id = some r)
    (hengine : ∀ id e, s.engine? id = some e → s'.engine? id = some e)
    (hglobal : ∀ id, s.globalContext = some id → s'.globalContext = some id)
    (hfault : s'.generator.fault = s.generator.fault) : s.Grows free s' where
  issued := by
    rw [hregistry]
    exact Nat.le_succ _
  live id hid _ := by
    rw [isLive, hregistry, Registry.isLive_insert h.numbers.ordered]
    exact Bool.or_eq_true_iff.mpr (.inr hid)
  dead id hle hid := by
    have hne : id ≠ s.registry.next := by
      rw [Registry.next]
      omega
    rw [isLive, hregistry, Registry.isLive_insert h.numbers.ordered, decide_eq_false hne]
    exact hid
  context := hcontext
  module id r hr := ⟨r, hmodule id r hr, rfl, .refl _, List.prefix_rfl⟩
  engine id e he := ⟨e, hengine id e he, rfl, rfl⟩
  globalContext := hglobal
  fault := hfault

/-- Releasing a number that is free changes nothing for the others. -/
theorem grows_without {id : Nat} (hfree : free id) : s.Grows free (s.without id) := by
  have hrefl : s.Grows free s := .refl s
  refine { hrefl with live := fun i hi hnot => ?_, dead := fun i _ hi => ?_ }
  · exact (isLive_without_of_ne fun heq : i = id => hnot (heq ▸ hfree)).trans hi
  · rw [isLive_without, hi, Bool.and_false]

/-- A change of a sound session keeps what is to be kept. -/
theorem Change.grows (hc : s.Change free s') (h : s.IsSound) : s.Grows free s' := by
  have hrefl : s.Grows free s := .refl s
  cases hc with
  | aside => exact { hrefl with }
  | stored i globals =>
      refine { hrefl with engine := fun id e he => ?_ }
      have hfind : (s.changeGlobals i globals).engine? id =
          (s.engine? id).map fun e => if e.id = i then { e with globals } else e :=
        find?_number_map fun e _ => by split <;> rfl
      rw [he, Option.map_some] at hfind
      exact ⟨_, hfind, by split <;> rfl, by split <;> rfl⟩
  | typed i types =>
      refine { hrefl with context := fun id c hc => ?_ }
      have hfind := context?_map s (s.changeTypes i types)
        (fun c => by split <;> rfl) rfl id
      rw [hc, Option.map_some] at hfind
      exact ⟨_, hfind, by split <;> rfl⟩
  | built i change hchange =>
      refine { hrefl with module := fun id r hr => ?_ }
      have hfind := h.module?_changeModule hchange id
      rw [hr, Option.map_some] at hfind
      refine ⟨_, hfind, ?_⟩
      split
      · rename_i hid
        have hbuilds := hchange r (hid ▸ (mem_ids_of_module? hr).2 ▸ hr)
        obtain ⟨types, types', hleads⟩ := hbuilds.leads
        exact ⟨hbuilds.context, hleads.keeps, hleads.table⟩
      · exact ⟨rfl, .refl _, List.prefix_rfl⟩
  | contextMade isGlobal hglobal =>
      refine h.grows_of_insert .context rfl (fun id c hc => ⟨c, context?_append rfl hc, rfl⟩)
        (fun _ _ => id) (fun _ _ => id) (fun id hid => ?_) rfl
      cases isGlobal with
      | false => exact hid
      | true => exact nomatch hid.symm.trans (hglobal rfl)
  | @moduleMade name context _ _ =>
      refine h.grows_of_insert .module rfl (fun id c hc => ?_) (fun id r => module?_append rfl)
        (fun _ _ => id) (fun _ => id) rfl
      have hfind := context?_map s (s.addModule name context)
        (fun c => by split <;> rfl) rfl id
      rw [hc, Option.map_some] at hfind
      exact ⟨_, hfind, by split <;> rfl⟩
  | engineMade backend _ =>
      exact h.grows_of_insert .engine rfl (fun _ c hc => ⟨c, hc, rfl⟩) (fun _ _ => id)
        (fun id e => engine?_append rfl) (fun _ => id) rfl
  | engineReleased _ hfree => exact grows_without hfree
  | @moduleReleased r _ hfree =>
      have hwithout : s.Grows free (s.without r.id) := grows_without hfree
      refine { hwithout with context := fun id c hc => ?_ }
      have hfind := context?_map s (s.withoutModule r)
        (fun c => by split <;> rfl) rfl id
      rw [hc, Option.map_some] at hfind
      exact ⟨_, hfind, by split <;> rfl⟩
  | contextReleased _ _ _ hfree => exact grows_without hfree

/-- A session that is sound, and what it keeps: this is what every step of a session sees to. -/
abbrev keeping (free : Nat → Prop) : Keeping Session where
  holds := IsSound
  grows := Grows free
  refl := .refl
  trans := .trans

end Ssa.Session

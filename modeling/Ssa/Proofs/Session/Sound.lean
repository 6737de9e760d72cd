/-
# `Ssa.Proofs.Session.Sound` — how what a session holds hangs together

The registry of a session and its records are copies of one fact: what there is, and of which kind.
A session is sound if they agree, if every context lists exactly the modules in it that are live, if
the context of a live module is live, and if the names and tables of its modules are in order.

**Proved here.**

    a number leads to what is asked for  ⟺  it is of that kind, and live      (`Numbers.get_iff`)
    entering and releasing keep numbers and kinds in agreement                 (`Numbers.insert`, `Numbers.release`)
    the record of a number is the one that has it                               (`module?_iff`, `context?_iff`, `engine?_iff`)
-/
import Ssa.Proofs.Program.Kept
import Ssa.Proofs.Registry.Lookup
import Ssa.Session.Engine

namespace Ssa

theorem Kind.word_injective {k k' : Kind} (h : k.word = k'.word) : k = k' := by
  revert h
  cases k <;> cases k' <;> simp [word]

/-! ## Numbers and kinds -/

/-- A registry agrees with the numbers of the things of each kind: whatever has a place is of the
kind that the place says, no number is given twice, and none that has not been given out. -/
structure Registry.Numbers (r : Registry Unit) (ids : Kind → List Nat) : Prop where
  ordered : r.IsOrdered
  entered : ∀ s ∈ r.slots, s.payload = some () ∧ ∃ k : Kind, s.kind = k.word ∧ s.id ∈ ids k
  distinct : ∀ k, (ids k).Nodup
  apart : ∀ k k' id, id ∈ ids k → id ∈ ids k' → k = k'
  issued : ∀ k, ∀ id ∈ ids k, id ≤ r.issued

namespace Registry.Numbers

variable {r : Registry Unit} {ids : Kind → List Nat} {k : Kind} {id : Nat}

theorem empty : Numbers .empty fun _ => [] :=
  ⟨empty_isOrdered, nofun, fun _ => .nil, nofun, nofun⟩

/-- A number leads to what is asked for exactly if it is of that kind, and live. -/
theorem get_iff (h : r.Numbers ids) :
    r.get id k.word = .ok () ↔ id ∈ ids k ∧ r.isLive id = true := by
  constructor
  · intro hget
    obtain ⟨s, hs, hpayload, hkind⟩ := isLive_of_get hget
    obtain ⟨hmem, rfl⟩ := slot?_mem hs
    obtain ⟨-, k', hk', hid⟩ := h.entered s hmem
    cases Kind.word_injective (hkind.symm.trans hk')
    exact ⟨hid, by simp [isLive, hs, Slot.isPresent, hpayload]⟩
  · rintro ⟨hid, hlive⟩
    cases hs : r.slot? id with
    | none => simp [isLive, hs] at hlive
    | some s =>
        obtain ⟨hmem, rfl⟩ := slot?_mem hs
        obtain ⟨hpayload, k', hk', hid'⟩ := h.entered s hmem
        cases h.apart _ _ _ hid hid'
        rw [← hk']
        exact get_of_slot? hs hpayload

/-- The next number is no number of a thing. -/
theorem next_not_mem (h : r.Numbers ids) (k : Kind) : r.next ∉ ids k := fun hid => by
  have := h.issued k _ hid
  rw [next] at this
  omega

/-- The next number may be given to a thing of any kind. -/
theorem insert (h : r.Numbers ids) (k : Kind) {ids' : Kind → List Nat}
    (hk : ids' k = ids k ++ [r.next]) (hother : ∀ k', k' ≠ k → ids' k' = ids k') :
    (r.insert k.word ()).2.Numbers ids' := by
  -- a number of a thing is an old one, or the next one, of the kind `k`
  have hcases (k' : Kind) (id : Nat) (hid : id ∈ ids' k') :
      id ∈ ids k' ∨ (id = r.next ∧ k' = k) := by
    by_cases hkk : k' = k
    · subst hkk
      rw [hk] at hid
      rcases List.mem_append.mp hid with hid | hid
      · exact .inl hid
      · exact .inr ⟨List.mem_singleton.mp hid, rfl⟩
    · rw [hother k' hkk] at hid
      exact .inl hid
  have hold (k' : Kind) (id : Nat) (hid : id ∈ ids k') : id ∈ ids' k' := by
    by_cases hkk : k' = k
    · subst hkk
      rw [hk]
      exact List.mem_append_left _ hid
    · rwa [hother k' hkk]
  refine ⟨h.ordered.insert _ _, ?_, fun k' => ?_, ?_, ?_⟩
  · intro s hs
    rcases List.mem_append.mp hs with hs | hs
    · obtain ⟨hpayload, k', hk', hid⟩ := h.entered s hs
      exact ⟨hpayload, k', hk', hold k' _ hid⟩
    · cases List.mem_singleton.mp hs
      exact ⟨rfl, k, rfl, by rw [hk]; simp⟩
  · by_cases hkk : k' = k
    · subst hkk
      rw [hk]
      exact List.nodup_append.mpr ⟨h.distinct _, by simp, fun a ha b hb => by
        cases List.mem_singleton.mp hb
        exact fun heq => h.next_not_mem _ (heq ▸ ha)⟩
    · rw [hother k' hkk]
      exact h.distinct k'
  · intro k₁ k₂ id h₁ h₂
    rcases hcases k₁ id h₁ with h₁ | ⟨rfl, rfl⟩ <;> rcases hcases k₂ _ h₂ with h₂ | ⟨h₂, rfl⟩
    · exact h.apart _ _ _ h₁ h₂
    · exact absurd (h₂ ▸ h₁) (h.next_not_mem _)
    · exact absurd h₂ (h.next_not_mem _)
    · rfl
  · intro k' id hid
    rcases hcases k' id hid with hid | ⟨rfl, -⟩
    · exact Nat.le_succ_of_le (h.issued _ _ hid)
    · exact Nat.le_refl _

theorem release (h : r.Numbers ids) (id : Int) : (r.release id).2.Numbers ids where
  ordered := h.ordered.release id
  entered s hs := h.entered s (List.mem_filter.mp hs).1
  distinct := h.distinct
  apart := h.apart
  issued := h.issued

end Registry.Numbers

/-! ## Sound sessions -/

namespace Session

variable {s : Session} {k : Kind} {id : Nat}

/-- The numbers of the things of a kind, live or not. -/
def ids (s : Session) : Kind → List Nat
  | .context => s.contexts.map (·.id)
  | .module => s.modules.map (·.id)
  | .engine => s.engines.map (·.id)

/-- The modules of a context that are live, in the order in which they were made. -/
def residents (s : Session) (context : Nat) : List Nat :=
  (s.modules.filter fun r => r.context == context && s.isLive r.id).map (·.id)

/-- Registry and records of a session agree. -/
structure IsSound (s : Session) : Prop where
  numbers : s.registry.Numbers s.ids
  /-- A context lists the live modules in it. -/
  attached : ∀ c ∈ s.contexts, c.modules = s.residents c.id
  homed : ∀ r ∈ s.modules, r.context ∈ s.ids .context
  /-- The context of a live module is live. -/
  sheltered : ∀ r ∈ s.modules, s.isLive r.id = true → s.isLive r.context = true
  isGlobal : ∀ c ∈ s.contexts, c.isGlobal = true ↔ s.globalContext = some c.id
  globalLive : ∀ id, s.globalContext = some id → id ∈ s.ids .context ∧ s.isLive id = true
  bound : ∀ e ∈ s.engines, e.module ∈ s.ids .module
  named : ∀ r ∈ s.modules, r.module.IsNamed
  listed : ∀ r ∈ s.modules, r.module.Lists r.table

namespace IsSound

theorem context?_iff (h : s.IsSound) {c : ContextRecord} :
    s.context? id = some c ↔ c ∈ s.contexts ∧ c.id = id :=
  find?_number_iff (h.numbers.distinct .context)

theorem module?_iff (h : s.IsSound) {r : ModuleRecord} :
    s.module? id = some r ↔ r ∈ s.modules ∧ r.id = id :=
  find?_number_iff (h.numbers.distinct .module)

theorem engine?_iff (h : s.IsSound) {e : EngineRecord} :
    s.engine? id = some e ↔ e ∈ s.engines ∧ e.id = id :=
  find?_number_iff (h.numbers.distinct .engine)

theorem context_of_mem (h : s.IsSound) (hid : id ∈ s.ids .context) :
    ∃ c, s.context? id = some c := by
  obtain ⟨c, hc, rfl⟩ := List.mem_map.mp hid
  exact ⟨c, h.context?_iff.mpr ⟨hc, rfl⟩⟩

theorem module_of_mem (h : s.IsSound) (hid : id ∈ s.ids .module) :
    ∃ r, s.module? id = some r := by
  obtain ⟨r, hr, rfl⟩ := List.mem_map.mp hid
  exact ⟨r, h.module?_iff.mpr ⟨hr, rfl⟩⟩

theorem engine_of_mem (h : s.IsSound) (hid : id ∈ s.ids .engine) :
    ∃ e, s.engine? id = some e := by
  obtain ⟨e, he, rfl⟩ := List.mem_map.mp hid
  exact ⟨e, h.engine?_iff.mpr ⟨he, rfl⟩⟩

end IsSound

theorem mem_ids_of_context? {c : ContextRecord} (h : s.context? id = some c) :
    id ∈ s.ids .context ∧ c.id = id := by
  have hid : c.id = id := by simpa using List.find?_some h
  exact ⟨List.mem_map.mpr ⟨c, List.mem_of_find?_eq_some h, hid⟩, hid⟩

theorem mem_ids_of_module? {r : ModuleRecord} (h : s.module? id = some r) :
    id ∈ s.ids .module ∧ r.id = id := by
  have hid : r.id = id := by simpa using List.find?_some h
  exact ⟨List.mem_map.mpr ⟨r, List.mem_of_find?_eq_some h, hid⟩, hid⟩

theorem mem_ids_of_engine? {e : EngineRecord} (h : s.engine? id = some e) :
    id ∈ s.ids .engine ∧ e.id = id := by
  have hid : e.id = id := by simpa using List.find?_some h
  exact ⟨List.mem_map.mpr ⟨e, List.mem_of_find?_eq_some h, hid⟩, hid⟩

/-- A session in which nothing has been made is sound. -/
structure IsInitial (s : Session) : Prop where
  registry : s.registry = .empty
  contexts : s.contexts = []
  modules : s.modules = []
  engines : s.engines = []
  globalContext : s.globalContext = none

theorem IsInitial.isSound (h : s.IsInitial) : s.IsSound := by
  have hids : s.ids = fun _ => [] := by
    funext k
    cases k <;> simp [ids, h.contexts, h.modules, h.engines]
  refine ⟨by rw [h.registry, hids]; exact .empty, ?_, ?_, ?_, ?_, ?_, ?_, ?_, ?_⟩ <;>
    simp [h.contexts, h.modules, h.engines, h.globalContext]

theorem fresh_isInitial (files : Files) : (fresh files).IsInitial := ⟨rfl, rfl, rfl, rfl, rfl⟩

end Session

end Ssa

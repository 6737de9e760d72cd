/-
# `Ssa.Proofs.Session.Releasing` — disposing and collecting

Only disposing and collecting release numbers, and only the ones that they are about: the number that
is disposed of, or those that the given ones do not lead to.  What they were to release is gone
afterwards.

**Proved here.**

    what disposing comes to                                        (`releaseEngine_on`, `disposeModule_on`, `disposeContext_on`)
    disposing and collecting keep a session sound                   (`disposeModule_meets`, …, `collect_meets`)
-/
import Ssa.Proofs.Session.Steps

namespace Ssa.Session

open Effect (Meets)

variable {free : Nat → Prop} {s s' : Session} {id : Nat}

/-- A number was given out, and leads nowhere. -/
def IsGone (s : Session) (id : Nat) : Prop := id ≤ s.registry.issued ∧ s.isLive id = false

theorem Grows.isGone (h : s.Grows free s') (hid : s.IsGone id) : s'.IsGone id :=
  ⟨Nat.le_trans hid.1 h.issued, h.dead id hid.1 hid.2⟩

theorem isGone_without (hid : id ≤ s.registry.issued) : (s.without id).IsGone id :=
  ⟨hid, by rw [isLive_without, decide_eq_false (not_not_intro rfl), Bool.false_and]⟩

/-! ## Releasing -/

theorem releaseThen_on (after : Act Unit) :
    (releaseThen id after).on s =
      if s.isLive id = true then after.on (s.without id) else (.ok (), s) := by
  rw [releaseThen, Effect.on_bind_of_ok (Effect.on_get s)]
  split
  · rfl
  · rfl

theorem releaseEngine_on : (releaseEngine id).on s = (.ok (),
    if s.isLive id = true then { s.without id with log := s.log ++ [.engineReleased id] }
    else s) := by
  rw [releaseEngine, releaseThen_on]
  split <;> rfl

theorem releaseContext_on : (releaseContext id).on s = (.ok (),
    if s.isLive id = true then { s.without id with log := s.log ++ [.contextReleased id] }
    else s) := by
  rw [releaseContext, releaseThen_on]
  split <;> rfl

theorem releaseModule_on (r : ModuleRecord) : (releaseModule r).on s = (.ok (),
    if s.isLive r.id = true then
      { s.withoutModule r with log := s.log ++ [.moduleReleased r.name r.id] }
    else s) := by
  rw [releaseModule, releaseThen_on]
  split <;> rfl

/-- What is kept while things are released: besides what is always kept, nothing is made. -/
abbrev releasing (free : Nat → Prop) : Keeping Session where
  holds := IsSound
  grows s s' := s.Grows free s' ∧ s'.modules = s.modules
  refl s := ⟨.refl s, rfl⟩
  trans h h' := ⟨h.1.trans h'.1, h'.2.trans h.2⟩

/-- What is kept while things are released is kept. -/
theorem goes_of_releasing {α : Type} {x : Act α} {P : Session → α → Prop} {Err : Failure → Prop}
    (h : Meets (releasing free) x s P Err) : Goes free x s := by
  have hkept : Meets (keeping free) x s P Err := h.weaken (fun _ hs => hs) fun _ _ hg => hg.1
  exact (hkept.mono fun _ _ _ => trivial).allow fun _ _ => trivial

/-- Releasing a number, with what is noted down. -/
theorem releasing_of_change {α : Type} {x : Act α} {s₁ : Session} {log : List Event}
    (hs : s.IsSound) (hid : id ≤ s.registry.issued) (hchange : s.Change free s₁)
    (hmodules : s₁.modules = s.modules) (hgone : s.isLive id = true → s₁.IsGone id) {a : α}
    (hon : x.on s = (.ok a, if s.isLive id = true then { s₁ with log } else s)) :
    Meets (releasing free) x s (fun s' _ => s'.IsGone id) fun _ => False := by
  have hlogged : s₁.Change free { s₁ with log } :=
    .aside s₁.storage s₁.files s₁.generator.ready log
  have hs₁ := hchange.isSound hs
  by_cases hlive : s.isLive id = true
  · rw [if_pos hlive] at hon
    refine ⟨hon ▸ hlogged.isSound hs₁,
      hon ▸ ⟨(hchange.grows hs).trans (hlogged.grows hs₁), hmodules⟩, fun b s' h => ?_,
      fun e s' h => nomatch hon.symm.trans h⟩
    rw [hon] at h
    cases h
    exact hgone hlive
  · rw [if_neg hlive] at hon
    refine .of_on_eq (y := pure a) hon (.pure hs ⟨hid, ?_⟩)
    simpa using hlive

theorem releaseEngine_meets (hs : s.IsSound) (hid : id ∈ s.ids .engine) (hfree : free id) :
    Meets (releasing free) (releaseEngine id) s (fun s' _ => s'.IsGone id) fun _ => False :=
  have hissued := hs.numbers.issued _ _ hid
  releasing_of_change hs hissued (.engineReleased hid hfree) rfl
    (fun _ => isGone_without hissued) releaseEngine_on

theorem releaseContext_meets (hs : s.IsSound) {c : ContextRecord} (hc : c ∈ s.contexts)
    (hlocal : c.isGlobal = false) (hempty : c.modules = []) (hfree : free c.id) :
    Meets (releasing free) (releaseContext c.id) s (fun s' _ => s'.IsGone c.id) fun _ => False :=
  have hissued := hs.numbers.issued _ _ (mem_ids_of_context hc)
  releasing_of_change hs hissued (.contextReleased hc hlocal hempty hfree) rfl
    (fun _ => isGone_without hissued) releaseContext_on

theorem releaseModule_meets (hs : s.IsSound) {r : ModuleRecord} (hr : r ∈ s.modules)
    (hfree : free r.id) :
    Meets (releasing free) (releaseModule r) s (fun s' _ => s'.IsGone r.id) fun _ => False :=
  have hissued := hs.numbers.issued _ _ (mem_ids_of_module hr)
  releasing_of_change hs hissued (.moduleReleased hr hfree) rfl
    (fun _ => isGone_without hissued) (releaseModule_on r)

/-! ## Disposing -/

theorem disposeModule_on {r : ModuleRecord} (hr : s.module? id = some r) :
    (disposeModule id).on s = (releaseModule r).on s := by
  rw [disposeModule, Effect.on_bind_of_ok (moduleRecord_on hr)]

theorem disposeModule_meets (hs : s.IsSound) {r : ModuleRecord} (hr : s.module? id = some r)
    (hfree : free id) :
    Meets (releasing free) (disposeModule id) s (fun s' _ => s'.IsGone id) fun _ => False := by
  obtain ⟨hmem, rfl⟩ := hs.module?_iff.mp hr
  exact .of_on_eq (disposeModule_on hr) (releaseModule_meets hs hmem hfree)

/-- What disposing of a context comes to: the global one stays, what is not live stays so, and one
that has modules is refused. -/
theorem disposeContext_on {c : ContextRecord} (hc : s.context? id = some c) :
    (disposeContext id).on s =
      if c.isGlobal = true ∨ s.isLive id = false then (.ok (), s)
      else if c.modules = [] then (releaseContext id).on s
      else (.error (.contextInUse id c.modules.length), s) := by
  rw [disposeContext, Effect.on_bind_of_ok (contextRecord_on hc),
    Effect.on_bind_of_ok (Effect.on_get s)]
  cases hg : c.isGlobal with
  | true => rfl
  | false =>
      cases hl : s.isLive id with
      | false => rfl
      | true =>
          cases hm : c.modules with
          | nil => rfl
          | cons m ms => rfl

theorem disposeContext_meets (hs : s.IsSound) {c : ContextRecord} (hc : s.context? id = some c)
    (hfree : c.isGlobal = false → c.modules = [] → free id) :
    Meets (releasing free) (disposeContext id) s
      (fun s' _ => c.isGlobal = true ∨ s'.IsGone id) fun _ => True := by
  obtain ⟨hmem, rfl⟩ := hs.context?_iff.mp hc
  have hon := disposeContext_on hc
  split at hon
  · rename_i hstays
    refine .of_on_eq (y := pure ()) hon (.pure hs (hstays.imp_right fun hdead => ⟨?_, hdead⟩))
    exact hs.numbers.issued _ _ (mem_ids_of_context hmem)
  · rename_i hgoes
    split at hon
    · rename_i hempty
      have hlocal : c.isGlobal = false := by
        cases hg : c.isGlobal with
        | false => rfl
        | true => exact absurd (.inl hg) hgoes
      have hreleased := releaseContext_meets hs hmem hlocal hempty (hfree hlocal hempty)
      exact .of_on_eq hon ((hreleased.mono fun _ _ h => .inr h).allow fun _ => False.elim)
    · exact .of_on_eq hon (.throw hs trivial)

/-! ## Collecting -/

theorem mem_reached_of_module {roots : List Nat} {r : ModuleRecord} (hr : r ∈ s.modules)
    (h : r.id ∈ s.reached roots) (hs : s.IsSound) : r.context ∈ s.reached roots := by
  have hmodule : r.id ∈ roots ++ s.modulesOf roots := by
    rcases List.mem_append.mp h with h | h
    · rcases List.mem_append.mp h with h | h
      · exact h
      · -- the number of a module is no number of a context
        obtain ⟨r', hr', hctx⟩ := List.mem_filterMap.mp h
        split at hctx
        · have hhome := hs.homed r' hr'
          rw [Option.some.inj hctx] at hhome
          nomatch hs.numbers.apart .module .context _ (mem_ids_of_module hr) hhome
        · cases hctx
    · have hglobal := (hs.globalLive r.id (by simpa using h)).1
      nomatch hs.numbers.apart .module .context _ (mem_ids_of_module hr) hglobal
  refine List.mem_append_left _ (List.mem_append_right _ (List.mem_filterMap.mpr ⟨r, hr, ?_⟩))
  simp [hmodule]

theorem mem_reached_of_global {roots : List Nat} (h : s.globalContext = some id) :
    id ∈ s.reached roots := by
  simp [reached, h]

/-- One sweep of a collection: of the things of a list, those that are not kept are released. -/
theorem sweep_meets {α : Type} {number : α → Nat} {kept : List Nat} {release : α → Act Unit}
    {as : List α} (hs : s.IsSound)
    (hrelease : ∀ a ∈ as, ∀ s₁, s₁.IsSound → (releasing (· ∉ kept)).grows s s₁ →
      number a ∉ kept → Meets (releasing (· ∉ kept)) (release a) s₁
        (fun s' _ => s'.IsGone (number a)) (fun _ => False)) :
    Meets (releasing (· ∉ kept))
      (forIn as PUnit.unit fun a _ =>
        if (!kept.contains (number a)) = true then do
          release a
          pure (ForInStep.yield PUnit.unit)
        else pure (ForInStep.yield PUnit.unit)) s
      (fun s' _ => ∀ a ∈ as, number a ∉ kept → s'.IsGone (number a)) fun _ => False := by
  have hstays (s₁ s₂ : Session) (a : α) (hg : (releasing (· ∉ kept)).grows s₁ s₂)
      (h : number a ∉ kept → s₁.IsGone (number a)) (hnot : number a ∉ kept) :
      s₂.IsGone (number a) := hg.1.isGone (h hnot)
  refine .loop_all hstays hs fun a ha s₁ hs₁ hg₁ => ?_
  split
  · rename_i hnot
    have hnot' : number a ∉ kept := by simpa using hnot
    exact .bind (hrelease a ha s₁ hs₁ hg₁ hnot') fun _ s₂ _ hs₂ _ hgone =>
      .pure hs₂ ⟨rfl, fun _ => hgone⟩
  · rename_i hkept
    exact .pure hs₁ ⟨rfl, fun hnot => absurd (by simpa using hnot) hkept⟩

/-- Collecting releases exactly what the given numbers do not lead to: engines, then modules, then
contexts, which have lost their modules by then. -/
theorem collect_meets (hs : s.IsSound) (roots : List Nat) :
    Meets (releasing (· ∉ s.reached roots)) (collect roots) s
      (fun s' _ => ∀ k, ∀ id ∈ s.ids k, id ∉ s.reached roots → s'.IsGone id) fun _ => False := by
  refine .get ?_
  dsimp only
  refine .bind (sweep_meets hs fun e he s₁ hs₁ hg₁ hnot => ?_) fun _ s₁ _ hs₁ hg₁ hengines => ?_
  · exact releaseEngine_meets hs₁ (hg₁.1.mem_ids hs (List.mem_map.mpr ⟨e, he, rfl⟩)) hnot
  refine .bind (sweep_meets hs₁ fun r hr s₂ hs₂ hg₂ hnot => ?_) fun _ s₂ _ hs₂ hg₂ hmodules => ?_
  · have hsame := hg₂.2.trans hg₁.2
    exact releaseModule_meets hs₂ (hsame ▸ hr) hnot
  have hg₁₂ := (releasing (· ∉ s.reached roots)).trans hg₁ hg₂
  refine .bind (sweep_meets hs₂ fun c hc s₃ hs₃ hg₃ hnot => ?_) fun _ s₃ _ hs₃ hg₃ hcontexts => ?_
  · have hg := (releasing (· ∉ s.reached roots)).trans hg₁₂ hg₃
    obtain ⟨c', hc', hglobal⟩ := hg.1.context c.id c (hs.context?_iff.mpr ⟨hc, rfl⟩)
    obtain ⟨hmem, hid⟩ := hs₃.context?_iff.mp hc'
    have hlocal : c'.isGlobal = false := by
      rw [hglobal]
      cases hc'' : c.isGlobal with
      | false => rfl
      | true => exact absurd (mem_reached_of_global ((hs.isGlobal c hc).mp hc'')) hnot
    have hempty : c'.modules = [] := by
      rw [hs₃.attached c' hmem, hid]
      refine List.eq_nil_iff_forall_not_mem.mpr fun i hi => ?_
      -- a live module of a context that is not kept would be kept, and so would the context
      obtain ⟨r, hr, hctx, hlive, -⟩ := mem_residents.mp hi
      replace hr : r ∈ s.modules := hg.2 ▸ hr
      by_cases hkept : r.id ∈ s.reached roots
      · exact hnot (hctx ▸ mem_reached_of_module hr hkept hs)
      · have hgone := hg₃.1.isGone (hmodules r hr hkept)
        rw [hgone.2] at hlive
        cases hlive
    rw [← hid] at hnot ⊢
    exact releaseContext_meets hs₃ hmem hlocal hempty hnot
  · refine .pure hs₃ fun k id hid hnot => ?_
    cases k with
    | context =>
        obtain ⟨c, hc, rfl⟩ := List.mem_map.mp hid
        exact hcontexts c hc hnot
    | module =>
        obtain ⟨r, hr, rfl⟩ := List.mem_map.mp hid
        exact hg₃.1.isGone (hmodules r (hg₁.2 ▸ hr) hnot)
    | engine =>
        obtain ⟨e, he, rfl⟩ := List.mem_map.mp hid
        exact hg₃.1.isGone (hg₂.1.isGone (hengines e he hnot))

end Ssa.Session

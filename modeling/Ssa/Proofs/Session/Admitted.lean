/-
# `Ssa.Proofs.Session.Admitted` — modules that an interpreter was made for

An interpreter is made for a module only if the module passes its check at that moment.  A module
that was made step by step and then admitted like this is what runs begin with, as long as it is
not changed afterwards.

**Proved here.**

    an interpreter was made for a module  ⟹  it was written out, and checked      (`check_of_createInterpreter`)
    admitted, and its name does not end the text  ⟹  built, and judged            (`isBuilt`, `accepted`)
-/
import Ssa.Proofs.Program.Drafted
import Ssa.Proofs.Validity.Checked
import Ssa.Session.Engine

namespace Ssa

/-- A module was written out: it is as rendering left it, and it has a text. -/
def Module.IsWritten (m : Module) : Prop :=
  ∃ (types : TypeTable) (m₀ : Module) (text : String),
    m₀.text types = .ok text ∧ m = (m₀.render types).2

namespace Session

variable {k id : Nat} {s s' : Session}

theorem found_ok {α : Type} {kind : Kind} {o : Option α} {a : α}
    (h : (found kind k o).on s = (.ok a, s')) : s' = s ∧ o = some a := by
  cases o with
  | none => cases h
  | some b => cases h; exact ⟨rfl, rfl⟩

theorem moduleRecord_ok {r : ModuleRecord} (h : (moduleRecord k).on s = (.ok r, s')) :
    s' = s ∧ s.module? k = some r := found_ok h

theorem contextRecord_ok {c : ContextRecord} (h : (contextRecord k).on s = (.ok c, s')) :
    s' = s ∧ s.context? k = some c := found_ok h

theorem lift_ok {α : Type} {x : Except Failure α} {a : α}
    (h : (lift x).on s = (.ok a, s')) : s' = s ∧ x = .ok a := by
  cases x with
  | error e => cases h
  | ok b => cases h; exact ⟨rfl, rfl⟩

/-- A module that is rendered is written out afterwards. -/
theorem isWritten_of_render {text : String} (h : (render k).on s = (.ok text, s')) {r : ModuleRecord}
    (hr : s'.module? k = some r) : r.module.IsWritten := by
  obtain ⟨r₀, s₁, -, h₁⟩ := Effect.on_bind_ok h
  obtain ⟨c, s₂, -, h₂⟩ := Effect.on_bind_ok h₁
  rcases hrender : r₀.module.render c.types with ⟨outcome, m'⟩
  rw [hrender] at h₂
  obtain ⟨_, s₃, hmodify, h₃⟩ := Effect.on_bind_ok h₂
  obtain ⟨rfl, rfl⟩ := lift_ok h₃
  refine ⟨c.types, r₀.module, text, congrArg Prod.fst hrender, ?_⟩
  cases hmodify
  have hfind : (s₂.modules.map fun r => if r.id = k then { r with module := m' } else r).find?
      (·.id == k) = some r := hr
  obtain ⟨r₁, -, rfl⟩ := List.mem_map.mp (List.mem_of_find?_eq_some hfind)
  have hid := List.find?_some hfind
  rw [hrender]
  by_cases hk : r₁.id = k
  · rw [if_pos hk]
  · simp [hk] at hid

/-- A check that succeeds says that the module that is there afterwards was written out, and passes
its check. -/
theorem check_of_verify (h : (verify k).on s = (.ok (), s')) {r : ModuleRecord}
    (hr : s'.module? k = some r) :
    (∃ types, r.module.check types = .ok ()) ∧ r.module.IsWritten := by
  obtain ⟨_, s₁, hdiscard, h₁⟩ := Effect.on_bind_ok h
  obtain ⟨text, s₀, hrender, hpure⟩ := Effect.on_bind_ok hdiscard
  cases hpure
  obtain ⟨r', s₂, hr', h₂⟩ := Effect.on_bind_ok h₁
  obtain ⟨c, s₃, hc, h₃⟩ := Effect.on_bind_ok h₂
  obtain ⟨rfl, hr'⟩ := moduleRecord_ok hr'
  obtain ⟨rfl, -⟩ := contextRecord_ok hc
  obtain ⟨rfl, hcheck⟩ := lift_ok h₃
  cases hr.symm.trans hr'
  exact ⟨⟨c.types, hcheck⟩, isWritten_of_render hrender hr⟩

/-- A step that succeeds although its failures are reported in another way has succeeded. -/
theorem reporting_ok {α : Type} {report : Failure} {step : Act α} {a : α}
    (h : (reporting report step).on s = (.ok a, s')) : step.on s = (.ok a, s') := by
  rw [reporting, Effect.on_tryCatch] at h
  rcases hstep : step.on s with ⟨f | b, s₁⟩ <;> rw [hstep] at h
  · dsimp only at h
    split at h <;> cases h
  · exact h

theorem module?_of_enterEngine {m : Nat} {backend : Backend}
    (h : (enterEngine m backend).on s = (.ok id, s')) : s'.module? k = s.module? k := by
  obtain ⟨n, s₁, hn, h₁⟩ := Effect.on_bind_ok h
  cases hn
  cases h₁
  rfl

/-- A module that an interpreter was made for was written out, and passes its check. -/
theorem check_of_createInterpreter (h : (createInterpreter k).on s = (.ok id, s'))
    {r : ModuleRecord} (hr : s'.module? k = some r) :
    (∃ types, r.module.check types = .ok ()) ∧ r.module.IsWritten := by
  obtain ⟨_, s₁, -, h₁⟩ := Effect.on_bind_ok h
  obtain ⟨t, s₂, -, h₂⟩ := Effect.on_bind_ok h₁
  obtain ⟨_, s₃, hverify, h₃⟩ := Effect.on_bind_ok h₂
  obtain ⟨n, s₄, hn, h₄⟩ := Effect.on_bind_ok h₃
  cases h₄
  exact check_of_verify (reporting_ok hverify) ((module?_of_enterEngine hn).symm.trans hr)

end Session

/-- A session that holds nothing but a module and its context. -/
def Session.holding (types : TypeTable) (m : Module) : Session :=
  { Session.fresh .fresh with
    registry := ((Registry.empty.insert "context" ()).2.insert "module" ()).2
    contexts := [⟨1, true, types, [2]⟩]
    modules := [⟨2, 1, m, []⟩]
    globalContext := some 1 }

/-- A module was admitted to interpretation: it was made step by step, and an interpreter was made
for it. -/
structure Module.Admitted (m : Module) : Prop where
  made : m.Made
  bound : ∃ k id s s' r, (Session.createInterpreter k).on s = (.ok id, s') ∧
    s'.module? k = some r ∧ r.module = m

namespace Module.Admitted

variable {m : Module}

theorem isBuilt (h : m.Admitted) : m.IsBuilt := h.made.isBuilt

theorem accepted (h : m.Admitted) (hname : isCutShort m.name = false) :
    ∃ types, m.Accepted types := by
  obtain ⟨k, id, s, s', r, hmake, hr, rfl⟩ := h.bound
  obtain ⟨⟨types, hcheck⟩, -⟩ := Session.check_of_createInterpreter hmake hr
  exact ⟨types, accepted_of_check hcheck hname⟩

theorem isWritten (h : m.Admitted) : m.IsWritten := by
  obtain ⟨k, id, s, s', r, hmake, hr, rfl⟩ := h.bound
  exact (Session.check_of_createInterpreter hmake hr).2

/-- A module that was made is admitted as it is after its text was written, if there is a text and
the module passes its check. -/
theorem of_check {types : TypeTable} {text : String} (h : m.Made) (htext : m.text types = .ok text)
    (hcheck : (m.render types).2.check types = .ok ()) : (m.render types).2.Admitted := by
  have htext' : (m.render types).1 = .ok text := htext
  have hrender : (Session.render 2).on (Session.holding types m) =
      (.ok text, Session.holding types (m.render types).2) := by
    have hm : (Session.liveModule 2).on (Session.holding types m) =
        (.ok ⟨2, 1, m, []⟩, Session.holding types m) := rfl
    have hc : (Session.contextRecord 1).on (Session.holding types m) =
        (.ok ⟨1, true, types, [2]⟩, Session.holding types m) := rfl
    rw [Session.render, Effect.on_bind_of_ok hm, Effect.on_bind_of_ok hc]
    rcases hr : m.render types with ⟨outcome, m'⟩
    rw [hr] at htext'
    cases htext'
    rfl
  have hverify : (Session.verify 2).on (Session.holding types m) =
      (.ok (), Session.holding types (m.render types).2) := by
    have hm : (Session.moduleRecord 2).on (Session.holding types (m.render types).2) =
        (.ok ⟨2, 1, (m.render types).2, []⟩, Session.holding types (m.render types).2) := rfl
    have hc : (Session.contextRecord 1).on (Session.holding types (m.render types).2) =
        (.ok ⟨1, true, types, [2]⟩, Session.holding types (m.render types).2) := rfl
    have hd : (discard (Session.render 2)).on (Session.holding types m) =
        (.ok (), Session.holding types (m.render types).2) := Effect.on_bind_of_ok hrender
    rw [Session.verify, Effect.on_bind_of_ok hd, Effect.on_bind_of_ok hm,
      Effect.on_bind_of_ok hc, hcheck]
    rfl
  have hreport : (Session.reporting (.notInterpretable m.name) (Session.verify 2)).on
      (Session.holding types m) = (.ok (), Session.holding types (m.render types).2) := by
    rw [Session.reporting, Effect.on_tryCatch, hverify]
  have hprepare : Session.prepareGenerator.on (Session.holding types m) =
      (.ok (), Session.holding types m) := rfl
  have hget : (get : Act Session).on (Session.holding types m) =
      (.ok (Session.holding types m), Session.holding types m) := rfl
  have hcreate : (Session.createInterpreter 2).on (Session.holding types m) =
      (do
        let id ← Session.enterEngine 2 .interpreter
        Session.note (.interpreterBound id m.name)
        pure id : Act Nat).on (Session.holding types (m.render types).2) := by
    rw [Session.createInterpreter, Effect.on_bind_of_ok hprepare, Effect.on_bind_of_ok hget,
      show (Session.holding types m).module? 2 = some ⟨2, 1, m, []⟩ from rfl]
    exact Effect.on_bind_of_ok hreport
  exact ⟨.rendered types h, 2, 3, Session.holding types m, _, ⟨2, 1, (m.render types).2, []⟩,
    hcreate.trans rfl, rfl, rfl⟩

end Module.Admitted

/-! ## Modules of drafts -/

namespace Draft

/-- What a draft alone leads to. -/
def alone (d : Draft) (name : String) : Workbench := (d.apply.on ⟨[], .empty name, []⟩).2

/-- The module of a draft alone, as it is after its text was written. -/
def written (d : Draft) (name : String) : Module :=
  ((d.alone name).module.render (d.alone name).types).2

/-- Whether the module of a draft alone has a text, and passes its check. -/
def passes (d : Draft) (name : String) : Bool :=
  ((d.alone name).module.text (d.alone name).types).isOk &&
    ((d.written name).check (d.alone name).types).isOk

theorem written_admitted {d : Draft} {name : String} (h : d.passes name = true) :
    (d.written name).Admitted := by
  obtain ⟨htext, hcheck⟩ := Bool.and_eq_true_iff.mp h
  have hmade : (d.alone name).module.Made := .drafted [] [] d (.empty name)
  cases ht : (d.alone name).module.text (d.alone name).types with
  | error e => rw [ht] at htext; cases htext
  | ok text =>
      cases hc : (d.written name).check (d.alone name).types with
      | error e => rw [hc] at hcheck; cases hcheck
      | ok u => exact .of_check hmade ht hc

end Draft

end Ssa

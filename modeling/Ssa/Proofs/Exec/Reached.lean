/-
# `Ssa.Proofs.Exec.Reached` — the states of a run, and runs after runs

A run enters a function and takes steps.  An engine does one run after another, each on the memory
that the one before left, however that one ended.  Arguments come from outside: a cell among them is
accepted if it and what it leads to already hold what fits.

**Proved here.**

    a call ends in the entry, in a step from a reached state, or with a reached state   (`call_cases`)
    every reached state of a run of a typed module fits, on a sound memory               (`reaches_fits`)
    every memory between the runs of an engine is sound                                  (`ran_sound`)
-/
import Ssa.Proofs.Exec.Preserved

namespace Ssa

namespace Machine

/-- The states that a call on a memory leads to, each with the memory at that time. -/
inductive Reaches (rules : Rules) (p : Program) (f : Function) (args : List Value) (mem : Memory) :
    State → Memory → Prop
  | entered {fr : Frame} {mem' : Memory} :
      (enter rules p f args).on mem = (.ok fr, mem') →
      Reaches rules p f args mem (.running fr []) mem'
  | stepped {fr : Frame} {waiting : List Frame} {st : State} {mem₁ mem₂ : Memory} :
      Reaches rules p f args mem (.running fr waiting) mem₁ →
      (step rules p fr waiting).on mem₁ = (.ok st, mem₂) → Reaches rules p f args mem st mem₂

variable {rules : Rules} {p : Program} {f : Function} {args : List Value} {mem mem' : Memory}
  {r : Except Failure Value}

/-- How a run from a state that was reached ends. -/
theorem run_cases {n : Nat} {st : State} {mem₁ : Memory} (hst : Reaches rules p f args mem st mem₁)
    (h : (run rules p n st).on mem₁ = (r, mem')) :
    (∃ v, r = .ok v ∧ Reaches rules p f args mem (.done v) mem') ∨
    (∃ fr waiting, r = .error .stepLimit ∧ Reaches rules p f args mem (.running fr waiting) mem') ∨
    ∃ fr waiting mem₂ e, r = .error e ∧ Reaches rules p f args mem (.running fr waiting) mem₂ ∧
      (step rules p fr waiting).on mem₂ = (.error e, mem') := by
  induction n generalizing st mem₁ with
  | zero =>
      cases st with
      | done v => cases h; exact .inl ⟨v, rfl, hst⟩
      | running fr waiting => cases h; exact .inr (.inl ⟨fr, waiting, rfl, hst⟩)
  | succ n ih =>
      cases st with
      | done v => cases h; exact .inl ⟨v, rfl, hst⟩
      | running fr waiting =>
          rw [on_run_succ] at h
          rcases hs : (step rules p fr waiting).on mem₁ with ⟨e | st', mem₂⟩ <;> rw [hs] at h
          · cases h
            exact .inr (.inr ⟨fr, waiting, mem₁, e, rfl, hst, hs⟩)
          · exact ih (.stepped hst hs) h

/-- How a call ends: its function cannot be entered, or it comes to a value, or its steps are used
up, or a step fails. -/
theorem call_cases {n : Nat} (h : (call rules p n f args).on mem = (r, mem')) :
    (∃ e, r = .error e ∧ (enter rules p f args).on mem = (.error e, mem')) ∨
    (∃ v, r = .ok v ∧ Reaches rules p f args mem (.done v) mem') ∨
    (∃ fr waiting, r = .error .stepLimit ∧ Reaches rules p f args mem (.running fr waiting) mem') ∨
    ∃ fr waiting mem₂ e, r = .error e ∧ Reaches rules p f args mem (.running fr waiting) mem₂ ∧
      (step rules p fr waiting).on mem₂ = (.error e, mem') := by
  rcases Effect.on_bind_cases h with ⟨e, he, rfl⟩ | ⟨fr, mem₁, he, hrun⟩
  · exact .inl ⟨e, rfl, he⟩
  · exact .inr (run_cases (.entered he) hrun)

end Machine

/-! ## Reached states fit -/

theorem Operand.allowed_true (m : Module) (f : Function) (env : Env) (o : Operand) :
    o.Allowed (fun _ => True) m f env := by
  cases o <;> simp [Operand.Allowed]

theorem Instr.phiAllowed_true (m : Module) (f : Function) (env : Env) (source : Option Nat)
    (i : Instr) : i.PhiAllowed (fun _ => True) m f env source := by
  unfold Instr.PhiAllowed
  split
  · exact Operand.allowed_true m f env _
  · trivial

theorem Function.entryAllowed_true (m : Module) (f : Function) (args : List Value) :
    f.EntryAllowed (fun _ => True) m args :=
  ⟨fun _ => trivial, fun _ _ => trivial, fun env i _ => i.phiAllowed_true m f env none⟩

theorem Frame.stepAllowed_true (R : Regime) (p : Program) (fr : Frame) (mem : Memory) :
    fr.StepAllowed R (fun _ => True) p mem where
  ended _ := trivial
  instr _ _ := {
    operands := fun o _ => o.allowed_true p.module fr.function fr.env
    results := fun _ _ _ _ _ _ _ => trivial
    rawPointers := fun _ => trivial
    unruled := fun _ => trivial
    unreachable := fun _ => trivial
    indirect := fun _ _ _ _ => trivial }
  jump _ _ _ _ j _ := j.phiAllowed_true p.module fr.function fr.env _
  call _ g args _ _ _ := g.entryAllowed_true p.module args

namespace Machine

open Interpreted (rules)

variable {R : Regime} {p : Program} {f : Function} {args : List Value} {mem mem' : Memory}
  (ht : p.module.IsTyped) (ha : p.module.AddressesAllowed R)
  (hf : ∃ k, p.module.function? k = some f)
  (hm : R.Sound p.module mem) (hargs : R.ArgsReady mem.storage f.params args)
include ht ha hf hm hargs

/-- Every state that a run reaches fits, and so does the memory. -/
theorem reaches_fits {st : State} (h : Reaches rules p f args mem st mem') :
    R.Sound p.module mem' ∧ mem.storage.Extends mem'.storage ∧
      st.Fits R p.module f.result mem'.storage := by
  induction h with
  | @entered fr mem' he =>
      have hmeets := enter_meets hm ht hf hargs (f.entryAllowed_true p.module args)
      obtain ⟨hsound, hgrows⟩ := hmeets.after he
      obtain ⟨hfits, env, vs, -, -, rfl⟩ := hmeets.ok _ _ he
      exact ⟨hsound, hgrows, hfits, rfl⟩
  | @stepped fr waiting st mem₁ mem₂ _ hs ih =>
      obtain ⟨hm₁, hext, hst⟩ := ih
      have hmeets := step_meets hm₁ ht ha hst (fr.stepAllowed_true R p mem₁)
      obtain ⟨hsound, hgrows⟩ := hmeets.after hs
      exact ⟨hsound, hext.trans hgrows, hmeets.ok _ _ hs⟩

/-- However a call ends, it leaves a sound memory that extends the one before; and what it returns
fits. -/
theorem call_meets (n : Nat) :
    Exec.Meets R p.module (call rules p n f args) mem (fun s v => R.Fits s f.result v)
      fun _ => True := by
  rcases hon : (call rules p n f args).on mem with ⟨r, mem'⟩
  have hall : R.Sound p.module mem' ∧ mem.storage.Extends mem'.storage ∧
      ∀ v, r = .ok v → R.Fits mem'.storage f.result v := by
    rcases call_cases hon with ⟨e, rfl, he⟩ | ⟨v, rfl, hv⟩ | ⟨fr, waiting, rfl, hr⟩ |
      ⟨fr, waiting, mem₂, e, rfl, hr, hs⟩
    · have hmeets := enter_meets hm ht hf hargs (f.entryAllowed_true p.module args)
      obtain ⟨hsound, hgrows⟩ := hmeets.after he
      exact ⟨hsound, hgrows, nofun⟩
    · obtain ⟨hsound, hgrows, hfits⟩ := reaches_fits ht ha hf hm hargs hv
      exact ⟨hsound, hgrows, fun v' hv' => by cases hv'; exact hfits⟩
    · obtain ⟨hsound, hgrows, -⟩ := reaches_fits ht ha hf hm hargs hr
      exact ⟨hsound, hgrows, nofun⟩
    · obtain ⟨hm₂, hext, hst⟩ := reaches_fits ht ha hf hm hargs hr
      have hmeets := step_meets hm₂ ht ha hst (fr.stepAllowed_true R p mem₂)
      obtain ⟨hsound, hgrows⟩ := hmeets.after hs
      exact ⟨hsound, hext.trans hgrows, nofun⟩
  obtain ⟨hsound, hgrows, hfits⟩ := hall
  refine ⟨hon ▸ hsound, hon ▸ hgrows, fun v mem'' h => ?_, fun _ _ _ => trivial⟩
  rw [hon] at h
  cases h
  exact hfits v rfl

end Machine

/-! ## Arguments from outside -/

/-- Cells that lead only to each other, or to what pointers may be besides, and hold what fits. -/
def Regime.Closed (R : Regime) (s : Storage) (known : Nat → Prop) : Prop :=
  ∀ id, known id → ∃ c, s.cell? id = some c ∧ ({ R with known } : Regime).Fits s c.type c.value

/-- A value from outside fits a type: it is not a cell, or a cell of cells that are closed. -/
def Regime.Supports (R : Regime) (s : Storage) (t : Ty) (v : Value) : Prop :=
  ∃ known, R.Closed s known ∧ ({ R with known } : Regime).Fits s t v

/-- Arguments from outside can be brought to the parameters. -/
def Regime.ArgsSupported (R : Regime) (s : Storage) (params : List Ty) (args : List Value) : Prop :=
  ∀ (k : Nat) (t : Ty) (v : Value), params[k]? = some t → args[k]? = some v →
    t.isInt = true ∨ t.isFp = true ∨ R.Supports s t v

/-- For each parameter there is an argument from outside that fits its type. -/
def Regime.ArgsSupplied (R : Regime) (s : Storage) (params : List Ty) (args : List Value) : Prop :=
  ∀ (k : Nat) (t : Ty), params[k]? = some t → ∃ v, args[k]? = some v ∧ R.Supports s t v

/-- The regime in which the closed cells of a storage are known too. -/
def Regime.adopt (R : Regime) (s : Storage) : Regime :=
  { R with known := fun id => R.known id ∨ ∃ known, R.Closed s known ∧ known id }

namespace Regime

variable {R : Regime} {m : Module} {s : Storage} {mem : Memory}

theorem Fits.widen {known known' : Nat → Prop} {t : Ty} {v : Value}
    (h : ({ R with known } : Regime).Fits s t v) (hk : ∀ id, known id → known' id) :
    ({ R with known := known' } : Regime).Fits s t v := by
  unfold Fits at h ⊢
  split at h
  case h_3 =>
    cases h with
    | null => exact .null
    | function => exact .function
    | address ha => exact .address ha
    | cell hid hc ht => exact .cell (hk _ hid) hc ht
  all_goals exact h

/-- Closed cells of any kind may be known too. -/
theorem Sound.adopting {C : (Nat → Prop) → Prop} (h : R.Sound m mem)
    (hC : ∀ known, C known → R.Closed mem.storage known) :
    ({ R with known := fun id => R.known id ∨ ∃ known, C known ∧ known id } : Regime).Sound m mem := by
  refine ⟨fun id hid => .inl (h.unmade id hid), fun id c hk hc => ?_, fun i id hi => ?_⟩
  · rcases hk with hk | ⟨known, hclosed, hk⟩
    · exact (h.cells id c hk hc).widen fun _ => .inl
    · obtain ⟨c', hc', hfit⟩ := hC known hclosed id hk
      rw [hc] at hc'
      cases hc'
      exact hfit.widen fun id hid => .inr ⟨known, hclosed, hid⟩
  · obtain ⟨hk, hrest⟩ := h.globals i id hi
    exact ⟨.inl hk, hrest⟩

theorem Sound.adopt (h : R.Sound m mem) : (R.adopt mem.storage).Sound m mem :=
  h.adopting fun _ hclosed => hclosed

theorem ArgsSupported.ready {params : List Ty} {args : List Value}
    (h : R.ArgsSupported s params args) : (R.adopt s).ArgsReady s params args := by
  intro k t v ht hv
  rcases h k t v ht hv with hi | hf | ⟨known, hclosed, hfit⟩
  · exact .inl hi
  · exact .inr (.inl hf)
  · exact .inr (.inr (hfit.widen fun id hid => .inr ⟨known, hclosed, hid⟩))

theorem ArgsSupplied.fit {params : List Ty} {args : List Value}
    (h : R.ArgsSupplied s params args) : (R.adopt s).ArgsFit s params args := by
  intro k t ht
  obtain ⟨v, hv, known, hclosed, hfit⟩ := h k t ht
  exact ⟨v, hv, hfit.widen fun id hid => .inr ⟨known, hclosed, hid⟩⟩

/-- Where nothing is known but cells that are still to be made, and no variable has a cell yet, the
memory is sound. -/
theorem sound_of_fresh (hknown : ∀ id, R.known id ↔ mem.storage.cells.size ≤ id)
    (hglobals : mem.globals = []) : R.Sound m mem := by
  refine ⟨fun id hid => (hknown id).mpr hid, fun id c hk hc => ?_, fun i id hi => ?_⟩
  · obtain ⟨hlt, -⟩ := Array.getElem?_eq_some_iff.mp hc
    exact absurd hlt (Nat.not_lt.mpr ((hknown id).mp hk))
  · rw [Memory.global?, hglobals] at hi
    cases hi

end Regime

/-! ## Runs after runs -/

namespace Machine

open Interpreted (rules)

/-- The memories of an engine that began with one: each is left by a run on the one before, of a
function of the module on arguments that are accepted. -/
inductive Ran (R : Regime) (p : Program) (start : Memory) : Memory → Prop
  | fresh : Ran R p start start
  | run {mem : Memory} {k n : Nat} {f : Function} {args : List Value} :
      Ran R p start mem → p.module.function? k = some f →
      R.ArgsSupported mem.storage f.params args →
      Ran R p start ((call rules p n f args).on mem).2

/-- Every memory of an engine is sound, in a regime that differs at most in what is known: cells
that are made by runs are. -/
theorem ran_sound {R : Regime} {p : Program} {start mem : Memory} (ht : p.module.IsTyped)
    (ha : p.module.AddressesAllowed R)
    (hstart : ∀ id, start.storage.cells.size ≤ id → R.known id) (hsound : R.Sound p.module start)
    (h : Ran R p start mem) :
    ∃ known, (∀ id, start.storage.cells.size ≤ id → known id) ∧
      ({ R with known } : Regime).Sound p.module mem := by
  induction h with
  | fresh => exact ⟨R.known, hstart, hsound⟩
  | @run mem k n f args _ hf hargs ih =>
      obtain ⟨known, hknown, hm⟩ := ih
      refine ⟨(({ R with known } : Regime).adopt mem.storage).known,
        fun id hid => .inl (hknown id hid), ?_⟩
      have hargs' : ({ R with known } : Regime).ArgsSupported mem.storage f.params args := hargs
      exact (call_meets ht (R := ({ R with known } : Regime).adopt mem.storage) ha ⟨k, hf⟩
        hm.adopt hargs'.ready n).holds

end Machine

end Ssa

/-
# `Ssa.Proofs.Program.Growing` — what building leaves as it was

While a module is built, functions keep their types, values keep theirs, and symbols keep their
places.  What an operand refers to therefore stays what it was, and so does what was built before.

**Proved here.**

    an operand that is known, a part that is built, stays so while the module grows  (`KnownIn.mono`, `IsBuilt.mono`)
    a grown function, a changed variable, a new symbol leave a module built            (`IsBuilt.replace`, `declare_isBuilt`)
-/
import Ssa.Proofs.Program.Built

namespace Ssa

/-! ## Growth -/

/-- A function keeps its type and its values. -/
structure Function.Grows (f f' : Function) : Prop where
  type : f'.type = f.type
  locals : ∀ (id : Nat) l, f.locals[id]? = some l → f'.locals[id]? = some l

/-- A symbol stays what it is, and keeps its type. -/
def Symbol.Grows : Symbol → Symbol → Prop
  | .variable v, .variable v' => v'.type = v.type
  | .function f, .function f' => f.Grows f'
  | _, _ => False

/-- The symbols of a module keep their places. -/
def Module.Grows (m m' : Module) : Prop :=
  ∀ (i : Nat) s, m.symbols[i]? = some s → ∃ s', m'.symbols[i]? = some s' ∧ s.Grows s'

namespace Function.Grows

variable {f f' f'' : Function}

theorem refl (f : Function) : f.Grows f := ⟨rfl, fun _ _ h => h⟩

theorem trans (h : f.Grows f') (h' : f'.Grows f'') : f.Grows f'' :=
  ⟨h'.type.trans h.type, fun id l hl => h'.locals id l (h.locals id l hl)⟩

theorem params (h : f.Grows f') : f'.params = f.params := by
  have := h.type
  simp only [Function.type, Ty.function.injEq] at this
  exact this.2.1

end Function.Grows

namespace Symbol.Grows

variable {s s' s'' : Symbol}

theorem refl (s : Symbol) : s.Grows s := by
  rcases s with v | f
  · exact rfl
  · exact Function.Grows.refl f

theorem trans (h : s.Grows s') (h' : s'.Grows s'') : s.Grows s'' := by
  rcases s with v | f <;> rcases s' with v' | f' <;> rcases s'' with v'' | f'' <;>
    try contradiction
  · exact Eq.trans (show v''.type = v'.type from h') h
  · exact Function.Grows.trans h h'

theorem type (h : s.Grows s') : s'.type = s.type := by
  rcases s with v | f <;> rcases s' with v' | f' <;> try contradiction
  · exact congrArg Ty.ref (show v'.type = v.type from h)
  · exact congrArg Ty.ref (show f.Grows f' from h).type

end Symbol.Grows

namespace Module.Grows

variable {m m' m'' : Module}

theorem refl (m : Module) : m.Grows m := fun _ s h => ⟨s, h, .refl s⟩

theorem trans (h : m.Grows m') (h' : m'.Grows m'') : m.Grows m'' := by
  intro i s hs
  obtain ⟨s', hs', hg⟩ := h i s hs
  obtain ⟨s'', hs'', hg'⟩ := h' i s' hs'
  exact ⟨s'', hs'', hg.trans hg'⟩

theorem function (h : m.Grows m') {k : Nat} {f : Function} (hf : m.function? k = some f) :
    ∃ f', m'.function? k = some f' ∧ f.Grows f' := by
  obtain ⟨s, hs, hg⟩ := h k _ (Module.symbol_of_function? hf)
  rcases s with v | f'
  · exact hg.elim
  · exact ⟨f', by rw [Module.function?, hs], hg⟩

end Module.Grows

/-! ## Known operands -/

/-- An operand of the function at a position refers to something that is there, and says its type. -/
def Operand.KnownIn (m : Module) (fn : Nat) : Operand → Prop
  | .const _ => True
  | .local id t => ∃ f, m.function? fn = some f ∧ (f.locals[id]?).map Local.type = some t
  | .global i t => (m.symbols[i]?).map Symbol.type = some t

namespace Operand

variable {m m' : Module} {f f' : Function} {fn : Nat} {o : Operand}

theorem KnownIn.mono (h : o.KnownIn m fn) (hm : m.Grows m') : o.KnownIn m' fn := by
  cases o with
  | const c => trivial
  | «local» id t =>
      obtain ⟨f, hf, hk⟩ := h
      obtain ⟨f', hf', hg⟩ := hm.function hf
      obtain ⟨l, hl, rfl⟩ := Option.map_eq_some_iff.mp hk
      exact ⟨f', hf', by rw [hg.locals id l hl]; rfl⟩
  | global i t =>
      obtain ⟨s, hs, rfl⟩ := Option.map_eq_some_iff.mp h
      obtain ⟨s', hs', hg⟩ := hm i s hs
      show (m'.symbols[i]?).map Symbol.type = some s.type
      rw [hs', Option.map_some, hg.type]

theorem KnownIn.isKnown (h : o.KnownIn m fn) (hf : m.function? fn = some f) : o.IsKnown m f := by
  cases o with
  | const c => trivial
  | «local» id t =>
      obtain ⟨f', hf', hl⟩ := h
      cases hf.symm.trans hf'
      exact hl
  | global i t => exact h

theorem IsKnown.mono (h : o.IsKnown m f) (hm : m.Grows m') (hf : f.Grows f') :
    o.IsKnown m' f' := by
  cases o with
  | const c => trivial
  | «local» id t =>
      obtain ⟨l, hl, rfl⟩ := Option.map_eq_some_iff.mp h
      show (f'.locals[id]?).map Local.type = some l.type
      rw [hf.locals id l hl]
      rfl
  | global i t => exact (show KnownIn m 0 (.global i t) from h).mono hm

end Operand

/-! ## Modules that stay built -/

theorem Instr.IsBuilt.mono {m m' : Module} {f f' : Function} {i : Instr} (h : i.IsBuilt m f)
    (hm : m.Grows m') (hf : f.Grows f') : i.IsBuilt m' f' := by
  obtain ⟨l, hl, ht⟩ := h.bound
  exact ⟨⟨l, hf.locals _ l hl, ht⟩, fun o ho => (h.known o ho).mono hm hf, h.asked⟩

theorem Function.IsBuilt.mono {m m' : Module} {f : Function} (h : f.IsBuilt m)
    (hm : m.Grows m') : f.IsBuilt m' :=
  ⟨h.params, fun b i hi => (h.instrs b i hi).mono hm (.refl f), h.distinct⟩

/-- A function that has grown is built if its instructions are, and those of a block are different. -/
theorem Function.IsBuilt.grown {m : Module} {f f' : Function} (h : f.IsBuilt m) (hf : f.Grows f')
    (hi : ∀ b, ∀ i ∈ f'.instrs b, i.IsBuilt m f') (hd : ∀ b, ((f'.instrs b).map Instr.id).Nodup) :
    f'.IsBuilt m := by
  refine ⟨fun j t hj => ?_, hi, hd⟩
  obtain ⟨l, hl, ht⟩ := h.params j t (hf.params ▸ hj)
  exact ⟨l, hf.locals j l hl, ht⟩

namespace Module

variable {m : Module}

theorem function?_replace {k i : Nat} {f : Function} :
    (m.replace k (.function f)).function? i =
      if i = k ∧ k < m.symbols.size then some f else m.function? i := by
  unfold function? replace
  dsimp only
  rw [Array.getElem?_setIfInBounds]
  by_cases hik : k = i
  · subst hik
    by_cases hk : k < m.symbols.size
    · simp [hk]
    · simp [hk]
  · simp [hik, Ne.symm hik]

theorem replace_grows {k : Nat} {s s' : Symbol} (hs : m.symbols[k]? = some s) (hg : s.Grows s') :
    m.Grows (m.replace k s') := by
  intro i s₁ hs₁
  obtain ⟨hk, -⟩ := Array.getElem?_eq_some_iff.mp hs
  rw [symbols_replace hk]
  by_cases hik : k = i
  · subst hik
    cases hs.symm.trans hs₁
    exact ⟨s', if_pos rfl, hg⟩
  · exact ⟨s₁, (if_neg hik).trans hs₁, .refl s₁⟩

/-- A function that has grown, and is built, may stand in the place of what it was. -/
theorem IsBuilt.replace (h : m.IsBuilt) {k : Nat} {f f' : Function} (hf : m.function? k = some f)
    (hg : f.Grows f') (hb : f'.IsBuilt m) :
    (m.replace k (.function f')).IsBuilt ∧ m.Grows (m.replace k (.function f')) := by
  have hgrows : m.Grows (m.replace k (.function f')) := replace_grows (symbol_of_function? hf) hg
  refine ⟨fun i g hi => ?_, hgrows⟩
  rw [function?_replace] at hi
  split at hi
  · cases hi
    exact hb.mono hgrows
  · exact (h i g hi).mono hgrows

/-- Where a variable stands for a variable, the functions are the same. -/
theorem function?_replaceVariable {k : Nat} {v v' : Variable} (hv : m.variableAt? k = some v)
    (i : Nat) : (m.replace k (.variable v')).function? i = m.function? i := by
  have hk := symbol_of_variableAt? hv
  unfold function?
  rw [symbols_replace (Array.getElem?_eq_some_iff.mp hk).1]
  by_cases hik : k = i
  · subst hik
    rw [if_pos rfl, hk]
  · rw [if_neg hik]

/-- A variable may change in all but its type. -/
theorem IsBuilt.replaceVariable (h : m.IsBuilt) {k : Nat} {v v' : Variable}
    (hv : m.variableAt? k = some v) (ht : v'.type = v.type) :
    (m.replace k (.variable v')).IsBuilt ∧ m.Grows (m.replace k (.variable v')) := by
  have hgrows : m.Grows (m.replace k (.variable v')) :=
    replace_grows (symbol_of_variableAt? hv) ht
  refine ⟨fun i g hi => ?_, hgrows⟩
  rw [function?_replaceVariable hv] at hi
  exact (h i g hi).mono hgrows

/-- A function is where it was after a further symbol is declared. -/
theorem function?_push {s : Symbol} {j : Nat} {g : Function} (hg : m.function? j = some g) :
    ({ m with symbols := m.symbols.push s } : Module).function? j = some g := by
  unfold function?
  rw [symbols_push (symbol_of_function? hg)]

/-- A function was there before a further symbol was declared, or is that symbol. -/
theorem function?_push_cases {s : Symbol} {j : Nat} {g : Function}
    (hg : ({ m with symbols := m.symbols.push s } : Module).function? j = some g) :
    s = .function g ∨ m.function? j = some g := by
  unfold function? at hg
  dsimp only at hg
  rw [Array.getElem?_push] at hg
  by_cases hj : j = m.symbols.size
  · simp only [hj, if_true] at hg
    rcases s with v | f
    · cases hg
    · cases hg
      exact .inl rfl
  · simp only [hj, if_false] at hg
    exact .inr hg

/-- A module that declares nothing is built. -/
theorem empty_isBuilt (name : String) : (Module.empty name).IsBuilt := by
  intro k f hf
  simp [empty, function?] at hf

theorem declare_isBuilt (h : m.IsBuilt) {s : Symbol} {i : Nat} {m' : Module}
    (hs : ∀ f, s = .function f → f.IsBuilt m) (hd : m.declare s = .ok (i, m')) :
    m'.IsBuilt ∧ m.Grows m' := by
  unfold declare at hd
  split at hd
  · cases hd
  · cases hd
    have hgrows : m.Grows { m with symbols := m.symbols.push s } :=
      fun j s' hs' => ⟨s', symbols_push hs' s, .refl s'⟩
    refine ⟨fun j g hg => ?_, hgrows⟩
    rcases function?_push_cases hg with rfl | hg
    · exact (hs g rfl).mono hgrows
    · exact (h j g hg).mono hgrows

end Module

end Ssa

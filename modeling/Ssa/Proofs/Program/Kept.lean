/-
# `Ssa.Proofs.Program.Kept` — what stays declared while a module changes

While a module changes, each symbol stays in its place and goes by its name there, a function remains
a function of its type, and a variable a variable.  Names stay distinct, so a name leads to one
symbol, always the same.  The table lists functions, none of them twice, and is only added to.

**Proved here.**

    every symbol is still what it was                            (`Leads.keeps`)
    names stay distinct                                            (`Leads.isNamed`)
    the table goes on listing functions, and keeps what it listed   (`Leads.lists`, `Leads.table`)
    a name leads to the one symbol that has it                       (`index?_eq_some_iff`, `functionIndex?_eq_some_iff`)
-/
import Ssa.Proofs.Program.Changes

namespace Ssa

/-! ## Symbols that are kept -/

/-- A symbol is still what it was: a variable or a function, with the name and the type it had. -/
def Symbol.IsStill : Symbol → Symbol → Prop
  | .variable v, .variable v' => v'.name = v.name ∧ v'.type = v.type
  | .function f, .function f' => f'.name = f.name ∧ f'.type = f.type
  | _, _ => False

/-- A module has its name, and each symbol in its place, as before. -/
structure Module.Keeps (m m' : Module) : Prop where
  name : m'.name = m.name
  symbols : ∀ (k : Nat) s, m.symbols[k]? = some s → ∃ s', m'.symbols[k]? = some s' ∧ s.IsStill s'

/-- No two symbols of a module have the same name. -/
def Module.IsNamed (m : Module) : Prop :=
  ∀ (i j : Nat) s s', m.symbols[i]? = some s → m.symbols[j]? = some s' → s.name = s'.name → i = j

/-- A table lists functions of a module, none of them twice. -/
structure Module.Lists (m : Module) (table : List Nat) : Prop where
  nodup : table.Nodup
  functions : ∀ k ∈ table, (m.function? k).isSome

namespace Symbol.IsStill

variable {s s' s'' : Symbol}

theorem refl (s : Symbol) : s.IsStill s := by
  cases s with
  | «variable» v => exact ⟨rfl, rfl⟩
  | function f => exact ⟨rfl, rfl⟩

theorem trans (h : s.IsStill s') (h' : s'.IsStill s'') : s.IsStill s'' := by
  rcases s with v | f <;> rcases s' with v' | f' <;> rcases s'' with v'' | f'' <;>
    try contradiction
  · exact ⟨Eq.trans h'.1 h.1, Eq.trans h'.2 h.2⟩
  · exact ⟨Eq.trans h'.1 h.1, Eq.trans h'.2 h.2⟩

theorem name (h : s.IsStill s') : s'.name = s.name := by
  rcases s with v | f <;> rcases s' with v' | f' <;> try contradiction
  · exact h.1
  · exact h.1

theorem of_fixed (h : Module.Symbol.Fixed s s') : s.IsStill s' := by
  rcases h with rfl | ⟨v, shown, rfl, rfl⟩
  · exact refl _
  · exact ⟨rfl, rfl⟩

end Symbol.IsStill

namespace Module

variable {m m' m'' : Module} {k : Nat} {n : String}

namespace Keeps

theorem refl (m : Module) : m.Keeps m := ⟨rfl, fun _ s h => ⟨s, h, .refl s⟩⟩

theorem trans (h : m.Keeps m') (h' : m'.Keeps m'') : m.Keeps m'' := by
  refine ⟨h'.name.trans h.name, fun k s hs => ?_⟩
  obtain ⟨s', hs', hstill⟩ := h.symbols k s hs
  obtain ⟨s'', hs'', hstill'⟩ := h'.symbols k s' hs'
  exact ⟨s'', hs'', hstill.trans hstill'⟩

theorem function (h : m.Keeps m') {f : Function} (hf : m.function? k = some f) :
    ∃ f', m'.function? k = some f' ∧ f'.name = f.name ∧ f'.type = f.type := by
  obtain ⟨s, hs, hstill⟩ := h.symbols k _ (symbol_of_function? hf)
  rcases s with v | f'
  · exact hstill.elim
  · exact ⟨f', by rw [function?, hs], hstill⟩

/-- A symbol may be put in the place of one that it still is. -/
theorem replace {s s' : Symbol} (hs : m.symbols[k]? = some s) (hstill : s.IsStill s') :
    m.Keeps (m.replace k s') := by
  refine ⟨rfl, fun i t ht => ?_⟩
  obtain ⟨hk, -⟩ := Array.getElem?_eq_some_iff.mp hs
  rw [symbols_replace hk]
  by_cases hik : k = i
  · subst hik
    cases hs.symm.trans ht
    exact ⟨s', if_pos rfl, hstill⟩
  · exact ⟨t, (if_neg hik).trans ht, .refl t⟩

end Keeps

/-- A module without further symbols has the names that it had. -/
theorem IsNamed.of_keeps (h : m.IsNamed) (hkeeps : m.Keeps m')
    (hsize : m'.symbols.size = m.symbols.size) : m'.IsNamed := by
  -- each symbol that is there now was there before, under its name
  have hback (i : Nat) (t : Symbol) (ht : m'.symbols[i]? = some t) :
      ∃ s, m.symbols[i]? = some s ∧ s.name = t.name := by
    obtain ⟨hi, -⟩ := Array.getElem?_eq_some_iff.mp ht
    obtain ⟨t', ht', hstill⟩ := hkeeps.symbols i _ (Array.getElem?_eq_getElem (hsize ▸ hi))
    cases ht.symm.trans ht'
    exact ⟨_, Array.getElem?_eq_getElem (hsize ▸ hi), hstill.name.symm⟩
  intro i j t t' ht ht' heq
  obtain ⟨s, hs, hname⟩ := hback i t ht
  obtain ⟨s', hs', hname'⟩ := hback j t' ht'
  exact h i j s s' hs hs' (hname.trans (heq.trans hname'.symm))

theorem empty_isNamed (name : String) : (Module.empty name).IsNamed := by
  intro i j s s' hs
  simp [Module.empty] at hs

theorem lists_nil (m : Module) : m.Lists [] := ⟨.nil, nofun⟩

theorem Lists.mono {table : List Nat} (h : m.Lists table) (hkeeps : m.Keeps m') :
    m'.Lists table := by
  refine ⟨h.nodup, fun k hk => ?_⟩
  obtain ⟨f, hf⟩ := Option.isSome_iff_exists.mp (h.functions k hk)
  obtain ⟨f', hf', -⟩ := hkeeps.function hf
  simp [hf']

/-! ## Names -/

theorem index?_eq_none_iff :
    m.index? n = none ↔ ∀ (k : Nat) s, m.symbols[k]? = some s → s.name ≠ n := by
  rw [index?, Array.findIdx?_eq_none_iff]
  constructor
  · intro h k s hs
    simpa using h s (Array.mem_of_getElem? hs)
  · intro h s hs
    obtain ⟨k, hk⟩ := Array.getElem?_of_mem hs
    simpa using h k s hk

theorem symbol_of_index? (h : m.index? n = some k) : ∃ s, m.symbols[k]? = some s ∧ s.name = n := by
  obtain ⟨hk, hname, -⟩ := Array.findIdx?_eq_some_iff_getElem.mp h
  exact ⟨_, Array.getElem?_eq_getElem hk, by simpa using hname⟩

/-- A name leads to the one symbol that has it. -/
theorem IsNamed.index?_eq_some_iff (h : m.IsNamed) :
    m.index? n = some k ↔ ∃ s, m.symbols[k]? = some s ∧ s.name = n := by
  refine ⟨symbol_of_index?, fun ⟨s, hs, hname⟩ => ?_⟩
  cases hi : m.index? n with
  | none => exact absurd hname (index?_eq_none_iff.mp hi k s hs)
  | some i =>
      obtain ⟨t, ht, hname'⟩ := symbol_of_index? hi
      rw [h i k t s ht hs (hname'.trans hname.symm)]

/-- A name leads to the one function that has it. -/
theorem IsNamed.functionIndex?_eq_some_iff (h : m.IsNamed) :
    m.functionIndex? n = some k ↔ ∃ f, m.function? k = some f ∧ f.name = n := by
  constructor
  · intro hk
    obtain ⟨i, hi, hf⟩ := Option.bind_eq_some_iff.mp hk
    obtain ⟨f, hf', rfl⟩ := Option.map_eq_some_iff.mp hf
    obtain ⟨s, hs, hname⟩ := symbol_of_index? hi
    cases hs.symm.trans (symbol_of_function? hf')
    exact ⟨f, hf', hname⟩
  · rintro ⟨f, hf, hname⟩
    have hi : m.index? n = some k :=
      h.index?_eq_some_iff.mpr ⟨_, symbol_of_function? hf, hname⟩
    rw [functionIndex?, hi, Option.bind_some, hf]
    rfl

/-- A name leads to no function exactly when no function has it. -/
theorem IsNamed.functionIndex?_eq_none_iff (h : m.IsNamed) :
    m.functionIndex? n = none ↔ ∀ k f, m.function? k = some f → f.name ≠ n := by
  constructor
  · intro hnone k f hf hname
    rw [h.functionIndex?_eq_some_iff.mpr ⟨f, hf, hname⟩] at hnone
    cases hnone
  · intro hall
    cases hk : m.functionIndex? n with
    | none => rfl
    | some k =>
        obtain ⟨f, hf, hname⟩ := h.functionIndex?_eq_some_iff.mp hk
        exact absurd hname (hall k f hf)

end Module

namespace Function

/-- A declaration has the name and the type that it was declared with. -/
theorem declare_name_type (name : String) (result : Ty) (params : List Ty) (variadic : Bool) :
    (declare name result params variadic).name = name ∧
      (declare name result params variadic).type = .function result params variadic := by
  have hfold (ts : List Ty) (f : Function) :
      (ts.foldl (fun f t => (f.addLocal "" t .argument).2) f).name = f.name ∧
        (ts.foldl (fun f t => (f.addLocal "" t .argument).2) f).type = f.type := by
    induction ts generalizing f with
    | nil => exact ⟨rfl, rfl⟩
    | cons t ts ih => exact ih (f.addLocal "" t .argument).2
  exact hfold params ⟨name, result, params, variadic, .fresh, #[], #[]⟩

end Function

namespace Module

variable {m m' : Module} {k : Nat} {n : String}

/-! ## Further symbols -/

/-- A module with one more symbol. -/
def withSymbol (m : Module) (s : Symbol) : Module := { m with symbols := m.symbols.push s }

/-- A symbol may be declared under a name that is not empty and that no symbol has. -/
theorem declare_of_new {s : Symbol} (hname : s.name ≠ "") (hnew : m.index? s.name = none) :
    m.declare s = .ok (m.symbols.size, m.withSymbol s) := by
  rw [declare, hnew, if_neg (by simpa using hname)]
  rfl

/-- Declaring under a name that no symbol has is refused only for the empty name. -/
theorem declare_error {s : Symbol} {e : Failure} (h : m.declare s = .error e) : e = .nameTaken := by
  unfold declare at h
  split at h
  · cases h
    rfl
  · cases h

theorem symbol_withSymbol (m : Module) (s : Symbol) :
    (m.withSymbol s).symbols[m.symbols.size]? = some s := by
  simp [withSymbol]

theorem function?_withSymbol (m : Module) (f : Function) :
    (m.withSymbol (.function f)).function? m.symbols.size = some f := by
  rw [function?, symbol_withSymbol]

theorem declareFunction_of_new (hname : n ≠ "") (hnew : m.index? n = none) (result : Ty)
    (params : List Ty) (variadic : Bool) :
    m.declareFunction n result params variadic =
      .ok (m.symbols.size, m.withSymbol (.function (.declare n result params variadic))) := by
  have hsymbol : (Symbol.function (.declare n result params variadic)).name = n :=
    (Function.declare_name_type _ _ _ _).1
  exact declare_of_new (by rwa [hsymbol]) (by rwa [hsymbol])

end Module

/-! ## Changes -/

namespace Workbench

variable {w w' : Workbench}

theorem Change.keeps (h : w.Change w') : w.module.Keeps w'.module := by
  cases h with
  | types | adopted => exact .refl _
  | declared hd =>
      obtain ⟨-, -, rfl⟩ := Module.declare_eq_ok hd
      exact ⟨rfl, fun k s hs => ⟨s, Module.symbols_push hs _, .refl s⟩⟩
  | function hf hname htype =>
      exact .replace (Module.symbol_of_function? hf) ⟨hname, htype⟩
  | initializer k init =>
      show w.module.Keeps (w.module.setInitializer k init)
      unfold Module.setInitializer
      split
      · rename_i v hv
        exact .replace (Module.symbol_of_variableAt? hv) ⟨rfl, rfl⟩
      · exact .refl _
  | rendered types =>
      refine ⟨rfl, fun k s hs => ?_⟩
      obtain ⟨hlen, hget⟩ :=
        List.forall₂_iff_get.mp (Module.renderSymbols_fixed w.module w.module.symbols.toList)
      rw [← Array.getElem?_toList] at hs
      obtain ⟨hk, rfl⟩ := List.getElem?_eq_some_iff.mp hs
      exact ⟨_, List.getElem?_toArray.trans (List.getElem?_eq_getElem (hlen ▸ hk)),
        .of_fixed (hget k hk (hlen ▸ hk))⟩

/-- Only declaring makes further symbols, and it does so under names that are new. -/
theorem Change.isNamed (h : w.Change w') (hw : w.module.IsNamed) : w'.module.IsNamed := by
  have hkeeps := h.keeps
  cases h with
  | types | adopted => exact hw
  | declared hd =>
      rename_i s _ _
      obtain ⟨hfree, -, rfl⟩ := Module.declare_eq_ok hd
      have hnew := Module.index?_eq_none_iff.mp hfree
      intro i j t t' ht ht' heq
      replace ht : (w.module.symbols.push s)[i]? = some t := ht
      replace ht' : (w.module.symbols.push s)[j]? = some t' := ht'
      rw [Array.getElem?_push] at ht ht'
      split at ht <;> split at ht'
      · rename_i hi hj
        rw [hi, hj]
      · cases ht
        exact absurd heq.symm (hnew j t' ht')
      · cases ht'
        exact absurd heq (hnew i t ht)
      · exact hw i j t t' ht ht' heq
  | function => exact hw.of_keeps hkeeps (by simp [Module.replace])
  | initializer k init =>
      refine hw.of_keeps hkeeps ?_
      show (w.module.setInitializer k init).symbols.size = _
      unfold Module.setInitializer
      split
      · simp [Module.replace]
      · rfl
  | rendered types =>
      refine hw.of_keeps hkeeps ?_
      have hlen := (Module.renderSymbols_fixed w.module w.module.symbols.toList).length_eq
      simpa [Module.render] using hlen.symm

theorem Change.lists (h : w.Change w') (hw : w.module.Lists w.table) :
    w'.module.Lists w'.table := by
  have hkeeps := h.keeps
  cases h with
  | adopted hk hnew =>
      rename_i k
      refine ⟨?_, fun i hi => ?_⟩
      · exact List.nodup_append.mpr ⟨hw.nodup, (by simp), fun a ha b hb => by
          cases List.mem_singleton.mp hb
          exact fun heq => hnew (heq ▸ ha)⟩
      · rcases List.mem_append.mp hi with hi | hi
        · exact hw.functions i hi
        · cases List.mem_singleton.mp hi
          exact hk
  | types | declared | function | initializer | rendered => exact hw.mono hkeeps

theorem Change.table (h : w.Change w') : w.table <+: w'.table := by
  cases h with
  | adopted => exact List.prefix_append _ _
  | types | declared | function | initializer | rendered => exact List.prefix_rfl

namespace Leads

theorem keeps (h : w.Leads w') : w.module.Keeps w'.module := by
  induction h with
  | refl => exact .refl _
  | tail _ hstep ih => exact ih.trans hstep.keeps

theorem isNamed (h : w.Leads w') (hw : w.module.IsNamed) : w'.module.IsNamed := by
  induction h with
  | refl => exact hw
  | tail _ hstep ih => exact hstep.isNamed ih

theorem lists (h : w.Leads w') (hw : w.module.Lists w.table) : w'.module.Lists w'.table := by
  induction h with
  | refl => exact hw
  | tail _ hstep ih => exact hstep.lists ih

theorem table (h : w.Leads w') : w.table <+: w'.table := by
  induction h with
  | refl => exact List.prefix_rfl
  | tail _ hstep ih => exact ih.trans hstep.table

end Leads

end Workbench

end Ssa

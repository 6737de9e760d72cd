/-
# `Ssa.Proofs.Session.Names` — the symbols of a module as a map from names

The names of a module's functions and global variables are one space.  At every moment of the life of
a module, a name that is taken is refused to further symbols, and a name leads to the one function
that has it, of the type that it was declared with, by whatever way it was declared.  Looking up and
listing leave the module as it is; its table goes on to hold each function at most once, so equal
handles are those that denote one function.

**Proved here.**

    a name is taken  ⟺  a function or a variable has it        (`isSome_index?_iff`)
    all of this, at every moment                                  (`nameMap_after`)
-/
import Ssa.Proofs.Session.Handles

namespace Ssa

/-! ## Names of a module -/

namespace Module

variable {m : Module} {n : String}

/-- A name names a function. -/
def NamesFunction (m : Module) (n : String) : Prop := ∃ k f, m.function? k = some f ∧ f.name = n

/-- A name names a global variable. -/
def NamesVariable (m : Module) (n : String) : Prop := ∃ k v, m.variableAt? k = some v ∧ v.name = n

/-- A name is taken exactly if it names a function or a global variable. -/
theorem isSome_index?_iff : (m.index? n).isSome = true ↔ m.NamesFunction n ∨ m.NamesVariable n := by
  constructor
  · intro h
    obtain ⟨k, hk⟩ := Option.isSome_iff_exists.mp h
    obtain ⟨s, hs, rfl⟩ := symbol_of_index? hk
    cases s with
    | «variable» v => exact .inr ⟨k, v, by rw [variableAt?, hs], rfl⟩
    | function f => exact .inl ⟨k, f, by rw [function?, hs], rfl⟩
  · intro h
    cases hi : m.index? n with
    | some i => rfl
    | none =>
        have hnot := index?_eq_none_iff.mp hi
        rcases h with ⟨k, f, hf, hname⟩ | ⟨k, v, hv, hname⟩
        · exact absurd hname (hnot k _ (symbol_of_function? hf))
        · exact absurd hname (hnot k _ (symbol_of_variableAt? hv))

theorem index?_eq_none_of_not_named (h : ¬ (m.NamesFunction n ∨ m.NamesVariable n)) :
    m.index? n = none := by
  cases hi : m.index? n with
  | none => rfl
  | some i => exact absurd (isSome_index?_iff.mp (by simp [hi])) h

/-- A name has one kind: what names a variable names no function. -/
theorem IsNamed.not_namesFunction (h : m.IsNamed) (hv : m.NamesVariable n) :
    ¬ m.NamesFunction n := by
  rintro ⟨k, f, hf, hname⟩
  obtain ⟨k', v, hv, hname'⟩ := hv
  have hsymbol := symbol_of_function? hf
  have hsymbol' := symbol_of_variableAt? hv
  cases h k k' _ _ hsymbol hsymbol' (hname.trans hname'.symm)
  cases hsymbol.symm.trans hsymbol'

theorem IsNamed.function_unique (h : m.IsNamed) {k k' : Nat} {f f' : Function}
    (hf : m.function? k = some f) (hf' : m.function? k' = some f') (hname : f.name = f'.name) :
    k = k' := h k k' _ _ (symbol_of_function? hf) (symbol_of_function? hf') hname

theorem mem_functionIndices {k : Nat} : k ∈ m.functionIndices ↔ (m.function? k).isSome = true := by
  rw [functionIndices, List.mem_filter, List.mem_range]
  refine ⟨fun h => h.2, fun h => ⟨?_, h⟩⟩
  obtain ⟨f, hf⟩ := Option.isSome_iff_exists.mp h
  exact (Array.getElem?_eq_some_iff.mp (symbol_of_function? hf)).1

end Module

namespace Session

variable {s s' : Session} {m k : Nat} {r : ModuleRecord} {f : Function} {name : String}

/-! ## What a map from names is -/

/-- A handle to a function of a module is given out, and the module is as it was but for its table,
which was only added to. -/
structure HandsOut (s' : Session) (m : Nat) (r : ModuleRecord) (h : Handle) (k : Nat)
    (f : Function) : Prop where
  leads : s'.LeadsTo h m k f
  member : h.moduleId? = some m
  kept : ∃ table, r.table <+: table ∧ s'.module? m = some { r with table }

/-- The symbols of a live module are a map from names. -/
structure NameMap (s : Session) (m : Nat) (r : ModuleRecord) : Prop where
  /-- A name has one function. -/
  one : ∀ k k' f f', r.module.function? k = some f → r.module.function? k' = some f' →
    f.name = f'.name → k = k'
  /-- Functions and variables share one space of names. -/
  apart : ∀ name, r.module.NamesVariable name → ¬ r.module.NamesFunction name
  /-- A name that is taken is refused to a function, and nothing changes. -/
  addFunction_taken : ∀ name type, r.module.NamesFunction name ∨ r.module.NamesVariable name →
    (addFunction m name type).on s = (.error (.duplicateSymbol name r.name), s)
  addFunction_free : ∀ name type, ¬ (r.module.NamesFunction name ∨ r.module.NamesVariable name) →
    ∀ n m', ((addFunction m name type).on s).1 ≠ .error (.duplicateSymbol n m')
  /-- A function of a free name is declared, with its type. -/
  addFunction_new : ∀ name result params variadic, name ≠ "" →
    ¬ (r.module.NamesFunction name ∨ r.module.NamesVariable name) →
    ∃ h s' k f, (addFunction m name (.function result params variadic)).on s = (.ok h, s') ∧
      s'.LeadsTo h m k f ∧ f.name = name ∧ f.type = .function result params variadic
  /-- So is one that is declared without the table, and its name leads to it from then on. -/
  declareOutside_new : ∀ name result params variadic, name ≠ "" →
    ¬ (r.module.NamesFunction name ∨ r.module.NamesVariable name) →
    ∃ s₁ h s₂ k f,
      (declareOutside m name (.function result params variadic)).on s = (.ok (.bare m k), s₁) ∧
      (lookup m name).on s₁ = (.ok (some h), s₂) ∧
      s₂.LeadsTo h m k f ∧ f.name = name ∧ f.type = .function result params variadic
  /-- A name that is taken is refused to a global variable, and nothing changes. -/
  addGlobal_taken : ∀ name type, r.module.NamesFunction name ∨ r.module.NamesVariable name →
    (addGlobal m name type).on s = (.error (.duplicateSymbol name r.name), s)
  addGlobal_free : ∀ name type, ¬ (r.module.NamesFunction name ∨ r.module.NamesVariable name) →
    ∀ n m', ((addGlobal m name type).on s).1 ≠ .error (.duplicateSymbol n m')
  /-- A name that names no function leads to none, also if it names a variable. -/
  lookup_none : ∀ name, ¬ r.module.NamesFunction name → (lookup m name).on s = (.ok none, s)
  /-- A name of a function leads to it. -/
  lookup_some : ∀ k f, r.module.function? k = some f →
    ∃ h s', (lookup m f.name).on s = (.ok (some h), s') ∧ s'.HandsOut m r h k f
  /-- It goes on to do so, to a function of the type that this one has, however the session goes on
  while the module is live. -/
  lookup_later : ∀ k f, r.module.function? k = some f →
    ∀ later, (s.after later).isLive m = true → ∃ h s' f',
      (lookup m f.name).on (s.after later) = (.ok (some h), s') ∧ s'.LeadsTo h m k f' ∧
        f'.name = f.name ∧ f'.type = f.type
  /-- A function that there is, is given as it is, whatever type is asked for. -/
  getOrDeclare_found : ∀ k f type, r.module.function? k = some f →
    ∃ h s', (getOrDeclare m f.name type).on s = (.ok h, s') ∧ s'.HandsOut m r h k f
  getOrDeclare_variable : ∀ name type, r.module.NamesVariable name →
    (getOrDeclare m name type).on s = (.error (.duplicateSymbol name r.name), s)
  /-- Where there is none, it is declared. -/
  getOrDeclare_missing : ∀ name type, ¬ r.module.NamesFunction name →
    (getOrDeclare m name type).on s = (addFunction m name type).on s
  /-- Every function is listed once, and nothing else. -/
  functions_once : ∃ handles s', (functions m).on s = (.ok handles, s') ∧ handles.Nodup ∧
    (∀ h ∈ handles, ∃ k f, r.module.function? k = some f ∧ s'.HandsOut m r h k f) ∧
    ∀ k f, r.module.function? k = some f → ∃ h ∈ handles, s'.HandsOut m r h k f
  /-- Handles are equal exactly if they denote one function. -/
  equal : ∀ h h' k k' f f', h.moduleId? = some m → h'.moduleId? = some m →
    s.LeadsTo h m k f → s.LeadsTo h' m k' f' → (h = h' ↔ k = k')

/-! ## Its parts -/

theorem functionIndex?_of_function? (hs : s.IsSound) (hr : s.module? m = some r)
    (hf : r.module.function? k = some f) : r.module.functionIndex? f.name = some k :=
  (hs.named r (hs.module?_iff.mp hr).1).functionIndex?_eq_some_iff.mpr ⟨f, hf, rfl⟩

theorem functionIndex?_of_not_named (hs : s.IsSound) (hr : s.module? m = some r)
    (h : ¬ r.module.NamesFunction name) : r.module.functionIndex? name = none :=
  (hs.named r (hs.module?_iff.mp hr).1).functionIndex?_eq_none_iff.mpr
    fun k f hf hname => h ⟨k, f, hf, hname⟩

/-- What is left of a session in which only a table was added to. -/
theorem handsOut_withTable (hr : s.module? m = some r) (hlive : s.isLive m = true)
    {table : List Nat} {i : Nat} {log : List Event}
    (hs' : s'.IsSound) (heq : s' = { s.withTable m table with log }) (hadded : r.table <+: table)
    (hi : table[i]? = some k) (hf : r.module.function? k = some f) :
    s'.HandsOut m r (.member m i) k f := by
  have hr' : s'.module? m = some { r with table } := heq ▸ module?_withTable hr table
  have hlive' : s'.isLive m = true := heq ▸ hlive
  exact ⟨leadsTo_member hs' hr' hlive' hi hf, rfl, table, hadded, hr'⟩

theorem lookup_handsOut (hs : s.IsSound) (hr : s.module? m = some r) (hlive : s.isLive m = true)
    (hf : r.module.function? k = some f) :
    ∃ h s', (lookup m f.name).on s = (.ok (some h), s') ∧ s'.HandsOut m r h k f := by
  have hon := lookup_on_some hs hr hlive (functionIndex?_of_function? hs hr hf)
  have hs' := isSound_of_goes (lookup_goes hs f.name) hon
  exact ⟨_, _, hon, handsOut_withTable hr hlive hs' rfl (prefix_enlist _ _)
    (getElem?_idxOf_enlist _ _) hf⟩

theorem getOrDeclare_handsOut (hs : s.IsSound) (hr : s.module? m = some r)
    (hlive : s.isLive m = true) (type : Ty) (hf : r.module.function? k = some f) :
    ∃ h s', (getOrDeclare m f.name type).on s = (.ok h, s') ∧ s'.HandsOut m r h k f := by
  obtain ⟨log, hon⟩ :=
    getOrDeclare_found hs hr hlive (functionIndex?_of_function? hs hr hf) hf type
  have hs' := isSound_of_goes (getOrDeclare_goes hs f.name type) hon
  exact ⟨_, _, hon, handsOut_withTable hr hlive hs' rfl (prefix_enlist _ _)
    (getElem?_idxOf_enlist _ _) hf⟩

theorem functions_handOut (hs : s.IsSound) (hr : s.module? m = some r) (hlive : s.isLive m = true) :
    ∃ handles s', (functions m).on s = (.ok handles, s') ∧ handles.Nodup ∧
    (∀ h ∈ handles, ∃ k f, r.module.function? k = some f ∧ s'.HandsOut m r h k f) ∧
    ∀ k f, r.module.function? k = some f → ∃ h ∈ handles, s'.HandsOut m r h k f := by
  have hon := functions_on hs hr hlive
  have hs' := isSound_of_goes (functions_goes hs) hon
  have hout {i k : Nat} {f : Function}
      (hi : (r.module.functionIndices.foldl enlist r.table)[i]? = some k)
      (hf : r.module.function? k = some f) :=
    handsOut_withTable hr hlive hs' rfl (prefix_foldl_enlist _) hi hf
  refine ⟨_, _, hon, ?_, fun h hmem => ?_, fun k f hf => ?_⟩
  · exact List.nodup_range.map fun i j heq => by cases heq; rfl
  · obtain ⟨i, hi, rfl⟩ := List.mem_map.mp hmem
    have hplace := List.getElem?_eq_getElem (List.mem_range.mp hi)
    obtain ⟨f, hf⟩ := function?_of_table hs' (module?_withTable hr _) hplace
    exact ⟨_, f, hf, hout hplace hf⟩
  · have hmem : k ∈ r.module.functionIndices.foldl enlist r.table :=
      (mem_foldl_enlist _).mpr (.inr (Module.mem_functionIndices.mpr (by simp [hf])))
    obtain ⟨i, hi, hplace⟩ := List.getElem_of_mem hmem
    exact ⟨.member m i, List.mem_map.mpr ⟨i, List.mem_range.mpr hi, rfl⟩,
      hout (List.getElem?_eq_some_iff.mpr ⟨hi, hplace⟩) hf⟩

theorem lookup_of_declareOutside (hs : s.IsSound) (hr : s.module? m = some r)
    (hlive : s.isLive m = true) (hindex : r.module.index? name = none) (hname : name ≠ "")
    (result : Ty) (params : List Ty) (variadic : Bool) :
    ∃ s₁ h s₂ k f,
      (declareOutside m name (.function result params variadic)).on s = (.ok (.bare m k), s₁) ∧
      (lookup m name).on s₁ = (.ok (some h), s₂) ∧
      s₂.LeadsTo h m k f ∧ f.name = name ∧ f.type = .function result params variadic := by
  have hon := Session.declareOutside_new hs hr hlive hindex hname result params variadic
  have hs₁ := isSound_of_goes (declareOutside_goes hs name _) hon
  have hsame := Function.declare_name_type name result params variadic
  obtain ⟨h, s₂, hlookup, hout⟩ := lookup_handsOut hs₁
    (module?_changeModule_of_id (fun _ => rfl) hr) hlive (Module.function?_withSymbol r.module _)
  rw [hsame.1] at hlookup
  exact ⟨_, h, s₂, _, _, hon, hlookup, hout.leads, hsame⟩

/-- A name leads on to the function that it leads to. -/
theorem lookup_after (hs : s.IsSound) (hr : s.module? m = some r)
    (hf : r.module.function? k = some f) {later : List Request}
    (hlive : (s.after later).isLive m = true) : ∃ h s' f',
      (lookup m f.name).on (s.after later) = (.ok (some h), s') ∧ s'.LeadsTo h m k f' ∧
        f'.name = f.name ∧ f'.type = f.type := by
  obtain ⟨r', hr', -, hkeeps, -⟩ := (after_grows hs later).module m r hr
  obtain ⟨f', hf', hname, htype⟩ := hkeeps.function hf
  obtain ⟨h, s', hon, hout⟩ := lookup_handsOut (after_isSound hs later) hr' hlive hf'
  exact ⟨h, s', f', hname ▸ hon, hout.leads, hname, htype⟩

/-- Handles that a module gave out are equal exactly if they denote one function. -/
theorem handle_eq_iff (hs : s.IsSound) (hr : s.module? m = some r) (hlive : s.isLive m = true)
    {h h' : Handle} {k k' : Nat} {f f' : Function} (hm : h.moduleId? = some m)
    (hm' : h'.moduleId? = some m) (hleads : s.LeadsTo h m k f) (hleads' : s.LeadsTo h' m k' f') :
    h = h' ↔ k = k' := by
  constructor
  · rintro rfl
    cases hleads.followed.symm.trans hleads'.followed
    rfl
  · rintro rfl
    -- both are places of the table at which the one function stands
    have hplace (h : Handle) (f : Function) (hm : h.moduleId? = some m) (hl : s.LeadsTo h m k f) :
        ∃ i, h = .member m i ∧ r.table[i]? = some k := by
      cases h with
      | bare m' k' => cases hm
      | member m' i =>
          cases hm
          refine ⟨i, rfl, ?_⟩
          have hon := hl.followed
          rw [resolve, Effect.on_bind_of_ok (hs.liveModule_on hr hlive)] at hon
          cases hi : r.table[i]? with
          | none => rw [hi] at hon; cases hon
          | some k' => rw [hi] at hon; cases hon; rfl
    obtain ⟨i, rfl, hi⟩ := hplace h f hm hleads
    obtain ⟨j, rfl, hj⟩ := hplace h' f' hm' hleads'
    have hnodup := (hs.listed r (hs.module?_iff.mp hr).1).nodup
    obtain ⟨hlt, -⟩ := List.getElem?_eq_some_iff.mp hi
    rw [(List.getElem?_inj hlt hnodup).mp (hi.trans hj.symm)]

/-- After every history, the symbols of a module that is live are a map from names. -/
theorem nameMap_after {s₀ : Session} (h₀ : s₀.IsInitial) {history : List Request}
    (hlive : (s₀.after history).isLive m = true) (hr : (s₀.after history).module? m = some r) :
    (s₀.after history).NameMap m r := by
  have hs := after_isSound h₀.isSound history
  have hnamed := hs.named r (hs.module?_iff.mp hr).1
  constructor
  case one => exact fun k k' f f' hf hf' => hnamed.function_unique hf hf'
  case apart => exact fun name => hnamed.not_namesFunction
  case addFunction_taken =>
    exact fun name type h =>
      Session.addFunction_taken hs hr hlive (Module.isSome_index?_iff.mpr h) type
  case addFunction_free =>
    exact fun name type h =>
      addFunction_not_taken hs hr hlive (Module.index?_eq_none_of_not_named h) type
  case addFunction_new =>
    intro name result params variadic hname h
    have hon := Session.addFunction_new hs hr hlive (Module.index?_eq_none_of_not_named h) hname
      result params variadic
    have hs₁ := isSound_of_goes (addFunction_goes hs name _) hon
    obtain ⟨k, f, hplaces, hsame⟩ := places_of_addFunction hs hon
    exact ⟨_, _, k, f, hon, hplaces.leadsTo hs₁, hsame⟩
  case declareOutside_new =>
    exact fun name result params variadic hname h =>
      lookup_of_declareOutside hs hr hlive (Module.index?_eq_none_of_not_named h) hname
        result params variadic
  case addGlobal_taken =>
    exact fun name type h =>
      Session.addGlobal_taken hs hr hlive (Module.isSome_index?_iff.mpr h) type
  case addGlobal_free =>
    exact fun name type h =>
      addGlobal_not_taken hs hr hlive (Module.index?_eq_none_of_not_named h) type
  case lookup_none =>
    exact fun name h => lookup_on_none hs hr hlive (functionIndex?_of_not_named hs hr h)
  case lookup_some => exact fun k f hf => lookup_handsOut hs hr hlive hf
  case lookup_later => exact fun k f hf later hlive' => lookup_after hs hr hf hlive'
  case getOrDeclare_found => exact fun k f type hf => getOrDeclare_handsOut hs hr hlive type hf
  case getOrDeclare_variable =>
    intro name type hv
    have hmissing := functionIndex?_of_not_named hs hr (hnamed.not_namesFunction hv)
    rw [Session.getOrDeclare_missing hs hr hlive hmissing]
    exact Session.addFunction_taken hs hr hlive (Module.isSome_index?_iff.mpr (.inr hv)) type
  case getOrDeclare_missing =>
    exact fun name type h =>
      Session.getOrDeclare_missing hs hr hlive (functionIndex?_of_not_named hs hr h) type
  case functions_once => exact functions_handOut hs hr hlive
  case equal => exact fun h h' k k' f f' hm hm' => handle_eq_iff hs hr hlive hm hm'

/-- The name of a global variable is refused to functions, and leads to none. -/
theorem nameMap_after_addGlobal :
    let s := (fresh .fresh).after [.createModule "m" none, .addGlobal 2 "g" (.int 8)]
    (addFunction 2 "g" (.function .void [] false)).on s = (.error (.duplicateSymbol "g" "m"), s) ∧
      (lookup 2 "g").on s = (.ok none, s) := by
  intro s
  obtain ⟨r, hr⟩ : ∃ r, s.module? 2 = some r := Option.isSome_iff_exists.mp (by decide +kernel)
  have hmap : s.NameMap 2 r := nameMap_after (fresh_isInitial .fresh) (by decide +kernel) hr
  have hname : r.name = "m" := by
    have : (s.module? 2).map ModuleRecord.name = some "m" := by decide +kernel
    simpa [hr] using this
  have hvariable : r.module.NamesVariable "g" := by
    have : ((s.module? 2).bind (·.module.variableAt? 0)).map (·.name) = some "g" := by
      decide +kernel
    exact ⟨0, by simpa [hr] using this⟩
  have htaken := hmap.addFunction_taken "g" (.function .void [] false) (.inr hvariable)
  rw [hname] at htaken
  exact ⟨htaken, hmap.lookup_none "g" (hmap.apart "g" hvariable)⟩

end Session

end Ssa

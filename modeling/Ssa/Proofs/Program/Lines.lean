/-
# `Ssa.Proofs.Program.Lines` — modules that differ in which lines are fixed

The line of a global variable is fixed when it is first written, and from then on the text gives the
initializer that was bound at that time.  So writing a module changes it, but not in what can be read
off it: two modules are alike if they have the same functions, and variables that are bound to the
same and written with the same.  Alike modules have one text, and writing a module leaves one that is
alike.

Alike modules may differ in their first symbols only, which are given by their names, and are the same
from there on.

**Proved here.**

    alike modules have the same text, or fail to have one for the same reason   (`Module.Alike.text_eq`)
    writing a module leaves a module that is alike                                (`Module.render_alike`)
    writing two alike modules leaves alike ones, and the same if there is a text  (`Module.Alike.render`, `Module.Alike.render_eq`)
-/
import Ssa.Proofs.Program.Drafted

namespace Ssa

/-! ## Alike symbols -/

/-- Two symbols differ at most in whether a line is fixed, and the line is the same. -/
def Symbol.Alike : Symbol → Symbol → Prop
  | .variable v, .variable w =>
    w.name = v.name ∧ w.type = v.type ∧ w.init = v.init ∧ w.textInit = v.textInit
  | .function f, .function g => g = f
  | _, _ => False

namespace Symbol.Alike

variable {s s' : Symbol}

theorem refl (s : Symbol) : s.Alike s := by
  cases s with
  | «variable» v => exact ⟨rfl, rfl, rfl, rfl⟩
  | function f => exact rfl

theorem name (h : s.Alike s') : s'.name = s.name := by
  rcases s with v | f <;> rcases s' with v' | f' <;> try contradiction
  · exact h.1
  · exact congrArg Function.name h

theorem type (h : s.Alike s') : s'.type = s.type := by
  rcases s with v | f <;> rcases s' with v' | f' <;> try contradiction
  · exact congrArg Ty.ref h.2.1
  · exact congrArg (fun f => f.type.ref) h

end Symbol.Alike

/-! ## Alike modules -/

/-- The names of the symbols of a module, in order. -/
def Module.names (m : Module) : List String := m.symbols.toList.map Symbol.name

/-- Two modules have alike symbols.  The first have the given names, and the others are the same. -/
structure Module.Alike (names : List String) (m m' : Module) : Prop where
  name : m'.name = m.name
  size : m'.symbols.size = m.symbols.size
  symbols : ∀ (i : Nat) (s s' : Symbol), m.symbols[i]? = some s → m'.symbols[i]? = some s' → s.Alike s'
  later : ∀ i : Nat, names.length ≤ i → m'.symbols[i]? = m.symbols[i]?
  first : names <+: m.names

namespace Module.Alike

variable {names : List String} {i : Nat} {m m' : Module} {types : TypeTable}

theorem refl (h : names <+: m.names) : m.Alike names m :=
  ⟨rfl, rfl, fun _ _ _ hs hs' => by cases hs.symm.trans hs'; exact .refl _, fun _ _ => rfl, h⟩

/-- At each position there is nothing in either module, or there are alike symbols in both. -/
theorem at_cases (h : m.Alike names m') (i : Nat) :
    (m.symbols[i]? = none ∧ m'.symbols[i]? = none) ∨
      ∃ s s' : Symbol, m.symbols[i]? = some s ∧ m'.symbols[i]? = some s' ∧ s.Alike s' := by
  by_cases hi : i < m.symbols.size
  · have hs := Array.getElem?_eq_getElem hi
    have hs' := Array.getElem?_eq_getElem (h.size ▸ hi : i < m'.symbols.size)
    exact .inr ⟨_, _, hs, hs', h.symbols i _ _ hs hs'⟩
  · exact .inl ⟨Array.getElem?_eq_none (by omega), Array.getElem?_eq_none (by have := h.size; omega)⟩

/-- What alike symbols agree in is the same at each position. -/
theorem map_eq {α : Type} {f : Symbol → α} (hf : ∀ s s' : Symbol, s.Alike s' → f s' = f s)
    (h : m.Alike names m') (i : Nat) : (m'.symbols[i]?).map f = (m.symbols[i]?).map f := by
  rcases h.at_cases i with ⟨hs, hs'⟩ | ⟨s, s', hs, hs', halike⟩
  · rw [hs, hs']
  · rw [hs, hs', Option.map_some, Option.map_some, hf s s' halike]

theorem function? (h : m.Alike names m') : m'.function? = m.function? := by
  funext i
  unfold Module.function?
  rcases h.at_cases i with ⟨hs, hs'⟩ | ⟨s, s', hs, hs', halike⟩
  · rw [hs, hs']
  · rw [hs, hs']
    rcases s with v | f <;> rcases s' with v' | f' <;> try contradiction
    · rfl
    · exact congrArg some halike

theorem index? (h : m.Alike names m') : m'.index? = m.index? := by
  funext name
  have hnames : m'.symbols.map Symbol.name = m.symbols.map Symbol.name := by
    refine Array.ext_getElem? fun i => ?_
    rw [Array.getElem?_map, Array.getElem?_map]
    exact h.map_eq (fun _ _ h => h.name) i
  have hfind (a : Module) :
      a.index? name = (a.symbols.map Symbol.name).findIdx? (· == name) := by
    rw [Array.findIdx?_map]
    rfl
  rw [hfind, hfind, hnames]

theorem operand? (h : m.Alike names m') : m'.operand? = m.operand? := by
  funext i
  exact h.map_eq (fun s s' h => by rw [h.type]) i

theorem functionIndex? (h : m.Alike names m') : m'.functionIndex? = m.functionIndex? := by
  funext name
  rw [Module.functionIndex?, Module.functionIndex?, h.index?, h.function?]

theorem functionIndices (h : m.Alike names m') : m'.functionIndices = m.functionIndices := by
  rw [Module.functionIndices, Module.functionIndices, h.size, h.function?]

/-- What is asked of all symbols, and answered alike for alike ones. -/
theorem all_eq {p p' : Symbol → Bool} (hp : ∀ s s' : Symbol, s.Alike s' → p' s' = p s) (h : m.Alike names m') :
    m'.symbols.all p' = m.symbols.all p := by
  rw [Bool.eq_iff_iff, Array.all_eq_true, Array.all_eq_true]
  have hat (i : Nat) (hi : i < m.symbols.size) (hi' : i < m'.symbols.size) :
      p' m'.symbols[i] = p m.symbols[i] :=
    hp _ _ (h.symbols i _ _ (Array.getElem?_eq_getElem hi) (Array.getElem?_eq_getElem hi'))
  exact ⟨fun hall i hi => (hat i hi (h.size ▸ hi)) ▸ hall i (h.size ▸ hi),
    fun hall i hi => (hat i (h.size ▸ hi) hi) ▸ hall i (h.size ▸ hi)⟩

/-! ## Texts -/

theorem reference_eq (h : m.Alike names m') : Operand.reference m' = Operand.reference m := by
  funext f o
  cases o with
  | global i t =>
      have hname := h.map_eq (f := Symbol.name) (fun _ _ h => h.name) i
      rw [Operand.reference, Operand.reference, hname]
  | _ => rfl

theorem typed_eq (h : m.Alike names m') : Operand.typed m' = Operand.typed m := by
  funext f o
  rw [Operand.typed, Operand.typed, h.reference_eq]

theorem typedList_eq (h : m.Alike names m') : typedList m' = typedList m := by
  funext f os
  rw [typedList, typedList, h.typed_eq]

theorem callText_eq (h : m.Alike names m') : callText m' = callText m := by
  funext f callee args
  rw [callText, callText, h.typedList_eq, h.reference_eq]

theorem opText_eq (h : m.Alike names m') : OpOver.render m' = OpOver.render m := by
  funext f t op
  unfold OpOver.render
  rw [h.typed_eq, h.reference_eq, h.typedList_eq, h.callText_eq]

theorem functionText_eq (h : m.Alike names m') (f : Function) : f.render m' = f.render m := by
  have hinstr : Instr.render m' = Instr.render m := by
    funext f i
    rw [Instr.render, Instr.render, h.opText_eq]
  have hblock : Block.render m' = Block.render m := by
    funext f b
    rw [Block.render, Block.render, hinstr]
  rw [Function.render, Function.render, hblock]

theorem variableText_eq (h : m.Alike names m') {v w : Variable}
    (hvw : (Symbol.variable v).Alike (.variable w)) : w.render m' = v.render m := by
  obtain ⟨hname, htype, -, htext⟩ := hvw
  have hinit : Variable.initText m' = Variable.initText m := by
    funext t o
    rw [Variable.initText, Variable.initText, h.reference_eq]
  rw [Variable.render, Variable.render, hname, htype, htext, hinit]

end Module.Alike

/-! ## Writing -/

/-- Writing a symbol fixes its line at what it would have been. -/
theorem Symbol.render_alike (m : Module) (s : Symbol) : s.Alike (s.render m).2 := by
  cases s with
  | «variable» v =>
      unfold Symbol.render
      dsimp only
      split
      · exact ⟨rfl, rfl, rfl, rfl⟩
      · exact .refl _
  | function f => exact .refl _

/-- Alike symbols have one text, and stay alike when it is written. -/
theorem Symbol.Alike.render {names : List String} {m m' : Module} {s s' : Symbol} (hm : m.Alike names m')
    (h : s.Alike s') : (s'.render m').1 = (s.render m).1 ∧ (s.render m).2.Alike (s'.render m').2 := by
  rcases s with v | f <;> rcases s' with w | g <;> try contradiction
  · have htext := hm.variableText_eq h
    obtain ⟨hname, htype, hinit, hline⟩ := h
    unfold Symbol.render
    dsimp only
    rw [htext]
    cases v.render m with
    | ok text => exact ⟨rfl, hname, htype, hinit, hline⟩
    | error e => exact ⟨rfl, hname, htype, hinit, hline⟩
  · cases (h : g = f)
    exact ⟨hm.functionText_eq f, rfl⟩

/-- A symbol is the same after writing, whether its line was fixed before or not. -/
theorem Symbol.Alike.render_eq {names : List String} {m m' : Module} {s s' : Symbol} (hm : m.Alike names m')
    (h : s.Alike s') {text : String} (htext : (s.render m).1 = .ok text) :
    (s'.render m').2 = (s.render m).2 := by
  rcases s with v | f <;> rcases s' with w | g <;> try contradiction
  · have heq := hm.variableText_eq h
    obtain ⟨hname, htype, hinit, hline⟩ := h
    unfold Symbol.render at htext ⊢
    dsimp only at htext ⊢
    rw [heq]
    cases hv : v.render m with
    | ok t =>
        obtain ⟨_, _, _, _⟩ := v
        obtain ⟨_, _, _, _⟩ := w
        cases hname; cases htype; cases hinit
        exact congrArg (fun line => Symbol.variable ⟨_, _, _, some line⟩) hline
    | error e => rw [hv] at htext; cases htext
  · exact congrArg Symbol.function h

theorem renderSymbols_alike {names : List String} {m m' : Module} (hm : m.Alike names m') {ss ss' : List Symbol}
    (h : List.Forall₂ Symbol.Alike ss ss') :
    (renderSymbols m' ss').1 = (renderSymbols m ss).1 ∧
      List.Forall₂ Symbol.Alike (renderSymbols m ss).2 (renderSymbols m' ss').2 := by
  induction h with
  | nil => exact ⟨rfl, .nil⟩
  | @cons s s' ss ss' hs hss ih =>
      obtain ⟨htext, halike⟩ := hs.render hm
      unfold renderSymbols
      rcases hr : s.render m with ⟨_ | text, t⟩ <;> rcases hr' : s'.render m' with ⟨_ | text', t'⟩ <;>
        rw [hr, hr'] at htext halike <;> cases htext
      · exact ⟨rfl, .cons halike hss⟩
      · exact ⟨congrArg (Except.map (text :: ·)) ih.1, .cons halike ih.2⟩

theorem renderSymbols_self (m : Module) (ss : List Symbol) :
    List.Forall₂ Symbol.Alike ss (renderSymbols m ss).2 := by
  induction ss with
  | nil => exact .nil
  | cons s ss ih =>
      have hs := Symbol.render_alike m s
      unfold renderSymbols
      rcases hr : s.render m with ⟨_ | text, t⟩ <;> rw [hr] at hs
      · exact .cons hs (List.forall₂_same.mpr fun _ _ => .refl _)
      · exact .cons hs ih

/-- What was the same before writing is the same after it. -/
theorem renderSymbols_later {names : List String} {i : Nat} {m m' : Module} (hm : m.Alike names m')
    {ss ss' : List Symbol} (h : List.Forall₂ Symbol.Alike ss ss') (hi : ss'[i]? = ss[i]?) :
    (renderSymbols m' ss').2[i]? = (renderSymbols m ss).2[i]? := by
  induction h generalizing i with
  | nil => rfl
  | @cons s s' ss ss' hs hss ih =>
      have htext := (hs.render hm).1
      have hsame : s' = s → s'.render m' = s.render m := by
        rintro rfl
        rcases s' with v | f
        · unfold Symbol.render
          dsimp only
          rw [hm.variableText_eq hs]
        · show (f.render m', Symbol.function f) = (f.render m, Symbol.function f)
          rw [hm.functionText_eq f]
      unfold renderSymbols
      cases i with
      | zero =>
          rw [hsame (Option.some.inj hi)]
          rcases s.render m with ⟨_ | text, t⟩
          · show some t = some t
            rfl
          · show some t = some t
            rfl
      | succ i =>
          rcases hr : s.render m with ⟨_ | text, t⟩ <;> rcases hr' : s'.render m' with ⟨_ | text', t'⟩ <;>
            rw [hr, hr'] at htext <;> cases htext
          · exact hi
          · exact ih hi

/-- If all symbols were written, then nothing is left in which they could differ. -/
theorem renderSymbols_eq {names : List String} {m m' : Module} (hm : m.Alike names m') {ss ss' : List Symbol}
    (h : List.Forall₂ Symbol.Alike ss ss') {texts : List String}
    (htexts : (renderSymbols m ss).1 = .ok texts) :
    (renderSymbols m' ss').2 = (renderSymbols m ss).2 := by
  induction h generalizing texts with
  | nil => rfl
  | @cons s s' ss ss' hs hss ih =>
      have htext := (hs.render hm).1
      unfold renderSymbols at htexts ⊢
      rcases hr : s.render m with ⟨_ | text, t⟩ <;> rcases hr' : s'.render m' with ⟨_ | text', t'⟩ <;>
        rw [hr, hr'] at htext <;> cases htext
      · rw [hr] at htexts
        cases htexts
      · rw [hr] at htexts
        obtain ⟨rest, hrest, -⟩ := ok_of_map htexts
        have hst := hs.render_eq hm (congrArg Prod.fst hr)
        rw [hr, hr'] at hst
        exact congrArg₂ List.cons hst (ih hrest)

namespace Module

variable {names : List String} {m m' : Module}

theorem Alike.forall₂ (h : m.Alike names m') :
    List.Forall₂ Symbol.Alike m.symbols.toList m'.symbols.toList := by
  refine List.forall₂_iff_get.mpr ⟨h.size.symm, fun i hi hi' => ?_⟩
  exact h.symbols i _ _ (Array.getElem?_eq_getElem hi) (Array.getElem?_eq_getElem hi')

theorem map_name_of_forall₂ {ss ss' : List Symbol} (h : List.Forall₂ Symbol.Alike ss ss') :
    ss.map Symbol.name = ss'.map Symbol.name := by
  induction h with
  | nil => rfl
  | cons hs _ ih => rw [List.map_cons, List.map_cons, hs.name, ih]

theorem alike_of_forall₂ {ss ss' : List Symbol} (h : List.Forall₂ Symbol.Alike ss ss')
    (hlater : ∀ i, names.length ≤ i → ss'[i]? = ss[i]?) (hfirst : names <+: ss.map Symbol.name)
    (name : String) : Alike names ⟨name, ss.toArray⟩ ⟨name, ss'.toArray⟩ := by
  obtain ⟨hlen, hget⟩ := List.forall₂_iff_get.mp h
  refine ⟨rfl, by simp [hlen], fun i s s' hs hs' => ?_, fun i hi => ?_, hfirst⟩
  · obtain ⟨hi, rfl⟩ := List.getElem?_eq_some_iff.mp (List.getElem?_toArray.symm.trans hs)
    obtain ⟨hi', rfl⟩ := List.getElem?_eq_some_iff.mp (List.getElem?_toArray.symm.trans hs')
    exact hget i hi hi'
  · rw [List.getElem?_toArray, List.getElem?_toArray]
    exact hlater i hi

/-- Alike modules have one text, or fail to have one for one reason. -/
theorem Alike.text_eq (h : m.Alike names m') (types : TypeTable) : m'.text types = m.text types := by
  have hheader : m'.header types = m.header types := by rw [header, header, h.name]
  show Except.map (fun ts => "\n".intercalate (m'.header types ++ ts)) _ = _
  rw [hheader, (renderSymbols_alike h h.forall₂).1]
  rfl

/-- Writing a module leaves one that is alike. -/
theorem render_alike (types : TypeTable) (m : Module) :
    m.Alike m.names (m.render types).2 := by
  have hall := renderSymbols_self m m.symbols.toList
  refine alike_of_forall₂ hall (fun i hi => ?_) (List.prefix_refl _) m.name
  have hsize : m.symbols.toList.length ≤ i := by simpa [names] using hi
  rw [List.getElem?_eq_none hsize, List.getElem?_eq_none (hall.length_eq ▸ hsize)]

/-- Writing alike modules leaves alike ones. -/
theorem Alike.render (h : m.Alike names m') (types : TypeTable) :
    (m.render types).2.Alike names (m'.render types).2 := by
  have hname := h.name
  have hnames : (renderSymbols m m.symbols.toList).2.map Symbol.name = m.names :=
    (map_name_of_forall₂ (renderSymbols_self m m.symbols.toList)).symm
  obtain ⟨name', symbols'⟩ := m'
  cases hname
  refine alike_of_forall₂ (renderSymbols_alike h h.forall₂).2 (fun i hi => ?_) (hnames ▸ h.first) _
  refine renderSymbols_later h h.forall₂ ?_
  rw [Array.getElem?_toList, Array.getElem?_toList]
  exact h.later i hi

/-- If there is a text, then writing leaves nothing in which alike modules could differ. -/
theorem Alike.render_eq (h : m.Alike names m') {types : TypeTable} {text : String}
    (htext : m.text types = .ok text) : (m'.render types).2 = (m.render types).2 := by
  obtain ⟨texts, htexts, -⟩ := ok_of_map htext
  have hname := h.name
  obtain ⟨name', symbols'⟩ := m'
  cases hname
  exact congrArg (fun ss => Module.mk m.name ss.toArray) (renderSymbols_eq h h.forall₂ htexts)

end Module

end Ssa

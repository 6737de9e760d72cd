/-
# `Ssa.Proofs.Session.Handles` — a handle leads to its function, or nowhere

A handle that a module gave out is a place in the module's table.  Tables are only added to, symbols
keep their places, and numbers are never given twice.  So whatever is done later, the handle leads to
the function that it was given out for, as long as its module has not been released, and from then on
every use of it is refused.

**Proved here.**

    what following a handle comes to                            (`leadsTo_member`, `isStale_member`)
    a handle that was given out leads to a function              (`Gives.member`)
    from then on it leads there, or it is stale                   (`leadsTo_or_isStale`)
-/
import Ssa.Proofs.Session.Request
import Ssa.Proofs.Session.Symbols

namespace Ssa.Session

open Effect (Meets)

/-! ## Refusals -/

section Gone

variable {s : Session} {id : Nat}

/-- What is asked for under a number that leads nowhere is refused, with its kind and its number. -/
theorem require_on_gone (k : Kind) (h : s.isLive id = false) :
    (require k id).on s = (.error (.disposed k.word (toString id)), s) := by
  have hget : s.registry.get id k.word = .error (.disposed k.word (toString id)) :=
    Registry.get_of_not_live h
  rw [require, Effect.on_bind_of_ok (Effect.on_get s), hget]
  rfl

theorem liveModule_on_gone (h : s.isLive id = false) :
    (liveModule id).on s = (.error (.disposed Kind.module.word (toString id)), s) :=
  Effect.on_bind_of_error (require_on_gone .module h)

end Gone

/-! ## Following a handle -/

/-- The answer of a function to a question. -/
def Access.answer (f : Function) : (a : Access) → Except Failure a.Answer
  | name => .ok f.name
  | blocks => .ok (f.blocks.toList.map Block.name)
  | parameterCount => .ok f.params.length
  | signature => .ok f.type
  | returnType => .ok f.result
  | parameterTypes => .ok f.params
  | isVariadic => .ok f.variadic
  | isDeclaration => .ok f.isDeclaration
  | parameter index =>
    if index < 0 then .error (.parameterIndex index f.name f.params.length)
    else
      match f.params[index.toNat]? with
      | some t => .ok (f.localName index.toNat, t)
      | none => .error (.parameterIndex index f.name f.params.length)

/-- A handle leads to a function: the one at a position of a module.  Questions are answered by that
function, and what is done through the handle is done to it. -/
structure LeadsTo (s : Session) (h : Handle) (m k : Nat) (f : Function) : Prop where
  found : ∃ r, s.module? m = some r ∧ r.module.function? k = some f
  followed : (resolve h).on s = (.ok (m, k), s)
  module : (moduleOf h).on s = (.ok (some m), s)
  bare : (toBare h).on s = (.ok (.bare m k), s)
  asked : ∀ a : Access, (a.ask h).on s = (a.answer f, s)
  extended : ∀ label, (appendBlock h label).on s = (appendBlock (.bare m k) label).on s
  built : ∀ blocks, (buildBody h blocks).on s = (buildBody (.bare m k) blocks).on s
  run : (position m (.handle h)).on s = (.ok k, s)

/-- A handle is stale: whatever it is used for is refused, since its module is gone, and changes
nothing. -/
structure IsStale (s : Session) (h : Handle) (m : Nat) : Prop where
  followed : (resolve h).on s = (.error (.disposed Kind.module.word (toString m)), s)
  module : (moduleOf h).on s = (.error (.disposed Kind.module.word (toString m)), s)
  bare : (toBare h).on s = (.error (.disposed Kind.module.word (toString m)), s)
  asked : ∀ a : Access, (a.ask h).on s = (.error (.disposed Kind.module.word (toString m)), s)
  extended : ∀ label,
    (appendBlock h label).on s = (.error (.disposed Kind.module.word (toString m)), s)
  built : ∀ blocks,
    (buildBody h blocks).on s = (.error (.disposed Kind.module.word (toString m)), s)

variable {s s₁ : Session} {m i k : Nat} {r : ModuleRecord} {f : Function} {h : Handle}

/-- A question that goes by the function alone is answered by it. -/
theorem ask_of_functionOf (hon : (functionOf h).on s = (.ok f, s))
    (hsigned : (signedFunction h).on s = (.ok f, s)) (a : Access) :
    (a.ask h).on s = (a.answer f, s) := by
  cases a with
  | name | blocks | parameterCount | isDeclaration => exact Effect.on_bind_of_ok hon
  | signature | returnType | parameterTypes | isVariadic => exact Effect.on_bind_of_ok hsigned
  | parameter index =>
      refine (Effect.on_bind_of_ok hon).trans ?_
      dsimp only
      rw [Access.answer]
      split
      · rfl
      · cases f.params[index.toNat]? <;> rfl

theorem leadsTo_member (hs : s.IsSound) (hr : s.module? m = some r) (hlive : s.isLive m = true)
    (hi : r.table[i]? = some k) (hf : r.module.function? k = some f) :
    s.LeadsTo (.member m i) m k f where
  found := ⟨r, hr, hf⟩
  followed := resolve_on hs hr hlive hi
  module := Effect.on_bind_of_ok (hs.require_on (mem_ids_of_module? hr).1 hlive)
  bare := Effect.on_bind_of_ok (resolve_on hs hr hlive hi)
  asked := ask_of_functionOf (functionOf_on hs hr hlive hi hf) (signedFunction_on hs hr hlive hi hf)
  extended label := by
    rw [appendBlock, Effect.on_bind_of_ok (resolve_on hs hr hlive hi)]
    rfl
  built blocks := by
    rw [buildBody, Effect.on_bind_of_ok (resolve_on hs hr hlive hi)]
    rfl
  run := by
    rw [position, if_pos rfl]
    exact Effect.on_bind_of_ok (resolve_on hs hr hlive hi)

theorem isStale_member (hdead : s.isLive m = false) (i : Nat) : s.IsStale (.member m i) m := by
  have hresolve : (resolve (.member m i)).on s =
      (.error (.disposed Kind.module.word (toString m)), s) :=
    Effect.on_bind_of_error (liveModule_on_gone hdead)
  have hfunction : (functionOf (.member m i)).on s =
      (.error (.disposed Kind.module.word (toString m)), s) := Effect.on_bind_of_error hresolve
  have hsigned : (signedFunction (.member m i)).on s =
      (.error (.disposed Kind.module.word (toString m)), s) := Effect.on_bind_of_error hfunction
  refine ⟨hresolve, Effect.on_bind_of_error (require_on_gone .module hdead),
    Effect.on_bind_of_error hresolve, fun a => ?_, fun _ => Effect.on_bind_of_error hresolve,
    fun _ => Effect.on_bind_of_error hresolve⟩
  cases a with
  | name | blocks | parameterCount | isDeclaration | parameter =>
      exact Effect.on_bind_of_error hfunction
  | signature | returnType | parameterTypes | isVariadic => exact Effect.on_bind_of_error hsigned

/-! ## Handles that are given out -/

/-- A module gives out a handle: to a function that was declared, found, or found or declared under
a name, or to one of those that were listed. -/
inductive Gives (s : Session) (m : Nat) (h : Handle) : Option String → Session → Prop
  | declared {name : String} {type : Ty} {s' : Session} :
      (addFunction m name type).on s = (.ok h, s') → Gives s m h (some name) s'
  | found {name : String} {s' : Session} :
      (lookup m name).on s = (.ok (some h), s') → Gives s m h (some name) s'
  | foundOrDeclared {name : String} {type : Ty} {s' : Session} :
      (getOrDeclare m name type).on s = (.ok h, s') → Gives s m h (some name) s'
  | listed {handles : List Handle} {s' : Session} :
      (functions m).on s = (.ok handles, s') → h ∈ handles → Gives s m h none s'

/-- What a step that begins with a live module gave something for is live, and there is a record of
it. -/
theorem live_of_ok {α : Type} {next : ModuleRecord → Act α} (hs : s.IsSound) {a : α}
    (hon : (liveModule m >>= next).on s = (.ok a, s₁)) :
    ∃ r, s.module? m = some r ∧ s.isLive m = true := by
  have hmeets : Meets (keeping fun _ => False) (liveModule m) s _ _ := liveModule_meets hs
  obtain ⟨r, s₂, hr, -⟩ := Effect.on_bind_ok hon
  obtain ⟨-, hrecord, hlive⟩ := hmeets.ok r s₂ hr
  exact ⟨r, hrecord, hlive⟩

/-- A handle leads to the function at a place of the table of a live module. -/
def Places (s : Session) (m : Nat) (h : Handle) (k : Nat) (f : Function) : Prop :=
  ∃ i r, h = .member m i ∧ s.isLive m = true ∧ s.module? m = some r ∧ r.table[i]? = some k ∧
    r.module.function? k = some f

theorem Places.leadsTo (hs : s.IsSound) (h' : s.Places m h k f) : s.LeadsTo h m k f := by
  obtain ⟨i, r, rfl, hlive, hr, hi, hf⟩ := h'
  exact leadsTo_member hs hr hlive hi hf

/-- The table lists functions only. -/
theorem function?_of_table (hs : s.IsSound) (hr : s.module? m = some r) (hi : r.table[i]? = some k) :
    ∃ f, r.module.function? k = some f :=
  Option.isSome_iff_exists.mp
    ((hs.listed r (hs.module?_iff.mp hr).1).functions k (List.mem_of_getElem? hi))

theorem places_of_addFunction (hs : s.IsSound) {name : String} {type : Ty}
    (hon : (addFunction m name type).on s = (.ok h, s₁)) :
    ∃ k f, s₁.Places m h k f ∧ f.name = name ∧ f.type = type := by
  obtain ⟨r, hr, hlive⟩ := live_of_ok hs hon
  obtain ⟨hindex, hname, result, params, variadic, rfl⟩ := addFunction_ok hs hr hlive hon
  have hnew := addFunction_new hs hr hlive hindex hname result params variadic
  cases hnew.symm.trans hon
  exact ⟨r.module.symbols.size, .declare name result params variadic,
    ⟨r.table.length, _, rfl, hlive, module?_changeModule_of_id (fun _ => rfl) hr, by simp,
      Module.function?_withSymbol _ _⟩, Function.declare_name_type _ _ _ _⟩

theorem places_of_lookup (hs : s.IsSound) {name : String}
    (hon : (lookup m name).on s = (.ok (some h), s₁)) :
    ∃ k f, s₁.Places m h k f ∧ f.name = name := by
  obtain ⟨r, hr, hlive⟩ := live_of_ok hs hon
  cases hindex : r.module.functionIndex? name with
  | none => nomatch (lookup_on_none hs hr hlive hindex).symm.trans hon
  | some k =>
      cases (lookup_on_some hs hr hlive hindex).symm.trans hon
      have hnamed := hs.named r (hs.module?_iff.mp hr).1
      obtain ⟨f, hf, hname⟩ := hnamed.functionIndex?_eq_some_iff.mp hindex
      exact ⟨k, f, ⟨_, _, rfl, hlive, module?_withTable hr _, getElem?_idxOf_enlist _ _, hf⟩, hname⟩

theorem places_of_functions (hs : s.IsSound) {handles : List Handle}
    (hon : (functions m).on s = (.ok handles, s₁)) (hmem : h ∈ handles) :
    ∃ k f, s₁.Places m h k f := by
  have hs₁ := isSound_of_goes (functions_goes hs) hon
  obtain ⟨r, hr, hlive⟩ := live_of_ok hs hon
  cases (functions_on hs hr hlive).symm.trans hon
  obtain ⟨i, hi, rfl⟩ := List.mem_map.mp hmem
  have hr₁ := module?_withTable hr (r.module.functionIndices.foldl enlist r.table)
  have hplace := List.getElem?_eq_getElem (List.mem_range.mp hi)
  obtain ⟨f, hf⟩ := function?_of_table hs₁ hr₁ hplace
  exact ⟨_, f, i, _, rfl, hlive, hr₁, hplace, hf⟩

/-- What is given out leads to a function of the module, and to the one of the name that was
given. -/
theorem Gives.places {name? : Option String} (hs : s.IsSound) (hgives : s.Gives m h name? s₁) :
    s₁.IsSound ∧ ∃ k f, s₁.Places m h k f ∧ ∀ name ∈ name?, f.name = name := by
  have hsame {f : Function} {name : String} (hf : f.name = name) : ∀ n ∈ some name, f.name = n :=
    fun n hn => hf.trans (Option.some.inj hn)
  cases hgives with
  | @declared name type _ hon =>
      obtain ⟨k, f, hplaces, hname, -⟩ := places_of_addFunction hs hon
      exact ⟨isSound_of_goes (addFunction_goes hs name type) hon, k, f, hplaces, hsame hname⟩
  | @found name _ hon =>
      obtain ⟨k, f, hplaces, hname⟩ := places_of_lookup hs hon
      exact ⟨isSound_of_goes (lookup_goes hs name) hon, k, f, hplaces, hsame hname⟩
  | @foundOrDeclared name type _ hon =>
      refine ⟨isSound_of_goes (getOrDeclare_goes hs name type) hon, ?_⟩
      obtain ⟨found, s₂, hlookup, -⟩ := Effect.on_bind_ok hon
      obtain ⟨r, hr, hlive⟩ := live_of_ok hs hlookup
      cases hindex : r.module.functionIndex? name with
      | none =>
          rw [getOrDeclare_missing hs hr hlive hindex] at hon
          obtain ⟨k, f, hplaces, hname, -⟩ := places_of_addFunction hs hon
          exact ⟨k, f, hplaces, hsame hname⟩
      | some k =>
          have hnamed := hs.named r (hs.module?_iff.mp hr).1
          obtain ⟨f, hf, hname⟩ := hnamed.functionIndex?_eq_some_iff.mp hindex
          obtain ⟨log, hfound⟩ := getOrDeclare_found hs hr hlive hindex hf type
          cases hfound.symm.trans hon
          exact ⟨k, f, ⟨_, _, rfl, hlive, module?_withTable hr _, getElem?_idxOf_enlist _ _, hf⟩,
            hsame hname⟩
  | listed hon hmem =>
      obtain ⟨k, f, hplaces⟩ := places_of_functions hs hon hmem
      exact ⟨isSound_of_goes (functions_goes hs) hon, k, f, hplaces, nofun⟩

/-! ## Handles at any later moment -/

/-- While its module is not released, a handle goes on to lead to the function that it led to, at its
position, under its name and of its type. -/
theorem Places.after (hs : s.IsSound) (hplaces : s.Places m h k f) (later : List Request) :
    (¬ s.Loses later m →
        ∃ f', (s.after later).Places m h k f' ∧ f'.name = f.name ∧ f'.type = f.type) ∧
      (s.Loses later m → (s.after later).IsStale h m) := by
  obtain ⟨i, r, rfl, hlive, hr, hi, hf⟩ := hplaces
  have hstill := isLive_after_iff hs (mem_ids_of_module? hr).1 hlive later
  constructor
  · intro hkept
    obtain ⟨r', hr', -, hkeeps, htable⟩ := (after_grows hs later).module m r hr
    obtain ⟨f', hf', hname, htype⟩ := hkeeps.function hf
    have hi' : r'.table[i]? = some k := by
      obtain ⟨rest, hrest⟩ := htable
      rw [← hrest, List.getElem?_append_left (List.getElem?_eq_some_iff.mp hi).1, hi]
    exact ⟨f', ⟨i, r', rfl, hstill.mpr hkept, hr', hi', hf'⟩, hname, htype⟩
  · intro hlost
    exact isStale_member (by simpa using mt hstill.mp (not_not_intro hlost)) i

/-- A handle that a module gave out after any history leads to a function of that module, the one of
the name that was given.  After whatever is done then, it leads to the same function, under the name
and of the type that this one has, unless the module was disposed of or collected meanwhile: in that
case, and only then, it is stale. -/
theorem leadsTo_or_isStale {s₀ : Session} (h₀ : s₀.IsInitial) {before : List Request}
    {name? : Option String} (hgives : (s₀.after before).Gives m h name? s₁) :
    ∃ k f, s₁.LeadsTo h m k f ∧ (∀ name ∈ name?, f.name = name) ∧ ∀ later,
      (¬ s₁.Loses later m →
        ∃ f', (s₁.after later).LeadsTo h m k f' ∧ f'.name = f.name ∧ f'.type = f.type) ∧
      (s₁.Loses later m → (s₁.after later).IsStale h m) := by
  obtain ⟨hs₁, k, f, hplaces, hname⟩ := hgives.places (after_isSound h₀.isSound before)
  refine ⟨k, f, hplaces.leadsTo hs₁, hname, fun later =>
    ⟨fun hkept => ?_, (hplaces.after hs₁ later).2⟩⟩
  obtain ⟨f', hplaces', hsame⟩ := (hplaces.after hs₁ later).1 hkept
  exact ⟨f', hplaces'.leadsTo (after_isSound hs₁ later), hsame⟩

/-- A module declares a function, another module declares one of the same name, and then the first
module is disposed of. -/
theorem leadsTo_or_isStale_declared :
    let s := (fresh .fresh).after [.createModule "m" none]
    let s₁ := ((addFunction 2 "f" (.function .void [] false)).on s).2
    let later := [.createModule "n" none, .addFunction 3 "f" (.function (.int 8) [] false)]
    ∃ k f, s₁.LeadsTo (.member 2 0) 2 k f ∧ f.name = "f" ∧
      (∃ f', (s₁.after later).LeadsTo (.member 2 0) 2 k f' ∧ f'.name = f.name ∧ f'.type = f.type) ∧
      (s₁.after (later ++ [.dispose .module 2])).IsStale (.member 2 0) 2 := by
  intro s s₁ later
  have hgives : s.Gives 2 (.member 2 0) (some "f") s₁ := .declared (Prod.ext (by decide +kernel) rfl)
  have hkept : ¬ s₁.Loses later 2 := by simp [later, Loses, Request.Releases]
  have hlost : s₁.Loses (later ++ [.dispose .module 2]) 2 :=
    .inr (.inr (.inl ⟨rfl, by decide +kernel⟩))
  obtain ⟨k, f, hleads, hname, hlater⟩ := leadsTo_or_isStale (fresh_isInitial .fresh) hgives
  exact ⟨k, f, hleads, hname "f" rfl, (hlater _).1 hkept, (hlater _).2 hlost⟩

end Ssa.Session

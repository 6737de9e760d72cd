/-
# `Ssa.Proofs.Session.Symbols` — what declaring and looking up come to

On a sound session, where a module is live, each operation on its symbols is said in full: what it
gives, and the session that it leaves.  Looking up changes no module, it only enters the function
that it finds into the table, at the end and once.

**Proved here.**

    looking up and listing                 (`lookup_on_none`, `lookup_on_some`, `functions_on`)
    declaring a function, or a variable     (`addFunction_taken`, `addFunction_new`, `addGlobal_taken`, …)
    both in one                             (`getOrDeclare_found`, `getOrDeclare_missing`)
-/
import Ssa.Proofs.Session.Steps

namespace Ssa

/-! ## Tables -/

/-- A table with a function entered into it, unless it is there already. -/
def enlist (table : List Nat) (k : Nat) : List Nat :=
  if table.contains k then table else table ++ [k]

section Enlist

variable {table : List Nat} {k i : Nat}

theorem mem_enlist : i ∈ enlist table k ↔ i ∈ table ∨ i = k := by
  unfold enlist
  split
  · rename_i h
    have hk : k ∈ table := by simpa using h
    exact ⟨.inl, fun h => h.elim id fun heq => heq ▸ hk⟩
  · simp

theorem prefix_enlist (table : List Nat) (k : Nat) : table <+: enlist table k := by
  unfold enlist
  split
  · exact List.prefix_rfl
  · exact List.prefix_append _ _

/-- What is entered into a table stands at its place there. -/
theorem getElem?_idxOf_enlist (table : List Nat) (k : Nat) :
    (enlist table k)[(enlist table k).idxOf k]? = some k := by
  have hlt := List.idxOf_lt_length_of_mem (mem_enlist.mpr (.inr rfl) : k ∈ enlist table k)
  rw [List.getElem?_eq_getElem hlt, List.getElem_idxOf hlt]

theorem mem_foldl_enlist (ks : List Nat) :
    i ∈ ks.foldl enlist table ↔ i ∈ table ∨ i ∈ ks := by
  induction ks generalizing table with
  | nil => simp
  | cons k ks ih => rw [List.foldl_cons, ih, mem_enlist, List.mem_cons, or_assoc]

theorem prefix_foldl_enlist (ks : List Nat) : table <+: ks.foldl enlist table := by
  induction ks generalizing table with
  | nil => exact List.prefix_rfl
  | cons k ks ih => exact (prefix_enlist table k).trans ih

end Enlist

namespace Build

variable {types : TypeTable} {m : Module} {table : List Nat}

theorem adopt_on (k : Nat) :
    (adopt k).on ⟨types, m, table⟩ = (.ok (), ⟨types, m, enlist table k⟩) := by
  show (Except.ok (), if table.contains k then (⟨types, m, table⟩ : Workbench) else _) = _
  unfold enlist
  split <;> rfl

theorem forM_adopt_on (ks : List Nat) :
    (ks.forM adopt).on ⟨types, m, table⟩ = (.ok (), ⟨types, m, ks.foldl enlist table⟩) := by
  induction ks generalizing table with
  | nil => rfl
  | cons k ks ih =>
      show (adopt k >>= fun _ => ks.forM adopt).on _ = _
      rw [Effect.on_bind_of_ok (adopt_on k), ih]
      rfl

theorem declare_on_of_ok {act : Module → Except Failure (Nat × Module)} {k : Nat} {m' : Module}
    (h : act m = .ok (k, m')) :
    (declare act).on ⟨types, m, table⟩ = (.ok k, ⟨types, m', table⟩) := by
  rw [declare, Effect.on_bind_of_ok (Effect.on_get _), h]
  rfl

theorem declare_on_of_error {act : Module → Except Failure (Nat × Module)} {e : Failure}
    (h : act m = .error e) : (declare act).on ⟨types, m, table⟩ = (.error e, ⟨types, m, table⟩) := by
  rw [declare, Effect.on_bind_of_ok (Effect.on_get _), h]
  rfl

end Build

namespace Session

variable {s : Session} {m : Nat} {r : ModuleRecord}

/-! ## Modules that are live -/

/-- A session in which a module has another table. -/
def withTable (s : Session) (m : Nat) (table : List Nat) : Session :=
  s.changeModule m fun r => { r with table }

theorem IsSound.require_on (hs : s.IsSound) {k : Kind} {id : Nat} (hid : id ∈ s.ids k)
    (hlive : s.isLive id = true) : (require k id).on s = (.ok (), s) := by
  rw [require, Effect.on_bind_of_ok (Effect.on_get s), hs.numbers.get_iff.mpr ⟨hid, hlive⟩]
  rfl

theorem IsSound.liveModule_on (hs : s.IsSound) (hr : s.module? m = some r)
    (hlive : s.isLive m = true) : (liveModule m).on s = (.ok r, s) := by
  rw [liveModule, Effect.on_bind_of_ok (hs.require_on (mem_ids_of_module? hr).1 hlive),
    moduleRecord_on hr]

/-- A context may be given the structures that it has. -/
theorem IsSound.changeTypes_self (hs : s.IsSound) {id : Nat} {c : ContextRecord}
    (hc : s.context? id = some c) : s.changeTypes id c.types = s := by
  have hsame : s.contexts.map (fun c' => if c'.id = id then { c' with types := c.types } else c') =
      s.contexts := by
    refine (List.map_congr_left fun c' hc' => ?_).trans (List.map_id _)
    split
    · rename_i hid
      cases (hs.context?_iff.mpr ⟨hc', hid⟩).symm.trans hc
      rfl
    · rfl
  rw [Session.changeTypes, hsame]

/-- What becomes of a module depends only on what its record is turned into. -/
theorem IsSound.changeModule_congr (hs : s.IsSound) (hr : s.module? m = some r)
    {change change' : ModuleRecord → ModuleRecord} (h : change r = change' r) :
    s.changeModule m change = s.changeModule m change' := by
  have hsame : s.modules.map (fun r' => if r'.id = m then change r' else r') =
      s.modules.map fun r' => if r'.id = m then change' r' else r' := by
    refine List.map_congr_left fun r' hr' => ?_
    split
    · rename_i hid
      cases (hs.module?_iff.mpr ⟨hr', hid⟩).symm.trans hr
      exact h
    · rfl
  rw [Session.changeModule, hsame, Session.changeModule]

theorem IsSound.changeModule_self (hs : s.IsSound) (hr : s.module? m = some r)
    {change : ModuleRecord → ModuleRecord} (h : change r = r) : s.changeModule m change = s := by
  have hid : s.changeModule m change = s.changeModule m id := hs.changeModule_congr hr h
  have hsame : s.modules.map (fun r' => if r'.id = m then id r' else r') = s.modules := by
    simp
  rw [hid, Session.changeModule, hsame]

theorem module?_changeModule_of_id {change : ModuleRecord → ModuleRecord}
    (hid : ∀ r, (change r).id = r.id) (hr : s.module? m = some r) :
    (s.changeModule m change).module? m = some (change r) := by
  have hfind : (s.changeModule m change).module? m =
      (s.module? m).map fun r => if r.id = m then change r else r :=
    find?_number_map fun r _ => by
      split
      · exact hid r
      · rfl
  rw [hr, Option.map_some, if_pos (mem_ids_of_module? hr).2] at hfind
  exact hfind

/-- What a step of building comes to that makes no structures. -/
theorem IsSound.onWorkbench_on (hs : s.IsSound) {α : Type} {step : Build α}
    (hr : s.module? m = some r) {outcome : Except Failure α} {m' : Module} {table : List Nat}
    (hstep : ∀ types, step.on ⟨types, r.module, r.table⟩ = (outcome, ⟨types, m', table⟩)) :
    (onWorkbench m step).on s =
      (outcome, s.changeModule m fun r => { r with module := m', table }) := by
  obtain ⟨c, hc⟩ := hs.context_of_mem (hs.homed r (hs.module?_iff.mp hr).1)
  rw [Session.onWorkbench_on hr hc, hstep c.types]
  dsimp only
  rw [hs.changeTypes_self hc]

theorem adopt_on {types : TypeTable} {module : Module} {table : List Nat} (k : Nat) :
    (adopt m k).on ⟨types, module, table⟩ =
      (.ok (.member m ((enlist table k).idxOf k)), ⟨types, module, enlist table k⟩) := by
  rw [adopt, Effect.on_bind_of_ok (Build.adopt_on k)]
  rfl

/-! ## Following handles -/

variable {name : String} {i k : Nat} {f : Function}

theorem resolve_on (hs : s.IsSound) (hr : s.module? m = some r) (hlive : s.isLive m = true)
    (hi : r.table[i]? = some k) : (resolve (.member m i)).on s = (.ok (m, k), s) := by
  rw [resolve, Effect.on_bind_of_ok (hs.liveModule_on hr hlive), hi]
  rfl

theorem functionAt_on (hr : s.module? m = some r) (hf : r.module.function? k = some f) :
    (functionAt m k).on s = (.ok f, s) := by
  rw [functionAt, Effect.on_bind_of_ok (moduleRecord_on hr), hf]
  rfl

theorem functionOf_on (hs : s.IsSound) (hr : s.module? m = some r) (hlive : s.isLive m = true)
    (hi : r.table[i]? = some k) (hf : r.module.function? k = some f) :
    (functionOf (.member m i)).on s = (.ok f, s) := by
  rw [functionOf, Effect.on_bind_of_ok (resolve_on hs hr hlive hi)]
  exact functionAt_on hr hf

theorem signedFunction_on (hs : s.IsSound) (hr : s.module? m = some r) (hlive : s.isLive m = true)
    (hi : r.table[i]? = some k) (hf : r.module.function? k = some f) :
    (signedFunction (.member m i)).on s = (.ok f, s) := by
  rw [signedFunction, Effect.on_bind_of_ok (functionOf_on hs hr hlive hi hf)]
  rfl

theorem signature_on (hs : s.IsSound) (hr : s.module? m = some r) (hlive : s.isLive m = true)
    (hi : r.table[i]? = some k) (hf : r.module.function? k = some f) :
    (signature (.member m i)).on s = (.ok f.type, s) := by
  rw [signature, Effect.on_bind_of_ok (signedFunction_on hs hr hlive hi hf)]
  rfl

/-! ## Looking up -/

theorem module?_withTable (hr : s.module? m = some r) (table : List Nat) :
    (s.withTable m table).module? m = some { r with table } :=
  module?_changeModule_of_id (fun _ => rfl) hr

theorem lookup_on_none (hs : s.IsSound) (hr : s.module? m = some r) (hlive : s.isLive m = true)
    (h : r.module.functionIndex? name = none) : (lookup m name).on s = (.ok none, s) := by
  rw [lookup, Effect.on_bind_of_ok (hs.liveModule_on hr hlive), h]
  rfl

theorem lookup_on_some (hs : s.IsSound) (hr : s.module? m = some r) (hlive : s.isLive m = true)
    (h : r.module.functionIndex? name = some k) :
    (lookup m name).on s = (.ok (some (.member m ((enlist r.table k).idxOf k))),
      s.withTable m (enlist r.table k)) := by
  have hadopt : (onWorkbench m (adopt m k)).on s = (.ok (.member m ((enlist r.table k).idxOf k)),
      s.withTable m (enlist r.table k)) := by
    rw [hs.onWorkbench_on hr fun types => adopt_on k]
    exact congrArg _ (hs.changeModule_congr hr rfl)
  rw [lookup, Effect.on_bind_of_ok (hs.liveModule_on hr hlive), h]
  exact Effect.on_bind_of_ok hadopt

/-- Listing enters every function into the table, and gives the places of the table. -/
theorem functions_on (hs : s.IsSound) (hr : s.module? m = some r) (hlive : s.isLive m = true) :
    (functions m).on s =
      (.ok ((List.range (r.module.functionIndices.foldl enlist r.table).length).map (.member m)),
        s.withTable m (r.module.functionIndices.foldl enlist r.table)) := by
  have hadopt : (onWorkbench m (r.module.functionIndices.forM Build.adopt)).on s = (.ok (),
      s.withTable m (r.module.functionIndices.foldl enlist r.table)) := by
    rw [hs.onWorkbench_on hr fun types => Build.forM_adopt_on _]
    exact congrArg _ (hs.changeModule_congr hr rfl)
  have hrecord : (s.withTable m (r.module.functionIndices.foldl enlist r.table)).module? m =
      some { r with table := r.module.functionIndices.foldl enlist r.table } :=
    module?_withTable hr _
  rw [functions, Effect.on_bind_of_ok (hs.liveModule_on hr hlive), Effect.on_bind_of_ok hadopt,
    Effect.on_bind_of_ok (moduleRecord_on hrecord)]
  rfl

/-! ## Declaring -/

theorem addFunction_taken (hs : s.IsSound) (hr : s.module? m = some r) (hlive : s.isLive m = true)
    (h : (r.module.index? name).isSome) (type : Ty) :
    (addFunction m name type).on s = (.error (.duplicateSymbol name r.name), s) := by
  rw [addFunction, Effect.on_bind_of_ok (hs.liveModule_on hr hlive), if_pos h]
  rfl

theorem functionType_cases (type : Ty) : functionType type = .error .lacksAttribute ∨
    ∃ result params variadic, type = .function result params variadic := by
  cases type <;> first | exact .inl rfl | exact .inr ⟨_, _, _, rfl⟩

/-- Declaring under a name that is not taken goes on to the type, and to the module. -/
theorem addFunction_free (hs : s.IsSound) (hr : s.module? m = some r) (hlive : s.isLive m = true)
    (h : r.module.index? name = none) (type : Ty) :
    (addFunction m name type).on s = (do
      let (result, params, variadic) ← lift (functionType type)
      onWorkbench m do
        let symbol ← Build.declare (·.declareFunction name result params variadic)
        adopt m symbol).on s := by
  have hfree : ¬ (r.module.index? name).isSome = true := by simp [h]
  rw [addFunction, Effect.on_bind_of_ok (hs.liveModule_on hr hlive), if_neg hfree]

/-- A function that is still to be declared has no place in the table. -/
theorem size_notMem_table (hs : s.IsSound) (hr : s.module? m = some r) : r.module.symbols.size ∉ r.table := by
  intro hmem
  have hsome := (hs.listed r (hs.module?_iff.mp hr).1).functions _ hmem
  simp [Module.function?] at hsome

/-- A function of a new name is declared after all other symbols, and enters the table last. -/
theorem addFunction_new (hs : s.IsSound) (hr : s.module? m = some r) (hlive : s.isLive m = true)
    (h : r.module.index? name = none) (hname : name ≠ "") (result : Ty) (params : List Ty)
    (variadic : Bool) :
    (addFunction m name (.function result params variadic)).on s =
      (.ok (.member m r.table.length),
        s.changeModule m fun r' => { r' with
          module := r.module.withSymbol (.function (.declare name result params variadic))
          table := r.table ++ [r.module.symbols.size] }) := by
  have hdeclare := Module.declareFunction_of_new hname h result params variadic
  have hnew := size_notMem_table hs hr
  have henlist : enlist r.table r.module.symbols.size = r.table ++ [r.module.symbols.size] := by
    simp [enlist, hnew]
  have hidx : (r.table ++ [r.module.symbols.size]).idxOf r.module.symbols.size = r.table.length := by
    rw [List.idxOf_append_of_notMem hnew]
    simp
  have hstep (types : TypeTable) : (do
      let symbol ← Build.declare (·.declareFunction name result params variadic)
      adopt m symbol : Build Handle).on ⟨types, r.module, r.table⟩ =
      (.ok (.member m r.table.length), ⟨types,
        r.module.withSymbol (.function (.declare name result params variadic)),
        r.table ++ [r.module.symbols.size]⟩) := by
    rw [Effect.on_bind_of_ok (Build.declare_on_of_ok hdeclare), adopt_on, henlist, hidx]
  have hparts : (lift (functionType (.function result params variadic))).on s =
      (.ok (result, params, variadic), s) := rfl
  rw [addFunction_free hs hr hlive h, Effect.on_bind_of_ok hparts]
  exact hs.onWorkbench_on hr hstep

/-- Building that is refused before it changed anything changes nothing. -/
theorem onWorkbench_refused (hs : s.IsSound) {α : Type} {step : Build α} (hr : s.module? m = some r)
    {e : Failure} (hstep : ∀ types, step.on ⟨types, r.module, r.table⟩ =
      (.error e, ⟨types, r.module, r.table⟩)) : (onWorkbench m step).on s = (.error e, s) := by
  rw [hs.onWorkbench_on hr hstep, hs.changeModule_self hr rfl]

/-- A function of a new name is refused if the name is empty or the type is no function type. -/
theorem addFunction_refused (hs : s.IsSound) (hr : s.module? m = some r) (hlive : s.isLive m = true)
    (h : r.module.index? name = none) {type : Ty}
    (hbad : name = "" ∨ functionType type = .error .lacksAttribute) :
    ∃ e, (addFunction m name type).on s = (.error e, s) ∧
      (e = .nameTaken ∨ e = .lacksAttribute) := by
  rw [addFunction_free hs hr hlive h]
  rcases functionType_cases type with hparts | ⟨result, params, variadic, rfl⟩
  · have hon : (lift (functionType type)).on s = (.error .lacksAttribute, s) := by
      rw [hparts]
      rfl
    exact ⟨_, Effect.on_bind_of_error hon, .inr rfl⟩
  · rcases hbad with rfl | hparts
    · have hempty : (Symbol.function (.declare "" result params variadic)).name = "" :=
        (Function.declare_name_type _ _ _ _).1
      have hdeclare : r.module.declareFunction "" result params variadic = .error .nameTaken := by
        unfold Module.declareFunction Module.declare
        rw [hempty]
        rfl
      have hstep (types : TypeTable) : (do
          let symbol ← Build.declare (·.declareFunction "" result params variadic)
          adopt m symbol : Build Handle).on ⟨types, r.module, r.table⟩ =
          (.error .nameTaken, ⟨types, r.module, r.table⟩) :=
        Effect.on_bind_of_error (Build.declare_on_of_error hdeclare)
      have hon : (lift (functionType (.function result params variadic))).on s =
          (.ok (result, params, variadic), s) := rfl
      rw [Effect.on_bind_of_ok hon]
      exact ⟨_, onWorkbench_refused hs hr hstep, .inl rfl⟩
    · cases hparts

/-- Declaring a function of a new name is never refused for its name's being taken. -/
theorem addFunction_not_taken (hs : s.IsSound) (hr : s.module? m = some r)
    (hlive : s.isLive m = true) (h : r.module.index? name = none) (type : Ty) (n m' : String) :
    ((addFunction m name type).on s).1 ≠ .error (.duplicateSymbol n m') := by
  by_cases hbad : name = "" ∨ functionType type = .error .lacksAttribute
  · obtain ⟨e, hon, he⟩ := addFunction_refused hs hr hlive h hbad
    rw [hon]
    rcases he with rfl | rfl <;> exact nofun
  · obtain ⟨hname, hparts⟩ := not_or.mp hbad
    obtain ⟨result, params, variadic, rfl⟩ := (functionType_cases type).resolve_left hparts
    rw [addFunction_new hs hr hlive h hname]
    exact nofun

/-- What was declared had a new name that is not empty, and was given a function type. -/
theorem addFunction_ok (hs : s.IsSound) (hr : s.module? m = some r) (hlive : s.isLive m = true)
    {type : Ty} {h : Handle} {s' : Session} (hon : (addFunction m name type).on s = (.ok h, s')) :
    r.module.index? name = none ∧ name ≠ "" ∧
      ∃ result params variadic, type = .function result params variadic := by
  cases hindex : r.module.index? name with
  | some i => nomatch (addFunction_taken hs hr hlive (by simp [hindex]) type).symm.trans hon
  | none =>
      refine ⟨rfl, ?_⟩
      by_cases hbad : name = "" ∨ functionType type = .error .lacksAttribute
      · obtain ⟨e, hon', -⟩ := addFunction_refused hs hr hlive hindex hbad
        nomatch hon'.symm.trans hon
      · obtain ⟨hname, hparts⟩ := not_or.mp hbad
        exact ⟨hname, (functionType_cases type).resolve_left hparts⟩

theorem addGlobal_taken (hs : s.IsSound) (hr : s.module? m = some r) (hlive : s.isLive m = true)
    (h : (r.module.index? name).isSome) (type : Ty) :
    (addGlobal m name type).on s = (.error (.duplicateSymbol name r.name), s) := by
  have hdeclare : r.module.addVariable name type = .error (.duplicateSymbol name r.name) := by
    rw [Module.addVariable, if_pos h]
    rfl
  rw [addGlobal, Effect.on_bind_of_ok (hs.require_on (mem_ids_of_module? hr).1 hlive)]
  exact Effect.on_bind_of_error (onWorkbench_refused hs hr fun types =>
    Build.declare_on_of_error hdeclare)

theorem addGlobal_not_taken (hs : s.IsSound) (hr : s.module? m = some r) (hlive : s.isLive m = true)
    (h : r.module.index? name = none) (type : Ty) (n m' : String) :
    ((addGlobal m name type).on s).1 ≠ .error (.duplicateSymbol n m') := by
  rw [addGlobal, Effect.on_bind_of_ok (hs.require_on (mem_ids_of_module? hr).1 hlive)]
  cases hadd : r.module.addVariable name type with
  | error e =>
      have hrefused :
          (onWorkbench m (Build.declare (·.addVariable name type))).on s = (.error e, s) :=
        onWorkbench_refused hs hr fun types => Build.declare_on_of_error hadd
      rw [Effect.on_bind_of_error hrefused]
      rintro heq
      cases heq
      unfold Module.addVariable at hadd
      rw [if_neg (by simp [h])] at hadd
      unfold Module.declareVariable at hadd
      split at hadd
      · cases hadd
      · cases Module.declare_error hadd
  | ok p =>
      have hstep (types : TypeTable) : (Build.declare (·.addVariable name type)).on
          ⟨types, r.module, r.table⟩ = (.ok p.1, ⟨types, p.2, r.table⟩) :=
        Build.declare_on_of_ok hadd
      rw [Effect.on_bind_of_ok (hs.onWorkbench_on hr hstep)]
      exact nofun

/-- A function of a new name is declared outside the table after all other symbols. -/
theorem declareOutside_new (hs : s.IsSound) (hr : s.module? m = some r) (hlive : s.isLive m = true)
    (h : r.module.index? name = none) (hname : name ≠ "") (result : Ty) (params : List Ty)
    (variadic : Bool) :
    (declareOutside m name (.function result params variadic)).on s =
      (.ok (.bare m r.module.symbols.size),
        s.changeModule m fun r' => { r' with
          module := r.module.withSymbol (.function (.declare name result params variadic))
          table := r.table }) := by
  have hstep (types : TypeTable) :
      (Build.declare (·.declareFunction name result params variadic)).on
        ⟨types, r.module, r.table⟩ = (.ok r.module.symbols.size, ⟨types,
        r.module.withSymbol (.function (.declare name result params variadic)), r.table⟩) :=
    Build.declare_on_of_ok (Module.declareFunction_of_new hname h result params variadic)
  have hparts : (lift (functionType (.function result params variadic))).on s =
      (.ok (result, params, variadic), s) := rfl
  rw [declareOutside, Effect.on_bind_of_ok (hs.require_on (mem_ids_of_module? hr).1 hlive),
    Effect.on_bind_of_ok hparts]
  exact Effect.on_bind_of_ok (hs.onWorkbench_on hr hstep)

/-- A function that is refused outside the table changes nothing. -/
theorem declareOutside_refused (hs : s.IsSound) (hr : s.module? m = some r) (hlive : s.isLive m = true)
    {type : Ty} (hbad : (r.module.index? name).isSome ∨ name = "" ∨
      functionType type = .error .lacksAttribute) :
    ((declareOutside m name type).on s).2 = s := by
  rw [declareOutside, Effect.on_bind_of_ok (hs.require_on (mem_ids_of_module? hr).1 hlive)]
  rcases functionType_cases type with hparts | ⟨result, params, variadic, rfl⟩
  · have hon : (lift (functionType type)).on s = (.error .lacksAttribute, s) := by
      rw [hparts]
      rfl
    rw [Effect.on_bind_of_error hon]
  · have hparts : (lift (functionType (.function result params variadic))).on s =
        (.ok (result, params, variadic), s) := rfl
    have hname : (Symbol.function (.declare name result params variadic)).name = name :=
      (Function.declare_name_type name result params variadic).1
    have hdeclare : r.module.declareFunction name result params variadic = .error .nameTaken := by
      unfold Module.declareFunction Module.declare
      rw [hname, if_pos]
      rcases hbad with htaken | rfl | hbad
      · simp [htaken]
      · simp
      · cases hbad
    rw [Effect.on_bind_of_ok hparts, Effect.on_bind_of_error (onWorkbench_refused hs hr fun types =>
      Build.declare_on_of_error hdeclare)]

/-! ## Finding or declaring -/

/-- A function that there is, is given as it is.  If it is of another type than the one that was
asked for, that is noted down, and nothing else. -/
theorem getOrDeclare_found (hs : s.IsSound) (hr : s.module? m = some r) (hlive : s.isLive m = true)
    (h : r.module.functionIndex? name = some k) (hf : r.module.function? k = some f) (type : Ty) :
    ∃ log, (getOrDeclare m name type).on s =
      (.ok (.member m ((enlist r.table k).idxOf k)),
        { s.withTable m (enlist r.table k) with log }) := by
  have hlookup := lookup_on_some hs hr hlive h
  have hs₁ := isSound_of_goes (lookup_goes hs name) hlookup
  have hr₁ := module?_withTable hr (enlist r.table k)
  have hsignature := signature_on hs₁ hr₁ hlive (getElem?_idxOf_enlist r.table k) hf
  rw [getOrDeclare, Effect.on_bind_of_ok hlookup]
  dsimp only
  rw [Effect.on_bind_of_ok hsignature]
  split
  · rw [Effect.on_bind_of_ok (moduleRecord_on hr₁)]
    exact ⟨_, rfl⟩
  · exact ⟨s.log, rfl⟩

theorem getOrDeclare_missing (hs : s.IsSound) (hr : s.module? m = some r)
    (hlive : s.isLive m = true) (h : r.module.functionIndex? name = none) (type : Ty) :
    (getOrDeclare m name type).on s = (addFunction m name type).on s := by
  rw [getOrDeclare, Effect.on_bind_of_ok (lookup_on_none hs hr hlive h)]

end Session

end Ssa

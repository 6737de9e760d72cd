/-
# `Ssa.Proofs.Session.Listing` — the order in which functions are listed

A function is handed out when it is declared through the session, found by its name, listed, or run by its
name.  One that is declared outside the table is not, and so may be handed out after functions that were
declared later.  A listing goes by the table, and so by the order in which functions were first handed out;
those that never were come last, in the order of declaration.  Positions of symbols go up in that order.

**Proved here.**

    first occurrences are in order, if each number comes after the lesser     (`eraseDups_append_eq_iff`)
    what each request on functions declares, and what it hands out              (`does_enrolled`)
    the same of a history                                                         (`after_enrolled`)
    listings in terms of the history                                                (`listed_as_handed_out`)
-/
import Mathlib.Data.List.Induction
import Ssa.Proofs.Session.Names
import Ssa.Proofs.Session.Runs

namespace Ssa

/-! ## First occurrences -/

theorem eraseDups_concat (ks : List Nat) (k : Nat) : (ks ++ [k]).eraseDups = enlist ks.eraseDups k := by
  rw [List.eraseDups_append, enlist]
  by_cases hk : k ∈ ks
  · simp [List.removeAll, hk]
  · simp [List.removeAll, hk, List.eraseDups_cons]

/-- Entering a list into a table. -/
theorem foldl_enlist (table ks : List Nat) :
    ks.foldl enlist table.eraseDups = (table ++ ks).eraseDups := by
  induction ks generalizing table with
  | nil => rw [List.foldl_nil, List.append_nil]
  | cons k ks ih => rw [List.foldl_cons, ← eraseDups_concat, ih, List.append_assoc, List.singleton_append]

theorem foldl_enlist_of_subset {table ks : List Nat} (h : ks ⊆ table) : ks.foldl enlist table = table := by
  induction ks with
  | nil => rfl
  | cons k ks ih =>
      obtain ⟨hk, hks⟩ := List.cons_subset.mp h
      rw [List.foldl_cons, enlist, if_pos (by simpa using hk), ih hks]

theorem eraseDups_of_nodup {ks : List Nat} (h : ks.Nodup) : ks.eraseDups = ks := by
  induction ks with
  | nil => rfl
  | cons k ks ih =>
      obtain ⟨hk, hks⟩ := List.nodup_cons.mp h
      have hfilter : ks.filter (fun j => !j == k) = ks :=
        List.filter_eq_self.mpr fun j hj => by simpa using ne_of_mem_of_not_mem hj hk
      rw [List.eraseDups_cons, hfilter, ih hks]

theorem nodup_eraseDups (ks : List Nat) : ks.eraseDups.Nodup := by
  induction ks using List.reverseRecOn with
  | nil => exact .nil
  | append_singleton ks k ih =>
      rw [eraseDups_concat, enlist]
      split
      · exact ih
      · rename_i hk
        have hk : k ∉ ks.eraseDups := by simpa using hk
        exact List.concat_eq_append ▸ ih.concat hk

/-- In a list followed by all numbers each number has one first occurrence. -/
theorem perm_eraseDups {ks ds : List Nat} (hds : ds.Nodup) (hks : ks ⊆ ds) :
    (ks ++ ds).eraseDups.Perm ds := by
  refine (List.perm_ext_iff_of_nodup (nodup_eraseDups _) hds).mpr fun k => ?_
  rw [List.mem_eraseDups, List.mem_append]
  exact or_iff_right_of_imp fun hk => hks hk

theorem removeAll_eraseDups {ds ks : List Nat} (h : ds.Nodup) :
    (ds.removeAll ks).eraseDups = ds.removeAll ks :=
  eraseDups_of_nodup (h.filter _)

/-- First occurrences go up if each number comes after the lesser ones. -/
theorem pairwise_eraseDups {ks : List Nat}
    (h : ∀ before k after, ks = before ++ k :: after → ∀ j ∈ ks, j < k → j ∈ before) :
    ks.eraseDups.Pairwise (· < ·) := by
  induction ks using List.reverseRecOn with
  | nil => exact .nil
  | append_singleton ks k ih =>
      have hks := ih fun before i after hks j hj hji =>
        h before i (after ++ [k]) (by simp [hks]) j (List.mem_append_left _ hj) hji
      rw [eraseDups_concat, enlist]
      split
      · exact hks
      · rename_i hk
        have hk : k ∉ ks := by simpa using hk
        refine List.pairwise_append.mpr ⟨hks, List.pairwise_singleton _ _, fun i hi j hj => ?_⟩
        cases List.mem_singleton.mp hj
        have hi : i ∈ ks := List.mem_eraseDups.mp hi
        refine lt_of_le_of_ne (Nat.le_of_not_lt fun hki => hk ?_) fun hik => hk (hik ▸ hi)
        obtain ⟨before, after, rfl⟩ := List.append_of_mem hi
        exact List.mem_append_left _ (h before i (after ++ [k]) (by simp) k (by simp) hki)

/-- A list followed by all numbers in order has the first occurrences in order exactly if in the list each
number comes after the lesser ones. -/
theorem eraseDups_append_eq_iff {ks ds : List Nat} (hds : ds.Pairwise (· < ·)) (hks : ks ⊆ ds) :
    (ks ++ ds).eraseDups = ds ↔
      ∀ before k after, ks = before ++ k :: after → ∀ j ∈ ds, j < k → j ∈ before := by
  have hnodup : ds.Nodup := hds.imp fun h => Nat.ne_of_lt h
  constructor
  · rintro heq before k after rfl j hj hjk
    by_contra hbefore
    rw [List.append_assoc, List.eraseDups_append] at heq
    generalize hrest : ((k :: after ++ ds).removeAll before).eraseDups = rest at heq
    subst heq
    obtain ⟨-, hordered, hacross⟩ := List.pairwise_append.mp hds
    have hjrest : j ∈ rest :=
      (List.mem_append.mp hj).resolve_left fun h => hbefore (List.mem_eraseDups.mp h)
    by_cases hk : k ∈ before
    · exact Nat.lt_asymm hjk (hacross k (List.mem_eraseDups.mpr hk) j hjrest)
    · have hfirst : ∃ more, rest = k :: more := by
        rw [← hrest, List.cons_append, List.removeAll, List.filter_cons_of_pos (by simpa using hk),
          List.eraseDups_cons]
        exact ⟨_, rfl⟩
      obtain ⟨more, rfl⟩ := hfirst
      rcases List.mem_cons.mp hjrest with rfl | hj
      · exact Nat.lt_irrefl _ hjk
      · exact Nat.lt_asymm hjk ((List.pairwise_cons.mp hordered).1 j hj)
  · intro h
    have hordered : (ks ++ ds).eraseDups.Pairwise (· < ·) := by
      rw [List.eraseDups_append, removeAll_eraseDups hnodup]
      refine List.pairwise_append.mpr ⟨?_, hds.filter _, fun i hi j hj => ?_⟩
      · exact pairwise_eraseDups fun before k after hsplit j hj => h before k after hsplit j (hks hj)
      · have hi : i ∈ ks := List.mem_eraseDups.mp hi
        obtain ⟨hjds, hjks⟩ : j ∈ ds ∧ j ∉ ks := by simpa [List.removeAll] using hj
        refine lt_of_le_of_ne (Nat.le_of_not_lt fun hji => hjks ?_) fun hij => hjks (hij ▸ hi)
        obtain ⟨before, after, hsplit⟩ := List.append_of_mem hi
        rw [hsplit]
        exact List.mem_append_left _ (h before i after hsplit j hjds hji)
    exact (perm_eraseDups hnodup hks).eq_of_pairwise
      (fun a b _ _ hab hba => absurd hab (Nat.lt_asymm hba)) hordered hds


/-! ## What a request declares, and what it enters -/

namespace Module

/-- Whether a function may be declared under a name, with a type. -/
def takes (m : Module) (name : String) (type : Ty) : Bool :=
  (m.index? name).isNone && name != "" && (Session.functionType type).isOk

theorem functionIndices_withSymbol (m : Module) (f : Function) :
    (m.withSymbol (.function f)).functionIndices = m.functionIndices ++ [m.symbols.size] := by
  have hsame (k : Nat) (hk : k < m.symbols.size) :
      (m.withSymbol (.function f)).function? k = m.function? k := by
    simp [function?, withSymbol, Array.getElem?_push_lt hk, Array.getElem?_eq_getElem hk]
  have hlast := function?_withSymbol m f
  have hsize : (m.withSymbol (.function f)).symbols.size = m.symbols.size + 1 := by
    simp [withSymbol]
  rw [functionIndices, hsize, List.range_succ, List.filter_append, functionIndices]
  congr 1
  · exact List.filter_congr fun k hk => by rw [hsame k (List.mem_range.mp hk)]
  · simp [hlast]

end Module

namespace Session

variable {s : Session} {m : Nat} {r : ModuleRecord} {name : String} {type : Ty}

/-- Requests that declare functions of a module, find them by name, list them, or run some. -/
def Request.IsOnFunctions (m : Nat) : Request → Prop
  | .addFunction m' .. | .getOrDeclare m' .. | .declareOutside m' .. | .lookup m' _ | .functions m' => m' = m
  | .run .. => True
  | _ => False

theorem Request.IsOnFunctions.not_releases {q : Request} (h : q.IsOnFunctions m) {id : Nat} :
    ¬ q.Releases s id := by
  intro hreleases
  cases q <;> first | exact hreleases | exact h

/-- The function that a request declares in a module. -/
def Request.declares (r : ModuleRecord) : Request → List Nat
  | .addFunction _ name type | .getOrDeclare _ name type | .declareOutside _ name type =>
    if r.module.takes name type then [r.module.symbols.size] else []
  | _ => []

/-- Whether a run on an engine is one of functions of a module. -/
def runsOf (s : Session) (m engine : Nat) : Bool :=
  s.isLive engine && (s.engine? engine).any fun e => e.module == m

/-- The functions that a request enters into the table of a module: those that it declares, unless it
declares them outside, and those that it finds by name or lists. -/
def Request.enters (s : Session) (r : ModuleRecord) : Request → List Nat
  | .addFunction m name type => (Request.addFunction m name type).declares r
  | .getOrDeclare m name type =>
    (r.module.functionIndex? name).toList ++ (Request.getOrDeclare m name type).declares r
  | .lookup _ name => (r.module.functionIndex? name).toList
  | .functions _ => r.module.functionIndices
  | .run engine (.named name) _ =>
    if s.runsOf r.id engine then (r.module.functionIndex? name).toList else []
  | _ => []

theorem takes_iff : r.module.takes name type = true ↔ r.module.index? name = none ∧ name ≠ "" ∧
    ∃ result params variadic, type = .function result params variadic := by
  have htype : (functionType type).isOk = true ↔
      ∃ result params variadic, type = .function result params variadic := by
    cases type <;> simp [functionType, Except.isOk, Except.toBool]
  simp [Module.takes, htype, and_assoc]

/-- A function that may not be declared has a name that is taken or empty, or a type that is none. -/
theorem of_not_takes (h : r.module.takes name type = false) : (r.module.index? name).isSome ∨ name = "" ∨
    functionType type = .error .lacksAttribute := by
  cases hindex : r.module.index? name with
  | some k => exact .inl rfl
  | none =>
      refine .inr (by_contra fun hgood => ?_)
      obtain ⟨hname, htype⟩ := not_or.mp hgood
      have htakes := takes_iff.mpr ⟨hindex, hname, (functionType_cases type).resolve_left htype⟩
      rw [h] at htakes
      cases htakes

theorem addFunction_not_takes (hs : s.IsSound) (hr : s.module? m = some r) (hlive : s.isLive m = true)
    (h : r.module.takes name type = false) : ((addFunction m name type).on s).2 = s := by
  cases hindex : r.module.index? name with
  | some k => rw [addFunction_taken hs hr hlive (by rw [hindex]; rfl)]
  | none =>
      have hbad := (of_not_takes h).resolve_left (by simp [hindex])
      obtain ⟨e, hon, -⟩ := addFunction_refused hs hr hlive hindex hbad
      rw [hon]

theorem does_of_discard {α : Type} (x : Act α) (s : Session) : ((discard x).on s).2 = (x.on s).2 := by
  rcases hx : x.on s with ⟨e | a, s₁⟩
  · have hdiscard : (discard x).on s = (.error e, s₁) := Effect.on_bind_of_error hx
    rw [hdiscard]
  · have hdiscard : (discard x).on s = (.ok (), s₁) := Effect.on_bind_of_ok hx
    rw [hdiscard]

/-! ## One request -/

/-- The record of a module after a request that declared functions, and entered some into the table. -/
structure Enrolled (r r' : ModuleRecord) (declared entered : List Nat) : Prop where
  id : r'.id = r.id
  declared : r'.module.functionIndices = r.module.functionIndices ++ declared
  entered : r'.table = entered.foldl enlist r.table

theorem Enrolled.withTable (r : ModuleRecord) (ks : List Nat) :
    Enrolled r { r with table := ks.foldl enlist r.table } [] ks :=
  ⟨rfl, (List.append_nil _).symm, rfl⟩

section

variable (hs : s.IsSound) (hr : s.module? m = some r) (hlive : s.isLive m = true)
include hs hr hlive

theorem addFunction_enrolled (name : String) (type : Ty) :
    ∃ r', ((addFunction m name type).on s).2.module? m = some r' ∧
      Enrolled r r' ((Request.addFunction m name type).declares r)
        ((Request.addFunction m name type).declares r) := by
  cases htakes : r.module.takes name type with
  | false =>
      rw [addFunction_not_takes hs hr hlive htakes, Request.declares, htakes]
      exact ⟨r, hr, .withTable r []⟩
  | true =>
      obtain ⟨hindex, hname, result, params, variadic, rfl⟩ := takes_iff.mp htakes
      rw [addFunction_new hs hr hlive hindex hname, Request.declares, htakes]
      refine ⟨_, module?_changeModule_of_id (fun _ => rfl) hr, rfl, ?_, ?_⟩
      · exact Module.functionIndices_withSymbol _ _
      · simp [enlist, size_notMem_table hs hr]

theorem declareOutside_enrolled (name : String) (type : Ty) :
    ∃ r', ((declareOutside m name type).on s).2.module? m = some r' ∧
      Enrolled r r' ((Request.declareOutside m name type).declares r) [] := by
  cases htakes : r.module.takes name type with
  | false =>
      rw [declareOutside_refused hs hr hlive (of_not_takes htakes), Request.declares, htakes]
      exact ⟨r, hr, .withTable r []⟩
  | true =>
      obtain ⟨hindex, hname, result, params, variadic, rfl⟩ := takes_iff.mp htakes
      rw [declareOutside_new hs hr hlive hindex hname, Request.declares, htakes]
      refine ⟨_, module?_changeModule_of_id (fun _ => rfl) hr, rfl, ?_, rfl⟩
      exact Module.functionIndices_withSymbol _ _

theorem lookup_enrolled (name : String) :
    ∃ r', ((lookup m name).on s).2.module? m = some r' ∧
      Enrolled r r' [] (r.module.functionIndex? name).toList := by
  cases hindex : r.module.functionIndex? name with
  | none =>
      rw [lookup_on_none hs hr hlive hindex]
      exact ⟨r, hr, .withTable r []⟩
  | some k =>
      rw [lookup_on_some hs hr hlive hindex]
      exact ⟨_, module?_withTable hr _, .withTable r [k]⟩

theorem getOrDeclare_enrolled (name : String) (type : Ty) :
    ∃ r', ((getOrDeclare m name type).on s).2.module? m = some r' ∧
      Enrolled r r' ((Request.getOrDeclare m name type).declares r)
        ((Request.getOrDeclare m name type).enters s r) := by
  cases hindex : r.module.functionIndex? name with
  | none =>
      rw [getOrDeclare_missing hs hr hlive hindex, Request.enters, hindex]
      exact addFunction_enrolled hs hr hlive name type
  | some k =>
      obtain ⟨f, hf, hname⟩ := (hs.named r (hs.module?_iff.mp hr).1).functionIndex?_eq_some_iff.mp hindex
      have htakes : r.module.takes name type = false := by
        refine Bool.eq_false_iff.mpr fun htakes => ?_
        have hindex' := (takes_iff.mp htakes).1
        rw [Module.functionIndex?, hindex'] at hindex
        cases hindex
      obtain ⟨log, hon⟩ := getOrDeclare_found hs hr hlive hindex hf type
      rw [hon, Request.enters, hindex, Request.declares, htakes]
      exact ⟨_, module?_withTable hr _, .withTable r [k]⟩

theorem functions_enrolled : ∃ r', ((functions m).on s).2.module? m = some r' ∧
    Enrolled r r' [] r.module.functionIndices := by
  rw [functions_on hs hr hlive]
  exact ⟨_, module?_withTable hr _, .withTable r _⟩

/-- What enters the table when a run is decided on. -/
theorem admitting_enrolled (engine : Nat) (callee : Callee) (args : List GenericValue) :
    ∃ r', ((admitting engine callee args.length).on s).2.module? m = some r' ∧
      Enrolled r r' [] ((Request.run engine callee args).enters s r) := by
  obtain ⟨-, hid⟩ := mem_ids_of_module? hr
  by_cases hruns : s.runsOf m engine = true
  · obtain ⟨hengine, hm⟩ := Bool.and_eq_true_iff.mp hruns
    obtain ⟨e, he⟩ : ∃ e, s.engine? engine = some e := by
      cases he : s.engine? engine with
      | some e => exact ⟨e, rfl⟩
      | none => simp [he] at hm
    obtain rfl : e.module = m := by simpa [he] using hm
    rw [admitting_leaves hs hengine he hr hlive]
    refine ⟨_, module?_withTable hr _, rfl, (List.append_nil _).symm, ?_⟩
    cases callee with
    | handle h => rfl
    | named name =>
        rw [Request.enters, hid, if_pos hruns, enlisted]
        cases r.module.functionIndex? name <;> rfl
  · have henters : (Request.run engine callee args).enters s r = [] := by
      cases callee with
      | handle h => rfl
      | named name => rw [Request.enters, hid, if_neg hruns]
    rw [henters]
    refine ⟨r, ?_, .withTable r []⟩
    obtain ⟨s₁, h₁, hon⟩ := admitting_on hs engine callee args.length
    rw [hon]
    cases h₁ with
    | same => exact hr
    | @named e r' name k hengine he hlive' hr' hindex =>
        have hne : m ≠ e.module := fun hm => hruns (by simp [runsOf, hengine, he, hm])
        exact (module?_withTable_of_ne hne).trans hr

theorem run_enrolled (engine : Nat) (callee : Callee) (args : List GenericValue) :
    ∃ r', ((run engine callee args).on s).2.module? m = some r' ∧
      Enrolled r r' [] ((Request.run engine callee args).enters s r) := by
  obtain ⟨r', hr', henrolled⟩ := admitting_enrolled hs hr hlive engine callee args
  refine ⟨r', ?_, henrolled⟩
  rw [run_eq, Effect.on_bind]
  rcases hdecided : (admitting engine callee args.length).on s with ⟨e | a, s₁⟩
  · rw [hdecided] at hr'
    exact hr'
  · rw [hdecided] at hr'
    dsimp only
    rw [Effect.on_bind, onMemory_on]
    -- what is run changes the memory of its engine, and no module
    generalize (Backend.start _ _ _ _ _).on _ = outcome
    rcases outcome with ⟨e | v, mem⟩
    · exact hr'
    · dsimp only
      rw [lift_on]
      exact hr'

/-- What a request makes of the record of a module, if it is one on its functions. -/
theorem does_enrolled {q : Request} (hq : q.IsOnFunctions m) :
    ∃ r', (s.does q).module? m = some r' ∧ Enrolled r r' (q.declares r) (q.enters s r) := by
  rw [does]
  cases q with
  | addFunction m' name type =>
      cases hq
      rw [Request.perform, does_of_discard]
      exact addFunction_enrolled hs hr hlive name type
  | getOrDeclare m' name type =>
      cases hq
      rw [Request.perform, does_of_discard]
      exact getOrDeclare_enrolled hs hr hlive name type
  | declareOutside m' name type =>
      cases hq
      rw [Request.perform, does_of_discard]
      exact declareOutside_enrolled hs hr hlive name type
  | lookup m' name =>
      cases hq
      rw [Request.perform, does_of_discard]
      exact lookup_enrolled hs hr hlive name
  | functions m' =>
      cases hq
      rw [Request.perform, does_of_discard]
      exact functions_enrolled hs hr hlive
  | run engine callee args =>
      rw [Request.perform, does_of_discard]
      exact run_enrolled hs hr hlive engine callee args
  | _ => cases hq

end

/-! ## Histories -/

/-- The functions that a history declares in a module, in order. -/
def declared (s : Session) (m : Nat) : List Request → List Nat
  | [] => []
  | q :: history => (s.module? m).elim [] q.declares ++ (s.does q).declared m history

/-- The functions that a history enters into the table of a module, in order and as often as it does. -/
def entered (s : Session) (m : Nat) : List Request → List Nat
  | [] => []
  | q :: history => (s.module? m).elim [] (q.enters s) ++ (s.does q).entered m history

theorem Enrolled.trans {r r' r'' : ModuleRecord} {ds es ds' es' : List Nat} (h : Enrolled r r' ds es)
    (h' : Enrolled r' r'' ds' es') : Enrolled r r'' (ds ++ ds') (es ++ es') where
  id := h'.id.trans h.id
  declared := by rw [h'.declared, h.declared, List.append_assoc]
  entered := by rw [h'.entered, h.entered, List.foldl_append]

/-- A module stays live, and is enrolled with what a history on its functions declares and enters. -/
theorem after_enrolled (hs : s.IsSound) (hr : s.module? m = some r) (hlive : s.isLive m = true)
    {history : List Request} (h : ∀ q ∈ history, q.IsOnFunctions m) :
    (s.after history).isLive m = true ∧ ∃ r', (s.after history).module? m = some r' ∧
      Enrolled r r' (s.declared m history) (s.entered m history) := by
  induction history generalizing s r with
  | nil => exact ⟨hlive, r, hr, .withTable r []⟩
  | cons q history ih =>
      obtain ⟨hq, hhistory⟩ := List.forall_mem_cons.mp h
      obtain ⟨r₁, hr₁, henrolled⟩ := does_enrolled hs hr hlive hq
      obtain ⟨hlive', r', hr', henrolled'⟩ := ih (does_isSound hs q) hr₁
        ((does_grows hs q).live m hlive hq.not_releases) hhistory
      refine ⟨hlive', r', hr', ?_⟩
      rw [declared, entered, hr]
      exact henrolled.trans henrolled'

theorem entered_append (s : Session) (m : Nat) (history later : List Request) :
    s.entered m (history ++ later) = s.entered m history ++ (s.after history).entered m later := by
  induction history generalizing s with
  | nil => rfl
  | cons q history ih => rw [List.cons_append, entered, entered, ih, List.append_assoc]; rfl

theorem declared_append (s : Session) (m : Nat) (history later : List Request) :
    s.declared m (history ++ later) = s.declared m history ++ (s.after history).declared m later := by
  induction history generalizing s with
  | nil => rfl
  | cons q history ih => rw [List.cons_append, declared, declared, ih, List.append_assoc]; rfl

/-! ## Without functions declared outside -/

/-- What is declared enters the table last. -/
theorem foldl_enlist_declares (hs : s.IsSound) (hr : s.module? m = some r) (q : Request) :
    (q.declares r).foldl enlist r.table = r.table ++ q.declares r := by
  have hnew := size_notMem_table hs hr
  have hcases : q.declares r = [] ∨ q.declares r = [r.module.symbols.size] := by
    unfold Request.declares
    split <;> first | exact .inl rfl | exact (ite_eq_or_eq _ _ _).symm
  rcases hcases with hnone | hone
  · rw [hnone, List.append_nil, List.foldl_nil]
  · simp [hone, enlist, hnew]

/-- A request that declares a function outside the table. -/
def Request.isOutside : Request → Bool
  | .declareOutside .. => true
  | _ => false

/-- Other requests hand out functions that are there, and then what they declare. -/
theorem enters_of_not_outside {q : Request} (hq : q.isOutside = false) :
    ∃ found, found ⊆ r.module.functionIndices ∧ q.enters s r = found ++ q.declares r := by
  have hfound (name : String) : (r.module.functionIndex? name).toList ⊆ r.module.functionIndices := by
    intro k hk
    obtain ⟨i, -, hi⟩ := Option.bind_eq_some_iff.mp (Option.mem_toList.mp hk)
    obtain ⟨f, hf, rfl⟩ := Option.map_eq_some_iff.mp hi
    exact Module.mem_functionIndices.mpr (by rw [hf]; rfl)
  cases q with
  | addFunction m name type => exact ⟨[], List.nil_subset _, rfl⟩
  | getOrDeclare m name type => exact ⟨_, hfound name, rfl⟩
  | lookup m name => exact ⟨_, hfound name, (List.append_nil _).symm⟩
  | functions m => exact ⟨_, List.Subset.refl _, (List.append_nil _).symm⟩
  | run engine callee args =>
      cases callee with
      | handle h => exact ⟨[], List.nil_subset _, rfl⟩
      | named name =>
          refine ⟨_, ?_, (List.append_nil _).symm⟩
          rw [Request.enters]
          split
          · exact hfound name
          · exact List.nil_subset _
  | declareOutside m name type => cases hq
  | _ => exact ⟨[], List.nil_subset _, rfl⟩

/-- Then the table goes on to hold the functions in the order of declaration. -/
theorem after_in_order (hs : s.IsSound) (hr : s.module? m = some r) (hlive : s.isLive m = true)
    {history : List Request} (h : ∀ q ∈ history, q.IsOnFunctions m ∧ q.isOutside = false)
    (htable : r.table = r.module.functionIndices) :
    (s.entered m history).foldl enlist r.table = r.module.functionIndices ++ s.declared m history := by
  induction history generalizing s r with
  | nil => rw [entered, declared, List.append_nil]; exact htable
  | cons q history ih =>
      obtain ⟨⟨hq, hinside⟩, hhistory⟩ := List.forall_mem_cons.mp h
      obtain ⟨r₁, hr₁, henrolled⟩ := does_enrolled hs hr hlive hq
      obtain ⟨found, hfound, henters⟩ := enters_of_not_outside (s := s) (r := r) hinside
      have hsame : found.foldl enlist r.table = r.table := foldl_enlist_of_subset (by rwa [htable])
      have htable₁ : r₁.table = r₁.module.functionIndices := by
        rw [henrolled.entered, henters, List.foldl_append, hsame, foldl_enlist_declares hs hr, htable,
          henrolled.declared]
      have hlive₁ := (does_grows hs q).live m hlive hq.not_releases
      have hrest := ih (does_isSound hs q) hr₁ hlive₁ hhistory htable₁
      rw [entered, declared, hr, Option.elim_some, Option.elim_some, List.foldl_append, ← henrolled.entered,
        hrest, henrolled.declared, List.append_assoc]

/-! ## Listings -/

/-- What a listing of the functions of a module denotes: its handles, followed one after another. -/
def listing (s : Session) (m : Nat) : Except Failure (List (Nat × Nat)) :=
  ((functions m >>= List.mapM resolve).on s).1

/-- A listing gives the table, and then the functions that are not in it, in the order of declaration. -/
theorem listing_eq (hs : s.IsSound) (hr : s.module? m = some r) (hlive : s.isLive m = true) :
    s.listing m = .ok ((r.table ++ r.module.functionIndices).eraseDups.map (m, ·)) := by
  have hon := functions_on hs hr hlive
  have hs' := isSound_of_goes (functions_goes hs) hon
  rw [listing, Effect.on_bind_of_ok hon]
  have htable : r.module.functionIndices.foldl enlist r.table =
      (r.table ++ r.module.functionIndices).eraseDups := by
    rw [← foldl_enlist, eraseDups_of_nodup (hs.listed r (hs.module?_iff.mp hr).1).nodup]
  rw [htable] at hs' ⊢
  generalize (r.table ++ r.module.functionIndices).eraseDups = ks at hs'
  have hplaces : List.Forall₂ (fun h p => (resolve h).on (s.withTable m ks) = (.ok p, s.withTable m ks))
      ((List.range ks.length).map (Handle.member m)) (ks.map (m, ·)) := by
    refine List.forall₂_map_left_iff.mpr (List.forall₂_map_right_iff.mpr (List.forall₂_iff_get.mpr ?_))
    refine ⟨List.length_range, fun i hi hk => ?_⟩
    refine resolve_on hs' (module?_withTable hr ks) hlive ?_
    simp
  rw [Effect.on_mapM_of_forall₂ hplaces]

theorem pairwise_functionIndices (m : Module) : m.functionIndices.Pairwise (· < ·) :=
  List.pairwise_lt_range.filter _

section

variable (hs : s.IsSound) (hr : s.module? m = some r) (hlive : s.isLive m = true) {history : List Request}
  (h : ∀ q ∈ history, q.IsOnFunctions m)
include hs hr hlive h

/-- Only functions of the module are handed out. -/
theorem handed_subset :
    r.table ++ s.entered m history ⊆ r.module.functionIndices ++ s.declared m history := by
  obtain ⟨-, r', hr', henrolled⟩ := after_enrolled hs hr hlive h
  have hs' := after_isSound hs history
  intro k hk
  have hmem : k ∈ r'.table := by
    rw [henrolled.entered]
    exact (mem_foldl_enlist _).mpr (List.mem_append.mp hk)
  rw [← henrolled.declared]
  exact Module.mem_functionIndices.mpr ((hs'.listed r' (hs'.module?_iff.mp hr').1).functions k hmem)

theorem declared_pairwise : (r.module.functionIndices ++ s.declared m history).Pairwise (· < ·) := by
  obtain ⟨-, r', -, henrolled⟩ := after_enrolled hs hr hlive h
  rw [← henrolled.declared]
  exact pairwise_functionIndices r'.module

theorem listing_after : (s.after history).listing m =
    .ok ((r.table ++ s.entered m history ++ (r.module.functionIndices ++ s.declared m history)).eraseDups.map
      (m, ·)) := by
  obtain ⟨hlive', r', hr', henrolled⟩ := after_enrolled hs hr hlive h
  have htable : r'.table = (r.table ++ s.entered m history).eraseDups := by
    rw [henrolled.entered, ← foldl_enlist, eraseDups_of_nodup (hs.listed r (hs.module?_iff.mp hr).1).nodup]
  rw [listing_eq (after_isSound hs history) hr' hlive', htable, henrolled.declared, ← foldl_enlist,
    eraseDups_of_nodup (nodup_eraseDups _), foldl_enlist]

theorem listed_perm :
    (r.table ++ s.entered m history ++ (r.module.functionIndices ++ s.declared m history)).eraseDups.Perm
      (r.module.functionIndices ++ s.declared m history) :=
  perm_eraseDups ((declared_pairwise hs hr hlive h).imp fun hlt => Nat.ne_of_lt hlt)
    (handed_subset hs hr hlive h)

/-- Where no function is declared outside, listings are in the order of declaration. -/
theorem listed_inside (hinside : ∀ q ∈ history, q.isOutside = false)
    (htable : r.table = r.module.functionIndices) :
    (r.table ++ s.entered m history ++ (r.module.functionIndices ++ s.declared m history)).eraseDups =
      r.module.functionIndices ++ s.declared m history := by
  have hentered := after_in_order hs hr hlive (fun q hq => ⟨h q hq, hinside q hq⟩) htable
  have hnodup := (hs.listed r (hs.module?_iff.mp hr).1).nodup
  rw [← foldl_enlist, ← foldl_enlist, eraseDups_of_nodup hnodup, hentered]
  exact foldl_enlist_of_subset (List.Subset.refl _)

/-- Later listings begin with what a listing gave, and go on with what was declared since. -/
theorem listing_later {later : List Request} (hlater : ∀ q ∈ later, q.IsOnFunctions m) : ∃ more,
    (s.after (history ++ .functions m :: later)).listing m =
      .ok (((r.table ++ s.entered m history ++
        (r.module.functionIndices ++ s.declared m history)).eraseDups ++ more).map (m, ·)) ∧
      more.Perm (((s.after history).does (.functions m)).declared m later) := by
  obtain ⟨-, r', hr', henrolled⟩ := after_enrolled hs hr hlive h
  have hrequests : ∀ q ∈ history ++ .functions m :: later, q.IsOnFunctions m := by
    intro q hq
    rcases List.mem_append.mp hq with hq | hq
    · exact h q hq
    · rcases List.mem_cons.mp hq with rfl | hq
      · rfl
      · exact hlater q hq
  have hlists := listing_after hs hr hlive hrequests
  have hperm := listed_perm hs hr hlive hrequests
  -- the listing has entered all functions that were there
  have hentered : s.entered m (history ++ .functions m :: later) = s.entered m history ++
      (r.module.functionIndices ++ s.declared m history ++
        ((s.after history).does (.functions m)).entered m later) := by
    rw [entered_append, entered, hr', Option.elim_some, Request.enters, henrolled.declared]
  have hdeclared : s.declared m (history ++ .functions m :: later) =
      s.declared m history ++ ((s.after history).does (.functions m)).declared m later := by
    rw [declared_append, declared, hr']
    rfl
  obtain ⟨more, hmore⟩ : ∃ more, (r.table ++ s.entered m (history ++ .functions m :: later) ++
      (r.module.functionIndices ++ s.declared m (history ++ .functions m :: later))).eraseDups =
      (r.table ++ s.entered m history ++
        (r.module.functionIndices ++ s.declared m history)).eraseDups ++ more := by
    rw [hentered, ← List.append_assoc r.table, ← List.append_assoc (r.table ++ _),
      List.append_assoc (r.table ++ _ ++ _), List.eraseDups_append]
    exact ⟨_, rfl⟩
  rw [hmore] at hlists hperm
  refine ⟨more, hlists, ?_⟩
  rw [hdeclared, ← List.append_assoc r.module.functionIndices] at hperm
  exact (List.perm_append_left_iff _).mp (((listed_perm hs hr hlive h).append_right _).symm.trans hperm)

end

/-- A listing gives each function once: first those that were handed out, in the order in which each first
was, and then the others, in the order of declaration.  So it is in the order of declaration exactly if no
function was handed out before one that was declared earlier, and always if none is declared outside.  Later
listings begin with what a listing gave, and go on with what was declared since. -/
theorem listed_as_handed_out (hs : s.IsSound) (hr : s.module? m = some r) (hlive : s.isLive m = true)
    {history : List Request} (h : ∀ q ∈ history, q.IsOnFunctions m) :
    let all := r.module.functionIndices ++ s.declared m history
    let handed := r.table ++ s.entered m history
    (s.after history).listing m = .ok ((handed ++ all).eraseDups.map (m, ·)) ∧
      (handed ++ all).eraseDups.Perm all ∧ all.Pairwise (· < ·) ∧
      ((handed ++ all).eraseDups = all ↔
        ∀ before k after, handed = before ++ k :: after → ∀ j ∈ all, j < k → j ∈ before) ∧
      ((∀ q ∈ history, q.isOutside = false) → r.table = r.module.functionIndices →
        (handed ++ all).eraseDups = all) ∧
      ∀ later, (∀ q ∈ later, q.IsOnFunctions m) → ∃ more,
        (s.after (history ++ .functions m :: later)).listing m =
          .ok (((handed ++ all).eraseDups ++ more).map (m, ·)) ∧
        more.Perm (((s.after history).does (.functions m)).declared m later) := by
  have hordered := declared_pairwise hs hr hlive h
  exact ⟨listing_after hs hr hlive h, listed_perm hs hr hlive h, hordered,
    eraseDups_append_eq_iff hordered (handed_subset hs hr hlive h), listed_inside hs hr hlive h,
    fun later hlater => listing_later hs hr hlive h hlater⟩

/-! ### Two functions that are found in the other order -/

/-- A session with a module, in which nothing is declared. -/
def blank : Session := (fresh .fresh).after [.createModule "m" none]

/-- Two functions are declared outside the table. -/
def twoOutside : List Request :=
  [.declareOutside 2 "a" (.function .void [] false), .declareOutside 2 "b" (.function .void [] false)]

theorem blank_found_in_other_order :
    (blank.after (twoOutside ++ [.lookup 2 "b", .lookup 2 "a"])).listing 2 = .ok [(2, 1), (2, 0)] := by
  obtain ⟨r, hr⟩ : ∃ r, blank.module? 2 = some r := Option.isSome_iff_exists.mp (by decide +kernel)
  have hs : blank.IsSound := after_isSound (fresh_isInitial .fresh).isSound _
  have hrequests : ∀ q ∈ twoOutside ++ [.lookup 2 "b", .lookup 2 "a"], q.IsOnFunctions 2 := by
    simp [twoOutside, Request.IsOnFunctions]
  obtain ⟨hlisting, -⟩ := listed_as_handed_out hs hr (by decide +kernel) hrequests
  have htable : r.table = [] ∧ r.module.functionIndices = [] := by
    have hsome : (blank.module? 2).map (fun r => (r.table, r.module.functionIndices)) = some ([], []) := by
      decide +kernel
    simpa [hr] using hsome
  rw [hlisting, htable.1, htable.2]
  decide +kernel

/-- A look-up changes what is listed, and the order is not that of declaration. -/
theorem lookup_changes_listing :
    (blank.after twoOutside).listing 2 = .ok [(2, 0), (2, 1)] ∧
      (blank.after (twoOutside ++ [.lookup 2 "b"])).listing 2 = .ok [(2, 1), (2, 0)] ∧
      blank.declared 2 (twoOutside ++ [.lookup 2 "b"]) = [0, 1] := by
  decide +kernel

end Session
end Ssa

/-
# `Ssa.Proofs.Session.Furnished` — when the cells of variables are made

An engine that interprets has no cells at first.  A variable is given its cell when a run first asks for it.
An engine whose variables have all been given their cells before the first run comes to the same, and so does
one whose variables are given them between the runs, in whatever order: what the runs come to is the same up to
the numbers of cells, and nothing can be told of these.

**Proved here.**

    a run does the same, whatever cells were made beforehand          (`Ahead.run`)
    cells may be made at any time, on one side                          (`Ahead.furnish`)
    so runs come to the same, whenever the cells are made               (`ahead_course`)
    one variable, one cell                                              (`lazy_as_eager`, with all of the above)
-/
import Ssa.Proofs.Exec.Furnished
import Ssa.Proofs.Session.Turns

namespace Ssa

/-! ## Cells that are there -/

namespace Storage

/-- A cell is there, and so is every cell that it leads to. -/
def Settled (s : Storage) (a : Nat) : Prop :=
  ∃ P : Nat → Prop, P a ∧ ∀ b, P b → ∃ c, s.cell? b = some c ∧ ∀ b', c.value = .cell b' → P b'

/-- The cells that are there are taken for themselves. -/
def settled (s : Storage) : Renaming where
  pairs a b := a = b ∧ s.Settled a
  to_one h h' := h.1.symm.trans h'.1
  from_one h h' := h.1.trans h'.1.symm

theorem matched_settled (s : Storage) : s.Matched s.settled s := by
  rintro a b ⟨rfl, P, ha, hP⟩
  obtain ⟨⟨type, v⟩, hc, hleads⟩ := hP a ha
  refine ⟨type, v, v, hc, hc, ?_⟩
  cases v with
  | cell b => exact .cell ⟨rfl, P, hleads b rfl, hP⟩
  | _ => exact .same rfl

end Storage

namespace Session

open Effect (Paired)

/-! ## Runs, and cells made beforehand -/

/-- An argument of a run: a value, or, as a value of a type, what an earlier run gave. -/
inductive Input where
  | value (g : GenericValue)
  | earlier (type : Ty) (index : Nat)

namespace Input

/-- The value of an argument, where the earlier runs came to the given outcomes. -/
def get (answers : List (Except Failure RunResult)) : Input → GenericValue
  | value g => g
  | earlier type index => (Arg.earlier type index).value answers

/-- A value that is handed in is no cell, or one that is there. -/
def IsThere (s : Storage) : Input → Prop
  | value g => ∀ a, g.payload = .cell a → s.Settled a
  | earlier .. => True

end Input

/-- What is done to an engine: a function is run on it, or the variable at a position is given its cell
beforehand. -/
inductive Deed where
  | run (callee : Callee) (inputs : List Input)
  | furnish (i : Nat)

namespace Deed

/-- Whether something is run. -/
def isRun : Deed → Bool
  | run .. => true
  | furnish _ => false

/-- What is run is given, and so are its arguments. -/
def IsProper (s : Session) : Deed → Prop
  | run callee inputs => callee.IsGiven s ∧ ∀ x ∈ inputs, x.IsThere s.storage
  | furnish _ => True

end Deed

/-- A session in which things were done to an engine, and what the runs came to, in order. -/
structure Course where
  session : Session
  answers : List (Except Failure RunResult)

/-- Do one thing more to an engine that interprets a module. -/
def Course.take (engine : Nat) (m : Module) (p : Course) : Deed → Course
  | .run callee inputs =>
    let r := (run engine callee (inputs.map (Input.get p.answers))).on p.session
    ⟨r.2, p.answers ++ [r.1]⟩
  | .furnish i => ⟨p.session.withMemory engine ((p.session.memoryOf engine).furnish m i), p.answers⟩

/-- Do things to an engine in order. -/
def course (s : Session) (engine : Nat) (m : Module) (deeds : List Deed) : Course :=
  deeds.foldl (Course.take engine m) ⟨s, []⟩

variable {s s₀ : Session} {engine k : Nat} {m : Module} {r : ModuleRecord} {p q : Course} {ρ : Renaming}

theorem course_append (s : Session) (engine : Nat) (m : Module) (deeds more : List Deed) :
    s.course engine m (deeds ++ more) = more.foldl (Course.take engine m) (s.course engine m deeds) := by
  rw [course, List.foldl_append]
  rfl

theorem filter_isRun_furnish (order : List Nat) : (order.map Deed.furnish).filter Deed.isRun = [] :=
  List.filter_eq_nil_iff.mpr fun d hd => by
    obtain ⟨i, -, rfl⟩ := List.mem_map.mp hd
    exact Bool.false_ne_true

/-! ### What they leave -/

theorem IsSound.withMemory (h : s.IsSound) (engine : Nat) (mem : Memory) :
    (s.withMemory engine mem).IsSound := by
  have haside : s.Change (fun _ => False) { s with storage := mem.storage } :=
    .aside mem.storage s.files s.generator.ready s.log
  exact (haside.isSound h).changeGlobals engine mem.globals

/-- The engine that interprets a module is there, and so is the module, in a session that came by runs. -/
theorem Later.interpreter (h : s₀.Later s) (he : s₀.engine? engine = some ⟨engine, k, .interpreter, []⟩) :
    ∃ globals, s.engine? engine = some ⟨engine, k, .interpreter, globals⟩ := by
  have hid := h.engines engine
  rw [he] at hid
  generalize s.engine? engine = y at hid ⊢
  cases hid with
  | some h =>
      obtain ⟨globals, rfl⟩ := h
      exact ⟨globals, rfl⟩

theorem Later.module_eq {r' : ModuleRecord} (h : s₀.Later s) (hr : s₀.module? k = some r)
    (hr' : s.module? k = some r') : r'.module = r.module := by
  have hid := h.modules k
  rw [hr, hr'] at hid
  cases hid with
  | some h =>
      obtain ⟨table, -, rfl⟩ := h
      rfl

namespace Course

theorem take_isSound (hs : p.session.IsSound) (engine : Nat) (m : Module) (d : Deed) :
    (p.take engine m d).session.IsSound := by
  cases d with
  | run callee inputs => exact isSound_of_goes (run_goes hs _ _) rfl
  | furnish i => exact hs.withMemory engine _

theorem take_later (hs : p.session.IsSound) (h : s₀.Later p.session) (engine : Nat) (m : Module) (d : Deed) :
    s₀.Later (p.take engine m d).session := by
  cases d with
  | run callee inputs => exact run_later hs h _ _ _
  | furnish i => exact h.withMemory engine _

theorem memoryOf_furnish (h : s₀.Later p.session)
    (he : s₀.engine? engine = some ⟨engine, k, .interpreter, []⟩) (m : Module) (i : Nat) :
    (p.take engine m (.furnish i)).session.memoryOf engine = (p.session.memoryOf engine).furnish m i := by
  obtain ⟨globals, he'⟩ := h.interpreter he
  exact memoryOf_withMemory he'

end Course

/-- What is done leads from sound sessions to sound ones, and changes no module. -/
theorem course_later (hs : s.IsSound) (engine : Nat) (m : Module) (deeds : List Deed) :
    (s.course engine m deeds).session.IsSound ∧ s.Later (s.course engine m deeds).session := by
  induction deeds using List.reverseRecOn with
  | nil => exact ⟨hs, .refl s⟩
  | append_singleton deeds d ih =>
      rw [course_append]
      exact ⟨Course.take_isSound ih.1 engine m d, Course.take_later ih.1 ih.2 engine m d⟩

/-! ### The memory of the engine -/

section

variable (he : s₀.engine? engine = some ⟨engine, k, .interpreter, []⟩) (hr : s₀.module? k = some r)
include he

theorem global?_memoryOf_start (i : Nat) : (s₀.memoryOf engine).global? i = none := by
  rw [memoryOf_eq he]
  rfl

include hr

/-- What a run does to the memory of an engine leads onward. -/
theorem run_onward (hs : s.IsSound) (h : s₀.Later s) (callee : Callee) (args : List GenericValue) :
    (s.memoryOf engine).Onward r.module (((run engine callee args).on s).2.memoryOf engine) := by
  obtain ⟨s₁, h₁, hon⟩ := run_on hs engine callee args
  rw [hon, ← h₁.memoryOf engine]
  cases ha : s.admission engine callee args.length with
  | error f => exact .here
  | ok a =>
      obtain ⟨e, r', f⟩ := a
      obtain ⟨globals, he'⟩ := h.interpreter he
      cases (engine?_of_admission ha).symm.trans he'
      have hr' := h.module_eq hr (function_of_admission ha).1
      have he₁ := (h₁.engine? engine).trans he'
      show (s₁.memoryOf engine).Onward r.module
        (((proceed ⟨engine, k, .interpreter, globals⟩ r' f args).on s₁).2.memoryOf engine)
      rw [proceed_on, hr', memoryOf_withMemory he₁, memoryOf_eq he₁]
      exact Interpreted.call_leads ⟨k, [], r.module⟩ stepBound f _ _

/-- What is done leads the memory of the engine onward. -/
theorem course_onward (hs : s₀.IsSound) (deeds more : List Deed) :
    ((s₀.course engine r.module deeds).session.memoryOf engine).Onward r.module
      ((s₀.course engine r.module (deeds ++ more)).session.memoryOf engine) := by
  induction more using List.reverseRecOn with
  | nil =>
      rw [List.append_nil]
      exact .here
  | append_singleton more d ih =>
      obtain ⟨hsound, hlater⟩ := course_later hs engine r.module (deeds ++ more)
      rw [← List.append_assoc, course_append s₀ engine r.module (deeds ++ more)]
      refine ih.trans ?_
      cases d with
      | run callee inputs => exact run_onward he hr hsound hlater callee _
      | furnish i =>
          show Memory.Onward _ _ (((s₀.course engine r.module (deeds ++ more)).take engine r.module
            (.furnish i)).session.memoryOf engine)
          rw [Course.memoryOf_furnish hlater he]
          exact Memory.furnish_onward r.module _ i

end

/-! ## One is ahead of the other -/

/-- Two courses came from one session, the same was run in both, and came to the same; in the second, cells may
have been made that the first has not come upon. -/
structure Ahead (s₀ : Session) (engine : Nat) (m : Module) (ρ : Renaming) (p q : Course) : Prop where
  sound : p.session.IsSound ∧ q.session.IsSound
  tied : (between s₀ engine (Ties.furnished m)).holds ρ p.session q.session
  there : ρ.Extends s₀.storage.settled
  answers : List.Forall₂ (Agree (RunResult.Renamed ρ)) p.answers q.answers

theorem Input.get_renamed {xs ys : List (Except Failure RunResult)} {x : Input}
    (hρ : ρ.Extends s.storage.settled) (hx : x.IsThere s.storage)
    (h : List.Forall₂ (Agree (RunResult.Renamed ρ)) xs ys) : (x.get xs).Renamed ρ (x.get ys) := by
  cases x with
  | earlier type index => exact Arg.value_renamed h (.earlier type index)
  | value g =>
      refine ⟨rfl, ?_⟩
      show g.payload.Renamed ρ g.payload
      cases hg : g.payload with
      | cell a => exact .cell (hρ a a ⟨rfl, hx a hg⟩)
      | _ => exact .same rfl

section

variable (he : s₀.engine? engine = some ⟨engine, k, .interpreter, []⟩) (hr : s₀.module? k = some r)
include he

namespace Ahead

theorem start (hs : s₀.IsSound) (m : Module) :
    s₀.Ahead engine m s₀.storage.settled ⟨s₀, []⟩ ⟨s₀, []⟩ where
  sound := ⟨hs, hs⟩
  tied := by
    have hnone := global?_memoryOf_start he
    refine ⟨.refl s₀, .refl s₀, s₀.storage.matched_settled, fun i a hi => ?_, fun i b _ hi => ?_, .of_none hnone⟩
    · nomatch (hnone i).symm.trans hi
    · nomatch (hnone i).symm.trans hi
  there := .refl _
  answers := .nil

/-- A cell may be made at any time, in the course that is ahead. -/
theorem furnish (h : s₀.Ahead engine m ρ p q) (i : Nat) :
    s₀.Ahead engine m ρ p (q.take engine m (.furnish i)) where
  sound := ⟨h.sound.1, Course.take_isSound h.sound.2 engine m _⟩
  tied := by
    refine ⟨h.tied.1, h.tied.2.1.withMemory engine _, ?_⟩
    rw [Course.memoryOf_furnish h.tied.2.1 he]
    exact Ties.furnish_right h.tied.2.2 i
  there := h.there
  answers := h.answers

include hr

/-- A run does the same, whatever cells were made beforehand. -/
theorem run (h : s₀.Ahead engine r.module ρ p q) {callee : Callee} {inputs : List Input}
    (hproper : (Deed.run callee inputs).IsProper s₀) :
    ∃ ρ', s₀.Ahead engine r.module ρ' (p.take engine r.module (.run callee inputs))
      (q.take engine r.module (.run callee inputs)) := by
  have hargs : List.Forall₂ (GenericValue.Renamed ρ) (inputs.map (Input.get p.answers))
      (inputs.map (Input.get q.answers)) :=
    List.forall₂_map_left_iff.mpr (List.forall₂_map_right_iff.mpr
      (List.forall₂_same.mpr fun x hx => x.get_renamed h.there (hproper.2 x hx) h.answers))
  have hopens (r' : ModuleRecord) (hr' : s₀.module? k = some r') :
      (Ties.furnished r.module).Opens ⟨k, [], r'.module⟩ := by
    cases hr.symm.trans hr'
    exact Ties.furnished_opens k [] r.module
  obtain ⟨ρ', hρ, htied, hanswer⟩ :=
    run_paired h.sound.1 h.sound.2 h.tied he rfl hopens hproper.1 hargs
  refine ⟨ρ', ?_, htied, h.there.trans hρ, ?_⟩
  · exact ⟨Course.take_isSound h.sound.1 engine _ _, Course.take_isSound h.sound.2 engine _ _⟩
  · exact List.rel_append (h.answers.imp fun _ _ hxy => hxy.mono fun _ _ hgg => hgg.mono hρ)
      (.cons hanswer .nil)

end Ahead

include hr

/-- Whenever the cells are made, the course is ahead of that in which the same is run and no cell is made before
it is asked for. -/
theorem ahead_course (hs : s₀.IsSound) (deeds : List Deed) (hproper : ∀ d ∈ deeds, d.IsProper s₀) :
    ∃ ρ, s₀.Ahead engine r.module ρ (s₀.course engine r.module (deeds.filter Deed.isRun))
      (s₀.course engine r.module deeds) := by
  induction deeds using List.reverseRecOn with
  | nil => exact ⟨_, .start he hs r.module⟩
  | append_singleton deeds d ih =>
      obtain ⟨ρ, h⟩ := ih fun d' hd' => hproper d' (List.mem_append_left _ hd')
      rw [List.filter_append, course_append s₀ engine r.module deeds]
      cases d with
      | run callee inputs =>
          rw [course_append]
          exact h.run he hr (hproper _ (by simp))
      | furnish i =>
          refine ⟨ρ, ?_⟩
          rw [show [Deed.furnish i].filter Deed.isRun = [] from rfl, List.append_nil]
          exact h.furnish he i

/-- A variable that was given its cell before the first run has one, and its initial value is in it. -/
theorem exists_cell_of_furnished (hs : s₀.IsSound) {order : List Nat} {i : Nat} (hi : i ∈ order)
    {x : Variable} (hx : r.module.symbols[i]? = some (.variable x)) (hscalar : x.isScalar = true) :
    let made := (s₀.course engine r.module (order.map Deed.furnish)).session.memoryOf engine
    ∃ id v, made.global? i = some id ∧ (∀ function, Interpreted.initialValue function x = .ok v) ∧
      made.storage.cell? id = some ⟨x.type, v⟩ := by
  -- it was given the cell at some point, and keeps it
  obtain ⟨before, after, rfl⟩ := List.append_of_mem hi
  obtain ⟨id, hid⟩ : ∃ id, ((s₀.course engine r.module
      (before.map Deed.furnish ++ [.furnish i])).session.memoryOf engine).global? i = some id := by
    obtain ⟨-, hlater⟩ := course_later hs engine r.module (before.map Deed.furnish)
    rw [course_append]
    show ∃ id, (((s₀.course engine r.module (before.map Deed.furnish)).take engine r.module
      (.furnish i)).session.memoryOf engine).global? i = some id
    rw [Course.memoryOf_furnish hlater he]
    exact Memory.exists_global?_furnish hx hscalar
  have hkept := (course_onward he hr hs _ (after.map Deed.furnish)).keeps hid
  rw [List.append_assoc, ← List.map_singleton, ← List.map_append, ← List.map_append] at hkept
  -- nothing was run, so that no cell was come upon
  obtain ⟨ρ, h⟩ := ahead_course he hr hs ((before ++ i :: after).map Deed.furnish) fun d hd => by
    obtain ⟨j, -, rfl⟩ := List.mem_map.mp hd
    trivial
  rw [filter_isRun_furnish] at h
  obtain ⟨-, x', v, hx', hv, hcell⟩ := h.tied.2.2.2.spare i id (global?_memoryOf_start he i) hkept
  cases hx.symm.trans hx'
  exact ⟨id, v, hkept, fun function => (Interpreted.initialValue_eq_ok_iff "" function x v).mp hv, hcell⟩

end

/-! ## What can be told -/

/-- What can be told of what the runs came to, with the contents of cells up to a depth. -/
def Course.seen (p : Course) (depth : Nat) :
    List (Except Failure (Option (Ty × String) × Except Failure Int × Except Failure Int × Except Failure Fp)) :=
  p.answers.map (Except.map (RunResult.seen p.session.storage depth))

/-- The runs of two courses came to the same. -/
structure Course.Same (s : Session) (engine : Nat) (p q : Course) : Prop where
  /-- They failed with the same, and gave what cannot be told apart. -/
  seen : ∀ depth, p.seen depth = q.seen depth
  /-- The values that they gave are the same, but that cells are taken for one another that hold the same.  A
  cell that was there before is taken for itself, and the cell of a variable for the cell of that variable. -/
  answers : ∃ ρ : Renaming, ρ.Extends s.storage.settled ∧
    List.Forall₂ (Agree (RunResult.Renamed ρ)) p.answers q.answers ∧
    p.session.storage.Matched ρ q.session.storage ∧
    ∀ i a, (p.session.memoryOf engine).global? i = some a →
      ∃ b, (q.session.memoryOf engine).global? i = some b ∧ ρ.pairs a b

theorem Ahead.same (h : s₀.Ahead engine m ρ p q) : p.Same s₀ engine q where
  seen := RunResult.seen_of_agree h.tied.2.2.1 h.answers
  answers := ⟨ρ, h.there, h.answers, h.tied.2.2.1, h.tied.2.2.2.made⟩

/-- After things were done to an engine, nothing can be told of when the cells of its variables were made. -/
structure Unseen (s : Session) (engine : Nat) (m : Module) (deeds : List Deed) : Prop where
  /-- The runs came to what they come to if no cell is made before it is asked for. -/
  same : (s.course engine m (deeds.filter Deed.isRun)).Same s engine (s.course engine m deeds)
  /-- And to what they come to if variables are given their cells before the first run, in whatever order.  A
  variable that begins with a scalar, or with nothing, then has a cell, with its initial value in it. -/
  eager : ∀ order : List Nat,
    (s.course engine m (deeds.filter Deed.isRun)).Same s engine
      (s.course engine m (order.map Deed.furnish ++ deeds.filter Deed.isRun)) ∧
    ∀ i ∈ order, ∀ x, m.symbols[i]? = some (.variable x) → x.isScalar = true →
      let made := (s.course engine m (order.map Deed.furnish)).session.memoryOf engine
      ∃ id v, made.global? i = some id ∧ (∀ function, Interpreted.initialValue function x = .ok v) ∧
        made.storage.cell? id = some ⟨x.type, v⟩
  /-- Two references come to one cell if and only if they are to one variable, wherever they stand, and however
  much later the second comes to its cell. -/
  references : ∀ owner types f g env env' i j t t' a b mem mem₁ mem₂ mem₃,
    ((s.course engine m deeds).session.memoryOf engine).Onward m mem →
    (Interpreted.eval ⟨owner, types, m⟩ f env (.global i t)).on mem = (.ok (.cell a), mem₁) →
    mem₁.Onward m mem₂ →
    (Interpreted.eval ⟨owner, types, m⟩ g env' (.global j t')).on mem₂ = (.ok (.cell b), mem₃) →
    (a = b ↔ i = j)
  /-- Whatever else is done leads the memory onward. -/
  further : ∀ more, ((s.course engine m deeds).session.memoryOf engine).Onward m
    ((s.course engine m (deeds ++ more)).session.memoryOf engine)
  /-- So do the steps of a call, the first ones and those that follow. -/
  calls : ∀ owner types f args mem steps more, steps ≤ more →
    let after (n : Nat) : Memory :=
      ((Machine.call Interpreted.rules ⟨owner, types, m⟩ n f args).on mem).2
    mem.Onward m (after steps) ∧ (after steps).Onward m (after more)

/-- An engine that makes the cells of its variables when they are first asked for comes to the same as one that
makes them before: whatever is run on it, on whatever arguments that are there, in whatever order, and however
the runs end.  This is so whatever history led to the engine, if nothing was run on it yet. -/
theorem lazy_as_eager (h₀ : s₀.IsInitial) (history : List Request)
    (he : (s₀.after history).engine? engine = some ⟨engine, k, .interpreter, []⟩)
    (hr : (s₀.after history).module? k = some r) (deeds : List Deed)
    (hproper : ∀ d ∈ deeds, d.IsProper (s₀.after history)) :
    (s₀.after history).Unseen engine r.module deeds := by
  have hs := after_isSound h₀.isSound history
  refine ⟨?_, fun order => ⟨?_, fun i hi x hx hscalar => ?_⟩, ?_, ?_, ?_⟩
  · obtain ⟨ρ, h⟩ := ahead_course he hr hs deeds hproper
    exact h.same
  · obtain ⟨ρ, h⟩ := ahead_course he hr hs (order.map .furnish ++ deeds.filter Deed.isRun) fun d hd => by
      rcases List.mem_append.mp hd with hd | hd
      · obtain ⟨j, -, rfl⟩ := List.mem_map.mp hd
        trivial
      · exact hproper d (List.mem_filter.mp hd).1
    rw [List.filter_append, filter_isRun_furnish, List.nil_append, List.filter_filter] at h
    simp only [Bool.and_self] at h
    exact h.same
  · exact exists_cell_of_furnished he hr hs hi hx hscalar
  · intro owner types f g env env' i j t t' a b mem mem₁ mem₂ mem₃ honward hfirst hthen hsecond
    have hapart := Memory.IsApart.of_none (global?_memoryOf_start he)
    have hstart := course_onward he hr hs [] deeds
    exact Interpreted.cell_eq_iff ((hstart.trans honward).isApart hapart) hfirst hthen hsecond
  · exact course_onward he hr hs deeds
  · intro owner types f args mem steps more hle
    exact ⟨Interpreted.call_leads ⟨owner, types, r.module⟩ steps f args mem,
      Interpreted.call_onward ⟨owner, types, r.module⟩ f args mem hle⟩

/-! ## Two variables -/

/-- A variable that starts at 41 and one without an initializer, with a function that counts both up and adds
them, one that tells where the second is, and one that counts where it is told to, and fails. -/
def gauges : Draft where
  types := []
  globals := [⟨"a", .int 32, some (.constant (.typed (.int 32) (.int 41)))⟩, ⟨"b", .int 32, none⟩]
  functions := [
    ⟨"count", .int 32, [], false, some [⟨"e", "e", [
      ⟨some "v", "v", .op (.load (.symbol "a"))⟩,
      ⟨some "w", "w", .op (.int .add (.key "v") (.constant (.typed (.int 32) (.int 1))))⟩,
      ⟨none, "", .op (.store (.key "w") (.symbol "a"))⟩,
      ⟨some "x", "x", .op (.load (.symbol "b"))⟩,
      ⟨some "y", "y", .op (.int .add (.key "x") (.key "w"))⟩,
      ⟨none, "", .op (.ret (some (.key "y")))⟩]⟩]⟩,
    ⟨"place", .pointer (.int 32) 0, [], false, some [⟨"e", "e", [
      ⟨none, "", .op (.ret (some (.symbol "b")))⟩]⟩]⟩,
    ⟨"set", .void, [.pointer (.int 32) 0], false, some [⟨"e", "e", [
      ⟨none, "", .op (.store (.constant (.typed (.int 32) (.int 100))) (.key "0"))⟩,
      ⟨none, "", .op .unreachable⟩]⟩]⟩]

/-- An engine of the module, with the number 3. -/
def gauged : List Request :=
  [.createModule "m" none, .build 2 gauges, .createInterpreter 2]

/-- Runs on the engine, the third of which fails; the cell of the first variable is made beforehand. -/
def gauging : List Deed :=
  [.furnish 0, .run (.named "place") [], .run (.named "count") [],
    .run (.named "set") [.earlier (.pointer (.int 32) 0) 0], .run (.named "count") []]

/-- The integers that the runs gave. -/
def Course.integers (p : Course) : List (Option Int) := p.answers.map fun r => (payloadOf r).int?

/-- The sum is 42 first and 143 after the second variable was set to a hundred, whether the first has its cell
from the beginning or not, although the cells have other numbers then. -/
theorem lazy_as_eager_gauging : ∃ r, ((fresh .fresh).after gauged).module? 2 = some r ∧
    ((fresh .fresh).after gauged).Unseen 3 r.module gauging ∧
    (((fresh .fresh).after gauged).course 3 r.module gauging).integers = [none, some 42, none, some 143] := by
  have hchecked : (((fresh .fresh).after gauged).module? 2).any (fun r =>
      (((fresh .fresh).after gauged).course 3 r.module gauging).integers ==
        [none, some 42, none, some 143]) = true := by
    decide +kernel
  obtain ⟨r, hr, hintegers⟩ := (Option.any_eq_true _ _).mp hchecked
  have hunseen : ((fresh .fresh).after gauged).Unseen 3 r.module gauging :=
    lazy_as_eager (fresh_isInitial .fresh) gauged (engine?_of_startsOn (by decide +kernel)) hr gauging (by
      simp [gauging, Deed.IsProper, Callee.IsGiven, Input.IsThere])
  exact ⟨r, hr, hunseen, eq_of_beq hintegers⟩

end Session

end Ssa

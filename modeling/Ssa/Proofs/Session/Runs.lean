/-
# `Ssa.Proofs.Session.Runs` — what runs change, and what they depend on

A run reads the modules and the tables, and it reads and changes the memory of its engine.  Of a session
it leaves everything as it was but tables, which grow, and that memory.  So two sessions that have come
from one by runs alone admit the same runs; and if the memories of an engine are matched, a run on it does
the same on both.

**Proved here.**

    sessions that came from one by runs decide alike           (`Later.admission`)
    a run that is admitted, in full                              (`proceed_on`)
    a run changes the memory of its engine, and no other's table   (`run_later`, `globalsOf_run`)
    runs on matched memories do the same                           (`run_paired`)
    and what they give cannot be told apart                         (`RunResult.Renamed.seen`)
-/
import Ssa.Proofs.Exec.Sharing
import Ssa.Proofs.Session.Admission

namespace Ssa

open Effect (Paired)

/-! ## Values at the boundary -/

/-- Two values of the boundary are of one type, and are taken for one another. -/
structure GenericValue.Renamed (ρ : Renaming) (g g' : GenericValue) : Prop where
  type : g'.type = g.type
  payload : g.payload.Renamed ρ g'.payload

theorem GenericValue.Renamed.mono {ρ ρ' : Renaming} {g g' : GenericValue} (h : g.Renamed ρ g')
    (hρ : ρ'.Extends ρ) : g.Renamed ρ' g' := ⟨h.type, h.payload.mono hρ⟩

/-- Two results are no values, or values that are taken for one another. -/
abbrev RunResult.Renamed (ρ : Renaming) : RunResult → RunResult → Prop :=
  Option.Rel (GenericValue.Renamed ρ)

theorem RunResult.Renamed.mono {ρ ρ' : Renaming} {x y : RunResult} (h : x.Renamed ρ y)
    (hρ : ρ'.Extends ρ) : x.Renamed ρ' y := by
  cases h with
  | none => exact .none
  | some h => exact .some (h.mono hρ)

/-! ### What can be told of a result -/

section Seen

variable {ρ : Renaming} {s t : Storage} {v w : Value} {g g' : GenericValue} {x y : RunResult}

theorem Value.Renamed.display (hst : s.Matched ρ t) (h : v.Renamed ρ w) (depth : Nat) :
    w.display t depth = v.display s depth := by
  induction depth generalizing v w with
  | zero =>
      cases h with
      | cell hab => rfl
      | @same v hv => cases v <;> rfl
  | succ depth ih =>
      cases h with
      | cell hab =>
          obtain ⟨type, v, w, hs, ht, hvw⟩ := hst _ _ hab
          rw [Value.display, ht, Value.display, hs]
          dsimp only
          rw [ih hvw]
      | @same v hv => cases v <;> first | rfl | cases hv

theorem GenericValue.Renamed.toInt (h : g.Renamed ρ g') (signed : Bool) :
    g'.toInt signed = g.toInt signed := by
  obtain ⟨type, v⟩ := g
  obtain ⟨type', w⟩ := g'
  obtain ⟨rfl, hvw⟩ : type' = type ∧ v.Renamed ρ w := ⟨h.type, h.payload⟩
  cases hvw with
  | cell hab => rfl
  | same hv => rfl

theorem GenericValue.Renamed.toFp (h : g.Renamed ρ g') : g'.toFp = g.toFp := by
  obtain ⟨type, v⟩ := g
  obtain ⟨type', w⟩ := g'
  have hvw : v.Renamed ρ w := h.payload
  cases hvw with
  | cell hab => rfl
  | same hv => rfl

/-- What can be told of a result: its type and how it is displayed, with the contents of cells up to a
depth, and what it reads as. -/
def RunResult.seen (s : Storage) (depth : Nat) (r : RunResult) :
    Option (Ty × String) × Except Failure Int × Except Failure Int × Except Failure Fp :=
  (r.map fun g => (g.type, g.payload.display s depth), r.toInt false, r.toInt true, r.toFp)

/-- Where contents are matched, results that are taken for one another cannot be told apart. -/
theorem RunResult.Renamed.seen (hst : s.Matched ρ t) (h : x.Renamed ρ y) (depth : Nat) :
    y.seen t depth = x.seen s depth := by
  cases h with
  | none => rfl
  | some h =>
      unfold RunResult.seen RunResult.toInt RunResult.toFp
      dsimp only [Option.map_some]
      rw [h.type, h.payload.display hst depth, h.toInt, h.toInt, h.toFp]

/-- Nor can what several runs came to. -/
theorem RunResult.seen_of_agree {xs ys : List (Except Failure RunResult)} (hst : s.Matched ρ t)
    (h : List.Forall₂ (Agree (RunResult.Renamed ρ)) xs ys) (depth : Nat) :
    xs.map (Except.map (RunResult.seen s depth)) = ys.map (Except.map (RunResult.seen t depth)) := by
  induction h with
  | nil => rfl
  | cons hxy _ ih =>
      rw [List.map_cons, List.map_cons, ih]
      cases hxy with
      | error f => rfl
      | ok hxy =>
          show Except.ok _ :: _ = Except.ok _ :: _
          rw [hxy.seen hst depth]

end Seen

/-! ## Tables -/

/-- The record of a module, with a table that may have grown. -/
def ModuleRecord.Grown (r₀ r : ModuleRecord) : Prop :=
  ∃ table, r₀.table <+: table ∧ r = { r₀ with table }

namespace Session

variable {s s' s₀ : Session} {m id engine : Nat} {r r₀ : ModuleRecord} {ρ : Renaming}

theorem resultOf_renamed (t : Ty) {v w : Value} (h : v.Renamed ρ w) :
    Agree (RunResult.Renamed ρ) (resultOf t v) (resultOf t w) := by
  have hnormalize : Agree (RunResult.Renamed ρ) ((v.normalize t).map fun v => some ⟨t, v⟩)
      ((w.normalize t).map fun w => some ⟨t, w⟩) :=
    (h.normalize t).map fun _ _ hxy => .some ⟨rfl, hxy⟩
  cases t with
  | void => exact .ok .none
  | _ =>
      cases h with
      | cell hab => exact hnormalize
      | @same v hv =>
          cases v with
          | null => exact .ok (.some ⟨rfl, .null⟩)
          | _ => exact hnormalize

/-! ## Sessions that come from one by runs -/

/-- A session has what another has; only tables may have grown, and the memory may have changed. -/
structure Later (s₀ s : Session) : Prop where
  registry : s.registry = s₀.registry
  modules : ∀ id, Option.Rel ModuleRecord.Grown (s₀.module? id) (s.module? id)
  engines : ∀ id,
    Option.Rel (fun e₀ e => ∃ globals, e = { e₀ with globals }) (s₀.engine? id) (s.engine? id)

/-- A function to be run is given by name, or by a handle that has been given out. -/
def Callee.IsGiven (s : Session) : Callee → Prop
  | .handle (.member m index) => ∀ r, s.module? m = some r → index < r.table.length
  | _ => True

namespace Later

theorem refl (s : Session) : s.Later s where
  registry := rfl
  modules id := by
    cases s.module? id with
    | none => exact .none
    | some r => exact .some ⟨r.table, List.prefix_rfl, rfl⟩
  engines id := by
    cases s.engine? id with
    | none => exact .none
    | some e => exact .some ⟨e.globals, rfl⟩

end Later

/-- What is admitted is the same on two sessions, but for tables and the memory. -/
structure SameRun (a₀ a : EngineRecord × ModuleRecord × Function) : Prop where
  engine : ∃ globals, a.1 = { a₀.1 with globals }
  module : a.2.1.module = a₀.2.1.module
  function : a.2.2 = a₀.2.2

/-! ### What is decided -/

theorem recorded_agree {α : Type} {R : α → α → Prop} {x y : Option α} (h : Option.Rel R x y) (k : Kind)
    (id : Nat) : Agree R (recorded k id x) (recorded k id y) := by
  cases h with
  | none => exact .error _
  | some hab => exact .ok hab

namespace Later

theorem functionThere (h : s₀.Later s) (m symbol : Nat) :
    s.functionThere m symbol = s₀.functionThere m symbol := by
  refine (Agree.bind (recorded_agree (h.modules m) .module m) fun r₀ r hr => ?_).eq.symm
  obtain ⟨table, -, rfl⟩ := hr
  exact .of_eq rfl

theorem placed (h : s₀.Later s) {m index : Nat} (hgiven : (Callee.handle (.member m index)).IsGiven s₀) :
    s.placed m index = s₀.placed m index := by
  refine (Agree.bind (.of_eq (by rw [h.registry])) fun _ _ _ => ?_).eq.symm
  have hm := h.modules m
  rcases hr₀ : s₀.module? m with _ | r₀
  · rw [hr₀] at hm
    generalize s.module? m = y at hm
    cases hm
    exact .error _
  · rw [hr₀] at hm
    generalize s.module? m = y at hm
    cases hm with
    | some hr =>
        obtain ⟨table, ⟨rest, rfl⟩, rfl⟩ := hr
        dsimp only [recorded, bind, Except.bind]
        rw [List.getElem?_append_left (hgiven r₀ hr₀)]
        exact .of_eq rfl

theorem designated (h : s₀.Later s) (hr : r₀.Grown r) {callee : Callee} (hgiven : callee.IsGiven s₀) :
    s.designated r callee = s₀.designated r₀ callee := by
  have hown (owner symbol : Nat) : s.ownOnly r owner symbol = s₀.ownOnly r₀ owner symbol := by
    obtain ⟨table, -, rfl⟩ := hr
    unfold ownOnly
    split
    · rfl
    · refine (Agree.bind (.of_eq (h.functionThere owner symbol).symm) fun f _ hf => ?_).eq.symm
      subst hf
      refine .bind (recorded_agree (h.modules owner) .module owner) fun r₁ r₁' hr₁ => ?_
      obtain ⟨table', -, rfl⟩ := hr₁
      exact .error _
  cases callee with
  | named name =>
      obtain ⟨table, -, rfl⟩ := hr
      rfl
  | handle handle =>
      cases handle with
      | bare owner symbol => exact hown owner symbol
      | member owner index =>
          rw [Session.designated, h.placed hgiven, Session.designated]
          exact congrArg _ (funext fun symbol => hown owner symbol)

/-- The same is decided, on an engine whose memory may have changed. -/
theorem admission (h : s₀.Later s) {callee : Callee} (hgiven : callee.IsGiven s₀) (engine count : Nat) :
    Agree SameRun (s₀.admission engine callee count) (s.admission engine callee count) := by
  refine .bind (.of_eq (by rw [h.registry])) fun _ _ _ => ?_
  refine .bind (recorded_agree (h.engines engine) .engine engine) fun e₀ e he => ?_
  obtain ⟨globals, rfl⟩ := he
  refine .bind (.of_eq (by rw [h.registry])) fun _ _ _ => ?_
  refine .bind (recorded_agree (h.modules e₀.module) .module e₀.module) fun r₀ r hr => ?_
  refine .bind (.of_eq (h.designated hr hgiven).symm) fun symbol _ hsymbol => ?_
  refine .bind (.of_eq (by rw [hsymbol, h.functionThere])) fun f _ hf => ?_
  subst hf
  obtain ⟨table, -, rfl⟩ := hr
  exact .bind (.of_eq rfl) fun _ _ _ => .ok ⟨⟨globals, rfl⟩, rfl, rfl⟩

end Later

/-! ## The memory of an engine -/

/-- The cells of an engine's variables. -/
def globalsOf (s : Session) (engine : Nat) : List (Nat × Nat) :=
  (s.engine? engine).elim [] EngineRecord.globals

/-- The memory that a run on an engine starts from. -/
def memoryOf (s : Session) (engine : Nat) : Memory := ⟨s.storage, s.globalsOf engine⟩

/-- A session in which an engine has another memory. -/
def withMemory (s : Session) (engine : Nat) (mem : Memory) : Session :=
  { s with storage := mem.storage }.changeGlobals engine mem.globals

variable {e : EngineRecord} {mem : Memory}

theorem engine?_withMemory (s : Session) (engine : Nat) (mem : Memory) (id : Nat) :
    (s.withMemory engine mem).engine? id =
      (s.engine? id).map fun e => if e.id = engine then { e with globals := mem.globals } else e :=
  find?_number_map fun e _ => by
    split
    · rfl
    · rfl

theorem globalsOf_withMemory (h : id ≠ engine) :
    (s.withMemory engine mem).globalsOf id = s.globalsOf id := by
  rw [globalsOf, engine?_withMemory]
  cases he : s.engine? id with
  | none => rw [globalsOf, he]; rfl
  | some e =>
      obtain ⟨-, rfl⟩ := mem_ids_of_engine? he
      rw [Option.map_some, if_neg h, globalsOf, he]

theorem memoryOf_withMemory (h : s.engine? engine = some e) :
    (s.withMemory engine mem).memoryOf engine = mem := by
  obtain ⟨-, rfl⟩ := mem_ids_of_engine? h
  rw [memoryOf, globalsOf, engine?_withMemory, h, Option.map_some, if_pos rfl]
  rfl

theorem memoryOf_eq (h : s.engine? engine = some e) : s.memoryOf engine = ⟨s.storage, e.globals⟩ := by
  rw [memoryOf, globalsOf, h]
  rfl

theorem onMemory_on (s : Session) (e : EngineRecord) (run : Exec Value) :
    (onMemory e run).on s =
      ((run.on ⟨s.storage, e.globals⟩).1, s.withMemory e.id (run.on ⟨s.storage, e.globals⟩).2) := by
  rw [onMemory, Effect.on_bind_of_ok (Effect.on_get s)]
  have hrun : run.run.run ⟨s.storage, e.globals⟩ = run.on ⟨s.storage, e.globals⟩ := rfl
  rw [hrun]
  rcases run.on ⟨s.storage, e.globals⟩ with ⟨_ | _, _⟩ <;> rfl

/-- What a run does that is admitted: it is done on the memory of the engine, whatever it comes to. -/
theorem proceed_on (s : Session) (e : EngineRecord) (r : ModuleRecord) (f : Function)
    (args : List GenericValue) :
    (proceed e r f args).on s =
      (((Backend.start e.backend e.module r.module f (args.map GenericValue.payload)).on
          ⟨s.storage, e.globals⟩).1 >>= resultOf f.result,
        s.withMemory e.id ((Backend.start e.backend e.module r.module f (args.map GenericValue.payload)).on
          ⟨s.storage, e.globals⟩).2) := by
  rw [proceed, Effect.on_bind, onMemory_on]
  generalize (Backend.start e.backend e.module r.module f (args.map GenericValue.payload)).on _ = x
  rcases x with ⟨_ | v, _⟩
  · rfl
  · exact lift_on _

theorem module?_withTable_of_ne {table : List Nat} (h : id ≠ m) :
    (s.withTable m table).module? id = s.module? id := by
  have hfind : (s.withTable m table).module? id =
      (s.module? id).map fun r => if r.id = m then { r with table } else r :=
    find?_number_map fun r _ => by
      split
      · rfl
      · rfl
  rw [hfind]
  cases hr : s.module? id with
  | none => rfl
  | some r =>
      obtain ⟨-, rfl⟩ := mem_ids_of_module? hr
      rw [Option.map_some, if_neg h]

namespace Enlists

theorem engine? (h : s.Enlists s') (id : Nat) : s'.engine? id = s.engine? id := by
  cases h <;> rfl

theorem memoryOf (h : s.Enlists s') (engine : Nat) : s'.memoryOf engine = s.memoryOf engine := by
  cases h <;> rfl

end Enlists

theorem Later.enlists (h : s₀.Later s) (h' : s.Enlists s') : s₀.Later s' := by
  cases h' with
  | same => exact h
  | @table m r table hr htable =>
      refine ⟨h.registry, fun id => ?_, h.engines⟩
      have hid := h.modules id
      by_cases hm : id = m
      · subst hm
        rw [hr] at hid
        rw [module?_withTable hr]
        generalize s₀.module? id = x at hid
        cases hid with
        | some hgrown =>
            obtain ⟨table', htable', rfl⟩ := hgrown
            exact .some ⟨table, htable'.trans htable, rfl⟩
      · rw [module?_withTable_of_ne hm]
        exact hid

theorem Later.withMemory (h : s₀.Later s) (engine : Nat) (mem : Memory) :
    s₀.Later (s.withMemory engine mem) := by
  refine ⟨h.registry, h.modules, fun id => ?_⟩
  have hid := h.engines id
  rw [engine?_withMemory]
  generalize s₀.engine? id = x, s.engine? id = y at hid
  cases hid with
  | none => exact .none
  | some he =>
      obtain ⟨globals, rfl⟩ := he
      refine .some ?_
      dsimp only
      split
      · exact ⟨mem.globals, rfl⟩
      · exact ⟨globals, rfl⟩

/-! ## Runs -/

section

variable {callee : Callee} {args args' : List GenericValue} {had : Nat → Nat → Prop}
  {kept : Nat → Cell → Prop}

/-- What a run comes to that is admitted: what running the function on the memory of the engine comes
to. -/
theorem run_of_admission (hs : s.IsSound) {e : EngineRecord} {f : Function}
    (h : s.admission engine callee args.length = .ok (e, r, f)) :
    ((run engine callee args).on s).1 =
      ((Backend.start e.backend e.module r.module f (args.map GenericValue.payload)).on
        (s.memoryOf engine)).1 >>= resultOf f.result := by
  obtain ⟨s₁, h₁, hon⟩ := run_on hs engine callee args
  have he : s₁.engine? engine = some e := (h₁.engine? engine).trans (engine?_of_admission h)
  rw [hon, h, ← h₁.memoryOf engine, memoryOf_eq he]
  exact congrArg Prod.fst (proceed_on s₁ e r f args)

/-- A run changes no more than tables and the memory of its engine. -/
theorem run_leaves (hs : s.IsSound) (engine : Nat) (callee : Callee) (args : List GenericValue) :
    ∃ s₁, s.Enlists s₁ ∧ (((run engine callee args).on s).2 = s₁ ∨
      ∃ mem, ((run engine callee args).on s).2 = s₁.withMemory engine mem) := by
  obtain ⟨s₁, h₁, hon⟩ := run_on hs engine callee args
  refine ⟨s₁, h₁, ?_⟩
  rw [hon]
  cases ha : s.admission engine callee args.length with
  | error f => exact .inl rfl
  | ok a =>
      obtain ⟨-, hid⟩ := mem_ids_of_engine? (engine?_of_admission ha)
      have hleft := congrArg Prod.snd (proceed_on s₁ a.1 a.2.1 a.2.2 args)
      rw [hid] at hleft
      exact .inr ⟨_, hleft⟩

theorem run_later (hs : s.IsSound) (h : s₀.Later s) (engine : Nat) (callee : Callee)
    (args : List GenericValue) : s₀.Later ((run engine callee args).on s).2 := by
  obtain ⟨s₁, h₁, heq | ⟨mem, heq⟩⟩ := run_leaves hs engine callee args
  · rw [heq]
    exact h.enlists h₁
  · rw [heq]
    exact (h.enlists h₁).withMemory engine mem

/-- The variables of other engines keep their cells. -/
theorem globalsOf_run (hs : s.IsSound) (h : id ≠ engine) (callee : Callee) (args : List GenericValue) :
    ((run engine callee args).on s).2.globalsOf id = s.globalsOf id := by
  obtain ⟨s₁, h₁, heq | ⟨mem, heq⟩⟩ := run_leaves hs engine callee args
  · rw [heq, globalsOf, h₁.engine?, globalsOf]
  · rw [heq, globalsOf_withMemory h, globalsOf, h₁.engine?, globalsOf]

/-- Two sessions that came from one by runs, and in which the memories of an engine are matched and tied. -/
abbrev between (s₀ : Session) (engine : Nat) (K : Ties) : Pairing Session Session where
  Stage := Renaming
  holds ρ s t := s₀.Later s ∧ s₀.Later t ∧ K.pairing.holds ρ (s.memoryOf engine) (t.memoryOf engine)
  onward ρ ρ' := ρ'.Extends ρ
  refl := Renaming.Extends.refl
  trans := Renaming.Extends.trans

/-- The variables on both sides have cells that are taken for one another. -/
abbrev besides (s₀ : Session) (engine : Nat) (had : Nat → Nat → Prop) (kept : Nat → Cell → Prop) :
    Pairing Session Session :=
  s₀.between engine (.beside had kept)

/-- What an interpreter does on memories that are matched, once it is admitted. -/
theorem proceed_paired {t : Session} {K : Ties} (hst : (between s₀ engine K).holds ρ s t)
    {e e' : EngineRecord} (he : s.engine? engine = some e) (he' : t.engine? engine = some e')
    (hbackend : e.backend = .interpreter) (hsame : ∃ globals, e' = { e with globals })
    (hr : r₀.module = r.module) (hopens : K.Opens ⟨e.module, [], r.module⟩) (f : Function)
    (hargs : List.Forall₂ (GenericValue.Renamed ρ) args args') :
    Paired (between s₀ engine K) ρ (proceed e r f args) s (proceed e' r₀ f args') t RunResult.Renamed := by
  obtain ⟨globals, rfl⟩ := hsame
  obtain ⟨-, hid⟩ := mem_ids_of_engine? he
  have hmem := hst.2.2
  rw [memoryOf_eq he, memoryOf_eq he'] at hmem
  have hpayloads : List.Forall₂ (Value.Renamed ρ) (args.map GenericValue.payload)
      (args'.map GenericValue.payload) :=
    List.forall₂_map_left_iff.mpr (List.forall₂_map_right_iff.mpr (hargs.imp fun _ _ h => h.payload))
  obtain ⟨ρ', hρ, hmem', hagree⟩ := Ties.call_paired hopens hmem stepBound f hpayloads
  refine ⟨ρ', hρ, ?_, ?_⟩
  · rw [proceed_on, proceed_on, hbackend, hr, hid]
    refine ⟨hst.1.withMemory _ _, hst.2.1.withMemory _ _, ?_⟩
    rw [memoryOf_withMemory he, memoryOf_withMemory he']
    exact hmem'
  · rw [proceed_on, proceed_on, hbackend, hr]
    exact hagree.bind fun _ _ hvw => resultOf_renamed f.result hvw

/-- An engine that interprets does the same on memories that are matched, if the variables of its module come
to cells that are. -/
theorem run_paired {t : Session} {K : Ties} (hs : s.IsSound) (ht : t.IsSound)
    (hst : (between s₀ engine K).holds ρ s t) {e₀ : EngineRecord} (he : s₀.engine? engine = some e₀)
    (hbackend : e₀.backend = .interpreter)
    (hopens : ∀ r, s₀.module? e₀.module = some r → K.Opens ⟨e₀.module, [], r.module⟩)
    (hgiven : callee.IsGiven s₀) (hargs : List.Forall₂ (GenericValue.Renamed ρ) args args') :
    Paired (between s₀ engine K) ρ (run engine callee args) s (run engine callee args') t
      RunResult.Renamed := by
  obtain ⟨s₁, h₁, hon⟩ := run_on hs engine callee args
  obtain ⟨t₁, h₁', hon'⟩ := run_on ht engine callee args'
  rw [← hargs.length_eq] at hon'
  have hst₁ : (between s₀ engine K).holds ρ s₁ t₁ := by
    refine ⟨hst.1.enlists h₁, hst.2.1.enlists h₁', ?_⟩
    rw [h₁.memoryOf, h₁'.memoryOf]
    exact hst.2.2
  refine .of_on_eq hon hon' ?_
  -- both decide as the session does that they came from
  have hdecided := (hst.1.admission hgiven engine args.length).known.both
    (hst.2.1.admission hgiven engine args.length).known
  generalize hy : s.admission engine callee args.length = y, hz : t.admission engine callee args.length = z
    at hdecided ⊢
  cases hdecided with
  | error f => exact ⟨ρ, .refl ρ, hst₁, .error f⟩
  | @ok a b h =>
      obtain ⟨⟨e, r, f⟩, ⟨ha, ha₀, -⟩, hb, -, -⟩ := h
      have he₁ : s₁.engine? engine = some a.1 := by rw [h₁.engine?, engine?_of_admission hy]
      have he₂ : t₁.engine? engine = some b.1 := by rw [h₁'.engine?, engine?_of_admission hz]
      cases (engine?_of_admission ha₀).symm.trans he
      have hr := (function_of_admission ha₀).1
      obtain ⟨globals, hea⟩ := ha.engine
      obtain ⟨globals', heb⟩ := hb.engine
      show Paired (between s₀ engine K) ρ (proceed a.1 a.2.1 a.2.2 args) s₁
        (proceed b.1 b.2.1 b.2.2 args') t₁ RunResult.Renamed
      rw [hb.function, ← ha.function]
      refine proceed_paired hst₁ he₁ he₂ (by rw [hea, hbackend]) ⟨globals', by rw [heb, hea]⟩
        (hb.module.trans ha.module.symm) ?_ a.2.2 hargs
      rw [hea, ha.module]
      exact hopens r hr

end

end Session

end Ssa

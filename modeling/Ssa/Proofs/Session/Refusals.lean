/-
# `Ssa.Proofs.Session.Refusals` — which runs are admitted, and what the others leave

A run is admitted if its engine is live, if the module of the engine is live, if the function is one of that
module, and if it takes as many arguments as there are.  This is also the order in which it is looked at, so
a run that is not admitted is refused for the first of these that does not hold.  Only what is admitted is
handed to what runs it.

A run that is refused leaves the cells as they are, and the engines.  The one thing it may leave is a place in
a table, as looking up a name does; and what a handle leads to, that was given out before, does not depend on
what is added to a table.  So whatever is run later comes to the same.

**Proved here.**

    what is admitted                                            (`admission_eq_ok_iff`)
    what a run is refused for, and that there is nothing else     (`Refuses.admission_eq`, `admits_or_refuses`)
    handles that were given out go on to be held                   (`Gives.isHeld`, `IsHeld.after`)
    runs on sessions that differ in tables come to the same          (`answers_eq`)
    a run is admitted, or refused without a trace                     (`run_admitted_or_refused`)
-/
import Ssa.Proofs.Session.Handles
import Ssa.Proofs.Session.Names
import Ssa.Proofs.Session.Turns

namespace Ssa

/-- A function takes a number of arguments: one for each parameter, or more if it is variadic. -/
def Function.Takes (f : Function) (count : Nat) : Prop :=
  count = f.params.length ∨ f.params.length < count ∧ f.variadic = true

namespace Session

variable {s s' t s₀ : Session} {m id i k engine count : Nat} {r r' : ModuleRecord} {f : Function}
  {e : EngineRecord} {callee : Callee} {args : List GenericValue} {code : String} {failure : Failure}

/-! ## What is meant, and what is missed -/

/-- What a function to be run denotes in a module: the function of the name, the one at a place of the
module's own table, or, for a bare handle to a function of the module, that one. -/
inductive Callee.Denotes (r : ModuleRecord) : Callee → Function → Prop
  | named {k : Nat} {f : Function} : r.module.function? k = some f → Denotes r (.named f.name) f
  | member {i k : Nat} {f : Function} : r.table[i]? = some k → r.module.function? k = some f →
      Denotes r (.handle (.member r.id i)) f
  | bare {k : Nat} {f : Function} : r.module.function? k = some f → Denotes r (.handle (.bare r.id k)) f

/-- Why nothing of a module is meant, with the code and the failure of a run that asks for it: no function
has the name, the function is one of another module, or the handle is one of a module that is gone. -/
inductive Callee.Misses (s : Session) (r : ModuleRecord) : Callee → String → Failure → Prop
  | unnamed {name : String} : ¬ r.module.NamesFunction name →
      Misses s r (.named name) "IH0506" (.noFunction name r.name)
  | foreign {m i k : Nat} {f : Function} {r' : ModuleRecord} : m ≠ r.id → s.isLive m = true →
      s.module? m = some r' → r'.table[i]? = some k → r'.module.function? k = some f →
      Misses s r (.handle (.member m i)) "IH0402" (.foreign s!"function '{f.name}'" r'.name r.name)
  | foreignBare {m k : Nat} {f : Function} {r' : ModuleRecord} : m ≠ r.id →
      s.module? m = some r' → r'.module.function? k = some f →
      Misses s r (.handle (.bare m k)) "IH0402" (.foreign s!"function '{f.name}'" r'.name r.name)
  | stale {m i : Nat} : m ≠ r.id → s.isLive m = false →
      Misses s r (.handle (.member m i)) "IH0401" (.disposed Kind.module.word (toString m))

/-- A function to be run that a caller may hold: a name, or a handle to a function of a module, live or
not. -/
inductive Callee.IsHeld (s : Session) : Callee → Prop
  | named {name : String} : IsHeld s (.named name)
  | member {m i k : Nat} {f : Function} {r : ModuleRecord} : s.module? m = some r → r.table[i]? = some k →
      r.module.function? k = some f → IsHeld s (.handle (.member m i))
  | bare {m k : Nat} {f : Function} {r : ModuleRecord} : s.module? m = some r →
      r.module.function? k = some f → IsHeld s (.handle (.bare m k))

/-! ### Deciding it -/

theorem functionThere_of_function? (hr : s.module? m = some r) (hf : r.module.function? k = some f) :
    s.functionThere m k = .ok f := by
  rw [functionThere, hr]
  dsimp only [recorded, bind, Except.bind]
  rw [hf]
  rfl

theorem placed_of_live (hs : s.IsSound) (hr : s.module? m = some r) (hlive : s.isLive m = true)
    (hi : r.table[i]? = some k) : s.placed m i = .ok k := by
  rw [placed, hs.numbers.get_iff.mpr ⟨(mem_ids_of_module? hr).1, hlive⟩, hr]
  dsimp only [recorded, bind, Except.bind]
  rw [hi]
  rfl

theorem placed_of_gone (hlive : s.isLive m = false) :
    s.placed m i = .error (.disposed Kind.module.word (toString m)) := by
  have hget : s.registry.get m Kind.module.word = .error (.disposed Kind.module.word (toString m)) :=
    Registry.get_of_not_live hlive
  rw [placed, hget]
  rfl

theorem ownOnly_foreign (hm : m ≠ r.id) (hr' : s.module? m = some r') (hf : r'.module.function? k = some f) :
    s.ownOnly r m k = .error (.foreign s!"function '{f.name}'" r'.name r.name) := by
  rw [ownOnly, if_neg hm, functionThere_of_function? hr' hf, hr']
  rfl

/-- What is meant is found. -/
theorem Callee.Denotes.designated (h : callee.Denotes r f) (hs : s.IsSound) (hr : s.module? m = some r)
    (hlive : s.isLive m = true) :
    ∃ k, s.designated r callee = .ok k ∧ r.module.function? k = some f := by
  obtain ⟨-, rfl⟩ := mem_ids_of_module? hr
  have hown (k : Nat) : s.ownOnly r r.id k = .ok k := if_pos rfl
  cases h with
  | @named k _ hf =>
      refine ⟨k, ?_, hf⟩
      rw [Session.designated, functionIndex?_of_function? hs hr hf]
  | @member i k _ hi hf =>
      refine ⟨k, ?_, hf⟩
      rw [Session.designated, placed_of_live hs hr hlive hi]
      exact hown k
  | @bare k _ hf => exact ⟨k, hown k, hf⟩

/-- What is found is meant. -/
theorem denotes_of_designated (hs : s.IsSound) (hr : s.module? m = some r)
    (h : s.designated r callee = .ok k) (hf : r.module.function? k = some f) : callee.Denotes r f := by
  obtain ⟨hmem, rfl⟩ := hs.module?_iff.mp hr
  have howner {owner k' : Nat} (h : s.ownOnly r owner k' = .ok k) : owner = r.id ∧ k' = k := by
    rw [ownOnly] at h
    split at h
    · cases h
      exact ⟨‹_›, rfl⟩
    · obtain ⟨_, -, h⟩ := ok_of_bind h
      obtain ⟨_, -, h⟩ := ok_of_bind h
      cases h
  cases callee with
  | named name =>
      rw [designated] at h
      split at h
      case h_2 => cases h
      rename_i hindex
      cases h
      obtain ⟨f', hf', rfl⟩ := (hs.named r hmem).functionIndex?_eq_some_iff.mp hindex
      cases hf.symm.trans hf'
      exact .named hf
  | handle h' =>
      cases h' with
      | bare owner symbol =>
          obtain ⟨rfl, rfl⟩ := howner h
          exact .bare hf
      | member owner index =>
          obtain ⟨symbol, hplaced, h⟩ := ok_of_bind h
          obtain ⟨rfl, rfl⟩ := howner h
          obtain ⟨_, -, hplaced⟩ := ok_of_bind hplaced
          obtain ⟨r', hr', hplaced⟩ := ok_of_bind hplaced
          cases hr.symm.trans (of_recorded hr')
          split at hplaced
          · cases hplaced
            exact .member ‹_› hf
          · cases hplaced

/-- What is missed is refused, for the reason given. -/
theorem Callee.Misses.designated (h : callee.Misses s r code failure) (hs : s.IsSound)
    (hr : s.module? m = some r) : s.designated r callee = .error failure := by
  cases h with
  | unnamed hnot => rw [Session.designated, functionIndex?_of_not_named hs hr hnot]
  | foreign hne hlive hr' hi hf =>
      rw [Session.designated, placed_of_live hs hr' hlive hi]
      exact ownOnly_foreign hne hr' hf
  | foreignBare hne hr' hf => exact ownOnly_foreign hne hr' hf
  | stale _ hlive =>
      rw [Session.designated, placed_of_gone hlive]
      rfl

/-- What is held denotes a function of a module, or misses it. -/
theorem Callee.IsHeld.denotes_or_misses (h : callee.IsHeld s) (hr : s.module? m = some r) :
    (∃ f, callee.Denotes r f) ∨ ∃ code failure, callee.Misses s r code failure := by
  obtain ⟨-, rfl⟩ := mem_ids_of_module? hr
  cases h with
  | @named name =>
      by_cases hname : r.module.NamesFunction name
      · obtain ⟨k, f, hf, rfl⟩ := hname
        exact .inl ⟨f, .named hf⟩
      · exact .inr ⟨_, _, .unnamed hname⟩
  | @member m i k f r' hr' hi hf =>
      by_cases hm : m = r.id
      · subst hm
        cases hr.symm.trans hr'
        exact .inl ⟨f, .member hi hf⟩
      · cases hlive : s.isLive m with
        | true => exact .inr ⟨_, _, .foreign hm hlive hr' hi hf⟩
        | false => exact .inr ⟨_, _, .stale hm hlive⟩
  | @bare m k f r' hr' hf =>
      by_cases hm : m = r.id
      · subst hm
        cases hr.symm.trans hr'
        exact .inl ⟨f, .bare hf⟩
      · exact .inr ⟨_, _, .foreignBare hm hr' hf⟩

/-! ### Handles that are held -/

/-- What is held goes on to be held, whatever is done. -/
theorem Callee.IsHeld.after (h : callee.IsHeld s) (hs : s.IsSound) (later : List Request) :
    callee.IsHeld (s.after later) := by
  have hgrows := after_grows hs later
  cases h with
  | named => exact .named
  | member hr hi hf =>
      obtain ⟨r', hr', -, hkeeps, rest, hrest⟩ := hgrows.module _ _ hr
      obtain ⟨f', hf', -⟩ := hkeeps.function hf
      refine .member hr' ?_ hf'
      rw [← hrest, List.getElem?_append_left (List.getElem?_eq_some_iff.mp hi).1, hi]
  | bare hr hf =>
      obtain ⟨r', hr', -, hkeeps, -⟩ := hgrows.module _ _ hr
      obtain ⟨f', hf', -⟩ := hkeeps.function hf
      exact .bare hr' hf'

/-- A handle that a module gives out is held. -/
theorem Gives.isHeld {h : Handle} {name? : Option String} (hgives : s.Gives m h name? s') (hs : s.IsSound) :
    Callee.IsHeld s' (.handle h) := by
  obtain ⟨-, k, f, ⟨i, r, rfl, -, hr, hi, hf⟩, -⟩ := hgives.places hs
  exact .member hr hi hf

/-! ## What is admitted, and what is refused -/

theorem checkCount_of_takes (h : f.Takes count) : checkCount f count = .ok () := by
  rw [checkCount, if_neg]
  rcases h with rfl | ⟨hlt, hvariadic⟩
  · simp
  · simp [hvariadic, hlt.le]

theorem checkCount_of_not (h : ¬f.Takes count) :
    checkCount f count = .error (.argumentCount f.name f.params.length count) := by
  rw [checkCount, if_pos]
  obtain ⟨hne, hnot⟩ := not_or.mp h
  rcases Nat.lt_or_gt_of_ne hne with hlt | hgt
  · simp [hlt]
  · have hvariadic : f.variadic = false := by simpa [hgt] using hnot
    simp [hgt, hvariadic]

/-- A run is to be admitted: engine and module are live, the function is one of the module, and it takes that
many arguments. -/
structure Admits (s : Session) (engine : Nat) (callee : Callee) (count : Nat) (e : EngineRecord)
    (r : ModuleRecord) (f : Function) : Prop where
  engineLive : s.isLive engine = true
  engine? : s.engine? engine = some e
  moduleLive : s.isLive e.module = true
  module? : s.module? e.module = some r
  denotes : callee.Denotes r f
  takes : f.Takes count

/-- What a run on an engine is refused for, with the code and the failure: the first condition that does not
hold, of those that are looked at in turn. -/
inductive Refuses (s : Session) (engine : Nat) (e : EngineRecord) (callee : Callee) (count : Nat) :
    String → Failure → Prop
  | engineGone : s.isLive engine = false →
      Refuses s engine e callee count "IH0401" (.disposed Kind.engine.word (toString engine))
  | moduleGone : s.isLive engine = true → s.isLive e.module = false →
      Refuses s engine e callee count "IH0401" (.disposed Kind.module.word (toString e.module))
  | missed {r : ModuleRecord} {code : String} {failure : Failure} : s.isLive engine = true →
      s.isLive e.module = true → s.module? e.module = some r → callee.Misses s r code failure →
      Refuses s engine e callee count code failure
  | miscounted {r : ModuleRecord} {f : Function} : s.isLive engine = true → s.isLive e.module = true →
      s.module? e.module = some r → callee.Denotes r f → ¬f.Takes count →
      Refuses s engine e callee count "IH0503" (.argumentCount f.name f.params.length count)

theorem Refuses.code_eq (h : s.Refuses engine e callee count code failure) :
    failure.listing?.map Prod.fst = some code := by
  cases h with
  | engineGone | moduleGone | miscounted => rfl
  | missed _ _ _ hmisses => cases hmisses <;> rfl

/-- What is decided where engine and module are live. -/
theorem admission_of_live (hs : s.IsSound) (hlive : s.isLive engine = true) (he : s.engine? engine = some e)
    (hmodule : s.isLive e.module = true) (hr : s.module? e.module = some r) :
    s.admission engine callee count = (do
      let f ← s.functionThere e.module (← s.designated r callee)
      checkCount f count
      pure (e, r, f)) := by
  rw [admission, hs.numbers.get_iff.mpr ⟨(mem_ids_of_engine? he).1, hlive⟩, he]
  dsimp only [recorded, bind, Except.bind]
  rw [hs.numbers.get_iff.mpr ⟨(mem_ids_of_module? hr).1, hmodule⟩, hr]

/-- Where the callee denotes a function besides, it is the number of arguments that decides. -/
theorem admission_of_denotes (hs : s.IsSound) (hlive : s.isLive engine = true) (he : s.engine? engine = some e)
    (hmodule : s.isLive e.module = true) (hr : s.module? e.module = some r) (hdenotes : callee.Denotes r f) :
    s.admission engine callee count = (do
      checkCount f count
      pure (e, r, f)) := by
  obtain ⟨k, hk, hf⟩ := hdenotes.designated hs hr hmodule
  rw [admission_of_live hs hlive he hmodule hr, hk]
  dsimp only [bind, Except.bind]
  rw [functionThere_of_function? hr hf]

/-- What is admitted is what is to be. -/
theorem admission_eq_ok_iff (hs : s.IsSound) :
    s.admission engine callee count = .ok (e, r, f) ↔ s.Admits engine callee count e r f := by
  constructor
  · intro h
    have he := engine?_of_admission h
    obtain ⟨hr, ⟨k, hk, hf⟩, hcount⟩ := function_of_admission h
    obtain ⟨_, hengine, h⟩ := ok_of_bind h
    obtain ⟨_, he', h⟩ := ok_of_bind h
    cases he.symm.trans (of_recorded he')
    obtain ⟨_, hmodule, -⟩ := ok_of_bind h
    refine ⟨(hs.numbers.get_iff.mp hengine).2, he, (hs.numbers.get_iff.mp hmodule).2, hr,
      denotes_of_designated hs hr hk hf, by_contra fun hnot => ?_⟩
    rw [checkCount_of_not hnot] at hcount
    cases hcount
  · rintro ⟨hengine, he, hmodule, hr, hdenotes, htakes⟩
    rw [admission_of_denotes hs hengine he hmodule hr hdenotes, checkCount_of_takes htakes]
    rfl

/-- What a run is refused for is the first condition that does not hold. -/
theorem Refuses.admission_eq (h : s.Refuses engine e callee count code failure) (hs : s.IsSound)
    (he : s.engine? engine = some e) : s.admission engine callee count = .error failure := by
  cases h with
  | engineGone hengine =>
      have hget : s.registry.get engine Kind.engine.word =
          .error (.disposed Kind.engine.word (toString engine)) := Registry.get_of_not_live hengine
      rw [admission, hget]
      rfl
  | moduleGone hengine hmodule =>
      have hget : s.registry.get e.module Kind.module.word =
          .error (.disposed Kind.module.word (toString e.module)) := Registry.get_of_not_live hmodule
      rw [admission, hs.numbers.get_iff.mpr ⟨(mem_ids_of_engine? he).1, hengine⟩, he]
      dsimp only [recorded, bind, Except.bind]
      rw [hget]
  | missed hengine hmodule hr hmisses =>
      rw [admission_of_live hs hengine he hmodule hr, hmisses.designated hs hr]
      rfl
  | miscounted hengine hmodule hr hdenotes hnot =>
      rw [admission_of_denotes hs hengine he hmodule hr hdenotes, checkCount_of_not hnot]
      rfl

/-- There is nothing that is neither to be admitted nor refused. -/
theorem admits_or_refuses (hs : s.IsSound) (he : s.engine? engine = some e) (hheld : callee.IsHeld s)
    (count : Nat) : (∃ r f, s.Admits engine callee count e r f) ∨
      ∃ code failure, s.Refuses engine e callee count code failure := by
  cases hengine : s.isLive engine with
  | false => exact .inr ⟨_, _, .engineGone hengine⟩
  | true =>
      cases hmodule : s.isLive e.module with
      | false => exact .inr ⟨_, _, .moduleGone hengine hmodule⟩
      | true =>
          obtain ⟨r, hr⟩ := hs.module_of_mem (hs.bound e (hs.engine?_iff.mp he).1)
          rcases hheld.denotes_or_misses hr with ⟨f, hf⟩ | ⟨code, failure, hmisses⟩
          · by_cases htakes : f.Takes count
            · exact .inl ⟨r, f, hengine, he, hmodule, hr, hf, htakes⟩
            · exact .inr ⟨_, _, .miscounted hengine hmodule hr hf htakes⟩
          · exact .inr ⟨code, failure, .missed hengine hmodule hr hmisses⟩

/-! ## What is left -/

/-- A run that is asked for: on an engine, of a function, on arguments. -/
structure Job where
  engine : Nat
  callee : Callee
  args : List GenericValue

/-- What runs come to that are made one after another. -/
def answers (s : Session) : List Job → List (Except Failure RunResult)
  | [] => []
  | j :: jobs =>
    let r := (run j.engine j.callee j.args).on s
    r.1 :: r.2.answers jobs

/-- Two sessions that came from one by runs have the same cells and engines. -/
structure Level (s₀ s t : Session) : Prop where
  sound : s.IsSound ∧ t.IsSound
  later : s₀.Later s ∧ s₀.Later t
  storage : t.storage = s.storage
  engines : t.engines = s.engines

theorem Enlists.storage (h : s.Enlists s') : s'.storage = s.storage := by
  cases h <;> rfl

theorem Enlists.engines (h : s.Enlists s') : s'.engines = s.engines := by
  cases h <;> rfl

theorem withMemory_engines (h : t.engines = s.engines) (mem : Memory) :
    (t.withMemory engine mem).engines = (s.withMemory engine mem).engines := by
  show t.engines.map _ = s.engines.map _
  rw [h]

/-- A run comes to the same on both, and leaves the same cells and engines. -/
theorem Level.run (h : s₀.Level s t) (hgiven : callee.IsGiven s₀) (engine : Nat) (args : List GenericValue) :
    ((run engine callee args).on t).1 = ((run engine callee args).on s).1 ∧
      s₀.Level ((run engine callee args).on s).2 ((run engine callee args).on t).2 := by
  have hsound : ((Session.run engine callee args).on s).2.IsSound ∧
      ((Session.run engine callee args).on t).2.IsSound :=
    ⟨isSound_of_goes (run_goes h.sound.1 _ _) rfl, isSound_of_goes (run_goes h.sound.2 _ _) rfl⟩
  have hlater := And.intro (run_later h.sound.1 h.later.1 engine callee args)
    (run_later h.sound.2 h.later.2 engine callee args)
  obtain ⟨s₁, h₁, hon⟩ := run_on h.sound.1 engine callee args
  obtain ⟨t₁, h₁', hon'⟩ := run_on h.sound.2 engine callee args
  have hstorage : t₁.storage = s₁.storage := by rw [h₁'.storage, h₁.storage, h.storage]
  have hengines : t₁.engines = s₁.engines := by rw [h₁'.engines, h₁.engines, h.engines]
  have hdecided := (h.later.1.admission hgiven engine args.length).known.both
    (h.later.2.admission hgiven engine args.length).known
  rw [hon] at hsound hlater ⊢
  rw [hon'] at hsound hlater ⊢
  generalize hy : s.admission engine callee args.length = y, hz : t.admission engine callee args.length = z
    at hdecided hsound hlater ⊢
  cases hdecided with
  | error failure => exact ⟨rfl, hsound, hlater, hstorage, hengines⟩
  | @ok a b hab =>
      obtain ⟨e, r, f⟩ := a
      obtain ⟨e', r', f'⟩ := b
      obtain ⟨_, ⟨ha, -, -⟩, hb, -, -⟩ := hab
      obtain rfl : e' = e := by
        have he' := engine?_of_admission hz
        rw [Session.engine?, h.engines] at he'
        exact Option.some.inj (he'.symm.trans (engine?_of_admission hy))
      obtain rfl : f' = f := hb.function.trans ha.function.symm
      have hmodule : r'.module = r.module := hb.module.trans ha.module.symm
      have hon₁ := proceed_on s₁ e' r f' args
      have hon₂ := proceed_on t₁ e' r' f' args
      rw [hmodule, hstorage] at hon₂
      show ((proceed e' r' f' args).on t₁).1 = ((proceed e' r f' args).on s₁).1 ∧
        s₀.Level ((proceed e' r f' args).on s₁).2 ((proceed e' r' f' args).on t₁).2
      refine ⟨by rw [hon₁, hon₂], hsound, hlater, ?_, ?_⟩
      · rw [hon₁, hon₂]
        rfl
      · rw [hon₁, hon₂]
        exact withMemory_engines hengines _

/-- Runs come to the same on sessions that have the same cells and engines. -/
theorem answers_eq (h : s₀.Level s t) {jobs : List Job} (hgiven : ∀ j ∈ jobs, j.callee.IsGiven s₀) :
    t.answers jobs = s.answers jobs := by
  induction jobs generalizing s t with
  | nil => rfl
  | cons j jobs ih =>
      obtain ⟨hj, hjobs⟩ := List.forall_mem_cons.mp hgiven
      obtain ⟨hanswer, hlevel⟩ := h.run hj j.engine j.args
      rw [answers, answers, hanswer, ih hlevel hjobs]

theorem Looks.isSound (h : s.Looks engine callee s') (hs : s.IsSound) : s'.IsSound := by
  cases h with
  | same => exact hs
  | @named e r name k _ _ hmodule hr hindex =>
      exact isSound_of_goes (lookup_goes hs name) (lookup_on_some hs hr hmodule hindex)

/-- No cell and no engine was changed, and whatever is run later comes to what it comes to without that. -/
structure IsUnmarked (s s' : Session) : Prop where
  storage : s'.storage = s.storage
  engines : s'.engines = s.engines
  answers : ∀ jobs : List Job, (∀ j ∈ jobs, j.callee.IsGiven s) → s'.answers jobs = s.answers jobs

theorem Enlists.isUnmarked (h : s.Enlists s') (hs : s.IsSound) (hs' : s'.IsSound) : s.IsUnmarked s' where
  storage := h.storage
  engines := h.engines
  answers _ hgiven := answers_eq
    ⟨⟨hs, hs'⟩, ⟨.refl s, (Later.refl s).enlists h⟩, h.storage, h.engines⟩ hgiven

/-- An engine that keeps its memory is as it was. -/
theorem withMemory_memoryOf (hs : s.IsSound) (he : s.engine? engine = some e) :
    s.withMemory engine (s.memoryOf engine) = s := by
  have hsame : s.engines.map (fun e' => if e'.id = engine then { e' with globals := e.globals } else e') =
      s.engines := by
    refine (List.map_congr_left fun e' he' => ?_).trans (List.map_id _)
    split
    · rename_i hid
      cases (hs.engine?_iff.mpr ⟨he', hid⟩).symm.trans he
      rfl
    · rfl
  rw [memoryOf_eq he, withMemory, changeGlobals, hsame]

/-- The interpreter runs no declaration. -/
theorem call_of_isDeclaration {rules : Rules} {p : Program} {steps : Nat} {vs : List Value}
    (h : f.isDeclaration = true) (mem : Memory) :
    (Machine.call rules p steps f vs).on mem = (.error (.noBody f.name), mem) := by
  unfold Machine.call Machine.enter
  rw [if_pos h]
  rfl

/-- A declaration that is admitted is refused by the interpreter, which leaves what deciding leaves. -/
theorem run_declared (hs : s.IsSound) (hbackend : e.backend = .interpreter)
    (h : s.Admits engine callee args.length e r f) (hdeclared : f.isDeclaration = true) :
    ∃ s₁, s.Looks engine callee s₁ ∧ (run engine callee args).on s = (.error (.noBody f.name), s₁) := by
  obtain ⟨s₁, hlooks, hadmit⟩ := admitting_on hs engine callee args.length
  rw [(admission_eq_ok_iff hs).mpr h] at hadmit
  refine ⟨s₁, hlooks, ?_⟩
  have he : s₁.engine? engine = some e := (hlooks.enlists.engine? engine).trans h.engine?
  have hcall : (Backend.start e.backend e.module r.module f (args.map GenericValue.payload)).on
      ⟨s₁.storage, e.globals⟩ = (.error (.noBody f.name), ⟨s₁.storage, e.globals⟩) := by
    rw [hbackend]
    exact call_of_isDeclaration hdeclared _
  have hproceed := proceed_on s₁ e r f args
  rw [hcall, ← memoryOf_eq he, (mem_ids_of_engine? he).2, withMemory_memoryOf (hlooks.isSound hs) he] at hproceed
  rw [run_eq, Effect.on_bind_of_ok hadmit]
  exact hproceed

/-- How it is decided about a run on an engine that interprets its module, and what a run leaves that is not
admitted. -/
structure IsDecided (s : Session) (engine : Nat) (callee : Callee) (args : List GenericValue)
    (e : EngineRecord) : Prop where
  /-- What is handed to the interpreter is exactly what is to be admitted. -/
  handed : ∀ a, ((admitting engine callee args.length).on s).1 = .ok a ↔
    ∃ r f, s.Admits engine callee args.length e r f ∧ a = (e, r.module, f)
  /-- The interpreter runs that function of the module on the memory of the engine, and what it comes to is
  what the run comes to. -/
  runs : ∀ r f, s.Admits engine callee args.length e r f →
    ((run engine callee args).on s).1 =
      ((Machine.call Interpreted.rules ⟨e.module, [], r.module⟩ stepBound f
        (args.map GenericValue.payload)).on (s.memoryOf engine)).1 >>= resultOf f.result
  /-- It refuses a declaration. -/
  declared : ∀ r f, s.Admits engine callee args.length e r f → f.isDeclaration = true →
    ((run engine callee args).on s).1 = .error (.noBody f.name) ∧
      (Failure.noBody f.name).listing?.map Prod.fst = some "IH0502" ∧
      s.IsUnmarked ((run engine callee args).on s).2
  /-- What is not to be admitted is refused. -/
  whole : (∃ r f, s.Admits engine callee args.length e r f) ∨
    ∃ code failure, s.Refuses engine e callee args.length code failure
  /-- It is refused with the failure of the first condition that does not hold, and that has the code given.
  The session is left as it was, but that a function which is given by name, and to which the number of
  arguments does not suit, is looked up. -/
  refused : ∀ code failure, s.Refuses engine e callee args.length code failure →
    ((run engine callee args).on s).1 = .error failure ∧ failure.listing?.map Prod.fst = some code ∧
      s.IsUnmarked ((run engine callee args).on s).2 ∧
      (((run engine callee args).on s).2 = s ∨ code = "IH0503" ∧
        ∃ name, callee = .named name ∧ ((run engine callee args).on s).2 = ((lookup e.module name).on s).2)

/-- Only a function to which the number of arguments does not suit is looked up for nothing. -/
theorem Refuses.looks (h : s.Refuses engine e callee count code failure) (hs : s.IsSound)
    (he : s.engine? engine = some e) (hlooks : s.Looks engine callee s') :
    s' = s ∨ code = "IH0503" ∧ ∃ name, callee = .named name ∧ s' = ((lookup e.module name).on s).2 := by
  cases hlooks with
  | same => exact .inl rfl
  | @named e' r name k hlive he' hmodule hr hindex =>
      cases he.symm.trans he'
      cases h with
      | engineGone hgone => nomatch hlive.symm.trans hgone
      | moduleGone _ hgone => nomatch hmodule.symm.trans hgone
      | missed _ _ hr' hmisses =>
          cases hr.symm.trans hr'
          cases hmisses with
          | unnamed hnot => nomatch hindex.symm.trans (functionIndex?_of_not_named hs hr hnot)
      | miscounted => exact .inr ⟨rfl, name, rfl, by rw [lookup_on_some hs hr hmodule hindex]⟩

/-- After any history, a run on an engine that interprets its module is admitted exactly if engine and module
are live, the function is one of the module, and it takes that many arguments.  Otherwise it is refused for
the first of these that does not hold, and leaves no trace. -/
theorem run_admitted_or_refused {s₀ : Session} (h₀ : s₀.IsInitial) (history : List Request) {engine : Nat}
    {e : EngineRecord} (he : (s₀.after history).engine? engine = some e) (hbackend : e.backend = .interpreter)
    {callee : Callee} (hheld : callee.IsHeld (s₀.after history)) (args : List GenericValue) :
    (s₀.after history).IsDecided engine callee args e := by
  have hs := after_isSound h₀.isSound history
  generalize s₀.after history = s at he hheld hs ⊢
  refine ⟨fun a => ?_, fun r f h => ?_, fun r f h hdeclared => ?_, admits_or_refuses hs he hheld _,
    fun code failure h => ?_⟩
  · obtain ⟨s₁, -, hon⟩ := admitting_on hs engine callee args.length
    rw [hon]
    constructor
    · intro h
      obtain ⟨⟨e', r, f⟩, hadmission, rfl⟩ := ok_of_map h
      cases he.symm.trans (engine?_of_admission hadmission)
      exact ⟨r, f, (admission_eq_ok_iff hs).mp hadmission, rfl⟩
    · rintro ⟨r, f, h, rfl⟩
      rw [(admission_eq_ok_iff hs).mpr h]
      rfl
  · rw [run_of_admission hs ((admission_eq_ok_iff hs).mpr h), hbackend]
    rfl
  · obtain ⟨s₁, hlooks, hon⟩ := run_declared hs hbackend h hdeclared
    rw [hon]
    exact ⟨rfl, rfl, hlooks.enlists.isUnmarked hs (hlooks.isSound hs)⟩
  · obtain ⟨s₁, hlooks, hon⟩ := run_refused hs (h.admission_eq hs he)
    rw [hon]
    exact ⟨rfl, h.code_eq, hlooks.enlists.isUnmarked hs (hlooks.isSound hs), h.looks hs he hlooks⟩

/-- A draft of one function, which returns a number. -/
def telling (n : Int) : Draft where
  types := []
  globals := []
  functions := [⟨"k", .int 32, [], false, some [⟨"e", "e", [
    ⟨none, "", .op (.ret (some (.constant (.typed (.int 32) (.int n)))))⟩]⟩]⟩]

/-- Two modules, with the numbers 2 and 3, that each have a function of one name, and an engine that interprets
the first of them. -/
def namesakes : List Request :=
  [.createModule "m" none, .build 2 (telling 2), .createModule "n" none, .build 3 (telling 1), .functions 3,
    .createInterpreter 2]

theorem Callee.isHeld_member (h : ((s.module? m).bind fun r =>
    (r.table[i]?).bind r.module.function?).isSome = true) : Callee.IsHeld s (.handle (.member m i)) := by
  obtain ⟨f, hf⟩ := Option.isSome_iff_exists.mp h
  obtain ⟨r, hr, hf⟩ := Option.bind_eq_some_iff.mp hf
  obtain ⟨k, hk, hf⟩ := Option.bind_eq_some_iff.mp hf
  exact .member hr hk hf

/-- The function of the other module is refused, although there is one of that name. -/
theorem run_admitted_or_refused_namesakes :
    let s := (fresh .fresh).after namesakes
    s.IsDecided 4 (.handle (.member 3 0)) [] ⟨4, 2, .interpreter, []⟩ ∧
      ((run 4 (.handle (.member 3 0)) []).on s).1 = .error (.foreign "function 'k'" "n" "m") :=
  ⟨run_admitted_or_refused (fresh_isInitial .fresh) namesakes (engine?_of_startsOn (by decide +kernel)) rfl
    (Callee.isHeld_member (by decide +kernel)) [], Effect.eq_error_of_failure? (by decide +kernel)⟩

end Session

end Ssa

/-
# `Ssa.Proofs.Session.Admission` — how a run is admitted

Before anything is run, the engine and its module have to be live, the function has to be one of the
module, and the number of arguments has to suit it.  What is decided depends on the registry, the records
and the tables alone.  Deciding may enter the function into the table of the module, if it is given by
name, and leaves everything else as it is.

**Proved here.**

    which function is meant, or why none is        (`position_on`)
    what deciding comes to, and what it leaves       (`admitting_on`)
    a run: refused, or admitted and then done on the memory   (`run_refused`, `run_on`)
-/
import Ssa.Proofs.Session.Verdict

namespace Ssa.Session

variable {s s' : Session} {m id : Nat} {r : ModuleRecord}

/-! ## What is decided -/

/-- A record that is there, or the failure that the thing is gone. -/
def recorded {α : Type} (k : Kind) (id : Nat) : Option α → Except Failure α
  | some r => .ok r
  | none => .error (.disposed k.word (toString id))

/-- The function at a position of a module. -/
def functionThere (s : Session) (m symbol : Nat) : Except Failure Function := do
  let r ← recorded .module m (s.module? m)
  match r.module.function? symbol with
  | some f => pure f
  | none => .error .lacksAttribute

/-- The position that a place in the table of a module leads to. -/
def placed (s : Session) (m index : Nat) : Except Failure Nat := do
  s.registry.get m Kind.module.word
  let r ← recorded .module m (s.module? m)
  match r.table[index]? with
  | some symbol => pure symbol
  | none => .error .beyondEnd

/-- A function of the module itself, or the refusal of one of another module. -/
def ownOnly (s : Session) (r : ModuleRecord) (owner symbol : Nat) : Except Failure Nat :=
  if owner = r.id then .ok symbol
  else do
    let f ← s.functionThere owner symbol
    let r' ← recorded .module owner (s.module? owner)
    .error (.foreign s!"function '{f.name}'" r'.name r.name)

/-- The position in a module of the function that is to be run, or why it is refused. -/
def designated (s : Session) (r : ModuleRecord) : Callee → Except Failure Nat
  | .named name =>
    match r.module.functionIndex? name with
    | some symbol => .ok symbol
    | none => .error (.noFunction name r.name)
  | .handle (.bare owner symbol) => s.ownOnly r owner symbol
  | .handle (.member owner index) => do s.ownOnly r owner (← s.placed owner index)

/-- What is to be run, by which engine and of which module, or why it is refused. -/
def admission (s : Session) (engine : Nat) (callee : Callee) (count : Nat) :
    Except Failure (EngineRecord × ModuleRecord × Function) := do
  s.registry.get engine Kind.engine.word
  let e ← recorded .engine engine (s.engine? engine)
  s.registry.get e.module Kind.module.word
  let r ← recorded .module e.module (s.module? e.module)
  let f ← s.functionThere e.module (← s.designated r callee)
  checkCount f count
  pure (e, r, f)

theorem of_recorded {α : Type} {k : Kind} {o : Option α} {a : α} (h : recorded k id o = .ok a) :
    o = some a := by
  cases o with
  | none => cases h
  | some b =>
      cases h
      rfl

/-- What is admitted is run by the engine that was asked. -/
theorem engine?_of_admission {engine count : Nat} {callee : Callee}
    {a : EngineRecord × ModuleRecord × Function} (h : s.admission engine callee count = .ok a) :
    s.engine? engine = some a.1 := by
  obtain ⟨_, -, h⟩ := ok_of_bind h
  obtain ⟨e, he, h⟩ := ok_of_bind h
  obtain ⟨_, -, h⟩ := ok_of_bind h
  obtain ⟨r, -, h⟩ := ok_of_bind h
  obtain ⟨symbol, -, h⟩ := ok_of_bind h
  obtain ⟨f, -, h⟩ := ok_of_bind h
  obtain ⟨_, -, h⟩ := ok_of_bind h
  cases h
  exact of_recorded he

/-- What is admitted is a function of the module, and takes that many arguments. -/
theorem function_of_admission {engine count : Nat} {callee : Callee} {e : EngineRecord} {f : Function}
    (h : s.admission engine callee count = .ok (e, r, f)) :
    s.module? e.module = some r ∧
      (∃ symbol, s.designated r callee = .ok symbol ∧ r.module.function? symbol = some f) ∧
      checkCount f count = .ok () := by
  obtain ⟨_, -, h⟩ := ok_of_bind h
  obtain ⟨e', -, h⟩ := ok_of_bind h
  obtain ⟨_, -, h⟩ := ok_of_bind h
  obtain ⟨r', hr, h⟩ := ok_of_bind h
  obtain ⟨symbol, hsymbol, h⟩ := ok_of_bind h
  obtain ⟨f', hf, h⟩ := ok_of_bind h
  obtain ⟨_, hcount, h⟩ := ok_of_bind h
  cases h
  have hr := of_recorded hr
  refine ⟨hr, ⟨symbol, hsymbol, ?_⟩, hcount⟩
  rw [functionThere, hr] at hf
  dsimp only [recorded, bind, Except.bind] at hf
  split at hf
  · cases hf
    assumption
  · cases hf

/-! ## What deciding leaves -/

/-- A session in which a table may have grown. -/
inductive Enlists (s : Session) : Session → Prop
  | same : Enlists s s
  | table {m : Nat} {r : ModuleRecord} {table : List Nat} :
      s.module? m = some r → r.table <+: table → Enlists s (s.withTable m table)

/-- The session that is left when it was decided what an engine is to run: the same, or, if engine and
module are live and the name is that of a function, the one in which the function was looked up. -/
inductive Looks (s : Session) (engine : Nat) : Callee → Session → Prop
  | same {callee : Callee} : Looks s engine callee s
  | named {e : EngineRecord} {r : ModuleRecord} {name : String} {k : Nat} : s.isLive engine = true →
      s.engine? engine = some e → s.isLive e.module = true → s.module? e.module = some r →
      r.module.functionIndex? name = some k →
      Looks s engine (.named name) (s.withTable e.module (enlist r.table k))

theorem Looks.enlists {engine : Nat} {callee : Callee} (h : s.Looks engine callee s') : s.Enlists s' := by
  cases h with
  | same => exact .same
  | named _ _ _ hr _ => exact .table hr (prefix_enlist _ _)

/-- The table of a module when it was asked for the function that is to be run: one that is found by name
is entered. -/
def enlisted (r : ModuleRecord) : Callee → List Nat
  | .named name => (r.module.functionIndex? name).elim r.table (enlist r.table)
  | .handle _ => r.table

/-! ## Steps -/

theorem moduleRecord_eq (s : Session) (m : Nat) :
    (moduleRecord m).on s = (recorded .module m (s.module? m), s) := by
  cases h : s.module? m with
  | some r => exact moduleRecord_on h
  | none => exact moduleRecord_of_none h

theorem engineRecord_eq (s : Session) (id : Nat) :
    (engineRecord id).on s = (recorded .engine id (s.engine? id), s) := by
  cases h : s.engine? id with
  | some r => exact engineRecord_on h
  | none => exact engineRecord_of_none h

theorem contextRecord_eq (s : Session) (id : Nat) :
    (contextRecord id).on s = (recorded .context id (s.context? id), s) := by
  rw [contextRecord, Effect.on_bind_of_ok (Effect.on_get s)]
  cases s.context? id <;> rfl

theorem functionAt_eq (s : Session) (m symbol : Nat) :
    (functionAt m symbol).on s = (s.functionThere m symbol, s) := by
  refine Effect.on_bind_same (moduleRecord_eq s m) fun r _ => ?_
  cases r.module.function? symbol <;> rfl

theorem resolve_member_eq (s : Session) (m index : Nat) :
    (resolve (.member m index)).on s = ((s.placed m index).map fun symbol => (m, symbol), s) := by
  have hlive : (liveModule m).on s = (do
      s.registry.get m Kind.module.word
      recorded .module m (s.module? m), s) :=
    Effect.on_bind_same (require_on .module m) fun _ _ => moduleRecord_eq s m
  rw [resolve, Effect.on_bind, hlive, placed]
  cases s.registry.get m Kind.module.word with
  | error e => rfl
  | ok u =>
      cases s.module? m with
      | none => rfl
      | some r =>
          dsimp only [recorded, bind, Except.bind]
          cases r.table[index]? <;> rfl

theorem ownOnly_eq (hr : s.module? m = some r) (owner symbol : Nat) :
    (if owner = m then pure symbol
      else do
        let f ← functionAt owner symbol
        throw (.foreign s!"function '{f.name}'" (← moduleRecord owner).name (← moduleRecord m).name) :
        Act Nat).on s = (s.ownOnly r owner symbol, s) := by
  obtain ⟨-, rfl⟩ := mem_ids_of_module? hr
  unfold ownOnly
  split
  · rfl
  · refine Effect.on_bind_same (functionAt_eq s owner symbol) fun f _ => ?_
    refine Effect.on_bind_same (moduleRecord_eq s owner) fun r' _ => ?_
    rw [Effect.on_bind_of_ok (moduleRecord_on hr)]
    rfl

/-- Which function is meant, and the table that is left. -/
theorem position_on (hs : s.IsSound) (hr : s.module? m = some r) (hlive : s.isLive m = true)
    (callee : Callee) :
    (position m callee).on s = (s.designated r callee, s.withTable m (enlisted r callee)) := by
  have hsame : s.withTable m r.table = s := hs.changeModule_self hr rfl
  cases callee with
  | named name =>
      cases hindex : r.module.functionIndex? name with
      | none =>
          rw [position, Effect.on_bind_of_ok (lookup_on_none hs hr hlive hindex), designated,
            enlisted, hindex, Option.elim_none, hsame]
          exact Effect.on_bind_of_ok (moduleRecord_on hr)
      | some k =>
          have hlookup := lookup_on_some hs hr hlive hindex
          have hs₁ := isSound_of_goes (lookup_goes hs name) hlookup
          have hresolve := resolve_on hs₁ (module?_withTable hr (enlist r.table k)) hlive
            (getElem?_idxOf_enlist r.table k)
          rw [position, Effect.on_bind_of_ok hlookup, designated, enlisted, hindex]
          exact Effect.on_bind_of_ok hresolve
  | handle h =>
      rw [enlisted, hsame]
      cases h with
      | bare owner symbol => exact ownOnly_eq hr owner symbol
      | member owner index =>
          have hresolve := resolve_member_eq s owner index
          rw [position, designated]
          cases hplaced : s.placed owner index with
          | error e =>
              rw [hplaced] at hresolve
              split
              · exact Effect.on_bind_of_error hresolve
              · exact Effect.on_bind_of_error (Effect.on_bind_of_error hresolve)
          | ok symbol =>
              rw [hplaced] at hresolve
              refine Eq.trans ?_ (ownOnly_eq hr owner symbol)
              split
              · exact Effect.on_bind_of_ok hresolve
              · -- a function of another module is looked up once more, for its name
                have hfunction : (functionOf (.member owner index)).on s = (functionAt owner symbol).on s :=
                  Effect.on_bind_of_ok hresolve
                rw [Effect.on_bind, hfunction, ← Effect.on_bind]

/-! ## Runs -/

/-- The first part of a run, in which it is decided whether anything is run, and what: by which engine, of
which module, and which function. -/
def admitting (engine : Nat) (callee : Callee) (count : Nat) : Act (EngineRecord × Module × Function) := do
  require .engine engine
  let e ← engineRecord engine
  require .module e.module
  let symbol ← position e.module callee
  let f ← functionAt e.module symbol
  lift (checkCount f count)
  return (e, (← moduleRecord e.module).module, f)

/-- What a run does once it is admitted. -/
def proceed (e : EngineRecord) (r : ModuleRecord) (f : Function) (args : List GenericValue) :
    Act RunResult := do
  let v ← onMemory e (Backend.start e.backend e.module r.module f (args.map GenericValue.payload))
  lift (resultOf f.result v)

/-- Only what is admitted is handed to what runs it. -/
theorem run_eq (engine : Nat) (callee : Callee) (args : List GenericValue) :
    run engine callee args = (do
      let a ← admitting engine callee args.length
      let v ← onMemory a.1
        (Backend.start a.1.backend a.1.module a.2.1 a.2.2 (args.map GenericValue.payload))
      lift (resultOf a.2.2.result v)) := by
  simp only [run, admitting, bind_assoc, pure_bind]

section Deciding

variable {α β γ : Type} {x : Act α} {u : Except Failure α} {f : α → Act γ} {g : α → Except Failure β}
  {part : β → γ} {P : Session → Prop}

/-- A step by which something is decided. -/
theorem decided_next (hx : x.on s = (u, s'))
    (h : ∀ a, u = .ok a → (f a).on s' = ((g a).map part, s')) :
    (x >>= f).on s = ((u >>= g).map part, s') := by
  cases u with
  | error e => exact Effect.on_bind_of_error hx
  | ok a => exact (Effect.on_bind_of_ok hx).trans (h a rfl)

/-- A step by which something is decided, and which only reads. -/
theorem decided_first (hs : P s) (hx : x.on s = (u, s))
    (h : ∀ a, u = .ok a → ∃ s₁, P s₁ ∧ (f a).on s = ((g a).map part, s₁)) :
    ∃ s₁, P s₁ ∧ (x >>= f).on s = ((u >>= g).map part, s₁) := by
  cases u with
  | error e => exact ⟨s, hs, Effect.on_bind_of_error hx⟩
  | ok a =>
      obtain ⟨s₁, h₁, hon⟩ := h a rfl
      exact ⟨s₁, h₁, (Effect.on_bind_of_ok hx).trans hon⟩

end Deciding

/-- What is decided once engine and module are known to be live. -/
theorem settling_on (hs : s.IsSound) (hr : s.module? m = some r) (hlive : s.isLive m = true)
    (e : EngineRecord) (callee : Callee) (count : Nat) :
    (do
      let symbol ← position m callee
      let f ← functionAt m symbol
      lift (checkCount f count)
      return (e, (← moduleRecord m).module, f) : Act (EngineRecord × Module × Function)).on s =
      ((do
        let f ← s.functionThere m (← s.designated r callee)
        checkCount f count
        pure (e, r, f) : Except Failure (EngineRecord × ModuleRecord × Function)).map fun a =>
          (a.1, a.2.1.module, a.2.2), s.withTable m (enlisted r callee)) := by
  have hr' := module?_withTable hr (enlisted r callee)
  have hthere (symbol : Nat) : (s.withTable m (enlisted r callee)).functionThere m symbol =
      s.functionThere m symbol := by
    rw [functionThere, hr', functionThere, hr]
    rfl
  refine decided_next (position_on hs hr hlive callee) fun symbol _ => ?_
  refine decided_next ((functionAt_eq _ _ _).trans (by rw [hthere])) fun f _ => ?_
  refine decided_next (lift_on _) fun _ _ => ?_
  rw [Effect.on_bind_of_ok (moduleRecord_on hr')]
  rfl

/-- What deciding leaves where engine and module are live. -/
theorem admitting_leaves (hs : s.IsSound) {engine : Nat} {e : EngineRecord} (hengine : s.isLive engine = true)
    (he : s.engine? engine = some e) (hr : s.module? e.module = some r) (hlive : s.isLive e.module = true)
    (callee : Callee) (count : Nat) :
    ((admitting engine callee count).on s).2 = s.withTable e.module (enlisted r callee) := by
  rw [admitting, Effect.on_bind_of_ok (hs.require_on (mem_ids_of_engine? he).1 hengine),
    Effect.on_bind_of_ok (engineRecord_on he),
    Effect.on_bind_of_ok (hs.require_on (mem_ids_of_module? hr).1 hlive)]
  exact congrArg Prod.snd (settling_on hs hr hlive e callee count)

/-- What is decided; at most a name was looked up for it. -/
theorem admitting_on (hs : s.IsSound) (engine : Nat) (callee : Callee) (count : Nat) :
    ∃ s₁, s.Looks engine callee s₁ ∧ (admitting engine callee count).on s =
      ((s.admission engine callee count).map fun a => (a.1, a.2.1.module, a.2.2), s₁) := by
  refine decided_first .same (require_on .engine engine) fun _ hget => ?_
  obtain ⟨-, hengine⟩ := hs.numbers.get_iff.mp hget
  refine decided_first .same (engineRecord_eq s engine) fun e he => ?_
  refine decided_first .same (require_on .module e.module) fun _ hget => ?_
  obtain ⟨hmem, hlive⟩ := hs.numbers.get_iff.mp hget
  obtain ⟨r, hr⟩ := hs.module_of_mem hmem
  refine ⟨s.withTable e.module (enlisted r callee), ?_, ?_⟩
  · have hsame : s.withTable e.module r.table = s := hs.changeModule_self hr rfl
    cases callee with
    | named name =>
        cases hindex : r.module.functionIndex? name with
        | none =>
            rw [enlisted, hindex, Option.elim_none, hsame]
            exact .same
        | some k =>
            rw [enlisted, hindex]
            exact .named hengine (of_recorded he) hlive hr hindex
    | handle h =>
        rw [enlisted, hsame]
        exact .same
  · rw [hr]
    exact settling_on hs hr hlive e callee count

/-- A run that is refused leaves what deciding leaves. -/
theorem run_refused (hs : s.IsSound) {engine : Nat} {callee : Callee} {args : List GenericValue}
    {failure : Failure} (h : s.admission engine callee args.length = .error failure) :
    ∃ s₁, s.Looks engine callee s₁ ∧ (run engine callee args).on s = (.error failure, s₁) := by
  obtain ⟨s₁, h₁, hadmit⟩ := admitting_on hs engine callee args.length
  rw [h] at hadmit
  exact ⟨s₁, h₁, by rw [run_eq, Effect.on_bind_of_error hadmit]⟩

/-- A run is decided on, and goes on from a session in which a table may have grown. -/
theorem run_on (hs : s.IsSound) (engine : Nat) (callee : Callee) (args : List GenericValue) :
    ∃ s₁, s.Enlists s₁ ∧ (run engine callee args).on s =
      (lift (s.admission engine callee args.length) >>= fun a => proceed a.1 a.2.1 a.2.2 args).on s₁ := by
  obtain ⟨s₁, h₁, hadmit⟩ := admitting_on hs engine callee args.length
  refine ⟨s₁, h₁.enlists, ?_⟩
  rw [run_eq, Effect.on_bind, hadmit]
  cases s.admission engine callee args.length <;> rfl

end Ssa.Session

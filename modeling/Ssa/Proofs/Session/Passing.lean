/-
# `Ssa.Proofs.Session.Passing` — integers are passed alike to interpreter and compiled code

An engine that interprets a module and one that runs its compiled code are given the same integers.  What
the parameters of a function hold on entry is the same for both, unless an even integer other than zero
is passed at width one.  So if the compiled code does with the same integers in its parameters what
interpreting does, the two engines give the same results.

**Proved here.**

    the same integers, the same values on entry, the same results     (`integers_pass_alike`)
    two is false to the one and true to the other                      (`two_passes_unlike`)
-/
import Ssa.Proofs.Exec.Passing
import Ssa.Proofs.Session.Request
import Ssa.Proofs.Session.Runs

namespace Ssa

/-! ## Values on entry -/

/-- The parameters of a function that is interpreted on values hold what the environment says. -/
def Interpreted.Enters (f : Function) (vs : List Value) (env : Env) : Prop :=
  Machine.bindParams f.params vs 0 = .ok env

/-- The parameters of a compiled function that is called with values hold what the environment says:
all types can be passed, all values cross over, and they are bound as they have crossed over. -/
def Compiled.Enters (f : Function) (vs : List Value) (env : Env) : Prop :=
  ∃ (carriers : List Carrier) (passed : List Value), f.params.mapM carrier = .ok carriers ∧
    (∀ mem : Memory, ((carriers.zip vs).mapM fun (c, v) => c.pass v : Exec (List Value)).on mem =
      (.ok passed, mem)) ∧
    Machine.bindParams f.params passed 0 = .ok env

/-- Whatever is passed at width one is zero or odd. -/
def PlainTruths (params : List Ty) (vs : List Value) : Prop :=
  ∀ tv ∈ params.zip vs, tv.1 = .int 1 → ∀ n, tv.2.int? = some n → IsPlainTruth n

section

variable {f : Function} {vs : List Value}

theorem interpreted_enters (hparams : ∀ t ∈ f.params, t.isWord = true) (hvs : AreIntegers vs) :
    Interpreted.Enters f vs (entry wrapped f.params vs 0) :=
  bindParams_entry hparams hvs 0

theorem compiled_enters (hparams : ∀ t ∈ f.params, t.isWord = true) (hvs : AreIntegers vs)
    (hlength : vs.length = f.params.length) :
    Compiled.Enters f vs (entry crossed f.params vs 0) := by
  obtain ⟨carriers, hcarriers, hpass⟩ := Compiled.pass_all hparams hvs hlength 0
  exact ⟨carriers, _, hcarriers, hpass, bindParams_values wrap_crossed hparams 0⟩

/-- What the parameters of a compiled function hold is determined by what it is called with. -/
theorem Compiled.Enters.unique {env env' : Env} (h : Compiled.Enters f vs env)
    (h' : Compiled.Enters f vs env') : env = env' := by
  obtain ⟨carriers, passed, hcarriers, hpass, hbind⟩ := h
  obtain ⟨carriers', passed', hcarriers', hpass', hbind'⟩ := h'
  cases hcarriers.symm.trans hcarriers'
  have hpassed := (hpass default).symm.trans (hpass' default)
  cases (Prod.mk.inj hpassed).1
  exact Except.ok.inj (hbind.symm.trans hbind')

/-- A function that was entered has a body. -/
theorem isDeclaration_of_call {rules : Rules} {p : Program} {steps : Nat} {mem mem' : Memory} {v : Value}
    (h : (Machine.call rules p steps f vs).on mem = (.ok v, mem')) : f.isDeclaration = false := by
  cases hf : f.isDeclaration with
  | false => rfl
  | true =>
      have henter : (Machine.enter rules p f vs).on mem = (.error (.noBody f.name), mem) := by
        rw [Machine.enter, hf]
        rfl
      rw [Machine.call, Effect.on_bind_of_error henter] at h
      cases h

/-- An integer comes back from compiled code as it is, and nothing comes back as nothing. -/
theorem resultOf_back {back : Compiled.Carrier} {v v' : Value}
    (hresult : f.result = .void ∨ f.result.isWord = true) (hback : Compiled.carrier f.result = .ok back)
    (hv : f.result = .void ∨ v' = v) :
    Session.resultOf f.result (back.result v') = Session.resultOf f.result v := by
  rcases hresult with hvoid | hword
  · rw [hvoid]
    rfl
  · obtain ⟨w, hw, hcarrier⟩ := Compiled.carrier_of_isWord hword
    have hv : v' = v := hv.resolve_left (by rw [hw]; nofun)
    rw [hcarrier] at hback
    cases hback
    subst hv
    have hsame : Compiled.Carrier.result (if w = 1 then .truth else .word w) v' = v' := by
      split <;> rfl
    rw [hsame]

end

namespace Session

variable {s s₀ : Session} {i j : Nat} {callee : Callee} {args : List GenericValue} {ei ej : EngineRecord}
  {r : ModuleRecord} {f : Function} {types : TypeTable}

/-! ## Runs -/

/-- On the given values in the parameters, and from the memories of two engines, interpreting a function
comes to a value, and the code compiled of it comes to the same.  What comes to nothing is the same. -/
def ComesAlike (s : Session) (i j owner : Nat) (types : TypeTable) (r : ModuleRecord) (f : Function)
    (given : List Value) (v : Value) : Prop :=
  (∃ mem, (Machine.call Interpreted.rules ⟨owner, [], r.module⟩ stepBound f given).on (s.memoryOf i) =
    (.ok v, mem)) ∧
  ∃ v' mem, (Machine.call Compiled.rules ⟨owner, types, r.module.snapshot⟩ stepBound f.snapshot given).on
    (s.memoryOf j) = (.ok v', mem) ∧ (f.result = .void ∨ v' = v)

theorem run_interpreted (hs : s.IsSound) (hi : s.admission i callee args.length = .ok (ei, r, f))
    (hbackend : ei.backend = .interpreter) (hparams : ∀ t ∈ f.params, t.isWord = true)
    (hargs : AreIntegers (args.map GenericValue.payload)) {v : Value} {mem : Memory}
    (hcall : (Machine.call Interpreted.rules ⟨ei.module, [], r.module⟩ stepBound f
      ((entry wrapped f.params (args.map GenericValue.payload) 0).map Prod.snd)).on (s.memoryOf i) =
        (.ok v, mem)) :
    ((run i callee args).on s).1 = resultOf f.result v := by
  rw [run_of_admission hs hi, hbackend]
  show ((Machine.call Interpreted.rules ⟨ei.module, [], r.module⟩ stepBound f
    (args.map GenericValue.payload)).on (s.memoryOf i)).1 >>= resultOf f.result = _
  rw [call_entry hparams hargs, hcall]
  rfl

theorem run_compiled (hs : s.IsSound) (hj : s.admission j callee args.length = .ok (ej, r, f))
    (hbackend : ej.backend = .compiled types r.module.snapshot)
    (hparams : ∀ t ∈ f.params, t.isWord = true) (hresult : f.result = .void ∨ f.result.isWord = true)
    (hargs : AreIntegers (args.map GenericValue.payload)) (hlength : args.length = f.params.length)
    {v v' : Value} {mem : Memory} (hv : f.result = .void ∨ v' = v)
    (hcall : (Machine.call Compiled.rules ⟨ej.module, types, r.module.snapshot⟩ stepBound f.snapshot
      ((entry crossed f.params (args.map GenericValue.payload) 0).map Prod.snd)).on (s.memoryOf j) =
        (.ok v', mem)) :
    ((run j callee args).on s).1 = resultOf f.result v := by
  obtain ⟨hr, ⟨k, -, hf⟩, -⟩ := function_of_admission hj
  have hnamed := hs.named r (hs.module?_iff.mp hr).1
  have hbody : f.isDeclaration = false := by
    simpa [Function.isDeclaration, Function.snapshot] using isDeclaration_of_call hcall
  obtain ⟨back, hback, hon⟩ := Compiled.invoke_on ej.module types stepBound
    hnamed hf hbody hparams hresult hargs (by rw [List.length_map, hlength]) (s.memoryOf j)
  rw [Effect.on_bind_of_ok hcall] at hon
  rw [run_of_admission hs hj, hbackend]
  show ((Compiled.invoke ⟨ej.module, types, r.module.snapshot⟩ stepBound f.name f.result f.params
    (args.map GenericValue.payload)).on (s.memoryOf j)).1 >>= resultOf f.result = _
  rw [hon]
  exact resultOf_back hresult hback hv

/-- Integers are passed alike to a function that is interpreted and to one that is compiled: both take
every list of integers of the right length, of whatever types they are given as; and what the parameters
hold on entry is the same if and only if no even integer other than zero is passed at width one.  If it
is the same, then in every session that was reached an engine that interprets a module and one that runs
its compiled code give equal results, where the compiled code does as interpreting does on what the
parameters hold. -/
theorem integers_pass_alike {s₀ : Session} (h₀ : s₀.IsInitial) (history : List Request) {f : Function}
    (hparams : ∀ t ∈ f.params, t.isWord = true) (hresult : f.result = .void ∨ f.result.isWord = true)
    {args : List GenericValue} (hargs : AreIntegers (args.map GenericValue.payload))
    (hlength : args.length = f.params.length) :
    ∃ given taken : Env, Interpreted.Enters f (args.map GenericValue.payload) given ∧
      Compiled.Enters f (args.map GenericValue.payload) taken ∧
      (given = taken ↔ PlainTruths f.params (args.map GenericValue.payload)) ∧
      ∀ (i j : Nat) (callee : Callee) (ei ej : EngineRecord) (r : ModuleRecord) (types : TypeTable)
        (v : Value), PlainTruths f.params (args.map GenericValue.payload) →
        (s₀.after history).admission i callee args.length = .ok (ei, r, f) →
        ei.backend = .interpreter →
        (s₀.after history).admission j callee args.length = .ok (ej, r, f) →
        ej.backend = .compiled types r.module.snapshot →
        (s₀.after history).ComesAlike i j ei.module types r f (given.map Prod.snd) v →
        ((run i callee args).on (s₀.after history)).1 = resultOf f.result v ∧
          ((run j callee args).on (s₀.after history)).1 = resultOf f.result v := by
  have hs := after_isSound h₀.isSound history
  have hsame := entry_eq_iff hparams hargs 0
  refine ⟨_, _, interpreted_enters hparams hargs,
    compiled_enters hparams hargs (by rw [List.length_map, hlength]), hsame, ?_⟩
  intro i j callee ei ej r types v hplain hi hinterprets hj hcompiled ⟨⟨mem, hcall⟩, v', mem', hcall', hv⟩
  refine ⟨run_interpreted hs hi hinterprets hparams hargs hcall, ?_⟩
  have hmodule : ei.module = ej.module := by
    have hri := mem_ids_of_module? (function_of_admission hi).1
    have hrj := mem_ids_of_module? (function_of_admission hj).1
    exact hri.2.symm.trans hrj.2
  rw [hsame.mpr hplain, hmodule] at hcall'
  exact run_compiled hs hj hcompiled hparams hresult hargs hlength hv hcall'

/-! ## Engines of one module -/

/-- What an engine admits, another of the same module admits as well. -/
theorem admission_of_module {count : Nat} (hi : s.admission i callee count = .ok (ei, r, f))
    (hget : s.registry.get j Kind.engine.word = .ok ()) (hj : s.engine? j = some ej)
    (hmodule : ej.module = ei.module) : s.admission j callee count = .ok (ej, r, f) := by
  obtain ⟨_, -, hi⟩ := ok_of_bind hi
  obtain ⟨e, he, hi⟩ := ok_of_bind hi
  obtain ⟨_, hlive, hi⟩ := ok_of_bind hi
  obtain ⟨r', hr, hi⟩ := ok_of_bind hi
  obtain ⟨symbol, hsymbol, hi⟩ := ok_of_bind hi
  obtain ⟨f', hf, hi⟩ := ok_of_bind hi
  obtain ⟨_, hcount, hi⟩ := ok_of_bind hi
  cases hi
  rw [admission, hget, hj]
  dsimp only [recorded, bind, Except.bind]
  rw [hmodule, hlive, of_recorded hr]
  dsimp only
  rw [hsymbol]
  dsimp only
  rw [hf]
  dsimp only
  rw [hcount]
  rfl

/-- What is compiled is the module as it is when the engine is there. -/
theorem compiled_of_createCompiled {m id : Nat} {level : Level} {s' : Session} (hs : s.IsSound)
    (h : (createCompiled m level).on s = (.ok id, s')) :
    ∃ r types, s'.module? m = some r ∧
      s'.engine? id = some ⟨id, m, .compiled types r.module.snapshot, []⟩ := by
  have hs' := isSound_of_goes (createCompiled_goes hs level) h
  obtain ⟨_, s₁, -, h⟩ := Effect.on_bind_ok h
  obtain ⟨_, s₂, -, h⟩ := Effect.on_bind_ok h
  obtain ⟨_, s₃, -, h⟩ := Effect.on_bind_ok h
  obtain ⟨_, s₄, -, h⟩ := Effect.on_bind_ok h
  obtain ⟨r, s₅, hr, h⟩ := Effect.on_bind_ok h
  obtain ⟨c, s₆, hc, h⟩ := Effect.on_bind_ok h
  rw [moduleRecord_eq] at hr
  rw [contextRecord_eq] at hc
  obtain ⟨hrecord, rfl⟩ := Prod.mk.inj hr
  obtain ⟨-, rfl⟩ := Prod.mk.inj hc
  cases h
  refine ⟨r, c.types, of_recorded hrecord, ?_⟩
  exact hs'.engine?_iff.mpr ⟨by simp, rfl⟩

theorem does_createCompiled (s : Session) (m : Nat) (level : Level) :
    s.does (.createCompiled m level) = ((createCompiled m level).on s).2 := by
  show ((discard (createCompiled m level) : Act Unit).on s).2 = _
  rcases h : (createCompiled m level).on s with ⟨e | id, s'⟩
  · exact congrArg Prod.snd (Effect.on_bind_of_error h)
  · exact congrArg Prod.snd (Effect.on_bind_of_ok h)

/-! ## A truth -/

/-- A function that tells whether it was given a truth. -/
def teller : Draft where
  types := []
  globals := []
  functions := [
    ⟨"tell", .int 32, [.int 1], false, some [⟨"e", "e", [
      ⟨some "v", "v", .cast .zext (.key "0") (.int 32)⟩,
      ⟨none, "", .op (.ret (some (.key "v")))⟩]⟩]⟩]

/-- The module, with an engine, 3, that interprets it. -/
def onceWay : List Request := [.createModule "m" none, .build 2 teller, .createInterpreter 2]

/-- The same, with another engine, 4, that runs its compiled code. -/
def bothWays : List Request := onceWay ++ [.createCompiled 2 .o2]

/-- What a run of the function on an integer of eight digits comes to. -/
def tells (engine : Nat) (n : Int) : Except Failure RunResult :=
  ((run engine (.named "tell") [⟨.int 8, .int n⟩]).on ((fresh .fresh).after bothWays)).1

/-- The integer that a run of the function on an integer of eight digits gives. -/
def told (engine : Nat) (n : Int) : Option Int :=
  match tells engine n with
  | .ok (some g) => g.payload.int?
  | _ => none

/-- A function that takes and gives a truth. -/
def truthTaker : Function := { (default : Function) with params := [.int 1], result := .int 1 }

/-- Two is no truth to the interpreter, which takes its last digit, and one to compiled code, which takes
whether it is zero. -/
theorem two_passes_unlike :
    (¬ ∀ (f : Function) (args : List GenericValue), (∀ t ∈ f.params, t.isWord = true) →
      (f.result = .void ∨ f.result.isWord = true) → AreIntegers (args.map GenericValue.payload) →
      args.length = f.params.length →
      ∃ env, Interpreted.Enters f (args.map GenericValue.payload) env ∧
        Compiled.Enters f (args.map GenericValue.payload) env) ∧
      told 3 2 = some 0 ∧ told 4 2 = some 1 := by
  refine ⟨fun halike => ?_, by decide +kernel, by decide +kernel⟩
  have hparams : ∀ t ∈ truthTaker.params, t.isWord = true := by decide
  have hargs : AreIntegers [.int 2] := by simp [AreIntegers, Value.int?]
  obtain ⟨env, hi, hc⟩ := halike truthTaker [⟨.int 8, .int 2⟩] hparams (.inr rfl) hargs rfl
  have hzero := Except.ok.inj (hi.symm.trans (interpreted_enters hparams hargs))
  have hone := hc.unique (compiled_enters hparams hargs rfl)
  cases hzero.symm.trans hone

/-- Whether a computation comes to an integer. -/
def comesTo (n : Int) (x : Except Failure Value × Memory) : Bool :=
  match x.1 with
  | .ok (.int k) => k == n
  | _ => false

theorem eq_of_comesTo {n : Int} {x : Except Failure Value × Memory} (h : comesTo n x = true) :
    x = (.ok (.int n), x.2) := by
  obtain ⟨outcome, mem⟩ := x
  unfold comesTo at h
  dsimp only at h
  split at h
  · obtain rfl := beq_iff_eq.mp h
    simp_all
  · cases h

/-- Whether the first engine admits the function, which takes a truth and gives a word, and whether with
one in its parameter it comes to one either way. -/
def tellsOne (s : Session) : Bool :=
  match s.admission 3 (.named "tell") 1, s.engine? 4 with
  | .ok (ei, r, f), some ej =>
    ei.module == 2 && f.params == [.int 1] && f.result == .int 32 &&
      match ei.backend, ej.backend with
      | .interpreter, .compiled types code =>
        comesTo 1 ((Machine.call Interpreted.rules ⟨2, [], r.module⟩ stepBound f [.int 1]).on
          (s.memoryOf 3)) &&
        comesTo 1 ((Machine.call Compiled.rules ⟨2, types, code⟩ stepBound f.snapshot [.int 1]).on
          (s.memoryOf 4))
      | _, _ => false
  | _, _ => false

/-- Three is odd, so both engines are told one. -/
theorem integers_pass_alike_three :
    tells 3 3 = .ok (some ⟨.int 32, .int 1⟩) ∧ tells 4 3 = .ok (some ⟨.int 32, .int 1⟩) := by
  have hafter : (fresh .fresh).after bothWays =
      ((fresh .fresh).after onceWay).does (.createCompiled 2 .o2) := by
    rw [bothWays, after, List.foldl_append]
    rfl
  have hmade : (createCompiled 2 .o2).on ((fresh .fresh).after onceWay) =
      (.ok 4, (fresh .fresh).after bothWays) :=
    Prod.ext (by decide +kernel) (hafter.trans (does_createCompiled _ 2 .o2)).symm
  obtain ⟨r₂, types, hr₂, hej⟩ :=
    compiled_of_createCompiled (after_isSound (fresh_isInitial .fresh).isSound onceWay) hmade
  have htells : tellsOne ((fresh .fresh).after bothWays) = true := by decide +kernel
  unfold tellsOne at htells
  split at htells
  case h_2 => cases htells
  rename_i ei r f ej hi hej'
  cases hej.symm.trans hej'
  simp only [Bool.and_eq_true, beq_iff_eq] at htells
  obtain ⟨⟨⟨hmodule, hparams⟩, hresult⟩, hcalls⟩ := htells
  split at hcalls
  case h_2 => cases hcalls
  rename_i hbackend hbackend'
  cases hbackend'
  rw [Bool.and_eq_true] at hcalls
  have hr : r = r₂ := by
    have hr := (function_of_admission hi).1
    rw [hmodule] at hr
    exact Option.some.inj (hr.symm.trans hr₂)
  subst hr
  have hj := admission_of_module (j := 4) hi (by decide +kernel) hej hmodule.symm
  have hargs : AreIntegers (([⟨.int 8, .int 3⟩] : List GenericValue).map GenericValue.payload) := by
    simp [AreIntegers, Value.int?]
  obtain ⟨given, -, hgiven, -, -, hruns⟩ := integers_pass_alike (fresh_isInitial .fresh) bothWays
    (f := f) (by rw [hparams]; decide) (by rw [hresult]; decide) hargs (by rw [hparams]; rfl)
  have hgiven : given = [(0, .int 1)] := by
    rw [Interpreted.Enters, hparams] at hgiven
    cases hgiven
    rfl
  subst hgiven
  have hplain : PlainTruths f.params [.int 3] := by
    rw [hparams]
    rintro tv htv - n hn
    obtain rfl : tv = (.int 1, .int 3) := by simpa using htv
    cases hn
    exact .inr rfl
  have halike : ((fresh .fresh).after bothWays).ComesAlike 3 4 ei.module types r f [.int 1] (.int 1) := by
    rw [hmodule]
    exact ⟨⟨_, eq_of_comesTo hcalls.1⟩, .int 1, _, eq_of_comesTo hcalls.2, .inr rfl⟩
  have h := hruns 3 4 (.named "tell") ei _ r types (.int 1) hplain hi hbackend hj rfl halike
  rw [hresult] at h
  exact h

end Session

end Ssa

/-
# `Ssa.Proofs.Exec.Confined` — when a run ends in a failure of execution at worst

What the interpreter does not support is to be reported as a failure of execution.  It is not always:
the remainder of an infinity, division of signed integers by a multiple of the number of words,
arithmetic on a vector that nothing was put into, an integer beyond the doubles made into one, a
variable that begins with an address.  So a run is confined to failures of execution just if it never
comes to such a place.

**Proved here.**

    at integers, whatever they are:        trapped  ⟺  snagged            (`trapped_iff_snagged_of_atIntegers`)
    typed, at every state that is reached: trapped  ⟺  snagged            (`trapped_iff_snagged`)
    admitted: a failure escapes  ⟺  a state is reached that is trapped;
    matched, and so on:          ⟺  a state is reached that is snagged    (`Admitted.escapes_iff`)
    six modules let a failure escape                                       (`not_confined`)
-/
import Ssa.Proofs.Exec.Snags

namespace Ssa

/-! ## States that are snagged -/

open Interpreted (rules)

/-- A frame is at an operation that has no result for the values of its operands. -/
def Machine.State.Snagged (p : Program) (mem : Memory) (st : Machine.State) : Prop :=
  ∃ fr waiting i vs mem', st = .running fr waiting ∧ fr.current? = some i ∧
    (i.op.operands.mapM (Interpreted.eval p fr.function fr.env)).on mem = (.ok vs, mem') ∧
    i.op.snags i.type vs = true

/-- A frame is at an operation on integers, and the operands of it have values. -/
def Machine.State.AtIntegers (p : Program) (mem : Memory) (st : Machine.State) : Prop :=
  ∃ fr waiting i op x y vs mem', st = .running fr waiting ∧ fr.current? = some i ∧
    i.op = .int op x y ∧
    (i.op.operands.mapM (Interpreted.eval p fr.function fr.env)).on mem = (.ok vs, mem')

/-- Whether a variable begins with a constant within bounds, if with anything. -/
def Variable.isOpenable (v : Variable) : Bool :=
  match v.init with
  | none => true
  | some (.const c) => c.isBounded
  | some _ => false

/-- Whether every variable of a module can be asked for. -/
def Module.opensVariables (m : Module) : Bool := m.everyVariable Variable.isOpenable

/-- The regime of an engine in which vectors and aggregates are kept track of too. -/
def Regime.tracking (start : Storage) : Regime := { Regime.since start with tracked := True }

theorem OpOver.isComputed_of_snags {t : Ty} {op : Op} {vs : List Value}
    (h : op.snags t vs = true) : op.isComputed = true := by
  cases op <;> first | rfl | cases h

theorem Interpreted.initialValue_escapes {function : String} {v : Variable} {e : Failure}
    (hv : v.isOpenable = true) (h : initialValue function v = .error e) : e.escapes = false := by
  unfold initialValue at h
  unfold Variable.isOpenable at hv
  cases hinit : v.init with
  | none => rw [hinit] at h; cases h
  | some o =>
      rw [hinit] at h hv
      cases o with
      | const c => exact constant_escapes hv h
      | _ => cases hv

theorem Interpreted.result_int_escaping (f : Function) (t : Ty) (op : IntOp) (x y : Operand)
    (vs : List Value) :
    Effect.escaping (result f t (.int op x y) vs) = OpOver.snags t (.int op x y) vs := by
  rcases vs with _ | ⟨u, _ | ⟨v, _ | ⟨w, rest⟩⟩⟩
  · rfl
  · rfl
  · exact int_escaping f op t u v
  · rfl

/-- At an operation on integers the states that are trapped are those that are snagged, whatever the
values of its operands are, and whether or not they fit their types. -/
theorem Machine.trapped_iff_snagged_of_atIntegers {p : Program} {last : Ty} {mem : Memory} {st : State}
    (h : st.AtIntegers p mem) : st.Trapped p last mem ↔ st.Snagged p mem := by
  obtain ⟨fr, waiting, i, op, x, y, vs, mem₁, rfl, hi, hop, hvs⟩ := h
  have hc : i.op.isComputed = true := by rw [hop]; rfl
  have hescaping : Effect.escaping (Interpreted.result fr.function i.type i.op vs) =
      i.op.snags i.type vs := by
    rw [hop]
    exact Interpreted.result_int_escaping ..
  have hperform := Interpreted.perform_computed hc hvs
  constructor
  · intro htrapped
    obtain ⟨e, mem', hs, he⟩ := step_of_trapped htrapped
    refine ⟨fr, waiting, i, vs, mem₁, rfl, hi, hvs, ?_⟩
    rw [← hescaping]
    cases hresult : Interpreted.result fr.function i.type i.op vs with
    | error e' =>
        rw [hresult] at hperform
        cases hs.symm.trans (on_of_stepped (.failed hi hperform))
        exact he
    | ok v =>
        rw [hresult] at hperform
        cases hs.symm.trans (on_of_stepped (.bound hi hperform))
  · rintro ⟨_, _, i', vs', mem₂, hst, hi', hvs', hsnags⟩
    cases hst
    cases hi.symm.trans hi'
    cases hvs.symm.trans hvs'
    rw [← hescaping] at hsnags
    obtain ⟨e, hresult, he⟩ := Effect.escaping_iff.mp hsnags
    exact .applied hi hc hvs hresult he

/-- In a typed module whose variables can be asked for, the states that are trapped are those that
are snagged. -/
theorem Machine.trapped_iff_snagged {p : Program} {R : Regime} {f : Function} {args : List Value}
    {mem mem' : Memory} {st : State} (ht : p.module.IsTyped)
    (ha : R.addresses) (htracked : R.tracked) (hopens : p.module.opensVariables = true)
    (hf : ∃ k, p.module.function? k = some f) (hm : R.Sound p.module mem)
    (hargs : R.ArgsReady mem.storage f.params args) (h : Reaches rules p f args mem st mem') :
    st.Trapped p f.result mem' ↔ st.Snagged p mem' := by
  obtain ⟨hm', -, hfits⟩ := reaches_fits ht (fun _ _ _ _ _ _ _ => ha) hf hm hargs h
  -- the operands of what a frame is at come to values that fit
  have hvalues {fr : Frame} {i : Instr} {vs : List Value} {mem₁ : Memory}
      (hfr : fr.Fits R p.module mem'.storage) (hi : fr.current? = some i)
      (hvs : (i.op.operands.mapM (Interpreted.eval p fr.function fr.env)).on mem' =
        (.ok vs, mem₁)) :
      i.IsTyped p.module fr.function ∧
        List.Forall₂ (fun o v => R.Fits mem₁.storage (Operand.type o) v) i.op.operands vs := by
    obtain ⟨k, hk⟩ := hfr.member
    have htyped := ht.instrs k _ hk _ i (List.mem_of_getElem? hi)
    have hmeets := Interpreted.evalAll_meets hm' hfr.env ht.initializers
      (fun o ho => htyped.known o (OpOver.mem_values ho))
      fun o _ => o.allowed_true p.module fr.function fr.env
    exact ⟨htyped, hmeets.ok vs mem₁ hvs⟩
  constructor
  · intro htrapped
    cases htrapped with
    | @applied fr waiting i vs mem₁ e hi hc hvs hresult he =>
        obtain ⟨htyped, hfit⟩ := hvalues hfits.1 hi hvs
        refine ⟨fr, waiting, i, vs, mem₁, rfl, hi, hvs, ?_⟩
        rw [← Interpreted.result_escaping htracked htyped hc hfit]
        exact Effect.escaping_iff.mpr ⟨e, hresult, he⟩
    | @passed fr waiting i c g args' mem₁ e hi hp hg hd hbind he =>
        obtain ⟨k, hk⟩ := hfits.1.member
        have htyped := ht.instrs k _ hk _ i (List.mem_of_getElem? hi)
        have hmeets := Interpreted.perform_meets hm' hfits.1.env ht.initializers htyped
          (fun _ => ha) ((fr.stepAllowed_true R p mem').instr i hi)
        obtain ⟨g', hg', -, hfit⟩ := hmeets.ok _ _ hp
        rw [hg] at hg'
        cases hg'
        obtain ⟨env, henv⟩ := bindParams_of_argsFit hfit 0
        rw [henv] at hbind
        cases hbind
    | opened hv hinit he _ =>
        rw [Interpreted.initialValue_escapes (Module.of_everyVariable hopens hv) hinit] at he
        cases he
    | returned hresult he =>
        obtain ⟨r, hr⟩ := Session.resultOf_ok hfits
        rw [hr] at hresult
        cases hresult
  · rintro ⟨fr, waiting, i, vs, mem₁, rfl, hi, hvs, hsnags⟩
    have hc := OpOver.isComputed_of_snags hsnags
    obtain ⟨htyped, hfit⟩ := hvalues hfits.1 hi hvs
    rw [← Interpreted.result_escaping htracked htyped hc hfit] at hsnags
    obtain ⟨e, hresult, he⟩ := Effect.escaping_iff.mp hsnags
    exact .applied hi hc hvs hresult he

/-! ## Runs on one engine -/

/-- A run of a function of an admitted module, on values made for its parameters, lets a failure
escape just if it reaches a state that is trapped, whatever the memory.  At an operation on integers
that is a state that is snagged, whatever values have come there.  Where everything is matched,
no pointer is cast and every variable can be asked for, the run is one of an engine that began
without storage for its variables, and the pointers among its arguments lead to what fits, it is just
if it reaches a state that is snagged. -/
theorem Module.Admitted.escapes_iff {m : Module} (h : m.Admitted)
    (hname : isCutShort m.name = false) {owner k : Nat} {f : Function} {args : List GenericValue}
    (hf : m.function? k = some f) (hargs : List.Forall₂ GenericValue.IsBuiltFor f.params args) :
    (∀ mem, Session.Escapes ⟨owner, [], m⟩ f args mem ↔
      ∃ st mem', Machine.Reaches rules ⟨owner, [], m⟩ f (args.map GenericValue.payload) mem st mem' ∧
        st.Trapped ⟨owner, [], m⟩ f.result mem') ∧
    (∀ (st : Machine.State) mem', st.AtIntegers ⟨owner, [], m⟩ mem' →
      (st.Trapped ⟨owner, [], m⟩ f.result mem' ↔ st.Snagged ⟨owner, [], m⟩ mem')) ∧
    (m.isMatched = true → m.keepsPointers = true → m.opensVariables = true →
      ∀ start mem, start.globals = [] →
        Machine.Ran (.tracking start.storage) ⟨owner, [], m⟩ start mem →
        (Regime.tracking start.storage).ArgsSupported mem.storage f.params
          (args.map GenericValue.payload) →
        (Session.Escapes ⟨owner, [], m⟩ f args mem ↔
          ∃ st mem', Machine.Reaches rules ⟨owner, [], m⟩ f (args.map GenericValue.payload) mem st
            mem' ∧ st.Snagged ⟨owner, [], m⟩ mem')) := by
  have htrapped := Module.IsSafe.escapes_iff_trapped (p := ⟨owner, [], m⟩) (h.isSafe hname) hf hargs
  refine ⟨htrapped, fun _ _ => Machine.trapped_iff_snagged_of_atIntegers,
    fun hm hp hopens start mem hstart hran hsupported => ?_⟩
  obtain ⟨types, haccepted⟩ := h.accepted hname
  have ht : m.IsTyped := Module.isTyped_of_accepted h.isBuilt haccepted hm hp
  obtain ⟨known, -, hmem⟩ := Machine.ran_sound (p := ⟨owner, [], m⟩) ht
    (fun _ _ _ _ _ _ _ => trivial) (fun _ hid => hid)
    (Regime.sound_of_fresh (fun _ => .rfl) hstart) hran
  have hsupported' : ({ Regime.tracking start.storage with known } : Regime).ArgsSupported
      mem.storage f.params (args.map GenericValue.payload) := hsupported
  rw [htrapped mem]
  refine exists_congr fun st => exists_congr fun mem' => and_congr_right fun hr => ?_
  exact Machine.trapped_iff_snagged (p := ⟨owner, [], m⟩) ht trivial trivial hopens ⟨k, hf⟩
    hmem.adopt hsupported'.ready hr

/-! ## The remainder of two doubles -/

/-- A function that takes the remainder of two doubles. -/
def remainderOf : Draft where
  types := []
  globals := []
  functions := [⟨"f", .fp .double, [.fp .double, .fp .double], false, some [⟨"e", "e", [
    ⟨some "x", "x", .op (.fp .frem (.key "0") (.key "1"))⟩,
    ⟨none, "", .op (.ret (some (.key "x")))⟩]⟩]⟩]

theorem remainderOf_admitted : (remainderOf.written "m").Admitted :=
  Draft.written_admitted (by decide +kernel)

/-- A datum as a double of the boundary. -/
def GenericValue.double (x : Fp) : GenericValue := ⟨.fp .double, .real x⟩

theorem GenericValue.double_isBuiltFor (x : Fp) :
    (GenericValue.double x).IsBuiltFor (.fp .double) := .real (v := .real x) rfl

theorem remainderOf_function : ∃ f, (remainderOf.written "m").function? 0 = some f ∧
    f.params = [.fp .double, .fp .double] := by
  obtain ⟨f, hf⟩ : ∃ f, (remainderOf.written "m").function? 0 = some f :=
    Option.isSome_iff_exists.mp (by decide +kernel)
  have hparams : ((remainderOf.written "m").function? 0).map Function.params =
      some [.fp .double, .fp .double] := by decide +kernel
  exact ⟨f, hf, by simpa [hf] using hparams⟩

/-- The remainder of five by three lets no failure escape, unless it comes to values that are
listed. -/
theorem escapes_iff_remainderOf : ∃ f, (remainderOf.written "m").function? 0 = some f ∧
    (Session.Escapes ⟨0, [], remainderOf.written "m"⟩ f
        [.double (Fp.ofRat false 5), .double (Fp.ofRat false 3)] .empty ↔
      ∃ st mem', Machine.Reaches rules ⟨0, [], remainderOf.written "m"⟩ f
        [.real (Fp.ofRat false 5), .real (Fp.ofRat false 3)] .empty st mem' ∧
        st.Snagged ⟨0, [], remainderOf.written "m"⟩ mem') := by
  obtain ⟨f, hf, hparams⟩ := remainderOf_function
  have hargs : List.Forall₂ GenericValue.IsBuiltFor f.params
      [.double (Fp.ofRat false 5), .double (Fp.ofRat false 3)] := by
    rw [hparams]
    exact .cons (GenericValue.double_isBuiltFor _) (.cons (GenericValue.double_isBuiltFor _) .nil)
  refine ⟨f, hf, (remainderOf_admitted.escapes_iff (by decide +kernel) hf hargs).2.2
    (by decide +kernel) (by decide +kernel) (by decide +kernel) .empty .empty rfl .fresh ?_⟩
  rw [hparams]
  exact .cons (.inr (.inl rfl)) (.cons (.inr (.inl rfl)) .nil)

/-! ## Where a failure escapes -/

/-- A function that divides by an octet, loaded from a cell of four that holds 256. -/
def reread : Draft where
  types := []
  globals := []
  functions := [⟨"f", .int 8, [], false, some [⟨"e", "e", [
    ⟨some "p", "p", .op (.alloca (.int 32) none)⟩,
    ⟨none, "", .op (.store (.constant (.typed (.int 32) (.int 256))) (.key "p"))⟩,
    ⟨some "q", "q", .cast .bitcast (.key "p") (.pointer (.int 8) 0)⟩,
    ⟨some "d", "d", .op (.load (.key "q"))⟩,
    ⟨some "x", "x", .op (.int .sdiv (.constant (.typed (.int 8) (.int 1))) (.key "d"))⟩,
    ⟨none, "", .op (.ret (some (.key "x")))⟩]⟩]⟩]

/-- A function that divides by a phi whose entry is of a greater width. -/
def overwide : Draft where
  types := []
  globals := []
  functions := [⟨"f", .int 32, [], false, some [
    ⟨"e", "e", [⟨none, "", .op (.br "n")⟩]⟩,
    ⟨"n", "n", [
      ⟨some "d", "d", .phi (.int 32) [(.constant (.typed (.int 64) (.int (2 ^ 40))), "e")]⟩,
      ⟨some "x", "x", .op (.int .sdiv (.constant (.typed (.int 32) (.int 1))) (.key "d"))⟩,
      ⟨none, "", .op (.ret (some (.key "x")))⟩]⟩]⟩]

/-- A function that adds a vector to itself that nothing was put into. -/
def unfilled : Draft where
  types := []
  globals := []
  functions := [⟨"f", .void, [], false, some [⟨"e", "e", [
    ⟨some "p", "p", .op (.alloca (.vector 2 (.fp .single)) none)⟩,
    ⟨some "v", "v", .op (.load (.key "p"))⟩,
    ⟨some "w", "w", .op (.fp .fadd (.key "v") (.key "v"))⟩,
    ⟨none, "", .op (.ret none)⟩]⟩]⟩]

/-- A function that makes the greatest integer of 2048 digits into a double. -/
def beyondDoubles : Draft where
  types := []
  globals := []
  functions := [⟨"f", .fp .double, [], false, some [⟨"e", "e", [
    ⟨some "x", "x", .cast .uitofp (.constant (.typed (.int 2048) (.int (-1)))) (.fp .double)⟩,
    ⟨none, "", .op (.ret (some (.key "x")))⟩]⟩]⟩]

/-- A function that reads a variable that begins with the address of another. -/
def addressed : Draft where
  types := []
  globals := [⟨"x", .int 32, some (.constant (.typed (.int 32) (.int 5)))⟩,
    ⟨"p", .pointer (.int 32) 0, some (.symbol "x")⟩]
  functions := [⟨"f", .pointer (.int 32) 0, [], false, some [⟨"e", "e", [
    ⟨some "v", "v", .op (.load (.symbol "p"))⟩,
    ⟨none, "", .op (.ret (some (.key "v")))⟩]⟩]⟩]

/-- What a run of the function of a module gives back across the boundary fails with. -/
def Module.answerFailure? (m : Module) (k : Nat) (args : List GenericValue) : Option Failure :=
  (m.function? k).bind fun f =>
    Effect.failure? ((Session.answer ⟨0, [], m⟩ 9 f args).on .empty).1

theorem Module.escapes_of_answerFailure? {m : Module} {k : Nat} {args : List GenericValue}
    {e : Failure} (h : m.answerFailure? k args = some e) (he : e.escapes = true) :
    ∃ f, m.function? k = some f ∧ Session.Escapes ⟨0, [], m⟩ f args .empty := by
  obtain ⟨f, hf, hfail⟩ := Option.bind_eq_some_iff.mp h
  exact ⟨f, hf, 9, e, _, Prod.ext (Effect.eq_error_of_failure? hfail) rfl, he⟩

/-- Six modules that were admitted let a failure escape: the remainder of an infinity by one, a quotient
by an octet that is 256 and one by a word of 32 bits that is two to the fortieth, the sum of a vector that
nothing was put into, an integer that has no double, a variable that begins with an address. -/
theorem not_confined :
    ((remainderOf.written "m").Admitted ∧ ∃ f, (remainderOf.written "m").function? 0 = some f ∧
      List.Forall₂ GenericValue.IsBuiltFor f.params
        [.double (.infinity false), .double (Fp.ofRat false 1)] ∧
      Session.Escapes ⟨0, [], remainderOf.written "m"⟩ f
        [.double (.infinity false), .double (Fp.ofRat false 1)] .empty) ∧
    ((reread.written "m").Admitted ∧
      (reread.written "m").answerFailure? 0 [] = some .zeroDivision) ∧
    ((overwide.written "m").Admitted ∧
      (overwide.written "m").answerFailure? 0 [] = some .zeroDivision) ∧
    ((unfilled.written "m").Admitted ∧
      (unfilled.written "m").answerFailure? 0 [] = some .typeMismatch) ∧
    ((beyondDoubles.written "m").Admitted ∧
      (beyondDoubles.written "m").answerFailure? 0 [] = some .integerTooLarge) ∧
    ((addressed.written "m").Admitted ∧
      (addressed.written "m").answerFailure? 2 [] = some .lacksAttribute) := by
  refine ⟨⟨remainderOf_admitted, ?_⟩, ⟨Draft.written_admitted ?_, ?_⟩,
    ⟨Draft.written_admitted ?_, ?_⟩, ⟨Draft.written_admitted ?_, ?_⟩,
    ⟨Draft.written_admitted ?_, ?_⟩, ⟨Draft.written_admitted ?_, ?_⟩⟩
  · obtain ⟨f, hf, hparams⟩ := remainderOf_function
    have hfail : (remainderOf.written "m").answerFailure? 0
        [.double (.infinity false), .double (Fp.ofRat false 1)] = some .mathDomain := by
      decide +kernel
    obtain ⟨f', hf', hescapes⟩ := Module.escapes_of_answerFailure? hfail rfl
    rw [hf] at hf'
    cases hf'
    refine ⟨f, hf, ?_, hescapes⟩
    rw [hparams]
    exact .cons (GenericValue.double_isBuiltFor _) (.cons (GenericValue.double_isBuiltFor _) .nil)
  all_goals decide +kernel

end Ssa

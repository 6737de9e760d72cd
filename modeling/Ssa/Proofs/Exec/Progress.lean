/-
# `Ssa.Proofs.Exec.Progress` — plain programs do not get stuck

A run of a plain module that an interpreter was made for finds every operand that it reads and an
entry in every phi that control goes to, and every block ends in an instruction that takes control
elsewhere.  What is left that it can fail with is listed by `Module.MayFail`: a function without a
body is called, a place is reached that must not be, a division by zero, an access through a
pointer that leads to no cell, a comparison of pointers by order.

The first block of a function has no ways into it, so that its phis have no entries.  The verifier
has nothing against them, but the function cannot be entered.

**Proved here.**

    a plain operation on what fits fails only by division or comparison           (`result_error`)
    a frame that is ready                  ⟹  its step fails only as listed          (`stepAllowed_of_ready`)
    admitted, matched and plain            ⟹  every run fails only as listed         (`Admitted.progress`)
-/
import Ssa.Proofs.Exec.Ready
import Ssa.Proofs.Exec.Store
import Ssa.Proofs.Validity.Plain

namespace Ssa

/-! ## What may fail -/

/-- What a run of a plain module may fail with. -/
inductive Module.MayFail (m : Module) : Failure → Prop
  /-- There is no body to run. -/
  | declared {k : Nat} {f : Function} :
      m.function? k = some f → f.isDeclaration = true → MayFail m (.noBody f.name)
  /-- The first block begins with a phi. -/
  | barred {k : Nat} {f : Function} {i : Instr} :
      m.function? k = some f → i ∈ f.leadingPhis 0 →
      MayFail m (.noIncoming (f.localName i.id) f.name "<entry>")
  | unreachable {k b : Nat} {f : Function} {i : Instr} :
      m.function? k = some f → i ∈ f.instrs b → i.op = .unreachable →
      MayFail m (.reachedUnreachable f.name)
  | division {k b : Nat} {f : Function} {i : Instr} {op : IntOp} {x y : Operand} :
      m.function? k = some f → i ∈ f.instrs b → i.op = .int op x y → op.divides = true →
      MayFail m (.divisionByZero f.name)
  | access {k b : Nat} {f : Function} {i : Instr} :
      m.function? k = some f → i ∈ f.instrs b → i.op.accesses = true →
      MayFail m (.unsupported (.rawPointer i.op.word) f.name)
  | comparison {k b : Nat} {f : Function} {i : Instr} {p : IntPred} {x y : Operand} :
      m.function? k = some f → i ∈ f.instrs b → i.op = .icmp p x y → x.type.isPointer = true →
      p ≠ .eq → p ≠ .ne → MayFail m (.unsupported (.pointerComparison p.word) f.name)

/-- The regime of an engine in which integers and pointers are kept apart. -/
def Regime.apart (start : Storage) : Regime := { Regime.since start with addresses := False }

/-! ## Plain operations -/

namespace Interpreted

variable {R : Regime} {s : Storage} {f : Function} {t : Ty} {x y : Value} {e : Failure}

/-- A shift by an amount that is not negative fails only if what is made of the amount does. -/
theorem shift_error {w : Nat} {b : Int} (hb : 0 ≤ b) {result : Nat → Except Failure Int}
    (h : IntOp.shift w b result = .error e) : ∃ n, result n = .error e := by
  unfold IntOp.shift Word.shiftAmount at h
  by_cases hlt : b < w
  · exact ⟨b.toNat, by simpa [hlt, Int.not_lt.mpr hb] using h⟩
  · simp [hlt] at h

/-- A division by an unsigned reading other than zero does not fail. -/
theorem divideSigned_ok {w : Nat} {divide : Int → Int → Int} {a b : Int} (hw : w ≠ 0) (hb : 0 ≤ b)
    (hlt : b < Word.count w) (hne : b ≠ 0) : ∃ n, IntOp.divideSigned w divide a b = .ok n := by
  have hreading : Word.toSigned w b ≠ 0 := by
    rwa [ne_eq, Word.toSigned_eq_zero_iff, Word.wrap_of_range hb hlt]
  exact ⟨_, (IntOp.divideSigned_of_ne hw divide a b).trans (if_neg hreading)⟩

/-- An operation on integers of which the second is kept by its unsigned reading fails only by
dividing by zero. -/
theorem exact_error {function : String} {op : IntOp} {w : Nat} {a b : Int} (hw : w ≠ 0)
    (hb : 0 ≤ b) (hlt : b < Word.count w) (h : op.exact function w a b = .error e) :
    e = .divisionByZero function ∧ op.divides = true := by
  unfold IntOp.exact at h
  split at h
  · rename_i hdivides
    cases h
    exact ⟨rfl, (Bool.and_eq_true_iff.mp hdivides).1⟩
  · rename_i hdivides
    cases op with
    | sdiv | srem =>
        obtain ⟨n, hn⟩ := divideSigned_ok hw hb hlt (by simpa [IntOp.divides] using hdivides)
        cases hn.symm.trans h
    | shl | lshr =>
        obtain ⟨n, hn⟩ := shift_error hb h
        cases hn
    | ashr =>
        obtain ⟨n, hn⟩ := shift_error hb h
        rw [IntOp.signedReading_of_ne hw] at hn
        cases hn
    | _ => cases h

/-- On integers of a width an operation fails only by dividing by zero. -/
theorem integerOp_error {op : IntOp} {w : Nat} (hw : w ≠ 0) (hx : R.Fits s (.int w) x)
    (hy : R.Fits s (.int w) y) (h : integerOp f op (.int w) x y = .error e) :
    e = .divisionByZero f.name ∧ op.divides = true := by
  obtain ⟨a, rfl, -, -⟩ := hx
  obtain ⟨b, rfl, hb, hlt⟩ := hy
  change (op.compute f.name w a b).map Value.int = .error e at h
  unfold IntOp.compute at h
  cases hexact : op.exact f.name w a b with
  | ok m => rw [hexact] at h; cases h
  | error e' =>
      rw [hexact] at h
      cases h
      exact exact_error hw hb hlt hexact

/-- A comparison of integers of a width, or of pointers that are no integers, fails only where
pointers are compared by order. -/
theorem icmp_error {p : IntPred} {same : Bool} {function : String} {u : Ty}
    (ha : ¬R.addresses) (hu : u.isPlain = true) (hw : u ≠ .int 0) (hx : R.Fits s u x)
    (hy : R.Fits s u y) (h : p.apply function u same x y = .error e) :
    e = .unsupported (.pointerComparison p.word) function ∧ u.isPointer = true ∧
      p ≠ .eq ∧ p ≠ .ne := by
  cases u with
  | int w =>
      obtain ⟨a, rfl, -, -⟩ := hx
      obtain ⟨b, rfl, -, -⟩ := hy
      have hw' : w ≠ 0 := fun h0 => hw (h0 ▸ rfl)
      change (p.compare w a b).map Value.ofBool = .error e at h
      unfold IntPred.compare IntPred.reading at h
      rw [IntOp.signedReading_of_ne hw', IntOp.signedReading_of_ne hw'] at h
      split at h <;> cases h
  | pointer v space =>
      have hnone : x.int? = none := by
        cases (show R.Points s v x from hx) with
        | address haddress => exact absurd haddress ha
        | _ => rfl
      unfold IntPred.apply at h
      rw [hnone] at h
      cases p <;> cases h <;> exact ⟨rfl, rfl, nofun, nofun⟩
  | _ => cases hu

/-- A conversion between types of integers does not fail. -/
theorem cast_ok (function : String) {op : CastOp} {v w : Nat}
    (hop : op = .trunc ∨ op = .zext ∨ op = .sext ∨ op = .bitcast) (hv : v ≠ 0)
    (hx : R.Fits s (.int v) x) : ∃ z, op.apply function (.int v) (.int w) x = .ok z := by
  obtain ⟨a, rfl, -, -⟩ := hx
  rcases hop with rfl | rfl | rfl | rfl
  · exact ⟨_, rfl⟩
  · exact ⟨_, rfl⟩
  · refine ⟨.int (Word.wrap w (Word.toSigned v a)), ?_⟩
    change (do
      let n ← IntOp.signedReading v a
      return Value.int (Word.wrap (← Ty.width (.int w)) n) : Except Failure Value) = _
    rw [IntOp.signedReading_of_ne hv]
    rfl
  · exact ⟨_, rfl⟩

/-- A plain conversion goes from integers to integers. -/
theorem cast_plain {op : CastOp} {a : Operand} (hop : OpOver.isPlain (.cast op a) = true)
    (ha : a.type.isPlain = true) (ht : t.isPlain = true ∨ t = .void)
    (hc : Ty.canConvert op a.type t = true) :
    (op = .trunc ∨ op = .zext ∨ op = .sext ∨ op = .bitcast) ∧
      ∃ v w, a.type = .int v ∧ t = .int w := by
  have hint : a.type.isInt = true := by
    cases hu : a.type with
    | int v => rfl
    | pointer u space =>
        cases op <;> simp [OpOver.isPlain, Ty.canConvert, Ty.scalar, Ty.isInt, hu] at hop hc
    | _ => rw [hu] at ha; cases ha
  cases hu : a.type with
  | int v =>
      rw [hu] at hc
      have ht' : ∃ w, t = .int w := by
        cases t with
        | int w => exact ⟨w, rfl⟩
        | void => cases op <;> simp [Ty.canConvert, Ty.scalar, Ty.digits?] at hc
        | pointer =>
            cases op <;> simp [OpOver.isPlain, Ty.canConvert, Ty.scalar, Ty.digits?] at hop hc
        | _ => simp [Ty.isPlain] at ht
      obtain ⟨w, rfl⟩ := ht'
      refine ⟨?_, v, w, rfl, rfl⟩
      cases op <;> simp [OpOver.isPlain] at hop ⊢
  | _ => rw [hu] at hint; cases hint

/-- On values that fit, a plain operation fails only as a module may fail that it is in. -/
theorem result_error {m : Module} {i : Instr} {k b : Nat} {vs : List Value}
    (hf : m.function? k = some f) (hmem : i ∈ f.instrs b) (ha : ¬R.addresses)
    (hplain : i.isPlain = true) (hi : i.IsTyped m f) (hc : i.op.isComputed = true)
    (hvs : List.Forall₂ (fun o v => R.Fits s (Operand.type o) v) i.op.operands vs)
    (h : result f i.type i.op vs = .error e) : m.MayFail e := by
  have hrule := hi.rule
  simp only [Instr.isPlain, Instr.readOperands, Bool.and_eq_true, List.all_eq_true,
    Bool.or_eq_true, beq_iff_eq] at hplain
  obtain ⟨⟨htype, hall⟩, hop⟩ := hplain
  cases hiop : i.op with
  | int op x y =>
      rw [hiop] at hrule hvs h hall
      obtain ⟨hx, hy, hint, hw⟩ := hrule
      rcases hvs with _ | ⟨hxv, _ | ⟨hyv, _ | _⟩⟩
      have hplain := hall x (by simp [OpOver.operands])
      rw [hx] at hxv hplain
      rw [hy] at hyv
      cases ht : i.type with
      | int w =>
          rw [ht] at hxv hyv hw h
          obtain ⟨rfl, hd⟩ := integerOp_error (fun h0 => hw (h0 ▸ rfl)) hxv hyv h
          exact .division hf hmem hiop hd
      | pointer => rw [ht] at hint; cases hint
      | _ => rw [ht] at hplain; cases hplain
  | icmp p x y =>
      rw [hiop] at hrule hvs h hall hop
      obtain ⟨-, -, hw⟩ := hrule
      rcases hvs with _ | ⟨hxv, _ | ⟨hyv, _ | _⟩⟩
      have hxy : y.type = x.type := eq_of_beq hop
      obtain ⟨rfl, hptr, heq, hne⟩ :=
        icmp_error ha (hall x (by simp [OpOver.operands])) hw hxv (hxy ▸ hyv) h
      exact .comparison hf hmem hiop hptr heq hne
  | cast op x =>
      rw [hiop] at hrule hvs h hall hop
      obtain ⟨hc, hw⟩ := hrule
      rcases hvs with _ | ⟨hxv, _ | _⟩
      obtain ⟨hcases, v, w, hx, ht⟩ :=
        cast_plain hop (hall x (by simp [OpOver.operands])) htype hc
      rw [hx] at hxv hw
      obtain ⟨z, hz⟩ := cast_ok (w := w) f.name hcases
        (fun h0 => hw (h0 ▸ rfl)) hxv
      change op.apply f.name x.type i.type _ = .error e at h
      rw [hx, ht, hz] at h
      cases h
  | fp | fneg | fcmp => rw [hiop] at hop; cases hop
  | _ => rw [hiop] at hc; cases hc

end Interpreted

/-! ## Plain modules -/

namespace Module

variable {m : Module} (hplain : m.isPlain = true)
include hplain

theorem instr_isPlain {k b : Nat} {f : Function} {i : Instr} (hf : m.function? k = some f)
    (hi : i ∈ f.instrs b) : i.isPlain = true := by
  simp only [isPlain, Bool.and_eq_true] at hplain
  exact of_everyInstr hplain.1.1 hf hi

theorem keepsPointers_of_isPlain : m.keepsPointers = true := by
  simp only [isPlain, Bool.and_eq_true] at hplain
  exact everyInstr_mono (fun f i hi => by simp [(Instr.keeps_of_isPlain hi).1]) hplain.1.1

theorem addressesAllowed_of_isPlain {R : Regime} : m.AddressesAllowed R := by
  intro k f hf b i hi hmakes
  rw [(Instr.keeps_of_isPlain (instr_isPlain hplain hf hi)).2] at hmakes
  cases hmakes

theorem isOrdered_of_isPlain {types : TypeTable} (hb : m.IsBuilt) (h : m.Accepted types) :
    m.IsOrdered := fun _ _ hf =>
  h.isOrdered hb hf fun _ _ hi => Instr.not_comment_of_isPlain (instr_isPlain hplain hf hi)

end Module

/-! ## Steps of frames that are ready -/

section

variable {types : TypeTable} {R : Regime} {p : Program} {m : Module} {k : Nat} {f : Function}

/-- The interpreter has a rule for every plain operation that is no phi. -/
theorem OpOver.isRuled_of_isPlain {op : Op} (h : op.isPlain = true) (hphi : op.isPhi = false) :
    op.isRuled = true := by
  cases op with
  | phi => cases hphi
  | int | icmp | cast | select | alloca | load | store | call | br | condBr | switch | ret
  | unreachable => rfl
  | _ => cases h

/-- An operand that is found can be evaluated in a plain module. -/
theorem Operand.allowed_of_found {Err : Failure → Prop} {env : Env} {o : Operand}
    (hplain : m.isPlain = true) (hfound : o.IsFound env)
    (hconst : ∀ c, o = .const c → c.isPlain = true) : o.Allowed Err m f env := by
  cases o with
  | const c =>
      intro e he
      obtain ⟨v, hv⟩ := Interpreted.constant_of_isPlain f.name (hconst c rfl)
      rw [hv] at he
      cases he
  | «local» id t =>
      intro hnone
      simp [Operand.IsFound, hnone] at hfound
  | global i t =>
      intro v hv e he
      simp only [Module.isPlain, Bool.and_eq_true] at hplain
      obtain ⟨x, hx⟩ := Interpreted.initialValue_of_isPlain f.name
        (Module.of_everyVariable hplain.1.2 hv)
      rw [hx] at he
      cases he

/-- A function that is called in a plain module, by a name that is there, is a function. -/
theorem Module.function_of_callee {callee : Operand} {r : Ty} {params : List Ty} {variadic : Bool}
    {space : Nat} (hplain : m.isPlain = true) (hop : OpOver.isPlain (.call callee []) = true)
    (hknown : callee.IsKnown m f)
    (htype : callee.type = .pointer (.function r params variadic) space) :
    ∃ i t g, callee = .global i t ∧ m.function? i = some g := by
  cases callee with
  | global i t =>
      obtain ⟨s, hs, rfl⟩ := Option.map_eq_some_iff.mp hknown
      cases s with
      | function g => exact ⟨i, _, g, rfl, by rw [Module.function?, hs]⟩
      | «variable» v =>
          simp only [Module.isPlain, Bool.and_eq_true] at hplain
          have hv := Module.of_everyVariable hplain.1.2 (Interpreted.variableAt_of_symbol hs)
          have hvt : v.type = .function r params variadic := by
            simp only [Operand.type, Symbol.type, Ty.ref, Ty.pointer.injEq] at htype
            exact htype.1
          simp [Variable.isPlain, hvt, Ty.isPlain] at hv
  | _ => cases hop

/-- Entering a function on arguments that fit fails only for want of a body, or at a phi that no
block leads to. -/
theorem Function.entryAllowed_of_fit {s : Storage} {args : List Value}
    (hf : m.function? k = some f) (hargs : R.ArgsFit s f.params args) :
    f.EntryAllowed m.MayFail m args where
  declared hd := .declared hf hd
  params e he := by
    obtain ⟨env, henv⟩ := Machine.bindParams_of_argsFit hargs 0
    rw [henv] at he
    cases he
  phis env i hi := by
    have hentry : Machine.entryFor (Machine.incomingOf i) none = none := by
      simp [Machine.entryFor]
    rw [Instr.PhiAllowed, hentry]
    exact .barred hf hi

/-- A step of a frame that is ready, in a plain module, fails only as the module may. -/
theorem Frame.stepAllowed_of_ready {fr : Frame} {mem : Memory} (h : fr.Ready)
    (hf : p.module.function? k = some fr.function) (ho : fr.function.IsOrdered)
    (ht : p.module.IsTyped) (hm : p.module.Accepted types) (hplain : p.module.isPlain = true)
    (ha : ¬R.addresses) : fr.StepAllowed R p.module.MayFail p mem := by
  have hinstr {b : Nat} {i : Instr} (hi : i ∈ fr.function.instrs b) : i.isPlain = true :=
    Module.instr_isPlain hplain hf hi
  have hallowed {b : Nat} {i : Instr} (hi : i ∈ fr.function.instrs b) {o : Operand}
      (hmem : o ∈ i.op.values) (hfound : o.IsFound fr.env) :
      o.Allowed p.module.MayFail p.module fr.function fr.env :=
    Operand.allowed_of_found hplain hfound fun c hc =>
      Instr.const_isPlain (hinstr hi) (ht.instrs k _ hf b i hi) (hm.instr_reads hf hi) (hc ▸ hmem)
  constructor
  · intro hnone
    obtain ⟨i, hi⟩ := h.here
    rw [hnone] at hi
    cases hi
  · intro i hi
    have hmem : i ∈ fr.function.instrs fr.block := List.mem_of_getElem? hi
    have htyped := ht.instrs k _ hf _ i hmem
    constructor
    · exact fun o hmemo => hallowed hmem (OpOver.mem_values hmemo) (h.found ho hi o hmemo)
    · exact fun hc vs mem₁ e _ hvs he =>
        Interpreted.result_error hf hmem ha (hinstr hmem) htyped hc hvs he
    · exact fun hacc => .access hf hmem hacc
    · intro hruled
      have hop := (Bool.and_eq_true_iff.mp (hinstr hmem)).2
      rw [OpOver.isRuled_of_isPlain hop (h.isPhi_eq_false ho hi)] at hruled
      cases hruled
    · exact fun hop => .unreachable hf hmem hop
    · intro callee args hop hnot
      obtain ⟨params, variadic, space, htype, -⟩ :
        OpOver.Typed fr.function i.type (.call callee args) := hop ▸ htyped.rule
      have hcallee := (Bool.and_eq_true_iff.mp (hinstr hmem)).2
      rw [hop] at hcallee
      obtain ⟨j, t, g, rfl, hg⟩ := Module.function_of_callee hplain
        (by cases callee <;> exact hcallee)
        (htyped.known callee (by simp [hop, OpOver.values, OpOver.operands])) htype
      exact absurd hg (hnot j t g rfl)
  · intro i t hi htarget j hj
    obtain ⟨o, hentry, hfound⟩ := h.entry_found ho hi htarget hj
    rw [Instr.PhiAllowed, hentry]
    obtain ⟨incoming, b, hop, hmem, -⟩ := Machine.mem_of_entryFor hentry
    refine hallowed (b := t) ((List.takeWhile_sublist _).subset hj) ?_ hfound
    rw [hop]
    exact List.mem_map_of_mem hmem
  · exact fun n g args s hg hargs => Function.entryAllowed_of_fit hg hargs

end

/-- A call in a plain module, on arguments that fit, fails only as the module may. -/
theorem Machine.call_mayFail {types : TypeTable} {R : Regime} {p : Program} {k n : Nat}
    {f : Function} {args : List Value} {mem mem' : Memory} {e : Failure}
    (ht : p.module.IsTyped) (haccepted : p.module.Accepted types)
    (hplain : p.module.isPlain = true) (ho : p.module.IsOrdered) (ha : ¬R.addresses)
    (hm : R.Sound p.module mem) (hf : p.module.function? k = some f)
    (hargs : R.ArgsFit mem.storage f.params args)
    (h : (call Interpreted.rules p n f args).on mem = (.error e, mem')) :
    e = .stepLimit ∨ p.module.MayFail e := by
  have haddress : p.module.AddressesAllowed R := Module.addressesAllowed_of_isPlain hplain
  rcases call_cases h with ⟨e', heq, he⟩ | ⟨v, hv, -⟩ | ⟨fr, waiting, he, -⟩ |
    ⟨fr, waiting, mem₂, e', heq, hr, hs⟩
  · cases heq
    have hmeets := enter_meets hm ht ⟨k, hf⟩ hargs.ready (f.entryAllowed_of_fit hf hargs)
    exact .inr (hmeets.error _ _ he)
  · cases hv
  · cases he
    exact .inl rfl
  · cases heq
    obtain ⟨hm₂, -, hfits⟩ := reaches_fits ht haddress ⟨k, hf⟩ hm hargs.ready hr
    obtain ⟨hready, -⟩ := reaches_ready ht haddress ho hm hf hargs hr
    obtain ⟨j, hj⟩ := hfits.1.member
    have hallowed : fr.StepAllowed R p.module.MayFail p mem₂ :=
      Frame.stepAllowed_of_ready hready hj (ho j _ hj) ht haccepted hplain ha
    exact .inr ((step_meets hm₂ ht haddress hfits hallowed).error _ _ hs)

/-! ## Arguments -/

namespace Regime.ArgsSupplied

variable {R : Regime} {s : Storage}

theorem nil {args : List Value} : R.ArgsSupplied s [] args := fun _ _ h => by cases h

theorem cons {t : Ty} {v : Value} {params : List Ty} {args : List Value} (h : R.Supports s t v)
    (hrest : R.ArgsSupplied s params args) : R.ArgsSupplied s (t :: params) (v :: args) := by
  intro k t' ht
  cases k with
  | zero => cases ht; exact ⟨v, rfl, h⟩
  | succ k => exact hrest k t' ht

end Regime.ArgsSupplied

theorem Regime.supports_int {R : Regime} {s : Storage} {w : Nat} {n : Int} (h : 0 ≤ n)
    (hn : n < 2 ^ w) : R.Supports s (.int w) (.int n) :=
  ⟨fun _ => False, nofun, n, rfl, h, by simpa [Word.count] using hn⟩

/-! ## Runs on one engine -/

open Interpreted (rules)

/-- What fits the type of the result of a function crosses the boundary. -/
theorem Session.resultOf_ok {R : Regime} {s : Storage} {t : Ty} {v : Value} (h : R.Fits s t v) :
    ∃ r, resultOf t v = .ok r := by
  unfold resultOf
  split
  · exact ⟨_, rfl⟩
  · exact ⟨_, rfl⟩
  · obtain ⟨v', hv'⟩ := Regime.normalize_of_fits h
    exact ⟨_, by rw [hv']; rfl⟩

/-- An engine of a plain module begins without storage for its variables and does one run after
another.  In a further run, on an argument for each parameter that fits it, every frame that runs is
at an instruction whose operands are found, and whose targets have phis with an entry that is found;
the run fails only as the module may, and what it comes to crosses the boundary. -/
theorem Module.Admitted.progress {m : Module} (h : m.Admitted) (hname : isCutShort m.name = false)
    (hm : m.isMatched = true) (hplain : m.isPlain = true) {owner : Nat} {start mem : Memory}
    (hstart : start.globals = [])
    (hran : Machine.Ran (.apart start.storage) ⟨owner, [], m⟩ start mem) {k : Nat} {f : Function}
    {args : List Value} (hf : m.function? k = some f)
    (hargs : (Regime.apart start.storage).ArgsSupplied mem.storage f.params args) :
    (∀ fr waiting mem', Machine.Reaches rules ⟨owner, [], m⟩ f args mem (.running fr waiting) mem' →
      ∃ i, fr.current? = some i ∧ (∀ o ∈ i.op.operands, o.IsFound fr.env) ∧
        ∀ t ∈ i.op.targets, ∀ j ∈ fr.function.leadingPhis t, ∃ o,
          Machine.entryFor (Machine.incomingOf j) (some fr.block) = some o ∧ o.IsFound fr.env) ∧
      ∀ n r mem', (Machine.call rules ⟨owner, [], m⟩ n f args).on mem = (r, mem') →
        (∀ e, r = .error e → e = .stepLimit ∨ m.MayFail e) ∧
          ∀ v, r = .ok v → ∃ result, Session.resultOf f.result v = .ok result := by
  obtain ⟨types, haccepted⟩ := h.accepted hname
  have ht : m.IsTyped :=
    Module.isTyped_of_accepted h.isBuilt haccepted hm (Module.keepsPointers_of_isPlain hplain)
  have ho := Module.isOrdered_of_isPlain hplain h.isBuilt haccepted
  have haddress {R : Regime} : m.AddressesAllowed R := Module.addressesAllowed_of_isPlain hplain
  obtain ⟨known, -, hmem⟩ := Machine.ran_sound (p := ⟨owner, [], m⟩) ht haddress
    (fun _ hid => hid) (Regime.sound_of_fresh (fun _ => .rfl) hstart) hran
  -- from here on everything is known that the arguments lead to
  let R := ({ Regime.apart start.storage with known } : Regime).adopt mem.storage
  have hsound : R.Sound m mem := hmem.adopt
  have hfit : R.ArgsFit mem.storage f.params args :=
    Regime.ArgsSupplied.fit (R := { Regime.apart start.storage with known }) hargs
  have haddresses : ¬R.addresses := fun hfalse => hfalse
  refine ⟨fun fr waiting mem' hr => ?_, fun n r mem' hcall => ⟨fun e he => ?_, fun v hv => ?_⟩⟩
  · obtain ⟨-, -, hfits, -⟩ :=
      Machine.reaches_fits (p := ⟨owner, [], m⟩) ht haddress ⟨k, hf⟩ hsound hfit.ready hr
    obtain ⟨hready, -⟩ :=
      Machine.reaches_ready (p := ⟨owner, [], m⟩) ht haddress ho hsound hf hfit hr
    obtain ⟨j, hj⟩ := hfits.member
    obtain ⟨i, hi⟩ := hready.here
    exact ⟨i, hi, hready.found (ho j _ hj) hi,
      fun t htarget i' hi' => hready.entry_found (ho j _ hj) hi htarget hi'⟩
  · exact Machine.call_mayFail (p := ⟨owner, [], m⟩) ht haccepted hplain ho haddresses hsound hf
      hfit (he ▸ hcall)
  · have hmeets := Machine.call_meets (p := ⟨owner, [], m⟩) ht haddress ⟨k, hf⟩ hsound hfit.ready n
    exact Session.resultOf_ok (hmeets.ok v mem' (hv ▸ hcall))

/-! ## A loop -/

/-- The sum of the integers below a bound, by way of two phis, which is left in a cell from
outside. -/
def sumBelow : Draft where
  types := []
  globals := []
  functions := [⟨"sum", .int 32, [.int 32, .pointer (.int 32) 0], false, some [
    ⟨"e", "e", [⟨none, "", .op (.br "h")⟩]⟩,
    ⟨"h", "h", [
      ⟨some "i", "i", .phi (.int 32)
        [(.constant (.typed (.int 32) (.int 0)), "e"), (.key "j", "b")]⟩,
      ⟨some "s", "s", .phi (.int 32)
        [(.constant (.typed (.int 32) (.int 0)), "e"), (.key "t", "b")]⟩,
      ⟨some "c", "c", .op (.icmp .ult (.key "i") (.key "0"))⟩,
      ⟨none, "", .op (.condBr (.key "c") "b" "x")⟩]⟩,
    ⟨"b", "b", [
      ⟨some "t", "t", .op (.int .add (.key "s") (.key "i"))⟩,
      ⟨some "j", "j", .op (.int .add (.key "i") (.constant (.typed (.int 32) (.int 1))))⟩,
      ⟨none, "", .op (.br "h")⟩]⟩,
    ⟨"x", "x", [
      ⟨none, "", .op (.store (.key "s") (.key "1"))⟩,
      ⟨none, "", .op (.ret (some (.key "s")))⟩]⟩]⟩]

theorem sumBelow_admitted : (sumBelow.written "m").Admitted :=
  Draft.written_admitted (by decide +kernel)

/-- The loop finds whatever it uses, and there is nothing in it that can fail. -/
theorem progress_sumBelow : ∃ f, (sumBelow.written "m").function? 0 = some f ∧
    ∀ n r mem', (Machine.call rules ⟨0, [], sumBelow.written "m"⟩ n f [.int 5, .cell 0]).on
      ⟨⟨#[⟨.int 32, .int 7⟩], #[]⟩, []⟩ = (r, mem') →
      (∀ e, r = .error e → e = .stepLimit ∨ (sumBelow.written "m").MayFail e) ∧
        ∀ v, r = .ok v → ∃ result, Session.resultOf f.result v = .ok result := by
  obtain ⟨f, hf⟩ : ∃ f, (sumBelow.written "m").function? 0 = some f :=
    Option.isSome_iff_exists.mp (by decide +kernel)
  have hparams : f.params = [.int 32, .pointer (.int 32) 0] := by
    have : ((sumBelow.written "m").function? 0).map Function.params =
        some [.int 32, .pointer (.int 32) 0] := by decide +kernel
    simpa [hf] using this
  let start : Memory := ⟨⟨#[⟨.int 32, .int 7⟩], #[]⟩, []⟩
  have hargs : (Regime.apart start.storage).ArgsSupplied start.storage f.params
      [.int 5, .cell 0] := by
    rw [hparams]
    have hword : (Value.int 7).IsWord 32 := ⟨7, rfl, by decide, by decide⟩
    have hcell : (Regime.apart start.storage).Supports start.storage (.pointer (.int 32) 0)
        (.cell 0) := Regime.supports_cell (c := ⟨.int 32, .int 7⟩) rfl rfl hword
    exact .cons (Regime.supports_int (by decide) (by decide)) (.cons hcell .nil)
  exact ⟨f, hf, (sumBelow_admitted.progress (by decide +kernel) (by decide +kernel)
    (by decide +kernel) rfl .fresh hf hargs).2⟩

/-! ## Where it fails -/

/-- A function whose first block begins with a phi. -/
def phiFirst : Draft where
  types := []
  globals := []
  functions := [⟨"f", .int 32, [], false, some [⟨"e", "e", [
    ⟨some "x", "x", .phi (.int 32) []⟩,
    ⟨none, "", .op (.ret (some (.key "x")))⟩]⟩]⟩]

/-- A function that doubles what a pointer leads to. -/
def doubled : Draft where
  types := []
  globals := []
  functions := [⟨"f", .int 32, [.pointer (.int 32) 0], false, some [⟨"e", "e", [
    ⟨some "v", "v", .op (.load (.key "0"))⟩,
    ⟨some "y", "y", .op (.int .add (.key "v") (.key "v"))⟩,
    ⟨none, "", .op (.ret (some (.key "y")))⟩]⟩]⟩]

/-- The same of a pointer that comes from a phi, which takes one of another type. -/
def mixedPhi : Draft where
  types := []
  globals := []
  functions := [⟨"f", .int 32, [], false, some [
    ⟨"e", "e", [
      ⟨some "a", "a", .op (.alloca (.pointer (.int 32) 0) none)⟩,
      ⟨none, "", .op (.br "n")⟩]⟩,
    ⟨"n", "n", [
      ⟨some "p", "p", .phi (.pointer (.int 32) 0) [(.key "a", "e")]⟩,
      ⟨some "v", "v", .op (.load (.key "p"))⟩,
      ⟨some "y", "y", .op (.int .add (.key "v") (.key "v"))⟩,
      ⟨none, "", .op (.ret (some (.key "y")))⟩]⟩]⟩]

/-- What a run of the first function of a module fails with. -/
def Module.failure? (m : Module) (args : List Value) (mem : Memory) : Option Failure :=
  (m.function? 0).bind fun f =>
    Effect.failure? ((Machine.call rules ⟨0, [], m⟩ 9 f args).on mem).1

/-- Three modules that were admitted and are plain.  The first function cannot be entered; the
second meets null where it expects an integer, in a cell of another type than its parameter points
to; so does the third, in a cell of another type than its phi. -/
theorem not_progress :
    ((phiFirst.written "m").Admitted ∧ isCutShort (phiFirst.written "m").name = false ∧
      (phiFirst.written "m").isMatched = true ∧ (phiFirst.written "m").isPlain = true ∧
      (phiFirst.written "m").failure? [] .empty = some (.noIncoming "x" "f" "<entry>")) ∧
    ((doubled.written "m").Admitted ∧ isCutShort (doubled.written "m").name = false ∧
      (doubled.written "m").isMatched = true ∧ (doubled.written "m").isPlain = true ∧
      (doubled.written "m").failure? [.cell 0] ⟨⟨#[⟨.pointer (.int 32) 0, .null⟩], #[]⟩, []⟩ =
        some .typeMismatch) ∧
    ((mixedPhi.written "m").Admitted ∧ isCutShort (mixedPhi.written "m").name = false ∧
      (mixedPhi.written "m").isPlain = true ∧
      (mixedPhi.written "m").failure? [] .empty = some .typeMismatch) := by
  have hfirst : (phiFirst.written "m").Admitted := Draft.written_admitted (by decide +kernel)
  have hdoubled : (doubled.written "m").Admitted := Draft.written_admitted (by decide +kernel)
  have hmixed : (mixedPhi.written "m").Admitted := Draft.written_admitted (by decide +kernel)
  refine ⟨⟨hfirst, ?_⟩, ⟨hdoubled, ?_⟩, ⟨hmixed, ?_⟩⟩
  · decide +kernel
  · decide +kernel
  · decide +kernel

end Ssa

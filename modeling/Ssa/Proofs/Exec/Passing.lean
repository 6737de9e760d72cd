/-
# `Ssa.Proofs.Exec.Passing` — integers on the way into a function

A function that is interpreted brings each argument to the type of its parameter: an integer is wrapped
to the width.  Compiled code gets its integers through carriers: at width one that of a truth, which is
one for every integer but zero, and at the other widths that of a word, which wraps.  So the two agree
except on even integers other than zero at width one.

**Proved here.**

    both take every list of integers                 (`bindParams_entry`, `pass_all`)
    where they give a parameter the same value        (`wrapped_eq_crossed_iff`, `entry_eq_iff`)
    a function depends on what its parameters hold    (`call_entry`)
    a call of compiled code, in full                   (`invoke_on`)
-/
import Ssa.Exec.Boundary
import Ssa.Exec.Snapshot
import Ssa.Proofs.Exec.Outcome
import Ssa.Proofs.Program.Kept

namespace Ssa

/-! ## Integers on entry -/

/-- A type of integers that can be passed to compiled code. -/
def Ty.isWord : Ty → Bool
  | .int w => w == 1 || Compiled.passableWidths.contains w
  | _ => false

/-- The integer that a parameter of a width holds for an integer, when the function is interpreted. -/
def wrapped (w : Nat) (n : Int) : Int := Word.wrap w n

/-- The integer that a parameter of a width holds for an integer, when compiled code is called. -/
def crossed (w : Nat) (n : Int) : Int :=
  if w = 1 then if n = 0 then 0 else 1 else Word.wrap w n

/-- An integer of which the last digit tells whether it is zero. -/
def IsPlainTruth (n : Int) : Prop := n = 0 ∨ n % 2 = 1

/-- The two agree but at width one, and there on zero and the odd integers. -/
theorem wrapped_eq_crossed_iff {w : Nat} {n : Int} :
    wrapped w n = crossed w n ↔ (w = 1 → IsPlainTruth n) := by
  unfold wrapped crossed IsPlainTruth
  by_cases hw : w = 1
  · subst hw
    have hwrap : Word.wrap 1 n = n % 2 := rfl
    rw [if_pos rfl, hwrap]
    split <;> omega
  · simp [hw]

theorem wrap_wrapped (w : Nat) (n : Int) : Word.wrap w (wrapped w n) = wrapped w n :=
  Word.wrap_wrap w n

theorem wrap_crossed (w : Nat) (n : Int) : Word.wrap w (crossed w n) = crossed w n := by
  unfold crossed
  split
  · subst w
    split <;> rfl
  · exact Word.wrap_wrap w n

/-- What the parameters of a function hold on entry, numbered from the given one on. -/
def entry (word : Nat → Int → Int) : List Ty → List Value → Nat → Env
  | .int w :: ts, v :: vs, id => (id, .int (word w (v.int?.getD 0))) :: entry word ts vs (id + 1)
  | _, _, _ => []

/-- Values that are integers, or truths, which count as such. -/
def AreIntegers (vs : List Value) : Prop := ∀ v ∈ vs, v.int?.isSome

variable {ts : List Ty} {vs : List Value}

theorem toInt_of_int? {v : Value} {n : Int} (h : v.int? = some n) : v.toInt = .ok n := by
  cases v <;> cases h <;> rfl

theorem isTrue_of_int? {v : Value} {n : Int} (h : v.int? = some n) : v.isTrue = decide (n ≠ 0) := by
  cases v with
  | truth b => cases b <;> cases h <;> rfl
  | int m => cases h; rfl
  | _ => cases h

/-- Interpreting, the parameters are bound to the wrapped integers. -/
theorem bindParams_entry (hts : ∀ t ∈ ts, t.isWord = true) (hvs : AreIntegers vs) (id : Nat) :
    Machine.bindParams ts vs id = .ok (entry wrapped ts vs id) := by
  induction ts generalizing vs id with
  | nil => rfl
  | cons t ts ih =>
      cases vs with
      | nil => cases t <;> rfl
      | cons v vs =>
          obtain ⟨ht, htail⟩ := List.forall_mem_cons.mp hts
          obtain ⟨hv, hrest⟩ := List.forall_mem_cons.mp hvs
          obtain ⟨n, hn⟩ := Option.isSome_iff_exists.mp hv
          cases t with
          | int w =>
              have hv : v.normalize (.int w) = .ok (.int (wrapped w n)) := by
                rw [Value.normalize, toInt_of_int? hn]
                rfl
              rw [Machine.bindParams, hv, ih htail hrest, entry, hn]
              rfl
          | _ => cases ht

/-- What was bound once is bound to the same again. -/
theorem bindParams_values {word : Nat → Int → Int} (hword : ∀ w n, Word.wrap w (word w n) = word w n)
    (hts : ∀ t ∈ ts, t.isWord = true) (id : Nat) :
    Machine.bindParams ts ((entry word ts vs id).map Prod.snd) id = .ok (entry word ts vs id) := by
  induction ts generalizing vs id with
  | nil => rfl
  | cons t ts ih =>
      obtain ⟨ht, htail⟩ := List.forall_mem_cons.mp hts
      cases t with
      | int w =>
          cases vs with
          | nil => rfl
          | cons v vs =>
              have hv : (Value.int (word w (v.int?.getD 0))).normalize (.int w) =
                  .ok (.int (word w (v.int?.getD 0))) :=
                congrArg (fun n => Except.ok (Value.int n)) (hword w _)
              rw [entry, List.map_cons, Machine.bindParams, hv, ih htail]
              rfl
      | _ => cases ht

/-- The parameters hold the same either way if and only if what is passed at width one is zero or
odd. -/
theorem entry_eq_iff (hts : ∀ t ∈ ts, t.isWord = true) (hvs : AreIntegers vs) (id : Nat) :
    entry wrapped ts vs id = entry crossed ts vs id ↔
      ∀ tv ∈ ts.zip vs, tv.1 = .int 1 → ∀ n, tv.2.int? = some n → IsPlainTruth n := by
  induction ts generalizing vs id with
  | nil => simp [entry]
  | cons t ts ih =>
      obtain ⟨ht, htail⟩ := List.forall_mem_cons.mp hts
      cases vs with
      | nil => cases t <;> simp [entry]
      | cons v vs =>
          obtain ⟨hv, hrest⟩ := List.forall_mem_cons.mp hvs
          obtain ⟨n, hn⟩ := Option.isSome_iff_exists.mp hv
          cases t with
          | int w =>
              have hhead : wrapped w n = crossed w n ↔
                  ((Ty.int w) = .int 1 → ∀ n', v.int? = some n' → IsPlainTruth n') := by
                rw [wrapped_eq_crossed_iff, hn]
                simp
              rw [List.zip_cons_cons, List.forall_mem_cons, ← ih htail hrest (id + 1), ← hhead]
              simp [entry, hn]
          | _ => cases ht

/-! ## Crossing the boundary -/

namespace Compiled

theorem carrier_of_isWord {t : Ty} (ht : t.isWord = true) :
    ∃ w, t = .int w ∧ carrier t = .ok (if w = 1 then .truth else .word w) := by
  cases t with
  | int w =>
      refine ⟨w, rfl, ?_⟩
      simp only [Ty.isWord, Bool.or_eq_true, beq_iff_eq] at ht
      show (if w = 1 then .ok .truth
        else if passableWidths.contains w then .ok (.word w)
        else .error (.unpassable (.type (.int w))) : Except Failure Carrier) = _
      by_cases hw : w = 1
      · simp [hw]
      · rw [if_neg hw, if_pos (ht.resolve_left hw), if_neg hw]
  | _ => cases ht

theorem pass_on {w : Nat} {v : Value} {n : Int} (hn : v.int? = some n) (mem : Memory) :
    (Carrier.pass (if w = 1 then .truth else .word w) v).on mem =
      (.ok (.int (crossed w n)), mem) := by
  by_cases hw : w = 1
  · rw [if_pos hw]
    show (pure (Value.ofBool v.isTrue) : Exec Value).on mem = _
    rw [isTrue_of_int? hn, Effect.on_pure, Value.ofBool, crossed, if_pos hw]
    by_cases h0 : n = 0 <;> simp [h0]
  · rw [if_neg hw]
    show (Exec.lift (passedInt w v)).on mem = _
    rw [Exec.on_lift, passedInt, hn, crossed, if_neg hw]

/-- Every list of integers can be passed, and nothing else changes. -/
theorem pass_all (hts : ∀ t ∈ ts, t.isWord = true) (hvs : AreIntegers vs)
    (hlength : vs.length = ts.length) (id : Nat) :
    ∃ carriers : List Carrier, ts.mapM carrier = .ok carriers ∧ ∀ mem : Memory,
      ((carriers.zip vs).mapM fun (c, v) => c.pass v : Exec (List Value)).on mem =
        (.ok ((entry crossed ts vs id).map Prod.snd), mem) := by
  induction ts generalizing vs id with
  | nil => exact ⟨[], rfl, fun mem => by cases vs <;> rfl⟩
  | cons t ts ih =>
      cases vs with
      | nil => cases hlength
      | cons v vs =>
          obtain ⟨ht, htail⟩ := List.forall_mem_cons.mp hts
          obtain ⟨hv, hrest⟩ := List.forall_mem_cons.mp hvs
          obtain ⟨n, hn⟩ := Option.isSome_iff_exists.mp hv
          obtain ⟨w, rfl, hc⟩ := carrier_of_isWord ht
          obtain ⟨carriers, hcarriers, hpass⟩ := ih htail hrest (Nat.succ.inj hlength) (id + 1)
          refine ⟨_ :: carriers, by rw [List.mapM_cons, hc, hcarriers]; rfl, fun mem => ?_⟩
          rw [List.zip_cons_cons, List.mapM_cons, Effect.on_bind_of_ok (pass_on hn mem),
            Effect.on_bind_of_ok (hpass mem), entry, hn]
          rfl

end Compiled

/-! ## Calls -/

/-- What a call comes to depends on what the parameters hold. -/
theorem Machine.call_of_bindParams {rules : Rules} {p : Program} {steps : Nat} {f : Function}
    {args args' : List Value} (h : bindParams f.params args 0 = bindParams f.params args' 0) :
    call rules p steps f args = call rules p steps f args' := by
  unfold call enter
  rw [h]

/-- Interpreting a function on integers is interpreting it on what its parameters then hold. -/
theorem call_entry {rules : Rules} {p : Program} {steps : Nat} {f : Function}
    (hts : ∀ t ∈ f.params, t.isWord = true) (hvs : AreIntegers vs) :
    Machine.call rules p steps f vs =
      Machine.call rules p steps f ((entry wrapped f.params vs 0).map Prod.snd) := by
  refine Machine.call_of_bindParams ?_
  rw [bindParams_entry hts hvs, bindParams_values wrap_wrapped hts]

/-! ## What is compiled of a module -/

namespace Module

variable {m : Module}

theorem symbols_snapshot (m : Module) (i : Nat) :
    m.snapshot.symbols[i]? = (m.symbols[i]?).map fun s => match s with
      | .variable v => .variable { v with init := v.textInit }
      | .function f => .function f.snapshot :=
  Array.getElem?_map

theorem function?_snapshot {i : Nat} {f : Function} (h : m.function? i = some f) :
    m.snapshot.function? i = some f.snapshot := by
  rw [function?, symbols_snapshot, symbol_of_function? h]
  rfl

theorem IsNamed.snapshot (h : m.IsNamed) : m.snapshot.IsNamed := by
  have hname {i : Nat} {s : Symbol} (hs : m.snapshot.symbols[i]? = some s) :
      ∃ s₀, m.symbols[i]? = some s₀ ∧ s₀.name = s.name := by
    rw [symbols_snapshot] at hs
    obtain ⟨s₀, hs₀, rfl⟩ := Option.map_eq_some_iff.mp hs
    exact ⟨s₀, hs₀, by cases s₀ <;> rfl⟩
  intro i j s s' hs hs' heq
  obtain ⟨s₀, hs₀, hs₀name⟩ := hname hs
  obtain ⟨s₀', hs₀', hs₀name'⟩ := hname hs'
  exact h i j s₀ s₀' hs₀ hs₀' (hs₀name.trans (heq.trans hs₀name'.symm))

end Module

/-- What a call of compiled code on integers comes to: the function is run on what crossed over, and
an integer comes back as it is. -/
theorem Compiled.invoke_on {m : Module} {i : Nat} {f : Function} (owner : Nat) (types : TypeTable) (steps : Nat)
    (hm : m.IsNamed) (hf : m.function? i = some f) (hbody : f.isDeclaration = false)
    (hparams : ∀ t ∈ f.params, t.isWord = true) (hresult : f.result = .void ∨ f.result.isWord = true)
    (hvs : AreIntegers vs) (hlength : vs.length = f.params.length) (mem : Memory) :
    ∃ back, carrier f.result = .ok back ∧
      (invoke ⟨owner, types, m.snapshot⟩ steps f.name f.result f.params vs).on mem =
        (Machine.call rules ⟨owner, types, m.snapshot⟩ steps f.snapshot
          ((entry crossed f.params vs 0).map Prod.snd) >>= fun v => pure (back.result v)).on mem := by
  obtain ⟨carriers, hcarriers, hpass⟩ := pass_all hparams hvs hlength 0
  obtain ⟨back, hback⟩ : ∃ back, carrier f.result = .ok back := by
    rcases hresult with h | h
    · exact ⟨_, by rw [h]; rfl⟩
    · obtain ⟨_, -, h⟩ := carrier_of_isWord h
      exact ⟨_, h⟩
  have hfunction := Module.function?_snapshot hf
  have hindex : m.snapshot.functionIndex? f.name = some i :=
    hm.snapshot.functionIndex?_eq_some_iff.mpr ⟨_, hfunction, rfl⟩
  have hbody' : f.snapshot.isDeclaration = false := by
    simpa [Function.isDeclaration, Function.snapshot] using hbody
  refine ⟨back, hback, ?_⟩
  unfold invoke
  rw [if_neg (by omega), hback, hcarriers]
  dsimp only
  rw [hindex, Option.bind_some, hfunction]
  dsimp only
  rw [hbody']
  exact Effect.on_bind_of_ok (hpass mem)

end Ssa

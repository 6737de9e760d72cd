/-
# `Ssa.Proofs.Exec.Endings` — the failures by which the interpreter ends a run

A run of the interpreter ends in a value, in one of the failures that `Failure.endsRun` lists, or
not at all; that the number of steps is used up is never a failure of an instruction.  Of those that
are listed, `Failure.endsInstr` has the ones that an instruction itself can fail with; the others are
failures of the machine: a block that has ended, a phi without an entry, a function without a body.
There is one lemma for each function that the rules are made of, and each is put together from the
lemmas about the functions that it calls.
-/
import Ssa.Proofs.Exec.Steps

namespace Ssa

/-- Whether a cause is one by which the interpreter fails at an instruction. -/
@[simp]
def Failure.endsInstr : Failure → Bool
  | .unsupported .. | .reachedUnreachable _ | .divisionByZero _ => true
  | .mathDomain | .nanToInteger | .infinityToInteger | .integerTooLarge | .negativeShift
  | .zeroDivision | .outOfRange | .notAWord | .typeMismatch | .lacksAttribute | .badValue => true
  | _ => false

/-- Whether a cause is one by which the interpreter ends a run. -/
@[simp]
def Failure.endsRun : Failure → Bool
  | .unsupported .. | .noBody _ | .reachedUnreachable _ | .noTerminator .. | .divisionByZero _
  | .noIncoming .. => true
  | .mathDomain | .nanToInteger | .infinityToInteger | .integerTooLarge | .negativeShift
  | .zeroDivision | .outOfRange | .notAWord | .typeMismatch | .lacksAttribute | .badValue => true
  | _ => false

/-- Whatever fails as an instruction does ends a run. -/
theorem Failure.endsRun_of_endsInstr {e : Failure} (h : e.endsInstr = true) : e.endsRun = true := by
  cases e <;> first | rfl | cases h

/-- Whatever an outcome fails with is among some causes. -/
def FailsBy {α : Type} (S : Failure → Bool) (x : Except Failure α) : Prop :=
  ∀ e, x = .error e → S e = true

/-- Whatever an outcome fails with ends a run. -/
def Endings {α : Type} (x : Except Failure α) : Prop :=
  ∀ e, x = .error e → e.endsRun = true

namespace FailsBy

variable {α β : Type} {S : Failure → Bool}

@[simp] theorem ok (a : α) : FailsBy S (.ok a) := nofun

@[simp] theorem pure (a : α) : FailsBy S (Pure.pure a) := nofun

@[simp] theorem error_iff {e : Failure} :
    FailsBy S (.error e : Except Failure α) ↔ S e = true :=
  ⟨fun h => h e rfl, fun h _ he => by cases he; exact h⟩

@[simp] theorem throw_iff {e : Failure} :
    FailsBy S (throw e : Except Failure α) ↔ S e = true :=
  error_iff

@[simp] theorem map_iff {x : Except Failure α} {f : α → β} :
    FailsBy S (x.map f) ↔ FailsBy S x := by
  cases x <;> simp [Except.map]

@[simp] theorem discard_iff {x : Except Failure α} : FailsBy S (discard x) ↔ FailsBy S x := map_iff

theorem bind {x : Except Failure α} {f : α → Except Failure β} (hx : FailsBy S x)
    (hf : ∀ a, FailsBy S (f a)) : FailsBy S (x >>= f) := by
  cases x with
  | error e => exact fun e' he => hx e' (by cases he; rfl)
  | ok a => exact hf a

theorem mono {T : Failure → Bool} {x : Except Failure α} (h : FailsBy S x)
    (hST : ∀ e, S e = true → T e = true) : FailsBy T x :=
  fun e he => hST e (h e he)

end FailsBy

@[simp] theorem Endings.ok {α : Type} (a : α) : Endings (.ok a) := nofun

@[simp] theorem Endings.error_iff {α : Type} {e : Failure} :
    Endings (.error e : Except Failure α) ↔ e.endsRun = true :=
  FailsBy.error_iff

/-- Whatever an outcome fails with is a failure of an instruction. -/
abbrev Faults {α : Type} (x : Except Failure α) : Prop := FailsBy Failure.endsInstr x

/-! ## Numbers and values -/

theorem Constant.doubleOfInt_faults (n : Int) : Faults (Constant.doubleOfInt n) := by
  unfold Constant.doubleOfInt
  split <;> simp

theorem Number.toFp_faults (n : Number) : Faults n.toFp := by
  cases n with
  | int n => exact Constant.doubleOfInt_faults n
  | real x => exact .ok x

theorem Fp.toInt_faults (x : Fp) : Faults x.toInt := by
  cases x <;> simp [Fp.toInt]

namespace Value

theorem number_faults (v : Value) : Faults v.number := by
  unfold Value.number
  split <;> simp

theorem integer_faults (v : Value) : Faults v.integer := by
  unfold Value.integer
  split <;> simp

theorem realNumber_faults (v : Value) : Faults v.realNumber :=
  .bind v.number_faults fun n => .bind (FailsBy.discard_iff.mpr n.toFp_faults) fun _ => .pure n

theorem toInt_faults (v : Value) : Faults v.toInt := by
  cases v with
  | real x => exact x.toInt_faults
  | text s => unfold Value.toInt; dsimp only; split <;> simp
  | _ => simp [Value.toInt]

theorem toFp_faults (v : Value) : Faults v.toFp := by
  cases v with
  | int n => exact Constant.doubleOfInt_faults n
  | text s => unfold Value.toFp; dsimp only; split <;> simp
  | _ => simp [Value.toFp]

theorem normalize_faults (t : Ty) (v : Value) : Faults (v.normalize t) := by
  unfold Value.normalize
  split <;> simp [v.toInt_faults, v.toFp_faults]

theorem negate_faults (v : Value) : Faults v.negate := by
  unfold Value.negate
  split <;> simp

end Value

theorem Ty.width_faults (t : Ty) : Faults t.width := by
  unfold Ty.width
  split <;> simp

/-! ## Operations on integers -/

namespace IntOp

theorem signedReading_faults (w : Nat) (a : Int) : Faults (signedReading w a) := by
  unfold signedReading
  split <;> simp

theorem shift_faults (w : Nat) (b : Int) {result : Nat → Except Failure Int}
    (h : ∀ n, Faults (result n)) : Faults (shift w b result) := by
  unfold shift
  split
  · exact .ok 0
  · split
    · simp
    · exact h _

theorem divideSigned_faults (w : Nat) (divide : Int → Int → Int) (a b : Int) :
    Faults (divideSigned w divide a b) := by
  refine .bind (signedReading_faults w a) fun _ => .bind (signedReading_faults w b) fun _ => ?_
  split <;> simp

theorem exact_faults (function : String) (op : IntOp) (w : Nat) (a b : Int) :
    Faults (op.exact function w a b) := by
  unfold exact
  split
  · simp
  · cases op with
    | sdiv | srem => exact divideSigned_faults w _ a b
    | shl | lshr => exact shift_faults w b fun _ => .ok _
    | ashr => exact shift_faults w b fun _ => .bind (signedReading_faults w a) fun _ => .pure _
    | _ => exact .ok _

/-- What comes before values turn out not to be for an operation fails for want of a width or of a
double, or by the length of a text. -/
theorem prepare_failsBy {S : Failure → Bool} (hwidth : S .negativeShift = true)
    (hdouble : S .integerTooLarge = true) (hlength : S .outOfRange = true) (op : IntOp) (w : Nat)
    (a b : Value) : FailsBy S (op.prepare w a b) := by
  have signed (n : Int) : FailsBy S (discard (signedReading w n)) := by
    unfold signedReading
    split <;> simp [hwidth]
  have double (n : Number) : FailsBy S (discard n.toFp) := by
    cases n with
    | int n => simp only [Number.toFp, Constant.doubleOfInt]; split <;> simp [hdouble]
    | real x => simp [Number.toFp]
  cases op with
  | add | sub | mul | udiv | urem =>
      dsimp only [prepare]
      split
      · exact .bind (double _) fun _ => double _
      · split
        · rename_i r hr
          split at hr
          · rcases Value.eq_of_repeated? hr with rfl | ⟨s, rfl⟩ <;> simp [hlength]
          · cases hr
        · exact .pure _
  | sdiv | srem | ashr =>
      dsimp only [prepare]
      split
      · exact signed _
      · exact .pure _
  | _ => exact .pure _

theorem apply_faults (function : String) (op : IntOp) (w : Nat) (a b : Value) :
    Faults (op.apply function w a b) := by
  unfold apply
  split
  · simpa [compute] using exact_faults function op w _ _
  · unfold misapplied
    split
    · simp
    · split
      · simp
      · exact .bind (op.prepare_failsBy rfl rfl rfl w a b) fun _ => by simp

end IntOp

theorem IntPred.compare_faults (p : IntPred) (w : Nat) (a b : Int) : Faults (p.compare w a b) := by
  have reading (a : Int) : Faults (p.reading w a) := by
    unfold IntPred.reading
    split
    · exact IntOp.signedReading_faults w a
    · exact .ok a
  exact .bind (reading a) fun _ => .bind (reading b) fun _ => .pure _

theorem IntPred.apply_faults (function : String) (p : IntPred) (t : Ty) (onePlace : Bool)
    (a b : Value) : Faults (p.apply function t onePlace a b) := by
  unfold IntPred.apply
  split
  · split
    · simpa using p.compare_faults _ _ _
    · split <;> simp
  · split <;> simp

/-! ## Operations on floating point -/

namespace FpOp

theorem combine_faults (onInts : Int → Int → Int) (onFps : Fp → Fp → Fp) (a b : Number) :
    Faults (combine onInts onFps a b) := by
  have toFps : Faults (do return Number.real (onFps (← a.toFp) (← b.toFp))) :=
    .bind a.toFp_faults fun _ => .bind b.toFp_faults fun _ => .pure _
  cases a <;> cases b <;> first | exact .ok _ | exact toFps

theorem quotient_faults (a b : Number) : Faults (quotient a b) := by
  have toFps : Faults (do return Number.real ((← a.toFp).div (← b.toFp))) :=
    .bind a.toFp_faults fun _ => .bind b.toFp_faults fun _ => .pure _
  unfold quotient
  split
  · unfold quotientByZero
    split
    · exact .pure _
    · refine .bind a.toFp_faults fun x => ?_
      split
      · exact .pure _
      · exact .bind b.toFp_faults fun _ => .pure _
  · split
    · split <;> simp
    · exact toFps

theorem exact_faults (op : FpOp) (a b : Number) : Faults (op.exact a b) := by
  cases op with
  | fadd | fsub | fmul => exact combine_faults _ _ a b
  | fdiv => exact quotient_faults a b
  | frem =>
      refine .bind a.toFp_faults fun x => .bind b.toFp_faults fun y => ?_
      split <;> simp

theorem apply_faults (op : FpOp) (a b : Value) : Faults (op.apply a b) := by
  unfold apply
  split
  · exact .ok _
  · split
    · rename_i r hr
      rcases eq_of_onTexts? hr with rfl | ⟨s, rfl⟩ <;> simp
    · exact .bind a.number_faults fun x => .bind b.number_faults fun y =>
        .bind (op.exact_faults x y) fun _ => .pure _

end FpOp

theorem FpPred.apply_faults (p : FpPred) (a b : Value) : Faults (p.apply a b) := by
  refine .bind a.realNumber_faults fun x => ?_
  split
  · exact .pure _
  · exact .bind b.realNumber_faults fun y => .pure _

/-! ## Conversions -/

namespace CastOp

theorem wrapTo_faults (t : Ty) (v : Value) : Faults (wrapTo t v) :=
  .bind t.width_faults fun _ => .bind v.integer_faults fun _ => .pure _

theorem signedAt_faults (t : Ty) (v : Value) : Faults (signedAt t v) :=
  .bind t.width_faults fun w => .bind v.integer_faults fun n => IntOp.signedReading_faults w n

theorem integerPart_faults (t : Ty) (v : Value) : Faults (integerPart t v) := by
  refine .bind v.realNumber_faults fun n => ?_
  cases n with
  | int n => exact .bind t.width_faults fun _ => .pure _
  | real x =>
      dsimp only
      split
      · exact .bind t.width_faults fun _ => .pure _
      · exact .pure _

theorem digits_faults (width : Nat) (v : Value) : Faults (digits width v) := by
  unfold digits
  split
  · split <;> simp
  · simp

theorem datum_faults (p : Precision) (v : Value) : Faults (datum p v) := by
  unfold datum
  split
  · simp
  · dsimp only
    split <;> simp

theorem reinterpret_faults (function : String) (source target : Ty) (v : Value) :
    Faults (reinterpret function source target v) := by
  unfold reinterpret
  split
  · exact .ok v
  · exact .ok v
  · exact .bind (digits_faults _ v) fun _ => .pure _
  · exact .bind (digits_faults _ v) fun _ => .pure _
  · exact .bind (datum_faults _ v) fun _ => .pure _
  · exact .bind (datum_faults _ v) fun _ => .pure _
  · simp

theorem address_faults (function : String) (op : CastOp) (target : Ty) (v : Value) :
    Faults (address function op target v) := by
  unfold address
  split
  · split <;> exact .ok _
  · simp

theorem apply_faults (function : String) (op : CastOp) (source target : Ty) (v : Value) :
    Faults (op.apply function source target v) := by
  cases op with
  | trunc | zext => exact wrapTo_faults target v
  | sext =>
      exact .bind (signedAt_faults source v) fun _ =>
        .bind target.width_faults fun _ => .pure _
  | fptrunc | fpext => exact v.normalize_faults target
  | fptoui | fptosi => exact integerPart_faults target v
  | uitofp => exact .bind v.toFp_faults fun _ => Value.normalize_faults target _
  | sitofp =>
      exact .bind (signedAt_faults source v) fun n =>
        .bind (Constant.doubleOfInt_faults n) fun _ => Value.normalize_faults target _
  | bitcast => exact reinterpret_faults function source target v
  | ptrtoint | inttoptr => exact address_faults function _ target v
  | addrspacecast => simp [apply]

end CastOp

/-! ## Computations on a memory -/

/-- Whatever a computation fails with, on any memory, is among some causes. -/
def Exec.FailsBy {α : Type} (S : Failure → Bool) (x : Exec α) : Prop :=
  ∀ mem, Ssa.FailsBy S (x.on mem).1

namespace Exec.FailsBy

variable {α β : Type} {S : Failure → Bool}

@[simp] theorem pure (a : α) : FailsBy S (Pure.pure a) := fun _ => .ok a

@[simp] theorem throw_iff {e : Failure} : FailsBy S (throw e : Exec α) ↔ S e = true :=
  ⟨fun h => Ssa.FailsBy.error_iff.mp (h .empty), fun h _ => Ssa.FailsBy.error_iff.mpr h⟩

theorem lift {x : Except Failure α} (h : Ssa.FailsBy S x) : FailsBy S (Exec.lift x) := by
  intro mem
  rw [on_lift]
  exact h

theorem bind {x : Exec α} {f : α → Exec β} (hx : FailsBy S x) (hf : ∀ a, FailsBy S (f a)) :
    FailsBy S (x >>= f) := by
  intro mem e he
  rcases Effect.on_bind_cases (Prod.ext he rfl) with ⟨_, hx', he'⟩ | ⟨a, mem₁, -, ha⟩
  · cases he'
    exact hx mem e (congrArg Prod.fst hx')
  · exact hf a mem₁ e (congrArg Prod.fst ha)

theorem mapM {f : α → Exec β} (hf : ∀ a, FailsBy S (f a)) (as : List α) :
    FailsBy S (as.mapM f) := by
  induction as with
  | nil => exact .pure []
  | cons a as ih =>
      rw [List.mapM_cons]
      exact .bind (hf a) fun b => .bind ih fun bs => .pure (b :: bs)

theorem mono {T : Failure → Bool} {x : Exec α} (h : FailsBy S x)
    (hST : ∀ e, S e = true → T e = true) : FailsBy T x :=
  fun mem => (h mem).mono hST

end Exec.FailsBy

/-- Whatever a computation fails with, on any memory, is a failure of an instruction. -/
abbrev Exec.Faults {α : Type} (x : Exec α) : Prop := Exec.FailsBy Failure.endsInstr x

namespace Machine

theorem bindParams_faults (ts : List Ty) (vs : List Value) (id : Nat) :
    Faults (bindParams ts vs id) := by
  induction ts generalizing vs id with
  | nil => exact .ok []
  | cons t ts ih =>
      cases vs with
      | nil => exact .ok []
      | cons v vs =>
          exact .bind (v.normalize_faults t) fun x => .bind (ih vs (id + 1)) fun env => .pure _

end Machine

namespace Interpreted

theorem constant_faults (function : String) (c : Constant) :
    Faults (constant function c) := by
  have scalar_faults (t : Ty) (v : Value) : Faults (constant.scalar function t v) := by
    unfold constant.scalar
    split
    · exact v.normalize_faults t
    · simp
  cases c with
  | null | undef => exact .ok _
  | int | truth | real => exact scalar_faults _ _
  | aggregate => simp [constant]

theorem globalCell_faults (function : String) (i : Nat) (v : Variable) :
    Exec.Faults (globalCell function i v) := by
  have initialValue_faults : Faults (initialValue function v) := by
    unfold initialValue
    split
    · exact .ok _
    · exact constant_faults function _
    · simp
  unfold globalCell
  refine .bind (fun _ => .ok _) fun mem => ?_
  split
  · exact .pure _
  · exact .bind (.lift initialValue_faults) fun _ => .bind (fun _ => .ok _) fun _ =>
      .bind (fun _ => .ok _) fun _ => .pure _

theorem eval_faults (p : Program) (f : Function) (env : Env) (o : Operand) :
    Exec.Faults (eval p f env o) := by
  cases o with
  | const c => exact .lift (constant_faults f.name c)
  | «local» id t =>
      unfold eval
      dsimp only
      split <;> simp
  | global i t =>
      unfold eval
      dsimp only
      split
      · exact globalCell_faults f.name i _
      · exact .pure _
      · simp

section

variable {ev : Operand → Exec Value} (hev : ∀ o, Exec.Faults (ev o))
include hev

theorem compute_faults (f : Function) (t : Ty) (op : Op) : Exec.Faults (compute ev f t op) := by
  have cellOf_faults (word : String) (v : Value) : Exec.Faults (cellOf f word v) := by
    unfold cellOf
    split <;> simp
  have integerOp_faults (op : IntOp) (a b : Value) : Faults (integerOp f op t a b) := by
    unfold integerOp
    split
    · exact op.apply_faults f.name _ a b
    · simp
  unfold compute
  split
  · exact .bind (hev _) fun _ => .bind (hev _) fun _ => .lift (integerOp_faults _ _ _)
  · exact .bind (hev _) fun _ => .bind (hev _) fun _ => .lift <|
      .bind (FpOp.apply_faults _ _ _) fun x => x.normalize_faults t
  · exact .bind (hev _) fun x => .lift (.bind x.negate_faults fun y => y.normalize_faults t)
  · exact .bind (hev _) fun _ => .bind (hev _) fun _ => .lift (IntPred.apply_faults _ _ _ _ _ _)
  · exact .bind (hev _) fun _ => .bind (hev _) fun _ => .lift (FpPred.apply_faults _ _ _)
  · exact .bind (hev _) fun _ => .lift (CastOp.apply_faults _ _ _ _ _)
  · refine .bind (hev _) fun x => ?_
    split <;> exact hev _
  · exact .bind (fun _ => .ok _) fun _ => .pure _
  · exact .bind (hev _) fun x => .bind (cellOf_faults _ x) fun _ => .bind (fun _ => .ok _)
      fun _ => .pure _
  · exact .bind (hev _) fun _ => .bind (hev _) fun y => .bind (cellOf_faults _ y) fun _ =>
      .bind (fun _ => .ok _) fun _ => .pure _
  · simp

theorem chooseCase_faults (v : Value) (default : Nat) (cases : List (Operand × Nat)) :
    Exec.Faults (chooseCase ev v default cases) := by
  induction cases with
  | nil => exact .pure default
  | cons c cases ih =>
      refine .bind (hev c.1) fun x => ?_
      split
      · exact .pure _
      · exact ih

theorem call_faults (p : Program) (f : Function) (callee : Operand) (args : List Operand) :
    Exec.Faults (call p ev f callee args) := by
  unfold call
  split
  · split
    · exact .bind (.mapM hev args) fun _ => .pure _
    · simp
  · simp

end

/-- An instruction fails only in the ways of an instruction. -/
theorem perform_faults (p : Program) (f : Function) (env : Env) (i : Instr) :
    Exec.Faults (perform p f env i) := by
  have hev := eval_faults p f env
  unfold perform control
  split
  · exact .pure _
  · exact .bind (hev _) fun _ => .pure _
  · exact .pure _
  · exact .bind (hev _) fun _ => .pure _
  · exact .bind (hev _) fun x => .bind (chooseCase_faults hev x _ _) fun _ => .pure _
  · simp
  · exact call_faults hev p f _ _
  · exact call_faults hev p f _ _
  · exact .bind (compute_faults hev f _ _) fun _ => .pure _

theorem phiValue_endings (p : Program) (f : Function) (env : Env) (source : Option Nat)
    (i : Instr) : Exec.FailsBy Failure.endsRun (Machine.phiValue rules p f env source i) := by
  unfold Machine.phiValue
  split
  · exact .bind ((eval_faults p f env _).mono fun _ => Failure.endsRun_of_endsInstr) fun _ => .pure _
  · simp

end Interpreted

end Ssa

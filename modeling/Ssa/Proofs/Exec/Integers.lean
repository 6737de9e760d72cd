/-
# `Ssa.Proofs.Exec.Integers` — integer operations are those of bit vectors

The interpreter keeps the integers of a width as numbers from zero to below the number of words, and
brings what an operation gives back into that range.  On such numbers each of its operations is the
operation of that name on bit vectors, signed division and shifts included, whatever the width.
There are two exceptions, which bit vectors do not have: a division by zero fails, and a shift by
the width or more gives zero, also where the sign would have filled the word.

**Proved here.**

    the operations on integers, by bit vectors                             (`IntOp.compute_words`)
    a step at an operation on integers binds what bit vectors give         (`Interpreted.step_on_words`)
    the least number divided by minus one                                  (`Interpreted.step_on_least`)
-/
import Ssa.Proofs.Exec.Computed
import Ssa.Proofs.Exec.Steps
import Ssa.Proofs.Number.Words

namespace Ssa

/-! ## Operations on words -/

namespace IntOp

variable {w : Nat} {a b : BitVec w}

/-- The operation on bit vectors that an operation on integers is named for. -/
def onWords (op : IntOp) (a b : BitVec w) : BitVec w :=
  match op with
  | .add => a + b
  | .sub => a - b
  | .mul => a * b
  | .udiv => a / b
  | .sdiv => a.sdiv b
  | .urem => a % b
  | .srem => a.srem b
  | .and => a &&& b
  | .or => a ||| b
  | .xor => a ^^^ b
  | .shl => a <<< b.toNat
  | .lshr => a >>> b.toNat
  | .ashr => a.sshiftRight b.toNat

/-- What the interpreter makes of an operation on two words: a division by zero fails, a shift by the
width or more gives zero, and all else is the operation on bit vectors. -/
def wordResult (function : String) (op : IntOp) (a b : BitVec w) : Except Failure (BitVec w) :=
  if op.divides ∧ b = 0#w then .error (.divisionByZero function)
  else if op.shifts ∧ w ≤ b.toNat then .ok 0#w
  else .ok (op.onWords a b)

/-- What the signed operations on bit vectors give, by signed readings.  Quotients are cut off toward
zero and remainders have the sign of what is divided, but for the one quotient that is out of range;
a shift divides by a power of two, downward, and fills with the sign. -/
structure SignedReadings (a b : BitVec w) : Prop where
  quotient : ¬(a = BitVec.intMin w ∧ b = -1#w) →
    (onWords .sdiv a b).toInt = a.toInt.tdiv b.toInt
  remainder : (onWords .srem a b).toInt = a.toInt.tmod b.toInt
  least : a = BitVec.intMin w → b = -1#w →
    onWords .sdiv a b = BitVec.intMin w ∧ onWords .srem a b = 0#w
  shifted : (onWords .ashr a b).toInt = a.toInt / 2 ^ b.toNat
  filled : ∀ i < w, (onWords .ashr a b).getLsbD i =
    if b.toNat + i < w then a.getLsbD (b.toNat + i) else a.msb

theorem signedReadings (a b : BitVec w) : SignedReadings a b := by
  constructor
  · intro h
    refine BitVec.toInt_sdiv_of_ne_or_ne a b ?_
    by_contra hboth
    push Not at hboth
    exact h hboth
  · exact BitVec.toInt_srem a b
  · rintro rfl rfl
    refine ⟨BitVec.intMin_sdiv_neg_one, BitVec.eq_of_toInt_eq ?_⟩
    change (BitVec.srem _ _).toInt = _
    rw [BitVec.toInt_srem, BitVec.neg_one_eq_allOnes, BitVec.toInt_allOnes]
    by_cases hw : 0 < w
    · simp [hw]
    · obtain rfl : w = 0 := by omega
      rfl
  · exact (BitVec.toInt_sshiftRight ..).trans (Int.shiftRight_eq_div_pow ..)
  · intro i hi
    show (BitVec.sshiftRight _ _).getLsbD i = _
    rw [BitVec.getLsbD_sshiftRight]
    simp [Nat.not_le.mpr hi]

/-! ## Operations on integers -/

theorem toNat_eq_zero_iff (b : BitVec w) : ((b.toNat : Int) == 0) = true ↔ b = 0#w := by
  rw [beq_iff_eq, Int.natCast_eq_zero, BitVec.toNat_eq, BitVec.toNat_ofNat, Nat.zero_mod]

/-- A shift by less than the width. -/
theorem shift_of_lt {n : Nat} (h : n < w) (result : Nat → Except Failure Int) :
    shift w n result = result n := by
  simp [shift, Word.shiftAmount, h, Int.not_lt.mpr (Int.natCast_nonneg n)]

theorem shift_of_le {n : Nat} (h : w ≤ n) (result : Nat → Except Failure Int) :
    shift w n result = .ok 0 := by
  simp [shift, Word.shiftAmount, Nat.not_lt.mpr h]

/-- What is no exception, before it is wrapped. -/
theorem exact_of_words (hw : 0 < w) (function : String) {op : IntOp} {a b : BitVec w}
    (hd : ¬(op.divides ∧ b = 0#w)) (hs : ¬(op.shifts ∧ w ≤ b.toNat)) :
    ∃ n : Int, op.exact function w a.toNat b.toNat = .ok n ∧
      BitVec.ofInt w n = op.onWords a b := by
  have hreading (x : BitVec w) : signedReading w (x.toNat : Int) = .ok x.toInt := by
    rw [signedReading_of_ne (by omega), Word.toSigned_toNat hw]
  have hdivide (hop : op.divides = true) (divide : Int → Int → Int) :
      divideSigned w divide a.toNat b.toNat = .ok (divide a.toInt b.toInt) := by
    have hne : b.toInt ≠ 0 := fun h => hd ⟨hop, BitVec.toInt_inj.mp (by simpa using h)⟩
    rw [divideSigned_of_ne (by omega), Word.toSigned_toNat hw, Word.toSigned_toNat hw, if_neg hne]
  have hlt (h : op.shifts = true) : b.toNat < w := Nat.not_le.mp fun hle => hs ⟨h, hle⟩
  have hzero : (op.divides && ((b.toNat : Int) == 0)) = false := by
    rw [Bool.and_eq_false_iff]
    by_cases hdiv : op.divides = true
    · refine .inr (Bool.eq_false_iff.mpr fun h => hd ⟨hdiv, ?_⟩)
      exact (toNat_eq_zero_iff b).mp h
    · exact .inl (Bool.eq_false_iff.mpr hdiv)
  unfold exact
  rw [hzero]
  simp only [Bool.false_eq_true, ↓reduceIte, hreading]
  cases op with
  | add => exact ⟨_, rfl, by simp [onWords, BitVec.ofInt_add]⟩
  | sub => exact ⟨_, rfl, by simp [onWords, Word.ofInt_sub]⟩
  | mul => exact ⟨_, rfl, by simp [onWords, BitVec.ofInt_mul]⟩
  | udiv => exact ⟨_, rfl, Word.ofInt_fdiv a b⟩
  | urem => exact ⟨_, rfl, Word.ofInt_fmod a b⟩
  | sdiv => exact ⟨_, hdivide rfl Int.tdiv, Word.ofInt_tdiv a b⟩
  | srem => exact ⟨_, hdivide rfl Int.tmod, Word.ofInt_tmod a b⟩
  | and => exact ⟨_, rfl, by rw [Word.and_toNat, Word.ofInt_toNat]; rfl⟩
  | or => exact ⟨_, rfl, by rw [Word.or_toNat, Word.ofInt_toNat]; rfl⟩
  | xor => exact ⟨_, rfl, by rw [Word.xor_toNat, Word.ofInt_toNat]; rfl⟩
  | shl => exact ⟨_, shift_of_lt (hlt rfl) _, Word.ofInt_mul_count a b.toNat⟩
  | lshr => exact ⟨_, shift_of_lt (hlt rfl) _, Word.ofInt_shiftRight a b.toNat⟩
  | ashr => exact ⟨_, shift_of_lt (hlt rfl) _, Word.ofInt_toInt_shiftRight a b.toNat⟩

/-- A shift by the width or more. -/
theorem exact_of_overshot (function : String) {op : IntOp} (a : Int) {n : Nat}
    (hs : op.shifts = true) (h : w ≤ n) : op.exact function w a n = .ok 0 := by
  cases op with
  | shl | lshr | ashr =>
      simp only [exact, divides, Bool.false_and, Bool.false_eq_true, ↓reduceIte]
      exact shift_of_le h _
  | _ => cases hs

/-- An operation on the unsigned readings of two words. -/
theorem compute_words (hw : 0 < w) (function : String) (op : IntOp) (a b : BitVec w) :
    op.compute function w a.toNat b.toNat =
      (op.wordResult function a b).map fun z => (z.toNat : Int) := by
  unfold compute wordResult
  by_cases hd : op.divides ∧ b = 0#w
  · have hzero : (op.divides && ((b.toNat : Int) == 0)) = true :=
      Bool.and_eq_true_iff.mpr ⟨hd.1, (toNat_eq_zero_iff b).mpr hd.2⟩
    unfold exact
    rw [if_pos hzero, if_pos hd]
    rfl
  · rw [if_neg hd]
    by_cases hs : op.shifts ∧ w ≤ b.toNat
    · rw [if_pos hs, exact_of_overshot function _ hs.1 hs.2]
      simp [Except.map, Word.wrap]
    · obtain ⟨n, hn, hword⟩ := exact_of_words hw function (a := a) hd hs
      rw [if_neg hs, hn, ← hword]
      exact congrArg Except.ok (Word.wrap_eq_toNat w n)

end IntOp

/-! ## Steps -/

namespace Interpreted

open Machine

variable {p : Program} {f : Function} {env : Env} {i : Instr} {op : IntOp} {x y : Operand}
  {u v : Value} {m m₁ m₂ : Memory} {w : Nat} {a b : BitVec w}

theorem integerOp_words (hw : 0 < w) (f : Function) (op : IntOp)
    (hu : u.int? = some (a.toNat : Int)) (hv : v.int? = some (b.toNat : Int)) :
    integerOp f op (.int w) u v =
      (op.wordResult f.name a b).map fun z => .int (z.toNat : Int) := by
  simp only [integerOp, IntOp.apply, hu, hv, IntOp.compute_words hw]
  cases op.wordResult f.name a b <;> rfl

/-- What an instruction asks for that is an operation on integers. -/
theorem perform_int (hw : 0 < w) (hop : i.op = .int op x y) (ht : i.type = .int w)
    (hx : (eval p f env x).on m = (.ok u, m₁)) (hy : (eval p f env y).on m₁ = (.ok v, m₂))
    (hu : u.int? = some (a.toNat : Int)) (hv : v.int? = some (b.toNat : Int)) :
    (perform p f env i).on m =
      ((op.wordResult f.name a b).map fun z => .value (.int (z.toNat : Int)), m₂) := by
  have hperform := perform_of_two (i := i) (by rw [hop]; rfl) (by rw [hop]; rfl) hx hy
  rw [hop, ht] at hperform
  rw [hperform, result, integerOp_words hw f op hu hv]
  cases op.wordResult f.name a b <;> rfl

/-- **Operations on integers are those of bit vectors.**  Where a frame is at an operation on
integers of a width, and its operands come to the unsigned readings of two words `a` and `b`, then
the step binds the instruction to the unsigned reading of what bit vectors give.  It fails if the
operation divides and `b` is zero, and only then; a shift by the width or more gives zero.  The
signed operations are said once more by signed readings. -/
theorem step_on_words {fr : Frame} {waiting : List Frame} (hw : 0 < w)
    (hi : fr.current? = some i) (hop : i.op = .int op x y) (ht : i.type = .int w)
    (hx : (eval p fr.function fr.env x).on m = (.ok u, m₁))
    (hy : (eval p fr.function fr.env y).on m₁ = (.ok v, m₂))
    (hu : u.int? = some (a.toNat : Int)) (hv : v.int? = some (b.toNat : Int)) :
    (step rules p fr waiting).on m =
        ((op.wordResult fr.function.name a b).map fun z =>
          .running (fr.advance i.id (.int (z.toNat : Int))) waiting, m₂) ∧
      (Failure.divisionByZero fr.function.name).listing?.map Prod.fst = some "IH0508" ∧
      IntOp.SignedReadings a b := by
  refine ⟨?_, rfl, IntOp.signedReadings a b⟩
  have hperform := perform_int hw hop ht hx hy hu hv
  cases hr : op.wordResult fr.function.name a b with
  | error e =>
      rw [hr] at hperform
      exact on_of_stepped (.failed hi hperform)
  | ok z =>
      rw [hr] at hperform
      exact on_of_stepped (.bound hi hperform)

/-- A frame of a function that divides an integer of eight digits by another, with sign. -/
def dividing : Frame where
  function := { Function.declare "f" (.int 8) [.int 8, .int 8] false with
    blocks := #[⟨"e", [⟨2, .int 8, .int .sdiv (.local 0 (.int 8)) (.local 1 (.int 8))⟩]⟩] }
  env := [(0, .int 128), (1, .int 255)]
  block := 0
  pc := 0
  pending := none

/-- The least number divided by minus one is the least number. -/
theorem step_on_least : (step rules ⟨0, [], .empty "m"⟩ dividing []).on .empty =
    (.ok (.running (dividing.advance 2 (.int 128)) []), .empty) := by
  have hi : dividing.current? =
      some ⟨2, .int 8, .int .sdiv (.local 0 (.int 8)) (.local 1 (.int 8))⟩ := rfl
  have hresult : IntOp.wordResult dividing.function.name .sdiv 128#8 255#8 = .ok 128#8 := rfl
  rw [(step_on_words (a := 128#8) (b := 255#8) (by decide) hi rfl rfl rfl rfl rfl rfl).1, hresult]
  rfl

end Interpreted

end Ssa

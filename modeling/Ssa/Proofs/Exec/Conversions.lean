/-
# `Ssa.Proofs.Exec.Conversions` — from integers to floating point

The interpreter brings an integer to double precision first, and what is asked for in single
precision from there.  So a conversion to double precision comes to the nearest value, and one to
single precision does for all integers but those of which double precision makes a tie that goes the
wrong way.

**Proved here.**

    what an integer in range is brought to first                           (`Constant.doubleOfInt_eq`)
    a conversion, by its reading of the word                               (`CastOp.apply_toReal`)
    a conversion that comes to something, as a step                        (`Interpreted.step_cast`)
    a step at a conversion binds the nearest value, or a false tie         (`Interpreted.step_to_real`)
    an integer for which it does not                                       (`Interpreted.not_nearest`)
-/
import Ssa.Proofs.Exec.Computed
import Ssa.Proofs.Exec.Steps
import Ssa.Proofs.Number.Narrowing
import Ssa.Proofs.Number.Words

namespace Ssa

/-- An integer below the overflow of double precision has a nearest double. -/
theorem Constant.doubleOfInt_eq {n : Int} (h : |(n : Rat)| < Format.double.overflow) :
    Constant.doubleOfInt n = .ok (Format.double.round false n) := by
  obtain ⟨m, e, -, hround, -⟩ := (Format.isNearest_iff Format.double_proper h _).mpr rfl
  unfold Constant.doubleOfInt
  split
  · rename_i s hs
    rw [hs] at hround
    have h := congrArg Fp.isInfinite hround
    rw [Fp.isInfinite_ofRat] at h
    cases h
  · rfl

namespace CastOp

variable {w : Nat}

/-- The integer that a conversion to floating point takes a word for. -/
def reading (op : CastOp) (a : BitVec w) : Int :=
  match op with
  | .sitofp => a.toInt
  | _ => a.toNat

/-- The conversions from integers to floating point. -/
def makesReal : CastOp → Bool
  | .uitofp | .sitofp => true
  | _ => false

/-- What a conversion to floating point makes of a word. -/
theorem apply_toReal (hw : 0 < w) (f : String) {op : CastOp} (hop : op.makesReal = true) (t : Ty)
    {a : BitVec w} (h : |(op.reading a : Rat)| < Format.double.overflow) :
    op.apply f (.int w) t (.int a.toNat) =
      (Value.real (Format.double.round false (op.reading a))).normalize t := by
  cases op with
  | uitofp =>
      show (Constant.doubleOfInt _ >>= fun x => (Value.real x).normalize t) = _
      rw [show ((a.toNat : Nat) : Int) = reading .uitofp a from rfl, Constant.doubleOfInt_eq h]
      rfl
  | sitofp =>
      have hsigned : signedAt (.int w) (.int a.toNat) = .ok (reading .sitofp a) := by
        show IntOp.signedReading w a.toNat = _
        rw [IntOp.signedReading_of_ne (by omega), Word.toSigned_toNat hw]
        rfl
      show (signedAt (.int w) (.int a.toNat) >>= fun n => Constant.doubleOfInt n >>= fun x =>
        (Value.real x).normalize t) = _
      rw [hsigned]
      show (Constant.doubleOfInt _ >>= fun x => (Value.real x).normalize t) = _
      rw [Constant.doubleOfInt_eq h]
      rfl
  | _ => cases hop

end CastOp

namespace Interpreted

open Machine

variable {p : Program} {f : Function} {env : Env} {i : Instr} {op : CastOp} {o : Operand}
  {u v : Value} {m m₁ : Memory} {w : Nat} {a : BitVec w}

/-- What an instruction asks for that converts a value. -/
theorem perform_cast (hop : i.op = .cast op o) (hx : (eval p f env o).on m = (.ok u, m₁)) :
    (perform p f env i).on m = ((op.apply f.name o.type i.type u).map .value, m₁) := by
  have hperform := perform_of_one (i := i) (by rw [hop]; rfl) (by rw [hop]; rfl) hx
  rwa [hop] at hperform

/-- Where a conversion comes to something, the step binds it. -/
theorem step_cast {fr : Frame} (hi : fr.current? = some i) (hop : i.op = .cast op o)
    (hx : (eval p fr.function fr.env o).on m = (.ok u, m₁))
    (hv : op.apply fr.function.name o.type i.type u = .ok v) (waiting : List Frame) :
    (step rules p fr waiting).on m = (.ok (.running (fr.advance i.id v) waiting), m₁) := by
  have hperform := perform_cast hop hx
  rw [hv] at hperform
  exact on_of_stepped (.bound hi hperform)

/-- **Conversions from integers to floating point.**  Where a frame is at a conversion of a word to
single or double precision, unsigned or signed, and the integer that the word is read as is not
beyond the precision, the step binds the instruction to a datum.  It is the value nearest to the
integer, ties to the even significand, save in single precision if double precision makes a tie of
the integer that goes the wrong way; then it is not. -/
theorem step_to_real {fr : Frame} {q : Precision} (hw : 0 < w)
    (hi : fr.current? = some i) (hop : i.op = .cast op o) (hcast : op.makesReal = true)
    (hsource : o.type = .int w) (htarget : i.type = .fp q) (hq : q ≠ .half)
    (hx : (eval p fr.function fr.env o).on m = (.ok (.int a.toNat), m₁))
    (hrange : |(op.reading a : Rat)| < q.format.overflow) :
    ∃ x, (∀ waiting, (step rules p fr waiting).on m =
        (.ok (.running (fr.advance i.id (.real x)) waiting), m₁)) ∧
      (q.format.IsNearest (op.reading a) x ↔
        ¬(q = .single ∧ IsFalseTie (op.reading a).natAbs)) := by
  have hdouble : |(op.reading a : Rat)| < Format.double.overflow := by
    cases q with
    | half => exact absurd rfl hq
    | single => exact hrange.trans_le Format.single_overflow_le
    | double => exact hrange
  have happly := CastOp.apply_toReal hw fr.function.name hcast (.fp q) hdouble
  rw [← hsource, ← htarget] at happly
  cases q with
  | half => exact absurd rfl hq
  | single =>
      rw [htarget] at happly
      exact ⟨_, fun _ =>
          on_of_stepped (.bound hi ((perform_cast hop hx).trans (by rw [htarget, happly]; rfl))),
        (Format.isNearest_narrowed_iff hrange).trans (by simp)⟩
  | double =>
      rw [htarget] at happly
      exact ⟨_, fun _ =>
          on_of_stepped (.bound hi ((perform_cast hop hx).trans (by rw [htarget, happly]; rfl))),
        (Format.isNearest_iff Format.double_proper hrange _).trans (by simp)⟩

/-- A frame of a function that converts an integer of 64 digits to single precision, at that
integer. -/
def converting (n : Nat) : Frame where
  function := { Function.declare "f" (.fp .single) [.int 64] false with
    blocks := #[⟨"e", [⟨1, .fp .single, .cast .uitofp (.local 0 (.int 64))⟩]⟩] }
  env := [(0, .int n)]
  block := 0
  pc := 0
  pending := none

theorem lt_overflow {n : Nat} (h : n < 2 ^ 64) : |((n : Int) : Rat)| < Format.single.overflow := by
  have hlt : (n : Rat) < (2 : Rat) ^ (64 : Int) := by exact_mod_cast h
  have hle : (2 : Rat) ^ (64 : Int) ≤ 2 ^ Format.single.maxExp := two_zpow_le (by decide)
  have hpos := two_zpow_pos Format.single.maxExp
  have hunit : (1 : Rat) ≤ 2 ^ Format.single.precision - 1 / 2 := by norm_num [Format.single]
  rw [Int.cast_natCast, Nat.abs_cast, Format.overflow]
  nlinarith

/-- An integer half way between two singles goes to the even one. -/
theorem step_at_half_way : ∃ x,
    (step rules ⟨0, [], .empty "m"⟩ (converting 16777219) []).on .empty =
      (.ok (.running ((converting 16777219).advance 1 (.real x)) []), .empty) ∧
    Format.single.IsNearest ((16777219 : Nat) : Int) x := by
  have hi : (converting 16777219).current? =
      some ⟨1, .fp .single, .cast .uitofp (.local 0 (.int 64))⟩ := rfl
  obtain ⟨x, hstep, hnear⟩ := step_to_real (p := ⟨0, [], .empty "m"⟩) (m := .empty)
    (a := 16777219#64) (by decide) hi rfl rfl rfl rfl (by decide) rfl (lt_overflow (by decide))
  exact ⟨x, hstep _, hnear.mpr (by decide)⟩

theorem step_converting {n : Nat} (h : n < 2 ^ 64) :
    (step rules ⟨0, [], .empty "m"⟩ (converting n) []).on .empty =
      (.ok (.running ((converting n).advance 1
        (.real (Format.single.convert (Format.double.round false (n : Int))))) []), .empty) := by
  have hword : (BitVec.ofNat 64 n).toNat = n := by simpa using h
  have hreading : CastOp.reading .uitofp (BitVec.ofNat 64 n) = n := congrArg Int.ofNat hword
  have happly := CastOp.apply_toReal (w := 64) (by decide) "f" (rfl : CastOp.uitofp.makesReal = true)
    (.fp .single) (a := BitVec.ofNat 64 n)
    (by rw [hreading]; exact (lt_overflow h).trans_le Format.single_overflow_le)
  rw [hword, hreading] at happly
  have hi : (converting n).current? =
      some ⟨1, .fp .single, .cast .uitofp (.local 0 (.int 64))⟩ := rfl
  exact step_cast hi rfl rfl happly []

/-- An integer just above the middle of two singles goes to the lower one. -/
theorem not_nearest : ∃ x,
    (step rules ⟨0, [], .empty "m"⟩ (converting 1152921573326323713) []).on .empty =
      (.ok (.running ((converting 1152921573326323713).advance 1 (.real x)) []), .empty) ∧
    x.toRat = 2 ^ 60 ∧ ¬Format.single.IsNearest ((1152921573326323713 : Nat) : Int) x := by
  have hlt : 1152921573326323713 < 2 ^ 64 := by decide
  refine ⟨_, step_converting hlt, ?_, fun hnear => ?_⟩
  · decide +kernel
  · exact (Format.isNearest_narrowed_iff (lt_overflow hlt)).mp hnear (by decide)

end Interpreted

end Ssa

/-
# `Ssa.Proofs.Exec.Truncated` — from floating point to integers

A conversion to an integer takes the integer part of a datum, toward zero, and wraps it to the width.  An
integer that a precision represents is not rounded on the way there, so its integer part is the integer
itself, and wrapped it is the word that it was read from.

**Proved here.**

    an integer of no more digits than the precision has is represented     (`Format.represents_intCast`)
    a conversion of an integer that is represented gives that integer      (`CastOp.apply_exact`)
    a conversion to an integer wraps the integer part                      (`CastOp.apply_toInteger`)
    what a step at a conversion to an integer binds, and there and back    (`integers_come_back`)
-/
import Ssa.Proofs.Exec.Conversions
import Ssa.Proofs.Exec.Reinterpreted

namespace Ssa

/-! ## Integers that are represented -/

namespace Format

variable {fmt : Format} {q : Rat}

/-- A rational is a value of a format. -/
def Represents (fmt : Format) (q : Rat) : Prop :=
  ∃ m e : Int, fmt.IsValue m e ∧ q = m * 2 ^ e

/-- What a precision represents is brought to double precision as it is. -/
theorem Represents.double {p : Precision} (h : p.format.Represents q) : double.Represents q := by
  obtain ⟨m, e, hm, rfl⟩ := h
  refine ⟨m, e, ?_, rfl⟩
  cases p <;> exact hm.widen (by decide) (by decide) (by decide)

theorem Represents.lt_overflow (h : fmt.Represents q) : |q| < fmt.overflow := by
  obtain ⟨m, e, hm, rfl⟩ := h
  exact lt_overflow_of_value hm

theorem Represents.round_eq (hfmt : fmt.Proper) (h : fmt.Represents q) :
    fmt.round false q = Fp.ofRat (decide (q < 0)) q := by
  obtain ⟨m, e, hm, rfl⟩ := h
  exact round_value hfmt hm

theorem Represents.holds (h : fmt.Represents q) (s : Bool) : fmt.Holds (Fp.ofRat s q) := by
  obtain ⟨m, e, hm, hq⟩ := h
  exact Fp.ofRat_holds s hm hq

/-- An integer of no more digits than a significand has, and the first that has one more. -/
theorem represents_intCast {n : Int} (hp : 1 ≤ fmt.precision) (hlow : fmt.minExp ≤ 0)
    (hup : 1 ≤ fmt.maxExp) (h : n.natAbs ≤ 2 ^ fmt.precision) : fmt.Represents n := by
  rcases h.lt_or_eq with hlt | heq
  · exact ⟨n, 0, ⟨hlt, hlow, by omega⟩, by simp⟩
  · obtain ⟨k, hk⟩ : ∃ k, fmt.precision = k + 1 := ⟨fmt.precision - 1, by omega⟩
    rw [hk, Nat.pow_succ] at heq
    have hhalf : n = n / 2 * 2 := by omega
    refine ⟨n / 2, 1, ⟨?_, by omega, hup⟩, ?_⟩
    · rw [hk]
      show (n / 2).natAbs < 2 ^ (k + 1)
      rw [Nat.pow_succ]
      have := Nat.two_pow_pos k
      omega
    · rw [zpow_one]
      exact_mod_cast hhalf

end Format

/-! ## Conversions -/

namespace CastOp

variable {w : Nat} {q : Precision} {op : CastOp}

/-- The conversions from floating point to integers. -/
def makesInteger : CastOp → Bool
  | .fptoui | .fptosi => true
  | _ => false

/-- A conversion of an integer that the precision represents gives that integer. -/
theorem apply_exact (hw : 0 < w) (f : String) (hop : op.makesReal = true) {a : BitVec w}
    (h : q.format.Represents (op.reading a)) :
    op.apply f (.int w) (.fp q) (.word a) =
      .ok (.real (Fp.ofRat (decide ((op.reading a : Rat) < 0)) (op.reading a))) := by
  have happly := apply_toReal hw f hop (.fp q) h.double.lt_overflow
  rw [h.double.round_eq Format.double_proper] at happly
  refine happly.trans ?_
  cases q with
  | single =>
      exact congrArg (Except.ok ∘ Value.real)
        (Format.convert_of_holds Format.single_proper (Fp.isNan_ofRat _ _) (h.holds _))
  | half | double => rfl

/-- A conversion to an integer wraps the integer part of a datum, and gives zero for what has none. -/
theorem apply_toInteger (w : Nat) (f : String) (hop : op.makesInteger = true) (t : Ty) (x : Fp) :
    op.apply f t (.int w) (.real x) =
      .ok (.int (if x.isFinite then truncate x.toRat % 2 ^ w else 0)) := by
  have hpart : integerPart (.int w) (.real x) =
      .ok (.int (if x.isFinite then truncate x.toRat % 2 ^ w else 0)) := by
    show (if x.isFinite then Except.ok (Value.int (Word.wrap w (truncate x.toRat))) else
      Except.ok (.int 0)) = _
    have hcount : (Word.count w : Int) = 2 ^ w := by simp [Word.count]
    rw [Word.wrap, hcount]
    split <;> rfl
  cases op <;> first | exact hpart | cases hop

/-- Wrapped to the width, either reading of a word is the word. -/
theorem reading_emod (a : BitVec w) : op.reading a % 2 ^ w = a.toNat := by
  have hcount : ((2 ^ w : Nat) : Int) = 2 ^ w := by push_cast; rfl
  have hunsigned : (a.toNat : Int) % 2 ^ w = a.toNat :=
    Int.emod_eq_of_lt (by omega) (hcount ▸ Int.ofNat_lt.mpr a.isLt)
  cases op with
  | sitofp =>
      show a.toInt % 2 ^ w = _
      rw [BitVec.toInt_eq_toNat_bmod, ← hcount, Int.bmod_emod, hcount, hunsigned]
  | _ => exact hunsigned

end CastOp

namespace Interpreted

open Machine

variable {p : Program} {fr : Frame} {x : Operand} {op : CastOp} {i : Instr} {u : Value} {m m₁ : Memory}

/-- **Integers survive floating point.**  Let a frame be at a conversion.  Where an integer that is read
off a word, unsigned or signed, is represented in the precision that it is converted to, the step binds a
datum of just this rational; and if the next instruction converts that to an integer of the width, two
steps bind the word again.  All integers are represented that have no more digits than the precision.
Where floating point is converted to an integer, unsigned or signed, the step binds the integer part of
the datum, toward zero, modulo the width, and zero for infinities and for what is no number. -/
theorem integers_come_back (h : fr.Converts op x i)
    (hx : (eval p fr.function fr.env x).on m = (.ok u, m₁)) :
    (∀ (w : Nat) (a : BitVec w) (q : Precision), op.makesReal = true → 0 < w →
      u = .word a → x.type = .int w → i.type = .fp q → q.format.Represents (op.reading a) →
      ∃ y : Fp, y.isFinite = true ∧ y.toRat = op.reading a ∧
        (∀ waiting, (step rules p fr waiting).on m =
          (.ok (.running (fr.advance i.id (.real y)) waiting), m₁)) ∧
        ∀ op' j, op'.makesInteger = true → fr.ThenConverts op' i j → j.type = .int w →
          ∀ n waiting, (run rules p (n + 2) (.running fr waiting)).on m =
            (run rules p n
              (.running ((fr.advance i.id (.real y)).advance j.id (.word a)) waiting)).on m₁) ∧
    (∀ (q : Precision) (n : Int), n.natAbs ≤ 2 ^ q.format.precision → q.format.Represents n) ∧
    (∀ (w : Nat) (y : Fp), op.makesInteger = true → u = .real y → i.type = .int w →
      ∀ waiting, (step rules p fr waiting).on m =
        (.ok (.running (fr.advance i.id (.int
          (if y.isFinite then (if 0 ≤ y.toRat then ⌊y.toRat⌋ else ⌈y.toRat⌉) % 2 ^ w
            else 0))) waiting), m₁)) := by
  refine ⟨?_, fun q n => ?_, ?_⟩
  · rintro w a q hop hw rfl hsource htarget hrep
    have hreal : op.apply fr.function.name x.type i.type (.word a) =
        .ok (.real (Fp.ofRat (decide ((op.reading a : Rat) < 0)) (op.reading a))) := by
      rw [hsource, htarget]
      exact CastOp.apply_exact hw _ hop hrep
    refine ⟨_, ?_, Fp.toRat_ofRat _ _, step_cast h.current h.conversion hx hreal, ?_⟩
    · exact Fp.isFinite_ofRat _ _
    · intro op' j hop' h' hback
      refine run_cast_twice h h' hx hreal ?_
      rw [hback, CastOp.apply_toInteger w _ hop', Fp.isFinite_ofRat, if_pos rfl, Fp.toRat_ofRat,
        truncate_intCast, CastOp.reading_emod]
      rfl
  · exact Format.represents_intCast (by cases q <;> decide) (by cases q <;> decide)
      (by cases q <;> decide)
  · rintro w y hop rfl htarget
    refine step_cast h.current h.conversion hx ?_
    rw [htarget, CastOp.apply_toInteger w _ hop, truncate_eq]

/-- Minus two to the 53 comes back from double precision as it was, and of minus two and a half there is
left minus two. -/
theorem integers_come_back_long :
    (run rules ⟨0, [], .empty "m"⟩ 3 (.running
        (thereAndBack .sitofp .fptosi (.int 64) (.fp .double) (.word (-0x20000000000000#64))) [])).on
        .empty = (.ok (.word (-0x20000000000000#64)), .empty) ∧
    (step rules ⟨0, [], .empty "m"⟩
        (thereAndBack .fptosi .sitofp (.fp .double) (.int 8) (.real (.ofRat false (-5 / 2)))) []).on
        .empty = (.ok (.running ((thereAndBack .fptosi .sitofp (.fp .double) (.int 8)
          (.real (.ofRat false (-5 / 2)))).advance 1 (.int 254)) []), .empty) := by
  constructor
  · have hat := converts_thereAndBack .sitofp .fptosi (.int 64) (.fp .double)
      (.word (-0x20000000000000#64))
    obtain ⟨hthere, hexact, -⟩ := integers_come_back (p := ⟨0, [], .empty "m"⟩) (m := .empty) hat rfl
    obtain ⟨y, -, -, -, hback⟩ := hthere 64 (-0x20000000000000#64) .double rfl (by decide) rfl rfl rfl
      (hexact .double _ (by decide +kernel))
    rw [hback .fptosi _ rfl ⟨rfl, rfl⟩ rfl 1]
    rfl
  · have hat := converts_thereAndBack .fptosi .sitofp (.fp .double) (.int 8) (.real (.ofRat false (-5 / 2)))
    obtain ⟨-, -, hpart⟩ := integers_come_back (p := ⟨0, [], .empty "m"⟩) (m := .empty) hat rfl
    have hvalue : (if (Fp.ofRat false (-5 / 2)).isFinite = true then
        (if 0 ≤ (Fp.ofRat false (-5 / 2)).toRat then ⌊(Fp.ofRat false (-5 / 2)).toRat⌋
          else ⌈(Fp.ofRat false (-5 / 2)).toRat⌉) % 2 ^ 8 else 0) = 254 := by decide +kernel
    have hstep := hpart 8 (.ofRat false (-5 / 2)) rfl rfl rfl []
    rwa [hvalue] at hstep

end Interpreted

end Ssa

/-
# `Ssa.Proofs.Exec.Reinterpreted` — words as floating point, and back

A reinterpretation reads a word as the datum that it stands for, or writes a datum as its word.  What is of
single precision is held as a double all the while, so there and back is a widening and a narrowing of
the format.  Nothing is lost on the way: each number that a precision can hold has one word, and each
word but those of what is no number stands for one number.

**Proved here.**

    two conversions in a row, as two steps of a run                        (`Interpreted.run_cast_twice`)
    a word reinterpreted as floating point                                 (`CastOp.reinterpret_word`)
    floating point reinterpreted as a word                                 (`CastOp.reinterpret_real`)
    there and back                                                         (`reinterpreted_there_and_back`)
-/
import Ssa.Proofs.Exec.Preserved
import Ssa.Proofs.Exec.Widths
import Ssa.Proofs.Number.Fields

namespace Ssa

/-! ## Two conversions in a row -/

/-- A frame is at a conversion of an operand. -/
structure Frame.Converts (fr : Frame) (op : CastOp) (x : Operand) (i : Instr) : Prop where
  current : fr.current? = some i
  conversion : i.op = .cast op x

/-- The instruction after that at which a frame is converts what that one gives. -/
structure Frame.ThenConverts (fr : Frame) (op : CastOp) (i j : Instr) : Prop where
  next : (fr.function.instrs fr.block)[fr.pc + 1]? = some j
  conversion : j.op = .cast op (.local i.id i.type)

namespace Interpreted

open Machine

variable {p : Program} {fr : Frame} {x : Operand} {op op' : CastOp} {i j : Instr} {u v w : Value}
  {m m₁ : Memory}

/-- Where both conversions come to something, two steps bind both. -/
theorem run_cast_twice (h : fr.Converts op x i) (h' : fr.ThenConverts op' i j)
    (hx : (eval p fr.function fr.env x).on m = (.ok u, m₁))
    (hv : op.apply fr.function.name x.type i.type u = .ok v)
    (hw : op'.apply fr.function.name i.type j.type v = .ok w) (n : Nat) (waiting : List Frame) :
    (run rules p (n + 2) (.running fr waiting)).on m =
      (run rules p n (.running ((fr.advance i.id v).advance j.id w) waiting)).on m₁ := by
  have hlookup : (fr.advance i.id v).env.lookup i.id = some v :=
    (Env.lookup_bind _ _ _ _).trans (if_pos rfl)
  have hbound : (eval p fr.function (fr.advance i.id v).env (.local i.id i.type)).on m₁ =
      (.ok v, m₁) := by
    rw [eval_local hlookup]
    rfl
  have hnext : (fr.advance i.id v).current? = some j := h'.next
  rw [on_run_succ, step_cast h.current h.conversion hx hv]
  dsimp only
  rw [on_run_succ, step_cast hnext h'.conversion hbound hw]

end Interpreted

/-! ## Reinterpretations -/

namespace CastOp

variable {q : Precision}

theorem digits_word (w : Nat) (a : BitVec w) : digits w (.word a) = .ok a.toNat := by
  have hlt : (a.toNat : Int) < Word.count w := by exact_mod_cast a.isLt
  unfold digits
  rw [Value.int?_word]
  dsimp only
  rw [if_pos (by simpa using hlt), Int.toNat_natCast]

/-- A word of the width of a precision is reinterpreted as the datum that it stands for. -/
theorem reinterpret_word (hq : q ≠ .half) (function : String) (a : BitVec q.width) :
    apply function .bitcast (.int q.width) (.fp q) (.word a) = .ok (.real (q.format.decode a.toNat)) := by
  have hresult : wordToFp q (.word a) = .ok (.real (q.format.decode a.toNat)) := by
    unfold wordToFp
    rw [digits_word]
    rfl
  cases q with
  | half => exact absurd rfl hq
  | single | double => exact hresult

/-- What a precision can hold is in its range. -/
theorem datum_of_holds {x : Fp} (hx : q.format.Holds x) : datum q (.real x) = .ok (q.format.convert x) := by
  show (if x.isFinite && (q.format.convert x).isInfinite then Except.error Failure.outOfRange
    else Except.ok (q.format.convert x)) = _
  rw [if_neg]
  cases hnan : x.isNan with
  | true => cases x <;> simp_all [Fp.isNan, Fp.isFinite]
  | false =>
      rw [Format.convert_of_holds q.proper hnan hx]
      cases x <;> simp [Fp.isFinite, Fp.isInfinite]

/-- The word as which a datum is written at a precision. -/
def wordOf (q : Precision) (x : Fp) : BitVec q.width :=
  BitVec.ofNat q.width (q.format.encode (q.format.convert x))

theorem toNat_wordOf (q : Precision) (x : Fp) :
    (wordOf q x).toNat = q.format.encode (q.format.convert x) :=
  (BitVec.toNat_ofNat _ _).trans (Nat.mod_eq_of_lt (q.encode_convert_lt x))

/-- What a precision can hold is reinterpreted as the word as which it is written. -/
theorem reinterpret_real (hq : q ≠ .half) (function : String) {x : Fp} (hx : q.format.Holds x) :
    apply function .bitcast (.fp q) (.int q.width) (.real x) = .ok (.word (wordOf q x)) := by
  have hresult : fpToWord q (.real x) = .ok (.word (wordOf q x)) := by
    unfold fpToWord
    rw [datum_of_holds hx, Value.word, toNat_wordOf]
    rfl
  cases q with
  | half => exact absurd rfl hq
  | single | double => exact hresult

/-- What is read off a word is as its type asks for. -/
theorem normalize_decode (q : Precision) (word : Nat) :
    (Value.real (q.format.decode word)).normalize (.fp q) = .ok (.real (q.format.decode word)) := by
  cases q with
  | single => exact congrArg (Except.ok ∘ Value.real) (Format.convert_decode_single word)
  | half | double => rfl

theorem wordOf_decode {a : BitVec q.width} (ha : ¬q.format.IsNanWord a.toNat) :
    wordOf q (q.format.decode a.toNat) = a := by
  have hlt : a.toNat < 2 * q.format.signUnit := q.two_mul_signUnit ▸ a.isLt
  have hnan : (q.format.decode a.toNat).isNan = false :=
    Bool.eq_false_iff.mpr (mt (Format.isNan_decode hlt).mp ha)
  apply BitVec.eq_of_toNat_eq
  rw [toNat_wordOf, Format.convert_of_holds q.proper hnan (Format.decode_holds q.proper _),
    Format.encode_decode q.proper hlt ha]

theorem decode_wordOf {x : Fp} (hx : q.format.Holds x) (hnan : x.isNan = false) :
    q.format.decode (wordOf q x).toNat = x := by
  rw [toNat_wordOf, Format.convert_of_holds q.proper hnan hx, Format.decode_encode q.proper hx hnan]

end CastOp

namespace Interpreted

open Machine

variable {p : Program} {fr : Frame} {x : Operand} {i j : Instr} {u : Value} {m m₁ : Memory}
  {q : Precision}

/-- **There and back.**  Let a frame be at a reinterpretation in single or double precision.  A word is
reinterpreted as the datum that it stands for, whatever the word is, and that is already as its type asks
for; if the next instruction reinterprets it as a word again, then this is the same word, unless that
stands for no number.  Whatever the precision can hold is reinterpreted as a word, and if the next
instruction reinterprets that as floating point again, then this is the same datum if it is a number. -/
theorem reinterpreted_there_and_back (hq : q ≠ .half) (h : fr.Converts .bitcast x i)
    (hx : (eval p fr.function fr.env x).on m = (.ok u, m₁)) :
    (∀ a : BitVec q.width, u = .word a → x.type = .int q.width → i.type = .fp q →
      let y := q.format.decode a.toNat
      (∀ waiting, (step rules p fr waiting).on m =
        (.ok (.running (fr.advance i.id (.real y)) waiting), m₁)) ∧
      (Value.real y).normalize (.fp q) = .ok (.real y) ∧
      ∀ j, fr.ThenConverts .bitcast i j → j.type = .int q.width → ∃ b : BitVec q.width,
        (∀ n waiting, (run rules p (n + 2) (.running fr waiting)).on m =
          (run rules p n
            (.running ((fr.advance i.id (.real y)).advance j.id (.word b)) waiting)).on m₁) ∧
        (¬q.format.IsNanWord a.toNat → b = a)) ∧
    (∀ y, u = .real y → q.format.Holds y → x.type = .fp q → i.type = .int q.width →
      ∃ a : BitVec q.width,
        (∀ waiting, (step rules p fr waiting).on m =
          (.ok (.running (fr.advance i.id (.word a)) waiting), m₁)) ∧
        ∀ j, fr.ThenConverts .bitcast i j → j.type = .fp q → ∃ z,
          (∀ n waiting, (run rules p (n + 2) (.running fr waiting)).on m =
            (run rules p n
              (.running ((fr.advance i.id (.word a)).advance j.id (.real z)) waiting)).on m₁) ∧
          (y.isNan = false → z = y)) := by
  constructor
  · rintro a rfl hsource hthere y
    have hword : CastOp.apply fr.function.name .bitcast x.type i.type (.word a) = .ok (.real y) := by
      rw [hsource, hthere]
      exact CastOp.reinterpret_word hq _ a
    refine ⟨step_cast h.current h.conversion hx hword, CastOp.normalize_decode q _, fun j h' hback => ?_⟩
    refine ⟨CastOp.wordOf q y, run_cast_twice h h' hx hword ?_, CastOp.wordOf_decode⟩
    rw [hthere, hback]
    exact CastOp.reinterpret_real hq _ (Format.decode_holds q.proper _)
  · rintro y rfl hy hsource hthere
    have hreal : CastOp.apply fr.function.name .bitcast x.type i.type (.real y) =
        .ok (.word (CastOp.wordOf q y)) := by
      rw [hsource, hthere]
      exact CastOp.reinterpret_real hq _ hy
    refine ⟨_, step_cast h.current h.conversion hx hreal, fun j h' hback => ?_⟩
    refine ⟨_, run_cast_twice h h' hx hreal ?_, CastOp.decode_wordOf hy⟩
    rw [hthere, hback]
    exact CastOp.reinterpret_word hq _ _

/-- A frame of a function that converts its argument to another type and back, and returns it. -/
def thereAndBack (op op' : CastOp) (t t' : Ty) (v : Value) : Frame where
  function := { Function.declare "f" t [t] false with
    blocks := #[⟨"e", [⟨1, t', .cast op (.local 0 t)⟩, ⟨2, t, .cast op' (.local 1 t')⟩,
      ⟨3, .void, .ret (some (.local 2 t))⟩]⟩] }
  env := [(0, v)]
  block := 0
  pc := 0
  pending := none

theorem converts_thereAndBack (op op' : CastOp) (t t' : Ty) (v : Value) :
    (thereAndBack op op' t t' v).Converts op (.local 0 t) ⟨1, t', .cast op (.local 0 t)⟩ := ⟨rfl, rfl⟩

/-- The greatest negative value of single precision, read off its word, has that word, and so has the
negative zero of double precision. -/
theorem returned_there_and_back :
    (run rules ⟨0, [], .empty "m"⟩ 3 (.running
        (thereAndBack .bitcast .bitcast (.int 32) (.fp .single) (.word 0x80000001#32)) [])).on .empty =
      (.ok (.word 0x80000001#32), .empty) ∧
    (run rules ⟨0, [], .empty "m"⟩ 3 (.running
        (thereAndBack .bitcast .bitcast (.fp .double) (.int 64) (.real (.zero true))) [])).on .empty =
      (.ok (.real (.zero true)), .empty) := by
  constructor
  · have hat := converts_thereAndBack .bitcast .bitcast (.int 32) (.fp .single) (.word 0x80000001#32)
    obtain ⟨hword, -⟩ := reinterpreted_there_and_back (p := ⟨0, [], .empty "m"⟩) (q := .single)
      (m := .empty) (by decide) hat rfl
    obtain ⟨-, -, hback⟩ := hword 0x80000001#32 rfl rfl rfl
    obtain ⟨b, hrun, hsame⟩ := hback _ ⟨rfl, rfl⟩ rfl
    rw [hrun 1, hsame (by decide)]
    rfl
  · have hat := converts_thereAndBack .bitcast .bitcast (.fp .double) (.int 64) (.real (.zero true))
    obtain ⟨-, hreal⟩ := reinterpreted_there_and_back (p := ⟨0, [], .empty "m"⟩) (q := .double)
      (m := .empty) (by decide) hat rfl
    obtain ⟨a, -, hback⟩ := hreal (.zero true) rfl trivial rfl rfl
    obtain ⟨z, hrun, hsame⟩ := hback _ ⟨rfl, rfl⟩ rfl
    rw [hrun 1, hsame rfl]
    rfl

end Interpreted

end Ssa

/-
# `Ssa.Proofs.Exec.Kept` — the precision in which a datum is kept

The interpreter keeps what is of single precision rounded to it, and all other floating point in
double precision: nothing is ever rounded to half precision.  Whatever an operation is given, its
result is brought to its type, so it is in the format of that type; the one exception is what was
given from outside, constants and arguments, of which doubles are kept as they are.

**Proved here.**

    what is brought to a type is in its format                              (`normalize_kept`)
    constants, first contents are                                          (`constant_kept`, `initialValue_kept`)
    what an operation gives is, if its operands are                         (`result_kept`)
-/
import Ssa.Proofs.Exec.Computed
import Ssa.Proofs.Number.Fields

namespace Ssa

/-- The format in which the data of a precision are kept. -/
def Precision.kept : Precision → Format
  | .single => .single
  | _ => .double

/-- A value, if it is a datum, is a double; only asked for if `wide`. -/
def Value.IsDouble (wide : Prop) (v : Value) : Prop :=
  ∀ x, v = .real x → wide → Format.double.Holds x

/-- A value that stands where a type of floating point is written, if it is a datum, is in the format
in which data of that type are kept.  Of the types of double precision that is asked for only if
`wide`. -/
def Value.IsKept (wide : Prop) (t : Ty) (v : Value) : Prop :=
  ∀ p x, t = .fp p → v = .real x → p = .single ∨ wide → p.kept.Holds x

/-- A constant, if it is a datum, is a double. -/
def Constant.IsDouble (c : Constant) : Prop :=
  match c with
  | .real _ x => Format.double.Holds x
  | _ => True

namespace Value

variable {wide : Prop} {t : Ty} {v v' : Value}

theorem IsKept.of_not_fp (h : t.isFp = false) : v.IsKept wide t := by
  rintro p x rfl
  cases h

theorem isDouble_int (n : Int) : (Value.int n).IsDouble wide := nofun

theorem isDouble_truth (b : Bool) : (Value.truth b).IsDouble wide := nofun

theorem isDouble_real {x : Fp} (h : Format.double.Holds x) : (Value.real x).IsDouble wide := by
  rintro y hy -
  cases hy
  exact h

theorem isKept_null : Value.null.IsKept wide t := fun _ _ _ h => nomatch h

theorem isKept_zero : (Value.zero t).IsKept wide t := by
  rintro p x rfl hx
  cases hx
  exact fun _ => trivial

/-- What is kept in any type of floating point is a double. -/
theorem IsKept.isDouble {p : Precision} (h : v.IsKept wide (.fp p)) : v.IsDouble wide := by
  intro x hx hw
  have := h p x rfl hx (.inr hw)
  cases p with
  | single => exact Format.holds_double this
  | _ => exact this

theorem toFp_holds {x : Fp} (hv : v.IsDouble wide) (h : v.toFp = .ok x) (hw : wide) :
    Format.double.Holds x := by
  cases v with
  | int n => exact Fp.doubleOfInt_holds h
  | truth b =>
      cases h
      cases b
      · trivial
      · exact Fp.ofRat_holds _ (m := 1) (e := 0) ⟨by decide, by decide, by decide⟩ (by norm_num)
  | real y =>
      cases h
      exact hv _ rfl hw
  | text s =>
      rw [Value.toFp] at h
      split at h
      · cases h
        exact Fp.readFp_holds ‹_›
      · cases h
  | _ => cases h

/-- What is brought to a type is kept in it. -/
theorem normalize_kept (hv : v.IsDouble wide) (h : v.normalize t = .ok v') : v'.IsKept wide t := by
  rintro p x rfl rfl hp
  cases p with
  | single =>
      obtain ⟨y, -, hy⟩ := ok_of_map h
      cases hy
      exact Format.convert_holds Format.single_proper y
  | half | double =>
      obtain ⟨y, hy, hx⟩ := ok_of_map h
      cases hx
      exact toFp_holds hv hy (hp.resolve_left nofun)

end Value

namespace Interpreted

variable {wide : Prop} {t : Ty} {v : Value}

theorem constant_kept {function : String} {c : Constant} (hc : wide → c.IsDouble)
    (h : constant function c = .ok v) : v.IsKept wide c.type := by
  have scalar_kept {t : Ty} {x : Value} (hx : x.IsDouble wide)
      (h : constant.scalar function t x = .ok v) : v.IsKept wide t := by
    unfold constant.scalar at h
    split at h
    · exact Value.normalize_kept hx h
    · cases h
  cases c with
  | null t | undef t =>
      cases h
      exact Value.isKept_zero
  | int t n => exact scalar_kept (Value.isDouble_int n) h
  | truth t b => exact scalar_kept (Value.isDouble_truth b) h
  | real t x => exact scalar_kept (fun y hy hw => by cases hy; exact hc hw) h
  | aggregate t cs => cases h

theorem initialValue_kept {function : String} {x : Variable}
    (hinit : ∀ c, x.init = some (.const c) → c.type = x.type)
    (hc : ∀ c, x.init = some (.const c) → wide → c.IsDouble)
    (h : initialValue function x = .ok v) : v.IsKept wide x.type := by
  unfold initialValue at h
  split at h
  · cases h
    exact Value.isKept_zero
  · rename_i c hi
    exact hinit c hi ▸ constant_kept (hc c hi) h
  · cases h

/-! ## Operations -/

section

variable {x y : Value}

/-- A number, if it is a datum, is a double. -/
theorem number_isDouble {n : Number} (hv : v.IsDouble wide) (h : v.number = .ok n) :
    n.toValue.IsDouble wide := by
  cases v with
  | real x =>
      cases h
      exact hv
  | int | truth =>
      cases h
      exact Value.isDouble_int _
  | _ => cases h

theorem toFp_number_holds {n : Number} {z : Fp} (hn : n.toValue.IsDouble wide)
    (h : n.toFp = .ok z) (hw : wide) : Format.double.Holds z := by
  cases n with
  | int k => exact Fp.doubleOfInt_holds h
  | real y =>
      cases h
      exact hn _ rfl hw

theorem combine_isDouble {onInts : Int → Int → Int} {onFps : Fp → Fp → Fp} {a b n : Number}
    (hfps : ∀ x y, Format.double.Holds (onFps x y)) (h : FpOp.combine onInts onFps a b = .ok n) :
    n.toValue.IsDouble wide := by
  unfold FpOp.combine at h
  split at h
  · cases h
    exact Value.isDouble_int _
  · obtain ⟨z, -, h⟩ := ok_of_bind h
    obtain ⟨z', -, h⟩ := ok_of_bind h
    cases h
    exact Value.isDouble_real (hfps z z')

theorem quotient_isDouble {a b n : Number} (h : FpOp.quotient a b = .ok n) :
    n.toValue.IsDouble wide := by
  unfold FpOp.quotient at h
  split at h
  · unfold FpOp.quotientByZero at h
    split at h
    · cases h
      exact Value.isDouble_real trivial
    · obtain ⟨z, -, h⟩ := ok_of_bind h
      split at h
      · cases h
        exact Value.isDouble_real trivial
      · obtain ⟨z', -, h⟩ := ok_of_bind h
        cases h
        exact Value.isDouble_real trivial
  · split at h
    · split at h
      · cases h
      · cases h
        exact Value.isDouble_real (Format.round_holds Format.double_proper _ _)
    · obtain ⟨z, -, h⟩ := ok_of_bind h
      obtain ⟨z', -, h⟩ := ok_of_bind h
      cases h
      exact Value.isDouble_real (Fp.unlessNan_holds (Fp.divNumbers_holds z z'))

/-- What an operation on numbers gives. -/
theorem exact_isDouble {op : FpOp} {a b n : Number} (ha : a.toValue.IsDouble wide)
    (hb : b.toValue.IsDouble wide) (h : op.exact a b = .ok n) : n.toValue.IsDouble wide := by
  cases op with
  | fadd => exact combine_isDouble (fun x y => Fp.unlessNan_holds (Fp.addNumbers_holds x y)) h
  | fsub => exact combine_isDouble (fun x y => Fp.unlessNan_holds (Fp.addNumbers_holds x y.neg)) h
  | fmul => exact combine_isDouble (fun x y => Fp.unlessNan_holds (Fp.mulNumbers_holds x y)) h
  | fdiv => exact quotient_isDouble h
  | frem =>
      obtain ⟨z, hz, h⟩ := ok_of_bind h
      obtain ⟨z', hz', h⟩ := ok_of_bind h
      split at h
      · cases h
      · cases h
        intro r hr hw
        cases hr
        exact Fp.rem_holds (toFp_number_holds ha hz hw) (toFp_number_holds hb hz' hw)

theorem apply_isDouble {op : FpOp} (hx : x.IsDouble wide) (hy : y.IsDouble wide)
    (h : op.apply x y = .ok v) : v.IsDouble wide := by
  rcases apply_cases h with rfl | ⟨s, -, rfl⟩ | ⟨a, b, n, ha, hb, hn, rfl⟩
  · exact Value.isDouble_real trivial
  · exact nofun
  · exact exact_isDouble (number_isDouble hx ha) (number_isDouble hy hb) hn

theorem negate_isDouble (hx : x.IsDouble wide) (h : x.negate = .ok v) : v.IsDouble wide := by
  cases x with
  | real z =>
      cases h
      intro r hr hw
      cases hr
      exact Format.holds_neg (hx z rfl hw)
  | int | truth =>
      cases h
      exact Value.isDouble_int _
  | _ => cases h

/-! ### Conversions -/

theorem wordToFp_kept {p : Precision} (h : CastOp.wordToFp p x = .ok v) (hp : p ≠ .half) :
    v.IsKept wide (.fp p) := by
  obtain ⟨n, -, h⟩ := ok_of_bind h
  cases h
  rintro q z hq hz -
  cases hq
  cases hz
  cases p with
  | half => exact absurd rfl hp
  | single => exact Format.decode_holds Format.single_proper n
  | double => exact Format.decode_holds Format.double_proper n

theorem reinterpret_kept {f : String} {u : Ty} (h : CastOp.reinterpret f u t x = .ok v) :
    v.IsKept wide t := by
  unfold CastOp.reinterpret at h
  split at h
  · exact .of_not_fp rfl
  · exact .of_not_fp rfl
  · exact wordToFp_kept h (by decide)
  · exact wordToFp_kept h (by decide)
  · exact .of_not_fp rfl
  · exact .of_not_fp rfl
  · cases h

/-- The type that is converted to a type of floating point. -/
theorem source_of_canConvert {op : CastOp} {u : Ty} {p : Precision}
    (h : Ty.canConvert op u (.fp p) = true) :
    op = .bitcast ∨ ((op = .fptrunc ∨ op = .fpext) ∧ ∃ q, u = .fp q) ∨
      ((op = .uitofp ∨ op = .sitofp) ∧ ∃ w, u = .int w) := by
  by_cases hop : op = .bitcast
  · exact .inl hop
  · obtain ⟨a, b, hgoes, hu, ht, hl⟩ := Ty.of_canConvert h hop
    rcases Ty.of_lanes_eq hu ht hl with ⟨rfl, rfl⟩ | ⟨n, -, hvector⟩
    · cases hgoes with
      | fptrunc | fpext => exact .inr (.inl ⟨by simp, _, rfl⟩)
      | uitofp | sitofp => exact .inr (.inr ⟨by simp, _, rfl⟩)
    · cases hvector

/-- A conversion gives what is kept in its type. -/
theorem cast_kept {R : Regime} {s : Storage} {f : String} {op : CastOp} {u : Ty}
    (hc : Ty.canConvert op u t = true) (hfit : R.Fits s u x) (hx : x.IsKept wide u)
    (h : op.apply f u t x = .ok v) : v.IsKept wide t := by
  by_cases ht : t.isFp = true
  · obtain ⟨p, rfl⟩ : ∃ p, t = .fp p := by
      cases t with
      | fp p => exact ⟨p, rfl⟩
      | _ => cases ht
    obtain rfl | ⟨rfl | rfl, q, rfl⟩ | ⟨rfl | rfl, w, rfl⟩ := source_of_canConvert hc
    · exact reinterpret_kept h
    · exact Value.normalize_kept hx.isDouble h
    · exact Value.normalize_kept hx.isDouble h
    · obtain ⟨n, rfl, -⟩ := hfit
      obtain ⟨z, hz, h⟩ := ok_of_bind h
      exact Value.normalize_kept (Value.isDouble_real (Fp.doubleOfInt_holds hz)) h
    · obtain ⟨n, -, h⟩ := ok_of_bind h
      obtain ⟨z, hz, h⟩ := ok_of_bind h
      exact Value.normalize_kept (Value.isDouble_real (Fp.doubleOfInt_holds hz)) h
  · exact .of_not_fp (by simpa using ht)

theorem integerOp_kept {f : Function} {op : IntOp} (h : integerOp f op t x y = .ok v) :
    v.IsKept wide t := by
  cases t with
  | int w => exact .of_not_fp rfl
  | _ => cases h

/-- What a typed operation gives is kept in its type, if its operands are in theirs. -/
theorem result_kept {R : Regime} {s : Storage} {f : Function} {op : Op} {vs : List Value}
    (ht : op.Typed f t)
    (hvs : List.Forall₂ (fun o v => R.Fits s (Operand.type o) v ∧ v.IsKept wide o.type)
      op.operands vs)
    (h : result f t op vs = .ok v) : v.IsKept wide t := by
  have truth_kept {u : Ty} : u.truth.isFp = false := by
    unfold Ty.truth
    split <;> rfl
  cases op with
  | int op a b =>
      rcases hvs with _ | ⟨-, _ | ⟨-, _ | _⟩⟩
      exact integerOp_kept h
  | fp op a b =>
      obtain ⟨ha, hb, -⟩ := ht
      rcases hvs with _ | ⟨⟨-, hx⟩, _ | ⟨⟨-, hy⟩, _ | _⟩⟩
      obtain ⟨u, hu, h⟩ := ok_of_bind h
      intro p z hp
      subst hp
      rw [ha] at hx
      rw [hb] at hy
      exact Value.normalize_kept (apply_isDouble hx.isDouble hy.isDouble hu) h p z rfl
  | fneg a =>
      obtain ⟨ha, -⟩ := ht
      rcases hvs with _ | ⟨⟨-, hx⟩, _ | _⟩
      obtain ⟨u, hu, h⟩ := ok_of_bind h
      intro p z hp
      subst hp
      rw [ha] at hx
      exact Value.normalize_kept (negate_isDouble hx.isDouble hu) h p z rfl
  | icmp p a b =>
      obtain ⟨rfl, -, -⟩ := ht
      exact .of_not_fp truth_kept
  | fcmp p a b =>
      obtain ⟨rfl, -⟩ := ht
      exact .of_not_fp truth_kept
  | cast op a =>
      rcases hvs with _ | ⟨⟨hfit, hx⟩, _ | _⟩
      exact cast_kept ht.1 hfit hx h
  | _ => unfold result at h; cases h

end

end Interpreted

end Ssa

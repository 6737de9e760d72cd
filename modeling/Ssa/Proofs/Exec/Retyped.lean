/-
# `Ssa.Proofs.Exec.Retyped` — access through a retyped pointer

A pointer that is cast stays the cell that it was.  So a load yields what was stored last, whatever the
types of the two pointers are, where storage of octets would yield a value with the same digits.  The
two agree for one type and for pointers, and for integers as long as those digits that the types do not
share are zero; between integers and floating point they never agree.

**Proved here.**

    digits read as another type of one width are what the conversion makes   (`readAs_fp`, `readAs_int`)
    what was stored last is what is read  ⟺  it agrees with the type      (`readAs_eq_iff`)
    in the life of an engine a load binds what was stored last             (`Lives.access`)
    eight of 32 digits, where the whole integer is loaded                   (`not_readAs`)
-/
import Ssa.Proofs.Exec.Contents
import Ssa.Proofs.Exec.Store
import Ssa.Proofs.Number.Encoding

namespace Ssa

open Interpreted (rules eval)

/-! ## Digits in storage -/

/-- How many digits a number takes up in storage of a type, and which. -/
def Ty.encode? : Ty → Value → Option (Nat × Nat)
  | .int n, .int v => some (n, v.toNat)
  | .fp .half, _ => none
  | .fp p, .real x => some (p.width, p.format.encode x)
  | _, _ => none

/-- The number of a type that digits in storage are read as: its lowest ones count. -/
def Ty.decode? : Ty → Nat → Option Value
  | .int n, d => some (.int (d % 2 ^ n : Nat))
  | .fp .half, _ => none
  | .fp p, d => some (.real (p.format.decode (d % 2 ^ p.width)))
  | _, _ => none

/-- The digits in storage after numbers were stored in one place, the latest first: each takes the lowest
digits, as many as it has, and leaves those beyond. -/
def digitsAfter (beyond : Nat) : List Stored → Option Nat
  | [] => some beyond
  | s :: older => do
    let (n, d) ← s.type.encode? s.value
    let b ← digitsAfter beyond older
    return d + b / 2 ^ n * 2 ^ n

/-- What a load of a type is to yield if it is to act on the digits in storage, after a store and those
before it: what was stored, for the same type and for pointers, and otherwise the number that the digits
are read as, if there is one. -/
def Stored.readAs (beyond : Nat) (s : Stored) (older : List Stored) (u : Ty) : Option Value :=
  if s.type = u ∨ (s.type.isPointer ∧ u.isPointer) then some s.value
  else (digitsAfter beyond (s :: older)).bind u.decode?

/-- A value is in the representation of a type: an integer without sign of its width, and a datum for
floating point.  Other types ask for nothing. -/
def Ty.Represents : Ty → Value → Prop
  | .int n, v => v.IsWord n
  | .fp _, v => ∃ x, v = .real x
  | _, _ => True

/-- What was stored last has the digits that a load of a type is to yield: the type is the same, both are
pointers, or both are integers and the digits that only one of the types has are zero.  What remains are
data of two precisions that happen to be one. -/
def Stored.Agrees (beyond : Nat) (s : Stored) (older : List Stored) (u : Ty) : Prop :=
  s.type = u ∨ (s.type.isPointer ∧ u.isPointer) ∨
    (∃ n m d, s.type = .int n ∧ u = .int m ∧ s.value.IsWord m ∧ digitsAfter beyond older = some d ∧
      d / 2 ^ n % 2 ^ (m - n) = 0) ∨
    s.type.isFp ∧ u.isFp ∧ (digitsAfter beyond (s :: older)).bind u.decode? = some s.value

/-! ## When a value has the digits -/

/-- The lowest digits of a number that was stored in front of others. -/
theorem stored_mod_eq {n m v b : Nat} (hv : v < 2 ^ n) :
    (v + b / 2 ^ n * 2 ^ n) % 2 ^ m = v ↔ v < 2 ^ m ∧ b / 2 ^ n % 2 ^ (m - n) = 0 := by
  generalize b / 2 ^ n = q
  rcases Nat.le_total m n with hmn | hnm
  · have hdvd : 2 ^ m ∣ q * 2 ^ n := Dvd.dvd.mul_left (Nat.pow_dvd_pow 2 hmn) q
    have hmod : (v + q * 2 ^ n) % 2 ^ m = v % 2 ^ m := by
      obtain ⟨k, hk⟩ := hdvd
      rw [hk, Nat.add_mul_mod_self_left]
    rw [hmod, Nat.sub_eq_zero_of_le hmn, Nat.pow_zero, Nat.mod_one]
    exact ⟨fun h => ⟨h ▸ Nat.mod_lt _ (Nat.two_pow_pos m), rfl⟩, fun h => Nat.mod_eq_of_lt h.1⟩
  · have hpow : 2 ^ m = 2 ^ n * 2 ^ (m - n) := by rw [← Nat.pow_add, Nat.add_sub_cancel' hnm]
    have hmod : (v + q * 2 ^ n) % 2 ^ m = v + q % 2 ^ (m - n) * 2 ^ n := by
      rw [hpow, Nat.mul_comm q, Nat.mod_mul, Nat.add_mul_mod_self_left, Nat.mod_eq_of_lt hv,
        Nat.add_mul_div_left _ _ (Nat.two_pow_pos n), Nat.div_eq_of_lt hv, Nat.zero_add,
        Nat.mul_comm]
    have hlt : v < 2 ^ m := hv.trans_le (Nat.pow_le_pow_right (by decide) hnm)
    rw [hmod]
    constructor
    · intro h
      refine ⟨hlt, ?_⟩
      have : q % 2 ^ (m - n) * 2 ^ n = 0 := by omega
      exact (Nat.mul_eq_zero.mp this).resolve_right (Nat.two_pow_pos n).ne'
    · rintro ⟨-, h⟩
      rw [h, Nat.zero_mul, Nat.add_zero]

variable {beyond : Nat} {s : Stored} {older : List Stored} {u : Ty}

/-- What was stored last is what a load is to yield exactly when the two agree. -/
theorem readAs_eq_iff (hs : s.type.Represents s.value) :
    s.readAs beyond older u = some s.value ↔ s.Agrees beyond older u := by
  unfold Stored.readAs Stored.Agrees
  by_cases hsame : s.type = u ∨ (s.type.isPointer ∧ u.isPointer)
  · rw [if_pos hsame]
    exact iff_of_true rfl (hsame.imp_right .inl)
  rw [if_neg hsame]
  obtain ⟨hne, hpointers⟩ := not_or.mp hsame
  rw [or_iff_right hne, or_iff_right hpointers]
  obtain ⟨cell, t, y⟩ := s
  dsimp only at hs hne ⊢
  constructor
  · intro h
    obtain ⟨b, hb, hread⟩ := Option.bind_eq_some_iff.mp h
    obtain ⟨⟨k, e⟩, he, hrest⟩ := Option.bind_eq_some_iff.mp hb
    obtain ⟨d, hd, heq⟩ := Option.bind_eq_some_iff.mp hrest
    cases heq
    cases t with
    | int n =>
        obtain ⟨v, rfl, hnonneg, hlt⟩ := hs
        obtain ⟨v, rfl⟩ := Int.eq_ofNat_of_zero_le hnonneg
        cases he
        cases u with
        | int m =>
            have hv : v < 2 ^ k := by exact_mod_cast hlt
            have hmod : (v + d / 2 ^ k * 2 ^ k) % 2 ^ m = v := by
              have := Value.int.inj (Option.some_inj.mp hread)
              exact_mod_cast this
            obtain ⟨hvm, hzero⟩ := (stored_mod_eq hv).mp hmod
            exact .inl ⟨k, m, d, rfl, rfl, ⟨v, rfl, hnonneg, by exact_mod_cast hvm⟩, hd, hzero⟩
        | fp p => cases p <;> cases hread
        | _ => cases hread
    | fp p =>
        obtain ⟨x, rfl⟩ := hs
        cases u with
        | fp q => exact .inr ⟨rfl, rfl, h⟩
        | _ => cases hread
    | _ => cases he
  · rintro (⟨n, m, d, rfl, rfl, ⟨v, rfl, hnonneg, hlt⟩, hd, hzero⟩ | ⟨-, -, h⟩)
    · obtain ⟨v, rfl⟩ := Int.eq_ofNat_of_zero_le hnonneg
      obtain ⟨v', hv', -, hn⟩ := hs
      cases hv'
      have hmod := (stored_mod_eq (b := d) (by exact_mod_cast hn)).mpr ⟨by exact_mod_cast hlt, hzero⟩
      refine Option.bind_eq_some_iff.mpr ⟨v + d / 2 ^ n * 2 ^ n, ?_, ?_⟩
      · simp only [digitsAfter, Ty.encode?, hd]
        rfl
      · rw [Ty.decode?, hmod]
    · exact h

/-- Where a load acts on the digits, what it yields is in the representation of its type. -/
theorem Stored.Agrees.represents (hs : s.type.Represents s.value) (h : s.Agrees beyond older u) :
    u.Represents s.value := by
  rcases h with rfl | ⟨-, hu⟩ | ⟨n, m, d, -, rfl, hm, -⟩ | ⟨ht, hu, -⟩
  · exact hs
  · cases u <;> trivial
  · exact hm
  · cases u with
    | fp q =>
        generalize s.type = t at hs ht
        cases t <;> first | exact hs | cases ht
    | _ => cases hu

/-- The lowest digits, when what was stored has as many. -/
theorem stored_mod_self {n e b : Nat} (he : e < 2 ^ n) : (e + b / 2 ^ n * 2 ^ n) % 2 ^ n = e := by
  rw [Nat.add_mul_mod_self_right, Nat.mod_eq_of_lt he]

section

variable {p : Precision} (hp : p ≠ .half) {cell d : Nat}
include hp

theorem decode?_fp (d : Nat) :
    Ty.decode? (.fp p) d = some (.real (p.format.decode (d % 2 ^ p.width))) := by
  cases p <;> first | rfl | exact absurd rfl hp

theorem encode?_fp (x : Fp) :
    Ty.encode? (.fp p) (.real x) = some (p.width, p.format.encode x) := by
  cases p <;> first | rfl | exact absurd rfl hp

theorem reinterpret_fp (function : String) (v : Value) :
    CastOp.reinterpret function (.int p.width) (.fp p) v = CastOp.wordToFp p v := by
  cases p <;> first | rfl | exact absurd rfl hp

theorem reinterpret_int (function : String) (v : Value) :
    CastOp.reinterpret function (.fp p) (.int p.width) v = CastOp.fpToWord p v := by
  cases p <;> first | rfl | exact absurd rfl hp

variable (hd : digitsAfter beyond older = some d)
include hd

/-- Digits that are read as another type of the same width are what the conversion of that name makes of
the integer that was stored. -/
theorem readAs_fp {v : Value} (hv : v.IsWord p.width) :
    Stored.readAs beyond ⟨cell, .int p.width, v⟩ older (.fp p) =
      (CastOp.reinterpret "" (.int p.width) (.fp p) v).toOption := by
  obtain ⟨v, rfl, hnonneg, hlt⟩ := hv
  obtain ⟨v, rfl⟩ := Int.eq_ofNat_of_zero_le hnonneg
  have hv : v < 2 ^ p.width := by exact_mod_cast hlt
  have hafter : digitsAfter beyond (⟨cell, .int p.width, .int v⟩ :: older) =
      some (v + d / 2 ^ p.width * 2 ^ p.width) := by
    simp [digitsAfter, Ty.encode?, hd]
  have hdigits : CastOp.digits p.width (.int v) = .ok v := by
    have hcount : v < Word.count p.width := hv
    simp [CastOp.digits, Value.int?, hcount]
  rw [Stored.readAs, if_neg (by simp [Ty.isPointer]), hafter, Option.bind_some, decode?_fp hp,
    stored_mod_self hv, reinterpret_fp hp, CastOp.wordToFp, hdigits]
  rfl

/-- And so they are for a datum of the precision. -/
theorem readAs_int {x : Fp} (hx : p.format.convert x = x) :
    Stored.readAs beyond ⟨cell, .fp p, .real x⟩ older (.int p.width) =
      (CastOp.reinterpret "" (.fp p) (.int p.width) (.real x)).toOption := by
  have hafter : digitsAfter beyond (⟨cell, .fp p, .real x⟩ :: older) =
      some (p.format.encode x + d / 2 ^ p.width * 2 ^ p.width) := by
    simp [digitsAfter, encode?_fp hp, hd]
  have hdatum : CastOp.datum p (.real x) = .ok x := by
    have hfinite : (x.isFinite && x.isInfinite) = false := by cases x <;> rfl
    simp only [CastOp.datum, Value.double?, Value.number?, Option.bind_some, Number.toFp,
      Except.toOption, hx, hfinite, Bool.false_eq_true, if_false]
  rw [Stored.readAs, if_neg (by simp [Ty.isPointer]), hafter, Option.bind_some, Ty.decode?,
    stored_mod_self (hx ▸ Precision.encode_convert_lt p x), reinterpret_int hp, CastOp.fpToWord, hdatum]
  rfl

end

/-! ## Accesses in the life of an engine -/

open Interpreted (Reaching)
open Machine (Lives step)

/-- At any time in the life of an engine, an access through what is no cell fails.  A store through a cell
is made, and from then on is the latest in it.  A load through a cell binds what was stored last in it, or
what it held before that, as it is: whatever the types of the pointers are.  If that is in the
representation of the type with which it was stored, it is what acting on the digits comes to if and only
if it agrees with the type of the load; and then it is in the representation of that. -/
theorem Machine.Lives.access {p : Program} {start mem mem₁ mem₂ : Memory} {log : List Stored} {fr : Frame}
    {waiting : List Frame} {i : Instr} {a : Operand} {y : Value}
    (h : Lives p start log (some (.running fr waiting)) mem) (hi : fr.current? = some i)
    (haddress : i.op.address? = some a) (hreach : Reaching p fr i.op mem mem₁)
    (ha : (eval p fr.function fr.env a).on mem₁ = (.ok y, mem₂)) :
    ((∀ id, y ≠ .cell id) → (step rules p fr waiting).on mem =
      (.error (.unsupported (.rawPointer i.op.word) fr.function.name), mem₂)) ∧
    ∀ id c, y = .cell id → mem₂.storage.cell? id = some c →
      (∀ v x, i.op = .store v a → (eval p fr.function fr.env v).on mem = (.ok x, mem₁) →
        ∃ mem', (step rules p fr waiting).on mem =
            (.ok (.running (fr.advance i.id .null) waiting), mem') ∧
          Lives p start (⟨id, v.type, x⟩ :: log) (some (.running (fr.advance i.id .null) waiting)) mem') ∧
      (i.op = .load a → ∃ original s older, original.cell = id ∧
        original.IsOriginal p.module start.storage ∧ Stored.history log original = s :: older ∧
        (step rules p fr waiting).on mem = (.ok (.running (fr.advance i.id s.value) waiting), mem₂) ∧
        (s.type.Represents s.value → ∀ beyond,
          (s.readAs beyond older i.type = some s.value ↔ s.Agrees beyond older i.type) ∧
          (s.Agrees beyond older i.type → i.type.Represents s.value))) := by
  refine ⟨Interpreted.step_raw hi haddress hreach ha, ?_⟩
  rintro id c rfl hc
  constructor
  · intro v x hop hv
    have hon : (fr.stored p v a).on mem = (.ok (x, .cell id), mem₂) := by
      simp only [Frame.stored, Effect.on_bind, hv, ha, Effect.on_pure]
    have hstore : fr.store? p mem = some ⟨id, v.type, x⟩ := by
      simp only [Frame.store?, hi, Option.map_some, hop, hon, hc, Option.isSome_some, if_true]
    obtain ⟨i', mem', hi', -, -, hstep⟩ := Interpreted.step_stored waiting hstore
    cases hi.symm.trans hi'
    refine ⟨_, hstep, ?_⟩
    have hnext := Lives.stepped h hstep
    rwa [hstore] at hnext
  · intro hop
    rw [hop] at hreach
    cases hreach
    have hgrown := Interpreted.eval_within (Memory.Grown.admits p.module) fr.function fr.env a mem
    rw [ha] at hgrown
    obtain ⟨original, s, older, horiginal, hfirst, hhistory, hvalue⟩ :=
      (h.follows.grown hgrown).holds id c hc
    refine ⟨original, s, older, horiginal, hfirst, hhistory, ?_, fun hs beyond => ?_⟩
    · rw [← hvalue]
      exact Interpreted.step_load hi hop ha hc
    · exact ⟨readAs_eq_iff hs, Stored.Agrees.represents hs⟩

/-! ## An octet of four -/

/-- A function that stores an integer of 32 digits through its parameter, and loads it through a pointer to
integers of eight. -/
def octetOf : Function :=
  ⟨"f", .void, [.pointer (.int 32) 0], false, .fresh, #[], #[⟨"e", [
    ⟨1, .void, .store (.const (.int (.int 32) 305419896)) (.local 0 (.pointer (.int 32) 0))⟩,
    ⟨2, .pointer (.int 8) 0, .cast .bitcast (.local 0 (.pointer (.int 32) 0))⟩,
    ⟨3, .int 8, .load (.local 2 (.pointer (.int 8) 0))⟩]⟩]⟩

/-- A memory of one cell. -/
def oneCell : Memory := ⟨⟨#[⟨.int 32, .int 0⟩], #[]⟩, []⟩

/-- The load binds the whole integer, which does not agree with its type. -/
theorem access_octetOf : ∃ log fr mem mem₂, ∃ i : Instr,
    Lives ⟨0, [], .empty "m"⟩ oneCell log (some (.running fr [])) mem ∧ fr.current? = some i ∧
      i.type = .int 8 ∧ ∃ original s older, Stored.history log original = s :: older ∧
        s.value = .int 305419896 ∧
        (step rules ⟨0, [], .empty "m"⟩ fr []).on mem =
          (.ok (.running (fr.advance i.id s.value) []), mem₂) ∧
        s.readAs 0 older i.type ≠ some s.value := by
  let p : Program := ⟨0, [], .empty "m"⟩
  have hfresh : Lives p oneCell [] none oneCell := .fresh
  have hentered := hfresh.entered
    (show (Machine.enter rules p octetOf [.cell 0]).on oneCell = _ from rfl)
  have hcast := (hentered.stepped rfl).stepped rfl
  obtain ⟨original, s, older, hcell, -, hhistory, hstep, hagrees⟩ :=
    (hcast.access (i := ⟨3, .int 8, .load (.local 2 (.pointer (.int 8) 0))⟩) rfl rfl rfl rfl).2 0 _
      rfl rfl |>.2 rfl
  have hlatest : Stored.history [⟨0, .int 32, .int 305419896⟩] original = s :: older := hhistory
  rw [Stored.history_of_eq hcell.symm] at hlatest
  obtain ⟨rfl, -⟩ := List.cons.inj hlatest
  have hword : (Ty.int 32).Represents (.int 305419896) := ⟨_, rfl, by decide, by decide⟩
  refine ⟨_, _, _, _, _, hcast, rfl, rfl, original, _, older, hhistory, rfl, hstep, fun hread => ?_⟩
  obtain ⟨hiff, hrepresents⟩ := hagrees hword 0
  obtain ⟨n, hn, -, hlt⟩ : Value.IsWord 8 (.int 305419896) := hrepresents (hiff.mp hread)
  cases hn
  exact absurd hlt (by decide)

/-- A function that stores an integer of 32 digits in a cell of its own, and loads it through a pointer to
integers of eight. -/
def lowOctet : Draft where
  types := []
  globals := []
  functions := [⟨"f", .int 32, [], false, some [⟨"e", "e", [
    ⟨some "p", "p", .op (.alloca (.int 32) none)⟩,
    ⟨none, "", .op (.store (.constant (.typed (.int 32) (.int 305419896))) (.key "p"))⟩,
    ⟨some "q", "q", .cast .bitcast (.key "p") (.pointer (.int 8) 0)⟩,
    ⟨some "v", "v", .op (.load (.key "q"))⟩,
    ⟨some "y", "y", .cast .zext (.key "v") (.int 32)⟩,
    ⟨none, "", .op (.ret (some (.key "y")))⟩]⟩]⟩]

theorem lowOctet_admitted : (lowOctet.written "m").Admitted :=
  Draft.written_admitted (by decide +kernel)

/-- The module is admitted, but its function does not come to the lowest eight digits, which its last
conversion leaves as they are. -/
theorem not_readAs : (lowOctet.written "m").Admitted ∧
    Stored.readAs 0 ⟨0, .int 32, .int 305419896⟩ [] (.int 8) = some (.int 120) ∧
    CastOp.apply "f" .zext (.int 8) (.int 32) (.int 120) = .ok (.int 120) ∧
    ∃ f, (lowOctet.written "m").function? 0 = some f ∧ f.result = .int 32 ∧ f.params = [] ∧
      ((Machine.call rules ⟨0, [], lowOctet.written "m"⟩ 6 f []).on .empty).1 =
        .ok (.int 305419896) := by
  obtain ⟨f, hf⟩ : ∃ f, (lowOctet.written "m").function? 0 = some f :=
    Option.isSome_iff_exists.mp (by decide +kernel)
  have htype : ((lowOctet.written "m").function? 0).map (fun f => (f.result, f.params)) =
      some (.int 32, []) := by decide +kernel
  have hrun : ((lowOctet.written "m").function? 0).map (fun f =>
      ((Machine.call rules ⟨0, [], lowOctet.written "m"⟩ 6 f []).on .empty).1.toOption.bind Value.int?) =
      some (some 305419896) := by decide +kernel
  rw [hf, Option.map_some, Option.some.injEq] at htype hrun
  obtain ⟨hresult, hparams⟩ := Prod.mk.inj htype
  refine ⟨lowOctet_admitted, rfl, rfl, f, hf, hresult, hparams, ?_⟩
  cases hcall : ((Machine.call rules ⟨0, [], lowOctet.written "m"⟩ 6 f []).on .empty).1 with
  | error e => rw [hcall] at hrun; cases hrun
  | ok v =>
      rw [hcall] at hrun
      cases v with
      | int n => cases hrun; rfl
      | truth b => cases b <;> cases hrun
      | _ => cases hrun

end Ssa

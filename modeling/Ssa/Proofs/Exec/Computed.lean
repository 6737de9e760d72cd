/-
# `Ssa.Proofs.Exec.Computed` — operations that only compute

What an arithmetic operation, a comparison or a conversion gives depends on the values of its
operands alone: it is `result` of them, after all of them have been evaluated in order.  So what is
known of such an operation is said about `result`, where there is no memory.

**Proved here.**

    compute = evaluate the operands, then `result`                        (`compute_eq_result`)
    what an instruction asks for that only computes                       (`perform_computed`)
    `result` of values that fit fits, if the operation is typed           (`result_fits`)
-/
import Ssa.Proofs.Exec.Fits
import Ssa.Proofs.Exec.Outcome
import Ssa.Proofs.Validity.Typed

namespace Ssa

/-- Whether the value of an operation depends on the values of its operands alone. -/
def OpOver.isComputed : Op → Bool
  | .int .. | .fp .. | .fneg _ | .icmp .. | .fcmp .. | .cast .. => true
  | _ => false

namespace Interpreted

/-- The value of an operation that only computes, given the values of its operands. -/
def result (f : Function) (t : Ty) : Op → List Value → Except Failure Value
  | .int op _ _, [x, y] => integerOp f op t x y
  | .fp op _ _, [x, y] => op.apply x y >>= Value.normalize t
  | .fneg _, [x] => x.negate >>= Value.normalize t
  | .icmp p a b, [x, y] => p.apply f.name a.type (a.isSameLocal b) x y
  | .fcmp p _ _, [x, y] => p.apply x y
  | .cast op a, [x] => op.apply f.name a.type t x
  | op, _ => .error (.unsupported (.instruction op.word) f.name)

theorem compute_eq_result (ev : Operand → Exec Value) (f : Function) (t : Ty) {op : Op}
    (h : op.isComputed = true) :
    compute ev f t op = op.operands.mapM ev >>= fun vs => Exec.lift (result f t op vs) := by
  cases op <;> first
    | simp [OpOver.isComputed] at h; done
    | simp [compute, result, OpOver.operands, List.mapM_cons, List.mapM_nil]

/-! ### Instructions that only compute -/

section

variable {p : Program} {f : Function} {env : Env} {i : Instr} {x y : Operand} {u v : Value}
  {m m₁ m₂ : Memory}

/-- What an instruction asks for that only computes, once its operands have been evaluated. -/
theorem perform_computed {vs : List Value} (h : i.op.isComputed = true)
    (hvs : (i.op.operands.mapM (eval p f env)).on m = (.ok vs, m₁)) :
    (perform p f env i).on m = ((result f i.type i.op vs).map .value, m₁) := by
  have hperform : perform p f env i = (do return .value (← compute (eval p f env) f i.type i.op)) := by
    unfold perform
    cases hop : i.op <;> rw [hop] at h <;> first | rfl | cases h
  rw [hperform, compute_eq_result _ _ _ h, Effect.on_bind, Effect.on_bind_of_ok hvs, Exec.on_lift]
  cases result f i.type i.op vs <;> rfl

theorem perform_of_one (h : i.op.isComputed = true) (hops : i.op.operands = [x])
    (hx : (eval p f env x).on m = (.ok u, m₁)) :
    (perform p f env i).on m = ((result f i.type i.op [u]).map .value, m₁) := by
  refine perform_computed h ?_
  rw [hops, List.mapM_cons, List.mapM_nil]
  exact Effect.on_bind_of_ok hx

theorem perform_of_two (h : i.op.isComputed = true) (hops : i.op.operands = [x, y])
    (hx : (eval p f env x).on m = (.ok u, m₁)) (hy : (eval p f env y).on m₁ = (.ok v, m₂)) :
    (perform p f env i).on m = ((result f i.type i.op [u, v]).map .value, m₂) := by
  refine perform_computed h ?_
  rw [hops, List.mapM_cons, List.mapM_cons, List.mapM_nil]
  refine (Effect.on_bind_of_ok hx).trans ?_
  rw [Effect.on_bind, Effect.on_bind_of_ok hy]
  rfl

end

/-! ## Results fit -/

section

variable {R : Regime} {s : Storage} {t : Ty} {v x y : Value}

/-- What comes of an operation on values that are no integers is zero, if anything does. -/
theorem IntOp.eq_zero_of_misapplied {function : String} {op : IntOp} {w : Nat}
    (h : op.misapplied function w x y = .ok v) : v = .int 0 := by
  unfold IntOp.misapplied at h
  split at h
  · cases h
  · split at h
    · cases h
      rfl
    · obtain ⟨-, -, h⟩ := ok_of_bind h
      cases h

theorem integerOp_fits {f : Function} {op : IntOp} (h : integerOp f op t x y = .ok v) :
    R.Fits s t v := by
  cases t with
  | int w =>
      unfold integerOp IntOp.apply at h
      dsimp only at h
      split at h
      · obtain ⟨n, hn, rfl⟩ := ok_of_map h
        obtain ⟨m, -, rfl⟩ := ok_of_map hn
        exact Regime.wrap_fits w m
      · obtain rfl := IntOp.eq_zero_of_misapplied h
        exact Regime.zero_fits (.int w)
  | _ => cases h

theorem icmp_fits {function : String} {p : IntPred} {u : Ty} {same : Bool}
    (h : p.apply function u same x y = .ok v) : R.Fits s u.truth v := by
  unfold IntPred.apply at h
  split at h
  · split at h
    · obtain ⟨b, -, rfl⟩ := ok_of_map h
      exact Regime.ofBool_fits _ b
    · split at h
      · cases h
      · cases h; exact Regime.ofBool_fits _ _
  · split at h <;> cases h <;> exact Regime.ofBool_fits _ _

theorem fcmp_fits {p : FpPred} {u : Ty} (h : p.apply x y = .ok v) : R.Fits s u.truth v := by
  obtain ⟨a, -, ha⟩ := ok_of_bind h
  split at ha
  · cases ha; exact Regime.ofBool_fits _ _
  · obtain ⟨b, -, hb⟩ := ok_of_bind ha
    cases hb
    exact Regime.ofBool_fits _ _

/-- A datum, brought to a type of floating point or to a vector, fits it. -/
theorem real_fits {z : Fp} (ht : t.isFpLike = true) (h : (Value.real z).normalize t = .ok v) :
    R.Fits s t v := by
  cases t with
  | fp p => exact Regime.normalize_fits_scalar (.inr rfl) h
  | vector n e =>
      cases h
      cases e with
      | fp p => exact fun _ => .inr ⟨z, rfl⟩
      | _ => cases ht
  | _ => cases ht

/-! ### Floating point -/

theorem exact_real {op : FpOp} {a b : Fp} {n : Number}
    (h : op.exact (.real a) (.real b) = .ok n) : ∃ z, n = .real z := by
  cases op with
  | fadd | fsub | fmul => cases h; exact ⟨_, rfl⟩
  | frem =>
      change FpOp.remainder _ _ = _ at h
      unfold FpOp.remainder at h
      obtain ⟨_, -, h⟩ := ok_of_bind h
      obtain ⟨_, -, h⟩ := ok_of_bind h
      split at h
      · cases h
      · cases h; exact ⟨_, rfl⟩
  | fdiv =>
      change FpOp.quotient _ _ = _ at h
      unfold FpOp.quotient at h
      split at h
      · unfold FpOp.quotientByZero at h
        split at h
        · cases h; exact ⟨_, rfl⟩
        · obtain ⟨_, -, h⟩ := ok_of_bind h
          split at h
          · cases h; exact ⟨_, rfl⟩
          · obtain ⟨_, -, h⟩ := ok_of_bind h
            cases h
            exact ⟨_, rfl⟩
      · cases h; exact ⟨_, rfl⟩

/-- What an operation gives: no number at all, a text, or what it gives on the numbers of two values. -/
theorem apply_cases {op : FpOp} (h : op.apply x y = .ok v) :
    v = .real .plainNan ∨ (∃ s, op.onTexts? x y = some (.ok (.text s)) ∧ v = .text s) ∨
      ∃ a b n, x.number = .ok a ∧ y.number = .ok b ∧ op.exact a b = .ok n ∧ v = n.toValue := by
  unfold FpOp.apply at h
  split at h
  · cases h
    exact .inl rfl
  · split at h
    · rename_i r hr
      rcases FpOp.eq_of_onTexts? hr with rfl | ⟨s, rfl⟩
      · cases h
      · cases h
        exact .inr (.inl ⟨s, hr, rfl⟩)
    · obtain ⟨a, ha, h⟩ := ok_of_bind h
      obtain ⟨b, hb, h⟩ := ok_of_bind h
      obtain ⟨n, hn, h⟩ := ok_of_bind h
      cases h
      exact .inr (.inr ⟨a, b, n, ha, hb, hn, rfl⟩)

theorem onTexts?_eq_none (op : FpOp) (hx : x = .null ∨ ∃ a, x = .real a)
    (hy : y = .null ∨ ∃ b, y = .real b) : op.onTexts? x y = none := by
  obtain rfl | ⟨a, rfl⟩ := hx <;> obtain rfl | ⟨b, rfl⟩ := hy <;> cases op <;> rfl

/-- On data, or on what is no number at all, an operation gives a datum or nothing. -/
theorem apply_real {op : FpOp} (hx : x = .null ∨ ∃ a, x = .real a)
    (hy : y = .null ∨ ∃ b, y = .real b) (h : op.apply x y = .ok v) : ∃ z, v = .real z := by
  rcases apply_cases h with rfl | ⟨s, hs, rfl⟩ | ⟨a, b, n, ha, hb, hn, rfl⟩
  · exact ⟨_, rfl⟩
  · rw [onTexts?_eq_none op hx hy] at hs
    cases hs
  · obtain rfl | ⟨a', rfl⟩ := hx
    · cases ha
    obtain rfl | ⟨b', rfl⟩ := hy
    · cases hb
    cases ha
    cases hb
    obtain ⟨z, rfl⟩ := exact_real hn
    exact ⟨z, rfl⟩

theorem fp_fits {op : FpOp} (ht : t.isFpLike = true) (hx : R.Fits s t x) (hy : R.Fits s t y)
    (h : (op.apply x y >>= Value.normalize t) = .ok v) : R.Fits s t v := by
  obtain ⟨u, hu, hv⟩ := ok_of_bind h
  cases t with
  | fp p => exact Regime.normalize_fits_scalar (.inr rfl) hv
  | vector n e =>
      cases e with
      | fp p =>
          cases hv
          exact fun hr => .inr (apply_real (hx hr) (hy hr) hu)
      | _ => cases ht
  | _ => cases ht

theorem fneg_fits (ht : t.isFpLike = true) (hx : R.Fits s t x)
    (h : (x.negate >>= Value.normalize t) = .ok v) : R.Fits s t v := by
  obtain ⟨u, hu, hv⟩ := ok_of_bind h
  cases t with
  | fp p => exact Regime.normalize_fits_scalar (.inr rfl) hv
  | vector n e =>
      cases e with
      | fp p =>
          cases hv
          intro hr
          obtain rfl | ⟨a, rfl⟩ := hx hr
          · cases hu
          · cases hu; exact .inr ⟨_, rfl⟩
      | _ => cases ht
  | _ => cases ht

/-! ### Conversions -/

theorem wrapTo_fits (h : CastOp.wrapTo t x = .ok v) : R.Fits s t v := by
  obtain ⟨w, hw, hv⟩ := ok_of_bind h
  obtain ⟨n, -, hv⟩ := ok_of_bind hv
  cases t <;> cases hw
  cases hv
  exact Regime.wrap_fits _ n

/-- The integer part fits a type of integers; where it is zero without being looked for, it fits a
vector too. -/
theorem integerPart_fits (ht : t.isIntLike = true) (h : CastOp.integerPart t x = .ok v) :
    R.Fits s t v := by
  have wrapped {n : Int} (h : (do return Value.int (Word.wrap (← t.width) n)) = .ok v) :
      R.Fits s t v := by
    obtain ⟨w, hw, hv⟩ := ok_of_bind h
    cases t <;> cases hw
    cases hv
    exact Regime.wrap_fits _ n
  obtain ⟨a, -, ha⟩ := ok_of_bind h
  split at ha
  · exact wrapped ha
  · split at ha
    · exact wrapped ha
    · cases ha
      cases t with
      | int w => exact Regime.zero_fits (.int w)
      | vector n e =>
          cases e with
          | int w => exact fun _ => .inr (.inl rfl)
          | _ => cases ht
      | _ => cases ht

/-- What is brought to a type of the same shape as its own, fits it. -/
theorem reshape_fits {u : Ty} {p q : Precision} (hl : u.lanes? = t.lanes?)
    (hu : u.scalar = .fp p) (ht : t.scalar = .fp q) (hx : R.Fits s u x)
    (h : x.normalize t = .ok v) : R.Fits s t v := by
  rcases Ty.of_lanes_eq hu ht hl with ⟨rfl, rfl⟩ | ⟨n, rfl, rfl⟩
  · exact Regime.normalize_fits_scalar (.inr rfl) h
  · cases h; exact hx

theorem digitsToReal_fits {p q : Precision} (h : CastOp.wordToFp p x = .ok v) :
    R.Fits s (.fp q) v := by
  obtain ⟨n, -, hv⟩ := ok_of_bind h
  cases hv
  exact ⟨_, rfl⟩

theorem fpToWord_fits {p : Precision} (h : CastOp.fpToWord p x = .ok v) :
    R.Fits s (.int p.width) v := by
  obtain ⟨y, hy, hv⟩ := ok_of_bind h
  cases hv
  refine ⟨_, rfl, by positivity, ?_⟩
  unfold CastOp.datum at hy
  split at hy
  · cases hy
  · dsimp only at hy
    split at hy
    · cases hy
    · cases hy
      exact_mod_cast p.encode_convert_lt _

theorem reinterpret_fits {f : String} {u : Ty} (hc : Ty.canConvert .bitcast u t = true)
    (hp : u.scalar.isPointer = false) (hx : R.Fits s u x)
    (h : CastOp.reinterpret f u t x = .ok v) : R.Fits s t v := by
  unfold CastOp.reinterpret at h
  split at h
  · cases hp
  · -- a reinterpretation of integers is to the same width
    rename_i w w'
    cases h
    have hw : w = w' := by simpa [Ty.canConvert, Ty.digits?, Ty.scalar] using hc
    exact hw ▸ hx
  · exact digitsToReal_fits h
  · exact digitsToReal_fits h
  · exact fpToWord_fits (p := .single) h
  · exact fpToWord_fits (p := .double) h
  · cases h

theorem address_fits {f : String} {op : CastOp} {u : Ty}
    (hop : op = .ptrtoint ∨ op = .inttoptr ∧ R.addresses) (hc : Ty.canConvert op u t = true)
    (hx : R.Fits s u x) (h : op.address f t x = .ok v) : R.Fits s t v := by
  unfold CastOp.address at h
  split at h
  · rename_i n hn
    split at h
    · cases h; exact Regime.wrap_fits _ n
    · rename_i hnot
      cases h
      obtain rfl | ⟨rfl, ha⟩ := hop
      · obtain ⟨_, _, hgoes, hu, ht, hl⟩ := Ty.of_canConvert hc nofun
        cases hgoes
        rcases Ty.of_lanes_eq hu ht hl with ⟨rfl, rfl⟩ | ⟨m, rfl, rfl⟩
        · exact absurd rfl (hnot _)
        · -- a vector of pointers becomes a vector of integers
          exact hx
      · obtain ⟨_, _, hgoes, hu, ht, hl⟩ := Ty.of_canConvert hc nofun
        cases hgoes
        rcases Ty.of_lanes_eq hu ht hl with ⟨rfl, rfl⟩ | ⟨m, rfl, rfl⟩
        · obtain ⟨k, rfl, -⟩ := hx
          exact .address ha
        · exact hx
  · cases h

theorem cast_fits {f : String} {op : CastOp} {u : Ty} (hc : Ty.canConvert op u t = true)
    (hp : op = .bitcast → u.scalar.isPointer = false) (ha : op = .inttoptr → R.addresses)
    (hx : R.Fits s u x) (h : op.apply f u t x = .ok v) : R.Fits s t v := by
  cases op with
  | trunc | zext => exact wrapTo_fits h
  | sext =>
      obtain ⟨n, -, hv⟩ := ok_of_bind h
      obtain ⟨w, hw, hv⟩ := ok_of_bind hv
      cases t <;> cases hw
      cases hv
      exact Regime.wrap_fits _ n
  | fptrunc | fpext =>
      obtain ⟨_, _, hgoes, hu, ht, hl⟩ := Ty.of_canConvert hc nofun
      cases hgoes
      exact reshape_fits hl hu ht hx h
  | fptoui | fptosi =>
      obtain ⟨_, _, hgoes, -, ht, -⟩ := Ty.of_canConvert hc nofun
      cases hgoes
      exact integerPart_fits (by rw [Ty.isIntLike, ht]; rfl) h
  | uitofp =>
      obtain ⟨_, _, hgoes, -, ht, -⟩ := Ty.of_canConvert hc nofun
      cases hgoes
      obtain ⟨z, -, hv⟩ := ok_of_bind h
      exact real_fits (by rw [Ty.isFpLike, ht]; rfl) hv
  | sitofp =>
      obtain ⟨_, _, hgoes, -, ht, -⟩ := Ty.of_canConvert hc nofun
      cases hgoes
      obtain ⟨n, -, hv⟩ := ok_of_bind h
      obtain ⟨z, -, hv⟩ := ok_of_bind hv
      exact real_fits (by rw [Ty.isFpLike, ht]; rfl) hv
  | bitcast => exact reinterpret_fits hc (hp rfl) hx h
  | ptrtoint => exact address_fits (.inl rfl) hc hx h
  | inttoptr => exact address_fits (.inr ⟨rfl, ha rfl⟩) hc hx h
  | addrspacecast => cases h

/-! ### All of them -/

/-- What a typed operation gives, on values that fit the types of its operands, fits its type. -/
theorem result_fits {f : Function} {op : Op} {vs : List Value} (ht : op.Typed f t)
    (hp : op.castsPointer = false) (ha : op.makesAddress = true → R.addresses)
    (hvs : List.Forall₂ (fun o v => R.Fits s (Operand.type o) v) op.operands vs)
    (h : result f t op vs = .ok v) : R.Fits s t v := by
  cases op with
  | int op a b =>
      rcases hvs with _ | ⟨-, _ | ⟨-, _ | _⟩⟩
      exact integerOp_fits h
  | fp op a b =>
      obtain ⟨rfl, hb, hfp⟩ := ht
      rcases hvs with _ | ⟨hx, _ | ⟨hy, _ | _⟩⟩
      exact fp_fits hfp hx (hb ▸ hy) h
  | fneg a =>
      obtain ⟨rfl, hfp⟩ := ht
      rcases hvs with _ | ⟨hx, _ | _⟩
      exact fneg_fits hfp hx h
  | icmp p a b =>
      obtain ⟨rfl, -, -⟩ := ht
      rcases hvs with _ | ⟨-, _ | ⟨-, _ | _⟩⟩
      exact icmp_fits h
  | fcmp p a b =>
      obtain ⟨rfl, -⟩ := ht
      rcases hvs with _ | ⟨-, _ | ⟨-, _ | _⟩⟩
      exact fcmp_fits h
  | cast op a =>
      obtain ⟨hc, -⟩ := ht
      rcases hvs with _ | ⟨hx, _ | _⟩
      refine cast_fits hc (fun hop => ?_) (fun hop => ha ?_) hx h
      · subst hop; exact hp
      · subst hop; rfl
  | _ => unfold result at h; cases h

end

end Interpreted

end Ssa

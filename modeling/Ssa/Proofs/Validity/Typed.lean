/-
# `Ssa.Proofs.Validity.Typed` — the rules by which operations are typed

The builder looks at few types and the assembly reader forgets what pointers point to, so neither
states the typing rules of the operations.  `OpOver.Typed` does: one rule for each operation, over
the types that the operands say they have.  What a conversion goes from and to is listed once, by the
scalars (`CastOp.Converts`), so that what is proved of conversions goes by the cases of the list.
-/
import Ssa.Validity.Flow

namespace Ssa

/-- The operands of an operation, those of a phi included. -/
def OpOver.values (op : Op) : List Operand :=
  match op with
  | .phi incoming => incoming.map Prod.fst
  | op => op.operands

theorem OpOver.mem_values {op : Op} {o : Operand} (h : o ∈ op.operands) : o ∈ op.values := by
  cases op with
  | phi => cases h
  | _ => exact h

/-- An operand refers to something that is there, and says its type. -/
def Operand.IsKnown (m : Module) (f : Function) : Operand → Prop
  | .const _ => True
  | .local id t => (f.locals[id]?).map Local.type = some t
  | .global i t => (m.symbols[i]?).map Symbol.type = some t

/-- For each parameter there is an argument of its type. -/
def argumentsTyped (params : List Ty) (args : List Operand) : Prop :=
  ∀ (k : Nat) (t : Ty), params[k]? = some t → ∃ a, args[k]? = some a ∧ a.type = t

/-- The rule for an operation of a function that gives a value of a type.  There is none for a call
that may unwind, which has no place to unwind to. -/
def OpOver.Typed (f : Function) (t : Ty) : Op → Prop
  | .int _ a b => a.type = t ∧ b.type = t ∧ t.isIntLike = true ∧ t ≠ .int 0
  | .fp _ a b => a.type = t ∧ b.type = t ∧ t.isFpLike = true
  | .fneg a => a.type = t ∧ t.isFpLike = true
  | .icmp _ a _ =>
    t = a.type.truth ∧ (a.type.isIntLike || a.type.scalar.isPointer) = true ∧ a.type ≠ .int 0
  | .fcmp _ a _ => t = a.type.truth ∧ a.type.isFpLike = true
  | .cast op a => Ty.canConvert op a.type t = true ∧ a.type ≠ .int 0
  | .select _ a b => a.type = t ∧ b.type = t
  | .phi incoming => ∀ e ∈ incoming, e.1.type = t
  | .alloca u _ => t = .pointer u 0
  | .load p => ∃ space, p.type = .pointer t space
  | .store v p => t = .void ∧ ∃ space, p.type = .pointer v.type space
  | .call callee args => ∃ params variadic space,
      callee.type = .pointer (.function t params variadic) space ∧ argumentsTyped params args
  | .invoke .. => False
  | .ret none => f.result = .void
  | .ret (some v) => v.type = f.result
  | _ => True

/-- Whether an operation takes a pointer of one type for one of another. -/
def OpOver.castsPointer : Op → Bool
  | .cast .bitcast a => a.type.scalar.isPointer
  | _ => false

/-- Whether an operation takes an integer for a pointer. -/
def OpOver.makesAddress : Op → Bool
  | .cast .inttoptr _ => true
  | _ => false

/-! ## Conversions -/

/-- The scalars between which a conversion goes that is no bitcast. -/
inductive CastOp.Converts : CastOp → Ty → Ty → Prop
  | trunc {v w : Nat} : w < v → Converts .trunc (.int v) (.int w)
  | zext {v w : Nat} : v < w → Converts .zext (.int v) (.int w)
  | sext {v w : Nat} : v < w → Converts .sext (.int v) (.int w)
  | fptrunc {p q : Precision} : q.width < p.width → Converts .fptrunc (.fp p) (.fp q)
  | fpext {p q : Precision} : p.width < q.width → Converts .fpext (.fp p) (.fp q)
  | fptoui {p : Precision} {w : Nat} : Converts .fptoui (.fp p) (.int w)
  | fptosi {p : Precision} {w : Nat} : Converts .fptosi (.fp p) (.int w)
  | uitofp {v : Nat} {q : Precision} : Converts .uitofp (.int v) (.fp q)
  | sitofp {v : Nat} {q : Precision} : Converts .sitofp (.int v) (.fp q)
  | ptrtoint {t : Ty} {space w : Nat} : Converts .ptrtoint (.pointer t space) (.int w)
  | inttoptr {v : Nat} {t : Ty} {space : Nat} : Converts .inttoptr (.int v) (.pointer t space)
  | addrspacecast {t u : Ty} {space space' : Nat} : space ≠ space' →
      Converts .addrspacecast (.pointer t space) (.pointer u space')

namespace Ty

/-- A conversion that is no bitcast goes from one scalar to another, or between as many of them. -/
theorem of_canConvert {op : CastOp} {u t : Ty} (h : canConvert op u t = true) (hop : op ≠ .bitcast) :
    ∃ a b, op.Converts a b ∧ u.scalar = a ∧ t.scalar = b ∧ u.lanes? = t.lanes? := by
  unfold canConvert at h
  cases op with
  | bitcast => exact absurd rfl hop
  | trunc | zext | sext | fptrunc | fpext | addrspacecast =>
      split at h <;> try contradiction
      rename_i hu ht
      obtain ⟨hl, hw⟩ : u.lanes? = t.lanes? ∧ _ := by simpa using h
      exact ⟨_, _, by constructor; exact hw, hu, ht, hl⟩
  | fptoui | fptosi | uitofp | sitofp | ptrtoint | inttoptr =>
      split at h <;> try contradiction
      rename_i hu ht
      exact ⟨_, _, by constructor, hu, ht, by simpa using h⟩

/-- Two types of as many lanes are both scalars, or both vectors. -/
theorem of_lanes_eq {t u a b : Ty} (hu : u.scalar = a) (ht : t.scalar = b) (hl : u.lanes? = t.lanes?) :
    (u = a ∧ t = b) ∨ ∃ n, u = .vector n a ∧ t = .vector n b := by
  subst hu ht
  cases u with
  | vector n e =>
      cases t with
      | vector k e' =>
          cases (Option.some.inj hl : n = k)
          exact .inr ⟨n, rfl, rfl⟩
      | _ => cases hl
  | _ =>
      cases t with
      | vector => cases hl
      | _ => exact .inl ⟨rfl, rfl⟩

end Ty

end Ssa

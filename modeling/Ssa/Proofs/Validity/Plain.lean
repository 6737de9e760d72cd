/-
# `Ssa.Proofs.Validity.Plain` — programs of integers and pointers

The plain types are those of integers, of pointers to them, of pointers to these, and so on.  A
plain module computes with nothing else, by operations that the interpreter has rules for, and
neither makes integers into pointers nor takes a pointer of one type for one of another.

**Proved here.**

    the constants of a plain instruction that can be read can be computed with      (`const_isPlain`)
    a plain constant has a value                                                    (`constant_of_isPlain`)
-/
import Ssa.Proofs.Validity.Checked

namespace Ssa

/-- Whether a type is one of integers, or of pointers to plain types. -/
def Ty.isPlain : Ty → Bool
  | .int _ => true
  | .pointer t _ => t.isPlain
  | _ => false

/-- Whether a constant is an integer of an integer type, null, or undefined. -/
def Constant.isPlain : Constant → Bool
  | .int t _ | .truth t _ => t.isInt
  | .null _ | .undef _ => true
  | _ => false

/-- Whether an operation is one on integers, cells or control that the interpreter has a rule for.
What is compared is of one type, and functions are called by name. -/
def OpOver.isPlain : Op → Bool
  | .icmp _ a b => b.type == a.type
  | .cast .trunc _ | .cast .zext _ | .cast .sext _ => true
  | .cast .bitcast a => a.type.isInt
  | .alloca t _ => t.isPlain
  | .call (.global ..) _ => true
  | .int .. | .select .. | .phi _ | .load _ | .store .. | .br _ | .condBr .. | .switch .. | .ret _
  | .unreachable => true
  | _ => false

/-- Whether an instruction does what is plain, with what is of plain types. -/
def Instr.isPlain (i : Instr) : Bool :=
  (i.type.isPlain || i.type == .void) && i.readOperands.all (·.type.isPlain) && i.op.isPlain

/-- Whether a function takes and returns what is of plain types. -/
def Function.isPlain (f : Function) : Bool :=
  f.params.all Ty.isPlain && (f.result.isPlain || f.result == .void)

/-- Whether a global variable is of a plain type, and begins with what is plain. -/
def Variable.isPlain (v : Variable) : Bool :=
  v.type.isPlain && v.init.all fun o => match o with
    | .const c => c.isPlain
    | _ => false

/-- Whether there is nothing in a module but what is plain. -/
def Module.isPlain (m : Module) : Bool :=
  m.everyInstr (fun _ i => i.isPlain) && m.everyVariable Variable.isPlain &&
    m.symbols.all fun s => match s with
      | .function f => f.isPlain
      | .variable _ => true

/-! ## What is plain is computed with -/

theorem Constant.isPlain_of_readsAt {types : TypeTable} {c : Constant}
    (ht : c.type.isPlain = true) (h : c.readsAt types c.type = true) : c.isPlain = true := by
  cases c with
  | null | undef => rfl
  | int t | truth t | real t | aggregate t =>
      cases t <;> simp_all [Constant.type, Ty.isPlain, Constant.isPlain, readsAt, Ty.isInt, Ty.places]

/-- A plain constant of the type of its place has a value. -/
theorem Interpreted.constant_of_isPlain (function : String) {c : Constant}
    (h : c.isPlain = true) : ∃ v, constant function c = .ok v := by
  cases c with
  | null t | undef t => exact ⟨_, rfl⟩
  | int t n | truth t b =>
      cases t <;> simp [Constant.isPlain, Ty.isInt] at h
      exact ⟨_, rfl⟩
  | real | aggregate => cases h

theorem Interpreted.initialValue_of_isPlain (function : String) {v : Variable}
    (h : v.isPlain = true) : ∃ x, initialValue function v = .ok x := by
  obtain ⟨-, hinit⟩ := Bool.and_eq_true_iff.mp h
  unfold initialValue
  cases hi : v.init with
  | none => exact ⟨_, rfl⟩
  | some o =>
      rw [hi] at hinit
      cases o with
      | const c => exact constant_of_isPlain function hinit
      | _ => cases hinit

namespace Instr

variable {types : TypeTable} {m : Module} {f : Function} {i : Instr}

/-- What a plain instruction uses can be read at its own type, functions that are called apart. -/
theorem reads_of_isPlain (h : i.isPlain = true) (hi : i.IsTyped m f)
    (hr : i.reads types m f = true) {o : Operand} (ho : o ∈ i.op.values) :
    (∃ k t, o = .global k t) ∨ o.type.isPlain = true ∧ o.reads types m f = true := by
  have hrule := hi.rule
  obtain ⟨id, t, op⟩ := i
  simp only [isPlain, readOperands, Bool.and_eq_true, List.all_eq_true] at h
  obtain ⟨⟨-, hall⟩, hop⟩ := h
  cases op with
  | int op a b =>
      obtain ⟨ha, hb, -, -⟩ : a.type = t ∧ b.type = t ∧ _ := hrule
      simp only [reads, Bool.and_eq_true] at hr
      refine .inr ⟨hall o ho, ?_⟩
      rcases List.mem_pair.mp ho with rfl | rfl
      · exact hr.1.2
      · rw [Operand.reads, hb, ← ha]
        exact hr.2
  | icmp p a b =>
      have hab : b.type = a.type := eq_of_beq hop
      simp only [reads, Bool.and_eq_true] at hr
      refine .inr ⟨hall o ho, ?_⟩
      rcases List.mem_pair.mp ho with rfl | rfl
      · exact hr.1.2
      · rw [Operand.reads, hab]
        exact hr.2
  | phi incoming =>
      simp only [reads, Bool.and_eq_true, List.all_eq_true] at hr
      refine .inr ⟨hall o ho, ?_⟩
      obtain ⟨e, he, rfl⟩ := List.mem_map.mp ho
      rw [Operand.reads, show e.1.type = t from hrule e he]
      exact (hr.2 e he).2
  | call callee args =>
      simp only [reads, callReads] at hr
      rcases List.mem_cons.mp ho with rfl | ho
      · cases o <;> first | exact .inl ⟨_, _, rfl⟩ | cases hop
      · split at hr
        · simp only [Bool.and_eq_true, List.all_eq_true] at hr
          exact .inr ⟨hall o ho, (hr.1.1.1 o ho).1⟩
        · cases hr
  | switch v d cs =>
      simp only [reads, Bool.and_eq_true, List.all_eq_true] at hr
      refine .inr ⟨hall o ho, ?_⟩
      rcases List.mem_cons.mp ho with rfl | ho
      · exact hr.1.1.1.1
      · obtain ⟨c, hc, rfl⟩ := List.mem_map.mp ho
        exact (hr.1.2 c hc).1
  | alloca u count | ret count =>
      refine .inr ⟨hall o ho, ?_⟩
      cases count with
      | none => cases ho
      | some n =>
          cases List.mem_singleton.mp ho
          simp only [reads, Option.all_some, Bool.and_eq_true] at hr
          grind
  | cast | select | load | store | condBr =>
      refine .inr ⟨hall o ho, ?_⟩
      simp only [OpOver.values, OpOver.operands, List.mem_cons, List.not_mem_nil, or_false] at ho
      simp only [reads, Bool.and_eq_true] at hr
      grind
  | br | unreachable => cases ho
  | _ => cases hop

/-- The constants that a plain instruction uses are plain. -/
theorem const_isPlain (h : i.isPlain = true) (hi : i.IsTyped m f) (hr : i.reads types m f = true)
    {c : Constant} (hc : Operand.const c ∈ i.op.values) : c.isPlain = true := by
  rcases reads_of_isPlain h hi hr hc with ⟨k, t, hglobal⟩ | ⟨ht, hread⟩
  · cases hglobal
  · simp only [Operand.reads, Operand.readsAt, Bool.and_eq_true] at hread
    exact Constant.isPlain_of_readsAt ht hread.2

theorem not_comment_of_isPlain (h : i.isPlain = true) : i.op.isComment = false := by
  obtain ⟨id, t, op⟩ := i
  cases op <;> simp_all [isPlain, OpOver.isPlain, OpOver.isComment]

theorem keeps_of_isPlain (h : i.isPlain = true) :
    i.op.castsPointer = false ∧ i.op.makesAddress = false := by
  obtain ⟨id, t, op⟩ := i
  have hop := (Bool.and_eq_true_iff.mp h).2
  cases op with
  | cast c a =>
      cases c with
      | bitcast =>
          refine ⟨?_, rfl⟩
          dsimp only [OpOver.isPlain] at hop
          show a.type.scalar.isPointer = false
          cases ht : a.type <;> rw [ht] at hop <;> first | rfl | cases hop
      | inttoptr => cases hop
      | _ => exact ⟨rfl, rfl⟩
  | _ => exact ⟨rfl, rfl⟩

end Instr

end Ssa

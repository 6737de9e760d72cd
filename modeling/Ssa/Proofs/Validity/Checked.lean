/-
# `Ssa.Proofs.Validity.Checked` — what the check leaves open, and what it does not

The assembly reader does not compare pointees, and reads a constant that comes without its type at
the type of its place.  The builder sees to most of what the reader forgets, but not to all: the
entries of a phi, the operand of a return, and an initializer that was set after the line of its
variable was fixed may be of another type than their place.  `Module.isMatched` asks for just that.

**Proved here.**

    built, judged and matched, without casts of pointers  ⟹  typed        (`Module.isTyped_of_accepted`)
-/
import Ssa.Proofs.Program.Built
import Ssa.Proofs.Validity.Accepted
import Ssa.Proofs.Exec.Preserved

namespace Ssa

/-- Whether what enters a phi has the phi's type, and what is returned the type of the result. -/
def Instr.isMatched (f : Function) (i : Instr) : Bool :=
  match i.op with
  | .phi incoming => incoming.all fun e => e.1.type == i.type
  | .ret (some v) => v.type == f.result
  | _ => true

namespace Module

/-- Whether something holds of every instruction of the functions of a module. -/
def everyInstr (m : Module) (P : Function → Instr → Bool) : Bool :=
  m.symbols.all fun s => match s with
    | .function f => f.blocks.all fun b => b.instrs.all (P f)
    | .variable _ => true

/-- Whether something holds of every global variable of a module. -/
def everyVariable (m : Module) (P : Variable → Bool) : Bool :=
  m.symbols.all fun s => match s with
    | .function _ => true
    | .variable v => P v

/-- Whether all that comes to a place without a check of its type has the type of the place. -/
def isMatched (m : Module) : Bool :=
  m.everyInstr (fun f i => i.isMatched f) &&
    m.everyVariable fun v => v.init.all fun o => o.type == v.type

/-- Whether no instruction of a module takes a pointer of one type for one of another. -/
def keepsPointers (m : Module) : Bool := m.everyInstr fun _ i => !i.op.castsPointer

variable {m : Module}

theorem of_everyInstr {P : Function → Instr → Bool} {k b : Nat} {f : Function} {i : Instr}
    (h : m.everyInstr P = true) (hf : m.function? k = some f) (hi : i ∈ f.instrs b) :
    P f i = true := by
  obtain ⟨block, hb, hi⟩ := Function.mem_instrs hi
  have hsym := (Array.all_eq_true_iff_forall_mem.mp h) _
    (Array.mem_of_getElem? (symbol_of_function? hf))
  have hblock := (Array.all_eq_true_iff_forall_mem.mp hsym) block (Array.mem_of_getElem? hb)
  exact List.all_eq_true.mp hblock i hi

theorem everyInstr_mono {P Q : Function → Instr → Bool} (hPQ : ∀ f i, P f i = true → Q f i = true)
    (h : m.everyInstr P = true) : m.everyInstr Q = true := by
  refine Array.all_eq_true_iff_forall_mem.mpr fun s hs => ?_
  have hsym := Array.all_eq_true_iff_forall_mem.mp h s hs
  cases s with
  | «variable» => rfl
  | function f =>
      refine Array.all_eq_true_iff_forall_mem.mpr fun b hb => List.all_eq_true.mpr fun i hi => ?_
      have hblock := Array.all_eq_true_iff_forall_mem.mp hsym b hb
      exact hPQ f i (List.all_eq_true.mp hblock i hi)

theorem of_everyVariable {P : Variable → Bool} {k : Nat} {v : Variable}
    (h : m.everyVariable P = true) (hv : m.variableAt? k = some v) : P v = true :=
  (Array.all_eq_true_iff_forall_mem.mp h) _ (Array.mem_of_getElem? (symbol_of_variableAt? hv))

end Module

/-! ## From the answers of the builder -/

theorem ne_int_zero_of_wellFormed (types : TypeTable) {t : Ty}
    (h : t.isWellFormed types = true) : t ≠ .int 0 := by
  rintro rfl
  simp [Ty.isWellFormed] at h

/-- An operand that can be read is not of the type of no digits. -/
theorem Operand.type_ne_of_reads {types : TypeTable} {m : Module} {f : Function} {o : Operand}
    (h : o.reads types m f = true) : o.type ≠ .int 0 := by
  apply ne_int_zero_of_wellFormed types
  cases o <;> simp [Operand.reads, Operand.readsAt] at h <;> exact h.1

theorem argumentsTyped_of_check {params : List Ty} {args : List Operand}
    (h : checkArguments params args = .ok ()) : argumentsTyped params args := by
  induction params generalizing args with
  | nil => intro k t hk; cases hk
  | cons p ps ih =>
      cases args with
      | nil => cases h
      | cons a as =>
          rw [checkArguments] at h
          split at h
          · intro k t hk
            cases k with
            | zero => cases hk; exact ⟨a, rfl, ‹_›⟩
            | succ k => exact ih h k t hk
          · cases h

theorem sharedType_eq_ok {a b : Operand} {t : Ty} (h : sharedType a b = .ok t) :
    a.type = t ∧ b.type = t := by
  unfold sharedType at h
  split at h
  · cases h; exact ⟨rfl, Eq.symm ‹_›⟩
  · cases h

theorem accessType_eq_ok {a : Operand} {t : Ty} (h : accessType a = .ok t) :
    ∃ space, a.type = .pointer t space := by
  unfold accessType at h
  split at h
  · cases h; exact ⟨_, ‹_›⟩
  · cases h

theorem checkStore_eq_ok {v a : Operand} {t : Ty} (h : checkStore v a = .ok t) :
    t = .void ∧ ∃ space, a.type = .pointer v.type space := by
  obtain ⟨u, hu, h⟩ := ok_of_bind h
  obtain ⟨space, hspace⟩ := accessType_eq_ok hu
  split at h
  · rename_i heq
    cases h
    exact ⟨rfl, space, heq ▸ hspace⟩
  · cases h

theorem pointerTo_eq_ok {u t : Ty} {space : Nat} (h : pointerTo u space = .ok t) :
    t = .pointer u space := by
  unfold pointerTo at h
  split at h
  · cases h
  · cases h; rfl

/-- A call that the builder lets pass, of what can be called, is typed. -/
theorem callType_eq_ok {callee : Operand} {args : List Operand} {t r : Ty} {ps : List Ty}
    {variadic : Bool} {space : Nat} (hc : callee.type = .pointer (.function r ps variadic) space)
    (h : callType callee args = .ok t) : t = r ∧ argumentsTyped ps args := by
  obtain ⟨u, hu, h⟩ := ok_of_bind h
  have hu' : u = .function r ps variadic := by
    cases callee with
    | const c => cases hu
    | «local» id t' | global i t' =>
        cases (show t' = _ from hc)
        cases hu
        rfl
  subst hu'
  obtain ⟨_, hcheck, h⟩ := ok_of_bind h
  cases h
  exact ⟨rfl, argumentsTyped_of_check hcheck⟩

/-- What is built, judged and matched is typed, unless it casts a pointer. -/
theorem Instr.isTyped_of {types : TypeTable} {m : Module} {f : Function} {i : Instr}
    (hb : i.IsBuilt m f) (hr : i.reads types m f = true) (hv : i.isVerified m = true)
    (hm : i.isMatched f = true) (hp : i.op.castsPointer = false) : i.IsTyped m f := by
  refine ⟨hb.bound, hb.known, ?_, hp⟩
  obtain ⟨table, asked, htype⟩ := hb.asked
  obtain ⟨id, t, op⟩ := i
  dsimp only at htype ⊢
  cases op with
  | int op a b =>
      obtain ⟨ha, hb⟩ := sharedType_eq_ok htype
      simp only [reads, Bool.and_eq_true] at hr
      exact ⟨ha, hb, ha ▸ hr.1.1, ha ▸ Operand.type_ne_of_reads hr.1.2⟩
  | fp op a b =>
      obtain ⟨ha, hb⟩ := sharedType_eq_ok htype
      simp only [reads, Bool.and_eq_true] at hr
      exact ⟨ha, hb, ha ▸ hr.1.1⟩
  | fneg a =>
      cases htype
      simp only [reads, Bool.and_eq_true] at hr
      exact ⟨rfl, hr.1⟩
  | icmp p a b =>
      cases htype
      simp only [reads, Bool.and_eq_true] at hr
      exact ⟨rfl, hr.1.1, Operand.type_ne_of_reads hr.1.2⟩
  | fcmp p a b =>
      cases htype
      simp only [reads, Bool.and_eq_true] at hr
      exact ⟨rfl, hr.1.1⟩
  | cast op a =>
      simp only [reads, Bool.and_eq_true] at hr
      exact ⟨hr.2, Operand.type_ne_of_reads hr.1.2⟩
  | select c a b =>
      simp only [OpOver.typeOf] at htype
      split at htype
      · cases htype; exact ⟨rfl, Eq.symm ‹_›⟩
      · cases htype
  | phi incoming =>
      intro e he
      simpa using List.all_eq_true.mp hm e he
  | alloca u count =>
      cases count with
      | none => exact pointerTo_eq_ok htype
      | some n =>
          simp only [OpOver.typeOf] at htype
          split at htype
          · exact pointerTo_eq_ok htype
          · cases htype
  | load a => exact accessType_eq_ok htype
  | store v a => exact checkStore_eq_ok htype
  | call callee args =>
      simp only [reads, callReads] at hr
      split at hr
      · rename_i r ps variadic space hc
        obtain ⟨rfl, hargs⟩ := callType_eq_ok hc htype
        exact ⟨ps, variadic, space, hc, hargs⟩
      · cases hr
  | ret v =>
      cases v with
      | none =>
          simp only [reads] at hr
          exact eq_of_beq hr
      | some v => exact eq_of_beq hm
  | invoke => simp [isVerified] at hv
  | _ => trivial

namespace Module

variable {types : TypeTable} {m : Module}

theorem initializersFit_of_isMatched (h : m.isMatched = true) : m.InitializersFit := by
  intro k v c hv hc
  have hinit := of_everyVariable (Bool.and_eq_true_iff.mp h).2 hv
  simpa [hc, Operand.type] using hinit

/-- A module that the builder made, that was judged, and in which everything is matched, is typed,
unless it casts pointers. -/
theorem isTyped_of_accepted (hb : m.IsBuilt) (h : m.Accepted types) (hm : m.isMatched = true)
    (hp : m.keepsPointers = true) : m.IsTyped where
  params k f hf := (hb k f hf).params
  instrs k f hf b i hi := Instr.isTyped_of ((hb k f hf).instrs b i hi) (h.instr_reads hf hi)
    (h.instr_verified hf hi) (of_everyInstr (Bool.and_eq_true_iff.mp hm).1 hf hi)
    (by simpa using of_everyInstr hp hf hi)
  initializers := initializersFit_of_isMatched hm

end Module

end Ssa

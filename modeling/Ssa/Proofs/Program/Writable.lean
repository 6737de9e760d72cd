/-
# `Ssa.Proofs.Program.Writable` — which programs have a text

A program has a text unless it holds a constant that has none, or a variable is to be written with an
initializer of another type than its own.  A constant has no text if it is an integer without a double
at a type of floating point, a number beyond the range of the narrowest precision, a number at a type
of many places, or a list at a type of floating point.

**Proved here.**

    a constant has a text  ⟺  it is none of those                 (`Constant.reference_writes`)
    a module has a text  ⟺  all its constants and lines have one    (`Module.text_writes`)
    what writing fails for is never that a check was not passed      (`Failure.not_isVerification`)
-/
import Ssa.Program.Render
import Ssa.Proofs.Validity.Typed

namespace Ssa

/-! ## Outcomes of writing -/

/-- Whether a cause is one for which something has no text. -/
def Failure.isUnwritable : Failure → Bool
  | .integerTooLarge | .notAWord | .outOfRange | .typeMismatch => true
  | _ => false

/-- What has no text did not fail a check. -/
theorem Failure.not_isVerification {f : Failure} (h : f.isUnwritable = true) :
    f.isVerification = false := by
  unfold isUnwritable at h
  split at h <;> first | rfl | contradiction

/-- Writing succeeds exactly under a condition, and otherwise fails because something has no text. -/
structure Writes {α : Type} (x : Except Failure α) (P : Prop) : Prop where
  ok : ∀ a, x = .ok a → P
  error : ∀ e, x = .error e → e.isUnwritable = true ∧ ¬ P

namespace Writes

variable {α β : Type} {x : Except Failure α} {P Q : Prop}

theorem pure (a : α) : Writes (Pure.pure a) True := ⟨fun _ _ => trivial, nofun⟩

/-- What is written comes to a text under any condition that holds. -/
theorem holds {a : α} (h : x = .ok a) (hP : P) : Writes x P :=
  ⟨fun _ _ => hP, fun e he => by rw [h] at he; cases he⟩

theorem fails {e : Failure} (he : e.isUnwritable = true) :
    Writes (.error e : Except Failure α) False :=
  ⟨nofun, fun e' h => by cases h; exact ⟨he, id⟩⟩

theorem iff (h : Writes x P) (hPQ : P ↔ Q) : Writes x Q :=
  ⟨fun a ha => hPQ.mp (h.ok a ha), fun e he => ⟨(h.error e he).1, mt hPQ.mpr (h.error e he).2⟩⟩

theorem map (h : Writes x P) (f : α → β) : Writes (x.map f) P := by
  cases x with
  | ok a => exact ⟨fun _ _ => h.ok a rfl, nofun⟩
  | error e => exact ⟨nofun, fun e' he => by cases he; exact h.error e rfl⟩

theorem bind {f : α → Except Failure β} (hx : Writes x P) (hf : ∀ a, Writes (f a) Q) :
    Writes (x >>= f) (P ∧ Q) := by
  cases x with
  | ok a =>
      exact ⟨fun b hb => ⟨hx.ok a rfl, (hf a).ok b hb⟩,
        fun e he => ⟨((hf a).error e he).1, fun h => ((hf a).error e he).2 h.2⟩⟩
  | error e =>
      exact ⟨nofun, fun e' he => by
        cases he
        exact ⟨(hx.error e rfl).1, fun h => (hx.error e rfl).2 h.1⟩⟩

/-- Writing and then putting the text in its place. -/
theorem andThen {f : α → β} (h : Writes x P) : Writes (x >>= fun a => Pure.pure (f a)) P :=
  (h.bind fun a => .pure (f a)).iff (and_iff_left trivial)

theorem mapM {F : α → Except Failure β} {T : α → Prop} (hF : ∀ a, Writes (F a) (T a))
    (as : List α) : Writes (as.mapM F) (∀ a ∈ as, T a) := by
  induction as with
  | nil => exact (pure []).iff (iff_of_true trivial nofun)
  | cons a as ih =>
      rw [List.mapM_cons]
      exact ((hF a).bind fun b => ih.andThen).iff List.forall_mem_cons.symm

end Writes

/-! ## Constants -/

namespace Constant

mutual

/-- Whether a constant has a text. -/
def isWritable : Constant → Bool
  | .null _ | .undef _ => true
  | .int t v => match t with
    | .fp _ => (doubleOfInt v).isOk
    | t => !t.hasPlaces
  | .truth t _ => !t.hasPlaces
  | .real t x => match t with
    | .fp p => !(p = .half && x.isFinite && (p.format.convert x).isInfinite)
    | t => !t.hasPlaces
  | .aggregate t cs => if t.hasPlaces then areWritable cs else !t.isFp

/-- Whether each of a list of constants has a text. -/
def areWritable : List Constant → Bool
  | [] => true
  | c :: cs => c.isWritable && areWritable cs

end

theorem isWritable_int {t : Ty} (h : ∀ p, t ≠ .fp p) (v : Int) :
    (int t v).isWritable = !t.hasPlaces := by
  unfold isWritable
  cases t with
  | fp p => exact (h p rfl).elim
  | _ => rfl

theorem isWritable_real {t : Ty} (h : ∀ p, t ≠ .fp p) (x : Fp) :
    (real t x).isWritable = !t.hasPlaces := by
  unfold isWritable
  cases t with
  | fp p => exact (h p rfl).elim
  | _ => rfl

theorem intText_writes (p : Precision) (v : Int) :
    Writes (intText p v) ((doubleOfInt v).isOk = true) := by
  refine Writes.map ?_ _
  have hdouble : Writes (doubleOfInt v) ((doubleOfInt v).isOk = true) := by
    cases h : doubleOfInt v with
    | ok x => exact .holds rfl rfl
    | error e =>
        unfold doubleOfInt at h
        split at h
        · cases h
          exact (Writes.fails rfl).iff (by simp [Except.isOk, Except.toBool])
        · cases h
  unfold fpOfInt
  cases h : doubleOfInt v with
  | ok x => cases p <;> exact .holds rfl rfl
  | error e =>
      rw [h] at hdouble
      cases p with
      | double => exact hdouble
      | half | single => exact (Writes.fails rfl).iff (by simp [Except.isOk, Except.toBool])

theorem misplacedNumber_writes (shown : String) (t : Ty) :
    Writes (misplacedNumber shown t) ((!t.hasPlaces) = true) := by
  cases t with
  | array | vector | struct | named => exact (Writes.fails rfl).iff (by simp [Ty.hasPlaces])
  | _ => exact .holds rfl rfl

theorem misplacedList_writes (t : Ty) : Writes (misplacedList t) ((!t.isFp) = true) := by
  cases t with
  | fp p => cases p <;> exact (Writes.fails rfl).iff (by simp [Ty.isFp])
  | _ => exact .holds rfl rfl

theorem realText_writes (p : Precision) (x : Fp) : Writes (realText p x)
    ((!(p = .half && x.isFinite && (p.format.convert x).isInfinite)) = true) := by
  unfold realText
  dsimp only
  split
  · rename_i h
    exact (Writes.fails rfl).iff (by simp only [h]; decide)
  · rename_i h
    exact .holds rfl (by simp only [Bool.not_eq_true _ ▸ h]; rfl)

theorem truth_writes (p : Precision) (b : Bool) : Writes (intText p (if b then 1 else 0)) True := by
  refine (intText_writes p _).iff (iff_of_true ?_ trivial)
  cases b with
  | false =>
      show (doubleOfInt 0).isOk = true
      decide +kernel
  | true =>
      show (doubleOfInt 1).isOk = true
      decide +kernel

mutual

/-- A constant has a text exactly if it is writable. -/
theorem reference_writes (c : Constant) : Writes c.reference (c.isWritable = true) := by
  cases c with
  | null t | undef t => exact (Writes.pure _).iff (iff_of_true trivial rfl)
  | int t v =>
      unfold reference
      split
      · unfold isWritable
        exact intText_writes _ v
      · rename_i hfp
        rw [isWritable_int hfp]
        exact misplacedNumber_writes _ _
  | truth t b =>
      unfold reference
      split
      · exact (Writes.pure _).iff (iff_of_true trivial rfl)
      · exact (truth_writes _ b).iff (iff_of_true trivial rfl)
      · exact misplacedNumber_writes _ _
  | real t x =>
      unfold reference
      split
      · unfold isWritable
        exact realText_writes _ x
      · rename_i hfp
        rw [isWritable_real hfp]
        exact misplacedNumber_writes _ _
  | aggregate t cs =>
      unfold reference isWritable
      split
      · exact (typedReferences_writes cs).andThen
      · exact misplacedList_writes t

theorem typedReferences_writes (cs : List Constant) :
    Writes (typedReferences cs) (areWritable cs = true) := by
  cases cs with
  | nil => exact (Writes.pure _).iff (iff_of_true trivial rfl)
  | cons c cs =>
      exact ((reference_writes c).bind fun _ => (typedReferences_writes cs).andThen).iff
        Bool.and_eq_true_iff.symm

end

end Constant

/-! ## Instructions -/

/-- Whether an operand has a text. -/
def Operand.isWritable : Operand → Bool
  | .const c => c.isWritable
  | _ => true

section

variable {m : Module} {f : Function}

theorem Operand.reference_writes (o : Operand) : Writes (o.reference m f) (o.isWritable = true) := by
  cases o with
  | const c => exact c.reference_writes
  | _ => exact (Writes.pure _).iff (iff_of_true trivial rfl)

theorem Operand.typed_writes (o : Operand) : Writes (o.typed m f) (o.isWritable = true) :=
  o.reference_writes.map _

theorem typedList_writes (os : List Operand) :
    Writes (typedList m f os) (∀ o ∈ os, o.isWritable = true) :=
  (Writes.mapM (fun o => o.typed_writes) os).map _

theorem callText_writes (callee : Operand) (args : List Operand) :
    Writes (callText m f callee args) (∀ o ∈ callee :: args, o.isWritable = true) := by
  refine ((typedList_writes args).bind fun _ => callee.reference_writes.andThen).iff ?_
  rw [List.forall_mem_cons, and_comm]

/-- An operation has a text exactly if all that it uses has one. -/
theorem OpOver.render_writes (t : Ty) (op : Op) :
    Writes (op.render m f t) (∀ o ∈ op.values, o.isWritable = true) := by
  unfold render
  cases op with
  | int op a b | fp op a b | icmp p a b | fcmp p a b =>
      refine (a.typed_writes.bind fun _ => b.reference_writes.andThen).iff ?_
      simp [values, operands]
  | fneg a | cast _ a | load a | atomicLoad a | extractValue a | condBr a | indirectBr a =>
      refine a.typed_writes.andThen.iff ?_
      simp [values, operands]
  | select c a b =>
      refine (c.typed_writes.bind fun _ => a.typed_writes.bind fun _ =>
        b.typed_writes.andThen).iff ?_
      simp [values, operands]
  | phi incoming =>
      refine (Writes.mapM (T := fun e => e.1.isWritable = true) (fun e => ?_) incoming).andThen.iff ?_
      · exact e.1.reference_writes.andThen
      · simp [values]
  | alloca u count | ret count =>
      cases count with
      | none => exact (Writes.pure _).iff (by simp [values, operands])
      | some n => exact n.typed_writes.andThen.iff (by simp [values, operands])
  | store v a | insertValue v a =>
      refine (v.typed_writes.bind fun _ => a.typed_writes.andThen).iff ?_
      simp [values, operands]
  | call callee args | invoke callee args =>
      exact (callText_writes callee args).andThen
  | switch v d cases =>
      refine ((Writes.mapM (T := fun e => e.1.isWritable = true) (fun e => ?_) cases).bind fun _ =>
        v.typed_writes.andThen).iff ?_
      · exact e.1.typed_writes.andThen
      · simp [values, operands, and_comm]
  | address p is =>
      refine (p.typed_writes.bind fun _ => (typedList_writes is).andThen).iff ?_
      simp [values, operands]
  | extractElement | insertElement | atomicUpdate | atomicStore =>
      exact (typedList_writes _).andThen
  | compareExchange p e v =>
      refine ((typedList_writes [p, e]).bind fun _ => v.reference_writes.andThen).iff ?_
      simp [values, operands, and_assoc]
  | br | unreachable | fence | comment =>
      exact (Writes.pure _).iff (by simp [values, operands])

end

/-! ## Functions and modules -/

/-- Whether an instruction has a text. -/
def Instr.isWritable (i : Instr) : Bool := i.op.values.all Operand.isWritable

/-- Whether a function has a text. -/
def Function.isWritable (f : Function) : Bool := f.blocks.all fun b => b.instrs.all Instr.isWritable

/-- Whether a global variable has a text: what is written as its initializer is of its type. -/
def Variable.isWritable (v : Variable) : Bool :=
  v.textInit.all fun init => decide (init.type = v.type) && init.isWritable

/-- Whether a symbol has a text. -/
def Symbol.isWritable : Symbol → Bool
  | .function f => f.isWritable
  | .variable v => v.isWritable

/-- Whether a module has a text. -/
def Module.isWritable (m : Module) : Bool := m.symbols.all Symbol.isWritable

section

variable (m : Module)

theorem Block.render_writes (f : Function) (b : Block) :
    Writes (b.render m f) ((b.instrs.all Instr.isWritable) = true) := by
  have hinstr (i : Instr) : Writes (i.render m f) (i.isWritable = true) :=
    (OpOver.render_writes i.type i.op).andThen.iff (by simp [Instr.isWritable])
  exact (Writes.mapM hinstr b.instrs).andThen.iff List.all_eq_true.symm

theorem Function.render_writes (f : Function) : Writes (f.render m) (f.isWritable = true) := by
  unfold Function.render
  dsimp only
  split
  · -- a function without blocks has no constants to write
    rename_i hempty
    have hblocks : f.blocks = #[] := by simpa [isDeclaration] using hempty
    exact (Writes.pure _).iff (by simp [isWritable, hblocks])
  · refine (Writes.mapM (Block.render_writes m f) f.blocks.toList).andThen.iff ?_
    rw [isWritable, ← Array.all_toList, List.all_eq_true]

theorem Variable.render_writes (v : Variable) : Writes (v.render m) (v.isWritable = true) := by
  unfold Variable.render isWritable
  cases v.textInit with
  | none => exact (Writes.pure _).iff (iff_of_true trivial rfl)
  | some init =>
      refine Writes.andThen ?_
      unfold initText
      split
      · rename_i htype
        exact init.reference_writes.iff (by simp [htype])
      · rename_i htype
        exact (Writes.fails rfl).iff (by simp [htype])

theorem Symbol.render_writes (s : Symbol) : Writes (s.render m).1 (s.isWritable = true) := by
  cases s with
  | function f => exact f.render_writes m
  | «variable» v =>
      have hv := v.render_writes m
      unfold Symbol.render
      dsimp only
      split
      · rename_i text htext
        exact .holds rfl (hv.ok text htext)
      · rename_i e he
        exact ⟨nofun, fun e' h => by cases h; exact hv.error e he⟩

theorem renderSymbols_writes (ss : List Symbol) :
    Writes (renderSymbols m ss).1 (∀ s ∈ ss, s.isWritable = true) := by
  induction ss with
  | nil => exact (Writes.pure []).iff (iff_of_true trivial nofun)
  | cons s ss ih =>
      have hs := Symbol.render_writes m s
      rw [List.forall_mem_cons]
      unfold renderSymbols
      rcases hr : s.render m with ⟨e | text, t⟩ <;> rw [hr] at hs
      · exact ⟨nofun, fun e' h => by
          cases h
          exact ⟨(hs.error e rfl).1, fun hP => (hs.error e rfl).2 hP.1⟩⟩
      · exact (ih.map _).iff (and_iff_right (hs.ok text rfl)).symm

/-- A module has a text exactly if all that it declares has one. -/
theorem Module.text_writes (types : TypeTable) : Writes (m.text types) (m.isWritable = true) := by
  refine ((renderSymbols_writes m m.symbols.toList).map _).iff ?_
  rw [isWritable, ← Array.all_toList, List.all_eq_true]

end

end Ssa

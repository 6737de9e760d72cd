/-
# `Ssa.Proofs.Validity.Written` — the constants of a program that was written out

A module can be written out only if each of its constants has a text, and a number that has no
double has none at a type of floating point.  What the text says has to be read back, and neither an
infinity nor what is no number can be read where it is shown in decimal.  So the constants that the
instructions of an admitted module use can be brought to their types.  An initializer that was set
after the line of its variable was fixed is not in the text, and may be anything.

**Proved here.**

    an instruction was written out        ⟹  so were its constants            (`OpOver.hasText_of_render`)
    written, and read back at some type    ⟹  within bounds                    (`Constant.isBounded_of_reference`)
    admitted                               ⟹  all constants are within bounds  (`Module.Admitted.isBounded`)
-/
import Ssa.Proofs.Session.Admitted
import Ssa.Proofs.Validity.Available

namespace Ssa

/-! ## Texts of constants -/

/-- Whether an operand has a text, which for a constant is not a matter of course. -/
def Operand.HasText : Operand → Prop
  | .const c => ∃ text, c.reference = .ok text
  | _ => True

namespace Operand

variable {m : Module} {f : Function} {o : Operand} {text : String}

theorem hasText_of_reference (h : o.reference m f = .ok text) : o.HasText := by
  cases o with
  | const c => exact ⟨text, h⟩
  | _ => trivial

theorem hasText_of_typed (h : o.typed m f = .ok text) : o.HasText := by
  obtain ⟨s, hs, -⟩ := ok_of_map h
  exact hasText_of_reference hs

theorem hasText_of_typedList {os : List Operand} (h : typedList m f os = .ok text) :
    ∀ o ∈ os, o.HasText := by
  obtain ⟨texts, htexts, -⟩ := ok_of_map h
  intro o ho
  obtain ⟨s, hs⟩ := ok_of_mapM htexts o ho
  exact hasText_of_typed hs

end Operand

section

variable {m : Module} {f : Function} {text : String}

open Operand in
/-- An operation was written out, and so was whatever it uses. -/
theorem OpOver.hasText_of_render {t : Ty} {op : Op} (h : op.render m f t = .ok text) :
    ∀ o ∈ op.values, o.HasText := by
  intro o ho
  cases op with
  | int op a b | fp op a b | icmp p a b | fcmp p a b =>
      obtain ⟨_, ha, h⟩ := ok_of_bind h
      obtain ⟨_, hb, -⟩ := ok_of_bind h
      rcases List.mem_pair.mp ho with rfl | rfl
      · exact hasText_of_typed ha
      · exact hasText_of_reference hb
  | fneg a | cast _ a | load a | atomicLoad a | extractValue a | condBr a | indirectBr a =>
      obtain ⟨_, ha, -⟩ := ok_of_bind h
      cases List.mem_singleton.mp ho
      exact hasText_of_typed ha
  | select c a b =>
      obtain ⟨_, hc, h⟩ := ok_of_bind h
      obtain ⟨_, ha, h⟩ := ok_of_bind h
      obtain ⟨_, hb, -⟩ := ok_of_bind h
      simp only [values, operands, List.mem_cons, List.not_mem_nil, or_false] at ho
      rcases ho with rfl | rfl | rfl
      · exact hasText_of_typed hc
      · exact hasText_of_typed ha
      · exact hasText_of_typed hb
  | phi incoming =>
      obtain ⟨_, hall, -⟩ := ok_of_bind h
      obtain ⟨e, he, rfl⟩ := List.mem_map.mp ho
      obtain ⟨_, he'⟩ := ok_of_mapM hall e he
      obtain ⟨_, hv, -⟩ := ok_of_bind he'
      exact hasText_of_reference hv
  | alloca u count | ret count =>
      cases count with
      | none => cases ho
      | some n =>
          obtain ⟨_, hn, -⟩ := ok_of_bind h
          cases List.mem_singleton.mp ho
          exact hasText_of_typed hn
  | store v a | insertValue v a =>
      obtain ⟨_, hv, h⟩ := ok_of_bind h
      obtain ⟨_, ha, -⟩ := ok_of_bind h
      rcases List.mem_pair.mp ho with rfl | rfl
      · exact hasText_of_typed hv
      · exact hasText_of_typed ha
  | call callee args | invoke callee args =>
      obtain ⟨_, hcall, -⟩ := ok_of_bind h
      obtain ⟨_, hargs, hcall⟩ := ok_of_bind hcall
      obtain ⟨_, hcallee, -⟩ := ok_of_bind hcall
      rcases List.mem_cons.mp ho with rfl | ho
      · exact hasText_of_reference hcallee
      · exact hasText_of_typedList hargs o ho
  | switch v d cases =>
      obtain ⟨_, hall, h⟩ := ok_of_bind h
      obtain ⟨_, hv, -⟩ := ok_of_bind h
      rcases List.mem_cons.mp ho with rfl | ho
      · exact hasText_of_typed hv
      · obtain ⟨c, hc, rfl⟩ := List.mem_map.mp ho
        obtain ⟨_, hc'⟩ := ok_of_mapM hall c hc
        obtain ⟨_, hv, -⟩ := ok_of_bind hc'
        exact hasText_of_typed hv
  | address p is =>
      obtain ⟨_, hp, h⟩ := ok_of_bind h
      obtain ⟨_, his, -⟩ := ok_of_bind h
      rcases List.mem_cons.mp ho with rfl | ho
      · exact hasText_of_typed hp
      · exact hasText_of_typedList his o ho
  | extractElement | insertElement | atomicUpdate | atomicStore =>
      obtain ⟨_, hall, -⟩ := ok_of_bind h
      exact hasText_of_typedList hall o ho
  | compareExchange p e v =>
      obtain ⟨_, hall, h⟩ := ok_of_bind h
      obtain ⟨_, hv, -⟩ := ok_of_bind h
      rcases List.mem_append.mp (show o ∈ [p, e] ++ [v] from ho) with ho | ho
      · exact hasText_of_typedList hall o ho
      · cases List.mem_singleton.mp ho
        exact hasText_of_reference hv
  | br | unreachable | fence | comment => cases ho

theorem Function.hasText_of_render {b : Nat} {i : Instr} (h : f.render m = .ok text)
    (hi : i ∈ f.instrs b) : ∀ o ∈ i.op.values, o.HasText := by
  obtain ⟨block, hblock, hi⟩ := mem_instrs hi
  unfold render at h
  split at h
  · rename_i hd
    have hlt := (Array.getElem?_eq_some_iff.mp hblock).1
    simp [isDeclaration] at hd
    simp [hd] at hlt
  · obtain ⟨_, hblocks, -⟩ := ok_of_bind h
    obtain ⟨_, hb⟩ := ok_of_mapM hblocks block (Array.mem_toList_iff.mpr (Array.mem_of_getElem? hblock))
    obtain ⟨_, hinstrs, -⟩ := ok_of_bind hb
    obtain ⟨_, hi'⟩ := ok_of_mapM hinstrs i hi
    obtain ⟨_, hop, -⟩ := ok_of_bind hi'
    exact OpOver.hasText_of_render hop

theorem Symbol.render_of_renderSymbols {ss : List Symbol} {texts : List String}
    (h : (renderSymbols m ss).1 = .ok texts) : ∀ s ∈ ss, ∃ text, (s.render m).1 = .ok text := by
  induction ss generalizing texts with
  | nil => exact nofun
  | cons s ss ih =>
      unfold renderSymbols at h
      split at h
      · cases h
      · rename_i text s' hs
        obtain ⟨rest, hrest, -⟩ := ok_of_map h
        intro s₁ hs₁
        rcases List.mem_cons.mp hs₁ with rfl | hs₁
        · exact ⟨text, congrArg Prod.fst hs⟩
        · exact ih hrest s₁ hs₁

end

/-- A module was written out, and so were the constants of its instructions. -/
theorem Module.IsWritten.hasText {m : Module} (h : m.IsWritten) {k b : Nat} {f : Function}
    {i : Instr} (hf : m.function? k = some f) (hi : i ∈ f.instrs b) :
    ∀ o ∈ i.op.values, o.HasText := by
  obtain ⟨types, m₀, text, htext, rfl⟩ := h
  have hf₀ := symbol_of_function? (function?_of_render hf)
  obtain ⟨texts, htexts, -⟩ := ok_of_map htext
  obtain ⟨_, hs⟩ := Symbol.render_of_renderSymbols htexts (.function f)
    (Array.mem_toList_iff.mpr (Array.mem_of_getElem? hf₀))
  exact Function.hasText_of_render hs hi

/-! ## Constants within bounds -/

/-- Whether a number can be brought to the type of its constant. -/
def Constant.isBounded : Constant → Bool
  | .int (.fp _) n => (doubleOfInt n).isOk
  | .real (.int _) x => x.isFinite
  | _ => true

theorem Constant.isBounded_of_reference {types : TypeTable} {t : Ty} {c : Constant} {text : String}
    (h : c.reference = .ok text) (hread : c.readsAt types t = true) : c.isBounded = true := by
  cases c with
  | int u n =>
      cases u with
      | fp p =>
          obtain ⟨x, hx, -⟩ := ok_of_map (show intText p n = .ok text from h)
          show (doubleOfInt n).isOk = true
          unfold fpOfInt at hx
          cases hd : doubleOfInt n with
          | ok y => rfl
          | error e => cases p <;> simp [hd] at hx
      | _ => rfl
  | real u x =>
      cases u with
      | int w =>
          cases t with
          | fp q =>
              simp only [readsAt, Precision.readsDecimal, Bool.and_eq_true] at hread
              exact hread.2.1.1
          | _ => cases hread
      | _ => rfl
  | _ => rfl

/-- Every operand of an instruction that can be read can be read at some type, the entries of a phi
among them. -/
theorem Instr.value_readsAt {types : TypeTable} {m : Module} {f : Function} {i : Instr}
    (h : i.reads types m f = true) {o : Operand} (ho : o ∈ i.op.values) :
    ∃ t, o.readsAt types m f t = true := by
  by_cases hphi : i.op.isPhi = true
  · obtain ⟨id, t, op⟩ := i
    cases op with
    | phi incoming =>
        simp only [reads, Bool.and_eq_true, List.all_eq_true] at h
        obtain ⟨e, he, rfl⟩ := List.mem_map.mp ho
        exact ⟨t, (h.2 e he).2⟩
    | _ => cases hphi
  · refine readsAt_of_reads h ?_
    cases hop : i.op with
    | phi => simp [hop, OpOver.isPhi] at hphi
    | _ => rw [hop] at ho; exact ho

/-- The constants that the instructions of an admitted module use can be brought to their types. -/
theorem Module.Admitted.isBounded {m : Module} (h : m.Admitted) (hname : isCutShort m.name = false)
    {k b : Nat} {f : Function} {i : Instr} (hf : m.function? k = some f) (hi : i ∈ f.instrs b)
    {c : Constant} (hc : .const c ∈ i.op.values) : c.isBounded = true := by
  obtain ⟨types, haccepted⟩ := h.accepted hname
  obtain ⟨text, htext⟩ := h.isWritten.hasText hf hi _ hc
  obtain ⟨t, hread⟩ := Instr.value_readsAt (haccepted.instr_reads hf hi) hc
  exact Constant.isBounded_of_reference htext (Bool.and_eq_true_iff.mp hread).2

end Ssa

/-
# `Ssa.Proofs.Exec.Furnished` — cells of variables that were made beforehand

A variable is given its cell when it is first asked for.  It may as well have been given one before: a cell
that nothing has come upon, with the initial value in it.  So a run on a memory in which further variables
have such cells does the same.

**Proved here.**

    whether a variable has an initial value does not hang on who asks      (`initialValue_eq_ok_iff`)
    a variable that begins with a scalar, or with nothing, has one           (`initialValue_of_isScalar`)
    variables have their cells on both sides, or are given them              (`furnished_opens`)
    a cell that is made beforehand is such a cell                             (`furnish_right`)
-/
import Ssa.Proofs.Exec.Onward

namespace Ssa

open Effect (Paired)

/-! ## Initial values -/

/-- Whether a constant is a number that its type has, null, or undefined. -/
def Constant.isScalar : Constant → Bool
  | .null _ | .undef _ => true
  | .int t n => t.isInt || t.isFp && (doubleOfInt n).isOk
  | .truth t _ => t.isInt || t.isFp
  | .real t x => t.isFp || t.isInt && x.isFinite
  | .aggregate .. => false

/-- Whether a variable begins with a scalar, or with nothing. -/
def Variable.isScalar (x : Variable) : Bool :=
  x.init.all fun o => match o with
    | .const c => c.isScalar
    | _ => false

namespace Interpreted

theorem constant_eq_ok_iff (function function' : String) (c : Constant) (v : Value) :
    constant function c = .ok v ↔ constant function' c = .ok v := by
  have hscalar (t : Ty) (u : Value) :
      constant.scalar function t u = .ok v ↔ constant.scalar function' t u = .ok v := by
    unfold constant.scalar
    split
    · rfl
    · exact ⟨nofun, nofun⟩
  cases c with
  | null | undef => rfl
  | int t n => exact hscalar t _
  | truth t b => exact hscalar t _
  | real t x => exact hscalar t _
  | aggregate t cs => exact ⟨nofun, nofun⟩

theorem initialValue_eq_ok_iff (function function' : String) (x : Variable) (v : Value) :
    initialValue function x = .ok v ↔ initialValue function' x = .ok v := by
  unfold initialValue
  split
  · rfl
  · exact constant_eq_ok_iff function function' _ v
  · rfl

theorem constant_of_isScalar (function : String) {c : Constant} (h : c.isScalar = true) :
    ∃ v, constant function c = .ok v := by
  cases c with
  | null t | undef t => exact ⟨_, rfl⟩
  | int t n =>
      cases t with
      | int w => exact ⟨_, rfl⟩
      | fp p =>
          cases hn : Constant.doubleOfInt n with
          | error e => simp [Constant.isScalar, Ty.isInt, Ty.isFp, hn, Except.isOk, Except.toBool] at h
          | ok y =>
              have htoFp : (Value.int n).toFp = .ok y := hn
              cases p <;> exact ⟨_, congrArg (Except.map _) htoFp⟩
      | _ => cases h
  | truth t b =>
      cases t with
      | int w => exact ⟨_, rfl⟩
      | fp p => cases p <;> exact ⟨_, rfl⟩
      | _ => cases h
  | real t x =>
      cases t with
      | int w => cases x with
        | nan | infinity => cases h
        | zero | finite => exact ⟨_, rfl⟩
      | fp p => cases p <;> exact ⟨_, rfl⟩
      | _ => cases h
  | aggregate => cases h

theorem initialValue_of_isScalar (function : String) {x : Variable} (h : x.isScalar = true) :
    ∃ v, initialValue function x = .ok v := by
  unfold Variable.isScalar at h
  unfold initialValue
  cases hi : x.init with
  | none => exact ⟨_, rfl⟩
  | some o =>
      rw [hi] at h
      cases o with
      | const c => exact constant_of_isScalar function h
      | _ => cases h

end Interpreted

/-! ## Cells made beforehand -/

/-- A memory in which the variable at a position has its cell, made as it is when it is asked for. -/
def Memory.furnish (m : Module) (mem : Memory) (i : Nat) : Memory :=
  match m.symbols[i]? with
  | some (.variable x) => ((Interpreted.globalCell "" i x).on mem).2
  | _ => mem

namespace Memory

variable {m : Module} {mem : Memory} {i : Nat} {x : Variable}

theorem furnish_onward (m : Module) (mem : Memory) (i : Nat) : mem.Onward m (mem.furnish m i) := by
  unfold furnish
  split
  · rename_i x hx
    exact .refers "" .here hx
  · exact .here

/-- A variable that begins with a scalar, or with nothing, has a cell then. -/
theorem exists_global?_furnish (hx : m.symbols[i]? = some (.variable x)) (h : x.isScalar = true) :
    ∃ b, (mem.furnish m i).global? i = some b := by
  obtain ⟨v, hv⟩ := Interpreted.initialValue_of_isScalar "" h
  unfold furnish
  rw [hx]
  dsimp only
  cases hi : mem.global? i with
  | some b => exact ⟨b, by rw [Ties.globalCell_of_some "" x hi, hi]⟩
  | none =>
      rw [Ties.globalCell_of_none "" x hi, hv]
      exact ⟨_, (Ties.global?_setGlobal ⟨_, mem.globals⟩ i _ i).trans (if_pos rfl)⟩

end Memory

/-- The variables that have cells on the left have them on the right, and they are taken for one another.
Others may have cells on the right: ones that are taken for none, with the initial value in them. -/
structure Furnished (m : Module) (ρ : Renaming) (mem mem' : Memory) : Prop where
  made : ∀ i a, mem.global? i = some a → ∃ b, mem'.global? i = some b ∧ ρ.pairs a b
  spare : ∀ i b, mem.global? i = none → mem'.global? i = some b → (∀ a, ¬ρ.pairs a b) ∧
    ∃ x v, m.symbols[i]? = some (.variable x) ∧ Interpreted.initialValue "" x = .ok v ∧
      mem'.storage.cell? b = some ⟨x.type, v⟩
  apart : mem'.IsApart

namespace Ties

variable {m : Module} {ρ : Renaming} {mem mem' : Memory} {function : String} {i b : Nat} {x : Variable}

/-- On the right, variables may have been given their cells before they were asked for. -/
def furnished (m : Module) : Ties where
  holds := Furnished m
  addCell {ρ mem mem'} h c c' hf := by
    refine ⟨fun i a hi => ?_, fun i b hi hi' => ?_, hf.apart.addCell c'⟩
    · obtain ⟨b, hb, hab⟩ := hf.made i a hi
      exact ⟨b, hb, h.next_extends a b hab⟩
    · obtain ⟨hfree, x, v, hx, hv, hcell⟩ := hf.spare i b hi hi'
      have hne := (Storage.lt_of_cell? hcell).ne
      refine ⟨?_, x, v, hx, hv, by rw [Storage.cell?_addCell, if_neg hne, hcell]⟩
      rintro a (hab | ⟨-, hb⟩)
      · exact hfree a hab
      · exact hne hb
  write {ρ mem mem' a b} v w hab hf := by
    refine ⟨hf.made, fun i b' hi hi' => ?_, hf.apart.write b w⟩
    obtain ⟨hfree, x, u, hx, hu, hcell⟩ := hf.spare i b' hi hi'
    refine ⟨hfree, x, u, hx, hu, ?_⟩
    rw [Storage.cell?_write, if_neg, hcell]
    rintro rfl
    exact hfree a hab

/-- Both sides are given a cell for a variable that had none on either. -/
theorem furnished_next (hm : (furnished m).pairing.holds ρ mem mem') (i : Nat) (c : Cell) :
    Furnished m hm.1.next ({ mem with storage := mem.storage.addCell c }.setGlobal i mem.storage.cells.size)
      ({ mem' with storage := mem'.storage.addCell c }.setGlobal i mem'.storage.cells.size) := by
  have hadd : Furnished m hm.1.next _ _ := (furnished m).addCell hm.1 c c hm.2
  refine ⟨fun j a hj => ?_, fun j b hj hj' => ?_, hm.2.apart.next i c⟩
  · rw [global?_setGlobal]
    rcases Memory.global?_setGlobal_some hj with ⟨rfl, rfl⟩ | ⟨hne, hj⟩
    · exact ⟨_, if_pos rfl, .inr ⟨rfl, rfl⟩⟩
    · rw [if_neg hne]
      exact hadd.made j a hj
  · obtain ⟨hne, hj⟩ := Memory.global?_setGlobal_none hj
    rcases Memory.global?_setGlobal_some hj' with ⟨heq, -⟩ | ⟨-, hj'⟩
    · exact absurd heq hne
    · exact hadd.spare j b hj hj'

/-- The left side is given a cell for a variable that had one on the right, which is taken for that from then
on. -/
theorem furnished_spare (hm : (furnished m).pairing.holds ρ mem mem') (hx : m.symbols[i]? = some (.variable x))
    (hi : mem.global? i = none) (hi' : mem'.global? i = some b) :
    Paired (furnished m).pairing ρ (Interpreted.globalCell function i x) mem
      (Interpreted.globalCell function i x) mem' Value.Renamed := by
  obtain ⟨hcells, hf⟩ := hm
  obtain ⟨hfree, x', v, hx', hv, hcell⟩ := hf.spare i b hi hi'
  cases hx.symm.trans hx'
  have hon : (Interpreted.globalCell function i x).on mem = (.ok (.cell mem.storage.cells.size),
      { mem with storage := mem.storage.addCell ⟨x.type, v⟩ }.setGlobal i mem.storage.cells.size) := by
    rw [globalCell_of_none function x hi, (Interpreted.initialValue_eq_ok_iff "" function x v).mp hv]
    rfl
  let ρ' : Renaming := ρ.extend mem.storage.cells.size b
    (fun _ hab => absurd (hcells.lt hab).1 (Nat.lt_irrefl _)) hfree
  have hρ : ρ'.Extends ρ := fun _ _ => .inl
  have hnew : ρ'.pairs mem.storage.cells.size b := .inr ⟨rfl, rfl⟩
  refine ⟨ρ', hρ, ?_, ?_⟩
  · rw [hon, globalCell_of_some function x hi']
    refine ⟨?_, fun j a hj => ?_, fun j b' hj hj' => ?_, hf.apart⟩
    · rintro a b' (hab | ⟨rfl, rfl⟩)
      · obtain ⟨type, u, w, hu, hw, huw⟩ := hcells a b' hab
        refine ⟨type, u, w, ?_, hw, huw.mono hρ⟩
        exact (Storage.cell?_addCell ..).trans ((if_neg (Storage.lt_of_cell? hu).ne).trans hu)
      · refine ⟨x.type, v, v, ?_, hcell, .same (Interpreted.initialValue_isCell hv)⟩
        exact (Storage.cell?_addCell ..).trans (if_pos rfl)
    · rcases Memory.global?_setGlobal_some hj with ⟨rfl, rfl⟩ | ⟨-, hj⟩
      · exact ⟨b, hi', hnew⟩
      · obtain ⟨b', hb', hab⟩ := hf.made j a hj
        exact ⟨b', hb', hρ _ _ hab⟩
    · obtain ⟨hne, hj⟩ := Memory.global?_setGlobal_none hj
      obtain ⟨hfree', hspare⟩ := hf.spare j b' hj hj'
      refine ⟨?_, hspare⟩
      rintro a (hab | ⟨-, rfl⟩)
      · exact hfree' a hab
      · exact hne (hf.apart.distinct j i b' hj' hi')
  · rw [hon, globalCell_of_some function x hi']
    exact .ok (.cell hnew)

/-- A variable has its cells on both sides, or is given those that it lacks. -/
theorem furnished_opens (owner : Nat) (types : TypeTable) (m : Module) :
    (furnished m).Opens ⟨owner, types, m⟩ := by
  intro ρ mem mem' function i x hx hm
  cases hi : mem.global? i with
  | some a =>
      obtain ⟨b, hi', hab⟩ := hm.2.made i a hi
      exact .of_on (globalCell_of_some _ x hi) (globalCell_of_some _ x hi') hm (.ok (.cell hab))
  | none =>
      cases hi' : mem'.global? i with
      | some b => exact furnished_spare hm hx hi hi'
      | none => exact opened_paired hm hi hi' (furnished_next hm i)

/-- A cell that is made beforehand on the right is taken for none, and has the initial value in it. -/
theorem furnish_right (hm : (furnished m).pairing.holds ρ mem mem') (i : Nat) :
    (furnished m).pairing.holds ρ mem (mem'.furnish m i) := by
  unfold Memory.furnish
  split
  · rename_i x hx
    rcases Memory.globalCell_leaves "" i x mem' with heq | ⟨hi', v, hv, heq⟩
    · rw [heq]
      exact hm
    · rw [heq]
      have hadded {b : Nat} {c : Cell} (hb : mem'.storage.cell? b = some c) :
          (mem'.storage.addCell ⟨x.type, v⟩).cell? b = some c := by
        rw [Storage.cell?_addCell, if_neg (Storage.lt_of_cell? hb).ne, hb]
      refine ⟨fun a b hab => ?_, fun j a hj => ?_, fun j b hj hj' => ?_, hm.2.apart.next i _⟩
      · obtain ⟨type, u, w, hu, hw, huw⟩ := hm.1 a b hab
        exact ⟨type, u, w, hu, hadded hw, huw⟩
      · obtain ⟨b, hb, hab⟩ := hm.2.made j a hj
        refine ⟨b, ?_, hab⟩
        rw [global?_setGlobal, if_neg]
        · exact hb
        · rintro rfl
          nomatch hb.symm.trans hi'
      · rcases Memory.global?_setGlobal_some hj' with ⟨rfl, rfl⟩ | ⟨-, hj'⟩
        · refine ⟨fun a hab => absurd (hm.1.lt hab).2 (Nat.lt_irrefl _), x, v, hx, hv, ?_⟩
          exact (Storage.cell?_addCell ..).trans (if_pos rfl)
        · obtain ⟨hfree, x', v', hx', hv', hcell⟩ := hm.2.spare j b hj hj'
          exact ⟨hfree, x', v', hx', hv', hadded hcell⟩
  · exact hm

end Ties

end Ssa

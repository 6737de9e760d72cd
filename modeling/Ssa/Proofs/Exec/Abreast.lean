/-
# `Ssa.Proofs.Exec.Abreast` — variables that have their cells on one side only

Two runs may ask for the cells of variables in different orders.  In between, a variable may have its cell
on one side only: a cell that nothing on the other side is taken for, with the initial value in it.  So each
side may ask for further cells alone, and afterwards what is asked for on both sides is taken for one
another.

**Proved here.**

    what one side does alone, but for writing, leaves memories abreast   (`alone_admits`, `Alone.right`)
    variables come to cells that are taken for one another               (`abreast_opens`)
-/
import Ssa.Proofs.Exec.Phis

namespace Ssa

open Effect (Paired)

/-! ## The other way round -/

namespace Renaming

/-- What is on the left is on the right, and the other way round. -/
def symm (ρ : Renaming) : Renaming where
  pairs a b := ρ.pairs b a
  to_one := ρ.from_one
  from_one := ρ.to_one

theorem Extends.symm {ρ ρ' : Renaming} (h : ρ'.Extends ρ) : ρ'.symm.Extends ρ.symm := fun a b => h b a

end Renaming

theorem Value.Renamed.symm {ρ : Renaming} {v w : Value} (h : v.Renamed ρ w) : w.Renamed ρ.symm v := by
  cases h with
  | cell h => exact .cell h
  | same h => exact .same h

theorem Storage.Matched.symm {ρ : Renaming} {s t : Storage} (h : s.Matched ρ t) : t.Matched ρ.symm s := by
  intro a b hab
  obtain ⟨type, v, w, hv, hw, hvw⟩ := h b a hab
  exact ⟨type, w, v, hw, hv, hvw.symm⟩

/-! ## Cells that one side has -/

/-- The cells of variables that have none on the other side are among those that are free, and have the
initial values in them. -/
def Memory.Spares (m : Module) (mem other : Memory) (free : Nat → Prop) : Prop :=
  ∀ i a, mem.global? i = some a → other.global? i = none → free a ∧ ∃ x v,
    m.symbols[i]? = some (.variable x) ∧ Interpreted.initialValue "" x = .ok v ∧
      mem.storage.cell? a = some ⟨x.type, v⟩

namespace Memory.Spares

variable {m : Module} {mem other : Memory} {free free' : Nat → Prop} {i a : Nat} {x : Variable} {v : Value}

/-- Cells that are there stay free if only ones that are not there are taken, and stay as they are if only
ones that are not free are changed. -/
theorem mono {storage storage' : Storage} (h : mem.Spares m other free)
    (hkept : ∀ a c, free a → mem.storage.cell? a = some c → free' a ∧ storage.cell? a = some c) :
    Memory.Spares m { mem with storage } { other with storage := storage' } free' := by
  intro i a hi hi'
  obtain ⟨hfree, x, v, hx, hv, hcell⟩ := h i a hi hi'
  obtain ⟨hfree', hcell'⟩ := hkept a _ hfree hcell
  exact ⟨hfree', x, v, hx, hv, hcell'⟩

theorem addCell (h : mem.Spares m other free) (c : Cell) (storage : Storage)
    (hfree : ∀ a, a < mem.storage.cells.size → free a → free' a) :
    Memory.Spares m { mem with storage := mem.storage.addCell c } { other with storage } free' :=
  h.mono fun a c' ha hc' => by
    have hlt := Storage.lt_of_cell? hc'
    exact ⟨hfree a hlt ha, by rw [Storage.cell?_addCell, if_neg hlt.ne, hc']⟩

theorem write (h : mem.Spares m other free) (ha : ¬free a) (v : Value) (storage : Storage) :
    Memory.Spares m { mem with storage := mem.storage.write a v } { other with storage } free :=
  h.mono fun b c hb hc => by
    refine ⟨hb, ?_⟩
    rw [Storage.cell?_write, if_neg, hc]
    rintro rfl
    exact ha hb

/-- A variable of the side itself is given a cell, with its initial value in it if the other side has none
for it. -/
theorem next (h : mem.Spares m other free) (hx : m.symbols[i]? = some (.variable x))
    (hv : Interpreted.initialValue "" x = .ok v)
    (hfree : ∀ a, a < mem.storage.cells.size → free a → free' a)
    (hnew : other.global? i = none → free' mem.storage.cells.size) :
    Memory.Spares m ({ mem with storage := mem.storage.addCell ⟨x.type, v⟩ }.setGlobal i
      mem.storage.cells.size) other free' := by
  intro j a hj hj'
  rcases Memory.global?_setGlobal_some hj with ⟨rfl, rfl⟩ | ⟨-, hj⟩
  · exact ⟨hnew hj', x, v, hx, hv, (Storage.cell?_addCell ..).trans (if_pos rfl)⟩
  · exact (h.addCell _ other.storage hfree) j a hj hj'

/-- A variable of the other side is given a cell. -/
theorem opposite (h : mem.Spares m other free) (c : Cell)
    (hfree : ∀ j a, j ≠ i → mem.global? j = some a → free a → free' a) :
    mem.Spares m ({ other with storage := other.storage.addCell c }.setGlobal i
      other.storage.cells.size) free' := by
  intro j a hj hj'
  obtain ⟨hne, hj'⟩ := Memory.global?_setGlobal_none hj'
  obtain ⟨ha, hinitial⟩ := h j a hj hj'
  exact ⟨hfree j a hne hj ha, hinitial⟩

end Memory.Spares

/-! ## Two sides -/

/-- Variables that have cells on both sides have cells that are taken for one another.  Others may have cells
on either side: ones that are taken for none, with the initial value in them. -/
structure Abreast (m : Module) (ρ : Renaming) (mem mem' : Memory) : Prop where
  both : ∀ i a b, mem.global? i = some a → mem'.global? i = some b → ρ.pairs a b
  left : mem.Spares m mem' fun a => ∀ b, ¬ρ.pairs a b
  right : mem'.Spares m mem fun b => ∀ a, ¬ρ.pairs a b
  apart : mem.IsApart
  apart' : mem'.IsApart

theorem Abreast.symm {m : Module} {ρ : Renaming} {mem mem' : Memory} (h : Abreast m ρ mem mem') :
    Abreast m ρ.symm mem' mem where
  both i a b hi hi' := h.both i b a hi' hi
  left := h.right
  right := h.left
  apart := h.apart'
  apart' := h.apart

namespace Ties

variable {m : Module} {ρ : Renaming} {mem mem₁ mem' : Memory} {i : Nat} {x : Variable}

/-- On either side, variables may have been given their cells before they are asked for on the other. -/
def abreast (m : Module) : Ties where
  holds := Abreast m
  addCell {ρ mem mem'} h c c' hf := by
    refine ⟨fun i a b hi hi' => h.next_extends a b (hf.both i a b hi hi'), ?_, ?_,
      hf.apart.addCell c, hf.apart'.addCell c'⟩
    · refine hf.left.addCell c _ fun a hlt hfree b hab => ?_
      rcases hab with hab | ⟨ha, -⟩
      · exact hfree b hab
      · exact hlt.ne ha
    · refine hf.right.addCell c' _ fun b hlt hfree a hab => ?_
      rcases hab with hab | ⟨-, hb⟩
      · exact hfree a hab
      · exact hlt.ne hb
  write {ρ mem mem' a b} v w hab hf :=
    ⟨hf.both, hf.left.write (fun hfree => hfree b hab) v _, hf.right.write (fun hfree => hfree a hab) w _,
      hf.apart.write a v, hf.apart'.write b w⟩

theorem abreast_symm (h : (abreast m).pairing.holds ρ mem mem') :
    (abreast m).pairing.holds ρ.symm mem' mem :=
  ⟨h.1.symm, h.2.symm⟩

/-! ### What one side does alone -/

/-- A cell is made on the left. -/
theorem abreast_addCell (h : (abreast m).pairing.holds ρ mem mem') (c : Cell) :
    (abreast m).pairing.holds ρ { mem with storage := mem.storage.addCell c } mem' := by
  refine ⟨fun a b hab => ?_, h.2.both, ?_, h.2.right.mono fun b c' hb hc' => ⟨hb, hc'⟩,
    h.2.apart.addCell c, h.2.apart'⟩
  · obtain ⟨type, v, w, hv, hw, hvw⟩ := h.1 a b hab
    exact ⟨type, v, w, by rw [Storage.cell?_addCell, if_neg (Storage.lt_of_cell? hv).ne, hv], hw, hvw⟩
  · exact h.2.left.addCell c mem'.storage fun a _ ha => ha

/-- A variable is given its cell on the left.  If it has one on the right, the two are taken for one another
from then on. -/
theorem abreast_refers (h : (abreast m).pairing.holds ρ mem mem') (function : String)
    (hx : m.symbols[i]? = some (.variable x)) :
    ∃ ρ', ρ'.Extends ρ ∧
      (abreast m).pairing.holds ρ' ((Interpreted.globalCell function i x).on mem).2 mem' := by
  rcases Memory.globalCell_leaves function i x mem with heq | ⟨hi, v, hv, heq⟩ <;> rw [heq]
  · exact ⟨ρ, .refl ρ, h⟩
  have hv' : Interpreted.initialValue "" x = .ok v :=
    (Interpreted.initialValue_eq_ok_iff function "" x v).mp hv
  have hsize (b : Nat) : ¬ρ.pairs mem.storage.cells.size b := fun hab =>
    absurd (h.1.lt hab).1 (Nat.lt_irrefl _)
  have hadded := abreast_addCell h ⟨x.type, v⟩
  cases hi' : mem'.global? i with
  | none =>
      refine ⟨ρ, .refl ρ, hadded.1, fun j a b hj hj' => ?_, ?_, ?_, h.2.apart.next i _, h.2.apart'⟩
      · rcases Memory.global?_setGlobal_some hj with ⟨rfl, -⟩ | ⟨-, hj⟩
        · nomatch hi'.symm.trans hj'
        · exact h.2.both j a b hj hj'
      · exact h.2.left.next hx hv' (fun a _ ha => ha) fun _ => hsize
      · exact h.2.right.opposite _ fun j b _ _ hb => hb
  | some b =>
      obtain ⟨hfree, x', v', hx', hw, hcell⟩ := h.2.right i b hi' hi
      cases hx.symm.trans hx'
      cases hv'.symm.trans hw
      let ρ' : Renaming := ρ.extend mem.storage.cells.size b hsize hfree
      have hρ : ρ'.Extends ρ := fun _ _ => .inl
      have hnew : ρ'.pairs mem.storage.cells.size b := .inr ⟨rfl, rfl⟩
      refine ⟨ρ', hρ, fun a b' hab => ?_, fun j a b' hj hj' => ?_, ?_, ?_, h.2.apart.next i _, h.2.apart'⟩
      · rcases hab with hab | ⟨rfl, rfl⟩
        · obtain ⟨type, u, w, hu, hw, huw⟩ := hadded.1 a b' hab
          exact ⟨type, u, w, hu, hw, huw.mono hρ⟩
        · exact ⟨x.type, v, v, (Storage.cell?_addCell ..).trans (if_pos rfl), hcell,
            .same (Interpreted.initialValue_isCell hv)⟩
      · rcases Memory.global?_setGlobal_some hj with ⟨rfl, rfl⟩ | ⟨-, hj⟩
        · cases hi'.symm.trans hj'
          exact hnew
        · exact hρ _ _ (h.2.both j a b' hj hj')
      · refine h.2.left.next hx hv' (fun a hlt ha b' hab => ?_) fun hnone => nomatch hi'.symm.trans hnone
        rcases hab with hab | ⟨hsame, -⟩
        · exact ha b' hab
        · exact hlt.ne hsame
      · refine h.2.right.opposite _ fun j b' hne hj hb a hab => ?_
        rcases hab with hab | ⟨-, hsame⟩
        · exact hb a hab
        · exact hne (h.2.apart'.distinct j i b (hsame ▸ hj) hi')

/-- What is done on the left alone leaves memories that are abreast. -/
def Alone (m : Module) (mem mem₁ : Memory) : Prop :=
  ∀ ρ mem', (abreast m).pairing.holds ρ mem mem' →
    ∃ ρ', ρ'.Extends ρ ∧ (abreast m).pairing.holds ρ' mem₁ mem'

/-- The interpreter does nothing else, but for writing. -/
theorem alone_admits (m : Module) : Memory.Admits m (Alone m) where
  refl _ ρ _ h := ⟨ρ, .refl ρ, h⟩
  trans h h' ρ mem' hm := by
    obtain ⟨ρ₁, hρ₁, hm₁⟩ := h ρ mem' hm
    obtain ⟨ρ₂, hρ₂, hm₂⟩ := h' ρ₁ mem' hm₁
    exact ⟨ρ₂, hρ₁.trans hρ₂, hm₂⟩
  refers _ function _ _ hx _ _ h := abreast_refers h function hx
  adds _ t ρ _ h := ⟨ρ, .refl ρ, abreast_addCell h ⟨t, Value.zero t⟩⟩

/-- And so does what is done on the right alone. -/
theorem Alone.right (halone : Alone m mem mem₁) {mem' : Memory}
    (h : (abreast m).pairing.holds ρ mem' mem) :
    ∃ ρ', ρ'.Extends ρ ∧ (abreast m).pairing.holds ρ' mem' mem₁ := by
  obtain ⟨ρ', hρ, h'⟩ := halone ρ.symm mem' (abreast_symm h)
  exact ⟨ρ'.symm, hρ.symm, abreast_symm h'⟩

/-! ### What both sides do -/

/-- A variable comes to cells that are taken for one another, whichever sides had one before. -/
theorem abreast_opens (owner : Nat) (types : TypeTable) (m : Module) :
    (abreast m).Opens ⟨owner, types, m⟩ := by
  intro ρ mem mem' function i x hx h
  obtain ⟨ρ₁, hρ₁, h₁⟩ := abreast_refers h function hx
  obtain ⟨ρ₂, hρ₂, h₂⟩ := ((alone_admits m).refers mem' function hx).right h₁
  refine ⟨ρ₂, hρ₁.trans hρ₂, h₂, ?_⟩
  -- a cell that one side has tells that the initial value can be had
  rcases hon : (Interpreted.globalCell function i x).on mem with ⟨r, mem₁⟩
  rcases hon' : (Interpreted.globalCell function i x).on mem' with ⟨r', mem₁'⟩
  rw [hon, hon'] at h₂
  rcases Interpreted.globalCell_cases hon with ⟨a, rfl, hi⟩ | ⟨e, rfl, rfl, hi, he⟩ <;>
    rcases Interpreted.globalCell_cases hon' with ⟨b, rfl, hi'⟩ | ⟨e', rfl, rfl, hi', he'⟩
  · exact .ok (.cell (h₂.2.both i a b hi hi'))
  · obtain ⟨-, x', v, hx', hv, -⟩ := h₂.2.left i a hi hi'
    cases hx.symm.trans hx'
    nomatch ((Interpreted.initialValue_eq_ok_iff function "" x v).mpr hv).symm.trans he'
  · obtain ⟨-, x', v, hx', hv, -⟩ := h₂.2.right i b hi' hi
    cases hx.symm.trans hx'
    nomatch ((Interpreted.initialValue_eq_ok_iff function "" x v).mpr hv).symm.trans he
  · cases he.symm.trans he'
    exact .error e

end Ties

end Ssa

/-
# `Ssa.Proofs.Exec.Closed` — the cells that values denote are there

A value may denote a cell, in a frame, in another cell, or as what a run came to; and a variable may.
Whatever the interpreter does to such values, it passes them on as they are, and it makes new ones only
for cells that it makes.  So if all cells that are denoted are there to begin with, they always are.

A run is taken beside itself for this: a value is taken for itself if it is no cell, or one that is there.

**Proved here.**

    a memory is matched with itself just if what is denoted is there       (`whole_holds`, `Closed.of_holds`)
    evaluating an operand and a step keep it so, however they end          (`Closed.eval`, `Closed.step`)
    so does entering a function on values that are there                   (`Closed.enter`)
-/
import Ssa.Proofs.Exec.Sharing
import Ssa.Proofs.Exec.Store

namespace Ssa

open Effect (Paired)
open Interpreted (rules)
open Machine (State)

/-! ## Cells that are denoted -/

/-- A value is no cell, or one that is there. -/
def Value.IsThere (s : Storage) (v : Value) : Prop := ∀ id, v = .cell id → (s.cell? id).isSome

/-- A cell is denoted: by a value of a frame, by what a machine is done with, by what another cell holds,
or by a variable. -/
inductive Denoted (mem : Memory) : Option State → Nat → Prop
  | frame {st : State} {fr : Frame} {k id : Nat} : fr ∈ st.frames → fr.env.lookup k = some (.cell id) →
      Denoted mem (some st) id
  | result {id : Nat} : Denoted mem (some (.done (.cell id))) id
  | content {st : Option State} {k id : Nat} {c : Cell} : mem.storage.cell? k = some c → c.value = .cell id →
      Denoted mem st id
  | «variable» {st : Option State} {g id : Nat} : (g, id) ∈ mem.globals → Denoted mem st id

/-- All cells that are denoted are there. -/
def Closed (mem : Memory) (st : Option State) : Prop := ∀ id, Denoted mem st id → (mem.storage.cell? id).isSome

/-! ## A memory beside itself -/

/-- The cells below a number, each taken for itself. -/
def Renaming.upTo (n : Nat) : Renaming where
  pairs a b := a = b ∧ a < n
  to_one := by
    rintro a b b' ⟨rfl, -⟩ ⟨rfl, -⟩
    rfl
  from_one := by
    rintro a a' b ⟨rfl, -⟩ ⟨rfl, -⟩
    rfl

namespace Ties

/-- Both memories have the same cells, and each is taken for itself; so is that of a variable. -/
def whole : Ties where
  holds ρ m m' := List.Forall₂ (fun x y => x.1 = y.1 ∧ ρ.pairs x.2 y.2) m.globals m'.globals ∧
    m'.storage.cells.size = m.storage.cells.size ∧ ∀ id < m.storage.cells.size, ρ.pairs id id
  addCell {ρ m m'} h c c' := by
    rintro ⟨hglobals, hsize, hall⟩
    refine ⟨hglobals.imp fun _ _ hxy => ⟨hxy.1, h.next_extends _ _ hxy.2⟩, ?_, fun id hid => ?_⟩
    · show (m'.storage.cells.push c').size = (m.storage.cells.push c).size
      rw [Array.size_push, Array.size_push, hsize]
    · have hid : id < (m.storage.cells.push c).size := hid
      rw [Array.size_push] at hid
      rcases Nat.lt_succ_iff_lt_or_eq.mp hid with hlt | rfl
      · exact h.next_extends _ _ (hall id hlt)
      · exact .inr ⟨rfl, hsize.symm⟩
  write {ρ m m' a b} v w _ := by
    rintro ⟨hglobals, hsize, hall⟩
    have hmodify (s : Storage) (a : Nat) (v : Value) : (s.write a v).cells.size = s.cells.size :=
      Array.size_modify
    exact ⟨hglobals, (hmodify _ _ _).trans (hsize.trans (hmodify _ _ _).symm),
      fun id hid => hall id (hid.trans_eq (hmodify _ _ _))⟩

theorem whole_opens (p : Program) : whole.Opens p := by
  refine opens_of_globals (fun _ _ _ h => h.1) fun ρ m m' hm i c _ => ?_
  obtain ⟨hglobals, hsize, hall⟩ := whole.addCell hm.1 c c hm.2
  exact ⟨.cons ⟨rfl, .inr ⟨rfl, rfl⟩⟩ hglobals, hsize, hall⟩

end Ties

open Ties (whole whole_opens)

theorem Storage.isSome_cell? {s : Storage} {id : Nat} : (s.cell? id).isSome ↔ id < s.cells.size := by
  simp [cell?]

theorem Value.IsThere.renamed {s : Storage} {v : Value} (h : v.IsThere s) :
    v.Renamed (.upTo s.cells.size) v := by
  cases v with
  | cell id => exact .cell ⟨rfl, Storage.isSome_cell?.mp (h id rfl)⟩
  | _ => exact .same rfl

theorem Value.Renamed.isThere {ρ : Renaming} {mem : Memory} {v : Value} (h : v.Renamed ρ v)
    (hmem : whole.pairing.holds ρ mem mem) : v.IsThere mem.storage := by
  rintro id rfl
  obtain ⟨b, hb, hpair⟩ := h.of_cell
  cases hb
  exact Storage.isSome_cell?.mpr (hmem.1.lt hpair).1

/-- A memory all of whose cells are there, and hold and are denoted by what is there, beside itself. -/
theorem whole_holds {mem : Memory} (h : Closed mem none) :
    whole.pairing.holds (.upTo mem.storage.cells.size) mem mem := by
  refine ⟨fun a b hab => ?_, List.forall₂_same.mpr fun e he => ⟨rfl, rfl, ?_⟩, rfl, fun id hid => ⟨rfl, hid⟩⟩
  · obtain ⟨rfl, ha⟩ := hab
    obtain ⟨c, hc⟩ := Option.isSome_iff_exists.mp (Storage.isSome_cell?.mpr ha)
    have hthere : c.value.IsThere mem.storage := fun id hid => h id (.content hc hid)
    exact ⟨c.type, c.value, c.value, hc, hc, hthere.renamed⟩
  · exact Storage.isSome_cell?.mp (h e.2 (.variable he))

namespace Closed

variable {mem mem' : Memory} {st : Option State} {fr : Frame} {waiting : List Frame}

/-- What is denoted by nothing but cells and variables. -/
theorem idle (h : Closed mem st) : Closed mem none := by
  intro id hid
  cases hid with
  | content hc hv => exact h id (.content hc hv)
  | «variable» hg => exact h id (.variable hg)

theorem of_holds {ρ : Renaming} (h : whole.pairing.holds ρ mem mem) : Closed mem none := by
  intro id hid
  cases hid with
  | content hc hv =>
      have hpair := h.2.2.2 _ (Storage.lt_of_cell? hc)
      obtain ⟨type, v, w, hv', hw, hvw⟩ := h.1 _ _ hpair
      cases hc.symm.trans hv'
      cases hc.symm.trans hw
      exact hvw.isThere h id hv
  | «variable» hg =>
      obtain ⟨-, hpair⟩ := List.forall₂_same.mp h.2.1 _ hg
      exact Storage.isSome_cell?.mpr (h.1.lt hpair).1

/-- And by the frames of a machine, or what it is done with. -/
theorem of_renamed {ρ : Renaming} {st : State} (h : whole.pairing.holds ρ mem mem) (hst : st.Renamed ρ st) :
    Closed mem (some st) := by
  have hframe {fr : Frame} (hfr : fr.Renamed ρ fr) {k id : Nat} (hk : fr.env.lookup k = some (.cell id)) :
      (mem.storage.cell? id).isSome := by
    have hvalue := hfr.env k
    rw [hk] at hvalue
    cases hvalue with
    | some hvw => exact hvw.isThere h id rfl
  intro id hid
  cases hid with
  | content hc hv => exact of_holds h id (.content hc hv)
  | «variable» hg => exact of_holds h id (.variable hg)
  | result =>
      cases hst with
      | done hvw => exact hvw.isThere h id rfl
  | frame hfr hk =>
      cases hst with
      | running hinner hwaiting =>
          rcases List.mem_cons.mp hfr with rfl | hfr
          · exact hframe hinner hk
          · exact hframe (List.forall₂_same.mp hwaiting _ hfr) hk
      | done => cases hfr

theorem renamed {st : State} (h : Closed mem (some st)) : st.Renamed (.upTo mem.storage.cells.size) st := by
  have hframe {fr : Frame} (hfr : fr ∈ st.frames) : fr.Renamed (.upTo mem.storage.cells.size) fr := by
    refine ⟨rfl, fun k => ?_, rfl, rfl, rfl⟩
    cases hk : fr.env.lookup k with
    | none => exact .none
    | some v =>
        have hthere : v.IsThere mem.storage := by
          rintro id rfl
          exact h id (.frame hfr hk)
        exact .some hthere.renamed
  cases st with
  | running fr waiting =>
      exact .running (hframe List.mem_cons_self)
        (List.forall₂_same.mpr fun _ hfr => hframe (List.mem_cons_of_mem _ hfr))
  | done v =>
      have hthere : v.IsThere mem.storage := by
        rintro id rfl
        exact h id .result
      exact .done hthere.renamed

/-! ### Steps -/

/-- After a step, however it ends, what is denoted is there. -/
theorem step {p : Program} {r : Except Failure State} (h : Closed mem (some (.running fr waiting)))
    (hstep : (Machine.step rules p fr waiting).on mem = (r, mem')) : Closed mem' r.toOption := by
  have hrenamed := h.renamed
  cases hrenamed with
  | running hfr hwaiting =>
      obtain ⟨ρ, -, hmem, hagree⟩ := Ties.step_paired (whole_opens p) (whole_holds h.idle) hfr hwaiting
      rw [hstep] at hmem hagree
      cases r with
      | error e => exact of_holds hmem
      | ok st =>
          cases hagree with
          | ok hst => exact of_renamed hmem hst

/-- What an operand comes to is there. -/
theorem eval {p : Program} {o : Operand} {v : Value} (h : Closed mem (some (.running fr waiting)))
    (heval : (Interpreted.eval p fr.function fr.env o).on mem = (.ok v, mem')) :
    v.IsThere mem'.storage ∧ Closed mem' (some (.running fr waiting)) := by
  have hrenamed := h.renamed
  cases hrenamed with
  | running hfr hwaiting =>
      obtain ⟨ρ, hρ, hmem, hvalue⟩ :=
        (Ties.eval_paired (f := fr.function) (whole_opens p) (whole_holds h.idle) hfr.env o).of_ok heval heval
      exact ⟨hvalue.isThere hmem,
        of_renamed hmem (.running (hfr.mono hρ) (hwaiting.imp fun _ _ hfr => hfr.mono hρ))⟩

/-- A function is entered on values that are there. -/
theorem enter {p : Program} {f : Function} {args : List Value} {r : Except Failure Frame}
    (h : Closed mem none) (hargs : ∀ v ∈ args, v.IsThere mem.storage)
    (henter : (Machine.enter rules p f args).on mem = (r, mem')) :
    Closed mem' (r.toOption.map fun fr => .running fr []) := by
  have hrenamed : List.Forall₂ (Value.Renamed (.upTo mem.storage.cells.size)) args args :=
    List.forall₂_same.mpr fun v hv => (hargs v hv).renamed
  obtain ⟨ρ, -, hmem, hagree⟩ := Ties.enter_paired (whole_opens p) (whole_holds h) f hrenamed
  rw [henter] at hmem hagree
  cases r with
  | error e => exact of_holds hmem
  | ok fr =>
      cases hagree with
      | ok hfr => exact of_renamed hmem (.running hfr .nil)

end Closed

end Ssa

/-
# `Ssa.Proofs.Exec.Store` — the typed store of an engine

An engine does one run after another on one memory.  Where everything in its module is matched and
no pointer is cast, what any frame holds at any time fits its type, and so does every cell that the
engine made: an integer is the unsigned reading of its width, and a pointer leads to a cell of the
type that it points to.

Where an entry of a phi is of another type than the phi, none of this holds: control brings the
value into the phi as it is.

**Proved here.**

    every memory between runs, every state of a run: typed                  (`Module.Admitted.typed_store`)
    a phi of 32 digits can hold more                                        (`not_typed_store`)
-/
import Ssa.Proofs.Exec.Reached
import Ssa.Proofs.Session.Admitted

namespace Ssa

/-! ## What is typed -/

/-- A value is an integer without sign of a width. -/
def Value.IsWord (w : Nat) (v : Value) : Prop := ∃ n : Int, v = .int n ∧ 0 ≤ n ∧ n < 2 ^ w

/-- A value is a pointer to a type: null, a function, an integer that was made into a pointer, or a
cell of that type. -/
def Value.IsPointerTo (s : Storage) (t : Ty) (v : Value) : Prop :=
  v = .null ∨ (∃ owner index name type, v = .function owner index name type) ∨
    (∃ n, v = .int n) ∨ ∃ id c, v = .cell id ∧ s.cell? id = some c ∧ c.type = t

/-- What a frame holds for values of the types of integers and pointers. -/
structure Frame.IsTyped (s : Storage) (fr : Frame) : Prop where
  words : ∀ id v l w, fr.env.lookup id = some v → fr.function.locals[id]? = some l →
    l.type = .int w → v.IsWord w
  pointers : ∀ id v l t space, fr.env.lookup id = some v → fr.function.locals[id]? = some l →
    l.type = .pointer t space → v.IsPointerTo s t

/-- The frames of a machine, innermost first. -/
def Machine.State.frames : Machine.State → List Frame
  | .running fr waiting => fr :: waiting
  | .done _ => []

/-- What the cells hold that were made since an engine began, and those of its variables. -/
structure Memory.IsTyped (start : Storage) (mem : Memory) : Prop where
  made : ∀ id c w, start.cells.size ≤ id → mem.storage.cell? id = some c → c.type = .int w →
    c.value.IsWord w
  globals : ∀ i id c w, mem.global? i = some id → mem.storage.cell? id = some c →
    c.type = .int w → c.value.IsWord w

/-- The regime of an engine that began with some storage: pointers may be integers, only integers,
floating point and pointers are kept track of, and the cells that were made since are known. -/
def Regime.since (start : Storage) : Regime := ⟨True, False, fun id => start.cells.size ≤ id⟩

namespace Regime

variable {R : Regime} {s : Storage}

theorem Fits.isWord {w : Nat} {v : Value} (h : R.Fits s (.int w) v) : v.IsWord w := by
  obtain ⟨n, rfl, h0, hn⟩ := h
  exact ⟨n, rfl, h0, by simpa [Word.count] using hn⟩

theorem Fits.isPointerTo {t : Ty} {space : Nat} {v : Value}
    (h : R.Fits s (.pointer t space) v) : v.IsPointerTo s t := by
  cases (show R.Points s t v from h) with
  | null => exact .inl rfl
  | function => exact .inr (.inl ⟨_, _, _, _, rfl⟩)
  | address _ => exact .inr (.inr (.inl ⟨_, rfl⟩))
  | cell _ hc ht => exact .inr (.inr (.inr ⟨_, _, rfl, hc, ht⟩))

theorem isTyped_of_fits {m : Module} {fr : Frame} (h : fr.Fits R m s) : fr.IsTyped s where
  words id v l _ hv hl ht := Fits.isWord (R := R) (s := s) (ht ▸ h.env id v l hv hl)
  pointers id v l _ space hv hl ht :=
    Fits.isPointerTo (show R.Fits s (.pointer _ space) v from ht ▸ h.env id v l hv hl)

theorem frames_fit {m : Module} {last t : Ty} {waiting : List Frame}
    (h : WaitsFit R m s last t waiting) : ∀ fr ∈ waiting, fr.Fits R m s := by
  induction waiting generalizing t with
  | nil => nofun
  | cons fr rest ih =>
      intro fr' hmem
      rcases List.mem_cons.mp hmem with rfl | hmem
      · exact h.1
      · exact ih h.2.2 fr' hmem

/-- What is known of a sound memory is typed. -/
theorem Sound.isTyped {m : Module} {mem : Memory} {start : Storage} (h : R.Sound m mem)
    (hmade : ∀ id, start.cells.size ≤ id → R.known id) : mem.IsTyped start where
  made id c _ hid hc ht := Fits.isWord (ht ▸ h.cells id c (hmade id hid) hc)
  globals i id c _ hi hc ht := Fits.isWord (ht ▸ h.cells id c (h.globals i id hi).1 hc)

end Regime

/-! ## Arguments -/

namespace Regime

variable {R : Regime} {s : Storage}

theorem supports_null {t : Ty} {space : Nat} : R.Supports s (.pointer t space) .null :=
  ⟨fun _ => False, nofun, .null⟩

/-- A cell of the width that a parameter points to is accepted, if an integer of that width is in
it. -/
theorem supports_cell {w space id : Nat} {c : Cell} (hc : s.cell? id = some c)
    (ht : c.type = .int w) (hv : c.value.IsWord w) :
    R.Supports s (.pointer (.int w) space) (.cell id) := by
  refine ⟨(· = id), ?_, .cell rfl hc ht⟩
  rintro k rfl
  obtain ⟨n, hn, h0, hlt⟩ := hv
  exact ⟨c, hc, by rw [ht]; exact ⟨n, hn, h0, by simpa [Word.count] using hlt⟩⟩

theorem ArgsSupported.nil {args : List Value} : R.ArgsSupported s [] args := fun _ _ _ h => by
  cases h

theorem ArgsSupported.cons {t : Ty} {v : Value} {params : List Ty} {args : List Value}
    (h : t.isInt = true ∨ t.isFp = true ∨ R.Supports s t v) (hrest : R.ArgsSupported s params args) :
    R.ArgsSupported s (t :: params) (v :: args) := by
  intro k t' v' ht hv
  cases k with
  | zero => cases ht; cases hv; exact h
  | succ k => exact hrest k t' v' ht hv

end Regime

/-! ## Runs on one engine -/

open Interpreted (rules)

/-- An engine begins without storage for its variables.  Between its runs what it made is typed,
whatever has been run, and so it is at every state that a further run reaches: what the frames hold
is typed too, and so is what the run comes to. -/
theorem Module.Admitted.typed_store {m : Module} (h : m.Admitted)
    (hname : isCutShort m.name = false) (hm : m.isMatched = true) (hp : m.keepsPointers = true)
    {owner : Nat} {start mem : Memory} (hstart : start.globals = [])
    (hran : Machine.Ran (.since start.storage) ⟨owner, [], m⟩ start mem) :
    mem.IsTyped start.storage ∧
      ∀ k f args, m.function? k = some f →
        (Regime.since start.storage).ArgsSupported mem.storage f.params args →
        ∀ st mem', Machine.Reaches rules ⟨owner, [], m⟩ f args mem st mem' →
          mem'.IsTyped start.storage ∧ (∀ fr ∈ st.frames, fr.IsTyped mem'.storage) ∧
            ∀ v w, st = .done v → f.result = .int w → v.IsWord w := by
  obtain ⟨types, haccepted⟩ := h.accepted hname
  have ht : m.IsTyped := Module.isTyped_of_accepted h.isBuilt haccepted hm hp
  have hsound : (Regime.since start.storage).Sound m start :=
    Regime.sound_of_fresh (fun _ => .rfl) hstart
  obtain ⟨known, hknown, hmem⟩ := Machine.ran_sound (p := ⟨owner, [], m⟩) ht
    (fun _ _ _ _ _ _ _ => trivial) (fun _ hid => hid) hsound hran
  refine ⟨hmem.isTyped hknown, fun k f args hf hargs st mem' hst => ?_⟩
  have hargs' : ({ Regime.since start.storage with known } : Regime).ArgsSupported mem.storage
      f.params args := hargs
  obtain ⟨hmem', -, hfits⟩ := Machine.reaches_fits (p := ⟨owner, [], m⟩) ht
    (fun _ _ _ _ _ _ _ => trivial) ⟨k, hf⟩ hmem.adopt hargs'.ready hst
  refine ⟨hmem'.isTyped fun id hid => .inl (hknown id hid), fun fr hfr => ?_, ?_⟩
  · cases st with
    | done v => cases hfr
    | running fr' waiting =>
        rcases List.mem_cons.mp hfr with rfl | hfr
        · exact Regime.isTyped_of_fits hfits.1
        · exact Regime.isTyped_of_fits (Regime.frames_fit hfits.2 fr hfr)
  · rintro v w rfl hw
    exact Regime.Fits.isWord (hw ▸ (show Regime.Fits _ _ f.result v from hfits))

/-! ## A store that is typed -/

/-- A variable to which a function adds what it is given, by way of a cell of its own. -/
def tally : Draft where
  types := []
  globals := [⟨"total", .int 32, some (.constant (.typed (.int 32) (.int (-6))))⟩]
  functions := [⟨"add", .int 32, [.int 32, .pointer (.int 32) 0], false, some [⟨"e", "e", [
    ⟨some "s", "s", .op (.alloca (.int 32) none)⟩,
    ⟨none, "", .op (.store (.key "0") (.key "s"))⟩,
    ⟨some "v", "v", .op (.load (.key "s"))⟩,
    ⟨some "t", "t", .op (.load (.symbol "total"))⟩,
    ⟨some "y", "y", .op (.int .add (.key "v") (.key "t"))⟩,
    ⟨none, "", .op (.store (.key "y") (.symbol "total"))⟩,
    ⟨none, "", .op (.ret (some (.key "y")))⟩]⟩]⟩]

theorem tally_admitted : (tally.written "m").Admitted :=
  Draft.written_admitted (by decide +kernel)

/-- After a run on an integer that is too wide and null, the store is typed. -/
theorem typed_store_tally : ∃ f, (tally.written "m").function? 1 = some f ∧
    ((Machine.call rules ⟨0, [], tally.written "m"⟩ 9 f [.int (2 ^ 40 + 5), .null]).on
      .empty).2.IsTyped .empty := by
  obtain ⟨f, hf⟩ : ∃ f, (tally.written "m").function? 1 = some f :=
    Option.isSome_iff_exists.mp (by decide +kernel)
  have hparams : f.params = [.int 32, .pointer (.int 32) 0] := by
    have : ((tally.written "m").function? 1).map Function.params =
        some [.int 32, .pointer (.int 32) 0] := by decide +kernel
    simpa [hf] using this
  have hargs : (Regime.since .empty).ArgsSupported Memory.empty.storage f.params
      [.int (2 ^ 40 + 5), .null] := by
    rw [hparams]
    exact .cons (.inl rfl) (.cons (.inr (.inr Regime.supports_null)) .nil)
  exact ⟨f, hf, (tally_admitted.typed_store (by decide +kernel) (by decide +kernel)
    (by decide +kernel) rfl (.run .fresh hf hargs)).1⟩

/-! ## A phi that is not matched -/

/-- A phi of 32 digits that takes an integer of 64. -/
def widePhi : Draft where
  types := []
  globals := []
  functions := [⟨"f", .int 32, [], false, some [
    ⟨"e", "e", [⟨none, "", .op (.br "n")⟩]⟩,
    ⟨"n", "n", [
      ⟨some "x", "x", .phi (.int 32) [(.constant (.typed (.int 64) (.int (2 ^ 40))), "e")]⟩,
      ⟨none, "", .op (.ret (some (.key "x")))⟩]⟩]⟩]

theorem widePhi_admitted : (widePhi.written "m").Admitted :=
  Draft.written_admitted (by decide +kernel)

/-- The phi brings its entry into the frame as it is: what the function comes to is no integer of 32
digits, although the module was admitted. -/
theorem not_typed_store : (widePhi.written "m").Admitted ∧
    isCutShort (widePhi.written "m").name = false ∧ (widePhi.written "m").keepsPointers = true ∧
    ∃ f v, (widePhi.written "m").function? 0 = some f ∧ f.result = .int 32 ∧ f.params = [] ∧
      ((Machine.call rules ⟨0, [], widePhi.written "m"⟩ 4 f []).on .empty).1 = .ok v ∧
      ¬v.IsWord 32 := by
  obtain ⟨f, hf⟩ : ∃ f, (widePhi.written "m").function? 0 = some f :=
    Option.isSome_iff_exists.mp (by decide +kernel)
  have htype : f.result = .int 32 ∧ f.params = [] := by
    have : ((widePhi.written "m").function? 0).map (fun f => (f.result, f.params)) =
        some (.int 32, []) := by decide +kernel
    simpa [hf] using this
  have hrun : ((widePhi.written "m").function? 0).map (fun f =>
      ((Machine.call rules ⟨0, [], widePhi.written "m"⟩ 4 f []).on .empty).1.toOption.bind
        Value.int?) = some (some (2 ^ 40)) := by decide +kernel
  rw [hf, Option.map_some, Option.some.injEq] at hrun
  refine ⟨widePhi_admitted, by decide +kernel, by decide +kernel, f, ?_⟩
  cases hv : ((Machine.call rules ⟨0, [], widePhi.written "m"⟩ 4 f []).on .empty).1 with
  | error e => rw [hv] at hrun; cases hrun
  | ok v =>
      rw [hv] at hrun
      refine ⟨v, hf, htype.1, htype.2, rfl, ?_⟩
      rintro ⟨n, rfl, -, hn⟩
      cases hrun
      exact absurd hn (by decide)

end Ssa

/-
# `Ssa.Proofs.Exec.Formats` — the formats of an engine's data

Where everything in a module is matched and no pointer is cast, what any frame holds for a value of
single precision at any time is a value of single precision, and so is what is in a cell of that type and
what a run comes to.  What is of half precision is not: it is kept as a double, like what is of double
precision, as long as only doubles are given.

**Proved here.**

    every memory between runs, every state of a run: in its formats        (`Module.Admitted.in_formats`)
    a datum of half precision is passed on as it is                        (`not_in_formats`)
-/
import Ssa.Proofs.Exec.Rounded
import Ssa.Proofs.Exec.Store
import Ssa.Session.Engine

namespace Ssa

open Interpreted (rules)

/-! ## Constants that are doubles -/

/-- Whether an operand that is a constant is no datum, or one that rounding leaves as it is. -/
def Operand.isDouble : Operand → Bool
  | .const (.real _ x) => decide (Format.double.convert x = x)
  | _ => true

/-- Whether the constants of a module that are data are doubles. -/
def Module.isOfDoubles (m : Module) : Bool :=
  m.everyInstr (fun _ i => i.op.values.all Operand.isDouble) &&
    m.everyVariable fun v => v.init.all Operand.isDouble

theorem Constant.isDouble_of_operand {c : Constant} (h : (Operand.const c).isDouble = true) :
    c.IsDouble := by
  cases c with
  | real t x =>
      have hx : Format.double.convert x = x := of_decide_eq_true h
      exact hx ▸ Format.convert_holds Format.double_proper x
  | _ => trivial

theorem Module.ofDoubles_of_isOfDoubles {m : Module} (h : m.isOfDoubles = true) : m.OfDoubles := by
  obtain ⟨hinstr, hvar⟩ := Bool.and_eq_true_iff.mp h
  refine ⟨fun k f hf b i hi c hc => ?_, fun i x c hx hc => ?_⟩
  · exact Constant.isDouble_of_operand (List.all_eq_true.mp (of_everyInstr hinstr hf hi) _ hc)
  · have := of_everyVariable hvar hx
    rw [hc] at this
    exact Constant.isDouble_of_operand this

/-! ## What is in its format -/

/-- A value is a datum that a format holds. -/
def Value.IsIn (fmt : Format) (v : Value) : Prop := ∃ x, v = .real x ∧ fmt.Holds x

/-- What a frame holds for values of floating point, of single precision or of those that are asked
for. -/
def Frame.InFormats (wide : Prop) (fr : Frame) : Prop :=
  ∀ id v l p, fr.env.lookup id = some v → fr.function.locals[id]? = some l → l.type = .fp p →
    p = .single ∨ wide → v.IsIn p.kept

/-- What the constants among the operands of a module come to. -/
def Module.InFormats (wide : Prop) (m : Module) : Prop :=
  ∀ k f, m.function? k = some f → ∀ b, ∀ i ∈ f.instrs b, ∀ c v p, Operand.const c ∈ i.op.values →
    Interpreted.constant f.name c = .ok v → c.type = .fp p → p = .single ∨ wide → v.IsIn p.kept

/-- What the cells hold that were made since an engine began, and those of its variables. -/
structure Memory.InFormats (wide : Prop) (start : Storage) (mem : Memory) : Prop where
  made : ∀ id c p, start.cells.size ≤ id → mem.storage.cell? id = some c → c.type = .fp p →
    p = .single ∨ wide → c.value.IsIn p.kept
  globals : ∀ i id c p, mem.global? i = some id → mem.storage.cell? id = some c → c.type = .fp p →
    p = .single ∨ wide → c.value.IsIn p.kept

section

variable {R : Regime} {wide : Prop} {m : Module} {s : Storage} {mem : Memory} {start : Storage}
  {t : Ty} {v : Value} {p : Precision}

/-- What fits a type of floating point and is kept in it is in its format. -/
theorem Value.IsKept.isIn (h : v.IsKept wide t) (hfits : R.Fits s t v) (ht : t = .fp p)
    (hp : p = .single ∨ wide) : v.IsIn p.kept := by
  subst ht
  obtain ⟨x, rfl⟩ := hfits
  exact ⟨x, rfl, h p x rfl rfl hp⟩

theorem Frame.Keeps.inFormats {fr : Frame} (h : fr.Keeps wide) (hfits : fr.Fits R m s) :
    fr.InFormats wide :=
  fun id v l _ hv hl ht hp => (h id v l hv hl).isIn (hfits.env id v l hv hl) ht hp

theorem Machine.State.Keeps.inFormats {st : Machine.State} {last : Ty} (h : st.Keeps wide last)
    (hfits : st.Fits R m last s) : ∀ fr ∈ st.frames, fr.InFormats wide := by
  cases st with
  | done v => exact nofun
  | running fr' waiting =>
      intro fr hfr
      rcases List.mem_cons.mp hfr with rfl | hrest
      · exact (h fr hfr).inFormats hfits.1
      · exact (h fr hfr).inFormats (Regime.frames_fit hfits.2 fr hrest)

theorem Memory.Keeps.inFormats (h : mem.Keeps wide R.known) (hsound : R.Sound m mem)
    (hmade : ∀ id, start.cells.size ≤ id → R.known id) : mem.InFormats wide start where
  made id c _ hid hc ht hp :=
    (h id c (hmade id hid) hc).isIn (hsound.cells id c (hmade id hid) hc) ht hp
  globals i id c _ hi hc ht hp :=
    (h id c (hsound.globals i id hi).1 hc).isIn (hsound.cells id c (hsound.globals i id hi).1 hc) ht hp

/-- What comes across the boundary of an engine stays in its format. -/
theorem Value.IsIn.resultOf (h : v.IsIn p.kept) :
    ∃ g, Session.resultOf (.fp p) v = .ok (some g) ∧ g.payload.IsIn p.kept := by
  obtain ⟨x, rfl, hx⟩ := h
  cases p with
  | single =>
      exact ⟨_, rfl, _, rfl, Format.convert_holds Format.single_proper x⟩
  | half | double => exact ⟨_, rfl, x, rfl, hx⟩

end

/-- An engine begins without storage for its variables.  Between its runs the data in what it made are in
the formats of their types, whatever has been run, and so they are at every state that a further run
reaches: those that the frames hold too, and what the run comes to, also across the boundary.  For
single precision that is single precision; for half and for double precision it is double precision,
if no other data than doubles are given. -/
theorem Module.Admitted.in_formats {m : Module} (h : m.Admitted)
    (hname : isCutShort m.name = false) (hm : m.isMatched = true) (hp : m.keepsPointers = true)
    {wide : Prop} (hd : wide → m.OfDoubles) {owner : Nat} {start mem : Memory}
    (hstart : start.globals = [])
    (hran : Machine.RanOn (.since start.storage) wide ⟨owner, [], m⟩ start mem) :
    m.InFormats wide ∧ mem.InFormats wide start.storage ∧
      ∀ k f args, m.function? k = some f →
        (Regime.since start.storage).ArgsKept wide mem.storage f.params args →
        ∀ st mem', Machine.Reaches rules ⟨owner, [], m⟩ f args mem st mem' →
          mem'.InFormats wide start.storage ∧ (∀ fr ∈ st.frames, fr.InFormats wide) ∧
            ∀ v p, st = .done v → f.result = .fp p → p = .single ∨ wide →
              v.IsIn p.kept ∧
                ∃ g, Session.resultOf f.result v = .ok (some g) ∧ g.payload.IsIn p.kept := by
  obtain ⟨types, haccepted⟩ := h.accepted hname
  have ht : m.IsTyped := Module.isTyped_of_accepted h.isBuilt haccepted hm hp
  have hsound : (Regime.since start.storage).Sound m start :=
    Regime.sound_of_fresh (fun _ => .rfl) hstart
  have hkeeps : start.Keeps wide (Regime.since start.storage).known := fun id c hid hc =>
    absurd (Storage.lt_of_cell? hc) (Nat.not_lt.mpr hid)
  obtain ⟨known, hknown, hmem, hkept⟩ := Machine.ranOn_kept (p := ⟨owner, [], m⟩) ht hd
    (fun _ _ _ _ _ _ _ => trivial) (fun _ hid => hid) hsound hkeeps hran
  refine ⟨fun k f hf b i hi c v p hc hv htype hp => ?_,
    hkept.inFormats (R := { Regime.since start.storage with known }) hmem hknown,
    fun k f args hf hargs st mem' hst => ?_⟩
  · have hfits : (Regime.since start.storage).Fits start.storage c.type v := Regime.constant_fits hv
    exact (Interpreted.constant_kept (fun hw => (hd hw).operands k f hf b i hi c hc) hv).isIn hfits htype hp
  · have hargs' : ({ Regime.since start.storage with known } : Regime).ArgsKept wide mem.storage
        f.params args := hargs
    have hm' := hmem.adoptKept wide
    obtain ⟨hmem', -, hfits⟩ := Machine.reaches_fits (p := ⟨owner, [], m⟩) ht
      (fun _ _ _ _ _ _ _ => trivial) ⟨k, hf⟩ hm' hargs'.ready hst
    obtain ⟨hkept', hst'⟩ := Machine.reaches_kept (p := ⟨owner, [], m⟩) ht hd
      (fun _ _ _ _ _ _ _ => trivial) hf hm' hargs'.ready (Regime.keeps_adoptKept hkept)
      hargs'.isDouble hst
    refine ⟨hkept'.inFormats hmem' fun id hid => .inl (hknown id hid), hst'.inFormats hfits, ?_⟩
    rintro v p rfl htype hp
    have hv := (show v.IsKept wide f.result from hst').isIn
      (show Regime.Fits _ _ f.result v from hfits) htype hp
    exact ⟨hv, htype ▸ hv.resultOf⟩

/-! ## A sum that is rounded -/

/-- A variable of single precision, to which a function adds a double that it is given. -/
def narrowed : Draft where
  types := []
  globals := [⟨"acc", .fp .single,
    some (.constant (.typed (.fp .single) (.real (.ofRat false (1 / 2)))))⟩]
  functions := [⟨"add", .fp .single, [.fp .double], false, some [⟨"e", "e", [
    ⟨some "x", "x", .cast .fptrunc (.key "0") (.fp .single)⟩,
    ⟨some "a", "a", .op (.load (.symbol "acc"))⟩,
    ⟨some "y", "y", .op (.fp .fadd (.key "x") (.key "a"))⟩,
    ⟨none, "", .op (.store (.key "y") (.symbol "acc"))⟩,
    ⟨none, "", .op (.ret (some (.key "y")))⟩]⟩]⟩]

theorem narrowed_admitted : (narrowed.written "m").Admitted :=
  Draft.written_admitted (by decide +kernel)

/-- After a run on the double nearest to a tenth, all that there is is in its format. -/
theorem in_formats_narrowed : ∃ f, (narrowed.written "m").function? 1 = some f ∧
    (narrowed.written "m").InFormats True ∧
    ((Machine.call rules ⟨0, [], narrowed.written "m"⟩ 9 f
      [.real (Format.double.round false (1 / 10))]).on .empty).2.InFormats True .empty := by
  obtain ⟨f, hf⟩ : ∃ f, (narrowed.written "m").function? 1 = some f :=
    Option.isSome_iff_exists.mp (by decide +kernel)
  have hparams : f.params = [.fp .double] := by
    have : ((narrowed.written "m").function? 1).map Function.params = some [.fp .double] := by
      decide +kernel
    simpa [hf] using this
  have hargs : (Regime.since .empty).ArgsKept True Memory.empty.storage f.params
      [.real (Format.double.round false (1 / 10))] := by
    intro k t v ht hv
    rw [hparams] at ht
    cases k with
    | zero =>
        cases ht
        cases hv
        exact .inr (.inl ⟨rfl, Value.isDouble_real (Format.round_holds Format.double_proper _ _)⟩)
    | succ k => cases ht
  obtain ⟨hconstants, hmem, -⟩ := narrowed_admitted.in_formats (by decide +kernel)
    (by decide +kernel) (by decide +kernel)
    (fun _ => Module.ofDoubles_of_isOfDoubles (by decide +kernel)) rfl (.run .fresh hf hargs)
  exact ⟨f, hf, hconstants, hmem⟩

/-! ## A datum that is not rounded -/

/-- A function of half precision that returns what it is given. -/
def unrounded : Draft where
  types := []
  globals := []
  functions := [⟨"f", .fp .half, [.fp .half], false, some [
    ⟨"e", "e", [⟨none, "", .op (.ret (some (.key "0")))⟩]⟩]⟩]

/-- A phi of single precision that takes a datum of half precision. -/
def halfPhi : Draft where
  types := []
  globals := []
  functions := [⟨"f", .fp .single, [], false, some [
    ⟨"e", "e", [⟨none, "", .op (.br "n")⟩]⟩,
    ⟨"n", "n", [
      ⟨some "x", "x", .phi (.fp .single)
        [(.constant (.typed (.fp .half) (.real (Format.double.round false (1 / 10)))), "e")]⟩,
      ⟨none, "", .op (.ret (some (.key "x")))⟩]⟩]⟩]

/-- Whether the first function of a module is of the types that are said, and a short run of it gives a
number that a format rounds to another. -/
def Module.strays (m : Module) (params : List Ty) (p : Precision) (args : List Value) (fmt : Format) :
    Bool :=
  (m.function? 0).any fun f =>
    f.params == params && f.result == .fp p &&
      match ((Machine.call rules ⟨0, [], m⟩ 4 f args).on .empty).1 with
      | .ok (.real x) => !x.isNan && !decide (fmt.convert x = x)
      | _ => false

theorem Module.exists_of_strays {m : Module} {params : List Ty} {p : Precision} {args : List Value}
    {fmt : Format} (hfmt : fmt.Proper) (h : m.strays params p args fmt = true) :
    ∃ f x, m.function? 0 = some f ∧ f.params = params ∧ f.result = .fp p ∧
      ((Machine.call rules ⟨0, [], m⟩ 4 f args).on .empty).1 = .ok (.real x) ∧ ¬fmt.Holds x := by
  obtain ⟨f, hf, h⟩ := (Option.any_eq_true _ _).mp h
  obtain ⟨htypes, hrun⟩ := Bool.and_eq_true_iff.mp h
  obtain ⟨hparams, hresult⟩ := Bool.and_eq_true_iff.mp htypes
  split at hrun
  · rename_i x hx
    obtain ⟨hnan, hne⟩ := Bool.and_eq_true_iff.mp hrun
    refine ⟨f, x, hf, eq_of_beq hparams, eq_of_beq hresult, hx, fun hholds => ?_⟩
    exact of_decide_eq_false (Bool.not_eq_true' _ ▸ hne)
      (Format.convert_of_holds hfmt (Bool.not_eq_true' _ ▸ hnan) hholds)
  · cases hrun

/-- Given the double nearest to a tenth, a function of half precision returns it, which is no value of
half precision; and a phi of single precision takes it from an entry of another type as it is, where
it is no value of single precision.  Both modules were admitted, and the first is matched. -/
theorem not_in_formats :
    ((unrounded.written "m").Admitted ∧ (unrounded.written "m").isMatched = true ∧
      (unrounded.written "m").keepsPointers = true ∧
      ∃ f x, (unrounded.written "m").function? 0 = some f ∧ f.params = [.fp .half] ∧
        f.result = .fp .half ∧
        ((Machine.call rules ⟨0, [], unrounded.written "m"⟩ 4 f
          [.real (Format.double.round false (1 / 10))]).on .empty).1 = .ok (.real x) ∧
        ¬Format.half.Holds x) ∧
    (halfPhi.written "m").Admitted ∧ (halfPhi.written "m").keepsPointers = true ∧
      ∃ f x, (halfPhi.written "m").function? 0 = some f ∧ f.params = [] ∧ f.result = .fp .single ∧
        ((Machine.call rules ⟨0, [], halfPhi.written "m"⟩ 4 f []).on .empty).1 = .ok (.real x) ∧
        ¬Format.single.Holds x :=
  ⟨⟨Draft.written_admitted (by decide +kernel), by decide +kernel, by decide +kernel,
      Module.exists_of_strays Format.half_proper (by decide +kernel)⟩,
    Draft.written_admitted (by decide +kernel), by decide +kernel,
    Module.exists_of_strays Format.single_proper (by decide +kernel)⟩

end Ssa

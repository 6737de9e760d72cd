/-
# `Ssa.Proofs.Exec.Contents` — what cells hold

A cell is a place for one value, of whatever type.  A store puts the value of its operand there and a
load takes out what is there; neither of them looks at the type of the cell, nor at that of the pointer
which it goes through.  So a cell holds what was stored in it last, through whatever pointer and in
whatever run of the engine, and until then what it was made with.

The stores in the life of an engine are listed, the latest first, and the life goes on by one step at a
time.

**Proved here.**

    a step that stores nothing only makes cells                            (`step_unstored`)
    one that does changes one cell, and nothing else                       (`step_stored`)
    a step at a load binds it to what the cell holds                       (`step_load`)
    an access through what is no cell fails                                (`step_raw`)
    in the life of an engine a cell holds what was stored last             (`Lives.follows`)
-/
import Ssa.Proofs.Exec.Onward
import Ssa.Proofs.Exec.Steps

namespace Ssa

open Interpreted (rules eval perform compute control cellOf initialValue)

/-! ## Memories that grow -/

/-- A cell holds what it is made with: the zero of its type, or the initial value of a variable. -/
def Cell.IsFirst (m : Module) (c : Cell) : Prop :=
  c.value = Value.zero c.type ∨
    ∃ (i : Nat) (x : Variable) (function : String), m.symbols[i]? = some (.variable x) ∧
      c.type = x.type ∧ initialValue function x = .ok c.value

/-- What becomes of a memory as long as nothing is stored: its cells are as they were, and the others
hold what they are made with. -/
structure Memory.Grown (m : Module) (mem mem' : Memory) : Prop where
  kept : ∀ id c, mem.storage.cell? id = some c → mem'.storage.cell? id = some c
  made : ∀ id c, mem.storage.cell? id = none → mem'.storage.cell? id = some c → c.IsFirst m

namespace Memory.Grown

variable {m : Module} {mem mem' mem'' : Memory}

theorem refl (mem : Memory) : mem.Grown m mem :=
  ⟨fun _ _ h => h, fun _ _ hnone h => nomatch hnone.symm.trans h⟩

theorem trans (h : mem.Grown m mem') (h' : mem'.Grown m mem'') : mem.Grown m mem'' where
  kept id c hc := h'.kept id c (h.kept id c hc)
  made id c hnone hc := by
    cases hmid : mem'.storage.cell? id with
    | none => exact h'.made id c hmid hc
    | some c' =>
        cases (h'.kept id c' hmid).symm.trans hc
        exact h.made id c hnone hmid

/-- One cell more, which holds what it is made with. -/
theorem addCell {c : Cell} (hc : c.IsFirst m) (globals : List (Nat × Nat)) :
    mem.Grown m ⟨mem.storage.addCell c, globals⟩ where
  kept id c' hc' := by
    rw [Storage.cell?_addCell, if_neg (Storage.lt_of_cell? hc').ne, hc']
  made id c' hnone hc' := by
    rw [Storage.cell?_addCell] at hc'
    split at hc'
    · cases hc'
      exact hc
    · nomatch hnone.symm.trans hc'

theorem isSome (h : mem.Grown m mem') {id : Nat} (hid : (mem.storage.cell? id).isSome) :
    (mem'.storage.cell? id).isSome := by
  obtain ⟨c, hc⟩ := Option.isSome_iff_exists.mp hid
  rw [h.kept id c hc]
  rfl

/-- The interpreter makes cells with what they are to hold at first. -/
theorem admits (m : Module) : Memory.Admits m (Memory.Grown m) where
  refl := refl
  trans := trans
  refers mem function i x hx := by
    rcases globalCell_leaves function i x mem with heq | ⟨-, v, hv, heq⟩
    · rw [heq]
      exact refl mem
    · rw [heq]
      exact addCell (c := ⟨x.type, v⟩) (.inr ⟨i, x, function, hx, rfl, hv⟩) _
  adds _ t := addCell (c := ⟨t, Value.zero t⟩) (.inl rfl) _

end Memory.Grown

/-- Nothing is written where there is no cell. -/
theorem Storage.write_of_none {s : Storage} {id : Nat} (h : s.cell? id = none) (v : Value) :
    s.write id v = s := by
  have hle : s.cells.size ≤ id := by simpa [cell?] using h
  unfold write
  congr 1
  refine Array.ext (by simp) fun j hj hj' => ?_
  rw [Array.getElem_modify, if_neg (by omega)]

/-! ## What a step stores -/

/-- A store that was made: the cell, the type of the operand that was stored, and its value. -/
structure Stored where
  cell : Nat
  type : Ty
  value : Value

/-- The values of the two operands of a store, in the order in which they are evaluated. -/
def Frame.stored (p : Program) (fr : Frame) (v a : Operand) : Exec (Value × Value) := do
  let x ← eval p fr.function fr.env v
  let y ← eval p fr.function fr.env a
  return (x, y)

/-- What the next step of a frame stores: nothing, unless it is at a store through a pointer to a cell
that is there. -/
def Frame.store? (p : Program) (fr : Frame) (mem : Memory) : Option Stored :=
  match fr.current?.map Instr.op with
  | some (.store v a) =>
    match (fr.stored p v a).on mem with
    | (.ok (x, .cell id), mem') =>
      if (mem'.storage.cell? id).isSome then some ⟨id, v.type, x⟩ else none
    | _ => none
  | _ => none

/-- The operand that an access goes through. -/
def OpOver.address? : Op → Option Operand
  | .load a | .store _ a => some a
  | _ => none

namespace Interpreted

variable {p : Program} {fr : Frame} {waiting : List Frame} {mem mem₁ mem₂ : Memory} {i : Instr}
  {v a : Operand} {y : Value} {id : Nat} {c : Cell}

/-- The memory in which an access comes to its pointer: a store evaluates what it stores before that. -/
def Reaching (p : Program) (fr : Frame) (op : Op) (mem mem₁ : Memory) : Prop :=
  match op with
  | .store v _ => ∃ x, (eval p fr.function fr.env v).on mem = (.ok x, mem₁)
  | _ => mem₁ = mem

/-- A load binds what the cell holds, and leaves the memory. -/
theorem step_load (hi : fr.current? = some i) (hop : i.op = .load a)
    (ha : (eval p fr.function fr.env a).on mem = (.ok (.cell id), mem₁))
    (hc : mem₁.storage.cell? id = some c) :
    (Machine.step rules p fr waiting).on mem =
      (.ok (.running (fr.advance i.id c.value) waiting), mem₁) := by
  refine Machine.on_of_stepped (.bound hi ?_)
  show (perform p fr.function fr.env i).on mem = _
  unfold perform
  rw [hop]
  simp only [control, compute, bind_assoc, Effect.on_bind, ha, cellOf, Exec.on_cell, hc,
    Effect.on_pure, Option.getD_some]

/-- What a store comes to. -/
theorem perform_store (hop : i.op = .store v a) :
    (perform p fr.function fr.env i).on mem =
      match (fr.stored p v a).on mem with
      | (.ok (x, .cell id), mem') =>
        (.ok (.value .null), { mem' with storage := mem'.storage.write id x })
      | (.ok _, mem') => (.error (.unsupported (.rawPointer i.op.word) fr.function.name), mem')
      | (.error e, mem') => (.error e, mem') := by
  unfold perform Frame.stored
  rw [hop]
  simp only [control, compute, bind_assoc, Effect.on_bind]
  rcases (eval p fr.function fr.env v).on mem with ⟨e | x, mem₁⟩
  · rfl
  · dsimp only
    rcases (eval p fr.function fr.env a).on mem₁ with ⟨e | y, mem₂⟩
    · rfl
    · cases y <;> rfl

/-- An access through what is no cell fails. -/
theorem step_raw (hi : fr.current? = some i) (haddress : i.op.address? = some a)
    (hreach : Reaching p fr i.op mem mem₁)
    (ha : (eval p fr.function fr.env a).on mem₁ = (.ok y, mem₂)) (hy : ∀ id, y ≠ .cell id) :
    (Machine.step rules p fr waiting).on mem =
      (.error (.unsupported (.rawPointer i.op.word) fr.function.name), mem₂) := by
  have hcellOf (word : String) : cellOf fr.function word y =
      throw (.unsupported (.rawPointer word) fr.function.name) := by
    cases y <;> first | rfl | exact absurd rfl (hy _)
  refine Machine.on_of_stepped (.failed hi ?_)
  show (perform p fr.function fr.env i).on mem = _
  cases hop : i.op with
  | load a' =>
      rw [hop] at haddress hreach
      cases haddress
      cases hreach
      unfold perform
      simp only [hop, control, compute, bind_assoc, Effect.on_bind, ha, hcellOf, Effect.on_throw]
  | store v a' =>
      rw [hop] at haddress hreach
      cases haddress
      obtain ⟨x, hv⟩ := hreach
      have hon : (fr.stored p v a).on mem = (.ok (x, y), mem₂) := by
        simp only [Frame.stored, Effect.on_bind, hv, ha, Effect.on_pure]
      rw [perform_store hop, hon, hop]
      cases y <;> first | rfl | exact absurd rfl (hy _)
  | _ => rw [hop] at haddress; cases haddress

/-! ### Cells before and after -/

theorem stored_within {R : Memory → Memory → Prop} (hR : Memory.Admits p.module R) (fr : Frame)
    (v a : Operand) : Exec.Within R (fr.stored p v a) :=
  .bind hR (eval_within hR _ _ v) fun _ => .bind hR (eval_within hR _ _ a) fun _ => .pure hR _

/-- Where a step stores something, it is at a store whose operands come to the value and the cell, and
the cell is written to. -/
theorem step_of_store? (waiting : List Frame) {s : Stored} (h : fr.store? p mem = some s) :
    ∃ i v a mem', fr.current? = some i ∧ i.op = .store v a ∧ s.type = v.type ∧
      (fr.stored p v a).on mem = (.ok (s.value, .cell s.cell), mem') ∧
      (mem'.storage.cell? s.cell).isSome ∧
      (Machine.step rules p fr waiting).on mem =
        (.ok (.running (fr.advance i.id .null) waiting),
          { mem' with storage := mem'.storage.write s.cell s.value }) := by
  unfold Frame.store? at h
  split at h
  · rename_i v a hop
    obtain ⟨i, hi, hop⟩ := Option.map_eq_some_iff.mp hop
    split at h
    · rename_i x id mem' hon
      split at h
      · rename_i hid
        cases h
        refine ⟨i, v, a, mem', hi, hop, rfl, hon, hid, Machine.on_of_stepped (.bound hi ?_)⟩
        exact (perform_store hop).trans (by rw [hon])
      · cases h
    · cases h
  · cases h

/-- What is stored is written to a cell that is there, and nothing else is. -/
theorem step_stored (waiting : List Frame) {s : Stored} (h : fr.store? p mem = some s) :
    ∃ i mem', fr.current? = some i ∧ mem.Grown p.module mem' ∧ (mem'.storage.cell? s.cell).isSome ∧
      (Machine.step rules p fr waiting).on mem =
        (.ok (.running (fr.advance i.id .null) waiting),
          { mem' with storage := mem'.storage.write s.cell s.value }) := by
  obtain ⟨i, v, a, mem', hi, -, -, hon, hid, hstep⟩ := step_of_store? waiting h
  have hgrown := stored_within (Memory.Grown.admits p.module) fr v a mem
  rw [hon] at hgrown
  exact ⟨i, mem', hi, hgrown, hid, hstep⟩

/-- A step that stores nothing does no more to a memory than to ask for cells of variables and to add
cells. -/
theorem step_unstored {R : Memory → Memory → Prop} (hR : Memory.Admits p.module R)
    (waiting : List Frame) (h : fr.store? p mem = none) :
    R mem ((Machine.step rules p fr waiting).on mem).2 := by
  by_cases hop : ∃ i v a, fr.current? = some i ∧ i.op = .store v a
  · obtain ⟨i, v, a, hi, hop⟩ := hop
    have hwithin := stored_within hR fr v a mem
    have hp : (perform p fr.function fr.env i).on mem = _ := perform_store hop
    simp only [Frame.store?, hi, Option.map_some, hop] at h
    rcases hon : (fr.stored p v a).on mem with ⟨e | ⟨x, y⟩, mem'⟩
    · rw [hon] at hwithin hp
      rw [Machine.on_of_stepped (.failed hi hp)]
      exact hwithin
    · rw [hon] at h hwithin hp
      cases y with
      | cell id =>
          have hnone : mem'.storage.cell? id = none := by
            cases hc : mem'.storage.cell? id with
            | none => rfl
            | some c => simp [hc] at h
          rw [Machine.on_of_stepped (.bound hi hp)]
          rw [Storage.write_of_none hnone]
          exact hwithin
      | _ =>
          rw [Machine.on_of_stepped (.failed hi hp)]
          exact hwithin
  · refine step_within hR fr waiting (fun i hi hwrites => ?_) mem
    cases hstore : i.op with
    | store v a => exact absurd ⟨i, v, a, hi, hstore⟩ hop
    | _ => rw [hstore] at hwrites; cases hwrites

end Interpreted

/-! ## What was stored in a cell -/

namespace Stored

/-- What a cell of an engine that began with some storage held before anything was stored in it: what it
held when the engine began, or what it was made with. -/
def IsOriginal (m : Module) (start : Storage) (s : Stored) : Prop :=
  start.cell? s.cell = some ⟨s.type, s.value⟩ ∨
    start.cell? s.cell = none ∧ Cell.IsFirst m ⟨s.type, s.value⟩

/-- What was stored in a cell, the latest first, down to what it held before. -/
def history (log : List Stored) (original : Stored) : List Stored :=
  log.filter (·.cell = original.cell) ++ [original]

variable {log : List Stored} {s original : Stored}

theorem history_of_eq (h : s.cell = original.cell) :
    history (s :: log) original = s :: history log original := by
  unfold history
  rw [List.filter_cons_of_pos (by simpa using h)]
  rfl

theorem history_of_ne (h : s.cell ≠ original.cell) :
    history (s :: log) original = history log original := by
  unfold history
  rw [List.filter_cons_of_neg (by simpa using h)]

theorem history_of_new (h : ∀ s ∈ log, s.cell ≠ original.cell) : history log original = [original] := by
  unfold history
  rw [List.filter_eq_nil_iff.mpr fun s hs => by simpa using h s hs]
  rfl

end Stored

/-- What is known of the cells of an engine that began with some storage, after some stores: each holds
what was stored in it last. -/
structure Memory.Follows (m : Module) (start : Storage) (log : List Stored) (mem : Memory) : Prop where
  there : ∀ s ∈ log, (mem.storage.cell? s.cell).isSome
  lasts : ∀ id, (start.cell? id).isSome → (mem.storage.cell? id).isSome
  holds : ∀ id c, mem.storage.cell? id = some c → ∃ original s older, original.cell = id ∧
    original.IsOriginal m start ∧ Stored.history log original = s :: older ∧ c.value = s.value

namespace Memory.Follows

variable {m : Module} {start : Storage} {log : List Stored} {mem mem' : Memory}

theorem refl (m : Module) (mem : Memory) : mem.Follows m mem.storage [] where
  there := nofun
  lasts _ h := h
  holds id c hc := ⟨⟨id, c.type, c.value⟩, _, [], rfl, .inl hc, rfl, rfl⟩

theorem grown (h : mem.Follows m start log) (hgrown : mem.Grown m mem') :
    mem'.Follows m start log where
  there s hs := hgrown.isSome (h.there s hs)
  lasts id hid := hgrown.isSome (h.lasts id hid)
  holds id c hc := by
    cases hc' : mem.storage.cell? id with
    | some c' =>
        cases (hgrown.kept id c' hc').symm.trans hc
        exact h.holds id c hc'
    | none =>
        have hnot {s : Stored} (hs : (mem.storage.cell? s.cell).isSome) : s.cell ≠ id := by
          rintro rfl
          rw [hc'] at hs
          cases hs
        have hstart : start.cell? id = none := by
          by_contra hne
          exact hnot (s := ⟨id, c.type, c.value⟩) (h.lasts id (Option.isSome_iff_ne_none.mpr hne)) rfl
        exact ⟨⟨id, c.type, c.value⟩, _, [], rfl, .inr ⟨hstart, hgrown.made id c hc' hc⟩,
          Stored.history_of_new fun s hs => hnot (h.there s hs), rfl⟩

theorem write (h : mem.Follows m start log) (s : Stored) (hs : (mem.storage.cell? s.cell).isSome) :
    Memory.Follows m start (s :: log) { mem with storage := mem.storage.write s.cell s.value } := by
  have hsome (id : Nat) (hid : (mem.storage.cell? id).isSome) :
      ((mem.storage.write s.cell s.value).cell? id).isSome := by
    rw [Storage.cell?_write]
    split
    · simpa using hid
    · exact hid
  constructor
  · intro s' hs'
    rcases List.mem_cons.mp hs' with rfl | hs'
    · exact hsome _ hs
    · exact hsome _ (h.there s' hs')
  · exact fun id hid => hsome id (h.lasts id hid)
  · intro id c hc
    rw [Storage.cell?_write] at hc
    split at hc
    · rename_i hid
      obtain ⟨c', hc', rfl⟩ := Option.map_eq_some_iff.mp hc
      obtain ⟨original, -, -, horiginal, hfirst, -, -⟩ := h.holds id c' hc'
      exact ⟨original, s, _, horiginal, hfirst, Stored.history_of_eq (hid.trans horiginal.symm), rfl⟩
    · rename_i hne
      obtain ⟨original, s', older, rfl, hfirst, hlog, hvalue⟩ := h.holds id c hc
      exact ⟨original, s', older, rfl, hfirst, (Stored.history_of_ne hne).trans hlog, hvalue⟩

end Memory.Follows

/-! ## The life of an engine -/

namespace Machine

/-- The life of an engine from a memory on: the stores that were made, the latest first, the state of
the run that is going on, if one is, and the memory.  A run begins with the call of any function on any
arguments, and may be given up at any time. -/
inductive Lives (p : Program) (start : Memory) : List Stored → Option State → Memory → Prop
  | fresh : Lives p start [] none start
  | entered {log : List Stored} {st : Option State} {mem mem' : Memory} {f : Function}
      {args : List Value} {fr : Frame} : Lives p start log st mem →
      (enter rules p f args).on mem = (.ok fr, mem') →
      Lives p start log (some (.running fr [])) mem'
  | barred {log : List Stored} {st : Option State} {mem mem' : Memory} {f : Function}
      {args : List Value} {e : Failure} : Lives p start log st mem →
      (enter rules p f args).on mem = (.error e, mem') → Lives p start log none mem'
  | stepped {log : List Stored} {fr : Frame} {waiting : List Frame} {mem mem' : Memory} {st : State} :
      Lives p start log (some (.running fr waiting)) mem →
      (step rules p fr waiting).on mem = (.ok st, mem') →
      Lives p start ((fr.store? p mem).toList ++ log) (some st) mem'
  | failed {log : List Stored} {fr : Frame} {waiting : List Frame} {mem mem' : Memory} {e : Failure} :
      Lives p start log (some (.running fr waiting)) mem →
      (step rules p fr waiting).on mem = (.error e, mem') → Lives p start log none mem'

/-- Throughout the life of an engine its cells hold what was stored last. -/
theorem Lives.follows {p : Program} {start mem : Memory} {log : List Stored} {st : Option State}
    (h : Lives p start log st mem) : mem.Follows p.module start.storage log := by
  have hR := Memory.Grown.admits p.module
  induction h with
  | fresh => exact .refl p.module start
  | @entered log st mem mem' f args fr _ he ih | @barred log st mem mem' f args fr _ he ih =>
      have hgrown := Interpreted.enter_within hR f args mem
      rw [he] at hgrown
      exact ih.grown hgrown
  | @stepped log fr waiting mem mem' st _ hstep ih =>
      cases hs : fr.store? p mem with
      | none =>
          have hgrown := Interpreted.step_unstored hR waiting hs
          rw [hstep] at hgrown
          exact ih.grown hgrown
      | some s =>
          obtain ⟨i, mem₁, -, hgrown, hcell, hon⟩ := Interpreted.step_stored waiting hs
          cases hstep.symm.trans hon
          exact (ih.grown hgrown).write s hcell
  | @failed log fr waiting mem mem' e _ hstep ih =>
      cases hs : fr.store? p mem with
      | none =>
          have hgrown := Interpreted.step_unstored hR waiting hs
          rw [hstep] at hgrown
          exact ih.grown hgrown
      | some s =>
          obtain ⟨i, mem₁, -, -, -, hon⟩ := Interpreted.step_stored waiting hs
          cases hstep.symm.trans hon

end Machine

end Ssa

/-
# `Ssa.Proofs.Exec.Separate` — cells do not overlap

Engines do one run after another on one storage, each with variables of its own, and a run may be given
up at any time.  The stores that were made are listed over all of them, the latest first, and so is what
each cell was made with.  Cells are numbered in the order in which they are made, and what a value denotes
is there; so a cell that is made is denoted by nothing yet, and what is put into one cell is not seen
through another.

**Proved here.**

    a step leaves what it reached, with one cell written to if it stores    (`step_reached`)
    cells hold what was stored last, or what they were made with            (`History.follows`)
    what is denoted is there                                                (`History.closed`)
    whole calls are part of a history                                       (`History.call`)
    making, storing, loading, and all else, at every state of a history     (`History.separate`)
-/
import Ssa.Proofs.Exec.Closed
import Ssa.Proofs.Exec.Contents

namespace Ssa

open Interpreted (rules eval initialValue)
open Machine (State step enter run call)

/-! ## What a step reaches -/

/-- The memory that a step has reached when it has evaluated all that it is to: a store is still to be
made then. -/
def Frame.reached (p : Program) (fr : Frame) (waiting : List Frame) (mem : Memory) : Memory :=
  match fr.current?.map Instr.op with
  | some (.store v a) => ((fr.stored p v a).on mem).2
  | _ => ((step rules p fr waiting).on mem).2

/-- A memory with what is stored, if anything is. -/
def Memory.put (mem : Memory) : Option Stored → Memory
  | none => mem
  | some s => { mem with storage := mem.storage.write s.cell s.value }

namespace Interpreted

variable {p : Program} {fr : Frame} {mem : Memory}

theorem perform_alloca {f : Function} {env : Env} {i : Instr} {t : Ty} {n : Option Operand}
    (hop : i.op = .alloca t n) :
    (perform p f env i).on mem = (.ok (.value (.cell mem.storage.cells.size)),
      { mem with storage := mem.storage.addCell ⟨t, Value.zero t⟩ }) := by
  unfold perform
  rw [hop]
  rfl

/-- A step leaves what it has reached, and makes the store that is to be made. -/
theorem step_reached (p : Program) (fr : Frame) (waiting : List Frame) (mem : Memory) :
    ((step rules p fr waiting).on mem).2 = (fr.reached p waiting mem).put (fr.store? p mem) := by
  by_cases hstore : ∃ i v a, fr.current? = some i ∧ i.op = .store v a
  · obtain ⟨i, v, a, hi, hop⟩ := hstore
    have hperform : (rules.perform p fr.function fr.env i).on mem = _ := perform_store hop
    simp only [Frame.reached, Frame.store?, hi, Option.map_some, hop]
    rcases hon : (fr.stored p v a).on mem with ⟨e | ⟨x, y⟩, mem₁⟩ <;> rw [hon] at hperform
    · rw [Machine.on_of_stepped (.failed hi hperform)]
      rfl
    · cases y with
      | cell id =>
          rw [Machine.on_of_stepped (.bound hi hperform)]
          dsimp only
          split
          · rfl
          · rename_i hnone
            have hnone : mem₁.storage.cell? id = none := by simpa using hnone
            rw [Storage.write_of_none hnone]
            rfl
      | _ =>
          rw [Machine.on_of_stepped (.failed hi hperform)]
          rfl
  · have hother : fr.store? p mem = none ∧ fr.reached p waiting mem = ((step rules p fr waiting).on mem).2 := by
      unfold Frame.store? Frame.reached
      cases hi : fr.current? with
      | none => exact ⟨rfl, rfl⟩
      | some i =>
          rw [Option.map_some]
          cases hop : i.op with
          | store v a => exact absurd ⟨i, v, a, hi, hop⟩ hstore
          | _ => exact ⟨rfl, rfl⟩
    rw [hother.1, hother.2]
    rfl

/-- What a step reaches has the cells that were there, as they were. -/
theorem reached_grown (p : Program) (fr : Frame) (waiting : List Frame) (mem : Memory) :
    mem.Grown p.module (fr.reached p waiting mem) := by
  have hR := Memory.Grown.admits p.module
  cases hs : fr.store? p mem with
  | none =>
      have hgrown := step_unstored hR waiting hs
      rw [step_reached, hs] at hgrown
      exact hgrown
  | some s =>
      obtain ⟨i, v, a, mem₁, hi, hop, -, hon, -, -⟩ := step_of_store? waiting hs
      have hgrown := stored_within hR fr v a mem
      have hreached : fr.reached p waiting mem = ((fr.stored p v a).on mem).2 := by
        simp only [Frame.reached, hi, Option.map_some, hop]
      rw [hreached]
      exact hgrown

end Interpreted

/-! ## Histories -/

/-- What cells were made with, when those of a memory that were not there before are known. -/
def firstIn (first : Nat → Option Cell) (mem : Memory) (id : Nat) : Option Cell :=
  (first id).or (mem.storage.cell? id)

/-- The history of some storage: the stores that were made, the latest first, what the cells were made
with, the run that is going on, if one is, and the memory.  A run begins with any function of any module,
with variables and arguments that denote cells which are there; it is over when it fails, and may be given
up before. -/
inductive History : List Stored → (Nat → Option Cell) → Option (Program × State) → Memory → Prop
  | fresh : History [] (fun _ => none) none .empty
  | entered {log : List Stored} {first : Nat → Option Cell} {going : Option (Program × State)}
      {mem mem' : Memory} {globals : List (Nat × Nat)} {p : Program} {f : Function} {args : List Value}
      {r : Except Failure Frame} : History log first going mem →
      (∀ e ∈ globals, (mem.storage.cell? e.2).isSome) → (∀ v ∈ args, v.IsThere mem.storage) →
      (enter rules p f args).on ⟨mem.storage, globals⟩ = (r, mem') →
      History log (firstIn first mem') (r.toOption.map fun fr => (p, .running fr [])) mem'
  | stepped {log : List Stored} {first : Nat → Option Cell} {p : Program} {fr : Frame}
      {waiting : List Frame} {mem mem' : Memory} {r : Except Failure State} :
      History log first (some (p, .running fr waiting)) mem →
      (step rules p fr waiting).on mem = (r, mem') →
      History ((fr.store? p mem).toList ++ log) (firstIn first (fr.reached p waiting mem))
        (r.toOption.map fun st => (p, st)) mem'

/-- The value that was stored in a cell last, if one was. -/
def lastStored (log : List Stored) (id : Nat) : Option Value :=
  (log.find? fun s => decide (s.cell = id)).map Stored.value

/-- A memory has the cells that were made, and they hold what was stored in them last, or what they were
made with. -/
structure Memory.Recorded (log : List Stored) (first : Nat → Option Cell) (mem : Memory) : Prop where
  holds : ∀ id, mem.storage.cell? id =
    (first id).map fun c => ⟨c.type, (lastStored log id).getD c.value⟩
  made : ∀ s ∈ log, (first s.cell).isSome

theorem lastStored_cons (s : Stored) (log : List Stored) (id : Nat) :
    lastStored (s :: log) id = if s.cell = id then some s.value else lastStored log id := by
  rw [lastStored, lastStored, List.find?_cons]
  by_cases h : s.cell = id <;> simp [h]

namespace Memory.Recorded

variable {log : List Stored} {first : Nat → Option Cell} {mem mem' : Memory} {id : Nat}

theorem isSome_first (h : mem.Recorded log first) : (first id).isSome = (mem.storage.cell? id).isSome := by
  rw [h.holds id, Option.isSome_map]

/-- In a cell that was not made nothing was stored. -/
theorem lastStored_of_none (h : mem.Recorded log first) (hid : first id = none) : lastStored log id = none := by
  rw [lastStored, Option.map_eq_none_iff, List.find?_eq_none]
  intro s hs hcell
  have hmade := h.made s hs
  rw [of_decide_eq_true hcell, hid] at hmade
  cases hmade

theorem grown {m : Module} (h : mem.Recorded log first) (hgrown : mem.Grown m mem') :
    mem'.Recorded log (firstIn first mem') where
  holds id := by
    rw [firstIn]
    cases hfirst : first id with
    | some c =>
        have hc := h.holds id
        rw [hfirst] at hc
        exact hgrown.kept id _ hc
    | none =>
        rw [h.lastStored_of_none hfirst, Option.none_or]
        cases mem'.storage.cell? id <;> rfl
  made s hs := by
    rw [firstIn, Option.isSome_or, h.made s hs]
    rfl

/-- A cell that was made is written to. -/
theorem put (h : mem.Recorded log first) {s : Stored} (hs : (mem.storage.cell? s.cell).isSome) :
    (mem.put (some s)).Recorded (s :: log) first where
  holds id := by
    show (mem.storage.write s.cell s.value).cell? id = _
    rw [Storage.cell?_write, lastStored_cons]
    split
    · rename_i hid
      rw [h.holds id, Option.map_map]
      rfl
    · exact h.holds id
  made s' hs' := by
    rcases List.mem_cons.mp hs' with rfl | hs'
    · exact h.isSome_first.trans hs
    · exact h.made s' hs'

end Memory.Recorded

namespace History

variable {log : List Stored} {first : Nat → Option Cell} {going : Option (Program × State)} {mem mem' : Memory}

/-- Cells hold what was stored last, or what they were made with. -/
theorem follows (h : History log first going mem) : mem.Recorded log first := by
  induction h with
  | fresh => exact ⟨fun id => rfl, nofun⟩
  | @entered log first going mem mem' globals p f args r _ _ _ henter ih =>
      have hgrown := Interpreted.enter_within (Memory.Grown.admits p.module) f args ⟨mem.storage, globals⟩
      rw [henter] at hgrown
      have hrecorded : Memory.Recorded log first ⟨mem.storage, globals⟩ := ⟨ih.holds, ih.made⟩
      exact hrecorded.grown hgrown
  | @stepped log first p fr waiting mem mem' r _ hstep ih =>
      have hgrown := ih.grown (Interpreted.reached_grown p fr waiting mem)
      have hleft := Interpreted.step_reached p fr waiting mem
      rw [hstep] at hleft
      dsimp only at hleft
      rw [hleft]
      cases hs : fr.store? p mem with
      | none => exact hgrown
      | some s =>
          obtain ⟨i, v, a, mem₁, hi, hop, -, hon, hcell, -⟩ := Interpreted.step_of_store? waiting hs
          have hreached : fr.reached p waiting mem = mem₁ := by
            simp only [Frame.reached, hi, Option.map_some, hop, hon]
          exact hgrown.put (hreached ▸ hcell)

/-- What is denoted is there. -/
theorem closed (h : History log first going mem) : Closed mem (going.map Prod.snd) := by
  induction h with
  | fresh =>
      intro id hid
      cases hid with
      | content hc => cases hc
      | «variable» hg => cases hg
  | @entered log first going mem mem' globals p f args r _ hglobals hargs henter ih =>
      have hidle : Closed ⟨mem.storage, globals⟩ none := by
        intro id hid
        cases hid with
        | content hc hv => exact ih id (.content hc hv)
        | «variable» hg => exact hglobals _ hg
      have hclosed := hidle.enter hargs henter
      cases r <;> exact hclosed
  | stepped _ hstep ih =>
      have hclosed := ih.step hstep
      rename_i r _
      cases r <;> exact hclosed

/-! ### Whole runs -/

/-- A run goes on in the history, and what it comes to is there. -/
theorem run {p : Program} {st : State} {r : Except Failure Value} {n : Nat}
    (h : History log first (some (p, st)) mem) (hrun : (run rules p n st).on mem = (r, mem')) :
    ∃ log' first' going', History (log' ++ log) first' going' mem' ∧
      ∀ v, r = .ok v → going' = some (p, .done v) := by
  induction n generalizing log first st mem with
  | zero =>
      cases st with
      | running fr waiting =>
          cases hrun
          exact ⟨[], first, _, h, nofun⟩
      | done v =>
          cases hrun
          exact ⟨[], first, _, h, fun _ hv => by cases hv; rfl⟩
  | succ n ih =>
      cases st with
      | done v =>
          cases hrun
          exact ⟨[], first, _, h, fun _ hv => by cases hv; rfl⟩
      | running fr waiting =>
          rw [Machine.on_run_succ] at hrun
          rcases hstep : (step rules p fr waiting).on mem with ⟨e | st, mem₁⟩ <;> rw [hstep] at hrun
          · cases hrun
            exact ⟨_, _, _, h.stepped hstep, nofun⟩
          · obtain ⟨log', first', going', hhistory, hresult⟩ := ih (h.stepped hstep) hrun
            rw [← List.append_assoc] at hhistory
            exact ⟨_, first', going', hhistory, hresult⟩

/-- So does a call, from the memory that other runs left, on variables and arguments that are there. -/
theorem call {p : Program} {f : Function} {args : List Value} {globals : List (Nat × Nat)}
    {r : Except Failure Value} {n : Nat} (h : History log first going mem)
    (hglobals : ∀ e ∈ globals, (mem.storage.cell? e.2).isSome) (hargs : ∀ v ∈ args, v.IsThere mem.storage)
    (hcall : (call rules p n f args).on ⟨mem.storage, globals⟩ = (r, mem')) :
    ∃ log' first' going', History (log' ++ log) first' going' mem' ∧
      ∀ v, r = .ok v → v.IsThere mem'.storage := by
  rcases Effect.on_bind_cases hcall with ⟨e, henter, rfl⟩ | ⟨fr, mem₁, henter, hrun⟩
  · exact ⟨[], _, _, h.entered hglobals hargs henter, nofun⟩
  · obtain ⟨log', first', going', hhistory, hresult⟩ := (h.entered hglobals hargs henter).run hrun
    refine ⟨log', first', going', hhistory, ?_⟩
    rintro v hv id rfl
    have hclosed := hhistory.closed
    rw [hresult _ hv] at hclosed
    exact hclosed id .result

/-! ### Cells that are made -/

/-- A cell that is not there is denoted by nothing, and nothing was stored in it. -/
theorem apart {id : Nat} (h : History log first going mem) (hid : mem.storage.cell? id = none) :
    first id = none ∧ (∀ s ∈ log, s.cell ≠ id) ∧ ¬Denoted mem (going.map Prod.snd) id := by
  have hfirst : first id = none := by
    have hsome : (first id).isSome = false := by rw [h.follows.isSome_first, hid]; rfl
    simpa using hsome
  refine ⟨hfirst, ?_, fun hdenoted => ?_⟩
  · rintro s hs rfl
    have hmade := h.follows.made s hs
    rw [hfirst] at hmade
    cases hmade
  · have hthere := h.closed id hdenoted
    rw [hid] at hthere
    cases hthere

end History

/-- A cell is made: it was not there, is denoted by nothing, and nothing was stored in it; it holds what it
is made with, and the other cells are as they were. -/
structure Memory.Makes (log : List Stored) (first : Nat → Option Cell) (st : State) (mem mem' : Memory)
    (id : Nat) (c : Cell) : Prop where
  unmade : first id = none
  unstored : ∀ s ∈ log, s.cell ≠ id
  undenoted : ¬Denoted mem (some st) id
  content : mem'.storage.cell? id = some c
  others : ∀ k, k ≠ id → mem'.storage.cell? k = mem.storage.cell? k

/-- A store through a cell, which is there, writes to it. -/
theorem History.store {log : List Stored} {first : Nat → Option Cell} {p : Program} {fr : Frame}
    {waiting : List Frame} {mem mem₁ : Memory} {i : Instr} {v a : Operand} {x : Value} {id : Nat}
    (h : History log first (some (p, .running fr waiting)) mem) (hop : i.op = .store v a)
    (hon : (fr.stored p v a).on mem = (.ok (x, .cell id), mem₁)) :
    (mem₁.storage.cell? id).isSome ∧ (rules.perform p fr.function fr.env i).on mem =
      (.ok (.value .null), { mem₁ with storage := mem₁.storage.write id x }) := by
  constructor
  · have hclosed : Closed mem (some (.running fr waiting)) := h.closed
    obtain ⟨u, mem₂, hv, hrest⟩ := Effect.on_bind_ok hon
    obtain ⟨w, mem₃, ha, hpair⟩ := Effect.on_bind_ok hrest
    cases hpair
    exact ((hclosed.eval hv).2.eval ha).1 id rfl
  · exact (Interpreted.perform_store hop).trans (by rw [hon])

theorem History.makes {log : List Stored} {first : Nat → Option Cell} {p : Program} {st : State} {mem : Memory}
    (h : History log first (some (p, st)) mem) (c : Cell) (globals : List (Nat × Nat)) :
    Memory.Makes log first st mem ⟨mem.storage.addCell c, globals⟩ mem.storage.cells.size c := by
  have hnone : mem.storage.cell? mem.storage.cells.size = none := by simp [Storage.cell?]
  obtain ⟨hfirst, hlog, hdenoted⟩ := h.apart hnone
  refine ⟨hfirst, hlog, hdenoted, (Storage.cell?_addCell ..).trans (if_pos rfl), fun k hk => ?_⟩
  exact (Storage.cell?_addCell ..).trans (if_neg hk)

/-- **Cells do not overlap.**  At a state of a history, whatever the instruction is:
an alloca binds a cell that was not made before, is denoted by nothing, and holds zero;
a store puts the value in the cell, and changes no other cell and no value of a frame;
everything else, and entering a function for another run, leaves the cells as they are;
a load binds what was stored in the cell last, or what it was made with if nothing was;
and a variable comes to the cell that it has, or to one that is made with what it begins with. -/
theorem History.separate {log : List Stored} {first : Nat → Option Cell} {p : Program} {fr : Frame}
    {waiting : List Frame} {mem : Memory} (h : History log first (some (p, .running fr waiting)) mem) :
    (∀ i t n, fr.current? = some i → i.op = .alloca t n → ∃ id mem',
      (step rules p fr waiting).on mem = (.ok (.running (fr.advance i.id (.cell id)) waiting), mem') ∧
      Memory.Makes log first (.running fr waiting) mem mem' id ⟨t, Value.zero t⟩) ∧
    (∀ i v a x id mem₁, fr.current? = some i → i.op = .store v a →
      (fr.stored p v a).on mem = (.ok (x, .cell id), mem₁) → ∃ c mem',
      (step rules p fr waiting).on mem = (.ok (.running (fr.advance i.id .null) waiting), mem') ∧
      (∀ k, k ≠ i.id → (fr.advance i.id .null).env.lookup k = fr.env.lookup k) ∧
      mem₁.storage.cell? id = some c ∧ mem'.storage.cell? id = some ⟨c.type, x⟩ ∧
      (∀ k, k ≠ id → mem'.storage.cell? k = mem₁.storage.cell? k) ∧
      ∀ k c, mem.storage.cell? k = some c → mem₁.storage.cell? k = some c) ∧
    (∀ id c, mem.storage.cell? id = some c →
      ((∀ i v a x k mem₁, fr.current? = some i → i.op = .store v a →
          (fr.stored p v a).on mem ≠ (.ok (x, .cell k), mem₁)) →
        ((step rules p fr waiting).on mem).2.storage.cell? id = some c) ∧
      ∀ p' f args globals,
        ((enter rules p' f args).on ⟨mem.storage, globals⟩).2.storage.cell? id = some c) ∧
    (∀ i a id mem₁, fr.current? = some i → i.op = .load a →
      (eval p fr.function fr.env a).on mem = (.ok (.cell id), mem₁) → ∃ c, firstIn first mem₁ id = some c ∧
      (step rules p fr waiting).on mem =
        (.ok (.running (fr.advance i.id ((lastStored log id).getD c.value)) waiting), mem₁)) ∧
    ∀ g t x, p.module.symbols[g]? = some (.variable x) →
      (∀ id, mem.global? g = some id →
        (eval p fr.function fr.env (.global g t)).on mem = (.ok (.cell id), mem)) ∧
      (mem.global? g = none → ∀ v, initialValue fr.function.name x = .ok v → ∃ id mem',
        (eval p fr.function fr.env (.global g t)).on mem = (.ok (.cell id), mem') ∧
        mem'.global? g = some id ∧
        Memory.Makes log first (.running fr waiting) mem mem' id ⟨x.type, v⟩) := by
  have hclosed : Closed mem (some (.running fr waiting)) := h.closed
  refine ⟨fun i t n hi hop => ?_, fun i v a x id mem₁ hi hop hon => ?_, fun id c hc => ⟨fun hnot => ?_, ?_⟩,
    fun i a id mem₁ hi hop ha => ?_, fun g t x hx => ⟨fun id hg => ?_, fun hg v hv => ?_⟩⟩
  · exact ⟨_, _, Machine.on_of_stepped (.bound hi (Interpreted.perform_alloca hop)), h.makes _ _⟩
  · obtain ⟨hthere, hperform⟩ := h.store hop hon
    obtain ⟨c, hc⟩ := Option.isSome_iff_exists.mp hthere
    have hgrown := Interpreted.stored_within (Memory.Grown.admits p.module) fr v a mem
    rw [hon] at hgrown
    refine ⟨c, _, Machine.on_of_stepped (.bound hi hperform), fun k hk => ?_, hc, ?_, fun k hk => ?_,
      hgrown.kept⟩
    · exact (Env.lookup_bind ..).trans (if_neg hk)
    · rw [Storage.cell?_write, if_pos rfl, hc]
      rfl
    · exact (Storage.cell?_write ..).trans (if_neg hk.symm)
  · have hstore : fr.store? p mem = none := by
      cases hs : fr.store? p mem with
      | none => rfl
      | some s =>
          obtain ⟨i, v, a, mem₁, hi, hop, -, hon, -, -⟩ := Interpreted.step_of_store? waiting hs
          exact absurd hon (hnot i v a _ _ mem₁ hi hop)
    exact (Interpreted.step_unstored (Memory.Grown.admits p.module) waiting hstore).kept id c hc
  · intro p' f args globals
    exact (Interpreted.enter_within (Memory.Grown.admits p'.module) f args ⟨mem.storage, globals⟩).kept id c hc
  · obtain ⟨hthere, -⟩ := hclosed.eval ha
    obtain ⟨c', hc'⟩ := Option.isSome_iff_exists.mp (hthere id rfl)
    have hgrown := Interpreted.eval_within (Memory.Grown.admits p.module) fr.function fr.env a mem
    rw [ha] at hgrown
    have hheld := (h.follows.grown hgrown).holds id
    obtain ⟨c, hfirst, rfl⟩ := Option.map_eq_some_iff.mp (hheld.symm.trans hc')
    exact ⟨c, hfirst, Interpreted.step_load hi hop ha hc'⟩
  · rw [Interpreted.eval_variable hx]
    exact Ties.globalCell_of_some _ x hg
  · have hon := Ties.globalCell_of_none fr.function.name x hg
    rw [hv] at hon
    rw [Interpreted.eval_variable hx]
    exact ⟨_, _, hon, by simp [Memory.global?], h.makes _ _⟩

/-! ### Two runs of a function with a cell -/

/-- A function that makes a cell, stores seven in it, and returns what it holds. -/
def keepingSeven : Function :=
  ⟨"f", .int 32, [], false, .fresh, #[], #[⟨"e", [
    ⟨0, .pointer (.int 32) 0, .alloca (.int 32) none⟩,
    ⟨1, .void, .store (.const (.int (.int 32) 7)) (.local 0 (.pointer (.int 32) 0))⟩,
    ⟨2, .int 32, .load (.local 0 (.pointer (.int 32) 0))⟩,
    ⟨3, .void, .ret (some (.local 2 (.int 32)))⟩]⟩]⟩

/-- A program of that function. -/
def keeper : Program := ⟨0, [], ⟨"m", #[.function keepingSeven]⟩⟩

/-- The frame of a run of it that is to load what it stored. -/
def keepingFrame (id : Nat) : Frame := ⟨keepingSeven, [(1, .null), (0, .cell id)], 0, 2, none⟩

/-- A run of it stores seven in a new cell, and goes on to load it. -/
theorem History.keeping {log : List Stored} {first : Nat → Option Cell} {going : Option (Program × State)}
    {mem : Memory} (h : History log first going mem) : ∃ first',
    History (⟨mem.storage.cells.size, .int 32, .int 7⟩ :: log) first'
      (some (keeper, .running (keepingFrame mem.storage.cells.size) []))
      ⟨(mem.storage.addCell ⟨.int 32, .int 0⟩).write mem.storage.cells.size (.int 7), []⟩ := by
  have henter : (Machine.enter rules keeper keepingSeven []).on ⟨mem.storage, []⟩ =
      (.ok ⟨keepingSeven, [], 0, 0, none⟩, ⟨mem.storage, []⟩) := rfl
  have hentered := h.entered (List.forall_mem_nil _) (List.forall_mem_nil _) henter
  have halloca : (step rules keeper ⟨keepingSeven, [], 0, 0, none⟩ []).on ⟨mem.storage, []⟩ =
      (.ok (.running ⟨keepingSeven, [(0, .cell mem.storage.cells.size)], 0, 1, none⟩ []),
        ⟨mem.storage.addCell ⟨.int 32, .int 0⟩, []⟩) := rfl
  have hmade := hentered.stepped halloca
  have hop : (keepingSeven.blocks[0].instrs[1]).op = _ := rfl
  obtain ⟨hthere, hperform⟩ := hmade.store hop rfl
  have hstored := hmade.stepped (Machine.on_of_stepped (.bound rfl hperform))
  have hstore : Frame.store? keeper ⟨keepingSeven, [(0, .cell mem.storage.cells.size)], 0, 1, none⟩
      ⟨mem.storage.addCell ⟨.int 32, .int 0⟩, []⟩ = some ⟨mem.storage.cells.size, .int 32, .int 7⟩ :=
    if_pos hthere
  rw [hstore] at hstored
  exact ⟨_, hstored⟩

/-- A second run makes a cell of its own, and loads what it stored there. -/
theorem History.separate_twice : ∃ log first fr mem,
    History log first (some (keeper, .running fr [])) mem ∧ log.map Stored.cell = [1, 0] ∧
      (step rules keeper fr []).on mem = (.ok (.running (fr.advance 2 (.int 7)) []), mem) := by
  obtain ⟨first, hfirst⟩ := History.keeping .fresh
  obtain ⟨first', hsecond⟩ := hfirst.keeping
  obtain ⟨-, -, -, hload, -⟩ := hsecond.separate
  obtain ⟨c, -, hstep⟩ := hload _ _ 1 _ rfl rfl rfl
  exact ⟨_, _, _, _, hsecond, rfl, hstep⟩

end Ssa

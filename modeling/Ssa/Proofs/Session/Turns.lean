/-
# `Ssa.Proofs.Session.Turns` — engines that take turns

Several engines may run functions of one module in turn.  What is handed to a run is no cell, or is what
an earlier run on the same engine gave; so each engine only ever comes upon cells of its own.

The runs on one engine are compared with what they are when the other engines' runs are left out.  The
cells that an engine has made are taken for those that it makes when it is alone; cells of different
engines are different, and a run lets those of the other engines be.  A turn keeps this, whatever is run
and however it ends, and so do turns in any order.

**Proved here.**

    a turn, whoever takes it, keeps engines apart              (`Apart.take`)
    turns in any order do                                        (`apart_play`)
    engines of one module do not interfere                       (`engines_apart`)
-/
import Mathlib.Data.List.Induction
import Ssa.Proofs.Session.Runs
import Ssa.Proofs.Session.Request

namespace Ssa.Session

open Effect (Paired)

/-! ## Turns -/

/-- An argument of a run: a value that is no cell, or, as a value of a type, what an earlier run on the
engine gave. -/
inductive Arg where
  | given (g : GenericValue) (plain : g.payload.isCell = false)
  | earlier (type : Ty) (index : Nat)

/-- A run on an engine. -/
structure Turn where
  engine : Nat
  callee : Callee
  args : List Arg

/-- A session in which runs were made, and what they came to, by engine and in order. -/
structure Play where
  session : Session
  log : List (Nat × Except Failure RunResult)

/-- What a run gave, as something to be handed on: null unless it is a value. -/
def payloadOf : Except Failure RunResult → Value
  | .ok (some g) => g.payload
  | _ => .null

/-- The value of an argument, where the earlier runs on the engine came to the given outcomes. -/
def Arg.value (answers : List (Except Failure RunResult)) : Arg → GenericValue
  | given g _ => g
  | earlier type index => ⟨type, (answers[index]?).elim .null payloadOf⟩

namespace Play

/-- What the runs on an engine came to. -/
def answers (p : Play) (engine : Nat) : List (Except Failure RunResult) :=
  (p.log.filter (·.1 = engine)).map Prod.snd

/-- Make a run. -/
def take (p : Play) (t : Turn) : Play :=
  let r := (run t.engine t.callee (t.args.map (Arg.value (p.answers t.engine)))).on p.session
  ⟨r.2, p.log ++ [(t.engine, r.1)]⟩

end Play

/-- Make runs in order. -/
def play (s : Session) (turns : List Turn) : Play := turns.foldl Play.take ⟨s, []⟩

/-- An engine interprets a module, and nothing was run on it. -/
def IsUnrun (s : Session) (engine : Nat) : Prop :=
  ∃ m, s.engine? engine = some ⟨engine, m, .interpreter, []⟩

variable {s s₀ : Session} {p q : Play} {t : Turn} {engine e m : Nat} {ρ : Renaming}

namespace Play

theorem answers_take (p : Play) (t : Turn) (e : Nat) : (p.take t).answers e = p.answers e ++
    if t.engine = e then
      [((run t.engine t.callee (t.args.map (Arg.value (p.answers t.engine)))).on p.session).1]
    else [] := by
  by_cases h : t.engine = e
  · simp [answers, take, h]
  · simp [answers, take, h]

end Play

theorem play_concat (s : Session) (turns : List Turn) (t : Turn) :
    s.play (turns ++ [t]) = (s.play turns).take t := by
  rw [play, List.foldl_append]
  rfl

/-! ## Engines that are apart -/

/-- What holds of an engine in a play, beside a play in which it is alone: its cells are taken for those of
the other play, and its runs came to the same. -/
structure Beside (s₀ : Session) (e : Nat) (ρ : Renaming) (p q : Play) : Prop where
  sound : p.session.IsSound ∧ q.session.IsSound
  later : s₀.Later p.session ∧ s₀.Later q.session
  cells : p.session.storage.Matched ρ q.session.storage
  globals : List.Forall₂ (fun x y => x.1 = y.1 ∧ ρ.pairs x.2 y.2) (p.session.globalsOf e)
    (q.session.globalsOf e)
  answers : List.Forall₂ (Agree (RunResult.Renamed ρ)) (p.answers e) (q.answers e)

/-- What holds of a play, beside the plays in which each engine is alone.  No cell is of two engines. -/
structure Apart (s₀ : Session) (ρ : Nat → Renaming) (p : Play) (alone : Nat → Play) : Prop where
  beside : ∀ e, s₀.IsUnrun e → s₀.Beside e (ρ e) p (alone e)
  own : ∀ e e' a b b', s₀.IsUnrun e → s₀.IsUnrun e' → (ρ e).pairs a b → (ρ e').pairs a b' → e = e'

theorem Arg.value_renamed {xs ys : List (Except Failure RunResult)}
    (h : List.Forall₂ (Agree (RunResult.Renamed ρ)) xs ys) (x : Arg) :
    (x.value xs).Renamed ρ (x.value ys) := by
  cases x with
  | given g plain => exact ⟨rfl, .same plain⟩
  | earlier type index =>
      refine ⟨rfl, ?_⟩
      show ((xs[index]?).elim Value.null payloadOf).Renamed ρ ((ys[index]?).elim Value.null payloadOf)
      induction h generalizing index with
      | nil => exact .null
      | cons hxy _ ih =>
          cases index with
          | succ index => exact ih index
          | zero =>
              show (payloadOf _).Renamed ρ (payloadOf _)
              cases hxy with
              | error e => exact .null
              | ok hg =>
                  cases hg with
                  | none => exact .null
                  | some hg => exact hg.payload

namespace Beside

/-- Before the first turn. -/
theorem start (hs : s.IsSound) (he : s.IsUnrun e) : s.Beside e .empty ⟨s, []⟩ ⟨s, []⟩ where
  sound := ⟨hs, hs⟩
  later := ⟨.refl s, .refl s⟩
  cells := nofun
  globals := by
    obtain ⟨m, he⟩ := he
    rw [globalsOf, he]
    exact .nil
  answers := .nil

/-- What a turn does, beside the same turn of the engine alone. -/
theorem turn (h : s₀.Beside t.engine ρ p q) (hu : s₀.IsUnrun t.engine) (hgiven : t.callee.IsGiven s₀)
    (had : Nat → Nat → Prop) (kept : Nat → Cell → Prop)
    (hhad : ∀ i id, had i id → (p.session.memoryOf t.engine).global? i = some id)
    (hkept : ∀ a c, kept a c → p.session.storage.cell? a = some c ∧ ∀ b, ¬ρ.pairs a b) :
    Paired (s₀.besides t.engine had kept) ρ
      (run t.engine t.callee (t.args.map (Arg.value (p.answers t.engine)))) p.session
      (run t.engine t.callee (t.args.map (Arg.value (q.answers t.engine)))) q.session
      RunResult.Renamed := by
  have hargs : List.Forall₂ (GenericValue.Renamed ρ) (t.args.map (Arg.value (p.answers t.engine)))
      (t.args.map (Arg.value (q.answers t.engine))) :=
    List.forall₂_map_left_iff.mpr (List.forall₂_map_right_iff.mpr
      (List.forall₂_same.mpr fun x _ => x.value_renamed h.answers))
  obtain ⟨m, hengine⟩ := hu
  exact run_paired h.sound.1 h.sound.2 ⟨h.later.1, h.later.2, h.cells, h.globals, hhad, hkept⟩ hengine rfl
    (fun _ _ => Ties.beside_opens had kept _) hgiven hargs

theorem sound_take (hs : p.session.IsSound) (t : Turn) : (p.take t).session.IsSound :=
  isSound_of_goes (run_goes hs _ _) rfl

theorem later_take (hs : p.session.IsSound) (h : s₀.Later p.session) (t : Turn) :
    s₀.Later (p.take t).session :=
  run_later hs h _ _ _

/-- A turn of another engine, which lets the cells of this one be. -/
theorem of_other (h : s₀.Beside e ρ p q) (he : e ≠ t.engine)
    (hkept : ∀ a b c, ρ.pairs a b → p.session.storage.cell? a = some c →
      (p.take t).session.storage.cell? a = some c) : s₀.Beside e ρ (p.take t) q where
  sound := ⟨sound_take h.sound.1 t, h.sound.2⟩
  later := ⟨later_take h.sound.1 h.later.1 t, h.later.2⟩
  cells a b hab := by
    obtain ⟨type, v, w, hv, hw, hvw⟩ := h.cells a b hab
    exact ⟨type, v, w, hkept a b _ hab hv, hw, hvw⟩
  globals := by
    have hsame : (p.take t).session.globalsOf e = p.session.globalsOf e :=
      globalsOf_run h.sound.1 he t.callee _
    rw [hsame]
    exact h.globals
  answers := by
    rw [Play.answers_take, if_neg he.symm, List.append_nil]
    exact h.answers

end Beside

namespace Apart

variable {alone : Nat → Play} {ρ : Nat → Renaming}

/-- The cells of the other engines. -/
def others (s₀ : Session) (ρ : Nat → Renaming) (p : Play) (engine : Nat) (a : Nat) (c : Cell) : Prop :=
  p.session.storage.cell? a = some c ∧ ∃ e b, s₀.IsUnrun e ∧ e ≠ engine ∧ (ρ e).pairs a b

/-- A turn keeps engines apart.  The variables of the engine keep the cells that they had, and the cells of
the other engines keep what is in them. -/
theorem take (h : s₀.Apart ρ p alone) (hu : s₀.IsUnrun t.engine) (hgiven : t.callee.IsGiven s₀) :
    (∃ ρ', s₀.Apart (fun e => if e = t.engine then ρ' else ρ e) (p.take t)
      fun e => if e = t.engine then (alone e).take t else alone e) ∧
      (∀ i id, (p.session.memoryOf t.engine).global? i = some id →
        ((p.take t).session.memoryOf t.engine).global? i = some id) ∧
      ∀ a c, others s₀ ρ p t.engine a c → (p.take t).session.storage.cell? a = some c := by
  have hb := h.beside t.engine hu
  obtain ⟨ρ', hρ, ⟨hlater, hlater', hcells, hglobals, hhad, hothers⟩, hanswer⟩ :=
    hb.turn hu hgiven _ (others s₀ ρ p t.engine) (fun _ _ hi => hi) fun a c hc => by
      obtain ⟨hcell, e, b, he, hne, hab⟩ := hc
      exact ⟨hcell, fun b' hab' => hne (h.own _ _ _ _ _ he hu hab hab')⟩
  -- a cell of another engine is not one of this engine's now
  have hfree {e a b b' : Nat} (he : s₀.IsUnrun e) (hne : e ≠ t.engine) (hab : (ρ e).pairs a b) :
      ¬ρ'.pairs a b' := by
    obtain ⟨_, _, _, hc, -⟩ := (h.beside e he).cells a b hab
    exact (hothers a _ ⟨hc, e, b, he, hne, hab⟩).2 b'
  refine ⟨⟨ρ', fun e he => ?_, fun e e' a b b' he he' hab hab' => ?_⟩, hhad, fun a c hc => (hothers a c hc).1⟩
  · by_cases heq : e = t.engine
    · subst heq
      rw [if_pos rfl, if_pos rfl]
      refine ⟨⟨Beside.sound_take hb.sound.1 t, Beside.sound_take hb.sound.2 t⟩, ⟨hlater, hlater'⟩, hcells,
        hglobals, ?_⟩
      rw [Play.answers_take, if_pos rfl, Play.answers_take, if_pos rfl]
      refine List.rel_append (hb.answers.imp fun _ _ hxy => hxy.mono fun _ _ hgg => hgg.mono hρ) ?_
      exact .cons hanswer .nil
    · rw [if_neg heq, if_neg heq]
      exact (h.beside e he).of_other heq fun a b c hab hc => (hothers a c ⟨hc, e, b, he, heq, hab⟩).1
  · by_cases heq : e = t.engine
    · by_cases heq' : e' = t.engine
      · rw [heq, heq']
      · rw [if_pos heq] at hab
        rw [if_neg heq'] at hab'
        exact absurd hab (hfree he' heq' hab')
    · rw [if_neg heq] at hab
      by_cases heq' : e' = t.engine
      · rw [if_pos heq'] at hab'
        exact absurd hab' (hfree he heq hab)
      · rw [if_neg heq'] at hab'
        exact h.own e e' a b b' he he' hab hab'

end Apart

/-- Turns in any order keep engines apart. -/
theorem apart_play (hs : s.IsSound) (turns : List Turn)
    (hturns : ∀ t ∈ turns, s.IsUnrun t.engine ∧ t.callee.IsGiven s) :
    ∃ ρ, s.Apart ρ (s.play turns) fun e => s.play (turns.filter (·.engine = e)) := by
  induction turns using List.reverseRecOn with
  | nil => exact ⟨fun _ => .empty, fun _ he => .start hs he, fun _ _ _ _ _ _ _ h => h.elim⟩
  | append_singleton turns t ih =>
      obtain ⟨ρ, h⟩ := ih fun t' ht' => hturns t' (List.mem_append_left _ ht')
      obtain ⟨hu, hgiven⟩ := hturns t (by simp)
      obtain ⟨⟨ρ', h'⟩, -, -⟩ := h.take hu hgiven
      have halone (e : Nat) : s.play ((turns ++ [t]).filter (·.engine = e)) =
          if e = t.engine then (s.play (turns.filter (·.engine = e))).take t
          else s.play (turns.filter (·.engine = e)) := by
        rw [List.filter_append]
        by_cases heq : e = t.engine
        · rw [if_pos heq, ← play_concat, List.filter_singleton, decide_eq_true heq.symm]
          rfl
        · rw [if_neg heq, List.filter_singleton, decide_eq_false (Ne.symm heq)]
          simp
      rw [← funext halone, ← play_concat] at h'
      exact ⟨_, h'⟩

/-! ## Engines of one module -/

/-- The cells that an engine can come upon: those of its variables, those that its runs gave, and those
that are in such a cell. -/
inductive Play.Reaches (p : Play) (e : Nat) : Nat → Prop
  | variable {i id : Nat} : (i, id) ∈ p.session.globalsOf e → Reaches p e id
  | answer {type : Ty} {id : Nat} : .ok (some ⟨type, .cell id⟩) ∈ p.answers e → Reaches p e id
  | content {id id' : Nat} {c : Cell} : Reaches p e id → p.session.storage.cell? id = some c →
      c.value = .cell id' → Reaches p e id'

theorem exists_of_forall₂ {α β : Type} {R : α → β → Prop} {xs : List α} {ys : List β}
    (h : List.Forall₂ R xs ys) {x : α} (hx : x ∈ xs) : ∃ y, R x y := by
  induction h with
  | nil => cases hx
  | cons hxy _ ih =>
      rcases List.mem_cons.mp hx with rfl | hx
      · exact ⟨_, hxy⟩
      · exact ih hx

/-- What an engine can come upon is taken for what it comes upon alone. -/
theorem Beside.pairs_of_reaches (h : s₀.Beside e ρ p q) {id : Nat} (hid : p.Reaches e id) :
    ∃ b, ρ.pairs id b := by
  induction hid with
  | «variable» hmem =>
      obtain ⟨y, -, hy⟩ := exists_of_forall₂ h.globals hmem
      exact ⟨_, hy⟩
  | answer hmem =>
      obtain ⟨y, hy⟩ := exists_of_forall₂ h.answers hmem
      cases hy with
      | ok hy =>
          cases hy with
          | some hg =>
              obtain ⟨b, -, hb⟩ := hg.payload.of_cell
              exact ⟨b, hb⟩
  | content _ hc hv ih =>
      obtain ⟨b, hb⟩ := ih
      obtain ⟨_, v, w, hcell, -, hvw⟩ := h.cells _ _ hb
      cases hc.symm.trans hcell
      cases hv
      obtain ⟨b', -, hb'⟩ := hvw.of_cell
      exact ⟨b', hb'⟩

/-- What can be told of the results of the runs on an engine, with the contents of cells up to a depth. -/
def Play.seen (p : Play) (e depth : Nat) :
    List (Except Failure (Option (Ty × String) × Except Failure Int × Except Failure Int × Except Failure Fp)) :=
  (p.answers e).map (Except.map (RunResult.seen p.session.storage depth))

theorem Beside.seen (h : s₀.Beside e ρ p q) (depth : Nat) : p.seen e depth = q.seen e depth :=
  RunResult.seen_of_agree h.cells h.answers depth

/-- After turns have been taken, an engine is separate from another. -/
structure Separate (s : Session) (turns : List Turn) (a b : Nat) : Prop where
  /-- Its runs failed with what they fail with without those on the other, and gave what cannot be told from
  what they give then. -/
  seen : ∀ depth, (s.play turns).seen a depth = (s.play (turns.filter (·.engine = a))).seen a depth
  /-- The values that they gave are the same, but that cells are taken for one another that hold the same,
  the cells of its variables among them. -/
  answers : ∃ ρ : Renaming,
    List.Forall₂ (Agree (RunResult.Renamed ρ)) ((s.play turns).answers a)
      ((s.play (turns.filter (·.engine = a))).answers a) ∧
    (s.play turns).session.storage.Matched ρ (s.play (turns.filter (·.engine = a))).session.storage ∧
    List.Forall₂ (fun x y => x.1 = y.1 ∧ ρ.pairs x.2 y.2) ((s.play turns).session.globalsOf a)
      ((s.play (turns.filter (·.engine = a))).session.globalsOf a)
  /-- No cell that it can come upon is one that the other can come upon. -/
  own : ∀ id, (s.play turns).Reaches a id → ¬(s.play turns).Reaches b id
  /-- In its next run its variables have the cells that they have. -/
  keeps : ∀ t : Turn, t.engine = a → t.callee.IsGiven s → ∀ i id,
    ((s.play turns).session.memoryOf a).global? i = some id →
    (((s.play turns).take t).session.memoryOf a).global? i = some id
  /-- The next run on the other leaves its variables their cells, and what is in any cell that it can come
  upon. -/
  left : ∀ t : Turn, t.engine = b → t.callee.IsGiven s →
    ((s.play turns).take t).session.globalsOf a = (s.play turns).session.globalsOf a ∧
    ∀ id, (s.play turns).Reaches a id →
      ((s.play turns).take t).session.storage.cell? id = (s.play turns).session.storage.cell? id

theorem separate_play (hs : s.IsSound) {a b : Nat} (hab : a ≠ b) (ha : s.IsUnrun a) (hb : s.IsUnrun b)
    {turns : List Turn} (hturns : ∀ t ∈ turns, s.IsUnrun t.engine ∧ t.callee.IsGiven s) :
    s.Separate turns a b := by
  obtain ⟨ρ, h⟩ := apart_play hs turns hturns
  have hba := h.beside a ha
  refine ⟨hba.seen, ⟨ρ a, hba.answers, hba.cells, hba.globals⟩, fun id hia hib => ?_, ?_, ?_⟩
  · obtain ⟨x, hx⟩ := hba.pairs_of_reaches hia
    obtain ⟨y, hy⟩ := (h.beside b hb).pairs_of_reaches hib
    exact hab (h.own a b id x y ha hb hx hy)
  · rintro t rfl hgiven
    exact (h.take ha hgiven).2.1
  · rintro t rfl hgiven
    refine ⟨globalsOf_run hba.sound.1 hab t.callee _, fun id hid => ?_⟩
    obtain ⟨x, hx⟩ := hba.pairs_of_reaches hid
    obtain ⟨_, _, _, hc, -⟩ := hba.cells id x hx
    rw [hc]
    exact (h.take hb hgiven).2.2 id _ ⟨hc, a, x, ha, hab, hx⟩

/-- Two engines that interpret one module, on which nothing was run yet, do not interfere, in whatever
order functions are run on them and however the runs end, as long as what is handed to a run is no cell or
was given by an earlier run on the same engine.  A variable has no cell at first; when it is first asked
for, it is given one that was not there, with its initial value. -/
theorem engines_apart {s₀ : Session} (h₀ : s₀.IsInitial) (history : List Request) {m a b : Nat} (hab : a ≠ b)
    (ha : (s₀.after history).engine? a = some ⟨a, m, .interpreter, []⟩)
    (hb : (s₀.after history).engine? b = some ⟨b, m, .interpreter, []⟩) (turns : List Turn)
    (hturns : ∀ t ∈ turns, (t.engine = a ∨ t.engine = b) ∧ t.callee.IsGiven (s₀.after history)) :
    (s₀.after history).Separate turns a b ∧ (s₀.after history).Separate turns b a ∧
      ∀ p f env i type x mem, p.module.symbols[i]? = some (.variable x) → Memory.global? mem i = none →
        (Interpreted.eval p f env (.global i type)).on mem =
          match Interpreted.initialValue f.name x with
          | .error e => (.error e, mem)
          | .ok v => (.ok (.cell mem.storage.cells.size),
            ⟨mem.storage.addCell ⟨x.type, v⟩, (i, mem.storage.cells.size) :: mem.globals⟩) := by
  have hs := after_isSound h₀.isSound history
  have hunrun : ∀ t ∈ turns, (s₀.after history).IsUnrun t.engine ∧ t.callee.IsGiven (s₀.after history) := by
    intro t ht
    obtain ⟨heq | heq, hgiven⟩ := hturns t ht
    · exact ⟨heq ▸ ⟨m, ha⟩, hgiven⟩
    · exact ⟨heq ▸ ⟨m, hb⟩, hgiven⟩
  refine ⟨separate_play hs hab ⟨m, ha⟩ ⟨m, hb⟩ hunrun, separate_play hs hab.symm ⟨m, hb⟩ ⟨m, ha⟩ hunrun, ?_⟩
  intro p f env i type x mem hx hi
  have heval : Interpreted.eval p f env (.global i type) = Interpreted.globalCell f.name i x := by
    unfold Interpreted.eval
    dsimp only
    rw [hx]
  rw [heval]
  exact Ties.globalCell_of_none f.name x hi

/-! ## A counter -/

/-- A variable that starts at 41, with functions that count it up, that tell where it is, that read a
pointer, and that set it to seven and fail. -/
def counter : Draft where
  types := []
  globals := [⟨"n", .int 32, some (.constant (.typed (.int 32) (.int 41)))⟩]
  functions := [
    ⟨"count", .int 32, [], false, some [⟨"e", "e", [
      ⟨some "v", "v", .op (.load (.symbol "n"))⟩,
      ⟨some "w", "w", .op (.int .add (.key "v") (.constant (.typed (.int 32) (.int 1))))⟩,
      ⟨none, "", .op (.store (.key "w") (.symbol "n"))⟩,
      ⟨none, "", .op (.ret (some (.key "w")))⟩]⟩]⟩,
    ⟨"place", .pointer (.int 32) 0, [], false, some [⟨"e", "e", [
      ⟨none, "", .op (.ret (some (.symbol "n")))⟩]⟩]⟩,
    ⟨"read", .int 32, [.pointer (.int 32) 0], false, some [⟨"e", "e", [
      ⟨some "v", "v", .op (.load (.key "0"))⟩,
      ⟨none, "", .op (.ret (some (.key "v")))⟩]⟩]⟩,
    ⟨"break", .void, [], false, some [⟨"e", "e", [
      ⟨none, "", .op (.store (.constant (.typed (.int 32) (.int 7))) (.symbol "n"))⟩,
      ⟨none, "", .op .unreachable⟩]⟩]⟩]

/-- Two engines of the module, with the numbers 3 and 4. -/
def twoCounters : List Request :=
  [.createModule "m" none, .build 2 counter, .createInterpreter 2, .createInterpreter 2]

/-- Turns of the two. -/
def counting : List Turn :=
  [⟨3, .named "count", []⟩, ⟨4, .named "place", []⟩, ⟨4, .named "break", []⟩, ⟨3, .named "place", []⟩,
    ⟨3, .named "count", []⟩, ⟨3, .named "read", [.earlier (.pointer (.int 32) 0) 1]⟩,
    ⟨4, .named "read", [.earlier (.pointer (.int 32) 0) 0]⟩]

/-- Whether an engine interprets a module and has no cells. -/
def startsOn (m : Nat) (e : EngineRecord) : Bool :=
  e.module == m && e.globals.isEmpty && match e.backend with
    | .interpreter => true
    | .compiled .. => false

theorem engine?_of_startsOn (h : (s.engine? e).any (startsOn m) = true) :
    s.engine? e = some ⟨e, m, .interpreter, []⟩ := by
  cases hr : s.engine? e with
  | none => simp [hr] at h
  | some r =>
      obtain ⟨-, rfl⟩ := mem_ids_of_engine? hr
      obtain ⟨id, m', backend, globals⟩ := r
      cases backend with
      | compiled types code => simp [hr, startsOn] at h
      | interpreter =>
          simp only [hr, Option.any_some, startsOn, Bool.and_true, Bool.and_eq_true, beq_iff_eq,
            List.isEmpty_iff] at h
          rw [h.1, h.2]

/-- The integers that the runs on an engine gave. -/
def Play.integers (p : Play) (e : Nat) : List (Option Int) :=
  (p.answers e).map fun r => (payloadOf r).int?

/-- The first engine counts from 41 to 42 and 43, and reads 43 where it was told that its variable is,
although the other has set its own to seven in between. -/
theorem engines_apart_counting : ((fresh .fresh).after twoCounters).Separate counting 3 4 ∧
    (((fresh .fresh).after twoCounters).play counting).integers 3 = [some 42, none, some 43, some 43] ∧
    (((fresh .fresh).after twoCounters).play counting).integers 4 = [none, none, some 7] := by
  have h := engines_apart (fresh_isInitial .fresh) twoCounters (a := 3) (b := 4) (m := 2) (by decide)
    (engine?_of_startsOn (by decide +kernel)) (engine?_of_startsOn (by decide +kernel)) counting
    (by simp [counting, Callee.IsGiven])
  exact ⟨h.1, by decide +kernel, by decide +kernel⟩

end Ssa.Session

/-
# `Ssa.Proofs.Exec.Parallel` — the order of phis

Calls are made one after another on one memory, and may be given what earlier ones came to.  Of two modules
that are the same but for the order of phis, and of their entries, the calls come to the same up to the
numbers of cells, of which nothing can be told.  The one thing that the order of phis decides is which of
several failures is reported, where control goes on at a block of which several phis fail.

**Proved here.**

    one call more comes to the same, but for which phi fails              (`Service.Concur.next`)
    and so do calls one after another                                     (`serve_concurs`)
    the phis of a block may be turned round                               (`reordered_turned`)
    the phis of admitted modules are bound at once, in any order          (`phis_at_once`)
    two phis without entries: the first is reported                       (`turned_phis_differ`)
-/
import Mathlib.Data.List.TakeWhile
import Ssa.Proofs.Exec.Reordered
import Ssa.Proofs.Session.Furnished

namespace Ssa

open Interpreted (rules)

/-! ## Calls one after another -/

namespace Machine

/-- What a call is given: a value from outside, or what an earlier call came to. -/
inductive Given where
  | value (v : Value)
  | earlier (index : Nat)

/-- A call to be made: of the function at a position of the module, with at most so many steps. -/
structure Asked where
  function : Nat
  given : List Given
  steps : Nat

/-- A call that was made, on a memory, and what it came to. -/
structure Served where
  function : Function
  args : List Value
  before : Memory
  outcome : Except Failure Value

/-- The value that is given, after calls that were made. -/
def Given.get (past : List Served) : Given → Value
  | value v => v
  | earlier index => (past[index]?).elim .null fun s => s.outcome.toOption.getD .null

/-- A value from outside is no cell, or one that is there. -/
def Given.IsThere (start : Storage) : Given → Prop
  | value v => ∀ a, v = .cell a → start.Settled a
  | earlier _ => True

/-- What was served, and the memory that it left. -/
structure Service where
  served : List Served
  memory : Memory

/-- Make one more call. -/
def Service.next (p : Program) (past : Service) (a : Asked) : Service :=
  match p.module.function? a.function with
  | some f =>
    let args := a.given.map (Given.get past.served)
    let r := (call rules p a.steps f args).on past.memory
    ⟨past.served ++ [⟨f, args, past.memory, r.1⟩], r.2⟩
  | none => past

/-- Make calls one after another, on a memory in which no variable has a cell yet. -/
def serve (p : Program) (start : Storage) (asked : List Asked) : Service :=
  asked.foldl (Service.next p) ⟨[], ⟨start, []⟩⟩

/-- Two calls come to values that are taken for one another, or fail alike.  Only where control goes on at a
block of which two phis fail may each fail for one of these. -/
def Served.Concur (p : Program) (ρ : Renaming) (s s' : Served) : Prop :=
  Ssa.Concur (Strays p s.function s.args s.before) (Value.Renamed ρ) s.outcome s'.outcome

variable {p : Program} {ρ ρ' : Renaming} {s s' : Served} {start : Storage}

theorem Served.Concur.mono (h : s.Concur p ρ s') (hρ : ρ'.Extends ρ) : s.Concur p ρ' s' := by
  unfold Served.Concur at h ⊢
  generalize s.outcome = r, s'.outcome = r' at h ⊢
  cases h with
  | ok hvw => exact .ok (hvw.mono hρ)
  | error e => exact .error e
  | differ he => exact .differ he

/-- The integer that a call came to. -/
def Served.int? (s : Served) : Option Int := s.outcome.toOption.bind Value.int?

/-- Calls that come to the same come to the same integers. -/
theorem map_int?_of_concur {left right : List Served} (h : List.Forall₂ (Served.Concur p ρ) left right) :
    right.map Served.int? = left.map Served.int? := by
  induction h with
  | nil => rfl
  | @cons s s' _ _ hs _ ih =>
      have hsame : s'.int? = s.int? := by
        unfold Served.Concur at hs
        unfold Served.int?
        generalize s.outcome = r, s'.outcome = r' at hs ⊢
        cases hs with
        | ok hvw => exact hvw.int?
        | error | differ => rfl
      rw [List.map_cons, List.map_cons, hsame, ih]

theorem Given.get_renamed {past past' : List Served} {g : Given} (hρ : ρ.Extends start.settled)
    (hg : g.IsThere start) (h : List.Forall₂ (Served.Concur p ρ) past past') :
    (g.get past).Renamed ρ (g.get past') := by
  cases g with
  | value v =>
      show v.Renamed ρ v
      cases v with
      | cell a => exact .cell (hρ a a ⟨rfl, hg a rfl⟩)
      | _ => exact .same rfl
  | earlier index =>
      clear hg
      show Value.Renamed ρ ((past[index]?).elim Value.null fun s => s.outcome.toOption.getD .null)
        ((past'[index]?).elim Value.null fun s => s.outcome.toOption.getD .null)
      induction h generalizing index with
      | nil => exact .null
      | @cons s s' _ _ hs _ ih =>
          cases index with
          | succ index => exact ih index
          | zero =>
              show (s.outcome.toOption.getD Value.null).Renamed ρ (s'.outcome.toOption.getD .null)
              unfold Served.Concur at hs
              generalize s.outcome = r, s'.outcome = r' at hs ⊢
              cases hs with
              | ok hvw => exact hvw
              | error | differ => exact .null

theorem serve_append (p : Program) (start : Storage) (asked more : List Asked) :
    serve p start (asked ++ more) = more.foldl (Service.next p) (serve p start asked) :=
  List.foldl_append

/-- The same was served, on memories that are abreast. -/
structure Service.Concur (p : Program) (start : Storage) (ρ : Renaming) (past past' : Service) : Prop where
  there : ρ.Extends start.settled
  memory : (Ties.abreast p.module).pairing.holds ρ past.memory past'.memory
  served : List.Forall₂ (Served.Concur p ρ) past.served past'.served

section

variable {owner : Nat} {types : TypeTable} {m m' : Module} (hm : m.Reordered m')
  (hd : ∀ k f, m.function? k = some f → ∀ b, ((f.leadingPhis b).map Instr.id).Nodup)

theorem Service.Concur.fresh (start : Storage) :
    Service.Concur ⟨owner, types, m⟩ start start.settled ⟨[], ⟨start, []⟩⟩ ⟨[], ⟨start, []⟩⟩ := by
  have hnone (i : Nat) : Memory.global? ⟨start, []⟩ i = none := rfl
  refine ⟨.refl _, ⟨start.matched_settled, ?_, ?_, ?_, .of_none hnone, .of_none hnone⟩, .nil⟩
  · exact fun i a _ hi => nomatch hi
  · exact fun i a hi => nomatch hi
  · exact fun i a hi => nomatch hi

include hm hd

/-- One more call comes to the same in two modules with their phis in different orders. -/
theorem Service.Concur.next {past past' : Service} (h : past.Concur ⟨owner, types, m⟩ start ρ past')
    {a : Asked} (hthere : ∀ g ∈ a.given, g.IsThere start) :
    ∃ ρ', (past.next ⟨owner, types, m⟩ a).Concur ⟨owner, types, m⟩ start ρ'
      (past'.next ⟨owner, types, m'⟩ a) := by
  unfold Service.next
  have hf := hm.function? a.function
  cases hk : m.function? a.function with
  | none =>
      rw [hk] at hf
      generalize m'.function? a.function = y at hf
      cases hf
      exact ⟨ρ, h⟩
  | some f =>
      rw [hk] at hf
      generalize m'.function? a.function = y at hf
      cases hf with
      | @some _ f' hf =>
          have hargs : List.Forall₂ (Value.Renamed ρ) (a.given.map (Given.get past.served))
              (a.given.map (Given.get past'.served)) :=
            List.forall₂_map_left_iff.mpr (List.forall₂_map_right_iff.mpr (List.forall₂_same.mpr
              fun g hg => g.get_renamed h.there (hthere g hg) h.served))
          have hcall : Exec.Concurs m ρ _ (call rules ⟨owner, types, m⟩ a.steps f _) _
              (call rules ⟨owner, types, m'⟩ a.steps f' _) _ _ :=
            call_concurs hm hd h.memory ⟨_, hk⟩ hf hargs a.steps
          obtain ⟨ρ', hρ, hmem, hr⟩ := hcall
          exact ⟨ρ', h.there.trans hρ, hmem,
            List.rel_append (h.served.imp fun _ _ hs => hs.mono hρ) (.cons hr .nil)⟩

/-- And so do calls one after another. -/
theorem serve_concurs (start : Storage) (asked : List Asked)
    (hthere : ∀ a ∈ asked, ∀ g ∈ a.given, g.IsThere start) :
    ∃ ρ, (serve ⟨owner, types, m⟩ start asked).Concur ⟨owner, types, m⟩ start ρ
      (serve ⟨owner, types, m'⟩ start asked) := by
  induction asked using List.reverseRecOn with
  | nil => exact ⟨_, .fresh start⟩
  | append_singleton asked a ih =>
      obtain ⟨ρ, h⟩ := ih fun a ha => hthere a (List.mem_append_left _ ha)
      rw [serve_append, serve_append]
      exact h.next hm hd (hthere a (by simp))

end

end Machine

/-! ## Phis that are turned round -/

/-- A block with its leading phis in the opposite order. -/
def Block.turned (b : Block) : Block :=
  { b with
    instrs := (b.instrs.takeWhile (·.op.isPhi)).reverse ++ b.instrs.dropWhile (·.op.isPhi) }

/-- A function with the leading phis of each block in the opposite order. -/
def Function.turned (f : Function) : Function := { f with blocks := f.blocks.map Block.turned }

/-- A symbol with the leading phis of each block in the opposite order. -/
def Symbol.turned : Symbol → Symbol
  | .function f => .function f.turned
  | .variable x => .variable x

/-- A module with the leading phis of each block in the opposite order. -/
def Module.turned (m : Module) : Module := { m with symbols := m.symbols.map Symbol.turned }

theorem Block.reordered_turned (b : Block) : b.Reordered b.turned := by
  have hphis : ∀ i ∈ (b.instrs.takeWhile (·.op.isPhi)).reverse, i.op.isPhi = true := fun i hi =>
    List.mem_takeWhile_imp (p := fun i : Instr => i.op.isPhi) (List.mem_reverse.mp hi)
  have hfirst : (b.instrs.dropWhile (·.op.isPhi)).takeWhile (·.op.isPhi) = [] :=
    List.takeWhile_eq_nil_iff.mpr fun hl => List.dropWhile_get_zero_not _ _ hl
  have hrest : (b.instrs.dropWhile (·.op.isPhi)).dropWhile (·.op.isPhi) = b.instrs.dropWhile (·.op.isPhi) :=
    List.dropWhile_eq_self_iff.mpr fun hl => List.dropWhile_get_zero_not _ _ hl
  refine ⟨rfl, ⟨_, List.reverse_perm _, ?_⟩, ?_⟩
  · rw [turned, List.takeWhile_append_of_pos hphis, hfirst, List.append_nil]
    exact List.forall₂_same.mpr fun i _ => .refl i
  · rw [turned, List.dropWhile_append_of_pos hphis, hrest]

theorem Function.reordered_turned (f : Function) : f.Reordered f.turned where
  rest := ⟨_, rfl⟩
  blocks b := by
    rw [turned, Array.getElem?_map]
    cases f.blocks[b]? with
    | none => exact .none
    | some k => exact .some k.reordered_turned

theorem Module.reordered_turned (m : Module) : m.Reordered m.turned where
  name := rfl
  symbols i := by
    rw [turned, Array.getElem?_map]
    cases m.symbols[i]? with
    | none => exact .none
    | some s =>
        cases s with
        | «variable» x => exact .some rfl
        | function f => exact .some f.reordered_turned

/-! ## Modules that were admitted -/

/-- Where control goes on at a block, all its leading phis have values, and are bound at once to what their
first entries for the block that it comes from stand for in the frame as it was; or it fails for the first
of them that has none, and no frame comes of it.  The code of that failure is IH0509 if there is no entry.

No two phis of a block of an admitted module have one number.  So in whatever order the phis of its blocks
stand, and their entries for different blocks, calls come to the same; but if several phis of a block fail on
one way into it, another of these failures may be reported. -/
theorem Module.Admitted.phis_at_once {m : Module} (h : m.Admitted) (owner : Nat) (types : TypeTable) :
    (∀ (fr : Frame) (source : Option Nat) (target : Nat) (mem : Memory),
      ((fr.function.leadingPhis target).map Instr.id).Nodup →
      (∃ next mem', (Machine.jump rules ⟨owner, types, m⟩ fr source target).on mem = (.ok next, mem') ∧
        (∀ i ∈ fr.function.leadingPhis target, Machine.PhiHasValue ⟨owner, types, m⟩ fr source mem i) ∧
        Machine.BindsAtOnce ⟨owner, types, m⟩ fr source target next mem') ∨
      ∃ e mem', (Machine.jump rules ⟨owner, types, m⟩ fr source target).on mem = (.error e, mem') ∧
        Machine.FailsForFirst ⟨owner, types, m⟩ fr source target mem e) ∧
    (∀ phi function block, (Failure.noIncoming phi function block).listing?.map Prod.fst = some "IH0509") ∧
    (∀ k f, m.function? k = some f → ∀ b, ((f.leadingPhis b).map Instr.id).Nodup) ∧
    ∀ m', m.Reordered m' → ∀ (start : Storage) (asked : List Machine.Asked),
      (∀ a ∈ asked, ∀ g ∈ a.given, g.IsThere start) →
      let left := Machine.serve ⟨owner, types, m⟩ start asked
      let right := Machine.serve ⟨owner, types, m'⟩ start asked
      ∃ ρ : Renaming, left.memory.storage.Matched ρ right.memory.storage ∧
        List.Forall₂ (Machine.Served.Concur ⟨owner, types, m⟩ ρ) left.served right.served ∧
        ∀ v w : Value, v.Renamed ρ w → ∀ depth,
          w.display right.memory.storage depth = v.display left.memory.storage depth := by
  have hd (k : Nat) (f : Function) (hk : m.function? k = some f) (b : Nat) :
      ((f.leadingPhis b).map Instr.id).Nodup :=
    f.nodup_leadingPhis (h.isBuilt k f hk) b
  refine ⟨fun fr source target mem hids => Machine.jump_atOnce hids source mem, fun _ _ _ => rfl, hd, ?_⟩
  intro m' hm start asked hthere
  obtain ⟨ρ, h⟩ := Machine.serve_concurs hm hd start asked hthere
  exact ⟨ρ, h.memory.1, h.served, fun v w hvw depth => hvw.display h.memory.1 depth⟩

/-- A loop in which two phis exchange their values, as often as a third one counts. -/
def exchanging : Draft where
  types := []
  globals := []
  functions := [⟨"swap", .int 32, [.int 32, .int 32, .int 32], false, some [
    ⟨"entry", "entry", [⟨none, "", .op (.br "loop")⟩]⟩,
    ⟨"loop", "loop", [
      ⟨some "x", "x", .phi (.int 32) [(.key "0", "entry"), (.key "y", "loop")]⟩,
      ⟨some "y", "y", .phi (.int 32) [(.key "1", "entry"), (.key "x", "loop")]⟩,
      ⟨some "n", "n", .phi (.int 32) [(.key "2", "entry"), (.key "less", "loop")]⟩,
      ⟨some "less", "less", .op (.int .sub (.key "n") (.constant (.typed (.int 32) (.int 1))))⟩,
      ⟨some "more", "more", .op (.icmp .sgt (.key "less") (.constant (.typed (.int 32) (.int 0))))⟩,
      ⟨none, "", .op (.condBr (.key "more") "loop" "done")⟩]⟩,
    ⟨"done", "done", [⟨none, "", .op (.ret (some (.key "x")))⟩]⟩]⟩]

theorem exchanging_admitted : (exchanging.written "m").Admitted :=
  Draft.written_admitted (by decide +kernel)

/-- A call that is to exchange them once. -/
def askedOnce : List Machine.Asked := [⟨0, [.value (.int 1), .value (.int 2), .value (.int 2)], 30⟩]

/-- The frame of the function where it has gone through the loop once. -/
def throughOnce (f : Function) : Frame :=
  ⟨f, [(4, .int 1), (5, .int 2), (6, .int 2), (7, .int 1), (8, .int 1)], 1, 5, none⟩

/-- Back at the loop the two are exchanged, and with the phis turned round the call comes to the same. -/
theorem exchanging_at_once :
    let m := exchanging.written "m"
    (∃ f next mem', m.function? 0 = some f ∧
      Machine.BindsAtOnce ⟨0, [], m⟩ (throughOnce f) (some 1) 1 next mem' ∧
      (next.env.lookup 4).bind Value.int? = some 2 ∧ (next.env.lookup 5).bind Value.int? = some 1) ∧
    m.Reordered m.turned ∧
    (Machine.serve ⟨0, [], m⟩ ⟨#[], #[]⟩ askedOnce).served.map Machine.Served.int? = [some 2] ∧
    (Machine.serve ⟨0, [], m.turned⟩ ⟨#[], #[]⟩ askedOnce).served.map Machine.Served.int? = [some 2] := by
  intro m
  obtain ⟨hjump, -, hids, hcalls⟩ := exchanging_admitted.phis_at_once 0 []
  have hleft :
      (Machine.serve ⟨0, [], m⟩ ⟨#[], #[]⟩ askedOnce).served.map Machine.Served.int? = [some 2] := by
    decide +kernel
  refine ⟨?_, m.reordered_turned, hleft, ?_⟩
  · obtain ⟨f, hf⟩ : ∃ f, m.function? 0 = some f := Option.isSome_iff_exists.mp (by decide +kernel)
    have hread : (m.function? 0).map (fun f =>
        ((Machine.jump rules ⟨0, [], m⟩ (throughOnce f) (some 1) 1).on .empty).1.toOption.map fun next =>
          ((next.env.lookup 4).bind Value.int?, (next.env.lookup 5).bind Value.int?)) =
        some (some (some 2, some 1)) := by decide +kernel
    rw [hf, Option.map_some, Option.some_inj] at hread
    rcases hjump (throughOnce f) (some 1) 1 .empty (hids 0 f hf 1) with
      ⟨next, mem', hon, -, hbinds⟩ | ⟨e, mem', hon, -⟩ <;> rw [hon] at hread
    · obtain ⟨hx, hy⟩ := Prod.mk.inj (Option.some_inj.mp hread)
      exact ⟨f, next, mem', hf, hbinds, hx, hy⟩
    · cases hread
  · have hthere : ∀ a ∈ askedOnce, ∀ g ∈ a.given, g.IsThere ⟨#[], #[]⟩ := by
      simp [askedOnce, Machine.Given.IsThere]
    obtain ⟨ρ, -, hserved, -⟩ := hcalls m.turned m.reordered_turned ⟨#[], #[]⟩ askedOnce hthere
    exact (Machine.map_int?_of_concur hserved).trans hleft

/-- A function whose first block has two phis, which have no entries. -/
def entryless : Draft where
  types := []
  globals := []
  functions := [⟨"f", .int 32, [], false, some [⟨"e", "e", [
    ⟨some "x", "x", .phi (.int 32) []⟩,
    ⟨some "y", "y", .phi (.int 32) []⟩,
    ⟨none, "", .op (.ret (some (.key "x")))⟩]⟩]⟩]

theorem entryless_admitted : (entryless.written "m").Admitted :=
  Draft.written_admitted (by decide +kernel)

/-- The module is admitted, and with its phis turned round it passes its check as well.  But a call reports
the phi that it reads first. -/
theorem turned_phis_differ :
    let m := entryless.written "m"
    let asked : List Machine.Asked := [⟨0, [], 3⟩]
    m.Admitted ∧ m.Reordered m.turned ∧ (m.turned.check []).isOk = true ∧
    (Machine.serve ⟨0, [], m⟩ ⟨#[], #[]⟩ asked).served.map (Effect.failure? ·.outcome) =
      [some (.noIncoming "x" "f" "<entry>")] ∧
    (Machine.serve ⟨0, [], m.turned⟩ ⟨#[], #[]⟩ asked).served.map (Effect.failure? ·.outcome) =
      [some (.noIncoming "y" "f" "<entry>")] :=
  ⟨entryless_admitted, Module.reordered_turned _, by decide +kernel, by decide +kernel, by decide +kernel⟩

end Ssa

/-
# `Ssa.Proofs.Registry.History` — an arena after any history

Things are entered into an arena, cleaned up, released and collected in any order.  What its numbers
lead to, what is live, what is counted and which cleanups ran is read off the history alone: which
entry a number was given to, whether the number was released since, whether the thing was collected.
The two ways of going away meet in one place, which may be kept when its thing is gone, so each of the
questions that an arena is asked has to look at both.

**Proved here.**

    what a place and a cleanup are after a history            (`after_tells`)
    every question to an arena, answered by its history        (`accounts_after`)
-/
import Mathlib.Algebra.BigOperators.Group.Finset.Basic
import Mathlib.Data.Set.Card
import Ssa.Proofs.Registry.Lookup
import Ssa.Registry.Cleanup

namespace Ssa

namespace Arena

variable {β : Type}

/-! ## Steps -/

/-- What is entered: a thing, which is told apart by name, under a kind, and what its cleanup is
told, if it comes with one. -/
structure Entry (β : Type) where
  kind : String
  thing : String
  cleanup : Option (List β)

/-- What is done with an arena. -/
inductive Step (β : Type) where
  | insert (kind thing : String)
  | track (kind thing : String) (args : List β)
  | finalize (id : Nat)
  | release (id : Int)
  | get (id : Int) (kind : String)
  /-- A thing goes away, whatever numbers it was entered under. -/
  | collect (thing : String)
deriving DecidableEq

/-- What a step answers. -/
inductive Answer where
  | done
  | number (id : Nat)
  | outcome (o : Except Failure String)
  | released (id : Int) (first : Bool)

/-- An arena, and what was entered into it, in the order of the numbers. -/
structure Roll (β : Type) where
  arena : Arena β
  entries : List (Entry β)

/-- The entry that a number was given to. -/
def entryOf (entries : List (Entry β)) (id : Nat) : Option (Entry β) :=
  if id = 0 then none else entries[id - 1]?

/-- The numbers that a thing was entered under, the latest first. -/
def Roll.numbersOf (r : Roll β) (thing : String) : List Nat :=
  ((r.entries.zipIdx 1).filterMap fun (e, id) => if e.thing = thing then some id else none).reverse

namespace Step

/-- What a step enters. -/
def entry? : Step β → Option (Entry β)
  | insert kind thing => some ⟨kind, thing, none⟩
  | track kind thing args => some ⟨kind, thing, some args⟩
  | _ => none

/-- What a step answers, and the arena that it leaves. -/
def act (r : Roll β) : Step β → Answer × Arena β
  | insert kind thing =>
    let (id, arena) := r.arena.insert kind thing
    (.number id, arena)
  | track kind thing args =>
    let (id, arena) := r.arena.track kind thing args
    (.number id, arena)
  | finalize id => (.done, r.arena.finalize id)
  | release id =>
    let (first, registry) := r.arena.registry.release id
    (.released id first, { r.arena with registry })
  | get id kind => (.outcome (r.arena.registry.get id kind), r.arena)
  | collect thing => (.done, (r.numbersOf thing).foldl Arena.collect r.arena)

end Step

/-- What a step leaves. -/
def Roll.does (r : Roll β) (s : Step β) : Roll β := ⟨(s.act r).2, r.entries ++ s.entry?.toList⟩

/-- What a history leaves. -/
def after (history : List (Step β)) : Roll β := history.foldl Roll.does ⟨.empty, []⟩

/-- What the steps of a history answer, from an arena on. -/
def answersFrom (r : Roll β) : List (Step β) → List Answer
  | [] => []
  | s :: history => (s.act r).1 :: answersFrom (r.does s) history

/-- What the steps of a history answer. -/
def answers (history : List (Step β)) : List Answer := answersFrom ⟨.empty, []⟩ history

/-! ## What a history says -/

/-- What was entered, in order. -/
def entered (history : List (Step β)) : List (Entry β) := history.filterMap Step.entry?

/-- A step was taken when a number had been given out already. -/
def Since (history : List (Step β)) (id : Nat) (s : Step β) : Prop :=
  ∃ before later, history = before ++ s :: later ∧ id ≤ (entered before).length

/-- What was collected is not there to be entered again. -/
def IsPossible (history : List (Step β)) : Prop :=
  history.Pairwise fun earlier later => ∀ e ∈ later.entry?, earlier ≠ .collect e.thing

instance [DecidableEq β] (history : List (Step β)) : Decidable (IsPossible history) :=
  inferInstanceAs (Decidable (history.Pairwise fun earlier later =>
    ∀ e ∈ later.entry?, earlier ≠ .collect e.thing))

/-- A number was given to a thing of a kind, was not released since, and the thing was not
collected. -/
structure IsHeld (history : List (Step β)) (id : Nat) (kind thing : String) : Prop where
  entered : ∃ e, entryOf (entered history) id = some e ∧ e.kind = kind ∧ e.thing = thing
  kept : ¬ Since history id (.release id)
  there : Step.collect thing ∉ history

/-- The cleanup of a number was called for, or its thing was collected. -/
def IsCalled (history : List (Step β)) (id : Nat) (thing : String) : Prop :=
  Since history id (.finalize id) ∨ Step.collect thing ∈ history

section

variable {history : List (Step β)} {s t : Step β} {id : Nat} {e : Entry β}

theorem entered_concat (history : List (Step β)) (s : Step β) :
    entered (history ++ [s]) = entered history ++ s.entry?.toList := by
  rw [entered, List.filterMap_append, entered]
  cases s <;> rfl

theorem entered_concat_of_quiet (h : s.entry? = none) :
    entered (history ++ [s]) = entered history := by
  rw [entered_concat, h]
  exact List.append_nil _

theorem since_concat :
    Since (history ++ [t]) id s ↔ Since history id s ∨ (t = s ∧ id ≤ (entered history).length) := by
  constructor
  · rintro ⟨before, later, heq, hid⟩
    rcases List.eq_nil_or_concat' later with rfl | ⟨later, x, rfl⟩
    · obtain ⟨rfl, hts⟩ := List.append_inj' heq rfl
      exact .inr ⟨(List.cons.inj hts).1, hid⟩
    · rw [← List.cons_append, ← List.append_assoc] at heq
      obtain ⟨rfl, -⟩ := List.append_inj' heq rfl
      exact .inl ⟨before, later, rfl, hid⟩
  · rintro (⟨before, later, rfl, hid⟩ | ⟨rfl, hid⟩)
    · exact ⟨before, later ++ [t], by simp, hid⟩
    · exact ⟨history, [], rfl, hid⟩

theorem entered_length_mono {before later : List (Step β)} (h : history = before ++ s :: later) :
    (entered before).length ≤ (entered history).length := by
  rw [h, entered, entered, List.filterMap_append, List.length_append]
  exact Nat.le_add_right _ _

theorem Since.le (h : Since history id s) : id ≤ (entered history).length := by
  obtain ⟨before, later, heq, hid⟩ := h
  exact hid.trans (entered_length_mono heq)

theorem Since.mem (h : Since history id s) : s ∈ history := by
  obtain ⟨before, later, rfl, -⟩ := h
  exact List.mem_append_right _ List.mem_cons_self

theorem IsPossible.concat (h : IsPossible (history ++ [s])) :
    IsPossible history ∧ ∀ e ∈ s.entry?, Step.collect e.thing ∉ history := by
  obtain ⟨hbefore, -, hlast⟩ := List.pairwise_append.mp h
  exact ⟨hbefore, fun e he hmem => hlast _ hmem s List.mem_cons_self e he rfl⟩

theorem entryOf_le {entries : List (Entry β)} (h : entryOf entries id = some e) :
    1 ≤ id ∧ id ≤ entries.length := by
  rw [entryOf] at h
  split at h
  · cases h
  · have := (List.getElem?_eq_some_iff.mp h).1
    omega

/-- One more entry gets the next number. -/
theorem entryOf_concat (entries : List (Entry β)) (e : Entry β) (id : Nat) :
    entryOf (entries ++ [e]) id =
      if id = entries.length + 1 then some e else entryOf entries id := by
  by_cases hid : id = entries.length + 1
  · simp [entryOf, hid]
  · rw [if_neg hid, entryOf, entryOf]
    split
    · rfl
    · rw [List.getElem?_append]
      split
      · rfl
      · rw [List.getElem?_eq_none (by simp; omega), List.getElem?_eq_none (by omega)]

theorem mem_numbersOf {r : Roll β} {thing : String} :
    id ∈ r.numbersOf thing ↔ ∃ e, entryOf r.entries id = some e ∧ e.thing = thing := by
  rw [Roll.numbersOf, List.mem_reverse, List.mem_filterMap]
  constructor
  · rintro ⟨⟨e, i⟩, hmem, hsome⟩
    obtain ⟨hle, hget⟩ := List.mk_mem_zipIdx_iff_le_and_getElem?_sub.mp hmem
    dsimp only at hsome
    split at hsome
    · rename_i hthing
      cases hsome
      exact ⟨e, by rw [entryOf, if_neg (by omega)]; exact hget, hthing⟩
    · cases hsome
  · rintro ⟨e, he, rfl⟩
    have hle := (entryOf_le he).1
    rw [entryOf, if_neg (by omega)] at he
    exact ⟨(e, id), List.mk_mem_zipIdx_iff_le_and_getElem?_sub.mpr ⟨hle, he⟩, if_pos rfl⟩

end

/-! ## What the operations change -/

section

variable {a : Arena β} {id k : Nat}

/-- The runs of the cleanup of a number: what it was told each time. -/
def runs (a : Arena β) (id : Nat) : List (List β) :=
  (a.log.filter (·.1 == id)).map Prod.snd

/-- A cleanup ran once if it is not still to run, and otherwise never. -/
def IsTidy (a : Arena β) : Prop :=
  ∀ id, a.runs id = match a.cleanup? id with
    | some c => if c.alive then [] else [c.args]
    | none => []

theorem cleanup?_id {c : Cleanup β} (h : a.cleanup? id = some c) : c.id = id := by
  simpa using List.find?_some h

/-- A cleanup that is still to run is run. -/
theorem finalize_of_pending {c : Cleanup β} (hc : a.cleanup? id = some c) (halive : c.alive = true) :
    a.finalize id =
      { a with
        cleanups := a.cleanups.map fun c => if c.id = id then { c with alive := false } else c
        log := a.log ++ [(id, c.args)] } := by
  simp [finalize, hc, halive]

theorem finalize_of_not_pending (h : a.isPending id = false) : a.finalize id = a := by
  rw [isPending] at h
  rw [finalize]
  split
  · rename_i c hc
    rw [if_neg (by simpa [hc] using h)]
  · rfl

theorem registry_finalize (a : Arena β) (id : Nat) : (a.finalize id).registry = a.registry := by
  rw [finalize]
  split
  · split <;> rfl
  · rfl

/-- A cleanup that was called for is not still to run, and the others are as they were. -/
theorem cleanup?_finalize (a : Arena β) (id k : Nat) :
    (a.finalize id).cleanup? k =
      (a.cleanup? k).map fun c => if c.id = id then { c with alive := false } else c := by
  cases hpending : a.isPending id with
  | true =>
      obtain ⟨c, hc, halive⟩ := (Option.any_eq_true _ _).mp hpending
      rw [finalize_of_pending hc halive]
      exact find?_number_map fun c _ => by split <;> rfl
  | false =>
      rw [finalize_of_not_pending hpending]
      cases hk : a.cleanup? k with
      | none => rfl
      | some c =>
          by_cases hid : c.id = id
          · -- the cleanup is the one that was called for, and had run already
            have hdone : c.alive = false := by
              rw [isPending, ← hid, cleanup?_id hk, hk] at hpending
              simpa using hpending
            obtain ⟨i, args, alive⟩ := c
            cases hdone
            simp
          · simp [hid]

theorem runs_finalize (a : Arena β) (id k : Nat) :
    (a.finalize id).runs k = a.runs k ++ match a.cleanup? id with
      | some c => if c.alive ∧ k = id then [c.args] else []
      | none => [] := by
  cases hc : a.cleanup? id with
  | none =>
      rw [finalize_of_not_pending (by rw [isPending, hc]; rfl)]
      simp
  | some c =>
      cases halive : c.alive with
      | true =>
          rw [finalize_of_pending hc halive]
          by_cases hk : k = id
          · simp [runs, List.filter_append, halive, hk]
          · simp [runs, List.filter_append, hk, Ne.symm hk]
      | false =>
          rw [finalize_of_not_pending (by rw [isPending, hc]; exact halive)]
          simp [halive]

theorem IsTidy.finalize (h : a.IsTidy) (id : Nat) : (a.finalize id).IsTidy := by
  intro k
  rw [runs_finalize, cleanup?_finalize, h k]
  by_cases hk : k = id
  · subst hk
    cases hc : a.cleanup? k with
    | none => rfl
    | some c => cases halive : c.alive <;> simp [cleanup?_id hc, halive]
  · have hnone : (match a.cleanup? id with
        | some c => if c.alive = true ∧ k = id then [c.args] else []
        | none => []) = ([] : List (List β)) := by
      split
      · exact if_neg fun h => hk h.2
      · rfl
    rw [hnone, List.append_nil]
    cases hc : a.cleanup? k with
    | none => rfl
    | some c => simp [cleanup?_id hc, hk]

/-! ### Collecting -/

/-- What goes away leaves the places of its numbers empty. -/
theorem slot?_collect (ids : List Nat) (a : Arena β) (k : Nat) :
    (ids.foldl collect a).registry.slot? k = (a.registry.slot? k).map fun s =>
      if s.id ∈ ids then { s with payload := none } else s := by
  induction ids generalizing a with
  | nil => simp
  | cons id ids ih =>
      have hfirst : (a.collect id).registry = a.registry.forget id := registry_finalize _ _
      rw [List.foldl_cons, ih, hfirst, Registry.slot?_forget, Option.map_map]
      refine congrArg (fun f => (a.registry.slot? k).map f) (funext fun s => ?_)
      by_cases hid : s.id = id <;> by_cases hids : s.id ∈ ids <;> simp [hid, hids]

/-- What goes away has the cleanups of its numbers run. -/
theorem cleanup?_collect (ids : List Nat) (a : Arena β) (k : Nat) :
    (ids.foldl collect a).cleanup? k = (a.cleanup? k).map fun c =>
      if c.id ∈ ids then { c with alive := false } else c := by
  induction ids generalizing a with
  | nil => simp
  | cons id ids ih =>
      have hfirst : (a.collect id).cleanup? k = _ := cleanup?_finalize _ id k
      rw [List.foldl_cons, ih, hfirst, Option.map_map]
      refine congrArg (fun f => (a.cleanup? k).map f) (funext fun c => ?_)
      by_cases hid : c.id = id <;> by_cases hids : c.id ∈ ids <;> simp [hid, hids]

/-- What goes away leaves order, and cleanups that ran once. -/
theorem collect_keeps (ids : List Nat) (hordered : a.registry.IsOrdered) (htidy : a.IsTidy) :
    (ids.foldl collect a).registry.IsOrdered ∧ (ids.foldl collect a).IsTidy ∧
      (ids.foldl collect a).registry.issued = a.registry.issued := by
  induction ids generalizing a with
  | nil => exact ⟨hordered, htidy, rfl⟩
  | cons id ids ih =>
      have hfirst : (a.collect id).registry = a.registry.forget id := registry_finalize _ _
      have hforgot : IsTidy { a with registry := a.registry.forget id } := htidy
      obtain ⟨h₁, h₂, h₃⟩ := ih (a := a.collect id) (hfirst ▸ hordered.forget id)
        (hforgot.finalize id)
      exact ⟨h₁, h₂, h₃.trans (by rw [hfirst]; rfl)⟩

end

/-! ## After a history -/

section

variable {history : List (Step β)} {r : Roll β} {s : Step β}

open Classical in
/-- The place of a number, by the history. -/
noncomputable def slotOf (history : List (Step β)) (id : Nat) : Option (Slot String) :=
  if Since history id (.release id) then none
  else (entryOf (entered history) id).map fun e =>
    ⟨id, e.kind, if Step.collect e.thing ∈ history then none else some e.thing⟩

open Classical in
/-- The cleanup of a number, by the history. -/
noncomputable def cleanupOf (history : List (Step β)) (id : Nat) : Option (Cleanup β) :=
  (entryOf (entered history) id).bind fun e => e.cleanup.map fun args =>
    ⟨id, args, decide (¬ IsCalled history id e.thing)⟩

/-- An arena is as its history says. -/
structure Tells (history : List (Step β)) (r : Roll β) : Prop where
  entries : r.entries = entered history
  ordered : r.arena.registry.IsOrdered
  issued : r.arena.registry.issued = (entered history).length
  slots : ∀ id : Nat, r.arena.registry.slot? id = slotOf history id
  cleanups : ∀ id, r.arena.cleanup? id = cleanupOf history id
  tidy : r.arena.IsTidy

theorem slotOf_concat_of_quiet (hentry : s.entry? = none) (hrelease : ∀ id, s ≠ .release id)
    (hcollect : ∀ thing, s ≠ .collect thing) (id : Nat) :
    slotOf (history ++ [s]) id = slotOf history id := by
  classical
  have hsince : Since (history ++ [s]) id (.release id) ↔ Since history id (.release id) := by
    simp [since_concat, hrelease]
  have hcollected (thing : String) :
      Step.collect thing ∈ history ++ [s] ↔ Step.collect thing ∈ history := by
    simp [Ne.symm (hcollect thing)]
  simp only [slotOf, hsince, hcollected, entered_concat, hentry, Option.toList_none, List.append_nil]

theorem cleanupOf_concat_of_quiet (hentry : s.entry? = none) (hfinalize : ∀ id, s ≠ .finalize id)
    (hcollect : ∀ thing, s ≠ .collect thing) (id : Nat) :
    cleanupOf (history ++ [s]) id = cleanupOf history id := by
  classical
  have hcalled (thing : String) : IsCalled (history ++ [s]) id thing ↔ IsCalled history id thing := by
    simp [IsCalled, since_concat, hfinalize, Ne.symm (hcollect thing)]
  simp only [cleanupOf, hcalled, entered_concat, hentry, Option.toList_none, List.append_nil]

theorem entryOf_next (entries : List (Entry β)) : entryOf entries (entries.length + 1) = none := by
  simp [entryOf]

/-- What is entered gets a place, and the other places stay. -/
theorem slotOf_concat_of_entry {e : Entry β} (hentry : s.entry? = some e)
    (hthere : Step.collect e.thing ∉ history) (id : Nat) :
    slotOf (history ++ [s]) id =
      if id = (entered history).length + 1 then
        some ⟨(entered history).length + 1, e.kind, some e.thing⟩
      else slotOf history id := by
  classical
  have hsince : Since (history ++ [s]) id (.release id) ↔ Since history id (.release id) := by
    rw [since_concat]
    exact or_iff_left fun h => by rw [h.1] at hentry; cases hentry
  have hcollected (thing : String) :
      Step.collect thing ∈ history ++ [s] ↔ Step.collect thing ∈ history := by
    rw [List.mem_append, List.mem_singleton]
    exact or_iff_left fun h => by rw [← h] at hentry; cases hentry
  simp only [slotOf, hsince, hcollected, entered_concat, hentry, Option.toList_some, entryOf_concat]
  by_cases hid : id = (entered history).length + 1
  · have hnever : ¬ Since history id (.release id) := fun h => by have := h.le; omega
    rw [if_neg hnever, if_pos hid, if_pos hid, Option.map_some, if_neg hthere, hid]
  · rw [if_neg hid, if_neg hid]

theorem cleanupOf_concat_of_entry {e : Entry β} (hentry : s.entry? = some e)
    (hthere : Step.collect e.thing ∉ history) (id : Nat) :
    cleanupOf (history ++ [s]) id =
      if id = (entered history).length + 1 then e.cleanup.map fun args => ⟨id, args, true⟩
      else cleanupOf history id := by
  classical
  have hcalled (thing : String) : IsCalled (history ++ [s]) id thing ↔ IsCalled history id thing := by
    rw [IsCalled, IsCalled, since_concat, List.mem_append, List.mem_singleton]
    refine or_congr (or_iff_left fun h => ?_) (or_iff_left fun h => ?_)
    · rw [h.1] at hentry; cases hentry
    · rw [← h] at hentry; cases hentry
  simp only [cleanupOf, hcalled, entered_concat, hentry, Option.toList_some, entryOf_concat]
  by_cases hid : id = (entered history).length + 1
  · have hnever : ¬ IsCalled history id e.thing := by
      rintro (h | h)
      · have := h.le; omega
      · exact hthere h
    simp [hid, hid ▸ hnever]
  · rw [if_neg hid, if_neg hid]

theorem slotOf_release (i : Int) (id : Nat) :
    slotOf (history ++ [.release i]) id = if (id : Int) = i then none else slotOf history id := by
  classical
  have hcollected (thing : String) :
      Step.collect thing ∈ history ++ [.release i] ↔ Step.collect thing ∈ history := by simp
  simp only [slotOf, since_concat, hcollected, entered_concat, Step.entry?, Option.toList_none,
    List.append_nil, Step.release.injEq]
  by_cases hid : (id : Int) = i
  · rw [if_pos hid]
    -- a number that was not given out yet has no place to lose
    by_cases hle : id ≤ (entered history).length
    · rw [if_pos (.inr ⟨hid.symm, hle⟩)]
    · cases he : entryOf (entered history) id with
      | none => simp
      | some e => exact absurd (entryOf_le he).2 hle
  · rw [if_neg hid]
    have hne : ¬ (i = ↑id ∧ id ≤ (entered history).length) := fun h => hid h.1.symm
    simp only [hne, or_false]

theorem cleanupOf_finalize (i id : Nat) :
    cleanupOf (history ++ [.finalize i]) id =
      (cleanupOf history id).map fun c => if c.id = i then { c with alive := false } else c := by
  classical
  have hentered : entered (history ++ [.finalize i]) = entered history := entered_concat_of_quiet rfl
  rw [cleanupOf, cleanupOf, hentered]
  cases he : entryOf (entered history) id with
  | none => rfl
  | some e =>
      have hcalled : IsCalled (history ++ [.finalize i]) id e.thing ↔
          IsCalled history id e.thing ∨ i = id := by
        simp [IsCalled, since_concat, (entryOf_le he).2, or_right_comm]
      simp only [Option.bind_some, hcalled, Option.map_map]
      refine congrArg (fun f => e.cleanup.map f) (funext fun args => ?_)
      by_cases hid : id = i
      · simp [hid]
      · simp [hid, Ne.symm hid]

theorem slotOf_collect (hr : r.entries = entered history) (thing : String) (id : Nat) :
    slotOf (history ++ [.collect thing]) id = (slotOf history id).map fun s =>
      if s.id ∈ r.numbersOf thing then { s with payload := none } else s := by
  classical
  have hentered : entered (history ++ [.collect thing]) = entered history := entered_concat_of_quiet rfl
  have hsince : Since (history ++ [.collect thing]) id (.release id) ↔
      Since history id (.release id) := by simp [since_concat]
  simp only [slotOf, hsince, hentered]
  split
  · rfl
  · cases he : entryOf (entered history) id with
    | none => rfl
    | some e =>
        have hmem : id ∈ r.numbersOf thing ↔ e.thing = thing := by
          rw [mem_numbersOf, hr, he]
          simp
        simp only [Option.map_some, List.mem_append, List.mem_singleton, Step.collect.injEq, hmem]
        by_cases hthing : e.thing = thing <;> simp [hthing]

theorem cleanupOf_collect (hr : r.entries = entered history) (thing : String) (id : Nat) :
    cleanupOf (history ++ [.collect thing]) id = (cleanupOf history id).map fun c =>
      if c.id ∈ r.numbersOf thing then { c with alive := false } else c := by
  classical
  have hentered : entered (history ++ [.collect thing]) = entered history := entered_concat_of_quiet rfl
  rw [cleanupOf, cleanupOf, hentered]
  cases he : entryOf (entered history) id with
  | none => rfl
  | some e =>
      have hmem : id ∈ r.numbersOf thing ↔ e.thing = thing := by
        rw [mem_numbersOf, hr, he]
        simp
      have hcalled : IsCalled (history ++ [.collect thing]) id e.thing ↔
          IsCalled history id e.thing ∨ e.thing = thing := by
        simp [IsCalled, since_concat, or_assoc]
      simp only [Option.bind_some, hcalled, Option.map_map]
      refine congrArg (fun f => e.cleanup.map f) (funext fun args => ?_)
      by_cases hthing : e.thing = thing <;> simp [hmem, hthing]

/-! ### Step by step -/

namespace Tells

theorem next_eq (h : Tells history r) : r.arena.registry.next = (entered history).length + 1 :=
  congrArg (· + 1) h.issued

theorem slots_of_entry (h : Tells history r) {e : Entry β} (hentry : s.entry? = some e)
    (hthere : Step.collect e.thing ∉ history) (id : Nat) :
    (r.arena.registry.insert e.kind e.thing).2.slot? id = slotOf (history ++ [s]) id := by
  rw [Registry.slot?_insert h.ordered, slotOf_concat_of_entry hentry hthere, h.next_eq, h.slots]

/-- The next number has no cleanup yet. -/
theorem cleanup?_next (h : Tells history r) :
    r.arena.cleanup? ((entered history).length + 1) = none := by
  rw [h.cleanups, cleanupOf, entryOf_next]
  rfl

theorem insert (h : Tells history r) (kind thing : String)
    (hthere : Step.collect thing ∉ history) :
    Tells (history ++ [.insert kind thing]) (r.does (.insert kind thing)) where
  entries := by rw [entered_concat, ← h.entries]; rfl
  ordered := h.ordered.insert kind thing
  issued := by rw [entered_concat, List.length_append, ← h.issued]; rfl
  slots := h.slots_of_entry (e := ⟨kind, thing, none⟩) rfl hthere
  cleanups id := by
    rw [cleanupOf_concat_of_entry rfl hthere, ← h.cleanups]
    split
    · rename_i hid
      subst hid
      exact h.cleanup?_next
    · rfl
  tidy := h.tidy

theorem track (h : Tells history r) (kind thing : String) (args : List β)
    (hthere : Step.collect thing ∉ history) :
    Tells (history ++ [.track kind thing args]) (r.does (.track kind thing args)) := by
  have hcleanup (id : Nat) : (r.does (.track kind thing args)).arena.cleanup? id =
      (r.arena.cleanup? id).or
        (if (entered history).length + 1 = id then some ⟨id, args, true⟩ else none) := by
    refine List.find?_append.trans (congrArg _ ?_)
    show [(⟨r.arena.registry.next, args, true⟩ : Cleanup β)].find? (·.id == id) = _
    rw [h.next_eq]
    by_cases hid : (entered history).length + 1 = id
    · simp [hid]
    · simp [hid]
  constructor
  case entries => rw [entered_concat, ← h.entries]; rfl
  case ordered => exact h.ordered.insert kind thing
  case issued => rw [entered_concat, List.length_append, ← h.issued]; rfl
  case slots => exact h.slots_of_entry (e := ⟨kind, thing, some args⟩) rfl hthere
  case cleanups =>
    intro id
    rw [hcleanup, cleanupOf_concat_of_entry rfl hthere]
    by_cases hid : id = (entered history).length + 1
    · subst hid
      simp [h.cleanup?_next]
    · simp [hid, Ne.symm hid, h.cleanups]
  case tidy =>
    intro id
    refine (h.tidy id).trans ?_
    rw [hcleanup]
    by_cases hid : id = (entered history).length + 1
    · subst hid
      simp [h.cleanup?_next]
    · simp [Ne.symm hid]

theorem finalize (h : Tells history r) (id : Nat) :
    Tells (history ++ [.finalize id]) (r.does (.finalize id)) where
  entries := by rw [entered_concat, ← h.entries]; rfl
  ordered := (registry_finalize r.arena id).symm ▸ h.ordered
  issued := by
    rw [entered_concat_of_quiet rfl]
    exact (congrArg Registry.issued (registry_finalize r.arena id)).trans h.issued
  slots k := by
    rw [slotOf_concat_of_quiet rfl (by simp) (by simp), ← h.slots]
    exact congrArg (Registry.slot? · k) (registry_finalize r.arena id)
  cleanups k := by
    rw [cleanupOf_finalize, ← h.cleanups]
    exact cleanup?_finalize r.arena id k
  tidy := h.tidy.finalize id

theorem release (h : Tells history r) (i : Int) :
    Tells (history ++ [.release i]) (r.does (.release i)) where
  entries := by rw [entered_concat, ← h.entries]; rfl
  ordered := h.ordered.release i
  issued := by rw [entered_concat_of_quiet rfl]; exact h.issued
  slots k := by
    rw [slotOf_release, ← h.slots]
    exact Registry.slot?_release_int _ i k
  cleanups k := by
    rw [cleanupOf_concat_of_quiet rfl (by simp) (by simp)]
    exact h.cleanups k
  tidy := h.tidy

theorem get (h : Tells history r) (i : Int) (kind : String) :
    Tells (history ++ [.get i kind]) (r.does (.get i kind)) where
  entries := by rw [entered_concat, ← h.entries]; rfl
  ordered := h.ordered
  issued := by rw [entered_concat_of_quiet rfl]; exact h.issued
  slots k := by
    rw [slotOf_concat_of_quiet rfl (by simp) (by simp)]
    exact h.slots k
  cleanups k := by
    rw [cleanupOf_concat_of_quiet rfl (by simp) (by simp)]
    exact h.cleanups k
  tidy := h.tidy

theorem collect (h : Tells history r) (thing : String) :
    Tells (history ++ [.collect thing]) (r.does (.collect thing)) := by
  obtain ⟨hordered, htidy, hissued⟩ := collect_keeps (r.numbersOf thing) h.ordered h.tidy
  constructor
  case entries => rw [entered_concat, ← h.entries]; rfl
  case ordered => exact hordered
  case issued => rw [entered_concat_of_quiet rfl]; exact hissued.trans h.issued
  case slots =>
    intro k
    rw [slotOf_collect h.entries, ← h.slots]
    exact slot?_collect _ _ k
  case cleanups =>
    intro k
    rw [cleanupOf_collect h.entries, ← h.cleanups]
    exact cleanup?_collect _ _ k
  case tidy => exact htidy

end Tells

theorem after_concat (history : List (Step β)) (s : Step β) :
    after (history ++ [s]) = (after history).does s := by
  rw [after, List.foldl_append]
  rfl

/-- After a history, places and cleanups are as the history says. -/
theorem after_tells (h : IsPossible history) : Tells history (after history) := by
  induction history using List.reverseRecOn with
  | nil =>
      have hentry (id : Nat) : entryOf (entered ([] : List (Step β))) id = none := by simp [entryOf, entered]
      exact ⟨rfl, Registry.empty_isOrdered, rfl, fun id => by simp [slotOf, hentry]; rfl,
        fun id => by simp [cleanupOf, hentry]; rfl, fun id => rfl⟩
  | append_singleton history s ih =>
      obtain ⟨hbefore, hthere⟩ := h.concat
      rw [after_concat]
      cases s with
      | insert kind thing => exact (ih hbefore).insert kind thing (hthere _ rfl)
      | track kind thing args => exact (ih hbefore).track kind thing args (hthere _ rfl)
      | finalize id => exact (ih hbefore).finalize id
      | release id => exact (ih hbefore).release id
      | get id kind => exact (ih hbefore).get id kind
      | collect thing => exact (ih hbefore).collect thing

/-! ## Every question -/

theorem answers_concat (history : List (Step β)) (s : Step β) :
    answers (history ++ [s]) = answers history ++ [(s.act (after history)).1] := by
  have hfrom (r : Roll β) : answersFrom r (history ++ [s]) =
      answersFrom r history ++ [(s.act (history.foldl Roll.does r)).1] := by
    induction history generalizing r with
    | nil => rfl
    | cons t history ih => exact congrArg _ (ih (r.does t))
  exact hfrom _

/-- What is read off the answers grows by what is read off the last one. -/
theorem read_concat {γ : Type} (f : Answer → Option γ) (history : List (Step β)) (s : Step β) :
    (answers (history ++ [s])).filterMap f =
      (answers history).filterMap f ++ (f (s.act (after history)).1).toList := by
  rw [answers_concat, List.filterMap_append, List.filterMap_cons]
  cases f (s.act (after history)).1 <;> rfl

/-- The number that a step gave. -/
def Answer.number? : Answer → Option Nat
  | .number id => some id
  | _ => none

/-- The number of which a step was the first release. -/
def Answer.released? : Answer → Option Int
  | .released id true => some id
  | _ => none

/-- The numbers that a history gave out, in order. -/
def numbers (history : List (Step β)) : List Nat := (answers history).filterMap Answer.number?

/-- The numbers of which a release was answered with yes. -/
def releases (history : List (Step β)) : List Int := (answers history).filterMap Answer.released?

/-- A number was released after it was given out. -/
def WasReleased (history : List (Step β)) (i : Int) : Prop :=
  ∃ id : Nat, i = id ∧ 0 < id ∧ Since history id (.release i)

/-- What holds of an arena after a history. -/
structure Accounts (history : List (Step β)) : Prop where
  /-- The numbers are given in order, from one on. -/
  numbers : numbers history = List.range' 1 (entered history).length
  /-- A thing is found exactly by the numbers that it is held under. -/
  found : ∀ (i : Int) kind thing,
    (after history).arena.registry.get i kind = .ok thing ↔
      ∃ id : Nat, i = id ∧ IsHeld history id kind thing
  wrongKind : ∀ (id : Nat) actual kind thing, IsHeld history id actual thing → actual ≠ kind →
    (after history).arena.registry.get id kind = .error (.wrongKind (toString (id : Int)) actual kind)
  stale : ∀ (i : Int) kind, (∀ (id : Nat) actual thing, i = id → ¬ IsHeld history id actual thing) →
    (after history).arena.registry.get i kind = .error (.disposed kind (toString i))
  live : ∀ i : Int, (after history).arena.registry.isLive i = true ↔
    ∃ kind thing, (after history).arena.registry.get i kind = .ok thing
  count : ∀ kind, (after history).arena.registry.liveCount (some kind) =
    {id | ∃ thing, IsHeld history id kind thing}.ncard
  total : (after history).arena.registry.liveCount none =
    ∑ kind ∈ ((entered history).map Entry.kind).toFinset,
      (after history).arena.registry.liveCount (some kind)
  /-- A number that was released is released first once, and any other never. -/
  releasedOnce : ∀ i : Int, (releases history).count i ≤ 1 ∧
    ((releases history).count i = 1 ↔ WasReleased history i)
  /-- A cleanup runs once if it is called for or its thing goes away, and otherwise never. -/
  cleaned : ∀ id e args, entryOf (entered history) id = some e → e.cleanup = some args →
    (IsCalled history id e.thing → (after history).arena.runs id = [args]) ∧
      (¬ IsCalled history id e.thing → (after history).arena.runs id = [])
  uncleaned : ∀ id, (∀ e, entryOf (entered history) id = some e → e.cleanup = none) →
    (after history).arena.runs id = []

namespace Tells

/-- The places that hold a thing are those of the numbers that it is held under. -/
theorem held_iff (h : Tells history r) {i : Int} {kind thing : String} :
    (∃ s, r.arena.registry.slot? i = some s ∧ s.kind = kind ∧ s.payload = some thing) ↔
      ∃ id : Nat, i = id ∧ IsHeld history id kind thing := by
  classical
  constructor
  · rintro ⟨s, hs, rfl, hpayload⟩
    have hid : (s.id : Int) = i := by simpa using List.find?_some hs
    subst hid
    refine ⟨s.id, rfl, ?_⟩
    rw [h.slots, slotOf] at hs
    split at hs
    · cases hs
    · rename_i hkept
      obtain ⟨e, he, heq⟩ := Option.map_eq_some_iff.mp hs
      have hthing := (congrArg Slot.payload heq).trans hpayload
      dsimp only at hthing
      split at hthing
      · cases hthing
      · rename_i hthere
        cases hthing
        exact ⟨⟨e, he, congrArg Slot.kind heq, rfl⟩, hkept, hthere⟩
  · rintro ⟨id, rfl, ⟨e, he, rfl, rfl⟩, hkept, hthere⟩
    refine ⟨⟨id, e.kind, some e.thing⟩, ?_, rfl, rfl⟩
    rw [h.slots, slotOf, if_neg hkept, he, Option.map_some, if_neg hthere]

theorem get_iff (h : Tells history r) {i : Int} {kind thing : String} :
    r.arena.registry.get i kind = .ok thing ↔ ∃ id : Nat, i = id ∧ IsHeld history id kind thing := by
  rw [← h.held_iff]
  constructor
  · intro hget
    obtain ⟨s, hs, hpayload, hkind⟩ := Registry.isLive_of_get hget
    exact ⟨s, hs, hkind, hpayload⟩
  · rintro ⟨s, hs, rfl, hpayload⟩
    exact Registry.get_of_slot? hs hpayload

theorem get_wrongKind (h : Tells history r) {id : Nat} {actual kind thing : String}
    (hheld : IsHeld history id actual thing) (hkind : actual ≠ kind) :
    r.arena.registry.get id kind = .error (.wrongKind (toString (id : Int)) actual kind) := by
  obtain ⟨s, hs, rfl, hpayload⟩ := h.held_iff.mpr ⟨id, rfl, hheld⟩
  rw [Registry.get, hs]
  dsimp only
  rw [hpayload]
  exact if_neg hkind

theorem get_stale (h : Tells history r) {i : Int} (kind : String)
    (hnone : ∀ (id : Nat) actual thing, i = id → ¬ IsHeld history id actual thing) :
    r.arena.registry.get i kind = .error (.disposed kind (toString i)) := by
  refine Registry.get_of_not_live ?_
  rw [← Bool.not_eq_true, Registry.isLive_iff]
  rintro ⟨actual, thing, hget⟩
  obtain ⟨id, hid, hheld⟩ := h.get_iff.mp hget
  exact hnone id actual thing hid hheld

theorem mem_slots_iff (h : Tells history r) {s : Slot String} :
    s ∈ r.arena.registry.slots ↔ r.arena.registry.slot? s.id = some s := by
  have hnodup : (r.arena.registry.slots.map (·.id)).Nodup :=
    (List.pairwise_map.mpr h.ordered.ascending).imp Nat.ne_of_lt
  rw [Registry.slot?_natCast, find?_number_iff hnodup]
  exact ⟨fun hs => ⟨hs, rfl⟩, fun hs => hs.1⟩

theorem liveCount_eq (h : Tells history r) (kind : String) :
    r.arena.registry.liveCount (some kind) = {id | ∃ thing, IsHeld history id kind thing}.ncard := by
  set places := r.arena.registry.slots.filter fun s => s.isPresent && kind == s.kind with hplaces
  have hnodup : (places.map (·.id)).Nodup :=
    ((List.pairwise_map.mpr h.ordered.ascending).imp Nat.ne_of_lt).sublist
      (List.filter_sublist.map _)
  have hset : {id | ∃ thing, IsHeld history id kind thing} = ↑(places.map (·.id)).toFinset := by
    ext id
    simp only [Set.mem_ofPred_eq, List.coe_toFinset, List.mem_map, hplaces, List.mem_filter]
    constructor
    · rintro ⟨thing, hheld⟩
      obtain ⟨s, hs, hkind, hpayload⟩ := h.held_iff.mpr ⟨id, rfl, hheld⟩
      obtain ⟨hmem, hid⟩ := Registry.slot?_mem hs
      exact ⟨s, ⟨hmem, by simp [Slot.isPresent, hpayload, hkind]⟩, hid⟩
    · rintro ⟨s, ⟨hmem, hs⟩, rfl⟩
      obtain ⟨hpresent, hkind⟩ := Bool.and_eq_true_iff.mp hs
      obtain ⟨thing, hthing⟩ := Option.isSome_iff_exists.mp hpresent
      obtain ⟨id, hid, hheld⟩ :=
        h.held_iff.mp ⟨s, h.mem_slots_iff.mp hmem, (eq_of_beq hkind).symm, hthing⟩
      cases Int.natCast_inj.mp hid
      exact ⟨thing, hheld⟩
  rw [hset, Set.ncard_coe_finset, List.toFinset_card_of_nodup hnodup, List.length_map]
  rfl

/-- Every kind of a place is one that was entered. -/
theorem kind_mem (h : Tells history r) {s : Slot String} (hs : s ∈ r.arena.registry.slots) :
    s.kind ∈ (entered history).map Entry.kind := by
  have hslot := h.mem_slots_iff.mp hs
  rw [h.slots, slotOf] at hslot
  split at hslot
  · cases hslot
  · obtain ⟨e, he, heq⟩ := Option.map_eq_some_iff.mp hslot
    rw [entryOf] at he
    split at he
    · cases he
    · exact List.mem_map.mpr ⟨e, List.mem_of_getElem? he, congrArg Slot.kind heq⟩

theorem liveCount_total (h : Tells history r) :
    r.arena.registry.liveCount none = ∑ kind ∈ ((entered history).map Entry.kind).toFinset,
      r.arena.registry.liveCount (some kind) := by
  have hcount (slots : List (Slot String)) (kinds : Finset String)
      (hkinds : ∀ s ∈ slots, s.kind ∈ kinds) :
      (slots.filter fun s => s.isPresent && (none : Option String).all (· == s.kind)).length =
        ∑ kind ∈ kinds,
          (slots.filter fun s => s.isPresent && (some kind).all (· == s.kind)).length := by
    induction slots with
    | nil => simp
    | cons s slots ih =>
        have hrest := ih fun t ht => hkinds t (List.mem_cons_of_mem _ ht)
        have hkind := hkinds s List.mem_cons_self
        simp only [Option.all_none, Option.all_some, Bool.and_true] at hrest ⊢
        cases hpresent : s.isPresent with
        | false => simpa [hpresent] using hrest
        | true =>
            have hterm (kind : String) :
                ((s :: slots).filter fun s => s.isPresent && kind == s.kind).length =
                  (slots.filter fun s => s.isPresent && kind == s.kind).length +
                    if kind = s.kind then 1 else 0 := by
              by_cases hk : kind = s.kind <;> simp [hpresent, hk]
            rw [List.filter_cons_of_pos hpresent, List.length_cons, hrest]
            simp only [hterm, Finset.sum_add_distrib, Finset.sum_ite_eq', hkind, if_true]
  exact hcount _ _ fun s hs => List.mem_toFinset.mpr (h.kind_mem hs)

/-- The places are those of the numbers that were given out and not released since. -/
theorem slot?_isSome_iff (h : Tells history r) {i : Int} :
    (r.arena.registry.slot? i).isSome = true ↔
      ∃ id : Nat, i = id ∧ 0 < id ∧ id ≤ (entered history).length ∧ ¬ Since history id (.release i) := by
  classical
  constructor
  · intro hsome
    obtain ⟨s, hs⟩ := Option.isSome_iff_exists.mp hsome
    have hid : (s.id : Int) = i := by simpa using List.find?_some hs
    subst hid
    rw [h.slots, slotOf] at hs
    split at hs
    · cases hs
    · rename_i hkept
      obtain ⟨e, he, -⟩ := Option.map_eq_some_iff.mp hs
      obtain ⟨hpos, hle⟩ := entryOf_le he
      exact ⟨s.id, rfl, hpos, hle, hkept⟩
  · rintro ⟨id, rfl, hpos, hle, hkept⟩
    have hlt : id - 1 < (entered history).length := by omega
    have hentry : entryOf (entered history) id = some (entered history)[id - 1] := by
      rw [entryOf, if_neg (by omega)]
      exact List.getElem?_eq_getElem hlt
    rw [h.slots, slotOf, if_neg hkept, hentry]
    rfl

/-- Whether a cleanup ran is whether it was called for. -/
theorem runs_eq (h : Tells history r) {id : Nat} {e : Entry β} {args : List β}
    (he : entryOf (entered history) id = some e) (hargs : e.cleanup = some args) :
    (IsCalled history id e.thing → r.arena.runs id = [args]) ∧
      (¬ IsCalled history id e.thing → r.arena.runs id = []) := by
  classical
  have hcleanup : r.arena.cleanup? id = some ⟨id, args, decide (¬ IsCalled history id e.thing)⟩ := by
    rw [h.cleanups, cleanupOf, he, Option.bind_some, hargs, Option.map_some]
  have hruns := h.tidy id
  rw [hcleanup] at hruns
  constructor
  · intro hcalled
    simpa [hcalled] using hruns
  · intro hnot
    simpa [hnot] using hruns

theorem runs_of_uncleaned (h : Tells history r) {id : Nat}
    (hnone : ∀ e, entryOf (entered history) id = some e → e.cleanup = none) :
    r.arena.runs id = [] := by
  have hcleanup : r.arena.cleanup? id = none := by
    rw [h.cleanups, cleanupOf]
    cases he : entryOf (entered history) id with
    | none => rfl
    | some e => rw [Option.bind_some, hnone e he, Option.map_none]
  have hruns := h.tidy id
  rwa [hcleanup] at hruns

end Tells

/-! ### What is given out and what is released -/

/-- A step gives out the next number for what it enters. -/
theorem numbers_eq (h : IsPossible history) :
    numbers history = List.range' 1 (entered history).length := by
  induction history using List.reverseRecOn with
  | nil => rfl
  | append_singleton history s ih =>
      obtain ⟨hbefore, -⟩ := h.concat
      have hnext := (after_tells hbefore).next_eq
      have hanswer : (s.act (after history)).1.number?.toList =
          s.entry?.toList.map fun _ => (entered history).length + 1 := by
        cases s with
        | insert kind thing => exact congrArg (fun id => [id]) hnext
        | track kind thing args => exact congrArg (fun id => [id]) hnext
        | _ => rfl
      rw [numbers, read_concat, ← numbers, ih hbefore, hanswer, entered_concat]
      cases s.entry? with
      | none => simp
      | some e =>
          rw [Option.toList_some, List.map_singleton, List.length_append, List.length_singleton,
            List.range'_1_concat, Nat.add_comm 1]

theorem wasReleased_concat {i : Int} : WasReleased (history ++ [s]) i ↔
    WasReleased history i ∨
      (s = .release i ∧ ∃ id : Nat, i = id ∧ 0 < id ∧ id ≤ (entered history).length) := by
  simp only [WasReleased, since_concat]
  constructor
  · rintro ⟨id, hi, hpos, hsince | ⟨hs, hle⟩⟩
    · exact .inl ⟨id, hi, hpos, hsince⟩
    · exact .inr ⟨hs, id, hi, hpos, hle⟩
  · rintro (⟨id, hi, hpos, hsince⟩ | ⟨hs, id, hi, hpos, hle⟩)
    · exact ⟨id, hi, hpos, .inl hsince⟩
    · exact ⟨id, hi, hpos, .inr ⟨hs, hle⟩⟩

open Classical in
/-- A number is answered with yes by the release that first takes it away. -/
theorem count_releases (h : IsPossible history) (i : Int) :
    (releases history).count i = if WasReleased history i then 1 else 0 := by
  induction history using List.reverseRecOn with
  | nil =>
      have hnever : ¬ WasReleased ([] : List (Step β)) i := by
        rintro ⟨id, -, hpos, hsince⟩
        exact absurd hsince.le (by simpa [entered] using Nat.ne_of_gt hpos)
      rw [if_neg hnever]
      rfl
  | append_singleton history s ih =>
      obtain ⟨hbefore, -⟩ := h.concat
      rw [releases, read_concat, List.count_append, ← releases, ih hbefore, wasReleased_concat]
      by_cases hs : s = .release i
      · subst hs
        have hplace := (after_tells hbefore).slot?_isSome_iff (i := i)
        have hanswer : (Step.act (after history) (.release i)).1 =
            .released i ((after history).arena.registry.slot? i).isSome := rfl
        rw [hanswer]
        cases hsome : ((after history).arena.registry.slot? i).isSome with
        | true =>
            obtain ⟨id, hi, hpos, hle, hkept⟩ := hplace.mp hsome
            have hnot : ¬ WasReleased history i := fun ⟨k, hik, _, hsince⟩ =>
              hkept (Int.natCast_inj.mp (hi.symm.trans hik) ▸ hsince)
            rw [if_neg hnot, if_pos (.inr ⟨rfl, id, hi, hpos, hle⟩)]
            simp [Answer.released?]
        | false =>
            have hagain (hgiven : ∃ id : Nat, i = id ∧ 0 < id ∧ id ≤ (entered history).length) :
                WasReleased history i := by
              obtain ⟨id, hi, hpos, hle⟩ := hgiven
              by_contra hnot
              have hkept : ¬ Since history id (.release i) := fun hsince => hnot ⟨id, hi, hpos, hsince⟩
              exact absurd (hplace.mpr ⟨id, hi, hpos, hle, hkept⟩) (by simp [hsome])
            simp only [true_and, or_iff_left_of_imp hagain]
            rfl
      · have hanswer : ((s.act (after history)).1.released?.toList).count i = 0 := by
          cases s with
          | release j =>
              have hne : j ≠ i := fun hij => hs (congrArg Step.release hij)
              rw [Step.act]
              cases (after history).arena.registry.release j with
              | mk first registry => cases first <;> simp [Answer.released?, hne]
          | _ => rfl
        simp only [hanswer, hs, false_and, or_false, Nat.add_zero]

/-- Every question to an arena is answered as its history says. -/
theorem accounts_after (h : IsPossible history) : Accounts history where
  numbers := numbers_eq h
  found _ _ _ := (after_tells h).get_iff
  wrongKind _ _ _ _ hheld hkind := (after_tells h).get_wrongKind hheld hkind
  stale _ kind hnone := (after_tells h).get_stale kind hnone
  live _ := Registry.isLive_iff
  count := (after_tells h).liveCount_eq
  total := (after_tells h).liveCount_total
  releasedOnce i := by
    rw [count_releases h]
    split <;> simp_all
  cleaned _ _ _ he hargs := (after_tells h).runs_eq he hargs
  uncleaned _ hnone := (after_tells h).runs_of_uncleaned hnone

/-- A thing that is entered twice goes away under both numbers, and its cleanup, which was called for
before, does not run again. -/
theorem accounts_enteredTwice :
    let history : List (Step String) := [.track "module" "a" ["x"], .insert "context" "a",
      .insert "module" "b", .finalize 1, .release 7, .release 1, .collect "a", .finalize 1]
    IsPossible history ∧ numbers history = [1, 2, 3] ∧
      (after history).arena.registry.get 2 "context" = .error (.disposed "context" "2") ∧
      (after history).arena.registry.get 3 "engine" = .error (.wrongKind "3" "module" "engine") ∧
      (after history).arena.runs 1 = [["x"]] := by
  intro history
  have hpossible : IsPossible history := by decide
  have haccounts := accounts_after hpossible
  have hheld : IsHeld history 3 "module" "b" :=
    ⟨⟨⟨"module", "b", none⟩, rfl, rfl, rfl⟩, fun hsince => absurd hsince.mem (by decide), by decide⟩
  refine ⟨hpossible, haccounts.numbers, haccounts.stale 2 "context" ?_,
    haccounts.wrongKind 3 "module" "engine" "b" hheld (by decide), ?_⟩
  · rintro id actual thing hid ⟨⟨e, he, -, rfl⟩, -, hthere⟩
    cases Int.natCast_inj.mp hid
    cases he
    exact hthere (by decide)
  · exact (haccounts.cleaned 1 ⟨"module", "a", some ["x"]⟩ ["x"] rfl rfl).1 (.inr (by decide))

end

end Arena

end Ssa

/-
# `Ssa.Proofs.Registry.Lookup` — what a number of a registry leads to

A registry whose numbers were given out in order leads by a number to the thing that was entered
under it, until the number is released.  Entering a thing changes what one number leads to, which
led to nothing before, and so does releasing one.

**Proved here.**

    entering and releasing keep a registry in order                     (`IsOrdered.insert`, `IsOrdered.release`)
    what numbers lead to after entering, releasing and forgetting         (`slot?_insert`, `slot?_release`, `slot?_forget`)
    a number that leads to nothing is answered with a failure that names it (`get_of_not_live`)
    a question about an integer is the question about the number            (`find_int`, `leads_int`, `dismiss_int`)
-/
import Mathlib.Data.List.Nodup
import Ssa.Registry.Basic

namespace Ssa

/-! ## Things by number -/

section Numbered

variable {α : Type} {number : α → Nat} {as : List α} {k : Nat}

/-- Where numbers are given once, the first thing of a number is the one that has it. -/
theorem find?_number_iff (h : (as.map number).Nodup) {a : α} :
    as.find? (number · == k) = some a ↔ a ∈ as ∧ number a = k := by
  constructor
  · intro hfind
    exact ⟨List.mem_of_find?_eq_some hfind, by simpa using List.find?_some hfind⟩
  · rintro ⟨ha, rfl⟩
    cases hfind : as.find? (number · == number a) with
    | none => simpa using List.find?_eq_none.mp hfind a ha
    | some b =>
        have hb : number b = number a := by simpa using List.find?_some hfind
        rw [List.inj_on_of_nodup_map h (List.mem_of_find?_eq_some hfind) ha hb]

/-- Things may be changed in all but their numbers. -/
theorem find?_number_map {change : α → α} (h : ∀ a ∈ as, number (change a) = number a) :
    (as.map change).find? (number · == k) = (as.find? (number · == k)).map change := by
  induction as with
  | nil => rfl
  | cons a as ih =>
      rw [List.map_cons, List.find?_cons, List.find?_cons, h a List.mem_cons_self]
      split
      · rfl
      · exact ih fun b hb => h b (List.mem_cons_of_mem _ hb)

end Numbered

namespace Registry

variable {α : Type} {r : Registry α}

/-- The numbers of the places ascend, and are among those that were given out. -/
structure IsOrdered (r : Registry α) : Prop where
  ascending : r.slots.Pairwise fun a b => a.id < b.id
  positive : ∀ s ∈ r.slots, 0 < s.id
  issued : ∀ s ∈ r.slots, s.id ≤ r.issued

theorem empty_isOrdered : (Registry.empty : Registry α).IsOrdered := ⟨.nil, nofun, nofun⟩

/-! ## Places by number -/

theorem slot?_natCast (r : Registry α) (id : Nat) : r.slot? id = r.slots.find? (·.id == id) :=
  congrArg (fun p => r.slots.find? p) (funext fun s => by
    rw [Bool.eq_iff_iff, beq_iff_eq, beq_iff_eq, Int.natCast_inj])

theorem slot?_mem {id : Nat} {s : Slot α} (h : r.slot? id = some s) : s ∈ r.slots ∧ s.id = id := by
  rw [slot?_natCast] at h
  exact ⟨List.mem_of_find?_eq_some h, by simpa using List.find?_some h⟩

theorem slot?_eq_none {id : Nat} : r.slot? id = none ↔ ∀ s ∈ r.slots, s.id ≠ id := by
  simp [slot?_natCast, List.find?_eq_none]

/-- Entering a thing gives the next number to it, and changes nothing for the others. -/
theorem slot?_insert (h : r.IsOrdered) (kind : String) (a : α) (id : Nat) :
    (r.insert kind a).2.slot? id = if id = r.next then some ⟨r.next, kind, some a⟩
      else r.slot? id := by
  have hsplit : (r.insert kind a).2.slot? id =
      (r.slot? id).or (([⟨r.next, kind, some a⟩] : List (Slot α)).find? (·.id == id)) := by
    rw [slot?_natCast, slot?_natCast]
    exact List.find?_append
  rw [hsplit]
  by_cases hid : id = r.next
  · -- the number is greater than all that were given out
    have hnone : r.slot? id = none := slot?_eq_none.mpr fun s hs heq => by
      have := h.issued s hs
      rw [heq, hid, next] at this
      omega
    subst hid
    simp [hnone]
  · simp [hid, Ne.symm hid]

/-- Releasing an integer takes what it leads to away, and changes nothing for the others. -/
theorem slot?_release_int (r : Registry α) (i : Int) (k : Nat) :
    (r.release i).2.slot? k = if (k : Int) = i then none else r.slot? k := by
  rw [slot?_natCast, slot?_natCast]
  show (r.slots.filter fun s => (s.id : Int) != i).find? (·.id == k) = _
  rw [List.find?_filter]
  split
  · rename_i hk
    subst hk
    rw [List.find?_eq_none]
    intro s _ hs
    obtain ⟨hne, heq⟩ := of_decide_eq_true hs
    exact bne_iff_ne.mp hne (congrArg Nat.cast (beq_iff_eq.mp heq))
  · rename_i hk
    refine congrArg (fun p => r.slots.find? p) (funext fun s => ?_)
    by_cases hs : s.id = k
    · simp [hs, hk]
    · simp [hs]

theorem slot?_release (r : Registry α) (id k : Nat) :
    (r.release id).2.slot? k = if k = id then none else r.slot? k := by
  simp only [slot?_release_int, Int.natCast_inj]

/-- What is gone is taken from its place, and changes nothing for the others. -/
theorem slot?_forget (r : Registry α) (id k : Nat) :
    (r.forget id).slot? k =
      (r.slot? k).map fun s => if s.id = id then { s with payload := none } else s := by
  rw [slot?_natCast, slot?_natCast]
  exact find?_number_map fun s _ => by split <;> rfl

/-! ## Order -/

theorem IsOrdered.insert (h : r.IsOrdered) (kind : String) (a : α) :
    (r.insert kind a).2.IsOrdered where
  ascending := List.pairwise_append.mpr ⟨h.ascending, List.pairwise_singleton _ _,
    fun s hs t ht => by
      cases List.mem_singleton.mp ht
      exact Nat.lt_succ_of_le (h.issued s hs)⟩
  positive s hs := by
    rcases List.mem_append.mp hs with hs | hs
    · exact h.positive s hs
    · cases List.mem_singleton.mp hs
      exact Nat.succ_pos _
  issued s hs := by
    rcases List.mem_append.mp hs with hs | hs
    · exact Nat.le_succ_of_le (h.issued s hs)
    · cases List.mem_singleton.mp hs
      exact Nat.le_refl _

theorem IsOrdered.release (h : r.IsOrdered) (id : Int) : (r.release id).2.IsOrdered where
  ascending := h.ascending.filter _
  positive s hs := h.positive s (List.mem_filter.mp hs).1
  issued s hs := h.issued s (List.mem_filter.mp hs).1

theorem IsOrdered.forget (h : r.IsOrdered) (id : Nat) : (r.forget id).IsOrdered := by
  have hid (s : Slot α) : (if s.id = id then { s with payload := none } else s).id = s.id := by
    split <;> rfl
  refine ⟨List.pairwise_map.mpr (h.ascending.imp fun hlt => ?_), fun s hs => ?_, fun s hs => ?_⟩
  · rw [hid, hid]
    exact hlt
  · obtain ⟨s₀, hs₀, rfl⟩ := List.mem_map.mp hs
    rw [hid]
    exact h.positive s₀ hs₀
  · obtain ⟨s₀, hs₀, rfl⟩ := List.mem_map.mp hs
    rw [hid]
    exact h.issued s₀ hs₀

/-! ## Liveness -/

theorem isLive_insert (h : r.IsOrdered) (kind : String) (a : α) (id : Nat) :
    (r.insert kind a).2.isLive id = (decide (id = r.next) || r.isLive id) := by
  rw [isLive, slot?_insert h, isLive]
  by_cases hid : id = r.next
  · simp [hid, Slot.isPresent]
  · simp [hid]

theorem isLive_release (r : Registry α) (id k : Nat) :
    (r.release id).2.isLive k = (decide (k ≠ id) && r.isLive k) := by
  rw [isLive, slot?_release, isLive]
  by_cases hk : k = id
  · simp [hk]
  · simp [hk]

/-- A number that leads to nothing is answered with the failure that what was asked for under it is
gone. -/
theorem get_of_not_live {id : Int} {kind : String} (h : r.isLive id = false) :
    r.get id kind = .error (.disposed kind (toString id)) := by
  rw [isLive] at h
  rw [get]
  split
  · rfl
  · rename_i s hs
    rw [hs] at h
    have hnone : s.payload = none := by simpa [Slot.isPresent] using h
    rw [hnone]

/-- A number that is live leads to its thing for who asks for a thing of its kind. -/
theorem get_of_slot? {id : Int} {s : Slot α} {a : α} (hs : r.slot? id = some s)
    (ha : s.payload = some a) : r.get id s.kind = .ok a := by
  rw [get, hs]
  dsimp only
  rw [ha]
  exact if_pos rfl

theorem isLive_of_get {id : Int} {kind : String} {a : α} (h : r.get id kind = .ok a) :
    ∃ s, r.slot? id = some s ∧ s.payload = some a ∧ s.kind = kind := by
  rw [get] at h
  split at h
  · cases h
  · rename_i s hs
    split at h
    · cases h
    · rename_i b hb
      split at h
      · cases h
        exact ⟨s, hs, hb, ‹_›⟩
      · cases h

/-- What is live is what somebody who asks for the right kind gets. -/
theorem isLive_iff {id : Int} : r.isLive id = true ↔ ∃ kind a, r.get id kind = .ok a := by
  rw [isLive, Option.any_eq_true]
  constructor
  · rintro ⟨s, hs, hpresent⟩
    obtain ⟨a, ha⟩ := Option.isSome_iff_exists.mp hpresent
    exact ⟨s.kind, a, get_of_slot? hs ha⟩
  · rintro ⟨kind, a, hget⟩
    obtain ⟨s, hs, hpayload, -⟩ := isLive_of_get hget
    exact ⟨s, hs, by rw [Slot.isPresent, hpayload]; rfl⟩

/-! ## Questions about data -/

/-- A question about an integer and a kind is the question about the number. -/
theorem find_int (r : Registry α) (i : Int) (kind : String) :
    r.find (.int i) (.text kind) = r.get i kind := by
  have hplace : r.place? (.int i) = .ok (r.slot? i) := rfl
  rw [find, hplace, get]
  cases r.slot? i with
  | none => rfl
  | some s =>
      obtain ⟨id, actual, _ | a⟩ := s
      · rfl
      · rfl

theorem leads_int (r : Registry α) (i : Int) : r.leads (.int i) = .ok (r.isLive i) := rfl

theorem dismiss_int (r : Registry α) (i : Int) : r.dismiss (.int i) = .ok (r.release i) := by
  have hplace : r.place? (.int i) = .ok (r.slot? i) := rfl
  rw [dismiss, hplace]
  cases hs : r.slot? i with
  | none =>
      -- nothing has the number, so nothing is taken away
      have hkept : (r.slots.filter fun s => (s.id : Int) != i) = r.slots :=
        List.filter_eq_self.mpr fun s hmem => by simpa using List.find?_eq_none.mp hs s hmem
      rw [release, hs, hkept]
      rfl
  | some s =>
      have hid : (s.id : Int) = i := by simpa using List.find?_some hs
      exact congrArg (fun id => Except.ok (r.release id)) hid

end Registry

end Ssa

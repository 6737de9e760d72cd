/-
# `Ssa.Proofs.Files.Path` — paths that files can have

A text writes a path, and the one character that no name of a file can hold is in the path exactly if it
is in the text.  Another ending of the last name does not bring it in.
-/
import Mathlib.Data.List.Basic
import Ssa.Session.Emission

namespace Ssa.Path

theorem splitSlash_ne_nil (cs : List Char) : splitSlash cs ≠ [] := by
  cases cs with
  | nil => exact nofun
  | cons c cs =>
      rw [splitSlash]
      split
      · exact nofun
      · split <;> exact nofun

/-- Dividing a path loses none of its characters but slashes. -/
theorem mem_splitSlash {c : Char} (hc : c ≠ '/') (cs : List Char) :
    (∃ part ∈ splitSlash cs, c ∈ part) ↔ c ∈ cs := by
  induction cs with
  | nil => simp [splitSlash]
  | cons d cs ih =>
      rw [splitSlash]
      cases hparts : splitSlash cs with
      | nil => exact absurd hparts (splitSlash_ne_nil cs)
      | cons part parts =>
          rw [hparts] at ih
          by_cases hd : d = '/'
          · simp [hd, hc, ← ih]
          · simp [hd, ← ih, or_assoc]

/-- A text writes a path that no file can have if there is a character in it that no name can hold. -/
theorem isUnusable_read (s : String) : (read s).isUnusable = true ↔ '\x00' ∈ s.toList := by
  rw [← mem_splitSlash (by decide)]
  simp only [isUnusable, read, List.any_eq_true, List.mem_filter, List.mem_map]
  constructor
  · rintro ⟨_, ⟨⟨part, hpart, rfl⟩, -⟩, hcontains⟩
    exact ⟨part, hpart, by simpa using hcontains⟩
  · rintro ⟨part, hpart, hc⟩
    refine ⟨String.ofList part, ⟨⟨part, hpart, rfl⟩, ?_⟩, by simpa using hc⟩
    have hlist : (String.ofList part).toList = part := String.toList_ofList
    rw [Bool.and_eq_true, decide_eq_true_eq, decide_eq_true_eq]
    constructor
    · intro h
      rw [h] at hlist
      rw [← hlist] at hc
      cases hc
    · intro h
      rw [h] at hlist
      rw [← hlist] at hc
      exact absurd hc (by decide)

theorem divideName_mem {c : Char} {name : String} (h : c ∈ (divideName name).1.toList) :
    c ∈ name.toList := by
  unfold divideName at h
  dsimp only at h
  split at h
  · exact h
  · rw [String.toList_ofList] at h
    exact List.mem_of_mem_take h

/-- Another ending leaves a path usable. -/
theorem isUnusable_withEnding {p q : Path} {ending : String} (hp : p.isUnusable = false)
    (hending : '\x00' ∉ ending.toList) (h : p.withEnding ending = .ok q) : q.isUnusable = false := by
  unfold withEnding at h
  split at h
  · cases h
  · rename_i hname
    cases h
    rw [isUnusable, List.any_eq_false] at hp ⊢
    intro part hpart hc
    rcases List.mem_append.mp hpart with hpart | hpart
    · exact hp part (List.dropLast_subset _ hpart) hc
    · obtain rfl := List.mem_singleton.mp hpart
      rw [List.contains_iff_mem, String.toList_append, List.mem_append] at hc
      rcases hc with hc | hc
      · have hc : '\x00' ∈ p.name.toList := divideName_mem hc
        unfold name at hc hname
        cases hlast : p.parts.getLast? with
        | none => rw [hlast] at hname; exact hname rfl
        | some last =>
            rw [hlast] at hc
            exact hp last (List.mem_of_getLast? hlast) (List.contains_iff_mem.mpr hc)
      · exact hending hc

end Ssa.Path

/-
# `Ssa.Proofs.Target.Triple` — names of platforms, read and written

A name is divided at its first three hyphens at most, and what is behind the third is not looked into.
So the first three parts of a platform that was read hold no hyphen, and the fourth may be any text;
it is written only if there is something in it.  Reading undoes writing for every platform with such
parts.  Writing undoes reading for the names with two hyphens or more, save those that end in a third
one: these have a fourth part with nothing in it, and lose their last hyphen.

**Proved here.**

    the first three parts of what is read hold no hyphen                (`Triple.isPart_read`)
    a platform with such parts is read as it was written                (`Triple.read_name`)
    a name is written as it was read                                    (`Triple.name_read_iff`)
    both, and what another architecture leaves alone                    (`Triple.names_read_back`)
-/
import Mathlib.Data.List.Basic
import Ssa.Target.Machine

namespace Ssa.Triple

/-! ## Parts -/

/-- A text that can stand before a hyphen: there is none in it. -/
def IsPart (s : String) : Prop := '-' ∉ s.toList

instance (s : String) : Decidable (IsPart s) := inferInstanceAs (Decidable ('-' ∉ s.toList))

theorem splitHyphen_of_notMem {cs : List Char} (h : '-' ∉ cs) : splitHyphen cs = (cs, none) := by
  induction cs with
  | nil => rfl
  | cons c cs ih =>
      obtain ⟨hc, hcs⟩ := List.ne_and_not_mem_of_not_mem_cons h
      rw [splitHyphen, if_neg hc.symm, ih hcs]

theorem splitHyphen_append {cs : List Char} (h : '-' ∉ cs) (ds : List Char) :
    splitHyphen (cs ++ '-' :: ds) = (cs, some ds) := by
  induction cs with
  | nil => rfl
  | cons c cs ih =>
      obtain ⟨hc, hcs⟩ := List.ne_and_not_mem_of_not_mem_cons h
      rw [List.cons_append, splitHyphen, if_neg hc.symm, ih hcs]

theorem notMem_splitHyphen (cs : List Char) : '-' ∉ (splitHyphen cs).1 := by
  induction cs with
  | nil => exact List.not_mem_nil
  | cons c cs ih =>
      rw [splitHyphen]
      split
      · exact List.not_mem_nil
      · exact List.not_mem_cons_of_ne_of_not_mem (Ne.symm (by assumption)) ih

theorem isPart_takePart (rest : Option (List Char)) : IsPart (takePart rest).1 := by
  cases rest with
  | none => exact (by decide : IsPart "unknown")
  | some cs =>
      show '-' ∉ (String.ofList (splitHyphen cs).1).toList
      rw [String.toList_ofList]
      exact notMem_splitHyphen cs

theorem isPart_read (t : String) :
    IsPart (read t).arch ∧ IsPart (read t).vendor ∧ IsPart (read t).os := by
  simp only [read]
  exact ⟨isPart_takePart _, isPart_takePart _, isPart_takePart _⟩

section

variable {a b c : String}

theorem takePart_last (ha : IsPart a) : takePart (some a.toList) = (a, none) := by
  rw [takePart, splitHyphen_of_notMem ha]
  simp

theorem takePart_divided (ha : IsPart a) (rest : List Char) :
    takePart (some (a.toList ++ '-' :: rest)) = (a, some rest) := by
  rw [takePart, splitHyphen_append ha]
  simp

/-! ## Names of three parts, and of four -/

theorem read_three (ha : IsPart a) (hb : IsPart b) (hc : IsPart c) :
    read (a ++ "-" ++ b ++ "-" ++ c) = ⟨a, b, c, ""⟩ := by
  have hchars : (a ++ "-" ++ b ++ "-" ++ c).toList =
      a.toList ++ '-' :: (b.toList ++ '-' :: c.toList) := by simp
  simp only [read, hchars, takePart_divided ha, takePart_divided hb, takePart_last hc]
  rfl

theorem read_four (ha : IsPart a) (hb : IsPart b) (hc : IsPart c) (d : String) :
    read (a ++ "-" ++ b ++ "-" ++ c ++ "-" ++ d) = ⟨a, b, c, d⟩ := by
  have hchars : (a ++ "-" ++ b ++ "-" ++ c ++ "-" ++ d).toList =
      a.toList ++ '-' :: (b.toList ++ '-' :: (c.toList ++ '-' :: d.toList)) := by simp
  simp only [read, hchars, takePart_divided ha, takePart_divided hb, takePart_divided hc]
  simp

end

/-- A text with a hyphen is divided at the first. -/
theorem exists_divided {t : String} (h : '-' ∈ t.toList) :
    ∃ first rest, IsPart first ∧ t = first ++ "-" ++ rest := by
  obtain ⟨cs, ds, hchars, hcs⟩ := List.eq_append_cons_of_mem h
  refine ⟨String.ofList cs, String.ofList ds, ?_, String.toList_inj.mp ?_⟩
  · rwa [IsPart, String.toList_ofList]
  · simp [hchars]

theorem exists_divided_twice {t : String} (h : 2 ≤ t.toList.count '-') :
    ∃ a b rest, IsPart a ∧ IsPart b ∧ t = a ++ "-" ++ b ++ "-" ++ rest := by
  obtain ⟨a, s, ha, rfl⟩ := exists_divided (t := t) (List.count_pos_iff.mp (by omega))
  have hcount : (a ++ "-" ++ s).toList.count '-' = s.toList.count '-' + 1 := by
    simp [List.count_eq_zero_of_not_mem ha]
  obtain ⟨b, rest, hb, rfl⟩ := exists_divided (t := s) (List.count_pos_iff.mp (by omega))
  exact ⟨a, b, rest, ha, hb, by simp only [String.append_assoc]⟩

/-! ## Reading and writing -/

/-- What stands in the name of a platform behind the architecture. -/
def rest (t : Triple) : String :=
  t.vendor ++ "-" ++ t.os ++ if t.abi = "" then "" else "-" ++ t.abi

theorem name_eq (t : Triple) : t.name = t.arch ++ "-" ++ t.rest := by
  unfold name rest
  split <;> simp [String.append_assoc]

theorem rest_withArch (t : Triple) (arch : String) : (t.withArch arch).rest = t.rest := rfl

/-- A platform whose first three parts hold no hyphen is read as it was written. -/
theorem read_name {t : Triple} (ha : IsPart t.arch) (hv : IsPart t.vendor) (ho : IsPart t.os) :
    read t.name = t := by
  unfold name
  split
  · rename_i habi
    rw [read_three ha hv ho, ← habi]
  · rw [read_four ha hv ho]

theorem two_le_count_name (t : Triple) : 2 ≤ t.name.toList.count '-' := by
  rw [name_eq, rest]
  simp only [String.toList_append, List.count_append]
  have hhyphen : "-".toList.count '-' = 1 := by decide
  omega

/-- A name of three parts with a hyphen at its end. -/
def EndsBare (t : String) : Prop :=
  ∃ a b c, IsPart a ∧ IsPart b ∧ IsPart c ∧ t = a ++ "-" ++ b ++ "-" ++ c ++ "-"

/-- The names that are written as they were read. -/
theorem name_read_iff (t : String) :
    (read t).name = t ↔ 2 ≤ t.toList.count '-' ∧ ¬EndsBare t := by
  constructor
  · intro h
    refine ⟨h ▸ two_le_count_name (read t), ?_⟩
    rintro ⟨a, b, c, ha, hb, hc, rfl⟩
    have hread := read_four ha hb hc ""
    rw [String.append_empty] at hread
    rw [hread] at h
    -- the last hyphen is not written
    have hlength := congrArg String.length h
    simp [name] at hlength
  · rintro ⟨hcount, hbare⟩
    obtain ⟨a, b, s, ha, hb, rfl⟩ := exists_divided_twice hcount
    by_cases hs : IsPart s
    · rw [read_three ha hb hs, name, if_pos rfl]
    · obtain ⟨c, d, hc, rfl⟩ := exists_divided (not_not.mp hs)
      have hparts : a ++ "-" ++ b ++ "-" ++ (c ++ "-" ++ d) = a ++ "-" ++ b ++ "-" ++ c ++ "-" ++ d := by
        simp only [String.append_assoc]
      rw [hparts] at hbare ⊢
      rw [read_four ha hb hc, name]
      refine if_neg fun hd => hbare ⟨a, b, c, ha, hb, hc, ?_⟩
      rw [show d = "" from hd, String.append_empty]

/-- **Names of platforms.**  A name is written as it was read if and only if it has two hyphens or more
and is not one of three parts with a hyphen at its end.  A platform whose architecture, vendor and
operating system hold no hyphen is read as it was written, whatever its last part is.  A name that was
read, written with another architecture that holds no hyphen and read again, differs in the architecture
alone.  So of a host's name that is written as it was read, the native processor keeps all, and the
other two keep what is behind the first hyphen. -/
theorem names_read_back :
    (∀ t : String, (read t).name = t ↔ 2 ≤ t.toList.count '-' ∧ ¬EndsBare t) ∧
    (∀ p : Triple, IsPart p.arch → IsPart p.vendor → IsPart p.os → read p.name = p) ∧
    (∀ t arch : String, IsPart arch →
      read ((read t).withArch arch).name = { read t with arch := arch }) ∧
    ∀ t : String, (read t).name = t → ∃ first rest, IsPart first ∧ t = first ++ "-" ++ rest ∧
      (Processor.native.triple (read t)).name = t ∧
      (Processor.x86_64.triple (read t)).name = "x86_64-" ++ rest ∧
      (Processor.i686.triple (read t)).name = "i686-" ++ rest := by
  refine ⟨name_read_iff, fun p => read_name, fun t arch harch => ?_, fun t h => ?_⟩
  · obtain ⟨-, hvendor, hos⟩ := isPart_read t
    exact read_name (t := (read t).withArch arch) harch hvendor hos
  · have hretarget (arch : String) : ((read t).withArch arch).name = arch ++ "-" ++ (read t).rest := by
      rw [name_eq, rest_withArch]
      rfl
    exact ⟨(read t).arch, (read t).rest, (isPart_read t).1, h.symm.trans (name_eq _), h,
      hretarget "x86_64", hretarget "i686"⟩

/-- A host with a version in its operating system and a last part that begins with a hyphen; and a name
that ends in a hyphen, which is lost. -/
theorem names_read_back_hyphens :
    read (Triple.name ⟨"arm64", "apple", "darwin25.0.0", "-elf"⟩) = ⟨"arm64", "apple", "darwin25.0.0", "-elf"⟩ ∧
    (∃ first rest, IsPart first ∧ "arm64-apple-darwin25.0.0--elf" = first ++ "-" ++ rest ∧
      (Processor.i686.triple (read "arm64-apple-darwin25.0.0--elf")).name = "i686-" ++ rest) ∧
    (read "a--c-").name ≠ "a--c-" := by
  obtain ⟨hiff, hwritten, -, hhost⟩ := names_read_back
  refine ⟨hwritten _ (by decide) (by decide) (by decide), ?_, fun h => ?_⟩
  · obtain ⟨first, rest, hfirst, ht, -, -, hname⟩ := hhost "arm64-apple-darwin25.0.0--elf" (by decide)
    exact ⟨first, rest, hfirst, ht, hname⟩
  · exact ((hiff "a--c-").mp h).2 ⟨"a", "", "c", by decide, by decide, by decide, by decide⟩

end Ssa.Triple

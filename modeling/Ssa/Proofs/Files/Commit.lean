/-
# `Ssa.Proofs.Files.Commit` — a file is replaced all at once or not at all

A replacement collects the new content under another name and renames it when it is complete.  Until
then the tree is as it was, but for the file of the other name; a step that fails takes that file away
again, and renaming is a single step.  So whoever looks meanwhile, after a step or in the middle of one,
finds the file as it was or with the whole new content.  Where the path names no file the content is
collected all the same, and it is the last step that fails.

**Proved here.**

    what is at a place after something was put or taken away   (`node?_put`, `remove_put`)
    what replacing comes to, whichever step fails               (`Stage.run`, `commit_eq`)
    what is there meanwhile                                      (`Sight.cases`)
    the other name is free, and beside the file                  (`freshName_isFree`, `isFor_of_commitFor`)
    replacing the file at a path                                 (`replace_cases`, `seen_cases`)
-/
import Mathlib.Data.List.Nodup
import Mathlib.Data.List.Perm.Subperm
import Ssa.Files.Commit
import Ssa.Proofs.Effect

namespace Ssa

/-- A replacement can be made on a tree: under the other name there is nothing yet, and it is not the
name of the file itself. -/
structure Commit.Suits (c : Commit) (f : Files) : Prop where
  free : f.node? c.temp = none
  apart : ∀ t, c.target = some t → t ≠ c.temp
  target : ∀ t, c.target = some t → t ≠ []

namespace Files

variable {f g : Files} {p q : Place} {n : Node} {path : Path} {octets : List UInt8}

/-! ## Trees -/

theorem node?_of_ne_nil (f : Files) (hp : p ≠ []) : f.node? p = f.nodes.lookup p := by
  simp [node?, hp]

theorem ne_nil_of_free (h : f.node? p = none) : p ≠ [] := by
  rintro rfl
  simp [node?] at h

theorem lookup_head (e : Place × Node) (nodes : List (Place × Node)) (q : Place) :
    (e :: nodes).lookup q = if q = e.1 then some e.2 else nodes.lookup q := by
  rw [List.lookup_cons]
  by_cases h : q = e.1
  · simp [h]
  · rw [if_neg h, beq_false_of_ne h]

theorem lookup_others (nodes : List (Place × Node)) (p q : Place) :
    (nodes.filter fun e => e.1 != p).lookup q = if q = p then none else nodes.lookup q := by
  induction nodes with
  | nil => simp
  | cons e nodes ih =>
      rw [List.filter_cons, lookup_head]
      split <;> rename_i he
      · have hne : e.1 ≠ p := by simpa using he
        rw [lookup_head, ih]
        by_cases hq : q = e.1 <;> simp [hq, hne]
      · have heq : e.1 = p := by simpa using he
        rw [ih, heq]
        by_cases hq : q = p <;> simp [hq]

theorem node?_put (f : Files) (hp : p ≠ []) (n : Node) (q : Place) :
    (f.put p n).node? q = if q = p then some n else f.node? q := by
  by_cases hq : q = []
  · subst hq
    simp [node?, Ne.symm hp]
  · rw [node?_of_ne_nil _ hq, node?_of_ne_nil _ hq, put, lookup_head, lookup_others]
    by_cases h : q = p <;> simp [h]

theorem remove_of_free (h : f.node? p = none) : f.remove p = f := by
  rw [node?_of_ne_nil _ (ne_nil_of_free h), List.lookup_eq_none_iff] at h
  have hall : (f.nodes.filter fun e => e.1 != p) = f.nodes :=
    List.filter_eq_self.mpr fun e he => by simpa [bne_comm] using h e he
  rw [remove, hall]

theorem remove_put (h : f.node? p = none) (n : Node) : (f.put p n).remove p = f := by
  have hrest := remove_of_free h
  simpa [put, remove] using hrest

theorem put_put (f : Files) (p : Place) (n n' : Node) : (f.put p n).put p n' = f.put p n' := by
  simp [put]

/-! ## Paths in a tree with another file -/

/-- What is entered on the way is a directory, so where a file is put no way leads through. -/
theorem enter_put (hp : p ≠ []) (hfile : f.node? p ≠ some .directory) {at_ : Place} {name : String}
    (h : f.enter at_ name = .ok q) : (f.put p n).enter at_ name = .ok q := by
  have hother : at_ ≠ p := by
    rintro rfl
    simp only [enter] at h
    split at h
    · exact hfile ‹_›
    · cases h
    · cases h
  rw [enter, node?_put _ hp, if_neg hother]
  exact h

theorem foldlM_enter_put (hp : p ≠ []) (hfile : f.node? p ≠ some .directory) {names : List String}
    {at_ : Place} (h : names.foldlM f.enter at_ = .ok q) :
    names.foldlM (f.put p n).enter at_ = .ok q := by
  induction names generalizing at_ with
  | nil => exact h
  | cons name names ih =>
      rw [List.foldlM_cons] at h ⊢
      obtain ⟨next, hnext, h⟩ := ok_of_bind h
      rw [enter_put hp hfile hnext]
      exact ih h

/-- A path leads where it led before a file was put somewhere. -/
theorem locate_put (hp : p ≠ []) (hfile : f.node? p ≠ some .directory)
    (h : f.locate path = .ok q) : (f.put p n).locate path = .ok q :=
  foldlM_enter_put hp hfile h

theorem read_of_locate (hpath : f.locate path = .ok p) {mode : Nat}
    (hnode : f.node? p = some (.file mode octets)) : f.read path = .ok octets := by
  simp only [read, hpath, bind, Except.bind, hnode]
  rfl

/-! ## The steps of replacing a file -/

variable {c : Commit} {fault : Fault} {steps rest : List CommitStep} {s s' : CommitStep} {x : Files}

/-- A tree, between the steps of replacing a file of it, with the steps that are left. -/
inductive Stage (c : Commit) (f : Files) : List CommitStep → Files → Prop
  | create : Stage c f [.create, .setMode, .write, .close, .rename] f
  | setMode : Stage c f [.setMode, .write, .close, .rename] (f.collected c privateMode 0)
  | write : Stage c f [.write, .close, .rename] (f.collected c plainMode 0)
  | close : Stage c f [.close, .rename] (f.collected c plainMode c.octets.length)
  | rename : Stage c f [.rename] (f.collected c plainMode c.octets.length)

/-- What renaming the complete file comes to: the tree with the file replaced, unless there is no file
by that name. -/
def renamed (c : Commit) (f : Files) : Except FileFailure Files :=
  match c.target with
  | none => .error .busy
  | some t =>
    if f.node? t = some .directory then .error .isDirectory
    else .ok (f.put t (.file plainMode c.octets))

theorem renamed_ok (h : renamed c f = .ok g) : ∃ t, c.target = some t ∧
    f.node? t ≠ some .directory ∧ g = f.put t (.file plainMode c.octets) := by
  unfold renamed at h
  split at h
  · cases h
  · rename_i t ht
    split at h
    · cases h
    · cases h
      exact ⟨t, ht, ‹_›, rfl⟩

/-- A tree that differs from another at most in the file that is being collected. -/
def Collects (c : Commit) (f x : Files) : Prop := x = f ∨ ∃ mode count, x = f.collected c mode count

theorem collected_collected (f : Files) (c : Commit) (mode count mode' count' : Nat) :
    (f.collected c mode count).collected c mode' count' = f.collected c mode' count' :=
  put_put f c.temp _ _

theorem remove_collected (hc : c.Suits f) (mode count : Nat) :
    (f.collected c mode count).remove c.temp = f :=
  remove_put hc.free _

theorem Collects.node?_eq (hc : c.Suits f) (h : Collects c f x) (hq : q ≠ c.temp) :
    x.node? q = f.node? q := by
  obtain rfl | ⟨mode, count, rfl⟩ := h
  · rfl
  · rw [collected, node?_put _ (ne_nil_of_free hc.free), if_neg hq]

theorem Collects.here_eq (h : Collects c f x) : x.here = f.here := by
  obtain rfl | ⟨mode, count, rfl⟩ := h <;> rfl

/-- Renaming the complete file puts it in the place of the other. -/
theorem rename_collected (hc : c.Suits f) :
    (f.collected c plainMode c.octets.length).rename c.temp c.target = renamed c f := by
  have hsource : (f.collected c plainMode c.octets.length).node? c.temp =
      some (.file plainMode c.octets) := by
    rw [collected, node?_put _ (ne_nil_of_free hc.free), if_pos rfl, List.take_length]
  unfold renamed
  cases ht : c.target with
  | none => rfl
  | some t =>
      have htarget := Collects.node?_eq hc (.inr ⟨plainMode, c.octets.length, rfl⟩) (hc.apart t ht)
      rw [rename, hsource, htarget, remove_collected hc]
      dsimp only
      split
      · contradiction
      · rw [if_pos ‹_›]
      · rw [if_neg ‹_›]
        rename_i heq _
        cases heq
        rfl

namespace Stage

theorem collects (h : Stage c f steps g) : Collects c f g := by
  cases h with
  | create => exact .inl rfl
  | _ => exact .inr ⟨_, _, rfl⟩

/-- Taking the file of the other name away leaves the tree as it was. -/
theorem undone (hc : c.Suits f) (h : Stage c f steps g) : g.remove c.temp = f := by
  cases h with
  | create => exact remove_of_free hc.free
  | _ => exact remove_collected hc _ _

/-- A step that does not fail by itself leads to the next stage. -/
theorem next (h : Stage c f (s :: s' :: rest) g) :
    ∃ g', g.commitStep c s = .ok g' ∧ Stage c f (s' :: rest) g' := by
  cases h with
  | create => exact ⟨_, rfl, .setMode⟩
  | setMode => exact ⟨_, congrArg _ (collected_collected ..), .write⟩
  | write => exact ⟨_, congrArg _ (collected_collected ..), .close⟩
  | close => exact ⟨_, rfl, .rename⟩

theorem last (hc : c.Suits f) (h : Stage c f [s] g) : g.commitStep c s = renamed c f := by
  cases h with
  | rename => exact rename_collected hc

end Stage

theorem attempt_cases (fault : Fault) (c : Commit) (g : Files) (s : CommitStep) :
    (∃ why, fault = some (s, why) ∧ g.attempt fault c s = .error why) ∨
      (∀ why, fault ≠ some (s, why)) ∧ g.attempt fault c s = g.commitStep c s := by
  rcases fault with _ | ⟨at_, why⟩
  · exact .inr ⟨nofun, rfl⟩
  · by_cases hat : at_ = s
    · subst hat
      exact .inl ⟨why, rfl, by simp [attempt]⟩
    · exact .inr ⟨fun why' h => hat (by cases h; rfl), by simp [attempt, hat]⟩

/-! ## What replacing comes to -/

/-- What replacing a file comes to when the given steps are left: a step of them that fails by itself
leaves the tree as it was, and so does a file that cannot be renamed. -/
def settled (fault : Fault) (c : Commit) (f : Files) (steps : List CommitStep) :
    Files × Option FileFailure :=
  match fault.filter fun (s, _) => steps.contains s with
  | some (_, why) => (f, some why)
  | none =>
    match renamed c f with
    | .ok g => (g, none)
    | .error why => (f, some why)

theorem settled_of_fault (why : FileFailure) (hs : s ∈ steps) :
    settled (some (s, why)) c f steps = (f, some why) := by
  simp [settled, Option.filter, hs]

theorem settled_cons (h : ∀ why, fault ≠ some (s, why)) :
    settled fault c f (s :: rest) = settled fault c f rest := by
  rcases fault with _ | ⟨at_, why⟩
  · rfl
  · have hat : at_ ≠ s := by
      rintro rfl
      exact h why rfl
    simp [settled, Option.filter, hat]

theorem settled_nil (fault : Fault) (c : Commit) (f : Files) :
    settled fault c f [] = settled none c f commitSteps := by
  rcases fault with _ | ⟨at_, why⟩ <;> rfl

theorem settled_of_renamed (steps : List CommitStep) (h : renamed c f = .ok g) :
    settled none c f steps = (g, none) := by
  simp [settled, h]

theorem settled_of_not_renamed {why : FileFailure} (steps : List CommitStep)
    (h : renamed c f = .error why) : settled none c f steps = (f, some why) := by
  simp [settled, h]

/-- The steps that are left come to what replacing comes to, and the last tree is the one of it. -/
theorem Stage.run (fault : Fault) (hc : c.Suits f) (h : Stage c f steps g) :
    ∃ earlier, g.commitFrom fault c steps =
      (earlier ++ [(settled fault c f steps).1], (settled fault c f steps).2) := by
  induction steps generalizing g with
  | nil => cases h
  | cons s steps ih =>
      rcases attempt_cases fault c g s with ⟨why, rfl, hattempt⟩ | ⟨hfault, hattempt⟩
      · rw [settled_of_fault why List.mem_cons_self]
        exact ⟨[], by rw [commitFrom, hattempt]; simp [h.undone hc]⟩
      · rw [settled_cons hfault]
        cases steps with
        | nil =>
            rw [settled_nil, commitFrom, hattempt, h.last hc]
            cases hrenamed : renamed c f with
            | error why =>
                rw [settled_of_not_renamed _ hrenamed]
                exact ⟨[], by rw [h.undone hc]; rfl⟩
            | ok g' =>
                rw [settled_of_renamed _ hrenamed]
                exact ⟨[], rfl⟩
        | cons s' rest =>
            obtain ⟨g', hstep, hnext⟩ := h.next
            obtain ⟨earlier, hrun⟩ := ih hnext
            exact ⟨g' :: earlier, by rw [commitFrom, hattempt, hstep]; simp [hrun]⟩

/-- What replacing a file comes to, whichever step fails by itself. -/
theorem commit_eq (hc : c.Suits f) : f.commit fault c = settled fault c f commitSteps := by
  obtain ⟨earlier, hrun⟩ := Stage.run fault hc .create
  rw [commit, commitSteps, hrun]
  simp

theorem mem_commitSteps (s : CommitStep) : s ∈ commitSteps := by
  cases s <;> decide

/-- Why replacing a file fails: a step fails by itself, or else the path names no file, or there is a
directory in the place of the file. -/
def Hinders (fault : Fault) (c : Commit) (f : Files) (why : FileFailure) : Prop :=
  (∃ s, fault = some (s, why)) ∨
    fault = none ∧ (c.target = none ∧ why = .busy ∨
      ∃ t, c.target = some t ∧ f.node? t = some .directory ∧ why = .isDirectory)

theorem hinders_of_not_renamed {why : FileFailure} (h : renamed c f = .error why) :
    Hinders none c f why := by
  refine .inr ⟨rfl, ?_⟩
  unfold renamed at h
  split at h
  · rename_i ht
    cases h
    exact .inl ⟨ht, rfl⟩
  · rename_i t ht
    split at h
    · cases h
      exact .inr ⟨t, ht, ‹_›, rfl⟩
    · cases h

/-- Replacing a file either fails, for a reason, and leaves the tree as it was, or renames the complete
file. -/
theorem commit_cases (hc : c.Suits f) (fault : Fault) :
    (∃ why, f.commit fault c = (f, some why) ∧ Hinders fault c f why) ∨
    ∃ g, f.commit fault c = (g, none) ∧ fault = none ∧ renamed c f = .ok g := by
  rw [commit_eq hc]
  rcases fault with _ | ⟨s, why⟩
  · cases hrenamed : renamed c f with
    | error why => exact .inl ⟨why, settled_of_not_renamed _ hrenamed, hinders_of_not_renamed hrenamed⟩
    | ok g => exact .inr ⟨g, settled_of_renamed _ hrenamed, rfl, rfl⟩
  · exact .inl ⟨why, settled_of_fault why (mem_commitSteps s), .inl ⟨s, rfl⟩⟩

/-! ## What is there meanwhile -/

/-- What can be seen of a tree while the given steps are taken: the tree between them, the file with a
part of its content while that is written, and the tree after a step that failed was seen to. -/
inductive Sight (fault : Fault) (c : Commit) : Files → List CommitStep → Files → Prop
  | now {g : Files} {steps : List CommitStep} : Sight fault c g steps g
  | partly {g : Files} {rest : List CommitStep} (count : Nat) :
      Sight fault c g (.write :: rest) (g.collected c plainMode count)
  | later {g g' x : Files} {s : CommitStep} {rest : List CommitStep} :
      g.attempt fault c s = .ok g' → Sight fault c g' rest x → Sight fault c g (s :: rest) x
  | undone {g : Files} {s : CommitStep} {rest : List CommitStep} {why : FileFailure} :
      g.attempt fault c s = .error why → Sight fault c g (s :: rest) (g.remove c.temp)

/-- The trees that the steps give can be seen. -/
theorem sight_of_mem (h : x ∈ (g.commitFrom fault c steps).1) : Sight fault c g steps x := by
  induction steps generalizing g with
  | nil => cases h
  | cons s steps ih =>
      rw [commitFrom] at h
      cases hattempt : g.attempt fault c s with
      | error why =>
          rw [hattempt] at h
          obtain rfl : x = g.remove c.temp := by simpa using h
          exact .undone hattempt
      | ok g' =>
          rw [hattempt] at h
          rcases List.mem_cons.mp h with rfl | h
          · exact .later hattempt .now
          · exact .later hattempt (ih h)

/-- Whatever is seen is the tree as it was, but for the file that is being collected, or the tree that
is left when no step fails. -/
theorem Sight.cases (hc : c.Suits f) (h : Sight fault c g steps x) (hg : Stage c f steps g) :
    Collects c f x ∨ settled fault c f steps = (x, none) := by
  induction h with
  | now => exact .inl hg.collects
  | partly count =>
      cases hg with
      | write => exact .inl (.inr ⟨_, _, collected_collected ..⟩)
  | undone hattempt => exact .inl (.inl (hg.undone hc))
  | @later g g' x s rest hattempt hsight ih =>
      rcases attempt_cases fault c g s with ⟨why, -, hfails⟩ | ⟨hfault, hstep⟩
      · rw [hfails] at hattempt
        cases hattempt
      · rw [settled_cons hfault]
        rw [hstep] at hattempt
        cases rest with
        | nil =>
            rw [hg.last hc] at hattempt
            cases hsight
            exact .inr ((settled_nil ..).trans (settled_of_renamed _ hattempt))
        | cons s' rest =>
            obtain ⟨g'', hnext, hstage⟩ := hg.next
            rw [hnext] at hattempt
            cases hattempt
            exact ih hstage

/-! ## Names for the time being -/

/-- The digits that a name for the time being holds, with zeros in front. -/
def paddedDigits (n : Nat) : List Char :=
  List.replicate (8 - (toString n).length) '0' ++ (toString n).toList

theorem ofDigitChars_replicate (count : Nat) (cs : List Char) :
    Nat.ofDigitChars 10 (List.replicate count '0' ++ cs) 0 = Nat.ofDigitChars 10 cs 0 := by
  induction count with
  | zero => rfl
  | succ count ih => exact ih

/-- The digits are read as the number, whatever zeros are in front. -/
theorem ofDigitChars_paddedDigits (n : Nat) : Nat.ofDigitChars 10 (paddedDigits n) 0 = n := by
  have hdigits : (toString n).toList = Nat.toDigits 10 n := Nat.toList_repr
  rw [paddedDigits, ofDigitChars_replicate, hdigits]
  exact Nat.ofDigitChars_toDigits (by decide) (by decide)

theorem toList_candidate (name : String) (n : Nat) :
    (candidate name n).toList = '.' :: (name.toList ++ '.' :: (paddedDigits n ++ ".tmp".toList)) := by
  simp [candidate, paddedDigits]

theorem candidate_injective (name : String) : Function.Injective (candidate name) := by
  intro n n' h
  have hlist := congrArg String.toList h
  rw [toList_candidate, toList_candidate] at hlist
  simp only [List.cons.injEq, true_and, List.append_cancel_left_eq, List.append_cancel_right_eq] at hlist
  rw [← ofDigitChars_paddedDigits n, hlist, ofDigitChars_paddedDigits]

/-- A name for the time being is longer than the name it stands for. -/
theorem utf8ByteSize_lt_candidate (name : String) (n : Nat) :
    name.utf8ByteSize < (candidate name n).utf8ByteSize := by
  have hdot : (".": String).utf8ByteSize = 1 := by decide
  simp only [candidate, String.utf8ByteSize_append, hdot]
  omega

/-- There are more names for the time being than a tree has places, so one of them is free. -/
theorem exists_free (f : Files) (directory : Place) (name : String) :
    ∃ n < f.nodes.length + 1, f.node? (directory ++ [candidate name n]) = none := by
  by_contra hall
  push Not at hall
  let places := (List.range (f.nodes.length + 1)).map fun n => directory ++ [candidate name n]
  have hinj : Function.Injective fun n => directory ++ [candidate name n] := by
    intro n n' h
    exact candidate_injective name (by simpa using h)
  have hsub : places ⊆ f.nodes.map (·.1) := by
    intro p hp
    obtain ⟨n, hn, rfl⟩ := List.mem_map.mp hp
    have htaken := hall n (List.mem_range.mp hn)
    rw [node?_of_ne_nil _ (by simp), ne_eq, List.lookup_eq_none_iff] at htaken
    push Not at htaken
    obtain ⟨e, he, heq⟩ := htaken
    have heq : directory ++ [candidate name n] = e.1 := by simpa only [bne_iff_ne, ne_eq, not_not] using heq
    exact List.mem_map.mpr ⟨e, he, heq.symm⟩
  have hlength := ((List.nodup_range.map hinj).subperm hsub).length_le
  rw [List.length_map, List.length_map, List.length_range] at hlength
  exact Nat.not_succ_le_self _ hlength

theorem freshName_isFree (f : Files) (directory : Place) (name : String) :
    ∃ n, f.freshName directory name = candidate name n ∧
      f.node? (directory ++ [f.freshName directory name]) = none := by
  obtain ⟨n, hn, hfree⟩ := exists_free f directory name
  rw [freshName]
  cases hfind : (List.range (f.nodes.length + 1)).find? fun n =>
      (f.node? (directory ++ [candidate name n])).isNone with
  | some n' => exact ⟨n', rfl, by simpa using List.find?_some hfind⟩
  | none =>
      have hnone := List.find?_eq_none.mp hfind n (List.mem_range.mpr hn)
      simp [hfree] at hnone

/-! ## Replacing the file at a path -/

/-- A path leads on along its last name from where it leads without that. -/
theorem locate_eq_enter {directory : Place} {name : String} (hlast : path.parts.getLast? = some name)
    (hparent : f.locate path.parent = .ok directory) : f.locate path = f.enter directory name := by
  rw [locate, ← List.dropLast_append_getLast? name hlast, List.foldlM_append]
  show f.locate path.parent >>= [name].foldlM f.enter = _
  rw [hparent]
  show [name].foldlM f.enter directory = _
  rw [List.foldlM_cons]
  cases f.enter directory name <;> rfl

theorem locate_of_parent {directory : Place} (hparent : f.locate path.parent = .ok directory)
    (hdirectory : f.node? directory = some .directory) (hname : path.name ≠ "")
    (hup : path.name ≠ "..") (hlength : path.name.utf8ByteSize ≤ nameLimit) :
    f.locate path = .ok (directory ++ [path.name]) := by
  have hlast : path.parts.getLast? = some path.name := by
    cases hlast : path.parts.getLast? with
    | none => simp [Path.name, hlast] at hname
    | some last => rw [Path.name, hlast]; rfl
  rw [locate_eq_enter hlast hparent]
  simp [enter, hdirectory, follow, hup, Nat.not_lt.mpr hlength]

/-- A path leads nowhere but to its directory, one up from that, or to its name there. -/
theorem locate_cases {directory : Place} (hparent : f.locate path.parent = .ok directory)
    (h : f.locate path = .ok q) :
    q = directory ∨ q = directory.dropLast ∨ q = directory ++ [path.name] := by
  cases hlast : path.parts.getLast? with
  | none =>
      have hparts : path.parts = [] := List.getLast?_eq_none_iff.mp hlast
      have hself : path.parent = path := by
        rw [Path.parent, hparts, List.dropLast_nil, ← hparts]
      rw [hself, h] at hparent
      cases hparent
      exact .inl rfl
  | some name =>
      have hname : path.name = name := by rw [Path.name, hlast]; rfl
      rw [locate_eq_enter hlast hparent, enter] at h
      split at h
      · unfold follow at h
        split at h
        · cases h
          exact .inr (.inl rfl)
        · split at h
          · cases h
          · cases h
            exact .inr (.inr (by rw [hname]))
      · cases h
      · cases h

theorem directoryOf_cases {directory : Place} (h : f.directoryOf path = .ok directory) :
    f.locate path.parent = .ok directory ∧ f.node? directory = some .directory := by
  obtain ⟨at_, hat, h⟩ := ok_of_bind h
  split at h
  · cases h
    exact ⟨hat, ‹_›⟩
  · cases h
  · cases h

/-- A replacement is one of the file at a path: it can be made, goes to where the path leads, if it names
a file, and collects the content beside that. -/
structure IsFor (c : Commit) (f : Files) (path : Path) (octets : List UInt8) : Prop where
  suits : c.Suits f
  content : c.octets = octets
  located : ∀ t, c.target = some t → f.locate path = .ok t
  beside : ∀ t, c.target = some t → c.temp.dropLast = t.dropLast
  apart : ∀ q, f.locate path = .ok q → q ≠ c.temp

theorem isFor_of_commitFor (h : f.commitFor path octets = .ok c) : IsFor c f path octets := by
  obtain ⟨directory, hdirectory, h⟩ := ok_of_bind h
  obtain ⟨hparent, hnode⟩ := directoryOf_cases hdirectory
  obtain ⟨n, hcandidate, hfree⟩ := freshName_isFree f directory path.name
  have hlonger := utf8ByteSize_lt_candidate path.name n
  rw [← hcandidate] at hlonger
  have hother : path.name ≠ f.freshName directory path.name := by
    intro heq
    rw [← heq] at hlonger
    exact Nat.lt_irrefl _ hlonger
  by_cases hlength : nameLimit < (f.freshName directory path.name).utf8ByteSize
  · simp only [if_pos hlength] at h
    cases h
  simp only [if_neg hlength] at h
  cases h
  have htarget {t : Place} (ht : (if path.name = "" || path.name = ".." then none
      else some (directory ++ [path.name])) = some t) :
      t = directory ++ [path.name] ∧ path.name ≠ "" ∧ path.name ≠ ".." := by
    split at ht
    · cases ht
    · rename_i hname
      cases ht
      exact ⟨rfl, by simpa using hname⟩
  refine ⟨⟨hfree, fun t ht => ?_, fun t ht => ?_⟩, rfl, fun t ht => ?_, fun t ht => ?_, fun q hq => ?_⟩
  · rw [(htarget ht).1]
    simpa using hother
  · simp [(htarget ht).1]
  · obtain ⟨rfl, hname, hup⟩ := htarget ht
    exact locate_of_parent hparent hnode hname hup (by omega)
  · simp [(htarget ht).1]
  · -- the directory and the one above are shorter places, and the name is another one
    rintro rfl
    rcases locate_cases hparent hq with h | h | h
    · simp at h
    · have := congrArg List.length h
      simp only [List.length_append, List.length_dropLast, List.length_singleton] at this
      omega
    · exact hother (by simpa using h.symm)

/-- A tree, compared with another, in which the file at a path is replaced: the path leads where it led,
and there the new content is, and nothing else is other than it was. -/
structure Replaces (f g : Files) (path : Path) (octets : List UInt8) (at_ : Place) : Prop where
  located : f.locate path = .ok at_
  content : g.node? at_ = some (.file plainMode octets)
  others : ∀ q, q ≠ at_ → g.node? q = f.node? q
  here : g.here = f.here
  read : g.read path = .ok octets

/-- A tree that cannot be told from another by what is at the places that were taken, nor by what is at
the place to which a path leads. -/
structure Shows (f x : Files) (path : Path) : Prop where
  taken : ∀ q, f.node? q ≠ none → x.node? q = f.node? q
  target : ∀ q, f.locate path = .ok q → x.node? q = f.node? q
  here : x.here = f.here

theorem Shows.refl (f : Files) (path : Path) : f.Shows f path :=
  ⟨fun _ _ => rfl, fun _ _ => rfl, rfl⟩

theorem replaces_of_renamed (hc : IsFor c f path octets) (h : renamed c f = .ok g) :
    ∃ at_, f.Replaces g path octets at_ := by
  obtain ⟨t, ht, hfile, rfl⟩ := renamed_ok h
  obtain rfl := hc.content
  have hne := hc.suits.target t ht
  have hpath := hc.located t ht
  have hcontent : (f.put t (.file plainMode c.octets)).node? t = some (.file plainMode c.octets) := by
    rw [node?_put _ hne, if_pos rfl]
  refine ⟨t, hpath, hcontent, fun q hq => ?_, rfl, ?_⟩
  · rw [node?_put _ hne, if_neg hq]
  · exact read_of_locate (locate_put hne hfile hpath) hcontent

/-- Replacing the file at a path either fails and leaves the tree as it was, because the directory cannot
be had or for a reason of the replacement's own, or replaces the file. -/
theorem replace_cases (fault : Fault) (f : Files) (path : Path) (octets : List UInt8) :
    (∃ why, f.replace fault path octets = (f, some why) ∧
      (f.commitFor path octets = .error why ∨
        ∃ c, f.commitFor path octets = .ok c ∧ Hinders fault c f why)) ∨
    ∃ at_ g, fault = none ∧ f.replace fault path octets = (g, none) ∧
      f.Replaces g path octets at_ := by
  unfold replace
  cases hc : f.commitFor path octets with
  | error why => exact .inl ⟨why, rfl, .inl rfl⟩
  | ok c =>
      have hfor := isFor_of_commitFor hc
      rcases commit_cases hfor.suits fault with ⟨why, hfails, hreason⟩ | ⟨g, hgoes, hfault, hrenamed⟩
      · exact .inl ⟨why, hfails, .inr ⟨c, rfl, hreason⟩⟩
      · obtain ⟨at_, hreplaces⟩ := replaces_of_renamed hfor hrenamed
        exact .inr ⟨at_, g, hfault, hgoes, hreplaces⟩

/-- What can be seen of a tree while the file at a path is replaced. -/
def Seen (fault : Fault) (f : Files) (path : Path) (octets : List UInt8) (x : Files) : Prop :=
  match f.commitFor path octets with
  | .error _ => x = f
  | .ok c => Sight fault c f commitSteps x

/-- What is there after the file at a path was replaced, or was not, can be seen. -/
theorem seen_replace (fault : Fault) (f : Files) (path : Path) (octets : List UInt8) :
    f.Seen fault path octets (f.replace fault path octets).1 := by
  unfold Seen replace
  cases hc : f.commitFor path octets with
  | error why => rfl
  | ok c =>
      have hsuits := (isFor_of_commitFor hc).suits
      obtain ⟨earlier, hrun⟩ := Stage.run fault hsuits .create
      have hmem : (f.commit fault c).1 ∈ (f.commitFrom fault c commitSteps).1 := by
        rw [commit_eq hsuits, commitSteps, hrun]
        simp
      exact sight_of_mem hmem

/-- At every moment the file at a path is as it was, or has the whole new content; the latter only if
replacing it succeeds. -/
theorem seen_cases (h : f.Seen fault path octets x) :
    f.Shows x path ∨ f.replace fault path octets = (x, none) := by
  unfold Seen at h
  unfold replace
  cases hc : f.commitFor path octets with
  | error why =>
      rw [hc] at h
      subst h
      exact .inl (.refl x path)
  | ok c =>
      rw [hc] at h
      have hfor := isFor_of_commitFor hc
      rcases Sight.cases hfor.suits h .create with hcollects | hsettled
      · refine .inl ⟨fun q hq => ?_, fun q hq => ?_, hcollects.here_eq⟩
        · exact hcollects.node?_eq hfor.suits fun heq => hq (heq ▸ hfor.suits.free)
        · exact hcollects.node?_eq hfor.suits (hfor.apart q hq)
      · exact .inr ((commit_eq hfor.suits).trans hsettled)

end Files

end Ssa

/-
# `Ssa.Proofs.Command.Arguments` — what was read is what the grammar lists

Whatever arguments are read, every option that was taken is one of the grammar, and a value that was
taken is among the values that its option accepts.  So a processor and a level that a command asks
for can be looked up.

**Proved here.**

    every piece of the arguments is of the grammar                         (`recognizeAll_isOf`)
    what was read keeps to the grammar                                     (`read_accepted`)
    the processor and the level of a command can be looked up              (`read_hasChoices`)
-/
import Mathlib.Data.List.Basic
import Ssa.Command.Run
import Ssa.Proofs.Effect

namespace Ssa.Command

variable {g : Grammar} {r r' : Reading} {form : OptionForm} {s : String}

/-! ## Pieces -/

/-- An option of a grammar, the call for help included. -/
def Grammar.Lists (g : Grammar) (form : OptionForm) : Prop := form ∈ helpForm :: g.options

/-- An option that is recognized is listed. -/
def Piece.IsOf (g : Grammar) : Piece → Prop
  | .option form _ _ => g.Lists form
  | _ => True

theorem lists_of_mem {e : String × OptionForm} (h : e ∈ g.names) : g.Lists e.2 := by
  obtain ⟨form, hform, he⟩ := List.mem_flatMap.mp h
  obtain ⟨n, -, rfl⟩ := List.mem_map.mp he
  exact hform

theorem lists_of_lookup (h : g.names.lookup s = some form) : g.Lists form := by
  obtain ⟨before, after, hnames, -⟩ := List.lookup_eq_some_iff.mp h
  exact lists_of_mem (e := (s, form)) (hnames ▸ List.mem_append_right _ List.mem_cons_self)

theorem longMatches_isOf (g : Grammar) (s : String) : ∀ p ∈ longMatches g s, p.IsOf g := by
  intro p hp
  obtain ⟨e, he, rfl⟩ := List.mem_map.mp hp
  exact lists_of_mem (List.mem_filter.mp he).1

theorem shortMatches_isOf (g : Grammar) (s : String) : ∀ p ∈ shortMatches g s, p.IsOf g := by
  intro p hp
  obtain ⟨e, he, hmatch⟩ := List.mem_filterMap.mp hp
  split at hmatch
  · cases hmatch
    exact lists_of_mem he
  · split at hmatch
    · cases hmatch
      exact lists_of_mem he
    · cases hmatch

theorem recognizeStart_isOf (g : Grammar) (s : String) : (recognizeStart g s).IsOf g := by
  unfold recognizeStart
  have hall : ∀ p ∈ (if begins "--" s then longMatches g s else shortMatches g s), p.IsOf g := by
    split
    · exact longMatches_isOf g s
    · exact shortMatches_isOf g s
  split
  · rename_i p hp
    exact hall p (hp ▸ List.mem_cons_self)
  · trivial
  · split <;> trivial

theorem recognize_isOf (g : Grammar) (s : String) : (recognize g s).IsOf g := by
  unfold recognize
  split
  · trivial
  · split
    · trivial
    · split
      · exact lists_of_lookup ‹_›
      · split
        · rename_i form name value h
          obtain ⟨⟨n, v⟩, -, h⟩ := Option.bind_eq_some_iff.mp h
          obtain ⟨f, hf, h⟩ := Option.map_eq_some_iff.mp h
          cases h
          exact lists_of_lookup hf
        · exact recognizeStart_isOf g s

theorem recognizeAll_isOf (g : Grammar) (args : List String) :
    ∀ p ∈ recognizeAll g args, p.IsOf g := by
  induction args with
  | nil => exact nofun
  | cons s rest ih =>
      rw [recognizeAll]
      split
      · intro p hp
        rcases List.mem_cons.mp hp with rfl | hp
        · trivial
        · obtain ⟨s', -, rfl⟩ := List.mem_map.mp hp
          trivial
      · intro p hp
        rcases List.mem_cons.mp hp with rfl | hp
        · exact recognize_isOf g s
        · exact ih p hp

/-! ## Readings -/

/-- What was read keeps to a grammar: its options are listed, and their values are accepted. -/
def Reading.Accepted (g : Grammar) (r : Reading) : Prop :=
  ∀ e ∈ r.options, g.Lists e.1 ∧ ∀ v, e.2 = some v → e.1.choices.all (·.contains v) = true

theorem accepted_append {e : OptionForm × Option String} (h : r.Accepted g) (hform : g.Lists e.1)
    (hvalue : ∀ v, e.2 = some v → e.1.choices.all (·.contains v) = true) :
    Reading.Accepted g { r with options := r.options ++ [e] } := by
  intro e' he'
  rcases List.mem_append.mp he' with he' | he'
  · exact h e' he'
  · obtain rfl := List.mem_singleton.mp he'
    exact ⟨hform, hvalue⟩

theorem mark_accepted (h : r.Accepted g) (hform : g.Lists form) (hr : r.mark form = .ok r') :
    r'.Accepted g := by
  unfold Reading.mark at hr
  split at hr
  · cases hr
  · cases hr
    exact accepted_append h hform nofun

theorem assign_accepted (h : r.Accepted g) (hform : g.Lists form)
    (hr : r.assign form s = .ok r') : r'.Accepted g := by
  unfold Reading.assign at hr
  split at hr
  · rename_i hchoices
    cases hr
    refine accepted_append h hform fun v hv => ?_
    cases hv
    exact hchoices
  · cases hr

theorem together_lists {cs : List Char} {more : List (OptionForm × Option String)}
    (h : together g cs = some more) : ∀ e ∈ more, g.Lists e.1 := by
  induction cs generalizing more with
  | nil => cases h; exact nofun
  | cons c cs ih =>
      rw [together] at h
      split at h
      · cases h
      · rename_i form hform
        split at h
        · obtain ⟨rest, hrest, rfl⟩ := Option.map_eq_some_iff.mp h
          intro e he
          rcases List.mem_cons.mp he with rfl | he
          · exact lists_of_lookup hform
          · exact ih hrest e he
        · split at h
          · cases h
          · cases h
            intro e he
            obtain rfl := List.mem_singleton.mp he
            exact lists_of_lookup hform

theorem takeAll_accepted {more : List (OptionForm × Option String)} (h : r.Accepted g)
    (hmore : ∀ e ∈ more, g.Lists e.1) (hr : r.takeAll more = .ok r') : r'.Accepted g := by
  induction more generalizing r with
  | nil => cases hr; exact h
  | cons e more ih =>
      obtain ⟨form, _ | v⟩ := e
      all_goals
        obtain ⟨r₁, hr₁, hr⟩ := ok_of_bind hr
        have hform : g.Lists form := hmore _ List.mem_cons_self
        have hmore' : ∀ e ∈ more, g.Lists e.1 := fun e he => hmore e (List.mem_cons_of_mem _ he)
      · exact ih (mark_accepted h hform hr₁) hmore' hr
      · exact ih (assign_accepted h hform hr₁) hmore' hr

theorem takeJoined_accepted {name value : String} (h : r.Accepted g) (hform : g.Lists form)
    (hr : r.takeJoined g form name value = .ok r') : r'.Accepted g := by
  unfold Reading.takeJoined at hr
  split at hr
  · exact assign_accepted h hform hr
  · split at hr
    · cases hr
    · split at hr
      · rename_i more hmore
        refine takeAll_accepted h (fun e he => ?_) hr
        rcases List.mem_cons.mp he with rfl | he
        · exact hform
        · exact together_lists hmore e he
      · cases hr

theorem readPieces_accepted {ps : List Piece} (hps : ∀ p ∈ ps, p.IsOf g) (h : r.Accepted g)
    (hr : readPieces g ps r = .ok r') : r'.Accepted g := by
  have later {p : Piece} {ps : List Piece} (hps : ∀ q ∈ p :: ps, q.IsOf g) : ∀ q ∈ ps, q.IsOf g :=
    fun q hq => hps q (List.mem_cons_of_mem _ hq)
  fun_induction readPieces g ps r with
  | case1 => cases hr
  | case2 => cases hr; exact h
  | case3 => cases hr
  | case4 rest r ih => exact ih (later hps) h hr
  | case5 r s rest hroom ih => exact ih (later (later hps)) h hr
  | case6 r s rest hroom ih => exact ih (later (later hps)) h hr
  | case7 r s rest hnot hroom ih => exact ih (later hps) h hr
  | case8 r s rest hnot hroom ih => exact ih (later hps) h hr
  | case9 r rest hroom ih => exact ih (later hps) h hr
  | case10 r rest hroom ih => exact ih (later hps) h hr
  | case11 form name value rest r ih =>
      obtain ⟨r₁, hr₁, hr⟩ := ok_of_bind hr
      exact ih r₁ (later hps) (takeJoined_accepted h (hps _ List.mem_cons_self) hr₁) hr
  | case12 form name s rest r htakes ih =>
      obtain ⟨r₁, hr₁, hr⟩ := ok_of_bind hr
      exact ih r₁ (later (later hps)) (assign_accepted h (hps _ List.mem_cons_self) hr₁) hr
  | case13 form name s rest r htakes ih =>
      obtain ⟨r₁, hr₁, hr⟩ := ok_of_bind hr
      exact ih r₁ (later hps) (mark_accepted h (hps _ List.mem_cons_self) hr₁) hr
  | case14 => cases hr
  | case15 form name rest r hnot htakes ih =>
      obtain ⟨r₁, hr₁, hr⟩ := ok_of_bind hr
      exact ih r₁ (later hps) (mark_accepted h (hps _ List.mem_cons_self) hr₁) hr

/-- What was read keeps to the grammar. -/
theorem read_accepted {args : List String} (h : read g args = .ok r) : r.Accepted g := by
  unfold read at h
  split at h
  · cases h
  · exact readPieces_accepted (recognizeAll_isOf g args) (fun _ he => by cases he) h

/-- A value that was given for an option is one that the option accepts. -/
theorem value_accepted {name v : String} (h : r.Accepted g) (hv : r.value? name = some v) :
    ∃ form, g.Lists form ∧ name ∈ form.names ∧ form.choices.all (·.contains v) = true := by
  obtain ⟨e, he, hv⟩ := Option.bind_eq_some_iff.mp hv
  have hmem : e ∈ r.options := List.mem_reverse.mp (List.mem_of_find?_eq_some he)
  have hname : e.1.names.contains name = true :=
    List.find?_some (p := fun e : OptionForm × Option String => e.1.names.contains name) he
  exact ⟨e.1, (h e hmem).1, List.contains_iff_mem.mp hname, (h e hmem).2 v hv⟩

/-- What is meant by an option that has choices is one of them, also where it is not given. -/
theorem meant_mem {name given : String} {choices : List String} (h : r.Accepted g)
    (honly : ∀ form ∈ helpForm :: g.options, name ∈ form.names → form.choices = some choices)
    (hgiven : given ∈ choices) : (r.value? name).getD given ∈ choices := by
  cases hv : r.value? name with
  | none => exact hgiven
  | some v =>
      obtain ⟨form, hform, hname, hchoices⟩ := value_accepted h hv
      rw [honly form hform hname] at hchoices
      exact List.contains_iff_mem.mp hchoices

/-! ## Commands -/

/-- A task of emission comes with a processor and a level that can be looked up. -/
def Task.HasChoices : Task → Prop
  | .emit _ _ cpu level _ => (∃ p, Processor.read cpu = .ok p) ∧ ∃ l, Level.read level = .ok l
  | _ => True

theorem readsProcessor {cpu : String} (h : cpu ∈ Processor.all.map Processor.word) :
    ∃ p, Processor.read cpu = .ok p := by
  obtain ⟨p, -, rfl⟩ := List.mem_map.mp h
  exact ⟨p, by cases p <;> decide +kernel⟩

theorem readsLevel {level : String} (h : level ∈ Level.all.map Level.word) :
    ∃ l, Level.read level = .ok l := by
  obtain ⟨l, -, rfl⟩ := List.mem_map.mp h
  exact ⟨l, by cases l <;> decide +kernel⟩

theorem taskOf_hasChoices {command : String} {t : Task} (hg : grammarOf command = some g)
    (h : r.Accepted g) (ht : taskOf command r = .ok t) : t.HasChoices := by
  unfold taskOf at ht
  split at ht
  · cases ht; trivial
  · cases ht; trivial
  · cases hg
    cases ht
    exact ⟨readsProcessor (meant_mem h (by decide) (by decide)),
      readsLevel (meant_mem h (by decide) (by decide))⟩
  · cases ht

/-- The processor and the level of a command can be looked up. -/
theorem read_hasChoices {args : List String} {i : Invocation} (h : Invocation.read args = .ok i) :
    i.task.HasChoices := by
  obtain ⟨⟨head, command, rest⟩, -, h⟩ := ok_of_bind h
  dsimp only at h
  split at h
  · cases h
  · rename_i g hg
    obtain ⟨r, hr, h⟩ := ok_of_bind h
    split at h
    · cases h
    · obtain ⟨t, ht, h⟩ := ok_of_bind h
      cases h
      exact taskOf_hasChoices hg (read_accepted hr) ht

end Ssa.Command

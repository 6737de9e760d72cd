/-
# `Ssa.Proofs.Failure.Catalogue` — what a catalogue answers

Entries are listed one after another.  An entry whose code is listed is refused, and the catalogue is as
if it had never been given; so a code always leads to the entry that was listed first under it, whatever
else was listed before and after.

A message is asked for by a code and by values under names.  The code itself is given under the name
`code`, so a value under that name is one too many, and nothing is looked up then.  For all other values
the answer depends on the entry of the code, and on the values of its fields alone.

**Proved here.**

    a code leads to the entry that was listed first under it              (`Catalogue.entry?_addEach`)
    an entry whose code is listed is refused, and leaves no trace           (`Catalogue.addEach_cons_of_listed`)
    the entries of the library are all listed, and of this kind             (`Catalogue.addEach_standard`, `standard_written`)
    what a catalogue answers, whatever was listed in it                     (`Catalogue.answers_by_first_listed`)
-/
import Ssa.Failure.Catalogue
import Ssa.Proofs.Failure.Template

namespace Ssa.Catalogue

open Template (Part IsFieldName written names missing? filled)

variable {c : Catalogue} {es : List Entry} {e : Entry} {code : String} {values : List (String × Datum)}

/-! ## Listing -/

/-- Entries are listed one after another.  One that is refused is passed over. -/
def addEach (c : Catalogue) (es : List Entry) : Catalogue :=
  es.foldl (fun c e => (c.add e).toOption.getD c) c

theorem addEach_append (c : Catalogue) (es es' : List Entry) :
    c.addEach (es ++ es') = (c.addEach es).addEach es' := List.foldl_append

theorem add_of_listed (h : c.entry? e.code ≠ none) : c.add e = .error (.duplicateCode e.code) := by
  obtain ⟨e', he'⟩ := Option.ne_none_iff_exists'.mp h
  rw [add, he']

theorem add_of_new (h : c.entry? e.code = none) : c.add e = .ok ⟨c.entries ++ [e]⟩ := by
  rw [add, h]

theorem addEach_of_listed (h : c.entry? e.code ≠ none) (es : List Entry) :
    c.addEach (e :: es) = c.addEach es := by
  show (((c.add e).toOption.getD c).addEach es) = _
  rw [add_of_listed h]
  rfl

theorem addEach_of_new (h : c.entry? e.code = none) (es : List Entry) :
    c.addEach (e :: es) = (⟨c.entries ++ [e]⟩ : Catalogue).addEach es := by
  show (((c.add e).toOption.getD c).addEach es) = _
  rw [add_of_new h]
  rfl

/-- A code leads to the entry that was listed first under it. -/
theorem entry?_addEach (c : Catalogue) (es : List Entry) (code : String) :
    entry? (c.addEach es) code = (c.entries ++ es).find? fun e => e.code == code := by
  induction es generalizing c with
  | nil => rw [List.append_nil]; rfl
  | cons e es ih =>
      cases h : c.entry? e.code with
      | none =>
          rw [addEach_of_new h, ih]
          simp
      | some e' =>
          rw [addEach_of_listed (by simp [h]), ih, List.find?_append, List.find?_append,
            List.find?_cons]
          split
          · -- the entry is for the code, but another one was listed before
            rename_i hcode
            have hfirst : c.entries.find? (fun e => e.code == code) = some e' := by
              rw [← eq_of_beq hcode]
              exact h
            rw [hfirst]
            rfl
          · rfl

theorem entry?_eq_none (h : ∀ e ∈ c.entries ++ es, e.code ≠ code) :
    entry? (c.addEach es) code = none := by
  rw [entry?_addEach, List.find?_eq_none]
  simpa using h

theorem entry?_ne_none (h : ∃ e ∈ c.entries ++ es, e.code = code) :
    entry? (c.addEach es) code ≠ none := by
  rw [entry?_addEach, Ne, List.find?_eq_none]
  simpa using h

/-- An entry whose code is listed leaves no trace, whatever is listed after it. -/
theorem addEach_cons_of_listed (h : ∃ e' ∈ c.entries ++ es, e'.code = e.code) (es' : List Entry) :
    c.addEach (es ++ e :: es') = c.addEach (es ++ es') := by
  rw [addEach_append, addEach_append, addEach_of_listed (entry?_ne_none h)]

/-- Entries of different codes are all listed. -/
theorem addEach_of_nodup (h : ((c.entries ++ es).map Entry.code).Nodup) :
    c.addEach es = ⟨c.entries ++ es⟩ := by
  induction es generalizing c with
  | nil => rw [List.append_nil]; rfl
  | cons e es ih =>
      have hnew : c.entry? e.code = none := by
        refine List.find?_eq_none.mpr fun e' he' hcode => ?_
        rw [List.map_append, List.nodup_append] at h
        exact h.2.2 e'.code (List.mem_map_of_mem he') e.code (by simp) (eq_of_beq hcode)
      rw [addEach_of_new hnew, ih (by simpa using h), List.append_assoc]
      rfl

/-- The entries of the library are listed, each under a code of its own. -/
theorem addEach_standard : (⟨[]⟩ : Catalogue).addEach standard.entries = standard :=
  addEach_of_nodup (by decide +kernel)

/-- Their templates consist of text and fields. -/
theorem standard_written : ∀ e ∈ standard.entries, ∃ parts, e.text = written parts ∧
    ∀ name ∈ names parts, IsFieldName name := by
  simp only [standard, constructionEntries, verificationEntries, emissionEntries, handleEntries,
    executionEntries, fatalEntries, List.cons_append, List.nil_append, List.forall_mem_cons]
  and_intros
  all_goals first | exact Template.exists_parts (by decide +kernel) (by decide +kernel) | exact nofun

/-! ## Messages -/

theorem message_of_givenTwice (h : ∃ v ∈ values, v.1 = "code") (code : String) :
    c.message code values = .error .givenTwice := by
  have hany : values.any (·.1 == "code") = true := by simpa using h
  rw [message, if_pos hany]

theorem message_eq (h : ∀ v ∈ values, v.1 ≠ "code") (code : String) :
    c.message code values =
      match c.entry? code with
      | none => .error (.unknownCode code)
      | some e => (e.message values).map fun s => (e, s) := by
  have hany : values.any (·.1 == "code") = false := by simpa using h
  refine (if_neg (by simp [hany])).trans ?_
  cases c.entry? code <;> rfl

/-- The message of an entry whose text consists of text and fields. -/
theorem message_written {parts : List Part} (htext : e.text = written parts)
    (hnames : ∀ name ∈ names parts, IsFieldName name) :
    e.message values =
      match missing? values parts with
      | some name => .error (.missingField name e)
      | none => .ok (filled values parts) := by
  rw [Entry.message, htext, Template.fill_written hnames]
  cases missing? values parts <;> rfl

/-- An entry before which no other is listed under its code. -/
theorem entry?_of_first {before after : List Entry} (hlisted : c.entries ++ es = before ++ e :: after)
    (hfirst : ∀ e' ∈ before, e'.code ≠ e.code) : entry? (c.addEach es) e.code = some e := by
  rw [entry?_addEach, List.find?_eq_some_iff_append]
  exact ⟨by simp, before, after, hlisted, by simpa using hfirst⟩

/-- The answer for a code, by the entry that was listed first under it. -/
theorem message_of_first {before after : List Entry} {parts : List Part}
    (hlisted : c.entries ++ es = before ++ e :: after) (hfirst : ∀ e' ∈ before, e'.code ≠ e.code)
    (htext : e.text = written parts) (hnames : ∀ name ∈ names parts, IsFieldName name)
    (hvalues : ∀ v ∈ values, v.1 ≠ "code") :
    (c.addEach es).message e.code values =
      match missing? values parts with
      | some name => .error (.missingField name e)
      | none => .ok (e, filled values parts) := by
  rw [message_eq hvalues, entry?_of_first hlisted hfirst]
  show (e.message values).map _ = _
  rw [message_written htext hnames]
  cases missing? values parts <;> rfl

/-! ## What a catalogue answers -/

/-- **What a catalogue answers**, after any entries have been given to it.

A further entry is refused if its code is listed, and leaves no trace; else it is listed.  A value named
`code` is refused before anything is looked up.  For all other values, a code that is not listed is
reported; and the entry that was listed first under a code answers for it, with the first field that
lacks a value, or with its text, each field replaced by the text of its value as it is.  The values that
no field asks for have no influence. -/
theorem answers_by_first_listed (c : Catalogue) (es : List Entry) :
    (∀ e, (∃ e' ∈ c.entries ++ es, e'.code = e.code) →
      (c.addEach es).add e = .error (.duplicateCode e.code) ∧
      ∀ es', c.addEach (es ++ e :: es') = c.addEach (es ++ es')) ∧
    (∀ e, (∀ e' ∈ c.entries ++ es, e'.code ≠ e.code) →
      (c.addEach es).add e = .ok (c.addEach (es ++ [e]))) ∧
    (∀ code values, (∃ v ∈ values, v.1 = "code") →
      (c.addEach es).message code values = .error .givenTwice) ∧
    (∀ code values, (∀ v ∈ values, v.1 ≠ "code") → (∀ e ∈ c.entries ++ es, e.code ≠ code) →
      (c.addEach es).message code values = .error (.unknownCode code) ∧
      (CatalogueFailure.unknownCode code).message? = some ("unknown error code: " ++ code)) ∧
    (∀ before e after parts, c.entries ++ es = before ++ e :: after →
      (∀ e' ∈ before, e'.code ≠ e.code) →
      e.text = written parts → (∀ name ∈ names parts, IsFieldName name) →
      ∀ values, (∀ v ∈ values, v.1 ≠ "code") →
        (∀ name, missing? values parts = some name →
          (c.addEach es).message e.code values = .error (.missingField name e) ∧
          (CatalogueFailure.missingField name e).message? =
            some ("missing text key '" ++ name ++ "' for " ++ e.code ++ " (needed by: " ++
              display e.text ++ ")")) ∧
        (missing? values parts = none →
          (c.addEach es).message e.code values = .ok (e, filled values parts)) ∧
        ∀ values', (∀ v ∈ values', v.1 ≠ "code") →
          (∀ name ∈ names parts, values'.lookup name = values.lookup name) →
          (c.addEach es).message e.code values' = (c.addEach es).message e.code values) := by
  refine ⟨fun e hlisted => ⟨?_, fun es' => addEach_cons_of_listed hlisted es'⟩, fun e hnew => ?_,
    fun code values htwice => message_of_givenTwice htwice code,
    fun code values hvalues hnever => ⟨?_, rfl⟩, ?_⟩
  · exact add_of_listed (entry?_ne_none hlisted)
  · rw [addEach_append, addEach_of_new (entry?_eq_none hnew)]
    exact add_of_new (entry?_eq_none hnew)
  · rw [message_eq hvalues, entry?_eq_none hnever]
  · intro before e after parts hlisted hfirst htext hnames values hvalues
    have hanswer {values : List (String × Datum)} (h : ∀ v ∈ values, v.1 ≠ "code") :=
      message_of_first hlisted hfirst htext hnames h
    refine ⟨fun name hname => ⟨by rw [hanswer hvalues, hname], ?_⟩,
      fun hall => by rw [hanswer hvalues, hall], fun values' hvalues' hsame => ?_⟩
    · simp [CatalogueFailure.message?, String.append_assoc, toString]
    · rw [hanswer hvalues', hanswer hvalues, Template.missing?_congr hsame,
        Template.filled_congr hsame]

/-- An entry that is given after another one of its code is refused.  The values hold a brace and the
name of a field, and one of them is for no field. -/
theorem answers_with_braces :
    let e : Entry := ⟨"IH9998", "\x7ba\x7d or \x7b\x7bnot \x7ba\x7d\x7d\x7d: \x7bb\x7d", .fatal, .general, ""⟩
    let later : Entry := ⟨"IH9998", "\x7bc\x7d", .handle, .handle, ""⟩
    let start : Catalogue := ⟨fatalEntries⟩
    let c := start.addEach [e, later]
    (start.addEach [e]).add later = .error (.duplicateCode "IH9998") ∧ c = start.addEach [e] ∧
    c.message "IH9997" [] = .error (.unknownCode "IH9997") ∧
    c.message "IH9998" [("b", .text "2")] = .error (.missingField "a" e) ∧
    c.message "IH9998" [("a", .text "\x7bb\x7d"), ("b", .text "\x7d"), ("c", .text "3")] =
      .ok (e, "\x7bb\x7d or \x7bnot \x7bb\x7d\x7d: \x7d") := by
  intro e later start c
  let parts : List Part :=
    [.field "a", .text " or \x7bnot ", .field "a", .text "\x7d: ", .field "b"]
  obtain ⟨hrefused, -⟩ := answers_by_first_listed start [e]
  obtain ⟨-, -, -, hnever, hfirst⟩ := answers_by_first_listed start [e, later]
  obtain ⟨hadd, htrace⟩ := hrefused later ⟨e, by simp, rfl⟩
  have hunknown : ∀ e' ∈ start.entries ++ [e, later], e'.code ≠ "IH9997" := by
    simp [start, fatalEntries, e, later]
  have hanswer := hfirst fatalEntries e [later] parts rfl (by simp [fatalEntries, e])
    (by decide +kernel) (by decide +kernel)
  refine ⟨hadd, htrace [], (hnever "IH9997" [] (by simp) hunknown).1,
    ((hanswer [("b", .text "2")] (by simp)).1 "a" (by decide +kernel)).1, ?_⟩
  have hfilled := (hanswer [("a", .text "\x7bb\x7d"), ("b", .text "\x7d"), ("c", .text "3")] (by simp)).2.1
    (by decide +kernel)
  rw [hfilled]
  decide +kernel

/-- A value that no field asks for has an influence if it is named `code`. -/
theorem code_is_not_surplus :
    let e : Entry := ⟨"IH0401", "\x7bkind\x7d #\x7bhandle\x7d has been disposed", .handle, .staleHandle,
      "A handle was used after its owner released it."⟩
    e.text = written [.field "kind", .text " #", .field "handle", .text " has been disposed"] ∧
    Catalogue.standard.message "IH0401" [("handle", .int 2), ("kind", .int 1)] =
      .ok (e, "1 #2 has been disposed") ∧
    Catalogue.standard.message "IH0401" [("code", .text "x"), ("handle", .int 2), ("kind", .int 1)] =
      .error .givenTwice := by
  decide +kernel

end Ssa.Catalogue

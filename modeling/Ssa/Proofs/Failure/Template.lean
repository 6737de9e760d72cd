/-
# `Ssa.Proofs.Failure.Template` — templates of text and fields

Most templates consist of text and of fields, a field being a name between braces.  In the text a brace
is doubled.  A name does not begin with a digit, or it would ask for a position, and holds none of the
characters that lead on to a part, a conversion or a presentation.

Such a template is read in one pass as what it was written from, and each field becomes the text of its
value.  What a value brings in is not looked into, whatever braces and names are in it, and values that
no field asks for do not matter.

**Proved here.**

    a template is read as the text and the fields that it was written from    (`Template.ofChars_written`)
    what is read as text and fields, and gives the template again, is so written   (`Template.exists_parts`)
    it is filled with the values, or the first field without one is reported   (`Template.fill_written`)
-/
import Ssa.Failure.Template
import Mathlib.Data.List.Find
import Mathlib.Data.List.TakeWhile

namespace Ssa.Template

open Datum (Fault)

/-! ## Text and fields -/

/-- A part of a template: text, or a field by its name. -/
inductive Part where
  | text (s : String)
  | field (name : String)
deriving DecidableEq, Repr

/-- A character of text as a template has it: a brace is doubled. -/
def writtenChar (c : Char) : List Char := if c = '\x7b' ∨ c = '\x7d' then [c, c] else [c]

/-- A part as a template has it. -/
def Part.written : Part → List Char
  | .text s => s.toList.flatMap writtenChar
  | .field name => '\x7b' :: (name.toList ++ ['\x7d'])

/-- The template that has some parts. -/
def written (parts : List Part) : String := String.ofList (parts.flatMap Part.written)

/-- The name of a field. -/
def Part.name? : Part → Option String
  | .text _ => none
  | .field name => some name

/-- The names of the fields, in order. -/
def names (parts : List Part) : List String := parts.filterMap Part.name?

/-- The characters that have a meaning in a field. -/
def fieldMarks : List Char := ['\x7b', '\x7d', '[', '.', '!', ':']

/-- A text that is a name in a field: it does not begin with a digit, and it has none of the characters
with a meaning. -/
def IsFieldName (name : String) : Prop :=
  (name.toList.head?.any fun c => (digitValue? c).isNone) = true ∧ ∀ c ∈ name.toList, c ∉ fieldMarks

-- decided on the characters of the name, and not by going through all characters
instance (name : String) : Decidable (IsFieldName name) :=
  decidable_of_iff ((name.toList.head?.any fun c => (digitValue? c).isNone) = true ∧
    (name.toList.all fun c => !fieldMarks.contains c) = true) (by simp [IsFieldName])

/-- The text that a part becomes. -/
def Part.filled (values : List (String × Datum)) : Part → String
  | .text s => s
  | .field name => (values.lookup name).elim "" Datum.shown

/-- The text that a template becomes: that of its parts, one after another. -/
def filled (values : List (String × Datum)) (parts : List Part) : String :=
  String.join (parts.map (Part.filled values))

/-- The first field without a value. -/
def missing? (values : List (String × Datum)) (parts : List Part) : Option String :=
  (names parts).find? fun name => (values.lookup name).isNone

section

variable {values values' : List (String × Datum)} {parts : List Part}

/-- Which field lacks a value depends on the values of the fields alone. -/
theorem missing?_congr (h : ∀ name ∈ names parts, values'.lookup name = values.lookup name) :
    missing? values' parts = missing? values parts :=
  List.find?_congr fun name hname => by rw [h name hname]

/-- So does the text. -/
theorem filled_congr (h : ∀ name ∈ names parts, values'.lookup name = values.lookup name) :
    filled values' parts = filled values parts := by
  refine congrArg String.join (List.map_congr_left fun p hp => ?_)
  cases p with
  | text s => rfl
  | field name =>
      have hname : name ∈ names parts := List.mem_filterMap.mpr ⟨_, hp, rfl⟩
      rw [Part.filled, Part.filled, h name hname]

end

/-! ## Reading -/

/-- What a part is read as. -/
def Part.pieces : Part → Template
  | .text s => s.toList.map .plain
  | .field name => [.gap name.toList none []]

/-- Characters are read as a template, by as many steps as there are characters or more. -/
def Reads (cs : List Char) (t : Template) : Prop := ∀ steps, cs.length ≤ steps → readChars steps cs = t

namespace Reads

variable {cs : List Char} {t : Template}

theorem nil : Reads [] [] := by
  intro steps _
  cases steps <;> rfl

theorem char (c : Char) (h : Reads cs t) : Reads (writtenChar c ++ cs) (.plain c :: t) := by
  intro steps hsteps
  unfold writtenChar at hsteps ⊢
  split at hsteps
  · rename_i hbrace
    obtain ⟨n, rfl⟩ : ∃ n, steps = n + 1 := ⟨steps - 1, by simp at hsteps; omega⟩
    rw [if_pos hbrace]
    have hrest : readChars n cs = t := h n (by simp at hsteps; omega)
    simp [readChars, hbrace, hrest]
  · rename_i hplain
    obtain ⟨n, rfl⟩ : ∃ n, steps = n + 1 := ⟨steps - 1, by simp at hsteps; omega⟩
    rw [if_neg hplain]
    have hrest : readChars n cs = t := h n (by simpa using hsteps)
    simp [readChars, hplain, hrest]

theorem text (s : List Char) (h : Reads cs t) :
    Reads (s.flatMap writtenChar ++ cs) (s.map .plain ++ t) := by
  induction s with
  | nil => exact h
  | cons c s ih =>
      rw [List.flatMap_cons, List.append_assoc]
      exact char c ih

end Reads

theorem takePath_name {cs : List Char} (h : ∀ c ∈ cs, c ∉ fieldMarks) (rest : List Char) :
    takePath false (cs ++ '\x7d' :: rest) = some (cs, '\x7d', rest) := by
  induction cs with
  | nil => simp [takePath]
  | cons c cs ih =>
      obtain ⟨hc, hcs⟩ := List.forall_mem_cons.mp h
      simp only [fieldMarks, List.mem_cons, List.not_mem_nil, or_false, not_or] at hc
      obtain ⟨hopen, hclose, hbracket, -, hmark, hcolon⟩ := hc
      have hnext : (c == '[') = false := by simpa using hbracket
      simp [takePath, hopen, hclose, hmark, hcolon, hnext, ih hcs]

theorem takeGap_name {cs : List Char} (h : ∀ c ∈ cs, c ∉ fieldMarks) (rest : List Char) :
    takeGap (cs ++ '\x7d' :: rest) = some (.gap cs none [], rest) := by
  rw [takeGap, takePath_name h]
  rfl

/-- A name between braces is read as a gap. -/
theorem Reads.field {cs : List Char} {t : Template} {name : List Char}
    (hname : ∀ c ∈ name, c ∉ fieldMarks) (h : Reads cs t) :
    Reads ('\x7b' :: (name ++ '\x7d' :: cs)) (.gap name none [] :: t) := by
  intro steps hsteps
  simp only [List.length_cons, List.length_append] at hsteps
  obtain ⟨n, rfl⟩ : ∃ n, steps = n + 1 := ⟨steps - 1, by omega⟩
  have hhead : (name ++ '\x7d' :: cs).head? ≠ some '\x7b' := by
    cases name with
    | nil => simp
    | cons c name =>
        have hc := (List.forall_mem_cons.mp hname).1
        simp only [fieldMarks, List.mem_cons, not_or] at hc
        simpa using hc.1
  have hrest : readChars n cs = t := h n (by omega)
  rw [readChars, if_pos (by simp), if_neg hhead, if_neg (by decide), takeGap_name hname]
  exact congrArg _ hrest

theorem Reads.parts {parts : List Part} (h : ∀ name ∈ names parts, IsFieldName name) :
    Reads (parts.flatMap Part.written) (parts.flatMap Part.pieces) := by
  induction parts with
  | nil => exact .nil
  | cons p parts ih =>
      rw [List.flatMap_cons, List.flatMap_cons]
      cases p with
      | text s => exact .text s.toList (ih h)
      | field name =>
          obtain ⟨hname, hnames⟩ := List.forall_mem_cons.mp h
          show Reads ('\x7b' :: (name.toList ++ ['\x7d']) ++ _) _
          rw [List.cons_append, List.append_assoc]
          exact .field hname.2 (ih hnames)

/-- A template is read as the text and the fields that it was written from. -/
theorem ofChars_written {parts : List Part} (h : ∀ name ∈ names parts, IsFieldName name) :
    ofChars (written parts).toList = parts.flatMap Part.pieces := by
  rw [written, String.toList_ofList]
  exact Reads.parts h _ (Nat.le_refl _)

/-! ## Texts that are so written -/

/-- Whether a piece is a character of text, or a field with a name. -/
def Piece.isPart : Piece → Bool
  | .plain _ => true
  | .gap path none [] =>
    (path.head?.any fun c => (digitValue? c).isNone) && path.all fun c => !fieldMarks.contains c
  | _ => false

/-- The part that such a piece is. -/
def Piece.part : Piece → Part
  | .plain c => .text (String.singleton c)
  | .gap path _ _ => .field (String.ofList path)
  | .malformed => .text ""

/-- The characters that such a piece was read from. -/
def Piece.written : Piece → List Char
  | .plain c => writtenChar c
  | .gap path _ _ => '\x7b' :: (path ++ ['\x7d'])
  | .malformed => []

theorem Piece.written_part (p : Piece) : p.part.written = p.written := by
  cases p <;> simp [part, written, Part.written]

theorem Piece.isFieldName_part {p : Piece} (h : p.isPart = true) {name : String}
    (hname : p.part.name? = some name) : IsFieldName name := by
  unfold isPart at h
  split at h
  · cases hname
  · cases hname
    simpa [IsFieldName] using h
  · cases h

/-- Characters are those of text and fields, if what they are read as gives them again. -/
theorem exists_parts {cs : List Char} (hparts : (ofChars cs).all Piece.isPart = true)
    (hwritten : (ofChars cs).flatMap Piece.written = cs) :
    ∃ parts, String.ofList cs = Template.written parts ∧ ∀ name ∈ names parts, IsFieldName name := by
  refine ⟨(ofChars cs).map Piece.part, ?_, fun name hname => ?_⟩
  · rw [written, List.flatMap_map]
    simp only [Piece.written_part, hwritten]
  · obtain ⟨part, hpart, hname⟩ := List.mem_filterMap.mp hname
    obtain ⟨p, hp, rfl⟩ := List.mem_map.mp hpart
    exact Piece.isFieldName_part (List.all_eq_true.mp hparts p hp) hname

/-! ## Filling -/

section

variable {values : List (String × Datum)} {name : String}

theorem position?_name {cs : List Char} (h : (cs.head?.any fun c => (digitValue? c).isNone) = true) :
    position? cs = .ok none := by
  cases cs with
  | nil => cases h
  | cons c cs =>
      have hc : digitValue? c = none := by simpa using h
      simp [position?, Presentation.takeNumber?, Presentation.takeNumber, hc]
      rfl

/-- A name leads to its value. -/
theorem find_name (h : IsFieldName name) :
    find values name.toList =
      match values.lookup name with
      | some d => .ok d
      | none => .error (.missing name) := by
  obtain ⟨hstart, hplain⟩ := h
  have hwhole : name.toList.takeWhile (fun c => c != '.' && c != '[') = name.toList := by
    refine List.takeWhile_eq_self_iff.mpr fun c hc => ?_
    have hmarks := hplain c hc
    simp only [fieldMarks, List.mem_cons, not_or] at hmarks
    simp [hmarks]
  have hne : name.toList ≠ [] := by
    rintro hempty
    rw [hempty] at hstart
    cases hstart
  rw [find, hwhole, position?_name hstart, String.ofList_toList, List.drop_length]
  cases values.lookup name with
  | none => simp [hne]; rfl
  | some d => simp [hne, follow]; rfl

theorem join_append (fillPiece : Piece → Except Fault String) (t t' : Template) :
    join fillPiece (t ++ t') = (do
      let s ← join fillPiece t
      let s' ← join fillPiece t'
      pure (s ++ s')) := by
  induction t with
  | nil =>
      cases h : join fillPiece t' with
      | error e => simp [join, h]; rfl
      | ok s => simp [join, h]; rfl
  | cons p t ih =>
      rw [List.cons_append, join, join, ih]
      cases fillPiece p with
      | error e => rfl
      | ok s =>
          cases join fillPiece t with
          | error e => rfl
          | ok s' => cases join fillPiece t' <;> simp [bind, Except.bind, pure, Except.pure, String.append_assoc]

/-- Text becomes itself. -/
theorem join_text (fillSpec : List Char → Except Fault String) (cs : List Char) :
    join (Piece.fill values fillSpec) (cs.map .plain) = .ok (String.ofList cs) := by
  induction cs with
  | nil => rfl
  | cons c cs ih =>
      rw [List.map_cons, join, ih]
      have hchars : String.singleton c ++ String.ofList cs = String.ofList (c :: cs) :=
        String.toList_inj.mp (by simp)
      exact congrArg Except.ok hchars

/-- A field becomes the text of its value. -/
theorem join_field (fillSpec : List Char → Except Fault String) (h : IsFieldName name) :
    join (Piece.fill values fillSpec) [.gap name.toList none []] =
      match values.lookup name with
      | some d => .ok d.shown
      | none => .error (.missing name) := by
  rw [join, Piece.fill, find_name h]
  cases values.lookup name with
  | none => rfl
  | some d =>
      show Except.ok (d.shown ++ "") = _
      rw [String.append_empty]

theorem join_pieces (fillSpec : List Char → Except Fault String) {parts : List Part}
    (h : ∀ name ∈ names parts, IsFieldName name) :
    join (Piece.fill values fillSpec) (parts.flatMap Part.pieces) =
      match missing? values parts with
      | some name => .error (.missing name)
      | none => .ok (filled values parts) := by
  induction parts with
  | nil => rfl
  | cons p parts ih =>
      have hfilled : filled values (p :: parts) = p.filled values ++ filled values parts := by
        simp [filled, String.join_cons]
      rw [List.flatMap_cons, join_append, hfilled]
      cases p with
      | text s =>
          have hmissing : missing? values (.text s :: parts) = missing? values parts := rfl
          have hrest := ih h
          rw [hmissing]
          simp only [Part.pieces, join_text, hrest, String.ofList_toList]
          cases missing? values parts <;> rfl
      | field name =>
          obtain ⟨hname, hnames⟩ := List.forall_mem_cons.mp h
          have hmissing : missing? values (.field name :: parts) =
              if (values.lookup name).isNone then some name else missing? values parts := by
            show (name :: names parts).find? _ = _
            rw [List.find?_cons]
            cases (values.lookup name).isNone <;> rfl
          have hrest := ih hnames
          rw [hmissing]
          simp only [Part.pieces, join_field fillSpec hname, hrest, Part.filled]
          cases values.lookup name with
          | none => rfl
          | some d => cases missing? values parts <;> rfl

/-- **Filling.**  The first field without a value is reported.  If there is none, the text is that of
the template with each field replaced by the text of its value. -/
theorem fill_written {parts : List Part} (h : ∀ name ∈ names parts, IsFieldName name) :
    fill values (written parts) =
      match missing? values parts with
      | some name => .error (.missing name)
      | none => .ok (filled values parts) := by
  rw [fill, fillChars, ofChars_written h]
  exact join_pieces _ h

end

end Ssa.Template

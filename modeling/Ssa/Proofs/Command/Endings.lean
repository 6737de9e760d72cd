/-
# `Ssa.Proofs.Command.Endings` — a command ends with a code

A command that checks or emits a source file ends with zero if it did what was asked, and with two
and a line that says why if not.  There are ways in which no code is reached: a source whose octets are
no text, a source without a name to derive that of the object from, and an object that is to go to a
path that no file can have.

**Proved here.**

    which failures of a task end with a code                               (`verified_error`, `emitted_error`)
    an emission leaves files exactly if it succeeds with them              (`emitted_ok_iff`)
    a command ends with a code, or strays in one of the listed ways        (`ends_with_code`)
    a check and two emissions that end with no code                        (`not_always_code`)
-/
import Ssa.Proofs.Command.Arguments
import Ssa.Proofs.Command.Surroundings
import Ssa.Proofs.Files.Path

namespace Ssa.Command

open Effect Files Session

variable {α : Type}

/-! ## Which failures end with a code -/

section

variable {w : Surroundings α} {files : Files} {source target : Path} {e : Failure}

/-- A source has octets, and they are no text. -/
def Surroundings.ReadsNoText (w : Surroundings α) (files : Files) (source : Path) : Prop :=
  ∃ octets, w.load files source = .ok octets ∧ Files.textOf? octets = none

theorem text_of_readsNoText (h : w.ReadsNoText files source) :
    w.text files source = .error .notText := by
  obtain ⟨octets, hload, htext⟩ := h
  simp only [Surroundings.text, hload, htext]

theorem text_error (h : w.text files source = .error e) :
    (e = .notText ∧ w.ReadsNoText files source) ∨ e.isRecoverable = true := by
  unfold Surroundings.text at h
  split at h
  · cases h
    exact .inr rfl
  · rename_i octets hload
    split at h
    · cases h
    · rename_i htext
      cases h
      exact .inl ⟨rfl, octets, hload, htext⟩

theorem parsed_error {name text : String} (h : w.parsed name text = .error e) :
    e.isRecoverable = true := by
  unfold Surroundings.parsed at h
  split at h
  · cases h
  · cases h; rfl

theorem checked_error {name text : String} (h : w.checked name text = .error e) :
    e.isRecoverable = true := by
  unfold Surroundings.checked at h
  cases hparsed : w.parsed name text with
  | error e' =>
      rw [hparsed] at h
      cases h
      exact parsed_error hparsed
  | ok a =>
      rw [hparsed] at h
      change (if w.verify a then _ else _) = _ at h
      split at h
      · cases h
      · cases h; rfl

theorem taken_error {name text : String} {check : Bool} (h : w.taken name text check = .error e) :
    e.isRecoverable = true := by
  cases check with
  | true => exact checked_error h
  | false => exact parsed_error h

theorem object_error {processor : Processor} {level : Level} {check : Bool}
    (h : w.object files source processor level check = .error e) :
    (e = .notText ∧ w.ReadsNoText files source) ∨ e.isRecoverable = true := by
  rcases error_of_bind h with htext | ⟨text, -, h⟩
  · exact text_error htext
  rcases error_of_bind h with htaken | ⟨a, -, h⟩
  · exact .inr (taken_error htaken)
  rcases error_of_bind h with hmachine | ⟨machine, -, h⟩
  · obtain ⟨cpu, triple, rfl⟩ := make_error hmachine
    exact .inr rfl
  · split at h
    · cases h
    · cases h
      exact .inr rfl

theorem placed_error {octets : List UInt8} (h : w.placed files target octets = .error e) :
    (e = .badValue ∧ target.isUnusable = true) ∨ e.isRecoverable = true := by
  unfold Surroundings.placed at h
  split at h
  · rename_i hu
    cases h
    exact .inl ⟨rfl, hu⟩
  · split at h
    · cases h
    · cases h
      exact .inr rfl

/-! ## What commands answer -/

variable {i : Invocation} {s : Session}

/-- A failure that callers are expected to handle ends a command with two, and with a line. -/
theorem answer_of_recoverable (h : e.isRecoverable = true) :
    ∃ o, i.answer (.error e, s) = .ok o ∧ o.code = 2 ∧ o.files = s.files ∧
      ∃ why, "error: " ++ why ∈ o.err := by
  obtain ⟨⟨entry, message⟩, hlisted⟩ : ∃ l, e.listed? = some l := by
    unfold Failure.isRecoverable at h
    cases hl : e.listed? with
    | none => rw [hl] at h; cases h
    | some l => exact ⟨l, rfl⟩
  refine ⟨⟨2, [], shownNotes i.verbose s.log ++ (if i.traceback then [tracebackLine] else []) ++
    [failureLine entry message], s.files⟩, ?_, rfl, rfl, entry.code ++ ": " ++ message, ?_⟩
  · unfold Invocation.answer
    dsimp only
    rw [hlisted]
    exact if_pos h
  · refine List.mem_append_right _ (List.mem_singleton.mpr ?_)
    simp only [failureLine, String.append_assoc]

/-- Any other failure is the answer. -/
theorem answer_of_not_recoverable (h : e.isRecoverable = false) :
    i.answer (.error e, s) = .error e := by
  unfold Invocation.answer
  dsimp only
  split
  · exact if_neg (Bool.eq_false_iff.mp h)
  · rfl

end

/-! ## Endings -/

/-- The source that a task is about. -/
def Task.source? : Task → Option String
  | .info => none
  | .verify source => some source
  | .emit source .. => some source

section

variable (w : Surroundings α) (files : Files)

/-- What a task is to do is done, and the files are as given after it: a source is text that can be read
and passes the check, or an object of it was made and has replaced the file at its path. -/
def Task.Succeeds (files' : Files) : Task → Prop
  | .info => files' = files
  | .verify source => files' = files ∧ ∃ octets text a,
      w.load files (.read source) = .ok octets ∧ Files.textOf? octets = some text ∧
      w.parse (Path.read source).stem text = some a ∧ w.verify a = true
  | .emit source out cpu level check => ∃ target l processor octets at_,
      targetOf (.read source) out = .ok target ∧ target.isUnusable = false ∧
      Level.read level = .ok l ∧ Processor.read cpu = .ok processor ∧
      w.object files (.read source) processor l check = .ok octets ∧
      files.replace w.fault target octets = (files', none) ∧
      files.Replaces files' target octets at_

/-- How a command is to end: with zero if its task succeeds, and otherwise with two, a line that says
why, and the files as they were. -/
structure Task.Ends (t : Task) (o : Outcome) : Prop where
  code : o.code = 0 ∨ o.code = 2
  zero_iff : o.code = 0 ↔ t.Succeeds w files o.files
  line : o.code = 2 → ∃ why, "error: " ++ why ∈ o.err
  unchanged : o.code = 2 → o.files = files

/-- The ways in which a task ends with no code. -/
inductive Task.Strays : Task → Failure → Prop
  /-- The source that is to be checked is no text. -/
  | unchecked {source : String} :
      w.ReadsNoText files (.read source) → Strays (.verify source) .notText
  /-- The source that is to be emitted is no text. -/
  | unread {source : String} {out : Option String} {cpu level : String} {check : Bool}
      {target : Path} :
      targetOf (.read source) out = .ok target → w.ReadsNoText files (.read source) →
      Strays (.emit source out cpu level check) .notText
  /-- No path is given for the object, and the source has no name to derive one from. -/
  | nameless {source cpu level : String} {check : Bool} :
      (Path.read source).name = "" → Strays (.emit source none cpu level check) .badValue
  /-- The object is made, and no file can have the path that is given for it. -/
  | unusable {source out cpu level : String} {check : Bool} {l : Level} {processor : Processor}
      {octets : List UInt8} :
      '\x00' ∈ out.toList → Level.read level = .ok l → Processor.read cpu = .ok processor →
      w.object files (.read source) processor l check = .ok octets →
      Strays (.emit source (some out) cpu level check) .badValue

variable {w files} {i : Invocation} {source cpu level : String} {out : Option String}
  {check : Bool} {e : Failure} {files' : Files} {o : Outcome}

theorem verified_error (h : w.verified files (.read source) = .error e) :
    Task.Strays w files (.verify source) e ∨ e.isRecoverable = true := by
  unfold Surroundings.verified at h
  split at h
  · cases h
  · rename_i octets hload
    split at h
    · rename_i htext
      cases h
      exact .inl (.unchecked ⟨octets, hload, htext⟩)
    · cases hchecked : w.checked (Path.read source).stem _ with
      | ok a => rw [hchecked] at h; cases h
      | error e' =>
          rw [hchecked] at h
          cases h
          exact .inr (checked_error hchecked)

theorem verified_of_strays (h : Task.Strays w files (.verify source) e) :
    w.verified files (.read source) = .error e := by
  obtain ⟨octets, hload, htext⟩ := h
  simp only [Surroundings.verified, hload, htext]

/-- A check that does not fail: the source cannot be read, or it passes. -/
theorem verified_ok {d : Done} (h : w.verified files (.read source) = .ok d) :
    (∃ why, d = .unreadable (.read source) why ∧ ∀ files',
      ¬Task.Succeeds w files files' (.verify source)) ∨
    ∃ lines, d = .shown lines ∧ Task.Succeeds w files files (.verify source) := by
  unfold Surroundings.verified at h
  split at h
  · rename_i why hload
    cases h
    refine .inl ⟨_, rfl, ?_⟩
    rintro files' ⟨-, octets, text, a, hload', -⟩
    rw [hload] at hload'
    cases hload'
  · rename_i octets hload
    split at h
    · cases h
    · rename_i text htext
      obtain ⟨a, hchecked, rfl⟩ := ok_of_map h
      obtain ⟨a', hparsed, hverify⟩ := ok_of_bind hchecked
      refine .inr ⟨_, rfl, rfl, octets, text, a', hload, htext, ?_, ?_⟩
      · unfold Surroundings.parsed at hparsed
        split at hparsed
        · rename_i hparse
          cases hparsed
          exact hparse
        · cases hparsed
      · by_contra hnot
        rw [if_neg hnot] at hverify
        cases hverify

/-- A check that fails does not succeed. -/
theorem not_succeeds_of_verified (h : w.verified files (.read source) = .error e) :
    ¬Task.Succeeds w files files' (.verify source) := by
  rintro ⟨-, octets, text, a, hload, htext, hparse, hverify⟩
  have hchecked : w.checked (Path.read source).stem text = .ok a := by
    unfold Surroundings.checked Surroundings.parsed
    rw [hparse]
    exact if_pos hverify
  simp only [Surroundings.verified, hload, htext, hchecked] at h
  cases h

theorem emitted_eq {target : Path} {processor : Processor} {l : Level}
    (htarget : targetOf (.read source) out = .ok target) (hlevel : Level.read level = .ok l)
    (hcpu : Processor.read cpu = .ok processor) :
    w.emitted files (.read source) out cpu level check =
      (w.object files (.read source) processor l check >>= w.placed files target) := by
  unfold Surroundings.emitted
  rw [htarget, hlevel, hcpu]
  rfl

/-- What an emission fails with is a way to stray, or is handled. -/
theorem emitted_error (hchoices : Task.HasChoices (.emit source out cpu level check))
    (hnul : '\x00' ∉ source.toList) (h : w.emitted files (.read source) out cpu level check = .error e) :
    Task.Strays w files (.emit source out cpu level check) e ∨ e.isRecoverable = true := by
  obtain ⟨⟨processor, hcpu⟩, l, hlevel⟩ := hchoices
  have hsource : (Path.read source).isUnusable = false :=
    Bool.eq_false_iff.mpr (mt (Path.isUnusable_read source).mp hnul)
  rcases htarget : targetOf (.read source) out with e' | target
  · rw [Surroundings.emitted, htarget] at h
    cases h
    cases out with
    | some out => cases htarget
    | none =>
        change (Path.read source).withEnding ".o" = _ at htarget
        unfold Path.withEnding at htarget
        split at htarget
        · rename_i hname
          cases htarget
          exact .inl (.nameless hname)
        · cases htarget
  rw [emitted_eq htarget hlevel hcpu] at h
  rcases error_of_bind h with hobject | ⟨octets, hobject, h⟩
  · rcases object_error hobject with ⟨rfl, hnone⟩ | he
    · exact .inl (.unread htarget hnone)
    · exact .inr he
  · rcases placed_error h with ⟨rfl, hu⟩ | he
    · cases out with
      | some out =>
          cases htarget
          exact .inl (.unusable ((Path.isUnusable_read out).mp hu) hlevel hcpu hobject)
      | none =>
          rw [Path.isUnusable_withEnding hsource (by decide) htarget] at hu
          cases hu
    · exact .inr he

theorem emitted_of_strays (hchoices : Task.HasChoices (.emit source out cpu level check))
    (h : Task.Strays w files (.emit source out cpu level check) e) :
    w.emitted files (.read source) out cpu level check = .error e ∧ e.isRecoverable = false := by
  obtain ⟨⟨processor, hcpu⟩, l, hlevel⟩ := hchoices
  cases h with
  | unread htarget hnone =>
      refine ⟨?_, rfl⟩
      rw [emitted_eq htarget hlevel hcpu, Surroundings.object, text_of_readsNoText hnone]
      rfl
  | nameless hname =>
      refine ⟨?_, rfl⟩
      rw [Surroundings.emitted, targetOf, Path.withEnding, if_pos hname]
      rfl
  | unusable hout hl hp hobject =>
      refine ⟨?_, rfl⟩
      rw [emitted_eq rfl hl hp, hobject]
      exact if_pos ((Path.isUnusable_read _).mpr hout)

/-- An emission leaves files exactly if it succeeds with them. -/
theorem emitted_ok_iff : w.emitted files (.read source) out cpu level check = .ok files' ↔
    Task.Succeeds w files files' (.emit source out cpu level check) := by
  constructor
  · intro h
    obtain ⟨target, htarget, h⟩ := ok_of_bind h
    obtain ⟨l, hlevel, h⟩ := ok_of_bind h
    obtain ⟨processor, hcpu, h⟩ := ok_of_bind h
    obtain ⟨octets, hobject, h⟩ := ok_of_bind h
    unfold Surroundings.placed at h
    split at h
    · cases h
    · rename_i hu
      rcases replace_cases w.fault files target octets with
        ⟨why, hreplace, -⟩ | ⟨at_, g, -, hreplace, hreplaces⟩
      all_goals
        rw [hreplace] at h
        cases h
      exact ⟨target, l, processor, octets, at_, htarget, Bool.eq_false_iff.mpr hu, hlevel, hcpu,
        hobject, hreplace, hreplaces⟩
  · rintro ⟨target, l, processor, octets, at_, htarget, hu, hlevel, hcpu, hobject, hreplace, -⟩
    rw [emitted_eq htarget hlevel hcpu, hobject]
    show w.placed files target octets = _
    rw [Surroundings.placed, hu, hreplace]
    rfl

/-! ### Commands -/

variable (w files)

theorem performWith_verify (ht : i.task = .verify source) (hnul : '\x00' ∉ source.toList) :
    ∃ s : Session, s.files = files ∧
      i.performWith w files = i.answer (w.verified files (.read source), s) := by
  have hsource : (Path.read source).isUnusable = false :=
    Bool.eq_false_iff.mpr (mt (Path.isUnusable_read source).mp hnul)
  refine ⟨{ Session.fresh files with host := w.host }, rfl, ?_⟩
  rw [Invocation.performWith, ht]
  exact congrArg i.answer (Surroundings.verifySource_on hsource)

theorem performWith_emit (ht : i.task = .emit source out cpu level check)
    (hnul : '\x00' ∉ source.toList) :
    ∃ done, ∃ s : Session, i.performWith w files = i.answer (done, s) ∧
      done.map (fun _ => s.files) = w.emitted files (.read source) out cpu level check ∧
      (∀ e, done = .error e → s.files = files) ∧ ∀ d, done = .ok d → ∃ lines, d = .shown lines := by
  have hsource : (Path.read source).isUnusable = false :=
    Bool.eq_false_iff.mpr (mt (Path.isUnusable_read source).mp hnul)
  obtain ⟨done, s, hon, hfiles⟩ := Surroundings.emitSource_on (w := w)
    (s := { Session.fresh files with host := w.host }) rfl rfl hsource out cpu level check
  refine ⟨done, s, ?_, hfiles⟩
  rw [Invocation.performWith, ht]
  exact congrArg i.answer hon

variable {w files}

/-- How a command ends follows from what its task comes to and the files that it leaves. -/
theorem ends_of_answer {t : Task} {done : Except Failure Done} {s : Session}
    {answer : Except Failure Outcome} (hanswer : answer = i.answer (done, s))
    (hfails : ∀ e, done = .error e → (t.Strays w files e ∨ e.isRecoverable = true) ∧
      s.files = files ∧ ∀ files', ¬t.Succeeds w files files')
    (hdone : ∀ d, done = .ok d → (∃ lines, d = .shown lines ∧ t.Succeeds w files s.files) ∨
      ∃ p why, d = .unreadable p why ∧ s.files = files ∧ ∀ files', ¬t.Succeeds w files files')
    (hstrays : ∀ e, t.Strays w files e → done = .error e ∧ e.isRecoverable = false) :
    (∀ e, answer = .error e ↔ t.Strays w files e) ∧ ∀ o, answer = .ok o → t.Ends w files o := by
  subst hanswer
  have hback (e : Failure) (h : t.Strays w files e) : i.answer (done, s) = .error e := by
    obtain ⟨rfl, he⟩ := hstrays e h
    exact answer_of_not_recoverable he
  rcases done with e | d
  · obtain ⟨hways, hfiles, hnot⟩ := hfails e rfl
    cases he : e.isRecoverable with
    | true =>
        obtain ⟨o, ho, hcode, hofiles, hline⟩ := answer_of_recoverable (i := i) (s := s) he
        refine ⟨fun e' => ⟨fun h => ?_, hback e'⟩, fun o' h => ?_⟩
        · rw [ho] at h
          cases h
        · rw [ho] at h
          cases h
          exact ⟨.inr hcode, by simp [hcode, hnot], fun _ => hline, fun _ => hofiles.trans hfiles⟩
    | false =>
        rw [answer_of_not_recoverable he]
        refine ⟨fun e' => ⟨fun h => ?_, fun h => ?_⟩, nofun⟩
        · cases h
          exact hways.resolve_right (by rw [he]; decide)
        · cases (hstrays e' h).1
          rfl
  · have hnone (e : Failure) (h : t.Strays w files e) : False := by
      cases (hstrays e h).1
    rcases hdone d rfl with ⟨lines, rfl, hsucceeds⟩ | ⟨p, why, rfl, hfiles, hnot⟩
    · refine ⟨fun e => ⟨nofun, fun h => (hnone e h).elim⟩, fun o h => ?_⟩
      cases h
      exact ⟨.inl rfl, by simpa using hsucceeds, nofun, nofun⟩
    · refine ⟨fun e => ⟨nofun, fun h => (hnone e h).elim⟩, fun o h => ?_⟩
      cases h
      refine ⟨.inr rfl, by simp [hnot], fun _ => ⟨"cannot read " ++ p.text ++ ": " ++ why, ?_⟩,
        fun _ => hfiles⟩
      refine List.mem_append_right _ (List.mem_singleton.mpr ?_)
      have hword : "error: cannot read " = "error: " ++ "cannot read " := by decide
      rw [hword]
      simp only [String.append_assoc]

/-- **A command ends with a code, or strays.**  Whatever reads texts, checks them and makes code of
them, whatever files there are and whether they can be read and written: a command that arguments ask
for ends with no code exactly in the ways listed, and otherwise with zero if its task succeeds, or with
two, a line that says why, and no file changed.  The command line is a case of it. -/
theorem ends_with_code (w : Surroundings α) {args : List String} {i : Invocation}
    (h : Invocation.read args = .ok i) {source : String} (hsource : i.task.source? = some source)
    (hnul : '\x00' ∉ source.toList) (files : Files) :
    (∀ e, i.performWith w files = .error e ↔ i.task.Strays w files e) ∧
      (∀ o, i.performWith w files = .ok o → i.task.Ends w files o) ∧
      i.performWith own files = i.perform files := by
  refine (and_assoc.mp ⟨?_, performWith_own i files⟩)
  have hchoices := read_hasChoices h
  cases ht : i.task with
  | info => rw [ht] at hsource; cases hsource
  | verify source' =>
      rw [ht] at hsource
      cases hsource
      obtain ⟨s, rfl, hanswer⟩ := performWith_verify w files ht hnul
      refine ends_of_answer hanswer (fun e he => ?_) (fun d hd => ?_) fun e he => ?_
      · exact ⟨verified_error he, rfl, fun _ => not_succeeds_of_verified he⟩
      · rcases verified_ok hd with ⟨why, rfl, hnot⟩ | ⟨lines, rfl, hsucceeds⟩
        · exact .inr ⟨_, why, rfl, rfl, hnot⟩
        · exact .inl ⟨lines, rfl, hsucceeds⟩
      · refine ⟨verified_of_strays he, ?_⟩
        cases he
        rfl
  | emit source' out cpu level check =>
      rw [ht] at hsource hchoices
      cases hsource
      obtain ⟨done, s, hanswer, hfiles, hkept, hshown⟩ :=
        performWith_emit w files ht hnul
      refine ends_of_answer hanswer (fun e he => ?_) (fun d hd => ?_) fun e he => ?_
      · subst he
        refine ⟨emitted_error hchoices hnul hfiles.symm, hkept e rfl, fun files' hsucceeds => ?_⟩
        rw [emitted_ok_iff.mpr hsucceeds] at hfiles
        cases hfiles
      · subst hd
        obtain ⟨lines, rfl⟩ := hshown d rfl
        exact .inl ⟨lines, rfl, emitted_ok_iff.mp hfiles.symm⟩
      · obtain ⟨hemitted, hfatal⟩ := emitted_of_strays hchoices he
        rw [hemitted] at hfiles
        cases done with
        | error e' => cases hfiles; exact ⟨rfl, hfatal⟩
        | ok d => cases hfiles

/-! ## Commands that stray -/

/-- Files with a source that is no text, and with an empty one. -/
def sources : Files :=
  (Files.fresh.put ["work", "bytes.ll"] (.file Files.plainMode [0xff])).put ["work", "empty.ll"]
    (.file Files.plainMode [])

/-- An emission of an empty source ends with zero, and there is an object. -/
theorem ends_with_zero_empty : ∃ i o at_, Invocation.read ["emit", "empty.ll"] = .ok i ∧
    i.performWith own sources = .ok o ∧ o.code = 0 ∧
    sources.Replaces o.files (.read "empty.o") ObjectFormat.elf.mark at_ := by
  have hread : Invocation.read ["emit", "empty.ll"] =
      .ok ⟨.emit "empty.ll" none "native" "O2" true, false, false⟩ := by decide +kernel
  obtain ⟨o, ho, hcode⟩ : ∃ o, (⟨.emit "empty.ll" none "native" "O2" true, false, false⟩ :
      Invocation).performWith own sources = .ok o ∧ o.code = 0 := by
    have hcode : ((⟨.emit "empty.ll" none "native" "O2" true, false, false⟩ :
        Invocation).performWith own sources).toOption.map Outcome.code = some 0 := by decide +kernel
    cases h : (⟨.emit "empty.ll" none "native" "O2" true, false, false⟩ :
        Invocation).performWith own sources with
    | error e => rw [h] at hcode; cases hcode
    | ok o => rw [h] at hcode; exact ⟨o, rfl, Option.some.inj hcode⟩
  obtain ⟨target, l, processor, octets, at_, htarget, -, hlevel, hcpu, hobject, -, hreplaces⟩ :=
    ((ends_with_code own hread rfl (by decide) sources).2.1 o ho).zero_iff.mp hcode
  rw [show Level.read "O2" = .ok .o2 by decide +kernel] at hlevel
  rw [show Processor.read "native" = .ok .native by decide +kernel] at hcpu
  cases hlevel
  cases hcpu
  rw [show own.object sources (.read "empty.ll") .native .o2 true = .ok ObjectFormat.elf.mark by
    decide +kernel] at hobject
  rw [show targetOf (.read "empty.ll") none = .ok (.read "empty.o") by decide +kernel] at htarget
  cases hobject
  cases htarget
  exact ⟨_, o, at_, hread, ho, hcode, hreplaces⟩

/-- A command may end with no code: a check of a source that is no text, an emission of a source
without a name, and one to a path that no file can have. -/
theorem not_always_code :
    (∃ i, Invocation.read ["verify", "bytes.ll"] = .ok i ∧ i.perform sources = .error .notText) ∧
    (∃ i, Invocation.read ["emit", "."] = .ok i ∧ i.perform sources = .error .badValue) ∧
    (∃ i, Invocation.read ["emit", "empty.ll", "-o", "\x00.o"] = .ok i ∧
      i.perform sources = .error .badValue) := by
  refine ⟨⟨⟨.verify "bytes.ll", false, false⟩, by decide +kernel, ?_⟩,
    ⟨⟨.emit "." none "native" "O2" true, false, false⟩, by decide +kernel, ?_⟩,
    ⟨⟨.emit "empty.ll" (some "\x00.o") "native" "O2" true, false, false⟩, by decide +kernel, ?_⟩⟩
  · exact eq_error_of_failure? (by decide +kernel)
  · exact eq_error_of_failure? (by decide +kernel)
  · exact eq_error_of_failure? (by decide +kernel)

end

end Ssa.Command
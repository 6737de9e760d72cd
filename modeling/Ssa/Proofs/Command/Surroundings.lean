/-
# `Ssa.Proofs.Command.Surroundings` — commands in given surroundings

What reads texts, checks them and makes code of them is given here as partial functions, and files may
be barred from being read or written.  A command is carried out in such surroundings; the command line
is a case of it.  What a task comes to is then a function of the files alone.

**Proved here.**

    the command line is a case                                             (`performWith_own`)
    a check leaves everything as it is                                     (`verifySource_on`)
    an emission comes to the files that `emitted` says, or fails           (`emitSource_on`)
-/
import Ssa.Command.Run
import Ssa.Proofs.Session.Emission

namespace Ssa.Command

open Effect Files Session

variable {α : Type}

/-! ## What a command depends on -/

/-- What a command depends on besides its arguments and the files. -/
structure Surroundings (α : Type) where
  host : Triple
  /-- What a text under a name is read as, if it can be read. -/
  parse : String → String → Option α
  /-- Whether what was read passes the check. -/
  verify : α → Bool
  /-- The octets of an object for a machine, unless there is no code for it. -/
  generate : α → TargetMachine → Option (List UInt8)
  /-- Why sources cannot be read, if that is not for what is at their paths. -/
  barred : Option FileFailure
  /-- Which step of writing fails by itself. -/
  fault : Fault

namespace Surroundings

variable (w : Surroundings α)

/-- The octets of a source. -/
def load (files : Files) (p : Path) : Except FileFailure (List UInt8) :=
  match w.barred with
  | some why => .error why
  | none => files.read p

/-- What a text is read as. -/
def parsed (name text : String) : Except Failure α :=
  match w.parse name text with
  | some a => .ok a
  | none => .error (.unreadable name)

/-- What a text is read as that passes the check. -/
def checked (name text : String) : Except Failure α := do
  let a ← w.parsed name text
  if w.verify a then pure a else throw (.unverified name)

/-- What a text is read as, which passes the check if there is one. -/
def taken (name text : String) (check : Bool) : Except Failure α :=
  if check then w.checked name text else w.parsed name text

/-- Check a source file. -/
def verifySource (source : Path) : Act Done := do
  if source.isUnusable then throw .badValue
  match w.load (← get).files source with
  | .error why => pure (.unreadable source why.reason)
  | .ok octets =>
    match Files.textOf? octets with
    | none => throw .notText
    | some text =>
      discard (Session.lift (w.checked source.stem text))
      pure (.shown [source.text ++ ": ok"])

/-- The text of a source file. -/
def readSource (p : Path) : Act String := do
  if p.isUnusable then throw .badValue
  match w.load (← get).files p with
  | .error why => throw (.sourceNotRead p.text why.reason)
  | .ok octets =>
    match Files.textOf? octets with
    | some text => pure text
    | none => throw .notText

/-- Make the object of a source file. -/
def make (source : Path) (host : Triple) (processor : Processor) (level : Level) (check : Bool) :
    Act Object := do
  let text ← w.readSource source
  let a ← Session.lift (w.taken source.stem text check)
  let machine ← makeMachine host processor level
  match w.generate a machine with
  | some octets => pure ⟨source.stem, machine, octets⟩
  | none => throw (.notEmittable source.stem)

/-- Make the object of a source file, and put it at a path. -/
def emitTo (source : Path) (host : Triple) (processor : Processor) (level : Level) (target : Path)
    (check : Bool) : Act Unit := do
  let object ← w.make source host processor level check
  placeObject w.fault object.octets target
  note (.emitted object.name target.text object.machine)

/-- Emit a source file. -/
def emitSource (source : Path) (out : Option String) (cpu level : String) (check : Bool) :
    Act Done := do
  let target ← match out with
    | some p => pure (Path.read p)
    | none => Session.lift (source.withEnding ".o")
  let level ← Session.lift (Level.read level)
  let processor ← Session.lift (Processor.read cpu)
  w.emitTo source (← get).host processor level target check
  pure (.shown ["wrote " ++ target.text])

/-- Carry out a task. -/
def perform : Task → Act Done
  | .info => do return .shown (infoLines (← get).host)
  | .verify source => w.verifySource (.read source)
  | .emit source out cpu level check => w.emitSource (.read source) out cpu level check

end Surroundings

/-- What a command answers, given how its task ended. -/
def Invocation.answer (i : Invocation) : Except Failure Done × Session → Except Failure Outcome
  | (.ok (.shown lines), s) => .ok ⟨0, lines, shownNotes i.verbose s.log, s.files⟩
  | (.ok (.unreadable p reason), s) =>
    .ok ⟨2, [], shownNotes i.verbose s.log ++ ["error: cannot read " ++ p.text ++ ": " ++ reason],
      s.files⟩
  | (.error f, s) =>
    match f.listed? with
    | some (e, message) =>
      if f.isRecoverable then
        .ok ⟨2, [], shownNotes i.verbose s.log ++ (if i.traceback then [tracebackLine] else []) ++
          [failureLine e message], s.files⟩
      else .error f
    | none => .error f

/-- Carry out a command in given surroundings. -/
def Invocation.performWith (i : Invocation) (w : Surroundings α) (files : Files) :
    Except Failure Outcome :=
  i.answer ((w.perform i.task).on { Session.fresh files with host := w.host })

/-! ## The command line is a case -/

/-- The surroundings of the command line: its own reader and its own check, the mark of an object for
its code, and nothing that fails by itself. -/
def own : Surroundings (TypeTable × Module) where
  host := Session.usualHost
  parse name text := (readAssembly name text).toOption
  verify a := a.2.isVerified
  generate _ machine := some machine.triple.objectFormat.mark
  barred := none
  fault := none

theorem readAssembly_error {name text : String} {e : Failure}
    (h : readAssembly name text = .error e) : e = .unreadable name := by
  unfold readAssembly at h
  split at h
  · split at h
    · cases h
    · cases h; rfl
  · cases h; rfl

theorem own_parsed (name text : String) : own.parsed name text = readAssembly name text := by
  have hparse : own.parse name text = (readAssembly name text).toOption := rfl
  unfold Surroundings.parsed
  rw [hparse]
  cases h : readAssembly name text with
  | ok a => rfl
  | error e => rw [readAssembly_error h]; rfl

/-- A step of which only the failure matters. -/
theorem discard_lift (x : Except Failure α) :
    (discard (Session.lift x) : Act Unit) = Session.lift (x.map fun _ => ()) := by
  cases x <;> rfl

theorem own_checked (name text : String) :
    (own.checked name text).map (fun _ => ()) = checkAssembly name text := by
  unfold Surroundings.checked checkAssembly
  rw [own_parsed]
  cases readAssembly name text with
  | error e => rfl
  | ok a =>
      show Except.map _ (if a.2.isVerified then _ else _) = if a.2.isVerified then _ else _
      split <;> rfl

theorem own_verifySource (p : Path) : own.verifySource p = Command.verifySource p := by
  unfold Surroundings.verifySource Command.verifySource
  split
  · rfl
  · refine bind_congr fun s => ?_
    show (match s.files.read p with | .error why => _ | .ok octets => _ : Act Done) = _
    cases s.files.read p with
    | error why => rfl
    | ok octets =>
        dsimp only
        cases Files.textOf? octets with
        | none => rfl
        | some text =>
            dsimp only
            rw [discard_lift, own_checked]

theorem own_readSource (p : Path) :
    own.readSource p = Session.readSource p (.sourceNotRead p.text) := rfl

theorem own_emitTo (source : Path) (host : Triple) (processor : Processor) (level : Level)
    (target : Path) (check : Bool) :
    own.emitTo source host processor level target check =
      Session.emitSource source host processor level target check := by
  unfold Surroundings.emitTo Surroundings.make Session.emitSource
  rw [own_readSource, bind_assoc]
  refine bind_congr fun text => ?_
  cases check with
  | true =>
      simp only [Surroundings.taken, if_true]
      rw [← own_checked]
      cases own.checked source.stem text with
      | error e => rfl
      | ok a =>
          simp only [Session.lift, Except.map, Session.emitReadable, pure_bind, bind_assoc]
          rfl
  | false =>
      simp only [Surroundings.taken, Bool.false_eq_true, if_false]
      rw [own_parsed, discard_lift]
      cases readAssembly source.stem text with
      | error e => rfl
      | ok a =>
          simp only [Session.lift, Except.map, Session.emitReadable, pure_bind, bind_assoc]
          rfl

theorem own_emitSource (p : Path) (out : Option String) (cpu level : String) (check : Bool) :
    own.emitSource p out cpu level check = Command.emitSource p out cpu level check := by
  unfold Surroundings.emitSource Command.emitSource
  cases out <;> simp only [own_emitTo]

theorem performWith_own (i : Invocation) (files : Files) :
    i.performWith own files = i.perform files := by
  have htask : own.perform i.task = i.task.perform := by
    cases i.task with
    | info => rfl
    | verify source => exact own_verifySource _
    | emit source out cpu level check => exact own_emitSource ..
  unfold Invocation.performWith
  rw [htask]
  unfold Invocation.perform
  show i.answer (i.task.perform.run.run (Session.fresh files)) = _
  rcases i.task.perform.run.run (Session.fresh files) with ⟨e | ⟨_ | _⟩, s⟩ <;> rfl

/-! ## What tasks come to -/

/-- The path of the object of a source: the one that is given, or the source with another ending. -/
def targetOf (source : Path) : Option String → Except Failure Path
  | some out => .ok (.read out)
  | none => source.withEnding ".o"

namespace Surroundings

variable (w : Surroundings α) (files : Files)

/-- The text of a source, or why there is none. -/
def text (p : Path) : Except Failure String :=
  match w.load files p with
  | .error why => .error (.sourceNotRead p.text why.reason)
  | .ok octets =>
    match Files.textOf? octets with
    | some text => .ok text
    | none => .error .notText

/-- The object of a source, or why there is none. -/
def object (source : Path) (processor : Processor) (level : Level) (check : Bool) :
    Except Failure (List UInt8) := do
  let text ← w.text files source
  let a ← w.taken source.stem text check
  let machine ← TargetMachine.make w.host processor level
  match w.generate a machine with
  | some octets => .ok octets
  | none => .error (.notEmittable source.stem)

/-- The files in which an object is at a path, or why it is not there. -/
def placed (target : Path) (octets : List UInt8) : Except Failure Files :=
  if target.isUnusable then .error .badValue
  else match files.replace w.fault target octets with
    | (files', none) => .ok files'
    | (_, some why) => .error (.objectNotWritten target.text why.reason)

/-- The files that an emission leaves, or what it fails with. -/
def emitted (source : Path) (out : Option String) (cpu level : String) (check : Bool) :
    Except Failure Files := do
  let target ← targetOf source out
  let level ← Level.read level
  let processor ← Processor.read cpu
  let octets ← w.object files source processor level check
  w.placed files target octets

/-- How a check of a source ends, or what it fails with. -/
def verified (source : Path) : Except Failure Done :=
  match w.load files source with
  | .error why => .ok (.unreadable source why.reason)
  | .ok octets =>
    match Files.textOf? octets with
    | none => .error .notText
    | some text => (w.checked source.stem text).map fun _ => .shown [source.text ++ ": ok"]

variable {w files} {s : Session} {source target : Path}

theorem verifySource_on (hp : source.isUnusable = false) :
    (w.verifySource source).on s = (w.verified s.files source, s) := by
  unfold verifySource verified
  rw [hp]
  show (match w.load s.files source with | .error why => _ | .ok octets => _ : Act Done).on s = _
  cases w.load s.files source with
  | error why => rfl
  | ok octets =>
      dsimp only
      cases Files.textOf? octets with
      | none => rfl
      | some text =>
          dsimp only
          cases w.checked source.stem text <;> rfl

theorem readSource_on (hp : source.isUnusable = false) :
    (w.readSource source).on s = (w.text s.files source, s) := by
  unfold readSource text
  rw [hp]
  show (match w.load s.files source with | .error why => _ | .ok octets => _ : Act String).on s = _
  cases w.load s.files source with
  | error why => rfl
  | ok octets =>
      dsimp only
      cases Files.textOf? octets <;> rfl

/-- Making an object leaves the files as they are. -/
theorem make_on (hready : s.generator.ready = true) (hp : source.isUnusable = false)
    (processor : Processor) (level : Level) (check : Bool) :
    ∃ made s', (w.make source w.host processor level check).on s = (made, s') ∧
      s'.files = s.files ∧
      made.map Object.octets = w.object s.files source processor level check := by
  have hread := readSource_on (w := w) (s := s) hp
  unfold make object
  cases htext : w.text s.files source with
  | error e => exact ⟨_, s, on_bind_of_error (hread.trans (by rw [htext])), rfl, rfl⟩
  | ok text =>
      rw [on_bind_of_ok (hread.trans (by rw [htext]))]
      show ∃ made s', _ ∧ _ ∧ _ = w.taken source.stem text check >>= _
      rcases w.taken source.stem text check with e | a
      · exact ⟨_, s, on_bind_of_error (lift_on (.error e)), rfl, rfl⟩
      rw [on_bind_of_ok (lift_on (.ok a))]
      have hmachine := makeMachine_on hready w.host processor level
      show ∃ made s', _ ∧ _ ∧ _ = TargetMachine.make w.host processor level >>= _
      rcases hmake : TargetMachine.make w.host processor level with e | machine
      all_goals rw [hmake] at hmachine
      · exact ⟨_, s, on_bind_of_error hmachine, rfl, rfl⟩
      rw [on_bind_of_ok hmachine]
      show ∃ made s', _ ∧ _ ∧ _ = (match w.generate a machine with
        | some octets => Except.ok octets
        | none => Except.error (Failure.notEmittable source.stem))
      cases w.generate a machine with
      | none => exact ⟨_, _, rfl, rfl, rfl⟩
      | some octets => exact ⟨_, _, rfl, rfl, rfl⟩

/-- Emitting to a path leaves the files as they are, or as placing the object leaves them. -/
theorem emitTo_on (hready : s.generator.ready = true) (hp : source.isUnusable = false)
    (processor : Processor) (level : Level) (target : Path) (check : Bool) :
    ∃ done s', (w.emitTo source w.host processor level target check).on s = (done, s') ∧
      done.map (fun _ => s'.files) =
        (w.object s.files source processor level check >>= w.placed s.files target) ∧
      (∀ e, done = .error e → s'.files = s.files) := by
  obtain ⟨made, s₁, hmake, hfiles, hobject⟩ :=
    make_on (w := w) hready hp processor level check
  rw [← hobject]
  unfold emitTo
  rcases made with e | object
  · exact ⟨_, s₁, on_bind_of_error hmake, rfl, fun _ _ => hfiles⟩
  rw [on_bind_of_ok hmake]
  show ∃ done s', _ ∧ _ = w.placed s.files target object.octets ∧ _
  cases hu : target.isUnusable with
  | true =>
      exact ⟨_, s₁, on_bind_of_error (placeObject_of_isUnusable w.fault object.octets hu s₁),
        (if_pos hu).symm, fun _ _ => hfiles⟩
  | false =>
      have hplace := placeObject_on w.fault object.octets hu s₁
      rw [hfiles] at hplace
      unfold placed
      rw [hu]
      rcases replace_cases w.fault s.files target object.octets with
        ⟨why, hreplace, -⟩ | ⟨at_, files, -, hreplace, -⟩
      all_goals rw [hreplace] at hplace ⊢
      · exact ⟨_, _, on_bind_of_error hplace, rfl, fun _ _ => rfl⟩
      · exact ⟨_, _, (on_bind_of_ok hplace).trans (note_on _ _), rfl, nofun⟩

/-- An emission either shows a line and leaves the files as placing the object leaves them, or fails and
leaves them as they are. -/
theorem emitSource_on (hready : s.generator.ready = true) (hhost : s.host = w.host)
    (hp : source.isUnusable = false) (out : Option String) (cpu level : String) (check : Bool) :
    ∃ done s', (w.emitSource source out cpu level check).on s = (done, s') ∧
      done.map (fun _ => s'.files) = w.emitted s.files source out cpu level check ∧
      (∀ e, done = .error e → s'.files = s.files) ∧
      ∀ d, done = .ok d → ∃ lines, d = .shown lines := by
  have hstages : w.emitSource source out cpu level check = (do
      let target ← Session.lift (targetOf source out)
      let level ← Session.lift (Level.read level)
      let processor ← Session.lift (Processor.read cpu)
      w.emitTo source (← get).host processor level target check
      pure (.shown ["wrote " ++ target.text])) := by
    cases out <;> rfl
  rw [hstages]
  unfold emitted
  rcases targetOf source out with e | target
  · exact ⟨_, s, on_bind_of_error (lift_on _), rfl, fun _ _ => rfl, nofun⟩
  rw [on_bind_of_ok (lift_on (.ok target))]
  show ∃ done s', _ ∧ _ = (Level.read level >>= _) ∧ _
  rcases Level.read level with e | level
  · exact ⟨_, s, on_bind_of_error (lift_on _), rfl, fun _ _ => rfl, nofun⟩
  rw [on_bind_of_ok (lift_on (.ok level))]
  show ∃ done s', _ ∧ _ = (Processor.read cpu >>= _) ∧ _
  rcases Processor.read cpu with e | processor
  · exact ⟨_, s, on_bind_of_error (lift_on _), rfl, fun _ _ => rfl, nofun⟩
  rw [on_bind_of_ok (lift_on (.ok processor)), on_bind_of_ok (on_get s), hhost]
  obtain ⟨done, s₁, hon, hfiles, hkept⟩ :=
    emitTo_on (w := w) hready hp processor level target check
  show ∃ done s', _ ∧ _ = (w.object s.files source processor level check >>=
    w.placed s.files target) ∧ _
  rw [← hfiles]
  rcases done with e | ⟨⟩
  · exact ⟨_, s₁, on_bind_of_error hon, rfl, fun _ _ => hkept e rfl, nofun⟩
  · exact ⟨_, s₁, on_bind_of_ok hon, rfl, nofun, fun _ hd => by cases hd; exact ⟨_, rfl⟩⟩

end Surroundings

end Ssa.Command

/-
# `Ssa.Proofs.Session.Emission` — an object is written whole or not at all

To emit a module its text is written out and read again, a machine is made, code is generated, and the
object is put in the place of the file.  The first stages touch no file.  The last replaces the file, all
at once or not at all, and what it fails with is the failure of writing an object.

What generates the code and which step of writing fails by itself are given here; the session emits with
the generator that knows of an object only its mark, and no step of it fails by itself.

**Proved here.**

    emitting is a case of it                              (`emit_eq`)
    making an object leaves the files as they are          (`makeObject_meets`)
    what placing an object comes to                         (`placeObject_on`, `placeObject_cases`)
    an emission leaves no file half done                     (`emits_whole_or_not_at_all`)
-/
import Ssa.Proofs.Files.Commit
import Ssa.Proofs.Session.Verdict
import Ssa.Session.Emission

namespace Ssa.Session

open Effect Files

variable {s s' : Session} {m : Nat}

/-! ## The stages -/

/-- What generates the code for a text on a machine: the octets of an object, unless it refuses. -/
abbrev CodeGenerator := String → TargetMachine → Option (List UInt8)

/-- An object that was made: the name of its module, the machine that it is for, and its octets. -/
structure Object where
  name : String
  machine : TargetMachine
  octets : List UInt8

/-- Make the object of a module. -/
def makeObject (generate : CodeGenerator) (m : Nat) (host : Triple) (processor : Processor)
    (level : Level) : Act Object := do
  let text ← render m
  let r ← moduleRecord m
  let c ← contextRecord r.context
  if !r.module.isReadable c.types then throw (.notEmittable r.name)
  let machine ← makeMachine host processor level
  match generate text machine with
  | some octets => pure ⟨r.name, machine, octets⟩
  | none => throw (.notEmittable r.name)

/-- Put octets in the place of the file at a path, where a step may fail by itself. -/
def placeObject (fault : Fault) (octets : List UInt8) (p : Path) : Act Unit := do
  if p.isUnusable then throw .badValue
  let s ← get
  let (files, outcome) := s.files.replace fault p octets
  set { s with files }
  match outcome with
  | none => pure ()
  | some why => throw (.objectNotWritten p.text why.reason)

/-- Emit a module as an object, with a generator of code, where a step of writing may fail by itself. -/
def emitWith (generate : CodeGenerator) (fault : Fault) (m : Nat) (host : Triple)
    (processor : Processor) (level : Level) (p : Path) : Act Unit := do
  let object ← makeObject generate m host processor level
  placeObject fault object.octets p
  note (.emitted object.name p.text object.machine)

/-- The generator that knows of an object only the mark of its format. -/
def markOnly : CodeGenerator := fun _ machine => some machine.triple.objectFormat.mark

/-- The session emits with that generator, and no step of it fails by itself. -/
theorem emit_eq (m : Nat) (host : Triple) (processor : Processor) (level : Level) (p : Path) :
    emit m host processor level p = emitWith markOnly none m host processor level p := by
  have hdiscard : (discard (render m) : Act Unit) = render m >>= fun _ => pure () := rfl
  simp only [emit, emitReadable, emitWith, makeObject, markOnly, hdiscard, bind_assoc, pure_bind]
  refine bind_congr fun _ => bind_congr fun r => bind_congr fun c => ?_
  split
  · rfl
  · simp only [bind_assoc, pure_bind]
    rfl

/-! ## Making an object -/

/-- The files are as they were. -/
def filesKept : Keeping Session where
  holds _ := True
  grows s s' := s'.files = s.files
  refl _ := rfl
  trans h h' := h'.trans h

/-- A step leaves the files as they are. -/
abbrev KeepsFiles {α : Type} (x : Act α) (s : Session) : Prop :=
  Meets filesKept x s (fun _ _ => True) fun _ => True

theorem keepsFiles_pure {α : Type} (a : α) : KeepsFiles (pure a) s := .pure trivial trivial

theorem keepsFiles_throw {α : Type} (e : Failure) : KeepsFiles (throw e : Act α) s :=
  .throw trivial trivial

theorem keepsFiles_lift {α : Type} (x : Except Failure α) : KeepsFiles (lift x) s := by
  cases x with
  | ok a => exact keepsFiles_pure a
  | error e => exact keepsFiles_throw e

theorem keepsFiles_found {α : Type} (k : Kind) (id : Nat) (x : Option α) :
    KeepsFiles (found k id x) s := by
  cases x with
  | some a => exact keepsFiles_pure a
  | none => exact keepsFiles_throw _

theorem keepsFiles_set (h : s'.files = s.files) : KeepsFiles (set s' : Act PUnit) s :=
  ⟨trivial, h, fun _ _ _ => trivial, fun _ _ _ => trivial⟩

theorem keepsFiles_note (e : Event) : KeepsFiles (note e) s :=
  (Meets.changed trivial rfl).mono fun _ _ _ => trivial

theorem keepsFiles_modifyModule (id : Nat) (change : ModuleRecord → ModuleRecord) :
    KeepsFiles (modifyModule id change) s :=
  (Meets.changed trivial rfl).mono fun _ _ _ => trivial

theorem keepsFiles_moduleRecord (id : Nat) : KeepsFiles (moduleRecord id) s :=
  .get (keepsFiles_found ..)

theorem keepsFiles_contextRecord (id : Nat) : KeepsFiles (contextRecord id) s :=
  .get (keepsFiles_found ..)

theorem keepsFiles_liveModule (id : Nat) : KeepsFiles (liveModule id) s :=
  .next (x := require .module id) (.get (keepsFiles_lift _)) fun _ _ _ => keepsFiles_moduleRecord id

theorem keepsFiles_render (m : Nat) : KeepsFiles (render m) s :=
  .next (keepsFiles_liveModule m) fun r _ _ => .next (keepsFiles_contextRecord r.context) fun _ _ _ =>
    .next (keepsFiles_modifyModule m _) fun _ _ _ => keepsFiles_lift _

theorem keepsFiles_prepareGenerator : KeepsFiles prepareGenerator s := by
  refine .get ?_
  split
  · exact keepsFiles_pure _
  · split
    · exact keepsFiles_throw _
    · exact .next (keepsFiles_set rfl) fun _ _ _ => keepsFiles_note _

theorem keepsFiles_makeMachine (host : Triple) (processor : Processor) (level : Level) :
    KeepsFiles (makeMachine host processor level) s :=
  .next keepsFiles_prepareGenerator fun _ _ _ => .next (keepsFiles_lift _) fun machine _ _ =>
    .next (keepsFiles_note _) fun _ _ _ => keepsFiles_pure machine

/-- Making an object leaves the files as they are, whatever it fails in. -/
theorem keepsFiles_makeObject (generate : CodeGenerator) (m : Nat) (host : Triple)
    (processor : Processor) (level : Level) :
    KeepsFiles (makeObject generate m host processor level) s := by
  refine .next (keepsFiles_render m) fun text _ _ => .next (keepsFiles_moduleRecord m) fun r _ _ =>
    .next (keepsFiles_contextRecord r.context) fun c _ _ => .guarded trivial trivial ?_
  refine .next (keepsFiles_makeMachine ..) fun machine _ _ => ?_
  split
  · exact keepsFiles_pure _
  · exact keepsFiles_throw _

/-! ## Placing an object -/

/-- A step that only changes the files. -/
def withFiles (s : Session) (files : Files) : Session := { s with files }

theorem placeObject_on (fault : Fault) (octets : List UInt8) {p : Path} (hp : p.isUnusable = false)
    (s : Session) :
    (placeObject fault octets p).on s =
      (match (s.files.replace fault p octets).2 with
        | none => .ok ()
        | some why => .error (.objectNotWritten p.text why.reason),
        s.withFiles (s.files.replace fault p octets).1) := by
  rw [placeObject, hp]
  show (get >>= _ : Act Unit).on s = _
  rw [on_bind_of_ok (on_get s)]
  rcases s.files.replace fault p octets with ⟨files, outcome⟩
  rw [on_bind_of_ok (on_set s _)]
  cases outcome <;> rfl

theorem placeObject_of_isUnusable (fault : Fault) (octets : List UInt8) {p : Path}
    (hp : p.isUnusable = true) (s : Session) :
    (placeObject fault octets p).on s = (.error .badValue, s) := by
  rw [placeObject, hp]
  rfl

/-! ## Emitting -/

variable {generate : CodeGenerator} {fault : Fault} {host : Triple} {processor : Processor}
  {level : Level} {p : Path} {object : Object}

/-- What an emission comes to whose object is made and placed, or not placed. -/
theorem emitWith_of_ok (fault : Fault) (hp : p.isUnusable = false)
    (hmade : (makeObject generate m host processor level).on s = (.ok object, s')) :
    (∃ why, s'.files.replace fault p object.octets = (s'.files, some why) ∧
      (emitWith generate fault m host processor level p).on s =
        (.error (.objectNotWritten p.text why.reason), s') ∧
      (s'.files.commitFor p object.octets = .error why ∨
        ∃ c, s'.files.commitFor p object.octets = .ok c ∧ Hinders fault c s'.files why)) ∨
    ∃ at_ files, fault = none ∧ s'.files.replace fault p object.octets = (files, none) ∧
      s'.files.Replaces files p object.octets at_ ∧
      (emitWith generate fault m host processor level p).on s =
        (.ok (), (s'.withFiles files).noting (.emitted object.name p.text object.machine)) := by
  have hplace := placeObject_on fault object.octets hp s'
  rw [emitWith, on_bind_of_ok hmade]
  rcases replace_cases fault s'.files p object.octets with
    ⟨why, hreplace, hreason⟩ | ⟨at_, files, hfault, hreplace, hreplaces⟩
  · rw [hreplace] at hplace
    exact .inl ⟨why, hreplace, on_bind_of_error hplace, hreason⟩
  · rw [hreplace] at hplace
    exact .inr ⟨at_, files, hfault, hreplace, hreplaces, (on_bind_of_ok hplace).trans (note_on _ _)⟩

/-- An emission to a path that no file can have, once the object is made. -/
theorem emitWith_of_isUnusable (hp : p.isUnusable = true)
    (hmade : (makeObject generate m host processor level).on s = (.ok object, s')) :
    (emitWith generate fault m host processor level p).on s = (.error .badValue, s') := by
  rw [emitWith, on_bind_of_ok hmade]
  exact on_bind_of_error (placeObject_of_isUnusable fault object.octets hp s')

/-- How an emission is to end: by what making the object came to, by what it came to itself, and by the
session that it leaves. -/
structure WholeOrNothing (s : Session) (fault : Fault) (p : Path) (made : Except Failure Object)
    (outcome : Except Failure Unit) (s' : Session) : Prop where
  /-- Where no object is made, for want of the module's text, of a readable text, of a machine or of
  code, the emission fails for the same reason, and no file is changed. -/
  unmade : ∀ e, made = .error e → outcome = .error e ∧ s'.files = s.files
  /-- An emission that fails leaves all files as they were. -/
  failed : ∀ e, outcome = .error e → s'.files = s.files
  /-- An object that cannot be written is reported as such, with the path and the reason. -/
  reported : ∀ object e, made = .ok object → p.isUnusable = false → outcome = .error e →
    ∃ why : FileFailure, e.listing? = some ("IH0302", [("path", .text p.text), ("reason", .text why.reason)]) ∧
      (s.files.commitFor p object.octets = .error why ∨
        ∃ c, s.files.commitFor p object.octets = .ok c ∧ Hinders fault c s.files why)
  /-- If any step of writing fails by itself, the emission fails. -/
  hindered : fault ≠ none → outcome ≠ .ok ()
  /-- An emission that succeeds puts the whole object at the path and changes nothing else. -/
  placed : outcome = .ok () → ∃ object at_, made = .ok object ∧
    s.files.Replaces s'.files p object.octets at_
  /-- At every moment the file at the path, and all else, is as it was; or the emission succeeds, and all
  is as it leaves it. -/
  meanwhile : ∀ object x, made = .ok object → p.isUnusable = false →
    s.files.Seen fault p object.octets x → s.files.Shows x p ∨ outcome = .ok () ∧ x = s'.files

/-- An emission leaves no file half done: whichever generator of code it is made with, whatever files
there are, and whichever step of writing fails, the object is written whole or no file is changed, and at
no moment is there anything else at the path.  The emission of a session is of this kind. -/
theorem emits_whole_or_not_at_all (generate : CodeGenerator) (fault : Fault) (s : Session) (m : Nat)
    (host : Triple) (processor : Processor) (level : Level) (p : Path) :
    WholeOrNothing s fault p ((makeObject generate m host processor level).on s).1
        ((emitWith generate fault m host processor level p).on s).1
        ((emitWith generate fault m host processor level p).on s).2 ∧
      emit m host processor level p = emitWith markOnly none m host processor level p := by
  refine ⟨?_, emit_eq ..⟩
  have hkept := (keepsFiles_makeObject (s := s) generate m host processor level).grows
  rcases hmade : (makeObject generate m host processor level).on s with ⟨e | object, s₁⟩
  all_goals
    rw [hmade] at hkept
    have hkept : s₁.files = s.files := hkept
  · rw [show (emitWith generate fault m host processor level p).on s = (.error e, s₁) from
      on_bind_of_error hmade]
    exact {
      unmade := fun e' h => by cases h; exact ⟨rfl, hkept⟩
      failed := fun _ _ => hkept
      reported := fun _ _ h => by cases h
      hindered := fun _ h => by cases h
      placed := fun h => by cases h
      meanwhile := fun _ _ h => by cases h }
  cases hp : p.isUnusable with
  | true =>
      rw [emitWith_of_isUnusable hp hmade]
      exact {
        unmade := fun _ h => by cases h
        failed := fun _ _ => hkept
        reported := fun _ _ _ h => absurd (hp.symm.trans h) nofun
        hindered := fun _ h => by cases h
        placed := fun h => by cases h
        meanwhile := fun _ _ _ h => absurd (hp.symm.trans h) nofun }
  | false =>
      rcases emitWith_of_ok fault hp hmade with
        ⟨why, hreplace, hon, hreason⟩ | ⟨at_, files, hfault, hreplace, hreplaces, hon⟩
      all_goals
        rw [hon]
        rw [hkept] at hreplace
      · exact {
          unmade := fun _ h => by cases h
          failed := fun _ _ => hkept
          reported := fun object' e' h _ he => by
            cases h
            cases he
            exact ⟨why, rfl, hkept ▸ hreason⟩
          hindered := fun _ h => by cases h
          placed := fun h => by cases h
          meanwhile := fun object' x h _ hx => by
            cases h
            rcases seen_cases hx with hshows | hgoes
            · exact .inl hshows
            · rw [hreplace] at hgoes
              cases hgoes }
      · exact {
          unmade := fun _ h => by cases h
          failed := fun _ h => by cases h
          reported := fun _ _ _ _ h => by cases h
          hindered := fun h => absurd hfault h
          placed := fun _ => ⟨object, at_, rfl, hkept ▸ hreplaces⟩
          meanwhile := fun object' x h _ hx => by
            cases h
            rcases seen_cases hx with hshows | hgoes
            · exact .inl hshows
            · rw [hreplace] at hgoes
              cases hgoes
              exact .inr ⟨rfl, rfl⟩ }

end Ssa.Session

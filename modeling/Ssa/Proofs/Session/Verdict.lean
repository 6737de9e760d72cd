/-
# `Ssa.Proofs.Session.Verdict` — four questions about a module, and one verdict

Checking a module, asking whether it is valid, and making an engine of either kind all write the module
out, read it back and check it, but each sees to failures in its own way.  What they answer is decided
by one verdict: what writing, and then checking, comes to.

How a module is checked that was written out is of no concern here: any judge will do that fails only as
a check does, and to whom it is all one which lines are fixed.  Whatever reads a text and passes judgement
on what it has read is one (`Judge.ofTexts`), and so is the check of the session (`Judge.own`).

The four agree as long as the module has a text.  A module without one is answered by all four with the
failure of writing, which is not that of a check: then whether the module is valid is not answered by
yes or no, and the failures of making engines are not the ones that are reported for modules that do
not pass.

**Proved here.**

    the session asks its own judge                           (`asks_own`)
    each of the four, by the verdict                         (`verifyBy_on`, `isValidBy_on`,
                                                             `createInterpreterBy_on`, `createCompiledBy_on`)
    by any judge, the four agree  ⟺  the module has a text    (`agrees_iff_isWritable`)
    a module that is made in three steps has none              (`not_agrees`)
-/
import Ssa.Proofs.Program.Writable
import Ssa.Proofs.Session.Disposal
import Ssa.Proofs.Validity.Judged

namespace Ssa

/-! ## Judges -/

/-- What decides whether a module passes that was written out.  It fails only as a check does, and it is
all one to it which lines are fixed. -/
structure Judge where
  check : TypeTable → Module → Except Failure Unit
  isVerification : ∀ {types : TypeTable} {m : Module} {f : Failure},
    check types m = .error f → f.isVerification = true
  settled : ∀ (types : TypeTable) (m : Module), check types (m.render types).2 = check types m

namespace Judge

/-- The check of the session. -/
def own : Judge where
  check types m := m.check types
  isVerification := Module.check_error
  settled types m := (Module.render_alike types m).check_eq types

/-- What reads a text under the name of the module, if it can be read, and passes judgement on what was
read. -/
def ofTexts {α : Type} (parse : String → String → Option α) (verify : α → Bool) : Judge where
  check types m := match m.text types with
    | .error _ => .ok ()
    | .ok text => match parse m.name text with
      | none => .error (.unreadable m.name)
      | some a => if verify a then .ok () else .error (.unverified m.name)
  isVerification h := by
    split at h
    · cases h
    · split at h
      · cases h
        rfl
      · split at h
        · cases h
        · cases h
          rfl
  settled types m := by
    rw [(Module.render_alike types m).text_eq, (Module.render_alike types m).name]

variable {types : TypeTable} {m : Module}

/-- What writing a module, and then judging it, comes to. -/
def verdict (j : Judge) (types : TypeTable) (m : Module) : Except Failure Unit := do
  discard (m.text types)
  j.check types m

/-- A verdict is a failure of writing, or of the check, or none. -/
theorem verdict_cases (j : Judge) (types : TypeTable) (m : Module) :
    (∃ f, j.verdict types m = .error f ∧ f.isUnwritable = true ∧ m.isWritable = false) ∨
      (m.isWritable = true ∧ ∃ f, j.verdict types m = .error f ∧ f.isVerification = true) ∨
        (m.isWritable = true ∧ j.verdict types m = .ok ()) := by
  have hwrites := m.text_writes types
  unfold verdict
  cases htext : m.text types with
  | error f =>
      obtain ⟨hf, hnot⟩ := hwrites.error f htext
      exact .inl ⟨f, rfl, hf, by simpa using hnot⟩
  | ok text =>
      have hwritable := hwrites.ok text htext
      cases hcheck : j.check types m with
      | error f => exact .inr (.inl ⟨hwritable, f, rfl, j.isVerification hcheck⟩)
      | ok u => exact .inr (.inr ⟨hwritable, rfl⟩)

/-- A module that passes has a text. -/
theorem text_of_verdict {j : Judge} {u : Unit} (h : j.verdict types m = .ok u) :
    ∃ text, m.text types = .ok text := by
  obtain ⟨_, hdiscard, _⟩ := ok_of_bind h
  obtain ⟨text, htext, _⟩ := ok_of_map hdiscard
  exact ⟨text, htext⟩

/-- A verdict is never that there is no target. -/
theorem verdict_ne_noTarget (j : Judge) (cpu triple : String) :
    j.verdict types m ≠ .error (.noTarget cpu triple) := by
  rcases j.verdict_cases types m with ⟨f, h, hf, -⟩ | ⟨-, f, h, hf⟩ | ⟨-, h⟩ <;> rw [h] <;> rintro ⟨⟩
  · cases hf
  · cases hf

end Judge

namespace Session

variable {s : Session} {m : Nat} {r : ModuleRecord} {c : ContextRecord}

/-! ## Asking a judge -/

/-- Check a module by a judge. -/
def verifyBy (j : Judge) (m : Nat) : Act Unit := do
  discard (render m)
  let r ← moduleRecord m
  let c ← contextRecord r.context
  lift (j.check c.types r.module)

/-- Whether a module passes by a judge. -/
def isValidBy (j : Judge) (m : Nat) : Act Bool := do
  try
    verifyBy j m
    pure true
  catch f =>
    if f.isVerification then pure false else throw f

/-- Make an engine that interprets a module that passes by a judge. -/
def createInterpreterBy (j : Judge) (m : Nat) : Act Nat := do
  prepareGenerator
  let name := ((← get).module? m).elim "" ModuleRecord.name
  reporting (.notInterpretable name) (verifyBy j m)
  let id ← enterEngine m .interpreter
  note (.interpreterBound id name)
  pure id

/-- Make an engine that runs the compiled code of a module that passes by a judge. -/
def createCompiledBy (j : Judge) (m : Nat) (level : Level) : Act Nat := do
  prepareGenerator
  let name := ((← get).module? m).elim "" ModuleRecord.name
  reporting (.notCompilable name) do
    verifyBy j m
    discard (makeMachine (← get).host .native level)
  note (.codeReady name level)
  let r ← moduleRecord m
  let types := (← contextRecord r.context).types
  let id ← enterEngine m (.compiled types r.module.snapshot)
  note (.compiledBound id name)
  pure id

/-- The session asks its own judge. -/
theorem asks_own : verify = verifyBy .own ∧ isValid = isValidBy .own ∧
    createInterpreter = createInterpreterBy .own ∧ createCompiled = createCompiledBy .own :=
  ⟨rfl, rfl, rfl, rfl⟩

/-! ## Writing and checking -/

/-- A session in which the lines of a module are fixed as writing it fixes them. -/
def written (s : Session) (m : Nat) (types : TypeTable) : Session :=
  s.changeModule m fun r => { r with module := (r.module.render types).2 }

theorem lift_on {α : Type} (x : Except Failure α) : (lift x).on s = (x, s) := by
  cases x <;> rfl

theorem require_on (k : Kind) (id : Nat) : (require k id).on s = (s.registry.get id k.word, s) := by
  rw [require, Effect.on_bind_of_ok (Effect.on_get s), lift_on]

/-- A session in which something more was noted down. -/
def noting (s : Session) (e : Event) : Session := { s with log := s.log ++ [e] }

theorem note_on (s : Session) (e : Event) : (note e).on s = (.ok (), s.noting e) := rfl

theorem module?_written (hr : s.module? m = some r) (types : TypeTable) :
    (s.written m types).module? m = some { r with module := (r.module.render types).2 } :=
  module?_changeModule_of_id (fun _ => rfl) hr

/-- What writing a live module comes to. -/
theorem render_on (hs : s.IsSound) (hr : s.module? m = some r) (hlive : s.isLive m = true)
    (hc : s.context? r.context = some c) :
    (render m).on s = (r.module.text c.types, s.written m c.types) := by
  have hsame : s.changeModule m (fun r' => { r' with module := (r.module.render c.types).2 }) =
      s.written m c.types := hs.changeModule_congr hr rfl
  have hwritten : (modifyModule m fun r' => { r' with module := (r.module.render c.types).2 }).on s =
      (.ok (), s.written m c.types) := congrArg (Prod.mk _) hsame
  rw [render, Effect.on_bind_of_ok (hs.liveModule_on hr hlive), Effect.on_bind_of_ok (contextRecord_on hc)]
  exact (Effect.on_bind_of_ok hwritten).trans (lift_on _)

/-- What checking a live module comes to. -/
theorem verifyBy_on (j : Judge) (hs : s.IsSound) (hr : s.module? m = some r) (hlive : s.isLive m = true)
    (hc : s.context? r.context = some c) :
    (verifyBy j m).on s = (j.verdict c.types r.module, s.written m c.types) := by
  have hrender := render_on hs hr hlive hc
  rw [verifyBy, Judge.verdict]
  cases htext : r.module.text c.types with
  | error f =>
      rw [htext] at hrender
      exact Effect.on_bind_of_error (Effect.on_bind_of_error hrender)
  | ok text =>
      rw [htext] at hrender
      have hdiscard : (discard (render m)).on s = (.ok (), s.written m c.types) :=
        Effect.on_bind_of_ok hrender
      rw [Effect.on_bind_of_ok hdiscard, Effect.on_bind_of_ok (moduleRecord_on (module?_written hr _)),
        Effect.on_bind_of_ok (contextRecord_on (s := s.written m c.types) hc), lift_on,
        j.settled c.types r.module]
      rfl

/-- What the answer to the question is whether a live module is valid. -/
theorem isValidBy_on (j : Judge) (hs : s.IsSound) (hr : s.module? m = some r)
    (hlive : s.isLive m = true) (hc : s.context? r.context = some c) :
    (isValidBy j m).on s =
      (match j.verdict c.types r.module with
        | .ok () => .ok true
        | .error f => if f.isVerification then .ok false else .error f,
        s.written m c.types) := by
  have hverify := verifyBy_on j hs hr hlive hc
  cases hverdict : j.verdict c.types r.module with
  | ok u =>
      rw [hverdict] at hverify
      have hstep : (do verifyBy j m; pure true : Act Bool).on s = (.ok true, s.written m c.types) :=
        Effect.on_bind_of_ok hverify
      rw [isValidBy, Effect.on_tryCatch, hstep]
  | error f =>
      rw [hverdict] at hverify
      have hstep : (do verifyBy j m; pure true : Act Bool).on s = (.error f, s.written m c.types) :=
        Effect.on_bind_of_error hverify
      rw [isValidBy, Effect.on_tryCatch, hstep]
      dsimp only
      split <;> rfl

/-! ## Making engines -/

/-- Whether the code generator is set up, or can be. -/
def CanGenerate (s : Session) : Prop := s.generator.ready = true ∨ s.generator.fault = none

theorem prepareGenerator_of_canGenerate (h : s.CanGenerate) :
    prepareGenerator.on s = (.ok (), s.prepared) := by
  rcases h with h | h
  · rw [prepareGenerator, Effect.on_bind_of_ok (Effect.on_get s), prepared, if_pos h, if_pos h]
    rfl
  · exact prepareGenerator_on h

theorem prepared_isSound (hs : s.IsSound) (h : s.CanGenerate) : s.prepared.IsSound :=
  isSound_of_goes (prepareGenerator_goes hs) (prepareGenerator_of_canGenerate h)

theorem module?_prepared (m : Nat) : s.prepared.module? m = s.module? m := by
  rw [module?, modules_prepared, module?]

theorem name_prepared (hr : s.module? m = some r) :
    (s.prepared.module? m).elim "" ModuleRecord.name = r.name := by
  rw [module?_prepared, hr]
  rfl

theorem context?_prepared (id : Nat) : s.prepared.context? id = s.context? id := by
  rw [context?, contexts_prepared, context?]

theorem ready_prepared (s : Session) : s.prepared.generator.ready = true := by
  unfold prepared
  split
  · assumption
  · rfl

/-- What is reported for a failure when an engine is to be made. -/
def reported (report f : Failure) : Failure := if f.isVerification then report else f

/-- What a step comes to whose failures are reported in a given way, unless there is no target. -/
theorem reporting_on {α : Type} (report : Failure) {step : Act α} {x : Except Failure α} {s' : Session}
    (h : step.on s = (x, s')) (htarget : ∀ cpu triple, x ≠ .error (.noTarget cpu triple)) :
    (reporting report step).on s = (x.mapError (reported report), s') := by
  rw [reporting, Effect.on_tryCatch, h]
  cases x with
  | ok a => rfl
  | error f =>
      dsimp only
      split
      · exact absurd rfl (htarget _ _)
      · rfl

/-- A session in which an engine that interprets a module was made. -/
def interpreting (s : Session) (m : Nat) (name : String) : Session :=
  (s.addEngine m .interpreter).noting (.interpreterBound s.registry.next name)

/-- What making an engine that interprets a live module comes to. -/
theorem createInterpreterBy_on (j : Judge) (hs : s.IsSound) (hgenerator : s.CanGenerate)
    (hr : s.module? m = some r) (hlive : s.isLive m = true) (hc : s.context? r.context = some c) :
    (createInterpreterBy j m).on s =
      match j.verdict c.types r.module with
      | .ok () =>
        (.ok s.registry.next, (s.prepared.written m c.types).interpreting m r.name)
      | .error f => (.error (reported (.notInterpretable r.name) f), s.prepared.written m c.types) := by
  have hverify := verifyBy_on j (prepared_isSound hs hgenerator) ((module?_prepared m).trans hr)
    (isLive_prepared.trans hlive) ((context?_prepared r.context).trans hc)
  have hreport := reporting_on (.notInterpretable r.name) hverify fun _ _ => j.verdict_ne_noTarget _ _
  rw [createInterpreterBy, Effect.on_bind_of_ok (prepareGenerator_of_canGenerate hgenerator),
    Effect.on_bind_of_ok (Effect.on_get _), name_prepared hr]
  cases hverdict : j.verdict c.types r.module with
  | ok u =>
      rw [hverdict] at hreport
      refine (Effect.on_bind_of_ok hreport).trans ?_
      rw [← registry_prepared s]
      rfl
  | error f =>
      rw [hverdict] at hreport
      exact Effect.on_bind_of_error hreport

/-- A session in which an engine that runs compiled code was made. -/
def compiling (s : Session) (m : Nat) (name : String) (machine : TargetMachine) (level : Level)
    (backend : Backend) : Session :=
  (((s.noting (.machineMade machine)).noting (.codeReady name level)).addEngine m backend).noting
    (.compiledBound s.registry.next name)

/-- There is no other reason for want of a machine than that there is no target. -/
theorem make_error {host : Triple} {p : Processor} {l : Level} {f : Failure}
    (h : TargetMachine.make host p l = .error f) : ∃ cpu triple, f = .noTarget cpu triple := by
  unfold TargetMachine.make at h
  dsimp only at h
  split at h
  · cases h
  · cases h
    exact ⟨_, _, rfl⟩

theorem makeMachine_on (hready : s.generator.ready = true) (host : Triple) (p : Processor) (l : Level) :
    (makeMachine host p l).on s =
      match TargetMachine.make host p l with
      | .ok machine => (.ok machine, s.noting (.machineMade machine))
      | .error f => (.error f, s) := by
  have hprepared : s.prepared = s := if_pos hready
  rw [makeMachine, Effect.on_bind_of_ok (prepareGenerator_of_canGenerate (.inl hready)), hprepared]
  cases TargetMachine.make host p l <;> rfl

/-- What checking a live module and making a machine for its code comes to. -/
theorem verifyBy_makeMachine_on (j : Judge) (hs : s.IsSound) (hgenerator : s.CanGenerate)
    (hr : s.module? m = some r) (hlive : s.isLive m = true) (hc : s.context? r.context = some c)
    (level : Level) :
    (do verifyBy j m; discard (makeMachine (← get).host .native level) : Act Unit).on s.prepared =
      match j.verdict c.types r.module, TargetMachine.make s.host .native level with
      | .ok (), .ok machine => (.ok (), (s.prepared.written m c.types).noting (.machineMade machine))
      | .ok (), .error f => (.error f, s.prepared.written m c.types)
      | .error f, _ => (.error f, s.prepared.written m c.types) := by
  have hverify := verifyBy_on j (prepared_isSound hs hgenerator) ((module?_prepared m).trans hr)
    (isLive_prepared.trans hlive) ((context?_prepared r.context).trans hc)
  have hmachine := makeMachine_on (s := s.prepared.written m c.types) (ready_prepared s) s.host .native level
  have hhost : (s.prepared.written m c.types).host = s.host := by
    show s.prepared.host = s.host
    rw [prepared_eq]
  cases hverdict : j.verdict c.types r.module with
  | error f =>
      rw [hverdict] at hverify
      exact Effect.on_bind_of_error hverify
  | ok u =>
      rw [hverdict] at hverify
      rw [Effect.on_bind_of_ok hverify, Effect.on_bind_of_ok (Effect.on_get _), hhost]
      cases hmake : TargetMachine.make s.host .native level with
      | error f =>
          rw [hmake] at hmachine
          exact Effect.on_bind_of_error hmachine
      | ok machine =>
          rw [hmake] at hmachine
          exact Effect.on_bind_of_ok hmachine

/-- What making an engine that runs the compiled code of a live module comes to. -/
theorem createCompiledBy_on (j : Judge) (hs : s.IsSound) (hgenerator : s.CanGenerate)
    (hr : s.module? m = some r) (hlive : s.isLive m = true) (hc : s.context? r.context = some c)
    (level : Level) :
    (createCompiledBy j m level).on s =
      match j.verdict c.types r.module, TargetMachine.make s.host .native level with
      | .ok (), .ok machine =>
        (.ok s.registry.next, (s.prepared.written m c.types).compiling m r.name machine level
          (.compiled c.types (r.module.render c.types).2.snapshot))
      | .ok (), .error _ => (.error (.notCompilable r.name), s.prepared.written m c.types)
      | .error f, _ => (.error (reported (.notCompilable r.name) f), s.prepared.written m c.types) := by
  have hstep := verifyBy_makeMachine_on j hs hgenerator hr hlive hc level
  rw [createCompiledBy, Effect.on_bind_of_ok (prepareGenerator_of_canGenerate hgenerator),
    Effect.on_bind_of_ok (Effect.on_get _), name_prepared hr]
  cases hverdict : j.verdict c.types r.module with
  | error f =>
      rw [hverdict] at hstep
      exact Effect.on_bind_of_error
        (reporting_on _ hstep fun _ _ h => j.verdict_ne_noTarget _ _ (hverdict.trans h))
  | ok u =>
      rw [hverdict] at hstep
      cases hmake : TargetMachine.make s.host .native level with
      | error f =>
          obtain ⟨cpu, triple, rfl⟩ := make_error hmake
          rw [hmake] at hstep
          refine Effect.on_bind_of_error ?_
          rw [reporting, Effect.on_tryCatch, hstep]
          rfl
      | ok machine =>
          rw [hmake] at hstep
          have hreport := reporting_on (.notCompilable r.name) hstep fun _ _ h => by cases h
          have hrecord : (((s.prepared.written m c.types).noting (.machineMade machine)).noting
                (.codeReady r.name level)).module? m =
              some { r with module := (r.module.render c.types).2 } :=
            module?_written ((module?_prepared m).trans hr) c.types
          have hcontext : (((s.prepared.written m c.types).noting (.machineMade machine)).noting
              (.codeReady r.name level)).context? r.context = some c :=
            (context?_prepared r.context).trans hc
          refine (Effect.on_bind_of_ok hreport).trans ?_
          rw [Effect.on_bind_of_ok (note_on _ _), Effect.on_bind_of_ok (moduleRecord_on hrecord),
            Effect.on_bind_of_ok (contextRecord_on hcontext), ← registry_prepared s]
          rfl

/-! ## Agreement -/

/-- The four questions about a module agree, by a judge: the first is answered, with yes exactly if the
check is passed; if with no, then the check reports that, and each engine is refused in its own way; if
with yes, then an interpreter is made. -/
structure Agrees (s : Session) (j : Judge) (m : Nat) : Prop where
  answered : ∃ b, ((isValidBy j m).on s).1 = .ok b
  valid_iff : ((isValidBy j m).on s).1 = .ok true ↔ ((verifyBy j m).on s).1 = .ok ()
  unverified : ((isValidBy j m).on s).1 = .ok false →
    ∃ f, ((verifyBy j m).on s).1 = .error f ∧ f.isVerification = true
  notInterpretable : ((isValidBy j m).on s).1 = .ok false →
    ∀ r, s.module? m = some r → ((createInterpreterBy j m).on s).1 = .error (.notInterpretable r.name)
  notCompilable : ((isValidBy j m).on s).1 = .ok false →
    ∀ r level, s.module? m = some r → ((createCompiledBy j m level).on s).1 = .error (.notCompilable r.name)
  interpretable : ((isValidBy j m).on s).1 = .ok true → ∃ id, ((createInterpreterBy j m).on s).1 = .ok id
  compilable : ((isValidBy j m).on s).1 = .ok true → ∀ r level, s.module? m = some r →
    (∃ id, ((createCompiledBy j m level).on s).1 = .ok id) ∨
      ((createCompiledBy j m level).on s).1 = .error (.notCompilable r.name)

/-- All four questions about a module are answered with one failure, by a judge. -/
structure AllFail (s : Session) (j : Judge) (m : Nat) (f : Failure) : Prop where
  verify : ((verifyBy j m).on s).1 = .error f
  isValid : ((isValidBy j m).on s).1 = .error f
  createInterpreter : ((createInterpreterBy j m).on s).1 = .error f
  createCompiled : ∀ level, ((createCompiledBy j m level).on s).1 = .error f

/-- A module with a text is judged alike by all four. -/
theorem agrees_of_isWritable (j : Judge) (hs : s.IsSound) (hgenerator : s.CanGenerate)
    (hr : s.module? m = some r) (hlive : s.isLive m = true) (hc : s.context? r.context = some c)
    (hwritable : r.module.isWritable = true) : s.Agrees j m := by
  have hverify := congrArg Prod.fst (verifyBy_on j hs hr hlive hc)
  have hvalid := congrArg Prod.fst (isValidBy_on j hs hr hlive hc)
  have hinterpreter := congrArg Prod.fst (createInterpreterBy_on j hs hgenerator hr hlive hc)
  have hcompiled (level : Level) := congrArg Prod.fst (createCompiledBy_on j hs hgenerator hr hlive hc level)
  rcases j.verdict_cases c.types r.module with ⟨f, -, -, hnot⟩ | ⟨-, f, hf, hcheck⟩ | ⟨-, hok⟩
  · rw [hwritable] at hnot
    cases hnot
  · rw [hf] at hverify hinterpreter hcompiled
    rw [hf] at hvalid
    have hanswer : ((isValidBy j m).on s).1 = .ok false := hvalid.trans (if_pos hcheck)
    have hreport (report : Failure) : reported report f = report := if_pos hcheck
    have hnot : ((isValidBy j m).on s).1 ≠ .ok true := fun h => nomatch hanswer.symm.trans h
    constructor
    case answered => exact ⟨false, hanswer⟩
    case valid_iff => exact ⟨fun h => (hnot h).elim, fun h => nomatch hverify.symm.trans h⟩
    case unverified => exact fun _ => ⟨f, hverify, hcheck⟩
    case notInterpretable =>
      intro _ r' hr'
      cases hr.symm.trans hr'
      exact hinterpreter.trans (congrArg Except.error (hreport _))
    case notCompilable =>
      intro _ r' level hr'
      cases hr.symm.trans hr'
      exact (hcompiled level).trans (congrArg Except.error (hreport _))
    case interpretable => exact fun h => (hnot h).elim
    case compilable => exact fun h => (hnot h).elim
  · rw [hok] at hverify hvalid hinterpreter hcompiled
    have hnot : ((isValidBy j m).on s).1 ≠ .ok false := fun h => nomatch hvalid.symm.trans h
    refine ⟨⟨true, hvalid⟩, ⟨fun _ => hverify, fun _ => hvalid⟩, fun h => (hnot h).elim,
      fun h => (hnot h).elim, fun h => (hnot h).elim, fun _ => ⟨_, hinterpreter⟩,
      fun _ r' level hr' => ?_⟩
    cases hr.symm.trans hr'
    have hmade := hcompiled level
    cases hmake : TargetMachine.make s.host .native level with
    | ok machine =>
        rw [hmake] at hmade
        exact .inl ⟨_, hmade⟩
    | error f =>
        rw [hmake] at hmade
        exact .inr hmade

/-- A module without a text is answered by all four with the failure of writing. -/
theorem allFail_of_not_isWritable (j : Judge) (hs : s.IsSound) (hgenerator : s.CanGenerate)
    (hr : s.module? m = some r) (hlive : s.isLive m = true) (hc : s.context? r.context = some c)
    (hnot : r.module.isWritable = false) : ∃ f, f.isUnwritable = true ∧ s.AllFail j m f := by
  rcases j.verdict_cases c.types r.module with ⟨f, hf, hwriting, -⟩ | ⟨hwritable, -⟩ | ⟨hwritable, -⟩
  · have hreport (report : Failure) : reported report f = f :=
      if_neg (by rw [Failure.not_isVerification hwriting]; decide)
    refine ⟨f, hwriting, ?_, ?_, ?_, fun level => ?_⟩
    · rw [verifyBy_on j hs hr hlive hc, hf]
    · rw [isValidBy_on j hs hr hlive hc, hf]
      simp [Failure.not_isVerification hwriting]
    · rw [createInterpreterBy_on j hs hgenerator hr hlive hc, hf]
      exact congrArg Except.error (hreport _)
    · rw [createCompiledBy_on j hs hgenerator hr hlive hc, hf]
      exact congrArg Except.error (hreport _)
  · rw [hwritable] at hnot
    cases hnot
  · rw [hwritable] at hnot
    cases hnot

/-- After any history the four questions about a live module agree exactly if it has a text, and
otherwise they are all answered with one failure, which is not that of a check.  So it is by any judge,
and the session asks its own. -/
theorem agrees_iff_isWritable (j : Judge) {s₀ : Session} (h₀ : s₀.IsInitial) (history : List Request)
    (hgenerator : (s₀.after history).CanGenerate) (hr : (s₀.after history).module? m = some r)
    (hlive : (s₀.after history).isLive m = true) :
    ((s₀.after history).Agrees j m ↔ r.module.isWritable = true) ∧
      (r.module.isWritable = false →
        ∃ f, f.isVerification = false ∧ f.isUnwritable = true ∧ (s₀.after history).AllFail j m f) ∧
      verify = verifyBy .own ∧ isValid = isValidBy .own ∧
        createInterpreter = createInterpreterBy .own ∧ createCompiled = createCompiledBy .own := by
  have hs := after_isSound h₀.isSound history
  obtain ⟨c, hc⟩ := hs.context_of_mem (hs.homed r (hs.module?_iff.mp hr).1)
  have hfail := allFail_of_not_isWritable j hs hgenerator hr hlive hc
  refine ⟨⟨fun hagrees => ?_, agrees_of_isWritable j hs hgenerator hr hlive hc⟩, fun hnot => ?_, asks_own⟩
  · -- without a text, whether the module is valid would have no answer
    by_contra hnot
    obtain ⟨f, -, hall⟩ := hfail (by simpa using hnot)
    obtain ⟨b, hb⟩ := hagrees.answered
    nomatch hb.symm.trans hall.isValid
  · obtain ⟨f, hf, hall⟩ := hfail hnot
    exact ⟨f, Failure.not_isVerification hf, hf, hall⟩

/-- What makes a module with one global variable, and gives the variable an initializer. -/
def initializing (value : Constant) : List Request :=
  [.createModule "m" none, .addGlobal 2 "g" (.int 32), .setInitializer 2 ⟨2, 0⟩ value]

/-- A variable with an initializer of its own type has a text, so all four agree on its module. -/
theorem agrees_initialized :
    ((fresh .fresh).after (initializing (.int (.int 32) 5))).Agrees .own 2 := by
  obtain ⟨r, hr⟩ : ∃ r, ((fresh .fresh).after (initializing (.int (.int 32) 5))).module? 2 = some r :=
    Option.isSome_iff_exists.mp (by decide +kernel)
  have hwritable : r.module.isWritable = true := by
    have : (((fresh .fresh).after (initializing (.int (.int 32) 5))).module? 2).map
        (·.module.isWritable) = some true := by decide +kernel
    simpa [hr] using this
  exact (agrees_iff_isWritable .own (fresh_isInitial .fresh) _ (.inr (by decide +kernel)) hr
    (by decide +kernel)).1.mpr hwritable

/-- An initializer of another type is accepted, and then there is no answer to whether the module is
valid. -/
theorem not_agrees :
    ((fresh .fresh).after (initializing (.int (.int 64) 5))).isLive 2 = true ∧
      ((isValid 2).on ((fresh .fresh).after (initializing (.int (.int 64) 5)))).1 =
        .error .typeMismatch ∧
      ¬ ((fresh .fresh).after (initializing (.int (.int 64) 5))).Agrees .own 2 := by
  have hraises : ((isValid 2).on ((fresh .fresh).after (initializing (.int (.int 64) 5)))).1 =
      .error .typeMismatch := Effect.eq_error_of_failure? (by decide +kernel)
  refine ⟨by decide +kernel, hraises, fun hagrees => ?_⟩
  obtain ⟨b, hb⟩ := hagrees.answered
  nomatch hb.symm.trans hraises

end Session

end Ssa

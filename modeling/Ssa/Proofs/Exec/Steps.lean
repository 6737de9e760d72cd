/-
# `Ssa.Proofs.Exec.Steps` — what a step of the machine can do

A step of the machine ends in one of the ways listed by `Stepped`, guards included.  Invariants of
runs and the comparison of the machine with other evaluators split a step by this list and do not
open the machine again.
-/
import Ssa.Proofs.Exec.Outcome

namespace Ssa.Machine

variable {rules : Rules} {p : Program}

/-! ## From block to block, and into a function -/

theorem on_jump (fr : Frame) (source : Option Nat) (target : Nat) (mem : Memory) :
    (jump rules p fr source target).on mem =
      match ((fr.function.leadingPhis target).mapM
        (phiValue rules p fr.function fr.env source)).on mem with
      | (.ok vs, mem₁) =>
        (.ok { fr with
          env := fr.env.bindAll vs
          block := target
          pc := (fr.function.leadingPhis target).length }, mem₁)
      | (.error e, mem₁) => (.error e, mem₁) := by
  rw [jump, Effect.on_bind]
  rcases ((fr.function.leadingPhis target).mapM
    (phiValue rules p fr.function fr.env source)).on mem with ⟨_ | _, _⟩ <;> rfl

/-- A jump that succeeds leads to the same frame, at the block and after its phis. -/
theorem eq_of_jump {fr next : Frame} {source : Option Nat} {target : Nat} {mem mem' : Memory}
    (h : (jump rules p fr source target).on mem = (.ok next, mem')) :
    ∃ env, next =
      { fr with env, block := target, pc := (fr.function.leadingPhis target).length } := by
  rw [on_jump] at h
  split at h <;> cases h
  exact ⟨_, rfl⟩

theorem on_enter (f : Function) (args : List Value) (mem : Memory) :
    (enter rules p f args).on mem =
      if f.isDeclaration then (.error (.noBody f.name), mem)
      else match bindParams f.params args 0 with
        | .ok env => (jump rules p ⟨f, env, 0, 0, none⟩ none 0).on mem
        | .error e => (.error e, mem) := by
  rw [enter]
  by_cases h : f.isDeclaration
  · simp [h]
  · simp only [h, Bool.false_eq_true, ↓reduceIte, Effect.on_bind, Exec.on_lift]
    cases bindParams f.params args 0 <;> rfl

/-! ## Steps -/

/-- `Stepped rules p fr waiting mem r mem'`: a step of the frame `fr`, for which `waiting` wait, on
the memory `mem` comes to `r` and leaves `mem'`. -/
inductive Stepped (rules : Rules) (p : Program) (fr : Frame) (waiting : List Frame)
    (mem : Memory) : Except Failure State → Memory → Prop
  /-- The block has ended. -/
  | ended :
      fr.current? = none →
      Stepped rules p fr waiting mem
        (.error (.noTerminator (fr.function.blockName fr.block) fr.function.name)) mem
  | failed {i : Instr} {e : Failure} {mem' : Memory} :
      fr.current? = some i →
      (rules.perform p fr.function fr.env i).on mem = (.error e, mem') →
      Stepped rules p fr waiting mem (.error e) mem'
  | bound {i : Instr} {v : Value} {mem' : Memory} :
      fr.current? = some i →
      (rules.perform p fr.function fr.env i).on mem = (.ok (.value v), mem') →
      Stepped rules p fr waiting mem (.ok (.running (fr.advance i.id v) waiting)) mem'
  | left {i : Instr} {v : Value} {mem' : Memory} :
      fr.current? = some i →
      (rules.perform p fr.function fr.env i).on mem = (.ok (.ret v), mem') →
      Stepped rules p fr waiting mem (.ok (leave v waiting)) mem'
  /-- A phi of the block to go on at has no value. -/
  | strayed {i : Instr} {t : Nat} {e : Failure} {mem₁ mem' : Memory} :
      fr.current? = some i →
      (rules.perform p fr.function fr.env i).on mem = (.ok (.goto t), mem₁) →
      (jump rules p fr (some fr.block) t).on mem₁ = (.error e, mem') →
      Stepped rules p fr waiting mem (.error e) mem'
  | jumped {i : Instr} {t : Nat} {next : Frame} {mem₁ mem' : Memory} :
      fr.current? = some i →
      (rules.perform p fr.function fr.env i).on mem = (.ok (.goto t), mem₁) →
      (jump rules p fr (some fr.block) t).on mem₁ = (.ok next, mem') →
      Stepped rules p fr waiting mem (.ok (.running next waiting)) mem'
  /-- There is no function to call. -/
  | missed {i : Instr} {c : Nat} {args : List Value} {mem' : Memory} :
      fr.current? = some i →
      (rules.perform p fr.function fr.env i).on mem = (.ok (.call c args), mem') →
      p.module.function? c = none →
      Stepped rules p fr waiting mem (.error (.unsupported .indirectCall "")) mem'
  /-- The function that is called cannot be entered. -/
  | barred {i : Instr} {c : Nat} {g : Function} {args : List Value} {e : Failure}
      {mem₁ mem' : Memory} :
      fr.current? = some i →
      (rules.perform p fr.function fr.env i).on mem = (.ok (.call c args), mem₁) →
      p.module.function? c = some g → (enter rules p g args).on mem₁ = (.error e, mem') →
      Stepped rules p fr waiting mem (.error e) mem'
  | called {i : Instr} {c : Nat} {g : Function} {args : List Value} {inner : Frame}
      {mem₁ mem' : Memory} :
      fr.current? = some i →
      (rules.perform p fr.function fr.env i).on mem = (.ok (.call c args), mem₁) →
      p.module.function? c = some g → (enter rules p g args).on mem₁ = (.ok inner, mem') →
      Stepped rules p fr waiting mem (.ok (.running inner (fr.await i.id :: waiting))) mem'

variable {fr : Frame} {waiting : List Frame} {mem mem' : Memory} {r : Except Failure State}

/-- The list is complete. -/
theorem stepped_of_on (h : (step rules p fr waiting).on mem = (r, mem')) :
    Stepped rules p fr waiting mem r mem' := by
  rw [step] at h
  cases hi : fr.current? with
  | none =>
      rw [hi] at h
      cases h
      exact .ended hi
  | some i =>
      simp only [hi] at h
      rcases Effect.on_bind_cases h with ⟨e, hp, rfl⟩ | ⟨s, mem₁, hp, hs⟩
      · exact .failed hi hp
      · cases s with
        | value v => cases hs; exact .bound hi hp
        | ret v => cases hs; exact .left hi hp
        | goto t =>
            rcases Effect.on_bind_cases hs with ⟨e, hj, rfl⟩ | ⟨next, mem₂, hj, hn⟩
            · exact .strayed hi hp hj
            · cases hn; exact .jumped hi hp hj
        | call c args =>
            rcases Effect.on_bind_cases hs with ⟨e, hc, rfl⟩ | ⟨inner, mem₂, hc, hn⟩
            · rw [enterAt] at hc
              cases hg : p.module.function? c with
              | none => rw [hg] at hc; cases hc; exact .missed hi hp hg
              | some g => rw [hg] at hc; exact .barred hi hp hg hc
            · rw [enterAt] at hc
              cases hg : p.module.function? c with
              | none => rw [hg] at hc; cases hc
              | some g => rw [hg] at hc; cases hn; exact .called hi hp hg hc

/-- Whatever is listed comes about. -/
theorem on_of_stepped (h : Stepped rules p fr waiting mem r mem') :
    (step rules p fr waiting).on mem = (r, mem') := by
  rw [step]
  cases h with
  | ended hi => simp [hi]
  | failed hi hp => simp only [hi]; exact Effect.on_bind_of_error hp
  | bound hi hp => simp only [hi]; exact Effect.on_bind_of_ok hp
  | left hi hp => simp only [hi]; exact Effect.on_bind_of_ok hp
  | strayed hi hp hj =>
      simp only [hi]
      exact (Effect.on_bind_of_ok hp).trans (Effect.on_bind_of_error hj)
  | jumped hi hp hj =>
      simp only [hi]
      exact (Effect.on_bind_of_ok hp).trans (Effect.on_bind_of_ok hj)
  | missed hi hp hg =>
      simp only [hi]
      refine (Effect.on_bind_of_ok hp).trans (Effect.on_bind_of_error ?_)
      simp [enterAt, hg]
  | barred hi hp hg he =>
      simp only [hi]
      refine (Effect.on_bind_of_ok hp).trans (Effect.on_bind_of_error ?_)
      simpa [enterAt, hg] using he
  | @called i c g args inner mem₁ _ hi hp hg he =>
      simp only [hi]
      have hat : (enterAt rules p c args).on mem₁ = (.ok inner, mem') := by
        rw [enterAt, hg]
        exact he
      exact (Effect.on_bind_of_ok hp).trans (Effect.on_bind_of_ok hat)

/-! ## Runs -/

theorem run_done (n : Nat) (v : Value) : run rules p n (.done v) = pure v := by
  cases n <;> rfl

theorem on_run_succ (n : Nat) (fr : Frame) (waiting : List Frame) (mem : Memory) :
    (run rules p (n + 1) (.running fr waiting)).on mem =
      match (step rules p fr waiting).on mem with
      | (.ok s, mem₁) => (run rules p n s).on mem₁
      | (.error e, mem₁) => (.error e, mem₁) := by
  rw [run, Effect.on_bind]
  rcases (step rules p fr waiting).on mem with ⟨_ | _, _⟩ <;> rfl

end Ssa.Machine

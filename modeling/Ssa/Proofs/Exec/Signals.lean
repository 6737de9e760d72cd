/-
# `Ssa.Proofs.Exec.Signals` — which instructions ask for what

The interpreter asks the machine for a value, for another block, for a call, or to leave.  What it asks
for tells which instruction it was at: a value is asked for by what does not end a block, a block by what
names it as a target, a function by a call or an invoke that names it, and to leave by a return.

**Proved here.**

    what is asked for is what the operation is there for        (`Interpreted.perform_asks`)
    a frame that waits is at a call of a function by name       (`Machine.reaches_awaits`)
-/
import Ssa.Proofs.Exec.Store
import Ssa.Proofs.Program.Acyclic

namespace Ssa

/-- The operations of a module that ask for a signal. -/
def OpOver.Asks (m : Module) (op : Op) : Signal → Prop
  | .value _ => op.isTerminator = false
  | .goto t => t ∈ op.targets
  | .call c _ => op.callee? = some c ∧ ∃ g, m.function? c = some g
  | .ret _ => ∃ v, op = .ret v

namespace Interpreted

variable {p : Program} {f : Function} {env : Env} {mem mem' : Memory}

/-- The label that is chosen is that of a case, or the default. -/
theorem mem_of_chooseCase {ev : Operand → Exec Value} {x : Value} {d t : Nat}
    {entries : List (Operand × Nat)} (h : (chooseCase ev x d entries).on mem = (.ok t, mem')) :
    t ∈ d :: entries.map Prod.snd := by
  induction entries generalizing mem with
  | nil =>
      cases h
      exact List.mem_singleton_self d
  | cons e entries ih =>
      obtain ⟨y, m₂, -, hrest⟩ := Effect.on_bind_ok h
      rw [List.map_cons]
      split at hrest
      · cases hrest
        exact List.mem_cons_of_mem _ List.mem_cons_self
      · rcases List.mem_cons.mp (ih hrest) with rfl | ht
        · exact List.mem_cons_self
        · exact List.mem_cons_of_mem _ (List.mem_cons_of_mem _ ht)

/-- A call is of the function that its operand names. -/
theorem call_asks {ev : Operand → Exec Value} {callee : Operand} {args : List Operand} {s : Signal}
    (h : (call p ev f callee args).on mem = (.ok s, mem')) :
    ∃ c t vs, callee = .global c t ∧ (∃ g, p.module.function? c = some g) ∧ s = .call c vs := by
  unfold call at h
  split at h
  · split at h
    · obtain ⟨vs, _, -, hsignal⟩ := Effect.on_bind_ok h
      cases hsignal
      exact ⟨_, _, vs, rfl, ⟨_, ‹_›⟩, rfl⟩
    · cases h
  · cases h

/-- What is asked for is what the operation is there for. -/
theorem perform_asks {i : Instr} {s : Signal} (h : (perform p f env i).on mem = (.ok s, mem')) :
    i.op.Asks p.module s := by
  obtain ⟨id, t, op⟩ := i
  cases op with
  | ret v =>
      cases v with
      | none => cases h; exact ⟨none, rfl⟩
      | some o =>
          obtain ⟨_, _, -, hsignal⟩ := Effect.on_bind_ok h
          cases hsignal
          exact ⟨some o, rfl⟩
  | br t => cases h; exact List.mem_singleton_self t
  | condBr c t e =>
      obtain ⟨x, _, -, hsignal⟩ := Effect.on_bind_ok h
      cases hsignal
      show (if x.isTrue then t else e) ∈ [t, e]
      cases x.isTrue <;> simp
  | switch v d cases =>
      obtain ⟨_, _, -, hrest⟩ := Effect.on_bind_ok h
      obtain ⟨_, _, hchosen, hsignal⟩ := Effect.on_bind_ok hrest
      cases hsignal
      exact mem_of_chooseCase hchosen
  | unreachable => cases h
  | call callee args =>
      obtain ⟨c, _, vs, rfl, hg, rfl⟩ := call_asks h
      exact ⟨rfl, hg⟩
  | invoke callee args n u =>
      obtain ⟨c, _, vs, rfl, hg, rfl⟩ := call_asks h
      exact ⟨rfl, hg⟩
  | indirectBr =>
      -- it is left to the rules for what only computes, where there is none for it
      obtain ⟨_, _, hvalue, -⟩ := Effect.on_bind_ok h
      cases hvalue
  | _ =>
      obtain ⟨_, _, -, hsignal⟩ := Effect.on_bind_ok h
      cases hsignal
      rfl

end Interpreted

/-! ## Frames that wait -/

/-- A frame is at a call of a function by name, and waits for what it returns. -/
def Frame.Awaits (m : Module) (fr : Frame) : Prop :=
  ∃ i c g, fr.current? = some i ∧ i.op.callee? = some c ∧ m.function? c = some g ∧
    fr.pending = some i.id

namespace Machine

open Interpreted (rules)

variable {p : Program} {f : Function} {args : List Value} {mem mem' : Memory} {st : State}

/-- In every state that a call leads to, the frames that wait are at calls. -/
theorem reaches_awaits (h : Reaches rules p f args mem st mem') :
    ∀ w ∈ st.frames.tail, w.Awaits p.module := by
  induction h with
  | entered => exact nofun
  | @stepped fr waiting st mem₁ mem₂ _ hs ih =>
      have hwaiting : ∀ w ∈ waiting, w.Awaits p.module := ih
      cases stepped_of_on hs with
      | bound | jumped => exact hwaiting
      | left =>
          cases waiting with
          | nil => exact nofun
          | cons caller rest => exact (List.forall_mem_cons.mp hwaiting).2
      | called hi hp hg =>
          obtain ⟨hcallee, g, hg⟩ := Interpreted.perform_asks hp
          exact List.forall_mem_cons.mpr ⟨⟨_, _, g, hi, hcallee, hg, rfl⟩, hwaiting⟩

end Machine

end Ssa

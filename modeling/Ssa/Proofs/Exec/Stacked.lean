/-
# `Ssa.Proofs.Exec.Stacked` — the shape of the stack

At a call the frame is left to wait, with the number of the call, and one for the function that is called
is put on top; at a return the topmost frame is gone, and the one below it goes on.  A function that calls
itself has many frames at the same instruction, so what a frame waits for cannot be told from the
instruction alone: it is what stands above it.

All that is asked of the module is that branches name blocks of their function, as they do in every module
that was made (`Module.Made.isLabelled`), and that there are no invokes.

Three things happen to a stack: its top is replaced, a frame is put on it, or its top is taken off.  None
of them touches a frame below the top except the last, which binds one value in one frame.

**Proved here.**

    a step, whatever it does, keeps the shape of the stack                   (`State.IsStacked.step`)
    so in every state that a call leads to the stack has its shape           (`reaches_stacked`)
    a frame that waits is left alone until the function above it returns     (`further_keeps`)
    both, of every module with branches in place and without invokes         (`stack_discipline`)
-/
import Ssa.Proofs.Exec.Signals
import Ssa.Proofs.Program.Labelled

namespace Ssa

/-! ## Modules without invokes -/

/-- Whether an operation is an invoke. -/
def OpOver.isInvoke : Op → Bool
  | .invoke .. => true
  | _ => false

/-- Whether no function of a module has an invoke. -/
def Module.hasNoInvoke (m : Module) : Bool := m.everyInstr fun _ i => !i.op.isInvoke

/-- What calls a function by name and is no invoke is a call. -/
theorem OpOver.eq_call {op : Op} {c : Nat} (hc : op.callee? = some c) (hop : op.isInvoke = false) :
    ∃ t args, op = .call (.global c t) args := by
  unfold callee? at hc
  split at hc
  · cases hc
    exact ⟨_, _, rfl⟩
  · cases hop
  · cases hc

/-! ## Frames -/

namespace Frame

/-- A frame is in a block of its function, behind the leading phis. -/
structure IsPlaced (fr : Frame) : Prop where
  block : fr.block < fr.function.blocks.size
  behind : (fr.function.leadingPhis fr.block).length ≤ fr.pc
  inside : fr.pc ≤ (fr.function.instrs fr.block).length

/-- A frame is at a call of the function of another one, and waits for that call. -/
def Calls (m : Module) (fr callee : Frame) : Prop :=
  ∃ i c t args, fr.current? = some i ∧ i.op = .call (.global c t) args ∧
    m.function? c = some callee.function ∧ fr.pending = some i.id

/-- A frame goes on with the result of the call that it waited for, and is otherwise as it was. -/
structure Resumed (fr next : Frame) (v : Value) : Prop where
  function : next.function = fr.function
  block : next.block = fr.block
  pc : next.pc = fr.pc + 1
  pending : next.pending = none
  result : ∃ i, fr.current? = some i ∧ fr.pending = some i.id ∧ next.env.lookup i.id = some v ∧
    ∀ id, id ≠ i.id → next.env.lookup id = fr.env.lookup id

variable {m : Module} {fr : Frame} {i : Instr}

/-- A frame that goes on behind an instruction is in its place. -/
theorem IsPlaced.next {next : Frame} (h : fr.IsPlaced) (hi : fr.current? = some i)
    (hfunction : next.function = fr.function) (hblock : next.block = fr.block)
    (hpc : next.pc = fr.pc + 1) : next.IsPlaced := by
  refine ⟨?_, ?_, ?_⟩ <;> rw [hfunction, hblock]
  · exact h.block
  · exact hpc ▸ Nat.le_succ_of_le h.behind
  · exact hpc ▸ (List.getElem?_eq_some_iff.mp hi).1

theorem Calls.awaits {callee : Frame} (h : fr.Calls m callee) : fr.Awaits m := by
  obtain ⟨i, c, t, args, hi, hop, hc, hpending⟩ := h
  exact ⟨i, c, callee.function, hi, by rw [hop]; rfl, hc, hpending⟩

/-- A frame that waits goes on as it should. -/
theorem Awaits.resumed (h : fr.Awaits m) (v : Value) : fr.Resumed (fr.resume v) v := by
  obtain ⟨i, c, g, hi, -, -, hpending⟩ := h
  have hresume : fr.resume v = fr.advance i.id v := by simp only [resume, hpending]
  rw [hresume]
  exact ⟨rfl, rfl, rfl, rfl, i, hi, hpending, (Env.lookup_bind ..).trans (if_pos rfl),
    fun id hid => (Env.lookup_bind ..).trans (if_neg hid)⟩

theorem Resumed.isPlaced {next : Frame} {v : Value} (h : fr.Resumed next v) (hplaced : fr.IsPlaced) :
    next.IsPlaced := by
  obtain ⟨i, hi, -⟩ := h.result
  exact hplaced.next hi h.function h.block h.pc

end Frame

namespace Machine

open Interpreted (rules)

variable {p : Program} {f : Function} {args : List Value} {mem mem' : Memory}

/-- After a jump a frame is in its place, if the block is one of its function. -/
theorem placed_of_jump {fr next : Frame} {source : Option Nat} {t : Nat}
    (ht : t < fr.function.blocks.size) (h : (jump rules p fr source t).on mem = (.ok next, mem')) :
    next.IsPlaced ∧ next.function = fr.function ∧ next.pending = fr.pending := by
  obtain ⟨env, rfl⟩ := eq_of_jump h
  exact ⟨⟨ht, Nat.le_refl _, (List.takeWhile_prefix _).length_le⟩, rfl, rfl⟩

/-- So it is after a function was entered. -/
theorem placed_of_enter {g : Function} {next : Frame}
    (h : (enter rules p g args).on mem = (.ok next, mem')) :
    next.IsPlaced ∧ next.function = g ∧ next.pending = none := by
  rw [on_enter] at h
  split at h
  · cases h
  · rename_i hbody
    split at h
    · have hsize : g.blocks.size ≠ 0 := by simpa [Function.isDeclaration] using hbody
      have hjumped := fun ht => placed_of_jump ht h
      exact hjumped (Nat.pos_of_ne_zero hsize)
    · cases h

/-! ## Stacks -/

/-- The shape of a stack, whose top comes first: at the bottom is the function that was called, each frame
calls the one above it, and the top waits for nothing. -/
structure IsStack (m : Module) (f : Function) (frames : List Frame) : Prop where
  bottom : (frames.map Frame.function).getLast? = some f
  top : ∀ fr ∈ frames.head?, fr.pending = none
  calls : frames.IsChain fun above fr => fr.Calls m above
  known : ∀ fr ∈ frames, ∃ k, m.function? k = some fr.function
  placed : ∀ fr ∈ frames, fr.IsPlaced

namespace IsStack

variable {m : Module} {fr next : Frame} {waiting : List Frame}

/-- A stack of one frame. -/
theorem single (hk : ∃ k, m.function? k = some f) (hfunction : fr.function = f)
    (hpending : fr.pending = none) (hplaced : fr.IsPlaced) : IsStack m f [fr] where
  bottom := congrArg some hfunction
  top := by simpa using hpending
  calls := .singleton fr
  known := by simpa [hfunction] using hk
  placed := by simpa using hplaced

/-- It is the function of the top that is called. -/
theorem calls_of_function (h : (fr :: waiting).IsChain fun above fr => fr.Calls m above)
    (hfunction : next.function = fr.function) :
    (next :: waiting).IsChain fun above fr => fr.Calls m above := by
  cases waiting with
  | nil => exact .singleton next
  | cons w rest =>
      obtain ⟨⟨i, c, t, args, hi, hop, hc, hpending⟩, hrest⟩ := List.isChain_cons_cons.mp h
      exact .cons_cons ⟨i, c, t, args, hi, hop, hfunction ▸ hc, hpending⟩ hrest

/-- The top may be replaced by another frame of its function. -/
theorem replace (h : IsStack m f (fr :: waiting)) (hfunction : next.function = fr.function)
    (hpending : next.pending = none) (hplaced : next.IsPlaced) : IsStack m f (next :: waiting) where
  bottom := by
    rw [List.map_cons, hfunction]
    exact h.bottom
  top := by simpa using hpending
  calls := calls_of_function h.calls hfunction
  known := by
    obtain ⟨hfr, hwaiting⟩ := List.forall_mem_cons.mp h.known
    exact List.forall_mem_cons.mpr ⟨hfunction ▸ hfr, hwaiting⟩
  placed := List.forall_mem_cons.mpr ⟨hplaced, (List.forall_mem_cons.mp h.placed).2⟩

/-- A frame of the function that the top calls may be put on it, while the top waits. -/
theorem push {i : Instr} {c : Nat} {t : Ty} {os : List Operand} {g : Function}
    (h : IsStack m f (fr :: waiting)) (hi : fr.current? = some i) (hop : i.op = .call (.global c t) os)
    (hg : m.function? c = some g) (hfunction : next.function = g) (hpending : next.pending = none)
    (hplaced : next.IsPlaced) : IsStack m f (next :: fr.await i.id :: waiting) where
  bottom := by
    rw [List.map_cons, List.map_cons, List.getLast?_cons_cons]
    exact h.bottom
  top := by simpa using hpending
  calls := .cons_cons ⟨i, c, t, os, hi, hop, hfunction ▸ hg, rfl⟩ (calls_of_function h.calls rfl)
  known := by
    obtain ⟨hfr, hwaiting⟩ := List.forall_mem_cons.mp h.known
    exact List.forall_mem_cons.mpr ⟨⟨c, hfunction ▸ hg⟩, List.forall_mem_cons.mpr ⟨hfr, hwaiting⟩⟩
  placed := by
    obtain ⟨⟨hblock, hbehind, hinside⟩, hwaiting⟩ := List.forall_mem_cons.mp h.placed
    exact List.forall_mem_cons.mpr
      ⟨hplaced, List.forall_mem_cons.mpr ⟨⟨hblock, hbehind, hinside⟩, hwaiting⟩⟩

/-- The top may be taken off, and the frame below it goes on. -/
theorem pop {caller : Frame} (h : IsStack m f (fr :: caller :: waiting))
    (hfunction : next.function = caller.function) (hpending : next.pending = none)
    (hplaced : next.IsPlaced) : IsStack m f (next :: waiting) where
  bottom := by
    have hbottom := h.bottom
    rw [List.map_cons, List.map_cons, List.getLast?_cons_cons, ← hfunction] at hbottom
    exact hbottom
  top := by simpa using hpending
  calls := calls_of_function (List.isChain_cons_cons.mp h.calls).2 hfunction
  known := by
    obtain ⟨hcaller, hwaiting⟩ := List.forall_mem_cons.mp (List.forall_mem_cons.mp h.known).2
    exact List.forall_mem_cons.mpr ⟨hfunction ▸ hcaller, hwaiting⟩
  placed := List.forall_mem_cons.mpr
    ⟨hplaced, (List.forall_mem_cons.mp (List.forall_mem_cons.mp h.placed).2).2⟩

end IsStack

/-- The stack of a state has its shape. -/
def State.IsStacked (m : Module) (f : Function) : State → Prop
  | .running fr waiting => IsStack m f (fr :: waiting)
  | .done _ => True

/-- A step keeps the shape of the stack. -/
theorem State.IsStacked.step (hl : p.module.IsLabelled) (hno : p.module.hasNoInvoke = true)
    {fr : Frame} {waiting : List Frame} {st : State} (h : IsStack p.module f (fr :: waiting))
    (hs : (step rules p fr waiting).on mem = (.ok st, mem')) : st.IsStacked p.module f := by
  obtain ⟨k, hk⟩ := h.known fr (.head _)
  cases stepped_of_on hs with
  | bound hi => exact h.replace rfl rfl ((h.placed fr (.head _)).next hi rfl rfl rfl)
  | @left _ v _ _ _ =>
      cases waiting with
      | nil => trivial
      | cons caller rest =>
          have hcalls : caller.Calls p.module fr := (List.isChain_cons_cons.mp h.calls).1
          have hresumed := hcalls.awaits.resumed v
          exact h.pop hresumed.function hresumed.pending
            (hresumed.isPlaced (h.placed caller (.tail _ (.head _))))
  | @jumped i t next _ _ hi hp hj =>
      -- the block is named by an instruction of the function, so it is there
      have ht : t ∈ i.op.targets := Interpreted.perform_asks hp
      obtain ⟨hplaced, hfunction, hpending⟩ := placed_of_jump
        (hl k fr.function hk fr.block i (List.mem_of_getElem? hi) t ht) hj
      exact h.replace hfunction (hpending.trans (h.top fr rfl)) hplaced
  | @called i c g _ inner _ _ hi hp hg he =>
      -- an invoke would have called it too, and would have been the end of the block
      obtain ⟨hcallee, -⟩ := Interpreted.perform_asks hp
      have hcall : i.op.isInvoke = false := by
        simpa using Module.of_everyInstr hno hk (List.mem_of_getElem? hi)
      obtain ⟨t, os, hop⟩ := OpOver.eq_call hcallee hcall
      obtain ⟨hplaced, hfunction, hpending⟩ := placed_of_enter he
      exact h.push hi hop hg hfunction hpending hplaced

/-- In every state that a call leads to, the stack has its shape. -/
theorem reaches_stacked (hl : p.module.IsLabelled) (hno : p.module.hasNoInvoke = true)
    (hf : ∃ k, p.module.function? k = some f) {st : State} (h : Reaches rules p f args mem st mem') :
    st.IsStacked p.module f := by
  induction h with
  | entered he =>
      obtain ⟨hplaced, hfunction, hpending⟩ := placed_of_enter he
      exact .single hf hfunction hpending hplaced
  | stepped _ hs ih => exact State.IsStacked.step hl hno ih hs

/-! ## Frames that wait -/

/-- What a state comes to by a number of further steps, and with which memory. -/
def further (rules : Rules) (p : Program) : Nat → State × Memory → Option (State × Memory)
  | 0, c => some c
  | _ + 1, (.done _, _) => none
  | n + 1, (.running fr waiting, mem) =>
    match (step rules p fr waiting).on mem with
    | (.ok st, mem) => further rules p n (st, mem)
    | (.error _, _) => none

/-- For a number of steps a frame stays as it is, with those below it, while others stand above it. -/
def Keeps (p : Program) (n : Nat) (c : State × Memory) (w : Frame) (below : List Frame) : Prop :=
  ∀ j ≤ n, ∃ fr above mem, further rules p j c = some (.running fr (above ++ w :: below), mem)

/-- A frame is at a return of a value. -/
def Returns (p : Program) (fr : Frame) (v : Value) (mem mem' : Memory) : Prop :=
  ∃ i, fr.current? = some i ∧
    (Interpreted.perform p fr.function fr.env i).on mem = (.ok (.ret v), mem')

/-- Within a number of steps the function above a frame returns.  Until then the frame stays as it is, and
by the return it goes on with what was returned. -/
def ReturnsWithin (p : Program) (n : Nat) (c c' : State × Memory) (w : Frame) (below : List Frame) : Prop :=
  ∃ j k callee v next mem₁ mem₂, n = j + 1 + k ∧ Keeps p j c w below ∧
    further rules p j c = some (.running callee (w :: below), mem₁) ∧ Returns p callee v mem₁ mem₂ ∧
    (step rules p callee (w :: below)).on mem₁ = (.ok (.running next below), mem₂) ∧
    w.Resumed next v ∧ further rules p k (.running next below, mem₂) = some c'

variable {fr w : Frame} {above below : List Frame} {st : State} {n : Nat}

theorem further_succ {waiting : List Frame}
    (h : (step rules p fr waiting).on mem = (.ok st, mem')) (n : Nat) :
    further rules p (n + 1) (.running fr waiting, mem) = further rules p n (st, mem') := by
  rw [further, h]

/-- What further steps lead to is reached. -/
theorem Reaches.further {mem₀ : Memory} {st' : State} (h : Reaches rules p f args mem₀ st mem)
    (hn : further rules p n (st, mem) = some (st', mem')) : Reaches rules p f args mem₀ st' mem' := by
  induction n generalizing st mem with
  | zero => cases hn; exact h
  | succ n ih =>
      cases st with
      | done v => cases hn
      | running fr waiting =>
          rcases hs : (step rules p fr waiting).on mem with ⟨e | st₁, mem₁⟩
          · rw [Machine.further, hs] at hn
            cases hn
          · exact ih (.stepped h hs) (further_succ hs n ▸ hn)

theorem Keeps.succ (hs : (step rules p fr (above ++ w :: below)).on mem = (.ok st, mem'))
    (h : Keeps p n (st, mem') w below) :
    Keeps p (n + 1) (.running fr (above ++ w :: below), mem) w below := by
  intro j hj
  cases j with
  | zero => exact ⟨fr, above, mem, rfl⟩
  | succ j =>
      rw [further_succ hs]
      exact h j (Nat.le_of_succ_le_succ hj)

/-- A step leaves a frame that waits as it is, unless it is a return to that frame. -/
theorem step_leaves (hs : (step rules p fr (above ++ w :: below)).on mem = (.ok st, mem')) :
    (∃ fr' above', st = .running fr' (above' ++ w :: below)) ∨
      ∃ v, above = [] ∧ Returns p fr v mem mem' ∧ st = .running (w.resume v) below := by
  cases stepped_of_on hs with
  | bound | jumped => exact .inl ⟨_, above, rfl⟩
  | @left i v _ hi hp =>
      cases above with
      | nil => exact .inr ⟨v, rfl, ⟨i, hi, hp⟩, rfl⟩
      | cons caller rest => exact .inl ⟨_, rest, rfl⟩
  | @called i _ _ _ _ _ _ hi => exact .inl ⟨_, fr.await i.id :: above, rfl⟩

/-- A frame that waits stays as it is until the function above it returns; it then goes on with what was
returned. -/
theorem further_keeps (hw : w.Awaits p.module)
    (h : further rules p n (.running fr (above ++ w :: below), mem) = some (st, mem')) :
    Keeps p n (.running fr (above ++ w :: below), mem) w below ∨
      ReturnsWithin p n (.running fr (above ++ w :: below), mem) (st, mem') w below := by
  have hstart (fr : Frame) (above : List Frame) (mem : Memory) :
      Keeps p 0 (.running fr (above ++ w :: below), mem) w below := by
    intro j hj
    cases Nat.le_zero.mp hj
    exact ⟨fr, above, mem, rfl⟩
  -- by steps: as long as something stands above it, and then at the return
  induction n generalizing fr above mem with
  | zero => exact .inl (hstart fr above mem)
  | succ n ih =>
      rcases hs : (step rules p fr (above ++ w :: below)).on mem with ⟨e | st₁, mem₁⟩
      · rw [further, hs] at h
        cases h
      rw [further_succ hs] at h
      rcases step_leaves hs with ⟨fr₁, above₁, rfl⟩ | ⟨v, rfl, hreturns, rfl⟩
      · rcases ih h with hkeeps | ⟨j, k, callee, v, next, mem₂, mem₃, rfl, hkeeps, hj, hrest⟩
        · exact .inl (hkeeps.succ hs)
        · exact .inr ⟨j + 1, k, callee, v, next, mem₂, mem₃, by omega, hkeeps.succ hs,
            (further_succ hs j).trans hj, hrest⟩
      · exact .inr ⟨0, n, fr, v, w.resume v, mem, mem₁, by omega, hstart fr [] mem, rfl, hreturns, hs,
          hw.resumed v, h⟩

/-- Of a module whose branches name blocks of their function, and that has no invokes: in every state that
a call leads to the stack has its shape; and each frame below the top stays as it is, whatever is done
above it, until the function above it returns.  It then goes on with the result of its call bound, behind
the call, and otherwise as it was. -/
theorem stack_discipline (hl : p.module.IsLabelled) (hno : p.module.hasNoInvoke = true) {k : Nat}
    (hf : p.module.function? k = some f) {waiting : List Frame} {mem₁ : Memory}
    (hr : Reaches rules p f args mem (.running fr waiting) mem₁) :
    IsStack p.module f (fr :: waiting) ∧
      ∀ above w below, waiting = above ++ w :: below → ∀ n st mem',
        further rules p n (.running fr waiting, mem₁) = some (st, mem') →
        Keeps p n (.running fr waiting, mem₁) w below ∨
          ReturnsWithin p n (.running fr waiting, mem₁) (st, mem') w below := by
  refine ⟨reaches_stacked hl hno ⟨k, hf⟩ hr, ?_⟩
  rintro above w below rfl n st mem' hn
  have hw : w.Awaits p.module := reaches_awaits hr w (List.mem_append_right above List.mem_cons_self)
  exact further_keeps hw hn

/-- A function that calls itself with one less, until it is given zero. -/
def countdown : Draft where
  types := []
  globals := []
  functions := [⟨"f", .int 32, [.int 32], false, some [
    ⟨"e", "e", [
      ⟨some "c", "c", .op (.icmp .eq (.key "0") (.constant (.typed (.int 32) (.int 0))))⟩,
      ⟨none, "", .op (.condBr (.key "c") "last" "more")⟩]⟩,
    ⟨"last", "last", [⟨none, "", .op (.ret (some (.key "0")))⟩]⟩,
    ⟨"more", "more", [
      ⟨some "n", "n", .op (.int .sub (.key "0") (.constant (.typed (.int 32) (.int 1))))⟩,
      ⟨some "r", "r", .op (.call (.symbol "f") [.key "n"])⟩,
      ⟨none, "", .op (.ret (some (.key "r")))⟩]⟩]⟩]

/-- From two on there are three frames of the function at one time, two of them at its call; and the upper
one of these goes on when the topmost one is gone. -/
theorem stack_discipline_countdown : ∃ f fr w w' mem₁,
    (countdown.written "m").function? 0 = some f ∧
    Reaches rules ⟨0, [], countdown.written "m"⟩ f [.int 2] .empty (.running fr [w, w']) mem₁ ∧
    IsStack (countdown.written "m") f [fr, w, w'] ∧
    ∃ callee next v mem₂ mem₃, w.Resumed next v ∧
      (step rules ⟨0, [], countdown.written "m"⟩ callee [w, w']).on mem₂ =
        (.ok (.running next [w']), mem₃) := by
  have hmade : (countdown.written "m").Made := .rendered _ (.drafted [] [] countdown (.empty "m"))
  have hframes : ((countdown.written "m").function? 0).map (fun f =>
      match (enter rules ⟨0, [], countdown.written "m"⟩ f [.int 2]).on .empty with
      | (.ok fr, mem) => (further rules ⟨0, [], countdown.written "m"⟩ 8 (.running fr [], mem)).map
          fun c => (c.1.frames.length,
            (further rules ⟨0, [], countdown.written "m"⟩ 3 c).map (·.1.frames.length))
      | (.error _, _) => none) = some (some (3, some 2)) := by decide +kernel
  obtain ⟨f, hf, hframes⟩ := Option.map_eq_some_iff.mp hframes
  rcases he : (enter rules ⟨0, [], countdown.written "m"⟩ f [.int 2]).on .empty with ⟨e | fr₀, mem₀⟩ <;>
    rw [he] at hframes
  · cases hframes
  obtain ⟨⟨st, mem₁⟩, h8, hlengths⟩ := Option.map_eq_some_iff.mp hframes
  simp only [Prod.mk.injEq] at hlengths
  obtain ⟨hthree, htwo⟩ := hlengths
  obtain ⟨⟨st', mem'⟩, h3, htwo⟩ := Option.map_eq_some_iff.mp htwo
  obtain ⟨fr, w, w', rfl⟩ : ∃ fr w w', st = .running fr [w, w'] := by
    rcases st with ⟨fr, waiting⟩ | v
    · obtain ⟨w, w', rfl⟩ := List.length_eq_two.mp (Nat.succ.inj hthree)
      exact ⟨fr, w, w', rfl⟩
    · cases hthree
  have hr : Reaches rules ⟨0, [], countdown.written "m"⟩ f [.int 2] .empty (.running fr [w, w']) mem₁ :=
    (Reaches.entered he).further h8
  obtain ⟨hstack, hkept⟩ :=
    stack_discipline (p := ⟨0, [], countdown.written "m"⟩) hmade.isLabelled (by decide +kernel) hf hr
  refine ⟨f, fr, w, w', mem₁, hf, hr, hstack, ?_⟩
  rcases hkept [] w [w'] rfl 3 st' mem' h3 with
    hkeeps | ⟨_, _, callee, v, next, mem₂, mem₃, -, -, -, -, hs, hresumed, -⟩
  · -- two frames are too few for one above the two that wait
    obtain ⟨fr', above, mem'', hon⟩ := hkeeps 3 (Nat.le_refl 3)
    cases h3.symm.trans hon
    simp [State.frames] at htwo
  · exact ⟨callee, next, v, mem₂, mem₃, hresumed, hs⟩

end Machine

end Ssa

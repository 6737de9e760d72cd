/-
# `Ssa.Proofs.Exec.Ready` — frames hold what they are going to use

A frame is ready if it is at an instruction that is no phi, and has a value for each parameter, for
whatever is listed as available at the head of its block, and for what has been computed in the
block since.  The frames that wait are ready too, each at its call.  In a module whose control flow
is ordered every step keeps this, along any way through the blocks and through any calls.

**Proved here.**

    a frame that is ready goes on, goes to another block, is entered: ready       (`advance_ready`, `jumped_ready`, `entered_ready`)
    every state that a run reaches is ready                                       (`reaches_ready`)
    what a frame that is ready uses is found                                      (`Ready.found`, `Ready.entry_found`)
-/
import Ssa.Proofs.Exec.Reached
import Ssa.Proofs.Validity.Available

namespace Ssa

/-! ## Frames that are ready -/

/-- A frame has a value for each number of a list that is that of a value. -/
def Frame.Has (fr : Frame) (xs : List Nat) : Prop :=
  ∀ id ∈ xs, fr.function.IsValue id → (fr.env.lookup id).isSome

/-- A frame holds what it is going to use. -/
structure Frame.Ready (fr : Frame) : Prop where
  params : ∀ j < fr.function.params.length, (fr.env.lookup j).isSome
  here : ∃ i, fr.current? = some i
  started : (fr.function.leadingPhis fr.block).length ≤ fr.pc
  has : ∃ ids, fr.function.available.getD fr.block none = some ids ∧
    fr.Has (ids ++ ((fr.function.instrs fr.block).take fr.pc).map Instr.id)

/-- A frame waits for an instruction that does not end its block. -/
def Frame.Waits (fr : Frame) : Prop :=
  ∃ i, fr.current? = some i ∧ i.op.isTerminator = false ∧ fr.pending = some i.id

/-- The frames of a machine are ready. -/
def Machine.State.Ready : Machine.State → Prop
  | .running fr waiting => fr.Ready ∧ ∀ w ∈ waiting, w.Ready ∧ w.Waits
  | .done _ => True

/-- Control flow in every function of a module is ordered. -/
def Module.IsOrdered (m : Module) : Prop := ∀ k f, m.function? k = some f → f.IsOrdered

theorem OpOver.isTerminator_of_target {op : Op} {t : Nat} (h : t ∈ op.targets) :
    op.isTerminator = true := by
  cases op with
  | br | condBr | switch | indirectBr | invoke => rfl
  | _ => cases h

namespace Function.IsOrdered

variable {f : Function} {b pc : Nat} {i : Instr} (h : f.IsOrdered)
include h

/-- What comes before the end of a block is followed by something. -/
theorem exists_next (hi : (f.instrs b)[pc]? = some i) (ht : i.op.isTerminator = false) :
    ∃ j, (f.instrs b)[pc + 1]? = some j := by
  obtain ⟨block, hblock, -⟩ := mem_instrs (List.mem_of_getElem? hi)
  obtain ⟨before, last, heq, hlast, -⟩ := h.ends b (Array.getElem?_eq_some_iff.mp hblock).1
  rw [heq] at hi ⊢
  have hpc : pc < before.length := by
    by_contra hge
    rw [List.getElem?_append_right (by omega), List.getElem?_singleton] at hi
    split at hi
    · cases hi; simp [hlast] at ht
    · cases hi
  exact ⟨_, List.getElem?_eq_getElem (by simp; omega)⟩

/-- The end of a block is at its end. -/
theorem eq_take_append (hi : (f.instrs b)[pc]? = some i) (ht : i.op.isTerminator = true) :
    f.instrs b = (f.instrs b).take pc ++ [i] := by
  obtain ⟨block, hblock, -⟩ := mem_instrs (List.mem_of_getElem? hi)
  obtain ⟨before, last, heq, -, hbefore⟩ := h.ends b (Array.getElem?_eq_some_iff.mp hblock).1
  rw [heq] at hi ⊢
  have hpc : pc = before.length := by
    by_contra hne
    rcases Nat.lt_or_gt_of_ne hne with hlt | hgt
    · rw [List.getElem?_append_left hlt] at hi
      simp [hbefore i (List.mem_of_getElem? hi)] at ht
    · rw [List.getElem?_eq_none (by simp; omega)] at hi
      cases hi
  subst hpc
  rw [List.getElem?_append_right le_rfl] at hi
  simp at hi
  simp [hi]

/-- After the leading phis of a block there is something. -/
theorem exists_first (hb : b < f.blocks.size) :
    ∃ i, (f.instrs b)[(f.leadingPhis b).length]? = some i := by
  obtain ⟨before, last, heq, hlast, -⟩ := h.ends b hb
  refine ⟨_, List.getElem?_eq_getElem ?_⟩
  by_contra hge
  have hall : f.leadingPhis b = f.instrs b :=
    (List.takeWhile_sublist _).eq_of_length_le (Nat.le_of_not_lt hge)
  have hlead : last ∈ f.leadingPhis b := by
    rw [hall, heq]
    simp
  have hphi : last.op.isPhi = true := List.all_eq_true.mp List.all_takeWhile last hlead
  cases hop : last.op <;> simp_all [OpOver.isPhi, OpOver.isTerminator]

end Function.IsOrdered

/-! ## What keeps a frame ready -/

namespace Frame

variable {fr : Frame} {i : Instr}

theorem take_leadingPhis (f : Function) (b : Nat) :
    (f.instrs b).take (f.leadingPhis b).length = f.leadingPhis b :=
  (List.prefix_iff_eq_take.mp (List.takeWhile_prefix _)).symm

/-- At the end of its block a frame holds all that is available there. -/
theorem Ready.has_all (h : fr.Ready) (ho : fr.function.IsOrdered) (hi : fr.current? = some i)
    (ht : i.op.isTerminator = true) : ∃ ids,
    fr.function.available.getD fr.block none = some ids ∧
      fr.Has (ids ++ (fr.function.instrs fr.block).map Instr.id) := by
  obtain ⟨ids, hids, hhas⟩ := h.has
  refine ⟨ids, hids, fun id hid hvalue => ?_⟩
  rw [ho.eq_take_append hi ht, List.map_append, ← List.append_assoc] at hid
  rcases List.mem_append.mp hid with hid | hid
  · exact hhas id hid hvalue
  · cases List.mem_singleton.mp hid
    exact absurd hvalue (ho.quiet _ i (List.mem_of_getElem? hi) ht)

theorem advance_ready (h : fr.Ready) (ho : fr.function.IsOrdered) (hi : fr.current? = some i)
    (ht : i.op.isTerminator = false) (v : Value) : (fr.advance i.id v).Ready := by
  have hmono {k : Nat} (hk : (fr.env.lookup k).isSome) : ((fr.env.bind i.id v).lookup k).isSome := by
    rw [Env.lookup_bind]
    split
    · rfl
    · exact hk
  obtain ⟨ids, hids, hhas⟩ := h.has
  refine ⟨fun j hj => hmono (h.params j hj), ho.exists_next hi ht, Nat.le_succ_of_le h.started,
    ids, hids, fun id hid hvalue => ?_⟩
  have htake : (fr.function.instrs fr.block).take (fr.pc + 1) =
      (fr.function.instrs fr.block).take fr.pc ++ [i] := by
    rw [List.take_add_one, show (fr.function.instrs fr.block)[fr.pc]? = some i from hi]
    rfl
  have hid' : id ∈ ids ++ ((fr.function.instrs fr.block).take (fr.pc + 1)).map Instr.id := hid
  rw [htake, List.map_append, ← List.append_assoc] at hid'
  rcases List.mem_append.mp hid' with hid' | hid'
  · exact hmono (hhas id hid' hvalue)
  · cases List.mem_singleton.mp hid'
    show ((fr.env.bind i.id v).lookup i.id).isSome
    rw [Env.lookup_bind, if_pos rfl]
    rfl

/-- A frame at the head of a block is ready if it holds what is listed there, once the phis are
bound. -/
theorem atHead_ready {b : Nat} {ids : List Nat} {vs : List (Nat × Value)}
    (ho : fr.function.IsOrdered) (hb : b < fr.function.blocks.size)
    (hids : fr.function.available.getD b none = some ids) (hhas : fr.Has ids)
    (hparams : ∀ j < fr.function.params.length, (fr.env.lookup j).isSome)
    (hvs : vs.map Prod.fst = (fr.function.leadingPhis b).map Instr.id) :
    Ready { fr with
      env := fr.env.bindAll vs
      block := b
      pc := (fr.function.leadingPhis b).length } := by
  refine ⟨fun j hj => Env.lookup_bindAll_isSome (.inr (hparams j hj)), ho.exists_first hb, le_rfl,
    ids, hids, fun id hid hvalue => Env.lookup_bindAll_isSome ?_⟩
  rw [take_leadingPhis, ← hvs] at hid
  rcases List.mem_append.mp hid with hid | hid
  · exact .inr (hhas id hid hvalue)
  · exact .inl hid

/-- A frame that goes to another block by way of its phis is ready there. -/
theorem jumped_ready {t : Nat} {vs : List (Nat × Value)} (h : fr.Ready)
    (ho : fr.function.IsOrdered) (hi : fr.current? = some i) (ht : t ∈ i.op.targets)
    (hvs : vs.map Prod.fst = (fr.function.leadingPhis t).map Instr.id) :
    Ready { fr with
      env := fr.env.bindAll vs
      block := t
      pc := (fr.function.leadingPhis t).length } := by
  obtain ⟨ids, hids, hhas⟩ := h.has_all ho hi (OpOver.isTerminator_of_target ht)
  obtain ⟨hlt, ys, hys, hsub⟩ := ho.target _ ids i t hids (List.mem_of_getElem? hi) ht
  exact atHead_ready ho hlt hys (fun id hid => hhas id (hsub hid)) h.params hvs

/-- A frame of a function that has been entered is ready, if there was an argument for each
parameter. -/
theorem entered_ready {f : Function} {args : List Value} {env : Env} {vs : List (Nat × Value)}
    (ho : f.IsOrdered) (hf : f.isDeclaration = false) (hargs : f.params.length ≤ args.length)
    (henv : Machine.bindParams f.params args 0 = .ok env)
    (hvs : vs.map Prod.fst = (f.leadingPhis 0).map Instr.id) :
    Ready ⟨f, env.bindAll vs, 0, (f.leadingPhis 0).length, none⟩ := by
  have hlt : 0 < f.blocks.size := by
    simpa [Function.isDeclaration, Nat.pos_iff_ne_zero] using hf
  let first : Frame := ⟨f, env, 0, 0, none⟩
  refine first.atHead_ready ho hlt (ho.first hlt) nofun (fun j hj => ?_) hvs
  simpa using Machine.isSome_lookup_bindParams henv hj (Nat.lt_of_lt_of_le hj hargs)

end Frame

/-! ## Steps and runs -/

/-- The end of a block asks for another block, or for the end of the function. -/
theorem Interpreted.signal_of_terminator {p : Program} {f : Function} {env : Env} {i : Instr}
    {sig : Signal} {mem mem' : Memory} (hi : i.IsTyped p.module f)
    (ht : i.op.isTerminator = true) (h : (perform p f env i).on mem = (.ok sig, mem')) :
    (∃ t, sig = .goto t) ∨ ∃ v, sig = .ret v := by
  have hrule := hi.rule
  obtain ⟨id, t, op⟩ := i
  cases op with
  | invoke => exact hrule.elim
  | br t => cases h; exact .inl ⟨t, rfl⟩
  | unreachable => cases h
  | ret v =>
      cases v with
      | none => cases h; exact .inr ⟨_, rfl⟩
      | some v =>
          obtain ⟨x, mem₁, -, hx⟩ := Effect.on_bind_ok h
          cases hx
          exact .inr ⟨x, rfl⟩
  | condBr c t e =>
      obtain ⟨x, mem₁, -, hx⟩ := Effect.on_bind_ok h
      cases hx
      exact .inl ⟨_, rfl⟩
  | switch v d cs =>
      obtain ⟨x, mem₁, -, hx⟩ := Effect.on_bind_ok h
      obtain ⟨t, mem₂, -, ht⟩ := Effect.on_bind_ok hx
      cases ht
      exact .inl ⟨t, rfl⟩
  | indirectBr a ts =>
      obtain ⟨x, mem₁, hx, -⟩ := Effect.on_bind_ok h
      cases hx
  | _ => cases ht

namespace Machine

open Interpreted (rules)

variable {R : Regime} {p : Program} {mem mem' : Memory} (ht : p.module.IsTyped)
  (ha : p.module.AddressesAllowed R) (ho : p.module.IsOrdered)

section

include ht ho

theorem enter_ready {k : Nat} {f : Function} {args : List Value} {next : Frame}
    (hm : R.Sound p.module mem) (hf : p.module.function? k = some f)
    (hargs : R.ArgsFit mem.storage f.params args)
    (h : (enter rules p f args).on mem = (.ok next, mem')) : next.Ready := by
  have hd : f.isDeclaration = false := by
    by_contra hd
    rw [on_enter, if_pos (by simpa using hd)] at h
    cases h
  have hlen : f.params.length ≤ args.length := by
    by_contra hlt
    have hj : args.length < f.params.length := Nat.lt_of_not_le hlt
    obtain ⟨v, hv, -⟩ := hargs args.length _ (List.getElem?_eq_getElem hj)
    simp at hv
  obtain ⟨-, env, vs, henv, hvs, rfl⟩ := (enter_meets hm ht ⟨k, hf⟩ hargs.ready
    (f.entryAllowed_true p.module args)).ok _ _ h
  exact Frame.entered_ready (ho k f hf) hd hlen henv hvs

end

include ht ha ho

/-- A step of a machine whose frames are ready leads to one whose frames are ready. -/
theorem step_ready {last : Ty} {fr : Frame} {waiting : List Frame} {st : State}
    (hm : R.Sound p.module mem)
    (hfits : (State.running fr waiting).Fits R p.module last mem.storage)
    (hready : (State.running fr waiting).Ready)
    (h : (step rules p fr waiting).on mem = (.ok st, mem')) : st.Ready := by
  obtain ⟨hfr, hwaitsFit⟩ := hfits
  obtain ⟨hr, hwaits⟩ := hready
  obtain ⟨k, hk⟩ := hfr.member
  have hof := ho k _ hk
  have hmember {i : Instr} (hi : fr.current? = some i) : i ∈ fr.function.instrs fr.block :=
    List.mem_of_getElem? hi
  have htyped {i : Instr} (hi : fr.current? = some i) : i.IsTyped p.module fr.function :=
    ht.instrs k _ hk _ i (hmember hi)
  -- what comes of an instruction, whatever it may fail with
  have hperform {i : Instr} (hi : fr.current? = some i) :=
    Interpreted.perform_meets hm hfr.env ht.initializers (htyped hi)
      (ha k _ hk _ i (hmember hi)) ((fr.stepAllowed_true R p mem).instr i hi)
  cases stepped_of_on h with
  | @bound i v _ hi hp =>
      refine ⟨Frame.advance_ready hr hof hi ?_ v, hwaits⟩
      by_contra hterm
      rcases Interpreted.signal_of_terminator (htyped hi) (by simpa using hterm) hp with
        ⟨t, ht⟩ | ⟨w, hw⟩
      · cases ht
      · cases hw
  | @left i v _ hi hp =>
      cases waiting with
      | nil => trivial
      | cons w rest =>
          obtain ⟨⟨hw, j, hj, hterm, hpending⟩, hrest⟩ := List.forall_mem_cons.mp hwaits
          obtain ⟨n, hn⟩ := hwaitsFit.1.member
          have hresume : w.resume v = w.advance j.id v := by rw [Frame.resume, hpending]
          exact ⟨hresume ▸ Frame.advance_ready hw (ho n _ hn) hj hterm v, hrest⟩
  | @jumped i t next mem₁ _ hi hp hj =>
      have hmeets := hperform hi
      obtain ⟨hm₁, hext⟩ := hmeets.after hp
      have htarget : t ∈ i.op.targets := hmeets.ok _ _ hp
      obtain ⟨-, vs, hvs, rfl⟩ := (jump_meets hm₁ ht (hfr.mono hext)
        ((fr.stepAllowed_true R p mem).jump i t hi htarget)).ok _ _ hj
      exact ⟨Frame.jumped_ready hr hof hi htarget hvs, hwaits⟩
  | @called i c g args inner mem₁ _ hi hp hg he =>
      have hmeets := hperform hi
      obtain ⟨hm₁, -⟩ := hmeets.after hp
      obtain ⟨g', hg', -, hargs⟩ := hmeets.ok _ _ hp
      rw [hg] at hg'
      cases hg'
      have hterm : i.op.isTerminator = false := by
        by_contra hterm
        rcases Interpreted.signal_of_terminator (htyped hi) (by simpa using hterm) hp with
          ⟨t, ht⟩ | ⟨w, hw⟩
        · cases ht
        · cases hw
      refine ⟨enter_ready ht ho hm₁ hg hargs he, List.forall_mem_cons.mpr ⟨⟨?_, ?_⟩, hwaits⟩⟩
      · exact ⟨hr.params, hr.here, hr.started, hr.has⟩
      · exact ⟨i, hi, hterm, rfl⟩

/-- Every state that a run reaches is ready. -/
theorem reaches_ready {k : Nat} {f : Function} {args : List Value} {st : State}
    (hm : R.Sound p.module mem) (hf : p.module.function? k = some f)
    (hargs : R.ArgsFit mem.storage f.params args)
    (h : Reaches rules p f args mem st mem') : st.Ready := by
  induction h with
  | entered he => exact ⟨enter_ready ht ho hm hf hargs he, nofun⟩
  | stepped hr hs ih =>
      obtain ⟨hm₁, -, hfits⟩ := reaches_fits ht ha ⟨k, hf⟩ hm hargs.ready hr
      exact step_ready ht ha ho hm₁ hfits ih hs

end Machine

/-! ## What a frame that is ready finds -/

/-- A value that an operand stands for in a frame has been computed. -/
def Operand.IsFound (env : Env) : Operand → Prop
  | .local id _ => (env.lookup id).isSome
  | _ => True

namespace Frame.Ready

variable {fr : Frame} {i : Instr}

theorem isFound {xs : List Nat} {o : Operand} (h : fr.Ready) (hhas : fr.Has xs)
    (ho : o.IsUsable fr.function xs) : o.IsFound fr.env := by
  cases o with
  | «local» id t =>
      obtain ⟨hvalue, hparam | hmem⟩ := ho
      · exact h.params id hparam
      · exact hhas id hmem hvalue
  | _ => trivial

/-- What the instruction uses that a frame is at is found. -/
theorem found (h : fr.Ready) (ho : fr.function.IsOrdered) (hi : fr.current? = some i) :
    ∀ o ∈ i.op.operands, o.IsFound fr.env := by
  obtain ⟨ids, hids, hhas⟩ := h.has
  exact fun o hmem => h.isFound hhas (ho.uses _ ids _ i hids hi o hmem)

/-- A phi that control goes to has an entry, and what it takes is found. -/
theorem entry_found {t : Nat} {j : Instr} (h : fr.Ready) (ho : fr.function.IsOrdered)
    (hi : fr.current? = some i) (ht : t ∈ i.op.targets) (hj : j ∈ fr.function.leadingPhis t) :
    ∃ o, Machine.entryFor (Machine.incomingOf j) (some fr.block) = some o ∧ o.IsFound fr.env := by
  obtain ⟨ids, hids, hhas⟩ := h.has_all ho hi (OpOver.isTerminator_of_target ht)
  obtain ⟨o, hentry, huse⟩ := ho.entries _ ids i t hids (List.mem_of_getElem? hi) ht j hj
  exact ⟨o, hentry, h.isFound hhas huse⟩

/-- The instruction that a frame is at is no phi. -/
theorem isPhi_eq_false (h : fr.Ready) (ho : fr.function.IsOrdered) (hi : fr.current? = some i) :
    i.op.isPhi = false :=
  ho.leads _ _ i h.started hi

end Frame.Ready

end Ssa
